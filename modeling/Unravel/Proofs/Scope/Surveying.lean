import Mathlib.Data.List.Nodup
import Unravel.Proofs.Scope.Bindings
import Unravel.Proofs.Tree.Nodes

/-!
Contract: a survey of a tree finds its lexical scopes, declarations and writes.

`Renders` says that a survey holds given scopes, declarations and writes.
`Adds` says what a step of a survey adds to them, and which labels it may give
an owner. One lemma says it of each step, and `Survey.adds_visit` of a tree.
-/

namespace Unravel

open Lexical

namespace ScopeIndex

/-- A scope is what an opening says, with its enclosing scopes by number. -/
structure Shows (index : ScopeIndex) (scope : Scope) (opening : Opening) : Prop where
  label : scope.label = opening.label
  opener : scope.opener = opening.opener
  kind : scope.kind = opening.kind
  enclosing : scope.enclosing.map index.labelAt = opening.enclosing.map some

/-- A noted write is a given one, seen from the scope it is made in. -/
structure Notes (index : ScopeIndex) (noted : NotedWrite) (write : Write) : Prop where
  name : noted.name = write.name
  label : noted.label = write.label
  scopes : ∃ nodes, index.Stands (some noted.scope) nodes ∧ write.scopes = labels nodes

variable {index later : ScopeIndex}

theorem Shows.extends {scope : Scope} {opening : Opening} (shows' : index.Shows scope opening)
    (grows : index.Extends later) : later.Shows scope opening :=
  { shows' with enclosing := grows.map_labelAt shows'.enclosing }

theorem Notes.extends {noted : NotedWrite} {write : Write} (notes : index.Notes noted write)
    (grows : index.Extends later) : later.Notes noted write := by
  obtain ⟨nodes, stands, isScopes⟩ := notes.scopes
  exact { notes with scopes := ⟨nodes, stands.extends grows, isScopes⟩ }

end ScopeIndex

namespace Survey

structure Renders (survey : Survey) (opened : List Opening) (declared : List Declaration)
    (written : List Write) : Prop where
  opened : List.Forall₂ survey.index.Shows survey.index.headings opened
  distinct : (survey.index.headings.map Scope.label).Nodup
  owned : ∀ scope ∈ survey.index.headings, (survey.index.owner? scope.label).isSome
  bound : survey.index.Binds declared []
  homes : ∀ declaration ∈ declared, declaration.home ∈ survey.index.headings.map Scope.label
  written : List.Forall₂ survey.index.Notes survey.writes.reverse written

structure Adds (before after : Survey) (opened : List Opening) (declared : List Declaration)
    (written : List Write) (touched : List (Option Nat)) : Prop where
  renders : ∀ {earlierOpened earlierDeclared earlierWritten}, before.Renders earlierOpened
    earlierDeclared earlierWritten → after.Renders (earlierOpened ++ opened) (earlierDeclared ++
    declared) (earlierWritten ++ written)
  extends' : before.index.Extends after.index
  owners : ∀ label, some label ∉ touched → after.index.owner? label = before.index.owner? label

variable {survey before after last : Survey}

theorem Adds.refl (survey : Survey) : survey.Adds survey [] [] [] [] where
  renders renders := by simpa using renders
  extends' := .refl _
  owners _ _ := rfl

theorem Adds.trans {opened moreOpened : List Opening} {declared moreDeclared : List Declaration}
    {written moreWritten : List Write} {touched moreTouched : List (Option Nat)} (first :
    before.Adds after opened declared written touched) (second : after.Adds last moreOpened
    moreDeclared moreWritten moreTouched) : before.Adds last (opened ++ moreOpened) (declared ++
    moreDeclared) (written ++ moreWritten) (touched ++ moreTouched) where
  renders renders := by simpa using second.renders (first.renders renders)
  extends' := first.extends'.trans second.extends'
  owners label outside := by
    rw [List.mem_append, not_or] at outside
    rw [second.owners label outside.2, first.owners label outside.1]

theorem Adds.mono {opened : List Opening} {declared : List Declaration} {written : List Write}
    {touched more : List (Option Nat)} (adds : before.Adds after opened declared written touched)
    (within : ∀ label, some label ∈ touched → some label ∈ more) :
    before.Adds after opened declared written more :=
  { adds with
    owners := fun label outside => adds.owners label fun member => outside (within label member) }

/-! ## Declarations -/

variable {value home : Value} {outer : Option Nat} {number inner : Nat} {scope : Scope}
  {above scopes : List Value} {kind : String}

/-- Registering a name in the scope of its home binds what the declaration
binds, there and in every other scope. -/
theorem Renders.bound_register {opened : List Opening} {earlier : List Declaration}
    {written : List Write} (renders : survey.Renders opened earlier written)
    (declaration : Declaration) (atNumber : survey.index.scopes[number]? = some scope)
    (isHome : scope.label = declaration.home) :
    (survey.index.modify number (·.register declaration.binding declaration.label)).Binds
      (earlier ++ [declaration]) [] := by
  intro other found atOther name
  rw [ScopeIndex.modify, List.getElem?_modify] at atOther
  obtain ⟨old, atOld, is⟩ := Option.map_eq_some_iff.1 atOther
  rw [binding?_append_singleton]
  by_cases here : number = other
  · subst here
    rw [if_pos rfl] at is
    cases atNumber.symm.trans atOld
    have label : found.label = scope.label := by
      rw [← is]
      exact congrArg (fun heading => heading.label) (scope.heading_register _ _)
    have isOf : declaration.isOf scope.label name = declaration.binding.name.same name := by
      rw [Declaration.isOf, isHome, beq_self_eq_true]
      rfl
    rw [label, ← is, Scope.own?_register, renders.bound atNumber name, isOf]
  · rw [if_neg here] at is
    subst is
    have elsewhere : declaration.home ≠ old.label := fun same =>
      here (ScopeIndex.eq_of_label renders.distinct atNumber atOld (isHome.trans same))
    have isOf : declaration.isOf old.label name = false := by
      rw [Declaration.isOf, beq_eq_false_iff_ne.2 elsewhere, Bool.false_and]
    rw [isOf, renders.bound atOld name]
    rfl

theorem adds_modify (declaration : Declaration) (atNumber : survey.index.scopes[number]? = some
    scope) (isHome : scope.label = declaration.home) : survey.Adds ⟨survey.index.modify number
    (·.register declaration.binding declaration.label), survey.writes⟩ [] [declaration] [] [] := by
  have headings := survey.index.headings_modify number
    (fun found => Scope.heading_register found declaration.binding declaration.label)
  have grows := ScopeIndex.Extends.of_headings headings
  refine ⟨?_, grows, fun _ _ => rfl⟩
  intro opened earlier written renders
  rw [List.append_nil, List.append_nil]
  refine ⟨?_, ?_, ?_, renders.bound_register declaration atNumber isHome, ?_, ?_⟩
  · rw [headings]
    exact renders.opened.imp fun _ _ shows' => shows'.extends grows
  · rw [headings]
    exact renders.distinct
  · rw [headings]
    exact renders.owned
  · rw [headings]
    intro other member
    rcases List.mem_append.1 member with old | new
    · exact renders.homes other old
    · cases List.mem_singleton.1 new
      rw [← isHome]
      exact List.mem_map.2 ⟨scope.heading, List.mem_map_of_mem (List.mem_of_getElem? atNumber), rfl⟩
  · exact renders.written.imp fun _ _ notes => notes.extends grows

theorem adds_register (isOf : survey.index.IsOf number home) (kind : BindingKind)
    (node identifier : Value) : survey.Adds (survey.register number kind node identifier) []
      (declared kind node [identifier] (some home)) [] [] := by
  obtain ⟨scope, atNumber, isHome, _⟩ := isOf
  unfold register declared
  rw [Option.bind_some, isHome]
  cases spelled : identifier.name? with
  | none => cases node.label? <;> simpa [spelled] using Adds.refl survey
  | some name =>
    cases labelled : node.label? with
    | none => exact Adds.refl survey
    | some label =>
      simp only [List.filterMap_cons, spelled, Option.map_some, List.filterMap_nil]
      exact adds_modify ⟨name, kind, node, identifier, label, scope.label⟩ atNumber rfl

theorem declared_cons (kind : BindingKind) (node identifier : Value) (rest : List Value)
    (home : Option Value) : declared kind node (identifier :: rest) home =
      declared kind node [identifier] home ++ declared kind node rest home := by
  unfold declared
  split
  · rw [← List.filterMap_append]
    rfl
  · rfl

theorem adds_registerAll (isOf : survey.index.IsOf number home) (kind : BindingKind) (node : Value)
    (identifiers : List Value) : survey.Adds (survey.registerAll number kind node identifiers) []
    (declared kind node identifiers (some home)) [] [] := by
  induction identifiers generalizing survey with
  | nil =>
    have nothing : declared kind node [] (some home) = [] := by
      unfold declared
      split <;> rfl
    rw [nothing]
    exact Adds.refl survey
  | cons identifier rest ih =>
    have first := adds_register isOf kind node identifier
    have others := ih (isOf.extends first.extends')
    rw [declared_cons]
    exact first.trans others

/-! ## Writes -/

theorem adds_noted {noted : NotedWrite} {write : Write} (notes : survey.index.Notes noted write) :
    survey.Adds ⟨survey.index, noted :: survey.writes⟩ [] [] [write] [] where
  renders {opened declared written} renders := by
    rw [List.append_nil, List.append_nil]
    refine { renders with written := ?_ }
    rw [List.reverse_cons]
    exact List.rel_append renders.written (.cons notes .nil)
  extends' := .refl _
  owners _ _ := rfl

theorem written_nil (node : Value) (scopes : List Value) : written node [] scopes = [] := by
  unfold written
  split <;> rfl

theorem adds_note (stands : survey.index.Stands (some number) scopes) (node : Value)
    (identifiers : List Value) : survey.Adds (survey.note number node identifiers) [] []
      (written node identifiers scopes) [] := by
  induction identifiers generalizing survey with
  | nil =>
    rw [written_nil]
    exact Adds.refl survey
  | cons identifier rest ih =>
    unfold note written at ih ⊢
    rw [List.foldl_cons]
    cases labelled : node.label? with
    | none =>
      rw [labelled] at ih
      cases identifier.name? <;> exact ih stands
    | some label =>
      rw [labelled] at ih
      cases spelled : identifier.name? with
      | none =>
        simp only [List.filterMap_cons, spelled, Option.map_none]
        exact ih stands
      | some name =>
        simp only [List.filterMap_cons, spelled, Option.map_some]
        have notes : survey.index.Notes ⟨number, name, label⟩ ⟨name, label, labels scopes⟩ :=
          ⟨rfl, rfl, scopes, stands, rfl⟩
        have first := adds_noted notes
        exact first.trans (ih stands)

/-! ## One node -/

/-- The own name of a node, where it has one and it is to be declared. -/
theorem adds_own (isOf : survey.index.IsOf number home) (kind : BindingKind) (value : Value)
    (wanted : Bool) : survey.Adds (if wanted && !(value.attr "id").isNull then
        survey.register number kind value (value.attr "id") else survey)
      [] (if wanted then declared kind value (ownIdentifiers value) (some home) else []) [] [] := by
  unfold ownIdentifiers
  cases wanted with
  | false => exact Adds.refl survey
  | true =>
    cases (value.attr "id").isNull with
    | true => exact adds_registerAll isOf kind value []
    | false => exact adds_register isOf kind value (value.attr "id")

theorem adds_hoist (stands : survey.index.Stands outer (inForce above)) (value : Value) :
    survey.Adds (survey.hoist value outer) [] (hoistedAt value above) [] [] := by
  unfold hoistedAt
  cases outer with
  | none =>
    -- Without a scope around it the declaration has no home.
    have nowhere : inForce above = [] := List.forall₂_nil_left_iff.1 stands
    have nothing : declared .hoisted value (ownIdentifiers value) none = [] := by
      unfold declared
      cases value.label? <;> rfl
    rw [nowhere, List.head?_nil, nothing, ite_self]
    exact Adds.refl survey
  | some scope =>
    obtain ⟨home, isHead, isOf⟩ := stands.head
    rw [isHead]
    exact adds_own isOf .hoisted value (value.isKind "FunctionDeclaration")

theorem adds_declarators (isOf : survey.index.IsOf number home) (keyword : Value) (declarators :
    List Value) : survey.Adds (declarators.foldl (fun survey node => survey.declarator number
    keyword node) survey) [] (declarators.flatMap fun node =>
        declared (.declared keyword) node (node.attr "id").patternIdentifiers (some home)) []
      [] := by
  induction declarators generalizing survey with
  | nil => exact Adds.refl survey
  | cons node rest ih =>
    have first := adds_registerAll isOf (.declared keyword) node (node.attr "id").patternIdentifiers
    exact first.trans (ih (isOf.extends first.extends'))

/-- Kinds of nodes that write to names. -/
def writingKinds : List String :=
  ["AssignmentExpression", "UpdateExpression", "ForInStatement", "ForOfStatement"]

theorem writtenIdentifiers_of_kind? (is : value.kind? = some kind) (other : kind ∉ writingKinds) :
    value.writtenIdentifiers = [] := by
  have isNot : ∀ name ∈ writingKinds, value.isKind name = false := fun name member =>
    Value.isKind_eq_false is fun same => other (same ▸ member)
  unfold Value.writtenIdentifiers
  rw [isNot _ (by decide), isNot _ (by decide), isNot _ (by decide), isNot _ (by decide)]
  rfl

theorem written_of_isKind (is : value.isKind kind) (other : kind ∉ writingKinds)
    (scopes : List Value) : written value value.writtenIdentifiers scopes = [] := by
  rw [writtenIdentifiers_of_kind? (Value.kind?_of_isKind is) other, written_nil]

theorem written_of_isFunction (is : value.isFunction) (scopes : List Value) :
    written value value.writtenIdentifiers scopes = [] := by
  have apart : ∀ kind ∈ functionKinds, kind ∉ writingKinds := by decide
  obtain ⟨kind, listed, isKind⟩ := Value.exists_kind?_of_isFunction is
  rw [writtenIdentifiers_of_kind? isKind (apart kind listed), written_nil]

theorem adds_declare {wide : Value} (stands : survey.index.Stands (some inner) scopes) (housed :
    scopes.find? isWide = some wide) (value : Value) : survey.Adds (survey.declare value inner) []
    (declaredInside value scopes) (written value value.writtenIdentifiers scopes) [] := by
  obtain ⟨home, isHead, isOf⟩ := stands.head
  unfold declare declaredInside
  rw [isHead, housed]
  split
  · rename_i isFunction
    rw [written_of_isFunction isFunction]
    have own := adds_own isOf .ownName value (value.isKind "FunctionExpression")
    exact own.trans (adds_registerAll (isOf.extends own.extends') .param value _)
  · split
    · rename_i isDeclaration
      rw [written_of_isKind isDeclaration (by decide)]
      cases value.isBlockScoped with
      | true => exact adds_declarators isOf (value.attr "kind") _
      | false => exact adds_declarators (stands.functionScope housed) (value.attr "kind") _
    · split
      · rename_i isClass
        rw [written_of_isKind isClass (by decide)]
        have own := adds_own isOf .classDeclared value true
        cases isNull : (value.attr "id").isNull <;> rw [isNull] at own <;> exact own
      · split
        · rename_i isCatch
          rw [written_of_isKind isCatch (by decide)]
          exact adds_registerAll isOf .caught value _
        · exact adds_note stands value _

/-! ## Opening scopes -/

/-- A node that a survey comes to has an owner only if it is a shared body, and
then it is the scope around it. -/
inductive Known (index : ScopeIndex) (value : Value) (above : List Value) (outer : Option Nat) :
    Prop where
  | shared (number : Nat) (is : isSharedBody value above = true) (isOuter : outer = some number)
      (found : value.label?.bind index.owner? = some number)
  | fresh (isNot : isSharedBody value above = false)
      (missing : value.label?.bind index.owner? = none)

/-- The survey with one more scope, which a body may share. -/
def opened (survey : Survey) (shared : Option Nat) (scope : Scope) : Survey :=
  let number := survey.index.scopes.length
  let program :=
    if scope.kind = .program then survey.index.program.orElse fun _ => some number
    else survey.index.program
  ⟨⟨survey.index.scopes ++ [scope], (scope.label, number) :: (shared.map fun body => (body,
    number)).toList ++ survey.index.owners, program⟩, survey.writes⟩

theorem exists_of_scopeKind? {kind : ScopeKind} (is : value.scopeKind? = some kind) :
    ∃ label opener, value.label? = some label ∧ value.kind? = some opener := by
  cases value with
  | node label opener fields => exact ⟨label, opener, rfl, rfl⟩
  | _ => cases is

theorem openScope_of_known {known : Nat} (found : value.label?.bind survey.index.owner? = some
    known) : survey.openScope value outer = (survey, some known) := by
  unfold openScope
  rw [found]

theorem openScope_of_plain (missing : value.label?.bind survey.index.owner? = none)
    (plain : value.scopeKind? = none) : survey.openScope value outer = (survey, outer) := by
  unfold openScope
  rw [missing, plain]

theorem openScope_of_fresh {kind : ScopeKind} {label : Nat} {opener : String}
    (missing : value.label?.bind survey.index.owner? = none)
    (isKind : value.scopeKind? = some kind) (isLabel : value.label? = some label)
    (isOpener : value.kind? = some opener) : survey.openScope value outer =
      (survey.opened value.sharedBody? ⟨label, opener, kind, outer.elim [] survey.index.chain, []⟩,
        some survey.index.scopes.length) := by
  unfold openScope
  rw [missing, isKind, isLabel, isOpener]
  rfl

theorem headings_opened (survey : Survey) (shared : Option Nat) (scope : Scope) : (survey.opened
    shared scope).index.headings = survey.index.headings ++ [scope.heading] := List.map_append

theorem extends_opened (survey : Survey) (shared : Option Nat) (scope : Scope) :
    survey.index.Extends (survey.opened shared scope).index := by
  rw [ScopeIndex.Extends, headings_opened]
  exact List.prefix_append _ _

theorem length_opened (survey : Survey) (shared : Option Nat) (scope : Scope) : (survey.opened
    shared scope).index.scopes.length = survey.index.scopes.length + 1 := List.length_append

theorem owner?_opened (survey : Survey) (shared : Option Nat) (scope : Scope) (label : Nat) :
    (survey.opened shared scope).index.owner? label =
      if some label ∈ [some scope.label, shared] then some survey.index.scopes.length
      else survey.index.owner? label := by
  unfold ScopeIndex.owner? opened
  cases shared with
  | none => simp [lookup_cons_ite]
  | some body =>
    simp only [Option.map_some, Option.toList_some, List.cons_append, List.nil_append,
      lookup_cons_ite, List.mem_cons, Option.some.injEq, List.not_mem_nil, or_false]
    by_cases own : label = scope.label <;> simp [own]

theorem renders_opened {opened : List Opening} {declared : List Declaration} {written : List Write}
    (renders : survey.Renders opened declared written) (shared : Option Nat) {opening : Opening}
    (missing : survey.index.owner? scope.label = none) (empty : scope.bindings = []) (shows' :
    (survey.opened shared scope).index.Shows scope opening) : (survey.opened shared scope).Renders
    (opened ++ [opening]) declared written := by
  have grows := survey.extends_opened shared scope
  have absent : scope.label ∉ survey.index.headings.map Scope.label := by
    intro member
    obtain ⟨known, inside, is⟩ := List.mem_map.1 member
    have owned := renders.owned known inside
    rw [is, missing] at owned
    cases owned
  refine ⟨?_, ?_, ?_, ?_, ?_, ?_⟩
  · rw [headings_opened]
    refine List.rel_append (renders.opened.imp fun _ _ shows' => shows'.extends grows) ?_
    exact .cons ⟨shows'.label, shows'.opener, shows'.kind, shows'.enclosing⟩ .nil
  · rw [headings_opened, List.map_append]
    exact renders.distinct.append (List.nodup_singleton _) (List.disjoint_singleton.2 absent)
  · rw [headings_opened]
    intro known member
    rw [owner?_opened]
    split
    · rfl
    · rename_i outside
      rcases List.mem_append.1 member with old | new
      · exact renders.owned known old
      · cases List.mem_singleton.1 new
        exact absurd List.mem_cons_self outside
  · intro number found atNumber name
    rcases List.mem_append.1 (List.mem_of_getElem? atNumber) with old | new
    · obtain ⟨place, atPlace⟩ := List.mem_iff_getElem?.1 old
      exact renders.bound atPlace name
    · -- No declaration so far has the new scope as its home.
      cases List.mem_singleton.1 new
      have unbound : declared.filter (Declaration.isOf scope.label name) = [] := by
        rw [List.filter_eq_nil_iff]
        intro declaration member isOf
        have isHome := beq_iff_eq.1 (Bool.and_eq_true_iff.1 isOf).1
        exact absent (isHome ▸ renders.homes declaration member)
      rw [Scope.own?, empty, binding?, unbound]
      rfl
  · rw [headings_opened, List.map_append]
    intro declaration member
    exact List.mem_append_left _ (renders.homes declaration member)
  · exact renders.written.imp fun _ _ notes => notes.extends grows

/-- Going into a node, into a scope of its own or not, puts those scopes in
force that the path says. -/
structure Enters (before after : Survey) (value : Value) (above : List Value)
    (inner : Option Nat) : Prop where
  adds : before.Adds after (openingAt (value :: above)) [] [] [value.label?, value.sharedBody?]
  stands : after.index.Stands inner (inForce (value :: above))
  owners : ∀ label, after.index.owner? label =
    if opens value above = true ∧ some label ∈ [value.label?, value.sharedBody?] then inner
    else before.index.owner? label

theorem enters_of_closed (closed : opens value above = false) (stands : survey.index.Stands outer
    (inForce above)) : survey.Enters survey value above outer := by
  refine ⟨?_, ?_, ?_⟩
  · rw [openingAt, closed]
    exact (Adds.refl survey).mono fun _ member => absurd member List.not_mem_nil
  · rw [inForce, closed]
    exact stands
  · intro label
    rw [closed, if_neg fun both => Bool.false_ne_true both.1]

theorem openingAt_of_opens (opening : opens value above)
    (isKind : value.scopeKind? = some scope.kind) (isLabel : value.label? = some scope.label)
    (isOpener : value.kind? = some scope.opener) : openingAt (value :: above) =
      [⟨scope.label, scope.opener, scope.kind, labels (inForce above)⟩] := by
  rw [openingAt, opening, isKind, isLabel, isOpener]
  rfl

theorem enters_opened (stands : survey.index.Stands outer (inForce above)) (opening : opens value
    above) (missing : survey.index.owner? scope.label = none) (isKind : value.scopeKind? = some
    scope.kind) (isLabel : value.label? = some scope.label) (isOpener : value.kind? = some
    scope.opener) (isEnclosing : scope.enclosing = outer.elim [] survey.index.chain) (empty :
    scope.bindings = []) : survey.Enters (survey.opened value.sharedBody? scope) value above (some
    survey.index.scopes.length) := by
  have atEnd : (survey.opened value.sharedBody? scope).index.scopes[survey.index.scopes.length]? =
      some scope := List.getElem?_concat_length
  have grows := survey.extends_opened value.sharedBody? scope
  have owners := survey.owner?_opened value.sharedBody? scope
  have around : List.Forall₂ (survey.opened value.sharedBody? scope).index.IsOf
      scope.enclosing (inForce above) := by
    rw [isEnclosing]
    exact stands.imp fun _ _ isOf => isOf.extends grows
  refine ⟨⟨?_, grows, ?_⟩, ?_, ?_⟩
  · intro earlierOpened earlierDeclared earlierWritten renders
    rw [List.append_nil, List.append_nil, openingAt_of_opens opening isKind isLabel isOpener]
    exact renders_opened renders _ missing empty
      ⟨rfl, rfl, rfl, ScopeIndex.map_labelAt_of_isOf around⟩
  · intro other outside
    rw [owners, ← isLabel, if_neg outside]
  · unfold ScopeIndex.Stands ScopeIndex.chain
    rw [Option.elim_some, atEnd, inForce, opening]
    exact .cons ⟨scope, atEnd, isLabel, isKind⟩ around
  · intro other
    rw [owners, opening, ← isLabel]
    simp only [true_and]

theorem enters_openScope (stands : survey.index.Stands outer (inForce above)) (known : Known
    survey.index value above outer) : survey.Enters (survey.openScope value outer).1 value above
    (survey.openScope value outer).2 := by
  cases known with
  | shared number isShared isOuter found =>
    rw [openScope_of_known found, ← isOuter]
    refine enters_of_closed ?_ stands
    rw [opens, isShared, Bool.not_true, Bool.and_false]
  | fresh isNot missing =>
    cases isKind : value.scopeKind? with
    | none =>
      rw [openScope_of_plain missing isKind]
      refine enters_of_closed ?_ stands
      rw [opens, Value.createsScope, isKind, Option.isSome_none, Bool.false_and]
    | some kind =>
      obtain ⟨label, opener, isLabel, isOpener⟩ := exists_of_scopeKind? isKind
      rw [openScope_of_fresh missing isKind isLabel isOpener]
      rw [isLabel] at missing
      have opening : opens value above := by
        rw [opens, Value.createsScope, isKind, isNot]
        rfl
      exact enters_opened stands opening missing isKind isLabel isOpener rfl rfl

/-! ## The recursion -/

theorem visit_eq (entered : (survey.hoist value outer).openScope value outer = (after, some inner))
    : visit value outer survey = value.children.foldl (fun survey child => visit child (some inner)
    survey) (after.declare value inner) := by
  rw [visit, entered]
  dsimp only
  rw [List.foldl_subtype (g := fun survey child => visit child (some inner) survey)
    fun _ _ _ => rfl, List.unattach_attach]

theorem visit_of_outside (entered : (survey.hoist value outer).openScope value outer = (after,
    none)) : visit value outer survey = after := by
  rw [visit, entered]

end Survey

end Unravel
