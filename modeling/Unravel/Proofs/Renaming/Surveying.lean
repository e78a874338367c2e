import Unravel.Proofs.Renaming.Respelling
import Unravel.Proofs.Scope.Surveying

/-!
Contract: a survey finds the same bindings however variables are spelled.

Two trees that differ in the spelling of variables are surveyed in step. What has
been found in them is the same at every moment, up to the spelling and the labels
(`SameSurvey`), if different names that occur are spelled differently; so the same
scopes and bindings are found in the end (`sameIndex_build`).
-/

namespace Unravel

open Value

variable {name newName : Name} {α β : Type} {label newLabel : Nat} {node : Value}

/-- Labels and names that differ in one tree differ in the other. -/
structure Dictionary.Exact (book : Dictionary) : Prop where
  labels : ∀ ⦃label other another more : Nat⦄, book.labels label other →
    book.labels another more → (label = another ↔ other = more)
  names : ∀ ⦃name other : String⦄, book.occurs name → book.occurs other →
    book.spelling name = book.spelling other → name = other

/-- Two bindings of the same variable. -/
structure SameBinding (book : Dictionary) (binding new : Binding) : Prop where
  name : book.Named binding.name new.name
  kind : new.kind = binding.kind
  node : book.Labelled binding.node new.node
  identifier : book.Labelled binding.identifier new.identifier
  violations : List.Forall₂ book.labels binding.violations new.violations

structure SameScope (book : Dictionary) (scope new : Scope) : Prop where
  label : book.labels scope.label new.label
  opener : new.opener = scope.opener
  kind : new.kind = scope.kind
  enclosing : new.enclosing = scope.enclosing
  bindings : List.Forall₂ (SameBinding book) scope.bindings new.bindings

structure SameIndex (book : Dictionary) (index new : ScopeIndex) : Prop where
  scopes : List.Forall₂ (SameScope book) index.scopes new.scopes
  owners : List.Forall₂ (fun entry other => book.labels entry.1 other.1 ∧ other.2 = entry.2)
    index.owners new.owners
  program : new.program = index.program

structure SameWrite (book : Dictionary) (write new : NotedWrite) : Prop where
  scope : new.scope = write.scope
  name : book.Named write.name new.name
  label : book.labels write.label new.label

structure SameSurvey (book : Dictionary) (survey new : Survey) : Prop where
  index : SameIndex book survey.index new.index
  writes : List.Forall₂ (SameWrite book) survey.writes new.writes

variable {book : Dictionary}

/-! ## Names -/

theorem Dictionary.Exact.same (exact : book.Exact) {new other otherNew : Name} (first : book.Named
    name new) (second : book.Named other otherNew) : new.same otherNew = name.same other := by
  obtain ⟨text, rfl, occurs, rfl⟩ := first
  obtain ⟨otherText, rfl, alsoOccurs, rfl⟩ := second
  rw [Bool.eq_iff_iff, Name.same_text_iff, Name.same_text_iff]
  exact ⟨exact.names occurs alsoOccurs, congrArg book.spelling⟩

variable {value : Value}

theorem Dictionary.Spelled.name? {new : Value} (spelled : book.Spelled value new) : ∃ name newName,
    value.name? = some name ∧ new.name? = some newName ∧ book.Named name newName := by
  obtain ⟨text, is, occurs, isNew⟩ := spelled.name
  refine ⟨.text text, .text (book.spelling text), ?_, ?_, text, rfl, occurs, rfl⟩
  · rw [Value.name?, is]
    rfl
  · rw [Value.name?, isNew]
    rfl

/-! ## Scopes -/

variable {related : α → β → Prop} {items : List α} {others : List β}

theorem rel_find? {chosen : α → Bool} {also : β → Bool} (alike : ∀ ⦃item other⦄, related item other
    → also other = chosen item) (each : List.Forall₂ related items others) : Option.Rel related
    (items.find? chosen) (others.find? also) := by
  induction each with
  | nil => exact .none
  | @cons item other _ _ here _ ih =>
    rw [List.find?_cons, List.find?_cons, alike here]
    cases chosen item with
    | true => exact .some here
    | false => exact ih

theorem rel_getElem? (each : List.Forall₂ related items others) (position : Nat) :
    Option.Rel related items[position]? others[position]? := by
  induction each generalizing position with
  | nil => exact .none
  | cons here _ ih =>
    cases position with
    | zero => exact .some here
    | succ position => exact ih position

theorem rel_modify {change : α → α} {also : β → β} (keeps : ∀ ⦃item other⦄, related item other →
    related (change item) (also other)) (each : List.Forall₂ related items others) (position : Nat)
    : List.Forall₂ related (items.modify position change) (others.modify position also) := by
  induction each generalizing position with
  | nil =>
    rw [List.modify_nil, List.modify_nil]
    exact .nil
  | cons here rest ih =>
    cases position with
    | zero => exact .cons (keeps here) rest
    | succ position => exact .cons here (ih position)

theorem rel_cases {first : Option α} {second : Option β} (each : Option.Rel related first second) :
    first = none ∧ second = none ∨
      ∃ item other, first = some item ∧ second = some other ∧ related item other := by
  cases each with
  | none => exact .inl ⟨rfl, rfl⟩
  | some here => exact .inr ⟨_, _, rfl, rfl, here⟩

namespace SameScope

variable {scope new : Scope} (same : SameScope book scope new) (exact : book.Exact)

include same exact

theorem own? (named : book.Named name newName) : Option.Rel (SameBinding book) (scope.own? name)
    (new.own? newName) := rel_find? (fun _ _ related => exact.same related.name named) same.bindings

theorem reassign (named : book.Named name newName) (labelled : book.labels label newLabel) :
    List.Forall₂ (SameBinding book)
      (scope.bindings.map fun old => if old.name.same name then old.reassign label else old)
      (new.bindings.map fun old =>
        if old.name.same newName then old.reassign newLabel else old) := by
  refine List.rel_map (fun binding become related => ?_) same.bindings
  rw [exact.same related.name named]
  split
  · exact { related with
      violations := List.rel_append related.violations (.cons labelled .nil) }
  · exact related

theorem write (named : book.Named name newName) (labelled : book.labels label newLabel) :
    SameScope book (scope.write name label) (new.write newName newLabel) :=
  { same with bindings := same.reassign exact named labelled }

theorem register {binding become : Binding} (bound : SameBinding book binding become)
    (labelled : book.labels label newLabel) :
    SameScope book (scope.register binding label) (new.register become newLabel) := by
  unfold Scope.register
  rcases rel_cases (same.own? exact bound.name) with ⟨new, first⟩ | ⟨_, _, known, also, _⟩
  · rw [new, first]
    exact { same with bindings := List.rel_append same.bindings (.cons bound .nil) }
  · rw [known, also]
    exact { same with bindings := same.reassign exact bound.name labelled }

end SameScope

namespace SameIndex

variable {index new : ScopeIndex} (same : SameIndex book index new)

include same

theorem modify {change also : Scope → Scope} (keeps : ∀ ⦃scope become⦄, SameScope book scope become
    → SameScope book (change scope) (also become)) (number : Nat) : SameIndex book (index.modify
    number change) (new.modify number also) :=
  { same with scopes := rel_modify keeps same.scopes number }

theorem owner? (exact : book.Exact) {other : Nat} (labelled : book.labels label other) :
    new.owner? other = index.owner? label := by
  have lookup {owners others : List (Nat × Nat)} (each : List.Forall₂ (fun entry other =>
      book.labels entry.1 other.1 ∧ other.2 = entry.2) owners others) :
      others.lookup other = owners.lookup label := by
    induction each with
    | nil => rfl
    | @cons entry become _ _ here _ ih =>
      obtain ⟨belongs, number⟩ := here
      rw [lookup_cons_ite, lookup_cons_ite, number, ih,
        ite_congr (propext (exact.labels labelled belongs)) (fun _ => rfl) fun _ => rfl]
  exact lookup same.owners

theorem chain (number : Nat) : new.chain number = index.chain number := by
  unfold ScopeIndex.chain
  rcases rel_cases (rel_getElem? same.scopes number) with ⟨none, also⟩ | ⟨_, _, one, also, related⟩
  · rw [none, also]
  · rw [one, also]
    dsimp only
    rw [related.enclosing]

theorem own? (exact : book.Exact) (number : Nat) (named : book.Named name newName) :
    Option.Rel (SameBinding book) (index.own? number name) (new.own? number newName) := by
  unfold ScopeIndex.own?
  rcases rel_cases (rel_getElem? same.scopes number) with ⟨none, also⟩ | ⟨_, _, one, also, related⟩
  · rw [none, also]
    exact .none
  · rw [one, also]
    exact related.own? exact named

theorem lookupAlong (exact : book.Exact) (named : book.Named name newName) (numbers : List Nat) :
    Option.Rel (fun found other => other.1 = found.1 ∧ SameBinding book found.2 other.2)
      (index.lookupAlong name numbers) (new.lookupAlong newName numbers) := by
  induction numbers with
  | nil => exact .none
  | cons number rest ih =>
    unfold ScopeIndex.lookupAlong
    rcases rel_cases (same.own? exact number named) with ⟨none, also⟩ | ⟨_, _, one, also, related⟩
    · rw [none, also]
      exact ih
    · rw [one, also]
      exact .some ⟨rfl, related⟩

theorem lookup (exact : book.Exact) (number : Nat) (named : book.Named name newName) :
    Option.Rel (fun found other => other.1 = found.1 ∧ SameBinding book found.2 other.2)
      (index.lookup number name) (new.lookup number newName) := by
  unfold ScopeIndex.lookup
  rw [same.chain]
  exact same.lookupAlong exact named _

theorem functionScope (number : Nat) : new.functionScope number = index.functionScope number := by
  unfold ScopeIndex.functionScope
  rw [same.chain]
  refine congrArg (fun isWide => ((index.chain number).find? isWide).getD number) ?_
  funext candidate
  rcases rel_cases (rel_getElem? same.scopes candidate) with
    ⟨none, also⟩ | ⟨_, _, one, also, related⟩
  · rw [none, also]
  · rw [one, also]
    dsimp only
    rw [related.kind]

end SameIndex

/-! ## Declarations and writes -/

namespace SameSurvey

variable {survey new : Survey} {become : Value} {identifiers newIdentifiers : List Value}

theorem register (same : SameSurvey book survey new) (exact : book.Exact) (scope : Nat) (kind :
    BindingKind) (labelled : book.Labelled node become) {identifier newIdentifier : Value} (spelled
    : book.Spelled identifier newIdentifier) : SameSurvey book (survey.register scope kind node
    identifier) (new.register scope kind become newIdentifier) := by
  obtain ⟨name, newName, isName, isNewName, named⟩ := spelled.name?
  obtain ⟨label, newLabel, isLabel, isNewLabel, belongs⟩ := id labelled
  unfold Survey.register
  rw [isName, isLabel, isNewName, isNewLabel]
  have bound : SameBinding book ⟨name, kind, node, identifier, []⟩ ⟨newName, kind, become,
      newIdentifier, []⟩ := ⟨named, rfl, labelled, spelled.labelled, .nil⟩
  exact ⟨same.index.modify (fun _ _ related => related.register exact bound belongs) scope,
    same.writes⟩

theorem registerAll (same : SameSurvey book survey new) (exact : book.Exact) (scope : Nat) (kind :
    BindingKind) (labelled : book.Labelled node become) (spelled : List.Forall₂ book.Spelled
    identifiers newIdentifiers) : SameSurvey book (survey.registerAll scope kind node identifiers)
    (new.registerAll scope kind become newIdentifiers) := List.rel_foldl (fun _ _ related _ _
    spelled => related.register exact scope kind labelled spelled) same spelled

theorem note (same : SameSurvey book survey new) (scope : Nat) (labelled : book.Labelled node
    become) (spelled : List.Forall₂ book.Spelled identifiers newIdentifiers) : SameSurvey book
    (survey.note scope node identifiers) (new.note scope become newIdentifiers) := by
  refine List.rel_foldl (fun _ _ related _ _ spelled => ?_) same spelled
  obtain ⟨name, newName, isName, isNewName, named⟩ := spelled.name?
  obtain ⟨label, newLabel, isLabel, isNewLabel, belongs⟩ := labelled
  rw [isName, isLabel, isNewName, isNewLabel]
  exact { related with writes := .cons ⟨rfl, named, belongs⟩ related.writes }

end SameSurvey

/-! ## Nodes -/

section Nodes

variable {kept : Bool} {value become : Value} (respelled : Respelled book kept value become)

include respelled

theorem isFunction_respelled : become.isFunction = value.isFunction := by
  rw [Value.isFunction, Value.isFunction, respelled.kind?]

theorem scopeKind?_respelled : become.scopeKind? = value.scopeKind? := by
  rw [Value.scopeKind?, Value.scopeKind?, respelled.kind?]

variable {kind : String}

theorem ownName_respelled (shaped : value.WellShaped) (is : value.isKind kind) (named : kind ∈
    namedKinds) : (become.attr "id").isNull = (value.attr "id").isNull ∧ ((value.attr "id").isNull =
    false → book.Spelled (value.attr "id") (become.attr "id")) := by
  have table : ∀ kind ∈ namedKinds, kind ≠ "Identifier" ∧ kind ∉ keepingKinds ∧
      (Members.get? childTable kind).any (·.contains "id") = true := by decide
  obtain ⟨differs, plain, listed⟩ := table kind named
  have isKind := kind?_of_isKind is
  have own := shaped.own kind named is
  have single : (value.attr "id").isList = false := by
    cases held : value.attr "id" <;> rw [held] at own <;> first | rfl | cases own
  have attr := respelled.attr (isNode_of_kind? isKind) (isKind_eq_false isKind differs)
    (mem_childFields_of_kind? isKind listed) single
  rw [isPropertyName_of_kind isKind _ plain] at attr
  refine ⟨attr.isNull, fun filled => attr.spelled ?_⟩
  rwa [filled] at own

theorem body_respelled (is : value.kind? = some kind) (differs : kind ≠ "Identifier") (listed :
    (Members.get? childTable kind).any (·.contains "body")) : (become.attr "body").isKind
    "BlockStatement" = (value.attr "body").isKind "BlockStatement" ∧ ((value.attr "body").isKind
    "BlockStatement" → Option.Rel book.labels (value.attr "body").label? (become.attr
    "body").label?) := by
  have isNode := isNode_of_kind? is
  have other := isKind_eq_false is differs
  have isChild := mem_childFields_of_kind? is listed
  have same := (respelled.alike isNode other).isList "body" isChild
  have noKind {held : Value} (isList : held.isList = true) :
      held.isKind "BlockStatement" = false := by
    cases held <;> first | rfl | cases isList
  cases isList : (value.attr "body").isList with
  | true =>
    rw [noKind isList, noKind (same.trans isList)]
    exact ⟨rfl, fun is => nomatch is⟩
  | false =>
    have attr := respelled.attr isNode other isChild isList
    refine ⟨attr.isKind _, fun isBlock => ?_⟩
    obtain ⟨_, _, isLabel, isNewLabel, belongs⟩ :=
      attr.labelled (isNode_of_kind? (kind?_of_isKind isBlock))
    rw [isLabel, isNewLabel]
    exact .some belongs

theorem sharedBody?_respelled (shaped : value.WellShaped) :
    Option.Rel book.labels value.sharedBody? become.sharedBody? := by
  unfold sharedBody?
  dsimp only
  rw [isFunction_respelled respelled, respelled.isKind]
  cases isFunction : value.isFunction with
  | true =>
    have table : ∀ kind ∈ functionKinds, kind ≠ "Identifier" ∧
        (Members.get? childTable kind).any (·.contains "body") = true := by decide
    obtain ⟨kind, isListed, is⟩ := exists_kind?_of_isFunction isFunction
    obtain ⟨differs, listed⟩ := table kind isListed
    obtain ⟨isKind, labelled⟩ := body_respelled respelled is differs listed
    rw [isKind]
    cases isBlock : (value.attr "body").isKind "BlockStatement" with
    | true => exact labelled isBlock
    | false => exact .none
  | false =>
    cases isCatch : value.isKind "CatchClause" with
    | true =>
      obtain ⟨_, labelled⟩ := body_respelled respelled (kind?_of_isKind isCatch) (by decide) rfl
      exact labelled (shaped.body isCatch)
    | false => exact .none

theorem targets_respelled :
    List.Forall₂ book.Searched (Lexical.targets value) (Lexical.targets become) := by
  have isKind {held new : Value} (searched : book.Searched held new) (kind : String) :
      new.isKind kind = held.isKind kind := by
    rcases searched with related | ⟨no, noNew⟩
    · exact related.isKind kind
    · rw [Value.isKind, Value.isKind, kind?_of_not_isNode no, kind?_of_not_isNode noNew]
  unfold Lexical.targets
  rw [respelled.isKind, respelled.isKind, respelled.isKind, respelled.isKind]
  split
  · rename_i is
    exact .cons (Dictionary.searched_attr_of_plain respelled (kind?_of_isKind is) rfl (by decide)
      (by decide)) .nil
  · split
    · rename_i is
      refine List.rel_filter (fun _ _ searched => ?_) (.cons (Dictionary.searched_attr_of_plain
        respelled (kind?_of_isKind is) rfl (by decide) (by decide)) .nil)
      exact iff_of_eq (congrArg (· = true) (isKind searched "Identifier").symm)
    · split
      · rename_i either
        have left : book.Searched (value.attr "left") (become.attr "left") := by
          rw [Bool.or_eq_true] at either
          rcases either with is | is
          · exact Dictionary.searched_attr_of_plain respelled (kind?_of_isKind is) rfl (by decide)
              (by decide)
          · exact Dictionary.searched_attr_of_plain respelled (kind?_of_isKind is) rfl (by decide)
              (by decide)
        refine List.rel_filter (fun _ _ searched => ?_) (.cons left .nil)
        exact iff_of_eq (congrArg (fun is => (!is) = true) (isKind searched "VariableDeclaration").symm)
      · exact .nil

end Nodes

namespace SameSurvey

variable {survey new : Survey} {kept : Bool} {value become : Value}

section Steps

variable (same : SameSurvey book survey new) (exact : book.Exact)
  (respelled : Respelled book kept value become) (shaped : value.WellShaped)

include same exact respelled shaped

theorem registerOwn {kind : String} (named : kind ∈ namedKinds) (scope : Nat) (origin : BindingKind)
    : SameSurvey book (if value.isKind kind && !(value.attr "id").isNull then
        survey.register scope origin value (value.attr "id") else survey)
      (if become.isKind kind && !(become.attr "id").isNull then
        new.register scope origin become (become.attr "id") else new) := by
  rw [respelled.isKind]
  cases is : value.isKind kind with
  | false => exact same
  | true =>
    obtain ⟨isNull, spelled⟩ := ownName_respelled respelled shaped is named
    rw [isNull]
    cases filled : (value.attr "id").isNull with
    | true => exact same
    | false =>
      exact same.register exact scope origin
        (respelled.labelled (isNode_of_kind? (kind?_of_isKind is))) (spelled filled)

theorem hoist (outer : Option Nat) :
    SameSurvey book (survey.hoist value outer) (new.hoist become outer) := by
  cases outer with
  | none => exact same
  | some scope => exact same.registerOwn exact respelled shaped (by decide) scope .hoisted

theorem openScope (isNode : value.isNode) (outer : Option Nat) :
    SameSurvey book (survey.openScope value outer).1 (new.openScope become outer).1 ∧
      (new.openScope become outer).2 = (survey.openScope value outer).2 := by
  obtain ⟨label, other, isLabel, isNewLabel, belongs⟩ := respelled.labelled isNode
  obtain ⟨kind, isKind⟩ := isNode_iff_kind?.1 isNode
  have owner := same.index.owner? exact belongs
  have shared := sharedBody?_respelled respelled shaped
  unfold Survey.openScope
  rw [isLabel, isNewLabel, Option.bind_some, Option.bind_some, owner]
  cases survey.index.owner? label with
  | some known => exact ⟨same, rfl⟩
  | none =>
    dsimp only
    rw [scopeKind?_respelled respelled, respelled.kind?, isKind]
    cases value.scopeKind? with
    | none => exact ⟨same, rfl⟩
    | some scopeKind =>
      have number := same.index.scopes.length_eq
      have enclosing : outer.elim [] new.index.chain = outer.elim [] survey.index.chain := by
        cases outer with
        | none => rfl
        | some scope => exact same.index.chain scope
      rw [← number, enclosing, same.index.program]
      refine ⟨⟨⟨?_, ?_, rfl⟩, same.writes⟩, rfl⟩
      · exact List.rel_append same.index.scopes (.cons ⟨belongs, rfl, rfl, rfl, .nil⟩ .nil)
      · refine .cons ⟨belongs, rfl⟩ (List.rel_append ?_ same.index.owners)
        rcases rel_cases shared with ⟨none, also⟩ | ⟨_, _, body, also, belongs⟩
        · rw [none, also]
          exact .nil
        · rw [body, also]
          exact .cons ⟨belongs, rfl⟩ .nil

theorem declareFunction (isFunction : value.isFunction) (inner : Nat) :
    SameSurvey book (survey.declare value inner) (new.declare become inner) := by
  have table : ∀ kind ∈ functionKinds, kind ≠ "Identifier" ∧ kind ∉ keepingKinds ∧
      (Members.get? childTable kind).any (·.contains "params") = true := by decide
  obtain ⟨kind, isListed, is⟩ := exists_kind?_of_isFunction isFunction
  obtain ⟨differs, plain, listed⟩ := table kind isListed
  have labelled := respelled.labelled (isNode_of_kind? is)
  have params := List.rel_flatMap (Dictionary.searched_items respelled is listed differs plain)
    fun _ _ searched => searched.patternIdentifiers
  have opened := same.registerOwn exact respelled shaped
    (show "FunctionExpression" ∈ namedKinds by decide) inner .ownName
  unfold Survey.declare
  rw [isFunction_respelled respelled, isFunction]
  exact opened.registerAll exact inner .param labelled params

theorem declareVariables (is : value.isKind "VariableDeclaration") (scope : Nat) : SameSurvey book
      ((value.attr "declarations").items.foldl (fun survey node => survey.declarator scope
      (value.attr "kind") node) survey) ((become.attr "declarations").items.foldl (fun survey node
      => survey.declarator scope (value.attr "kind") node) new) := by
  have each := (List.forall₂_and_left _ _).2 ⟨shaped.declarators is,
    Dictionary.items_of_kind respelled (kind?_of_isKind is) rfl (by decide)⟩
  refine List.rel_foldl (fun _ _ related node _ found => ?_) same each
  obtain ⟨isDeclarator, respelled⟩ := found
  have isKind := kind?_of_isKind isDeclarator
  exact related.registerAll exact scope _ (respelled.labelled (isNode_of_kind? isKind))
    (Dictionary.searched_attr_of_plain respelled isKind rfl (by decide)
      (by decide)).patternIdentifiers

theorem declare (isNode : value.isNode) (inner : Nat) :
    SameSurvey book (survey.declare value inner) (new.declare become inner) := by
  have labelled := respelled.labelled isNode
  cases isFunction : value.isFunction with
  | true => exact same.declareFunction exact respelled shaped isFunction inner
  | false =>
    unfold Survey.declare
    rw [isFunction_respelled respelled, isFunction, if_neg Bool.false_ne_true,
      if_neg Bool.false_ne_true, respelled.isKind, respelled.isKind, respelled.isKind,
      writtenIdentifiers_eq, writtenIdentifiers_eq]
    split
    · rename_i is
      have isKind := kind?_of_isKind is
      have keyword : become.attr "kind" = value.attr "kind" :=
        (respelled.alike isNode (isKind_eq_false isKind (by decide))).plain "kind"
          (by rw [childFields_of_kind isKind rfl]; decide) (by decide)
      have inBlock : become.isBlockScoped = value.isBlockScoped := by
        rw [Value.isBlockScoped, Value.isBlockScoped, hasText, hasText, hasText, hasText, keyword]
      rw [keyword, inBlock, same.index.functionScope]
      exact same.declareVariables exact respelled shaped is _
    · split
      · rename_i is
        obtain ⟨isNull, spelled⟩ := ownName_respelled respelled shaped is (by decide)
        rw [isNull]
        cases filled : (value.attr "id").isNull with
        | true => exact same
        | false => exact same.register exact inner .classDeclared labelled (spelled filled)
      · split
        · rename_i is
          have param : book.Searched (value.attr "param") (become.attr "param") :=
            Dictionary.searched_attr_of_plain respelled (kind?_of_isKind is) rfl (by decide)
              (by decide)
          exact same.registerAll exact inner .caught labelled param.patternIdentifiers
        · exact same.note inner labelled (List.rel_flatMap (targets_respelled respelled)
            fun _ _ searched => searched.patternIdentifiers)

end Steps

/-- Two trees are surveyed in step. The induction follows the recursion of the survey: a
node is entered and declares, and then its children are visited in the scope it opened. -/
theorem visit {survey new : Survey} {kept : Bool} {value become : Value} {outer : Option Nat}
    (same : SameSurvey book survey new) (exact : book.Exact)
    (respelled : Respelled book kept value become) (isNode : value.isNode)
    (shaped : ∀ node ∈ value.nodes, node.WellShaped) :
    SameSurvey book (Survey.visit value outer survey) (Survey.visit become outer new) := by
  have here := shaped value (mem_nodes_self value)
  have hoisted := same.hoist exact respelled here outer
  obtain ⟨opened, scope⟩ := hoisted.openScope exact respelled here isNode outer
  cases entered : (survey.hoist value outer).openScope value outer with
  | mk after inner =>
    cases also : (new.hoist become outer).openScope become outer with
    | mk newAfter newInner =>
      rw [entered, also] at opened scope
      obtain rfl : newInner = inner := scope
      cases newInner with
      | none =>
        rw [Survey.visit_of_outside entered, Survey.visit_of_outside also]
        exact opened
      | some inner =>
        rw [Survey.visit_eq entered, Survey.visit_eq also]
        have each := (List.forall₂_and_left _ _).2
          ⟨fun child (member : child ∈ value.children) => member, respelled.children isNode⟩
        refine List.rel_foldl ?_ (opened.declare exact respelled here isNode inner) each
        rintro _ _ related child childNew ⟨member, kept, respelled⟩
        exact related.visit exact respelled (isNode_of_mem_children member)
          fun node inside => shaped node (mem_nodes_of_child member inside)
termination_by sizeOf value
decreasing_by exact sizeOf_lt_of_mem_children member

end SameSurvey

/-! ## Indexes -/

theorem SameIndex.settle {index new : ScopeIndex} (same : SameIndex book index new)
    (exact : book.Exact) {write become : NotedWrite} (noted : SameWrite book write become) :
    SameIndex book (Survey.settle index write) (Survey.settle new become) := by
  have found := same.lookup exact write.scope noted.name
  unfold Survey.settle
  rw [noted.scope]
  rcases rel_cases found with ⟨none, also⟩ | ⟨_, _, one, also, number, _⟩
  · rw [none, also]
    exact same
  · rw [one, also]
    dsimp only
    rw [number]
    exact same.modify (fun _ _ related => related.write exact noted.name noted.label) _

theorem sameIndex_build (exact : book.Exact) {kept : Bool} {become : Value} (respelled : Respelled
    book kept value become) (isNode : value.isNode) (shaped : ∀ node ∈ value.nodes, node.WellShaped)
    : SameIndex book (ScopeIndex.build value) (ScopeIndex.build become) := by
  have start : SameSurvey book ⟨ScopeIndex.empty, []⟩ ⟨ScopeIndex.empty, []⟩ :=
    ⟨⟨.nil, .nil, rfl⟩, .nil⟩
  have surveyed : SameSurvey book (Survey.visit value none ⟨.empty, []⟩) (Survey.visit become none
      ⟨.empty, []⟩) := start.visit exact respelled isNode shaped
  exact List.rel_foldl (fun _ _ related _ _ noted => related.settle exact noted) surveyed.index
    (List.rel_reverse surveyed.writes)

end Unravel
