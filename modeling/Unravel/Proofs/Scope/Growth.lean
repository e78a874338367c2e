import Mathlib.Data.List.Infix
import Unravel.Proofs.Scope.Surveying

/-!
Contract: how an index grows, whatever tree is added to it.

Scopes are never taken away and neither are names that they bind; more may come
to be counted against a binding, and nothing else of it changes. A scope is
enclosed by scopes that were opened before it, so that the chain of a scope in a
chain is the rest of that chain. Every node of an added tree that opens a scope is
known afterwards, so no walk over the tree has to add to its index.
-/

namespace Unravel

variable {number scope : Nat} {outer : Option Nat}

namespace Binding

/-- The binding is as it was, but for what has been counted against it since. -/
def Ages (binding later : Binding) : Prop :=
  ∃ more, later = { binding with violations := binding.violations ++ more }

variable {binding later last : Binding}

theorem Ages.refl (binding : Binding) : binding.Ages binding := ⟨[], by rw [List.append_nil]⟩

theorem Ages.trans (first : binding.Ages later) (second : later.Ages last) : binding.Ages last := by
  obtain ⟨more, rfl⟩ := first
  obtain ⟨further, rfl⟩ := second
  exact ⟨more ++ further, by rw [List.append_assoc]⟩

end Binding

/-- A later scope still binds what an earlier one does. -/
def Scope.Upholds (scope later : Scope) : Prop := ∀ ⦃name binding⦄, scope.own? name = some binding →
  ∃ aged, later.own? name = some aged ∧ binding.Ages aged

namespace ScopeIndex

/-- The scopes of a later index still bind what those of an earlier one do. -/
def Upholds (index later : ScopeIndex) : Prop := ∀ ⦃number name binding⦄, index.own? number name =
  some binding → ∃ aged, later.own? number name = some aged ∧ binding.Ages aged

/-- Scopes are enclosed by older scopes, and owners are scopes of the index. -/
structure Nested (index : ScopeIndex) : Prop where
  owners : ∀ {label number : Nat}, index.owner? label = some number → number < index.scopes.length
  around : ∀ {number : Nat} {scope : Scope}, index.scopes[number]? = some scope →
    ∃ outer : Option Nat, (∀ older ∈ outer, older < number) ∧
      scope.enclosing = outer.elim [] index.chain

/-- A scope, if there is one, is of the index. -/
def Has (index : ScopeIndex) (scope : Option Nat) : Prop :=
  ∀ number ∈ scope, number < index.scopes.length

/-- A later index has the scopes of an earlier one, with all they bind, and owners for
whatever had one. -/
structure Grows (index later : ScopeIndex) : Prop where
  extending : index.Extends later
  upholds : index.Upholds later
  retains : ∀ label, (index.owner? label).isSome → (later.owner? label).isSome

variable {index later last : ScopeIndex}

theorem Upholds.refl (index : ScopeIndex) : index.Upholds index :=
  fun _ _ binding own => ⟨binding, own, .refl binding⟩

theorem Upholds.trans (first : index.Upholds later) (second : later.Upholds last) :
    index.Upholds last := by
  intro number name binding own
  obtain ⟨aged, still, ages⟩ := first own
  obtain ⟨older, yet, agesOn⟩ := second still
  exact ⟨older, yet, ages.trans agesOn⟩

theorem Grows.refl (index : ScopeIndex) : index.Grows index :=
  ⟨.refl index, .refl index, fun _ => id⟩

theorem Grows.trans (first : index.Grows later) (second : later.Grows last) : index.Grows last :=
  ⟨first.extending.trans second.extending, first.upholds.trans second.upholds,
    fun label owned => second.retains label (first.retains label owned)⟩

theorem Grows.known? (grows : index.Grows later) {value : Value}
    (known : (index.known? value).isSome) : (later.known? value).isSome := by
  unfold ScopeIndex.known? at known ⊢
  cases label : value.label? with
  | none =>
    rw [label] at known
    cases known
  | some own =>
    rw [label] at known
    exact grows.retains own known

theorem Grows.bound (grows : index.Grows later) {name : Name}
    (is : (index.own? number name).isSome) : (later.own? number name).isSome := by
  obtain ⟨binding, own⟩ := Option.isSome_iff_exists.1 is
  obtain ⟨aged, still, _⟩ := grows.upholds own
  rw [still]
  rfl

theorem Grows.length_le (grows : index.Grows later) :
    index.scopes.length ≤ later.scopes.length := by
  have lengths := grows.extending.length_le
  rwa [headings, headings, List.length_map, List.length_map] at lengths

theorem Has.or {scope outer : Option Nat} (has : index.Has scope) (hasOuter : index.Has outer) :
    index.Has (scope.or outer) := by
  cases scope with
  | none => exact hasOuter
  | some number => exact has

theorem Has.grows {scope : Option Nat} (has : index.Has scope) (grows : index.Grows later) :
    later.Has scope := fun number member => Nat.lt_of_lt_of_le (has number member) grows.length_le

theorem Grows.chain (grows : index.Grows later) (within : number < index.scopes.length) :
    later.chain number = index.chain number :=
  grows.extending.chain (List.getElem?_eq_getElem within)

/-! ## Chains -/

theorem Nested.chain_of_suffix (nested : index.Nested) {rest : List Nat}
    (suffix : scope :: rest <:+ index.chain number) : index.chain scope = scope :: rest := by
  induction number using Nat.strongRecOn with
  | ind number older =>
    have whole : index.chain number = index.chain number := rfl
    conv at whole => rhs; unfold chain
    rw [whole] at suffix
    split at suffix
    · rename_i opened found
      rcases List.suffix_cons_iff.1 suffix with same | inside
      · cases same
        rw [whole, found]
      · obtain ⟨outer, before, enclosing⟩ := nested.around found
        rw [enclosing] at inside
        cases outer with
        | none => cases List.suffix_nil.1 inside
        | some outer => exact older outer (before outer rfl) inside
    · rename_i missing
      rcases List.suffix_cons_iff.1 suffix with same | inside
      · cases same
        rw [whole, missing]
      · cases List.suffix_nil.1 inside

theorem Nested.lt_of_mem_chain (nested : index.Nested) (within : number < index.scopes.length)
    (member : scope ∈ index.chain number) : scope < index.scopes.length := by
  induction number using Nat.strongRecOn with
  | ind number older =>
    have found := List.getElem?_eq_getElem within
    unfold chain at member
    rw [found] at member
    rcases List.mem_cons.1 member with rfl | inside
    · exact within
    · obtain ⟨outer, before, enclosing⟩ := nested.around found
      rw [enclosing] at inside
      cases outer with
      | none => cases inside
      | some outer =>
        have lower := before outer rfl
        exact older outer lower (Nat.lt_trans lower within) inside

theorem own?_of_lookupAlong {numbers : List Nat} {owner : Nat} {name : Name} {binding : Binding}
    (found : index.lookupAlong name numbers = some (owner, binding)) : owner ∈ numbers ∧ index.own?
    owner name = some binding := by
  induction numbers with
  | nil => cases found
  | cons number rest ih =>
    rw [lookupAlong] at found
    split at found
    · rename_i own
      cases found
      exact ⟨List.mem_cons_self, own⟩
    · obtain ⟨member, own⟩ := ih found
      exact ⟨List.mem_cons_of_mem _ member, own⟩

/-! ## Changes to the bindings of a scope -/

/-- The indexes differ at most in what scopes bind beyond what they bound. -/
structure Amends (index later : ScopeIndex) : Prop where
  headings : later.headings = index.headings
  owners : later.owners = index.owners
  upholds : index.Upholds later

theorem Amends.refl (index : ScopeIndex) : index.Amends index := ⟨rfl, rfl, .refl index⟩

theorem Amends.trans (first : index.Amends later) (second : later.Amends last) :
    index.Amends last :=
  ⟨second.headings.trans first.headings, second.owners.trans first.owners,
    first.upholds.trans second.upholds⟩

theorem Amends.grows (amends : index.Amends later) : index.Grows later :=
  ⟨.of_headings amends.headings, amends.upholds, fun label owned => by rwa [owner?, amends.owners]⟩

theorem Amends.length_eq (amends : index.Amends later) :
    later.scopes.length = index.scopes.length := by
  have lengths := congrArg List.length amends.headings
  rwa [ScopeIndex.headings, ScopeIndex.headings, List.length_map, List.length_map] at lengths

theorem Amends.nested (amends : index.Amends later) (nested : index.Nested) : later.Nested where
  owners is := by
    rw [owner?, amends.owners] at is
    rw [amends.length_eq]
    exact nested.owners is
  around {number scope} found := by
    have back : later.Extends index := .of_headings amends.headings.symm
    obtain ⟨before, foundBefore, same⟩ := back.scope found
    obtain ⟨outer, older, enclosing⟩ := nested.around foundBefore
    refine ⟨outer, older, ?_⟩
    have sameEnclosing : before.heading.enclosing = scope.heading.enclosing := by rw [same]
    rw [← show before.enclosing = scope.enclosing from sameEnclosing, enclosing]
    cases outer with
    | none => rfl
    | some outer =>
      have within := Nat.lt_trans (older outer rfl) (List.getElem?_eq_some_iff.1 foundBefore).1
      exact (amends.grows.chain within).symm

theorem amends_modify (index : ScopeIndex) (number : Nat) {change : Scope → Scope} (heading : ∀
    scope, (change scope).heading = scope.heading) (upholds : ∀ scope : Scope, scope.Upholds (change
    scope)) : index.Amends (index.modify number change) := by
  refine ⟨index.headings_modify number heading, rfl, ?_⟩
  intro other name binding own
  obtain ⟨scope, found, isOwn⟩ := Option.bind_eq_some_iff.1 own
  unfold own? modify
  rw [List.getElem?_modify, found]
  by_cases here : number = other
  · simpa [here] using upholds scope isOwn
  · simpa [here] using ⟨binding, isOwn, .refl binding⟩

end ScopeIndex

namespace Scope

theorem upholds_register (scope : Scope) (binding : Binding) (label : Nat) :
    scope.Upholds (scope.register binding label) := by
  intro name old own
  rw [own?_register, own]
  split
  · exact ⟨_, rfl, [label], rfl⟩
  · exact ⟨old, rfl, .refl old⟩

theorem upholds_write (scope : Scope) (other : Name) (label : Nat) :
    scope.Upholds (scope.write other label) := by
  intro name old own
  rw [own?_write, own]
  split
  · exact ⟨_, rfl, [label], rfl⟩
  · exact ⟨old, rfl, .refl old⟩

end Scope

namespace Survey

variable {survey after : Survey}

section Amends

variable (survey)

theorem amends_register (number : Nat) (kind : BindingKind) (node identifier : Value) :
    survey.index.Amends (survey.register number kind node identifier).index := by
  unfold register
  split
  · exact survey.index.amends_modify number (fun scope => scope.heading_register _ _)
      fun scope => scope.upholds_register _ _
  · exact .refl _

theorem amends_registerAll (number : Nat) (kind : BindingKind) (node : Value) (identifiers : List
    Value) : survey.index.Amends (survey.registerAll number kind node identifiers).index := by
  induction identifiers generalizing survey with
  | nil => exact .refl _
  | cons identifier rest ih =>
    exact (survey.amends_register number kind node identifier).trans (ih _)

theorem amends_note (number : Nat) (node : Value) (identifiers : List Value) :
    survey.index.Amends (survey.note number node identifiers).index := by
  unfold note
  induction identifiers generalizing survey with
  | nil => exact .refl _
  | cons identifier rest ih =>
    rw [List.foldl_cons]
    split
    · rename_i name label _ _
      exact ih ⟨survey.index, ⟨number, name, label⟩ :: survey.writes⟩
    · exact ih survey

theorem amends_hoist (value : Value) (scope : Option Nat) :
    survey.index.Amends (survey.hoist value scope).index := by
  unfold hoist
  split
  · split
    · exact survey.amends_register ..
    · exact .refl _
  · exact .refl _

theorem amends_declarators (number : Nat) (keyword : Value) (declarators : List Value) :
    survey.index.Amends (declarators.foldl (fun survey node => survey.declarator number keyword
    node) survey).index := by
  induction declarators generalizing survey with
  | nil => exact .refl _
  | cons node rest ih =>
    exact (survey.amends_registerAll ..).trans (ih _)

theorem amends_declare (value : Value) (inner : Nat) :
    survey.index.Amends (survey.declare value inner).index := by
  unfold declare
  split
  · split
    · exact (survey.amends_register ..).trans (amends_registerAll ..)
    · exact survey.amends_registerAll ..
  · split
    · exact survey.amends_declarators ..
    · split
      · split
        · exact .refl _
        · exact survey.amends_register ..
      · split
        · exact survey.amends_registerAll ..
        · exact survey.amends_note ..

end Amends

theorem amends_settle (index : ScopeIndex) (write : NotedWrite) :
    index.Amends (settle index write) := by
  unfold settle
  split
  · exact index.amends_modify _ (fun scope => scope.heading_write _ _)
      fun scope => scope.upholds_write _ _
  · exact .refl _

theorem amends_settled (index : ScopeIndex) (writes : List NotedWrite) :
    index.Amends (writes.foldl settle index) := by
  induction writes generalizing index with
  | nil => exact .refl _
  | cons write rest ih =>
    exact (amends_settle index write).trans (ih _)

/-! ## Whole trees -/

/-- The survey has grown to one whose scopes are nested. -/
structure Advances (before after : Survey) : Prop where
  grows : before.index.Grows after.index
  nested : after.index.Nested

theorem advances_opened {scope : Scope} (nested : survey.index.Nested) (has : survey.index.Has
    outer) (enclosing : scope.enclosing = outer.elim [] survey.index.chain) (shared : Option Nat) :
    survey.Advances (survey.opened shared scope) := by
  have extending := survey.extends_opened shared scope
  have old : ∀ {number : Nat}, number < survey.index.scopes.length →
      (survey.opened shared scope).index.scopes[number]? = survey.index.scopes[number]? :=
    fun within => List.getElem?_append_left within
  have grows : survey.index.Grows (survey.opened shared scope).index := by
    refine ⟨extending, fun number name binding own => ?_, fun label owned => ?_⟩
    · obtain ⟨known, atNumber, _⟩ := Option.bind_eq_some_iff.1 own
      rw [ScopeIndex.own?, old (List.getElem?_eq_some_iff.1 atNumber).1]
      exact ⟨binding, own, .refl binding⟩
    · rw [owner?_opened]
      split
      · rfl
      · exact owned
  have chains : ∀ {around : Option Nat}, survey.index.Has around → around.elim [] survey.index.chain
      = around.elim [] (survey.opened shared scope).index.chain := by
    intro around has
    cases around with
    | none => rfl
    | some number => exact (grows.chain (has number rfl)).symm
  refine ⟨grows, ?_, ?_⟩
  · intro label number is
    rw [owner?_opened] at is
    rw [length_opened]
    split at is
    · cases is
      exact Nat.lt_succ_self _
    · exact Nat.lt_succ_of_lt (nested.owners is)
  · intro number found atNumber
    rcases Nat.lt_or_ge number survey.index.scopes.length with within | beyond
    · rw [old within] at atNumber
      obtain ⟨around, older, isAround⟩ := nested.around atNumber
      refine ⟨around, older, isAround.trans (chains ?_)⟩
      exact fun other member => Nat.lt_trans (older other member) within
    · have inside := (List.getElem?_eq_some_iff.1 atNumber).1
      have isEnd : number = survey.index.scopes.length := by
        rw [length_opened] at inside
        omega
      subst isEnd
      have atEnd : (survey.opened shared scope).index.scopes[survey.index.scopes.length]? =
          some scope := List.getElem?_concat_length
      cases atNumber.symm.trans atEnd
      exact ⟨outer, has, enclosing.trans (chains has)⟩

theorem advances_openScope (nested : survey.index.Nested) (has : survey.index.Has outer)
    (value : Value) : survey.Advances (survey.openScope value outer).1 ∧
      (survey.openScope value outer).1.index.Has (survey.openScope value outer).2 ∧
      (value.createsScope → ((survey.openScope value outer).1.index.known? value).isSome) ∧
      ((outer.isSome || value.createsScope) → (survey.openScope value outer).2.isSome) := by
  cases known : value.label?.bind survey.index.owner? with
  | some number =>
    rw [openScope_of_known known]
    refine ⟨⟨.refl _, nested⟩, ?_, fun _ => ?_, fun _ => rfl⟩
    · rintro other ⟨rfl⟩
      obtain ⟨label, _, owner⟩ := Option.bind_eq_some_iff.1 known
      exact nested.owners owner
    · rw [ScopeIndex.known?, known]
      rfl
  | none =>
    cases isKind : value.scopeKind? with
    | none =>
      have plain : value.createsScope = false := by rw [Value.createsScope, isKind]; rfl
      rw [openScope_of_plain known isKind, plain, Bool.or_false]
      exact ⟨⟨.refl _, nested⟩, has, (absurd · Bool.false_ne_true), id⟩
    | some kind =>
      obtain ⟨label, opener, isLabel, isOpener⟩ := exists_of_scopeKind? isKind
      rw [openScope_of_fresh known isKind isLabel isOpener]
      refine ⟨advances_opened nested has rfl _, ?_, fun _ => ?_, fun _ => rfl⟩
      · rintro other ⟨rfl⟩
        rw [length_opened]
        exact Nat.lt_succ_self _
      · rw [ScopeIndex.known?, isLabel, Option.bind_some, owner?_opened, if_pos List.mem_cons_self]
        rfl

/-- The nodes of a tree that open a scope are known. -/
def Knows (index : ScopeIndex) (value : Value) : Prop :=
  ∀ node ∈ value.nodes, node.createsScope → (index.known? node).isSome

theorem advances_children {children : List Value} (each : ∀ child ∈ children, ∀ {survey : Survey},
    survey.index.Nested → survey.index.Has (some scope) →
      survey.Advances (visit child (some scope) survey) ∧
        Knows (visit child (some scope) survey).index child)
    (nested : survey.index.Nested) (has : survey.index.Has (some scope)) :
    let reached := children.foldl (fun survey child => visit child (some scope) survey) survey
    survey.Advances reached ∧ ∀ child ∈ children, Knows reached.index child := by
  induction children generalizing survey with
  | nil => exact ⟨⟨.refl _, nested⟩, List.forall_mem_nil _⟩
  | cons child rest ih =>
    obtain ⟨first, knows⟩ := each child List.mem_cons_self nested has
    obtain ⟨others, knowsRest⟩ := ih (fun other member => each other (List.mem_cons_of_mem _ member))
      first.nested (has.grows first.grows)
    refine ⟨⟨first.grows.trans others.grows, others.nested⟩, List.forall_mem_cons.2 ⟨?_, knowsRest⟩⟩
    exact fun node inside creates => others.grows.known? (knows node inside creates)

/-- Surveying a tree makes known every node of it that opens a scope. -/
theorem advances_visit (value : Value) {outer : Option Nat} {survey : Survey}
    (nested : survey.index.Nested) (has : survey.index.Has outer) :
    survey.Advances (visit value outer survey) ∧
      ((outer.isSome || value.createsScope) → Knows (visit value outer survey).index value) := by
  have hoisted := survey.amends_hoist value outer
  obtain ⟨advances, hasInner, knows, enters⟩ := advances_openScope (hoisted.nested nested)
    (has.grows hoisted.grows) value
  cases entered : (survey.hoist value outer).openScope value outer with
  | mk opened inner =>
    rw [entered] at advances hasInner knows enters
    have reached := hoisted.grows.trans advances.grows
    cases inner with
    | none =>
      rw [visit_of_outside entered]
      exact ⟨⟨reached, advances.nested⟩, fun reaches => absurd (enters reaches) Bool.false_ne_true⟩
    | some inner =>
      rw [visit_eq entered]
      have declared := opened.amends_declare value inner
      obtain ⟨children, knowsBelow⟩ := advances_children (fun child member _ nested has =>
          (advances_visit child nested has).imp_right (· rfl))
        (declared.nested advances.nested) (hasInner.grows declared.grows)
      refine ⟨⟨reached.trans (declared.grows.trans children.grows), children.nested⟩,
        fun _ node member creates => ?_⟩
      rw [Value.nodes_eq] at member
      rcases List.mem_cons.1 member with rfl | inside
      · exact children.grows.known? (declared.grows.known? (knows creates))
      · obtain ⟨child, isChild, further⟩ := List.mem_flatMap.1 inside
        exact knowsBelow child isChild node further creates
termination_by sizeOf value
decreasing_by exact Value.sizeOf_lt_of_mem_children member

end Survey

namespace ScopeIndex

/-- Adding a tree keeps scopes nested and takes nothing away. -/
theorem grows_extend (value : Value) {index : ScopeIndex} (nested : index.Nested) (has : index.Has
    outer) : index.Grows (index.extend value outer) ∧ (index.extend value outer).Nested := by
  have visited : Survey.Advances ⟨index, []⟩ (Survey.visit value outer ⟨index, []⟩) :=
    (Survey.advances_visit value nested has).1
  have settled := Survey.amends_settled (Survey.visit value outer ⟨index, []⟩).index
    (Survey.visit value outer ⟨index, []⟩).writes.reverse
  exact ⟨visited.grows.trans settled.grows, settled.nested visited.nested⟩

theorem nested_empty : ScopeIndex.empty.Nested where
  owners is := by cases is
  around found := by cases found

theorem has_none (index : ScopeIndex) : index.Has none := fun _ member => by cases member

theorem isSome_known?_build {root node : Value} (creates : root.createsScope)
    (member : node ∈ root.nodes) (opens : node.createsScope) :
    ((build root).known? node).isSome := by
  have visited := @Survey.advances_visit root none ⟨empty, []⟩ nested_empty (has_none _)
  have known := visited.2 creates node member opens
  exact (Survey.amends_settled _ _).grows.known? known

end ScopeIndex

end Unravel
