import Mathlib.Data.List.Forall2
import Unravel.Proofs.Scope.Lexical

/-!
Contract: what the scopes of an index say apart from their bindings.

Chains, labels and kinds of scopes depend on headings only. Registering and
settling keep the headings, and opening a scope adds one at the end, so that
what stands at a number stays there.
-/

namespace Unravel

variable {number : Nat} {nodes : List Value} {numbers : List Nat}

theorem lookup_cons_ite {α : Type} (key label : Nat) (value : α) (rest : List (Nat × α)) :
    ((key, value) :: rest).lookup label =
      if label = key then some value else rest.lookup label := by
  by_cases same : label = key
  · rw [if_pos same, same, List.lookup_cons_self]
  · rw [if_neg same, List.lookup_cons, beq_eq_false_iff_ne.2 same]

/-- A scope without its bindings. -/
def Scope.heading (scope : Scope) : Scope :=
  { scope with bindings := [] }

namespace ScopeIndex

theorem own?_congr (index : ScopeIndex) (number : Nat) {name other : Name}
    (same : name.key = other.key) : index.own? number name = index.own? number other := by
  simp [own?, Scope.own?, Name.same, same]

def headings (index : ScopeIndex) : List Scope := index.scopes.map Scope.heading

/-- The label of the node that opened a scope. -/
def labelAt (index : ScopeIndex) (number : Nat) : Option Nat :=
  index.scopes[number]?.map Scope.label

/-- A later index has the scopes of an earlier one and perhaps more. -/
def Extends (index later : ScopeIndex) : Prop := index.headings <+: later.headings

variable {index later last : ScopeIndex}

theorem Extends.refl (index : ScopeIndex) : index.Extends index := List.prefix_refl _

theorem Extends.trans (first : index.Extends later) (second : later.Extends last) : index.Extends
    last := List.IsPrefix.trans first second

theorem Extends.of_headings (same : later.headings = index.headings) : index.Extends later :=
  ⟨[], (List.append_nil _).trans same.symm⟩

theorem Extends.scope {number : Nat} {scope : Scope} (grows : index.Extends later)
    (found : index.scopes[number]? = some scope) :
    ∃ after, later.scopes[number]? = some after ∧ after.heading = scope.heading := by
  have before : index.headings[number]? = some scope.heading := by
    rw [headings, List.getElem?_map, found, Option.map_some]
  have atNumber : later.headings[number]? = some scope.heading := by
    obtain ⟨added, whole⟩ := grows
    obtain ⟨inside, _⟩ := List.getElem?_eq_some_iff.1 before
    rw [← whole, List.getElem?_append_left inside, before]
  rw [headings, List.getElem?_map, Option.map_eq_some_iff] at atNumber
  exact atNumber

variable {scope : Scope} {node wide : Value}

theorem Extends.chain (grows : index.Extends later) (found : index.scopes[number]? = some scope) :
    later.chain number = index.chain number := by
  obtain ⟨after, foundAfter, same⟩ := grows.scope found
  have enclosing : after.heading.enclosing = scope.heading.enclosing := by rw [same]
  unfold ScopeIndex.chain
  rw [found, foundAfter]
  exact congrArg _ enclosing

theorem Extends.labelAt {label : Nat} (grows : index.Extends later)
    (found : index.labelAt number = some label) : later.labelAt number = some label := by
  obtain ⟨scope, isScope, rfl⟩ := Option.map_eq_some_iff.1 found
  obtain ⟨after, foundAfter, same⟩ := grows.scope isScope
  have sameLabel : after.heading.label = scope.heading.label := by rw [same]
  rw [ScopeIndex.labelAt, foundAfter]
  exact congrArg some sameLabel

theorem Extends.map_labelAt {labels : List Nat} (grows : index.Extends later) (found : numbers.map
    index.labelAt = labels.map some) : numbers.map later.labelAt = labels.map some := by
  rw [← found]
  apply List.map_congr_left
  intro number member
  have among : index.labelAt number ∈ labels.map some := found ▸ List.mem_map_of_mem member
  obtain ⟨label, _, is⟩ := List.mem_map.1 among
  rw [← is, grows.labelAt is.symm]

theorem headings_modify (index : ScopeIndex) (number : Nat) {change : Scope → Scope}
    (keeps : ∀ scope, (change scope).heading = scope.heading) :
    (index.modify number change).headings = index.headings := by
  unfold headings modify
  apply List.ext_getElem?
  intro position
  rw [List.getElem?_map, List.getElem?_map, List.getElem?_modify]
  cases index.scopes[position]? with
  | none => rfl
  | some scope =>
    by_cases here : number = position
    · simp [here, keeps]
    · simp [here]

theorem eq_of_label {other : Nat} {found : Scope} (distinct : (index.headings.map
    Scope.label).Nodup) (atNumber : index.scopes[number]? = some scope) (atOther :
    index.scopes[other]? = some found) (same : scope.label = found.label) : number = other := by
  have atLabel : ∀ {number : Nat} {scope : Scope}, index.scopes[number]? = some scope →
      (index.headings.map Scope.label)[number]? = some scope.label := by
    intro number scope found
    rw [headings, List.map_map, List.getElem?_map, found]
    rfl
  have left := atLabel atNumber
  obtain ⟨inside, _⟩ := List.getElem?_eq_some_iff.1 left
  apply (List.getElem?_inj inside distinct).1
  rw [left, atLabel atOther, same]

/-! ## Scopes and the nodes that open them -/

/-- A scope of a program or a function. -/
def isWide (index : ScopeIndex) (number : Nat) : Bool :=
  match index.scopes[number]? with
  | some scope => scope.kind != .block
  | none => false

/-- A number stands for the scope of a node. -/
def IsOf (index : ScopeIndex) (number : Nat) (node : Value) : Prop := ∃ scope, index.scopes[number]?
  = some scope ∧ node.label? = some scope.label ∧ node.scopeKind? = some scope.kind

/-- The scope with this number, and those around it, are those of the nodes. -/
def Stands (index : ScopeIndex) (number : Option Nat) (nodes : List Value) : Prop :=
  List.Forall₂ index.IsOf (number.elim [] index.chain) nodes

theorem IsOf.extends (isOf : index.IsOf number node) (grows : index.Extends later) :
    later.IsOf number node := by
  obtain ⟨scope, found, isLabel, isKind⟩ := isOf
  obtain ⟨after, foundAfter, same⟩ := grows.scope found
  have sameLabel : after.heading.label = scope.heading.label := by rw [same]
  have sameKind : after.heading.kind = scope.heading.kind := by rw [same]
  exact ⟨after, foundAfter, isLabel.trans (congrArg some sameLabel.symm),
    isKind.trans (congrArg some sameKind.symm)⟩

theorem IsOf.isWide (isOf : index.IsOf number node) :
    Lexical.isWide node = index.isWide number := by
  obtain ⟨scope, found, _, isKind⟩ := isOf
  rw [Lexical.isWide, ScopeIndex.isWide, isKind, found]
  dsimp only
  cases scope.kind <;> rfl

theorem exists_chain (index : ScopeIndex) (number : Nat) :
    ∃ around, index.chain number = number :: around := by
  unfold chain
  split
  · exact ⟨_, rfl⟩
  · exact ⟨[], rfl⟩

theorem Stands.head (stands : index.Stands (some number) nodes) :
    ∃ node, nodes.head? = some node ∧ index.IsOf number node := by
  obtain ⟨around, chain⟩ := index.exists_chain number
  unfold Stands at stands
  rw [Option.elim_some, chain] at stands
  cases stands with
  | cons isOf _ => exact ⟨_, rfl, isOf⟩

theorem Stands.extends {number : Option Nat} (stands : index.Stands number nodes)
    (grows : index.Extends later) : later.Stands number nodes := by
  have chain : number.elim [] later.chain = number.elim [] index.chain := by
    cases number with
    | none => rfl
    | some number =>
      obtain ⟨_, _, scope, found, _⟩ := stands.head
      exact grows.chain found
  unfold Stands at stands ⊢
  rw [chain]
  exact stands.imp fun _ _ isOf => isOf.extends grows

theorem map_labelAt_of_isOf (isOf : List.Forall₂ index.IsOf numbers nodes) :
    numbers.map index.labelAt = (Lexical.labels nodes).map some := by
  induction isOf with
  | nil => rfl
  | cons isOf _ ih =>
    obtain ⟨scope, found, isLabel, _⟩ := isOf
    rw [Lexical.labels, List.filterMap_cons_some isLabel, List.map_cons, List.map_cons,
      ← Lexical.labels, ih, labelAt, found, Option.map_some]

theorem find?_of_isOf (isOf : List.Forall₂ index.IsOf numbers nodes)
    (found : nodes.find? Lexical.isWide = some wide) :
    ∃ number, numbers.find? index.isWide = some number ∧ index.IsOf number wide := by
  induction isOf with
  | nil => cases found
  | @cons number node numbers nodes isOf _ ih =>
    rw [List.find?_cons, isOf.isWide] at found
    rw [List.find?_cons]
    cases here : index.isWide number with
    | true =>
      rw [here] at found
      cases found
      exact ⟨number, rfl, isOf⟩
    | false =>
      rw [here] at found
      exact ih found

/-- Function-wide declarations belong to the nearest program or function. -/
theorem Stands.functionScope (stands : index.Stands (some number) nodes) (found : nodes.find?
    Lexical.isWide = some wide) : index.IsOf (index.functionScope number) wide := by
  obtain ⟨nearest, isNearest, isOf⟩ := find?_of_isOf stands found
  have is : index.functionScope number = nearest := by
    exact congrArg (·.getD number) isNearest
  rw [is]
  exact isOf

end ScopeIndex

end Unravel
