import Unravel.Proofs.Scope.Headings

/-!
Contract: the bindings of one scope, as data and as declarations.

Registering a name in a scope and adding a declaration to a list change what a
name is bound to in the same way.
-/

namespace Unravel

namespace Scope

theorem own?_congr (scope : Scope) {name other : Name} (same : name.key = other.key) :
    scope.own? name = scope.own? other := by
  simp [own?, Name.same, same]

theorem own?_write (scope : Scope) (other : Name) (label : Nat) (name : Name) :
    (scope.write other label).own? name =
      if other.same name then (scope.own? name).map (·.reassign label) else scope.own? name := by
  let change : Binding → Binding := fun old =>
    if old.name.same other then old.reassign label else old
  have keeps : ∀ old, (change old).name = old.name := by
    intro old
    simp only [change]
    split <;> rfl
  have changed : (scope.write other label).own? name = (scope.own? name).map change := by
    simp only [own?, write, List.find?_map]
    congr 2
    funext old
    exact congrArg (Name.same · name) (keeps old)
  rw [changed]
  cases own : scope.own? name with
  | none => simp
  | some binding =>
    have found := List.find?_some own
    have isName : binding.name.key = name.key := Name.same_iff.1 found
    have whether : binding.name.same other = other.same name := by
      rw [Name.same, Name.same, isName, Bool.beq_comm]
    simp only [Option.map_some, change, whether]
    split <;> rfl

theorem own?_register (scope : Scope) (binding : Binding) (label : Nat) (name : Name) :
    (scope.register binding label).own? name = if binding.name.same name then
        some ((scope.own? name).elim binding (·.reassign label)) else scope.own? name := by
  by_cases already : (scope.own? binding.name).isSome
  · have is : scope.register binding label = scope.write binding.name label := if_pos already
    rw [is, own?_write]
    split
    · rename_i same
      rw [own?_congr scope (Name.same_iff.1 same)] at already
      obtain ⟨old, found⟩ := Option.isSome_iff_exists.1 already
      rw [found]
      rfl
    · rfl
  · have is : (scope.register binding label).bindings = scope.bindings ++ [binding] :=
      congrArg Scope.bindings (if_neg already)
    rw [own?, is, List.find?_append, List.find?_singleton, ← own?]
    split
    · rename_i same
      rw [own?_congr scope (Name.same_iff.1 same), Option.not_isSome_iff_eq_none] at already
      rw [already]
      rfl
    · exact Option.or_none

@[simp] theorem heading_register (scope : Scope) (binding : Binding) (label : Nat) :
    (scope.register binding label).heading = scope.heading := by
  unfold register
  split <;> rfl

@[simp] theorem heading_write (scope : Scope) (name : Name) (label : Nat) : (scope.write name
    label).heading = scope.heading := rfl

end Scope

namespace Lexical

/-- The binding that a declaration makes when it comes first. -/
def Declaration.binding (declaration : Declaration) : Binding :=
  ⟨declaration.name, declaration.kind, declaration.node, declaration.identifier, []⟩

theorem binding?_append_singleton (declarations : List Declaration) (declaration : Declaration)
    (home : Nat) (name : Name) : binding? (declarations ++ [declaration]) [] home name =
      if declaration.isOf home name then
        some ((binding? declarations [] home name).elim declaration.binding
          (·.reassign declaration.label)) else binding? declarations [] home name := by
  unfold binding?
  rw [List.filter_append, List.filter_singleton]
  cases isOf : declaration.isOf home name with
  | false => cases declarations.filter (Declaration.isOf home name) <;> simp
  | true =>
    cases declarations.filter (Declaration.isOf home name) with
    | nil => rfl
    | cons first others => simp [Binding.reassign]

theorem binding?_append_write (declarations : List Declaration) (writes : List Write) (write :
    Write) (home : Nat) (name : Name) : binding? declarations (writes ++ [write]) home name =
      if write.name.same name && write.target? declarations == some home then
        (binding? declarations writes home name).map (·.reassign write.label)
      else binding? declarations writes home name := by
  unfold binding?
  rw [List.filter_append, List.filter_singleton]
  cases declarations.filter (Declaration.isOf home name) with
  | nil => exact (ite_self none).symm
  | cons first others =>
    cases counts : write.name.same name && write.target? declarations == some home with
    | false => simp
    | true => simp [Binding.reassign]

theorem isSome_binding? (declarations : List Declaration) (writes : List Write) (home : Nat)
    (name : Name) : (binding? declarations writes home name).isSome =
      declarations.any (Declaration.isOf home name) := by
  rw [Bool.eq_iff_iff, List.any_eq_true]
  unfold binding?
  split
  · rename_i none
    simpa using List.filter_eq_nil_iff.1 none
  · rename_i first others is
    have member : first ∈ declarations.filter (Declaration.isOf home name) :=
      is ▸ List.mem_cons_self
    exact ⟨fun _ => ⟨first, List.mem_filter.1 member⟩, fun _ => rfl⟩

end Lexical

/-- Each scope of the index binds what declarations and writes say. -/
def ScopeIndex.Binds (index : ScopeIndex) (declarations : List Lexical.Declaration) (writes : List
    Lexical.Write) : Prop := ∀ ⦃number : Nat⦄ ⦃scope : Scope⦄, index.scopes[number]? = some scope →
    ∀ name, scope.own? name = Lexical.binding? declarations writes scope.label name

end Unravel
