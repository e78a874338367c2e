import Unravel.Proofs.Tree.Everywhere

/-!
Contract: what a search by label finds.

A search finds the first object of the tree that has the label (`find?_eq`), so what a
recorded object is by now is one of them, or as recorded (`current_cases`).
-/

namespace Unravel.Value

variable {label own : Nat} {value inner : Value}

/-- The object has another label. -/
def Without (label : Nat) : Mark := fun own _ _ => own ≠ label

theorem find?_cons_of_label? (is : value.label? = some own) (rest : List Value) :
    ((value :: rest).find? fun object => object.label? == some label) = if own = label then some
      value else rest.find? fun object => object.label? == some label := by
  split
  · exact List.find?_cons_of_pos (by simp_all)
  · exact List.find?_cons_of_neg (by simp_all)

mutual

theorem find?_eq (label : Nat) (value : Value) :
    value.find? label = value.objects.find? fun object => object.label? == some label :=
  match value with
  | .list items => findItems?_eq label items
  | .record own fields => by
      rw [find?, objects, find?_cons_of_label? rfl, findFields?_eq label fields]
  | .node own kind fields => by
      rw [find?, objects, find?_cons_of_label? rfl, findFields?_eq label fields]
  | .null => rfl
  | .bool _ => rfl
  | .number _ => rfl
  | .text _ => rfl

theorem findItems?_eq (label : Nat) (items : List Value) :
    findItems? label items = (objectsItems items).find? fun object => object.label? == some label :=
  match items with
  | [] => rfl
  | item :: rest => by
      rw [findItems?, objectsItems, List.find?_append, find?_eq label item, findItems?_eq label rest]
      cases item.objects.find? _ <;> rfl

theorem findFields?_eq (label : Nat) (fields : List (String × Value)) : findFields? label fields =
    (objectsFields fields).find? fun object => object.label? == some label :=
  match fields with
  | [] => rfl
  | (_, value) :: rest => by
      rw [findFields?, objectsFields, List.find?_append, find?_eq label value,
        findFields?_eq label rest]
      cases value.objects.find? _ <;> rfl

end

theorem mem_objects_of_find? (found : value.find? label = some inner) :
    inner.label? = some label ∧ inner ∈ value.objects := by
  rw [find?_eq] at found
  have is := List.find?_some found
  exact ⟨beq_iff_eq.1 is, List.mem_of_find?_eq_some found⟩

/-- The current form of a recorded object is an object of the tree with its label, or
none is left and the record stands for itself. -/
theorem current_cases {σ : Type} (session : Session σ) (recorded : Value) :
    session.current recorded = recorded ∨ ∃ label, recorded.label? = some label ∧
      (session.current recorded).label? = some label ∧
      session.current recorded ∈ session.tree.objects := by
  unfold Session.current
  cases recorded.label? with
  | none => exact .inl rfl
  | some label =>
    dsimp only
    cases found : session.tree.find? label with
    | none => exact .inl rfl
    | some now => exact .inr ⟨label, rfl, mem_objects_of_find? found⟩

end Unravel.Value
