import Unravel.Proofs.Tree.Addresses
import Unravel.Proofs.Tree.Nodes

/-!
Contract: writes into several slots of one object.

Owns: what the slots hold after the writes (`putSlots`), if each of them held
something and no two of them overlap (`Separate`); that nodes in the place of
nodes keep the child slots; and that writing all items of a list writes the list.
-/

namespace Unravel.Value

variable {value : Value} {slot : Slot} {rest : List Slot} {entries : List (Slot × Value)}

/-- Writes under different names commute if one of the names is there already. -/
theorem setAttr_comm {old : Value} {first second : String} (found : Members.get? value.fields first
    = some old) (differ : first ≠ second) (new newer : Value) : (value.setAttr first new).setAttr
    second newer = (value.setAttr second newer).setAttr first new := by
  have fields (members : Members Value) (found : Members.get? members first = some old) :
      Members.put (Members.put members first new) second newer =
        Members.put (Members.put members second newer) first new := by
    induction members with
    | nil => cases found
    | cons head rest ih =>
      obtain ⟨key, held⟩ := head
      by_cases isFirst : key = first
      · subst isFirst
        simp [Members.put, differ]
      · simp only [Members.get?, isFirst, ↓reduceIte] at found
        by_cases isSecond : key = second
        · subst isSecond
          simp [Members.put, isFirst]
        · simp [Members.put, isFirst, isSecond, ih found]
  cases value with
  | record label members => exact congrArg (record label) (fields members found)
  | node label kind members => exact congrArg (node label kind) (fields members found)
  | _ => rfl

/-- Writes into several slots, one after another. -/
def putSlots (value : Value) (entries : List (Slot × Value)) : Value :=
  entries.foldl (fun tree entry => tree.putSlot entry.1 entry.2) value

@[simp] theorem putSlots_cons (value : Value) (entry : Slot × Value) (entries : List (Slot × Value))
    : value.putSlots (entry :: entries) = (value.putSlot entry.1 entry.2).putSlots entries := rfl

theorem putSlots_self (held : ∀ entry ∈ entries, value.slot? entry.1 = some entry.2) :
    value.putSlots entries = value := by
  induction entries with
  | nil => rfl
  | cons entry rest ih =>
    rw [putSlots_cons, putSlot_self (held entry List.mem_cons_self)]
    exact ih fun other member => held other (List.mem_cons_of_mem _ member)

/-! ## Slots that do not overlap -/

/-- Every one of the slots holds a node, and no two of them overlap. -/
structure Separate (value : Value) (slots : List Slot) : Prop where
  held : ∀ slot ∈ slots, ∃ inner, value.slot? slot = some inner ∧ inner.isNode = true
  apart : slots.Pairwise Slot.Apart

theorem Separate.putSlot (separate : value.Separate (slot :: rest)) (new : Value) :
    (value.putSlot slot new).Separate rest := by
  obtain ⟨inner, held, _⟩ := separate.held slot List.mem_cons_self
  obtain ⟨fromSlot, others⟩ := List.pairwise_cons.1 separate.apart
  refine ⟨fun other member => ?_, others⟩
  rw [slot?_putSlot_of_apart held (fromSlot other member)]
  exact separate.held other (List.mem_cons_of_mem _ member)

theorem slot?_putSlots {entry : Slot × Value} (separate : value.Separate (entries.map Prod.fst))
    (member : entry ∈ entries) : (value.putSlots entries).slot? entry.1 = some entry.2 := by
  have elsewhere (tree : Value) (later : List (Slot × Value)) (slot : Slot)
      (separate : tree.Separate (later.map Prod.fst))
      (apart : ∀ other ∈ later.map Prod.fst, slot.Apart other) :
      (tree.putSlots later).slot? slot = tree.slot? slot := by
    induction later generalizing tree with
    | nil => rfl
    | cons head rest ih =>
      obtain ⟨inner, held, _⟩ := separate.held head.1 List.mem_cons_self
      rw [putSlots_cons, ih _ (separate.putSlot head.2) fun other among =>
        apart other (List.mem_cons_of_mem _ among)]
      exact slot?_putSlot_of_apart held (apart head.1 List.mem_cons_self).symm head.2
  induction entries generalizing value with
  | nil => cases member
  | cons head rest ih =>
    rcases List.mem_cons.1 member with rfl | later
    · obtain ⟨inner, held, _⟩ := separate.held entry.1 List.mem_cons_self
      rw [putSlots_cons, elsewhere _ rest _ (separate.putSlot entry.2)
        (List.pairwise_cons.1 separate.apart).1]
      exact slot?_putSlot_self held entry.2
    · exact ih (separate.putSlot head.2) later

theorem childSlots_putSlots (separate : value.Separate (entries.map Prod.fst)) (nodes : ∀ entry ∈
    entries, entry.2.isNode) : (value.putSlots entries).childSlots = value.childSlots := by
  induction entries generalizing value with
  | nil => rfl
  | cons entry rest ih =>
    obtain ⟨inner, held, isNode⟩ := separate.held entry.1 List.mem_cons_self
    rw [putSlots_cons, ih (separate.putSlot entry.2) fun other member =>
      nodes other (List.mem_cons_of_mem _ member)]
    exact childSlots_putSlot held isNode (nodes entry List.mem_cons_self)

/-! ## Items of a list -/

theorem putSlots_items {name : String} {items : List Value} (isList : value.attr name = .list items)
    (isObject : value.isObject) (new : Nat → Value) :
    value.putSlots ((List.range items.length).map fun index => (⟨name, some index⟩, new index)) =
      value.setAttr name (.list ((List.range items.length).map new)) := by
  -- After some writes, the list has that many new items before the old ones.
  have some_ (count : Nat) (within : count ≤ items.length) :
      value.putSlots ((List.range count).map fun index => (⟨name, some index⟩, new index)) =
        value.setAttr name (.list ((List.range count).map new ++ items.drop count)) := by
    induction count with
    | zero => exact (setAttr_attr isList (by simp)).symm
    | succ count ih =>
      have next : items.drop count = items[count] :: items.drop (count + 1) :=
        List.drop_eq_getElem_cons within
      have before := ih (Nat.le_of_succ_le within)
      unfold putSlots at before ⊢
      have set : (items.drop count).set 0 (new count) = new count :: items.drop (count + 1) := by
        rw [next, List.set_cons_zero]
      rw [List.range_succ, List.map_append, List.foldl_append, before]
      simp [putSlot, attr_setAttr isObject, setAttr_setAttr, List.set_append_right, set]
  rw [some_ items.length (Nat.le_refl _), List.drop_length, List.append_nil]

end Unravel.Value
