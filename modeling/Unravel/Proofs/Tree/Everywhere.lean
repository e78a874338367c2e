import Unravel.Proofs.Tree.Objects

/-!
Contract: properties that hold of every object of a tree, in whatever attribute
it stands.

A property is one of an object's label, its kind and the names of its
attributes, so that writing into an attribute that is there cannot break it.
Owns: how such a property passes to attributes, slots and addresses and back.
Labels below a bound, labels that do not occur and attribute names that do not
repeat are properties of this form.
-/

namespace Unravel.Value

variable {value new inner : Value} {slot : Slot} {address : Address}

/-! ## Properties of all objects -/

/-- A property of an object: its label, its kind and its attribute names. -/
abbrev Mark := Nat → Option String → List String → Prop

/-- The object has the property. -/
def Mark.Of (mark : Mark) (object : Value) : Prop :=
  ∀ label, object.label? = some label → mark label object.kind? (Members.names object.fields)

mutual

/-- All objects of a tree have the property. -/
def Everywhere (mark : Mark) : Value → Prop
  | .list items => EverywhereItems mark items
  | .record label fields =>
    mark label none (Members.names fields) ∧ EverywhereFields mark fields
  | .node label kind fields =>
    mark label (some kind) (Members.names fields) ∧ EverywhereFields mark fields
  | _ => True

def EverywhereItems (mark : Mark) : List Value → Prop
  | [] => True
  | item :: rest => Everywhere mark item ∧ EverywhereItems mark rest

def EverywhereFields (mark : Mark) : List (String × Value) → Prop
  | [] => True
  | (_, value) :: rest => Everywhere mark value ∧ EverywhereFields mark rest

end

section

variable {mark : Mark}

variable {items : List Value}

theorem everywhereItems_iff : EverywhereItems mark items ↔ ∀ item ∈ items, item.Everywhere mark
    := by
  induction items with
  | nil => simp [EverywhereItems]
  | cons item rest ih => simp [EverywhereItems, ih]

theorem everywhereFields_iff {fields : List (String × Value)} :
    EverywhereFields mark fields ↔ ∀ field ∈ fields, field.2.Everywhere mark := by
  induction fields with
  | nil => simp [EverywhereFields]
  | cons field rest ih => simp [EverywhereFields, ih]

@[simp] theorem everywhere_list : (Value.list items).Everywhere mark ↔ ∀ item ∈ items,
    item.Everywhere mark := by
  rw [Everywhere, everywhereItems_iff]

@[simp] theorem everywhere_null : Value.null.Everywhere mark := by
  simp [Everywhere]

theorem everywhere_object {label : Nat} (is : value.label? = some label) : value.Everywhere mark ↔
      mark label value.kind? (Members.names value.fields) ∧
        ∀ field ∈ value.fields, field.2.Everywhere mark := by
  cases value <;> cases is <;> simp [Everywhere, kind?, fields, everywhereFields_iff]

theorem everywhere_iff :
    value.Everywhere mark ↔ ∀ object ∈ value.objects, mark.Of object := by
  induction value using treeInduction with
  | list items ih =>
    rw [everywhere_list, objects_list, List.forall_mem_flatMap]
    exact forall₂_congr ih
  | object value label is ih =>
    rw [everywhere_object is, objects_of_label? is, List.forall_mem_cons, innerObjects,
      List.forall_mem_flatMap]
    refine and_congr ?_ (forall₂_congr ih)
    simp [Mark.Of, is]
  | leaf value plain => cases plain <;> simp [Everywhere, objects]

/-- All objects of a tree have the property, but perhaps its root. -/
def Within (mark : Mark) (value : Value) : Prop := ∀ field ∈ value.fields, field.2.Everywhere mark

theorem within_iff : value.Within mark ↔ ∀ object ∈ value.innerObjects, mark.Of object := by
  simp only [Within, everywhere_iff, innerObjects, List.forall_mem_flatMap]

theorem within_of_everywhere (all : value.Everywhere mark) : value.Within mark :=
  within_iff.2 fun object member => everywhere_iff.1 all object (mem_objects_of_inner member)

theorem everywhere_of_mem (all : value.Everywhere mark) (member : inner ∈ value.objects) :
    inner.Everywhere mark :=
  everywhere_iff.2 fun object inside => everywhere_iff.1 all object (mem_objects_trans member inside)

theorem within_of_mem {own : Nat} (all : value.Within mark) (is : value.label? = some own)
    (member : inner ∈ value.objects) : inner.Within mark := by
  rw [objects_of_label? is] at member
  rcases List.mem_cons.1 member with rfl | below
  · exact all
  · obtain ⟨field, isField, inside⟩ := List.mem_flatMap.1 below
    exact within_of_everywhere (everywhere_of_mem (all field isField) inside)

theorem within_attr (all : value.Within mark) (name : String) : (value.attr name).Everywhere mark :=
  everywhere_iff.2 fun object member => within_iff.1 all object (mem_innerObjects_of_attr member)

theorem everywhere_attr (all : value.Everywhere mark) (name : String) : (value.attr name).Everywhere
    mark := within_attr (within_of_everywhere all) name

theorem everywhere_items {item : Value} (all : value.Everywhere mark)
    (member : item ∈ value.items) : item.Everywhere mark :=
  everywhere_iff.2 fun object inside => everywhere_iff.1 all object (mem_objects_of_item member inside)

theorem within_slot? (all : value.Within mark) (found : value.slot? slot = some inner) :
    inner.Everywhere mark := everywhere_iff.2 fun object member =>
  within_iff.1 all object (mem_innerObjects_of_slot? found member)

theorem everywhere_at? (all : value.Everywhere mark) (found : value.at? address = some inner) :
    inner.Everywhere mark := everywhere_iff.2 fun object member =>
  everywhere_iff.1 all object (mem_objects_of_at? found member)

theorem within_at? (all : value.Within mark) (below : address ≠ [])
    (found : value.at? address = some inner) : inner.Everywhere mark := by
  cases address with
  | nil => exact absurd rfl below
  | cons slot rest =>
    obtain ⟨held, inSlot, further⟩ := Option.bind_eq_some_iff.1 found
    exact everywhere_at? (within_slot? all inSlot) further

theorem everywhere_leaf (plain : value.Plain) : value.Everywhere mark := by
  cases plain <;> simp [Everywhere]

/-! ## Writing -/

theorem everywhere_setAttr {name : String} (all : value.Everywhere mark) (newAll : new.Everywhere
    mark) (grows : ∀ label, name ∉ Members.names value.fields → mark label value.kind?
    (Members.names value.fields) → mark label value.kind? (Members.names value.fields ++ [name])) :
    (value.setAttr name new).Everywhere mark := by
  rw [everywhere_iff] at all newAll ⊢
  intro object member
  rcases mem_objects_setAttr member with rfl | was | isNew
  · intro label is
    rw [label?_setAttr] at is
    have isObject : value.isObject := by simp [Value.isObject, is]
    have here := all value (mem_objects_self isObject) label is
    rw [kind?_setAttr, fields_setAttr isObject, Members.names_put]
    split
    · exact here
    · exact grows label ‹_› here
  · exact all object was
  · exact newAll object isNew

theorem within_putSlot (all : value.Within mark) (newAll : new.Everywhere mark) :
    (value.putSlot slot new).Within mark := within_iff.2 fun object member =>
  (mem_innerObjects_putSlot member).elim (within_iff.1 all object) (everywhere_iff.1 newAll object)

theorem everywhere_putAt (all : value.Everywhere mark) (newAll : new.Everywhere mark)
    (address : Address) : (value.putAt address new).Everywhere mark := by
  rw [everywhere_iff] at all newAll ⊢
  intro object member
  rcases exists_object_of_putAt member with isNew | ⟨old, isOld, label, kind, names⟩
  · exact newAll object isNew
  · intro own is
    rw [← kind, ← names]
    exact all old isOld own (label.trans is)

theorem within_putAt (all : value.Within mark) (below : address ≠ [])
    (newAll : new.Everywhere mark) : (value.putAt address new).Within mark := by
  cases address with
  | nil => exact absurd rfl below
  | cons slot rest =>
    unfold putAt
    split
    · rename_i inner found
      exact within_putSlot all (everywhere_putAt (within_slot? all found) newAll rest)
    · exact all

end

end Unravel.Value
