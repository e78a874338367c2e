import Unravel.Proofs.Tree.Holdings

/-!
Contract: exchanging nodes keeps a program well-formed.

A `Proper` document is a program whose objects keep to the grammar, with labels
that have been drawn and tell objects of different kinds apart. A value is
supplied for a document when its objects come from there or have labels drawn for
them; writing it where it fits keeps the document proper (`Proper.put`). The objects
that it is made of may also come from a larger stock, if labels tell those apart
as well (`Supplies.labelled`).
-/

namespace Unravel

variable {object : Value} {address : Address}

namespace Document

open Value

/-- The labels have been drawn, and tell objects of different kinds apart. -/
structure Labelled (document : Document) : Prop where
  told : document.tree.Told
  used : ∀ label ∈ document.tree.labels, label < document.next

structure Proper (document : Document) : Prop extends labelled : Labelled document where
  program : document.tree.kind? = some "Program"
  lawful : document.tree.Lawful

/-- An object of the tree has the label and the kind of the given one. -/
def Has (document : Document) (object : Value) : Prop :=
  ∃ old ∈ document.tree.objects, old.label? = object.label? ∧ old.kind? = object.kind?

/-- The value is made for the document, of what is there and of objects with
labels that were drawn for them. -/
structure Supplies (document : Document) (new : Value) (last : Nat) : Prop where
  most : document.next ≤ last
  lawful : new.Lawful
  objects : ∀ object ∈ new.objects, document.Has object ∨
    ∃ label, object.label? = some label ∧ document.next ≤ label ∧ label < last
  told : ∀ first ∈ new.objects, ∀ second ∈ new.objects, ∀ label, first.label? = some label →
    second.label? = some label → document.next ≤ label → first.kind? = second.kind?

variable {document : Document} {new : Value} {last : Nat}

theorem Proper.isNode (proper : document.Proper) : document.tree.isNode :=
  isNode_of_kind? proper.program

theorem has_of_mem (member : object ∈ document.tree.objects) : document.Has object :=
  ⟨object, member, rfl, rfl⟩

theorem Labelled.lt_of_has (labelled : document.Labelled) (has : document.Has object) {label : Nat}
    (is : object.label? = some label) : label < document.next := by
  obtain ⟨old, member, sameLabel, _⟩ := has
  exact labelled.used label (mem_labels.2 ⟨old, member, sameLabel.trans is⟩)

theorem Labelled.mono (labelled : document.Labelled) {value : Value}
    (within : ∀ object ∈ value.objects, object ∈ document.tree.objects) :
    Labelled ⟨value, document.next⟩ where
  told first isFirst second isSecond :=
    labelled.told first (within first isFirst) second (within second isSecond)
  used label member := by
    obtain ⟨object, inside, is⟩ := mem_labels.1 member
    exact labelled.lt_of_has (has_of_mem (within object inside)) is

theorem Proper.address_ne_nil (proper : document.Proper) {node : Value} {kind : String}
    (found : document.tree.at? address = some node) (is : node.kind? = some kind)
    (other : kind ≠ "Program") : address ≠ [] := by
  rintro rfl
  cases found
  exact other (Option.some.inj (is.symm.trans proper.program))

/-! ## Writing -/

section Writing

variable (supplies : document.Supplies new last)

include supplies

/-- After a write to a tree of the document, objects are as they were or were written
with new labels. -/
theorem Supplies.objects_putAt {tree : Value}
    (within : ∀ object ∈ tree.objects, object ∈ document.tree.objects)
    (member : object ∈ (tree.putAt address new).objects) :
    document.Has object ∨ object ∈ new.objects ∧
      ∃ label, object.label? = some label ∧ document.next ≤ label ∧ label < last := by
  rcases exists_object_of_putAt member with isNew | ⟨old, was, label, kind, _⟩
  · exact (supplies.objects object isNew).imp_right fun drawn => ⟨isNew, drawn⟩
  · exact .inl ⟨old, within old was, label, kind⟩

/-- Labels tell objects apart that are as they were or were supplied with new labels. -/
theorem Supplies.labelled (labelled : document.Labelled) {later : Value}
    (each : ∀ object ∈ later.objects, document.Has object ∨ object ∈ new.objects ∧
      ∃ label, object.label? = some label ∧ document.next ≤ label ∧ label < last) :
    Labelled ⟨later, last⟩ where
  told first isFirst second isSecond same := by
    rcases each first isFirst with had | ⟨isNew, label, is, notBefore, _⟩
    · rcases each second isSecond with hadSecond | ⟨_, label, is, notBefore, _⟩
      · obtain ⟨old, member, sameLabel, sameKind⟩ := had
        obtain ⟨other, isOther, otherLabel, otherKind⟩ := hadSecond
        rw [← sameKind, ← otherKind]
        exact labelled.told old member other isOther (sameLabel.trans (same.trans otherLabel.symm))
      · exact absurd (labelled.lt_of_has had (same.trans is)) (Nat.not_lt.2 notBefore)
    · rcases each second isSecond with hadSecond | ⟨isNewSecond, _⟩
      · exact absurd (labelled.lt_of_has hadSecond (same.symm.trans is)) (Nat.not_lt.2 notBefore)
      · exact supplies.told first isNew second isNewSecond label is (same.symm.trans is) notBefore
  used label member := by
    obtain ⟨object, inside, is⟩ := mem_labels.1 member
    rcases each object inside with had | ⟨_, other, isOther, _, drawn⟩
    · exact Nat.lt_of_lt_of_le (labelled.lt_of_has had is) supplies.most
    · exact Option.some.inj (isOther.symm.trans is) ▸ drawn

theorem Proper.put (proper : document.Proper) (below : address ≠ [])
    (fits : ∀ old, document.tree.at? address = some old → Fits old new) :
    Proper ⟨document.tree.putAt address new, last⟩ where
  labelled := supplies.labelled proper.labelled fun _ =>
    supplies.objects_putAt fun _ inside => inside
  program := (kind?_putAt below document.tree new).trans proper.program
  lawful := proper.lawful.putAt fits supplies.lawful

end Writing

/-! ## Supplies -/

theorem supplies_of_labels (most : document.next ≤ last) (lawful : new.Lawful)
    (once : new.labels.Nodup)
    (within : ∀ label ∈ new.labels, document.next ≤ label ∧ label < last) :
    document.Supplies new last where
  most := most
  lawful := lawful
  objects object member := by
    obtain ⟨label, is⟩ := Option.isSome_iff_exists.1 (isObject_of_mem_objects member)
    exact .inr ⟨label, is, within label (mem_labels.2 ⟨object, member, is⟩)⟩
  told first isFirst second isSecond label is isSame _ :=
    told_of_nodup once first isFirst second isSecond (is.trans isSame.symm)

theorem supplies_of_draws {build : Fresh Value} (builds : Builds build) (draws : Draws build)
    (document : Document) : document.Supplies (build.run document.next).1 (build.run
    document.next).2 := supplies_of_labels (draws document.next).1 (builds document.next).2 (draws
    document.next).2.once (draws document.next).2.within

/-- Objects that are there need no new labels. -/
theorem supplies_of_has (proper : document.Proper) (lawful : new.Lawful) (there : ∀ object ∈
    new.objects, document.Has object) : document.Supplies new document.next where
  most := Nat.le_refl _
  lawful := lawful
  objects object member := .inl (there object member)
  told first isFirst _ _ _ is _ drawn :=
    absurd (proper.labelled.lt_of_has (there first isFirst) is) (Nat.not_lt.2 drawn)

end Document

end Unravel
