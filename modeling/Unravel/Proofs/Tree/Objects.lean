import Unravel.Proofs.Tree.Addresses
import Unravel.Proofs.Tree.Nodes

/-!
Contract: the objects of a value, in whatever attribute they stand.

The nodes that are reached from child to child are objects. A write brings in the
objects of what is written; all others keep their labels, their kinds and the names
of their attributes (`exists_object_of_putAt`).
-/

namespace Unravel.Value

variable {value inner object new : Value} {name : String} {slot : Slot} {address : Address}
  {own : Nat}

/-! ## Induction over trees -/

theorem sizeOf_lt_of_mem_fields {field : String × Value} (member : field ∈ value.fields) :
    sizeOf field.2 < sizeOf value := by
  have within {fields : List (String × Value)} (inside : field ∈ fields) :
      sizeOf field.2 < sizeOf fields := by
    have smaller := List.sizeOf_lt_of_mem inside
    have part : sizeOf field.2 < sizeOf field := by
      obtain ⟨name, held⟩ := field
      simp only [Prod.mk.sizeOf_spec]
      omega
    omega
  cases value with
  | record label fields =>
    have := within (show field ∈ fields from member)
    simp only [record.sizeOf_spec]
    omega
  | node label kind fields =>
    have := within (show field ∈ fields from member)
    simp only [node.sizeOf_spec]
    omega
  | _ => cases member

/-- A value without parts. -/
inductive Plain : Value → Prop
  | null : Plain .null
  | bool (flag : Bool) : Plain (.bool flag)
  | number (numeral : Numeral) : Plain (.number numeral)
  | text (word : String) : Plain (.text word)

/-- What holds of lists and objects whenever it holds of their items and
attributes, and of values without parts, holds of every value. -/
@[elab_as_elim]
theorem treeInduction {motive : Value → Prop} (list : ∀ items : List Value, (∀ item ∈ items, motive
    item) → motive (.list items)) (object : ∀ (value : Value) (label : Nat), value.label? = some
    label → (∀ field ∈ value.fields, motive field.2) → motive value) (leaf : ∀ value : Value,
    value.Plain → motive value) (value : Value) : motive value :=
  match value with
  | .list items => list items fun item _ => treeInduction list object leaf item
  | .record label fields =>
    object _ label rfl fun field _ => treeInduction list object leaf field.2
  | .node label kind fields =>
    object _ label rfl fun field _ => treeInduction list object leaf field.2
  | .null => leaf _ .null
  | .bool flag => leaf _ (.bool flag)
  | .number numeral => leaf _ (.number numeral)
  | .text word => leaf _ (.text word)
termination_by sizeOf value
decreasing_by
  · have := List.sizeOf_lt_of_mem ‹item ∈ items›
    simp only [Value.list.sizeOf_spec]
    omega
  · exact sizeOf_lt_of_mem_fields ‹_›
  · exact sizeOf_lt_of_mem_fields ‹_›

/-! ## Objects -/

mutual

/-- The objects of a value, each before those in its attributes. -/
def objects : Value → List Value
  | .list items => objectsItems items
  | .record label fields => .record label fields :: objectsFields fields
  | .node label kind fields => .node label kind fields :: objectsFields fields
  | _ => []

def objectsItems : List Value → List Value
  | [] => []
  | item :: rest => objects item ++ objectsItems rest

def objectsFields : List (String × Value) → List Value
  | [] => []
  | (_, value) :: rest => objects value ++ objectsFields rest

end

/-- The objects in the attributes of a value. -/
def innerObjects (value : Value) : List Value := value.fields.flatMap fun field => field.2.objects

theorem objectsItems_eq (items : List Value) : objectsItems items = items.flatMap objects := by
  induction items with
  | nil => rfl
  | cons item rest ih => rw [objectsItems, ih, List.flatMap_cons]

theorem objectsFields_eq (fields : List (String × Value)) :
    objectsFields fields = fields.flatMap fun field => field.2.objects := by
  induction fields with
  | nil => rfl
  | cons field rest ih => rw [objectsFields, ih, List.flatMap_cons]

theorem objects_list (items : List Value) : (Value.list items).objects = items.flatMap objects := by
  rw [objects, objectsItems_eq]

theorem objects_of_label? (is : value.label? = some own) :
    value.objects = value :: value.innerObjects := by
  cases value <;> cases is <;> rw [objects, objectsFields_eq] <;> rfl

theorem objects_of_leaf (plain : value.Plain) : value.objects = [] := by
  cases plain <;> rfl

theorem mem_objects_self (isObject : value.isObject) : value ∈ value.objects := by
  obtain ⟨own, is⟩ := Option.isSome_iff_exists.1 isObject
  rw [objects_of_label? is]
  exact List.mem_cons_self

theorem isObject_of_mem_objects (member : object ∈ value.objects) : object.isObject := by
  induction value using treeInduction with
  | list items ih =>
    rw [objects_list] at member
    obtain ⟨item, isItem, inside⟩ := List.mem_flatMap.1 member
    exact ih item isItem inside
  | object value own is ih =>
    rw [objects_of_label? is] at member
    rcases List.mem_cons.1 member with rfl | below
    · rw [isObject, is]
      rfl
    · obtain ⟨field, isField, inside⟩ := List.mem_flatMap.1 below
      exact ih field isField inside
  | leaf value plain =>
    rw [objects_of_leaf plain] at member
    cases member

/-! ## Parts -/

theorem mem_objects_of_inner (member : object ∈ value.innerObjects) : object ∈ value.objects := by
  cases is : value.label? with
  | some own =>
    rw [objects_of_label? is]
    exact List.mem_cons_of_mem _ member
  | none =>
    cases value with
    | record _ _ | node _ _ _ => cases is
    | _ => cases member

theorem mem_objects_of_item (isItem : inner ∈ value.items) (member : object ∈ inner.objects) :
    object ∈ value.objects := by
  cases value with
  | list items =>
    rw [objects_list]
    exact List.mem_flatMap.2 ⟨inner, isItem, member⟩
  | _ => cases isItem

theorem mem_objects_trans (isObject : inner ∈ value.objects) (member : object ∈ inner.objects) :
    object ∈ value.objects := by
  induction value using treeInduction with
  | list items ih =>
    rw [objects_list] at isObject ⊢
    obtain ⟨item, isItem, inside⟩ := List.mem_flatMap.1 isObject
    exact List.mem_flatMap.2 ⟨item, isItem, ih item isItem inside⟩
  | object value own is ih =>
    rw [objects_of_label? is] at isObject
    rcases List.mem_cons.1 isObject with rfl | below
    · exact member
    · obtain ⟨field, isField, inside⟩ := List.mem_flatMap.1 below
      exact mem_objects_of_inner (List.mem_flatMap.2 ⟨field, isField, ih field isField inside⟩)
  | leaf value plain =>
    rw [objects_of_leaf plain] at isObject
    cases isObject

theorem mem_innerObjects_of_attr (member : object ∈ (value.attr name).objects) :
    object ∈ value.innerObjects := by
  unfold attr at member
  cases found : Members.get? value.fields name with
  | none =>
    rw [found] at member
    cases member
  | some held =>
    rw [found] at member
    exact List.mem_flatMap.2 ⟨_, Members.mem_of_get? found, member⟩

theorem mem_objects_of_attr (member : object ∈ (value.attr name).objects) :
    object ∈ value.objects := mem_objects_of_inner (mem_innerObjects_of_attr member)

theorem mem_innerObjects_of_slot? (found : value.slot? slot = some inner)
    (member : object ∈ inner.objects) : object ∈ value.innerObjects := by
  unfold slot? at found
  split at found
  · exact List.mem_flatMap.2 ⟨_, Members.mem_of_get? found, member⟩
  · exact mem_innerObjects_of_attr (mem_objects_of_item (List.mem_of_getElem? found) member)

theorem mem_objects_of_at? (found : value.at? address = some inner)
    (member : object ∈ inner.objects) : object ∈ value.objects := by
  induction address generalizing value with
  | nil =>
    cases found
    exact member
  | cons slot rest ih =>
    obtain ⟨held, inSlot, below⟩ := Option.bind_eq_some_iff.1 found
    exact mem_objects_of_inner (mem_innerObjects_of_slot? inSlot (ih below))

theorem exists_field_of_child (member : inner ∈ value.children) :
    ∃ field ∈ value.fields, field.2 = inner ∨ ∃ items, field.2 = .list items ∧ inner ∈ items := by
  obtain ⟨name, _, inAttr⟩ := List.mem_flatMap.1 member
  cases held : Members.get? value.fields name with
  | none =>
    rw [attr, held] at inAttr
    cases inAttr
  | some whole =>
    rw [attr, held] at inAttr
    refine ⟨(name, whole), Members.mem_of_get? held, ?_⟩
    cases whole with
    | list items => exact .inr ⟨items, rfl, (List.mem_filter.1 inAttr).1⟩
    | node _ _ _ => exact .inl (List.mem_singleton.1 inAttr).symm
    | null | bool _ | number _ | text _ | record _ _ => cases inAttr

theorem mem_objects_of_child (isChild : inner ∈ value.children) (member : object ∈ inner.objects) :
    object ∈ value.objects := by
  obtain ⟨field, isField, held⟩ := exists_field_of_child isChild
  refine mem_objects_of_inner (List.mem_flatMap.2 ⟨field, isField, ?_⟩)
  rcases held with same | ⟨items, isList, isItem⟩
  · exact same ▸ member
  · rw [isList]
    exact mem_objects_of_item isItem member

theorem mem_objects_of_node {value inner object : Value} (isNode : inner ∈ value.nodes)
    (member : object ∈ inner.objects) : object ∈ value.objects := by
  rw [nodes_eq] at isNode
  rcases List.mem_cons.1 isNode with rfl | below
  · exact member
  · obtain ⟨child, isChild, inside⟩ := List.mem_flatMap.1 below
    exact mem_objects_of_child isChild (mem_objects_of_node inside member)
termination_by sizeOf value
decreasing_by exact sizeOf_lt_of_mem_children isChild

/-! ## Writing -/

theorem mem_innerObjects_setAttr (member : object ∈ (value.setAttr name new).innerObjects) :
    object ∈ value.innerObjects ∨ object ∈ new.objects := by
  by_cases isObject : value.isObject
  · rw [innerObjects, fields_setAttr isObject] at member
    obtain ⟨field, isField, inside⟩ := List.mem_flatMap.1 member
    rcases Members.mem_put isField with was | rfl
    · exact .inl (List.mem_flatMap.2 ⟨field, was, inside⟩)
    · exact .inr inside
  · cases value <;> first | exact absurd rfl isObject | cases member

theorem mem_objects_setAttr (member : object ∈ (value.setAttr name new).objects) :
    object = value.setAttr name new ∨ object ∈ value.objects ∨ object ∈ new.objects := by
  cases is : value.label? with
  | none =>
    have same : value.setAttr name new = value := by cases value <;> first | rfl | cases is
    exact .inr (.inl (same ▸ member))
  | some own =>
    rw [objects_of_label? (show (value.setAttr name new).label? = some own by simp [is])] at member
    exact (List.mem_cons.1 member).imp_right fun below =>
      (mem_innerObjects_setAttr below).imp_left mem_objects_of_inner

theorem mem_innerObjects_putSlot (member : object ∈ (value.putSlot slot new).innerObjects) :
    object ∈ value.innerObjects ∨ object ∈ new.objects := by
  unfold putSlot at member
  split at member
  · exact mem_innerObjects_setAttr member
  · split at member
    · rename_i items isList
      refine (mem_innerObjects_setAttr member).elim .inl fun inList => ?_
      rw [objects_list] at inList
      obtain ⟨item, isItem, inside⟩ := List.mem_flatMap.1 inList
      rcases List.mem_or_eq_of_mem_set isItem with was | rfl
      · left
        apply mem_innerObjects_of_attr
        rw [isList]
        exact mem_objects_of_item was inside
      · exact .inr inside
    · exact .inl member

theorem mem_objects_putSlot (found : value.slot? slot = some inner)
    (member : object ∈ (value.putSlot slot new).objects) :
    object = value.putSlot slot new ∨ object ∈ value.innerObjects ∨ object ∈ new.objects := by
  obtain ⟨own, is⟩ := Option.isSome_iff_exists.1 (isObject_of_slot? found)
  rw [objects_of_label? (show (value.putSlot slot new).label? = some own by simp [is])] at member
  exact (List.mem_cons.1 member).imp_right mem_innerObjects_putSlot

theorem names_putSlot (found : value.slot? slot = some inner) (new : Value) :
    Members.names (value.putSlot slot new).fields = Members.names value.fields := by
  have isObject := isObject_of_slot? found
  have same {held : Value} (is : Members.get? value.fields slot.field = some held) (written : Value)
      : Members.names (value.setAttr slot.field written).fields = Members.names value.fields := by
    rw [fields_setAttr isObject, Members.names_put, if_pos (Members.mem_names_of_get? is)]
  rcases attr_of_slot? found with ⟨index, held⟩ | ⟨position, items, index, item, held⟩
  · simp only [putSlot, index]
    exact same held new
  · have isList : value.attr slot.field = .list items := by simp [attr, held]
    simp only [putSlot, index, isList]
    exact same held _

/-- The objects after a write are those that are written, and others with the labels,
kinds and attribute names that were there. -/
theorem exists_object_of_putAt (member : object ∈ (value.putAt address new).objects) : object ∈
    new.objects ∨ ∃ old ∈ value.objects, old.label? = object.label? ∧ old.kind? = object.kind? ∧
      Members.names old.fields = Members.names object.fields := by
  induction address generalizing value object with
  | nil => exact .inl member
  | cons slot rest ih =>
    rw [putAt] at member
    split at member
    · rename_i held found
      rcases mem_objects_putSlot found member with rfl | was | below
      · exact .inr ⟨value, mem_objects_self (isObject_of_slot? found), by simp, by simp,
          (names_putSlot found _).symm⟩
      · exact .inr ⟨object, mem_objects_of_inner was, rfl, rfl, rfl⟩
      · refine (ih below).imp_right ?_
        rintro ⟨old, isOld, same⟩
        exact ⟨old, mem_objects_of_inner (mem_innerObjects_of_slot? found isOld), same⟩
    · exact .inr ⟨object, member, rfl, rfl, rfl⟩

end Unravel.Value
