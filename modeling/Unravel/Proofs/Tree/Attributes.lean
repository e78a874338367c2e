import Unravel.Walk.Machine

/-!
Contract: laws of reading and writing attributes and slots.

Owns: what a written attribute or slot reads afterwards; which reads a write
leaves alone; and that putting a node in the place of a node keeps the child
slots.
-/

namespace Unravel

namespace Members

variable {α : Type}

theorem get?_put (members : Members α) (name other : String) (value : α) :
    get? (put members name value) other =
      if name = other then some value else get? members other := by
  induction members with
  | nil => rfl
  | cons head rest ih =>
    obtain ⟨key, old⟩ := head
    by_cases written : key = name
    · by_cases read : name = other <;> simp [put, get?, written, read]
    · by_cases read : key = other
      · subst read
        have differs : ¬ name = key := fun same => written same.symm
        simp [put, get?, written, differs]
      · simp [put, get?, written, read, ih]

theorem put_put (members : Members α) (name : String) (first second : α) :
    put (put members name first) name second = put members name second := by
  induction members with
  | nil => simp [put]
  | cons head rest ih =>
    obtain ⟨key, old⟩ := head
    by_cases written : key = name <;> simp [put, written, ih]

variable {members : Members α} {name : String} {value : α}

/-- Where a name is found is where it is written. -/
theorem exists_split (found : get? members name = some value) :
    ∃ before after, members = before ++ (name, value) :: after ∧
      ∀ new, put members name new = before ++ (name, new) :: after := by
  induction members with
  | nil => cases found
  | cons head rest ih =>
    obtain ⟨key, other⟩ := head
    by_cases here : key = name
    · subst here
      simp only [get?, ↓reduceIte, Option.some.injEq] at found
      exact ⟨[], rest, by rw [found]; rfl, fun new => by simp [put]⟩
    · simp only [get?, here, ↓reduceIte] at found
      obtain ⟨before, after, rfl, puts⟩ := ih found
      exact ⟨(key, other) :: before, after, rfl, fun new => by simp [put, here, puts]⟩

theorem put_get? (found : get? members name = some value) : put members name value = members := by
  obtain ⟨before, after, rfl, puts⟩ := exists_split found
  exact puts value

theorem filterMap_put {β : Type} {old new : α} (choose : String × α → Option β)
    (found : get? members name = some old) (same : choose (name, new) = choose (name, old)) :
    (put members name new).filterMap choose = members.filterMap choose := by
  obtain ⟨before, after, rfl, puts⟩ := exists_split found
  simp [puts, List.filterMap_cons, same]

theorem names_put (members : Members α) (name : String) (value : α) :
    names (put members name value) =
      if name ∈ names members then names members else names members ++ [name] := by
  induction members with
  | nil => rfl
  | cons head rest ih =>
    obtain ⟨key, old⟩ := head
    simp only [names] at ih
    by_cases written : key = name
    · simp [put, names, written]
    · have differs : ¬ name = key := fun same => written same.symm
      by_cases later : name ∈ rest.map Prod.fst <;>
        simp [put, names, written, differs, ih, later]

theorem nodup_names_put (distinct : (names members).Nodup) (name : String) (value : α) :
    (names (put members name value)).Nodup := by
  rw [names_put]
  split
  · exact distinct
  · rename_i absent
    exact List.nodup_append.2 ⟨distinct, by simp, by simp; intro key member same; exact absent (same ▸ member)⟩

theorem mem_of_get? (found : get? members name = some value) : (name, value) ∈ members := by
  obtain ⟨before, after, rfl, _⟩ := exists_split found
  exact List.mem_append_right _ List.mem_cons_self

theorem mem_names_of_get? (found : get? members name = some value) : name ∈ names members :=
  List.mem_map.2 ⟨_, mem_of_get? found, rfl⟩

theorem mem_put {entry : String × α} (member : entry ∈ put members name value) :
    entry ∈ members ∨ entry.2 = value := by
  induction members with
  | nil =>
    rw [List.mem_singleton.1 member]
    exact .inr rfl
  | cons head rest ih =>
    unfold put at member
    split at member
    · rcases List.mem_cons.1 member with rfl | later
      · exact .inr rfl
      · exact .inl (List.mem_cons_of_mem _ later)
    · rcases List.mem_cons.1 member with rfl | later
      · exact .inl List.mem_cons_self
      · exact (ih later).imp_left (List.mem_cons_of_mem _)

end Members

namespace Value

/-! ## Attributes -/

@[simp] theorem kind?_setAttr (value : Value) (name : String) (new : Value) :
    (value.setAttr name new).kind? = value.kind? := by
  cases value <;> rfl

@[simp] theorem label?_setAttr (value : Value) (name : String) (new : Value) :
    (value.setAttr name new).label? = value.label? := by
  cases value <;> rfl

variable {value : Value}

theorem fields_setAttr (isObject : value.isObject) (name : String) (new : Value) :
    (value.setAttr name new).fields = Members.put value.fields name new := by
  cases value <;> first | rfl | cases isObject

theorem attr_setAttr (isObject : value.isObject) (name other : String) (new : Value) :
    (value.setAttr name new).attr other = if name = other then new else value.attr other := by
  unfold attr
  rw [fields_setAttr isObject, Members.get?_put]
  split <;> rfl

theorem setAttr_setAttr (value : Value) (name : String) (first second : Value) :
    (value.setAttr name first).setAttr name second = value.setAttr name second := by
  cases value <;> simp [setAttr, Members.put_put]

theorem isNode_iff_kind? : value.isNode ↔ ∃ kind, value.kind? = some kind := by
  cases value <;> simp [isNode, kind?]

theorem text?_eq_some {text : String} : value.text? = some text ↔ value = .text text := by
  cases value <;> simp [text?]

theorem isObject_of_kind? {kind : String} (is : value.kind? = some kind) : value.isObject := by
  cases value <;> first | rfl | cases is

theorem isObject_of_isNode (isNode : value.isNode) : value.isObject := by
  cases value <;> first | rfl | cases isNode

theorem isObject_of_slot? {inner : Value} {slot : Slot} (found : value.slot? slot = some inner) :
    value.isObject := by
  unfold slot? attr at found
  cases value <;>
    first
    | rfl
    | cases index : slot.index <;> simp [index, fields, Members.get?, items] at found

end Value

/-! ## Slots -/

/-- Slots of one object that do not overlap. -/
def Slot.Apart (left right : Slot) : Prop :=
  left.field ≠ right.field ∨
    ∃ first second, left.index = some first ∧ right.index = some second ∧ first ≠ second

namespace Value

@[simp] theorem kind?_putSlot (value : Value) (slot : Slot) (new : Value) :
    (value.putSlot slot new).kind? = value.kind? := by
  unfold putSlot
  repeat' split
  all_goals simp

@[simp] theorem label?_putSlot (value : Value) (slot : Slot) (new : Value) :
    (value.putSlot slot new).label? = value.label? := by
  unfold putSlot
  repeat' split
  all_goals simp

variable {value inner old new : Value} {slot : Slot}

theorem slot?_item {position : Nat} (index : slot.index = some position)
    (found : value.slot? slot = some inner) :
    ∃ items, value.attr slot.field = .list items ∧ items[position]? = some inner := by
  simp only [slot?, index] at found
  cases held : value.attr slot.field <;> simp [held, items] at found ⊢
  exact found

theorem slot?_attr (index : slot.index = none) (found : value.slot? slot = some inner) :
    value.attr slot.field = inner := by
  simp only [slot?, index] at found
  simp [attr, found]

section Filled

variable (found : value.slot? slot = some inner)

include found

theorem slot?_putSlot_self (new : Value) : (value.putSlot slot new).slot? slot = some new := by
  have isObject := isObject_of_slot? found
  cases index : slot.index with
  | none => simp [putSlot, slot?, index, fields_setAttr isObject, Members.get?_put]
  | some position =>
    obtain ⟨items, isList, item⟩ := slot?_item index found
    have within : position < items.length := (List.getElem?_eq_some_iff.1 item).1
    simp [putSlot, slot?, index, isList, attr_setAttr isObject, Value.items, within]

theorem slot?_putSlot_of_apart {other : Slot} (apart : slot.Apart other) (new : Value) :
    (value.putSlot slot new).slot? other = value.slot? other := by
  have isObject := isObject_of_slot? found
  have elsewhere (differs : slot.field ≠ other.field) (written : Value) :
      (value.setAttr slot.field written).slot? other = value.slot? other := by
    simp [slot?, attr, fields_setAttr isObject, Members.get?_put, differs]
  cases index : slot.index with
  | none =>
    rcases apart with differs | ⟨first, _, isItem, _⟩
    · simp [putSlot, index, elsewhere differs]
    · simp [index] at isItem
  | some position =>
    obtain ⟨items, isList, _⟩ := slot?_item index found
    rcases apart with differs | ⟨first, second, isItem, otherItem, differ⟩
    · simp [putSlot, index, isList, elsewhere differs]
    · by_cases same : slot.field = other.field
      · have moved : position ≠ second := by simp_all
        simp [putSlot, slot?, index, isList, otherItem, attr_setAttr isObject, ← same, Value.items,
          List.getElem?_set_ne moved]
      · simp [putSlot, index, isList, elsewhere same]

theorem attr_putSlot_of_ne {name : String} (differs : slot.field ≠ name) (new : Value) :
    (value.putSlot slot new).attr name = value.attr name := by
  have isObject := isObject_of_slot? found
  unfold putSlot
  repeat' split
  all_goals simp [attr_setAttr isObject, differs]

theorem putSlot_putSlot (first second : Value) :
    (value.putSlot slot first).putSlot slot second = value.putSlot slot second := by
  have isObject := isObject_of_slot? found
  cases index : slot.index with
  | none => simp [putSlot, index, setAttr_setAttr]
  | some position =>
    obtain ⟨items, isList, _⟩ := slot?_item index found
    simp [putSlot, index, isList, attr_setAttr isObject, setAttr_setAttr]

theorem putSlot_self : value.putSlot slot inner = value := by
  have whole {name : String} {held : Value} (is : Members.get? value.fields name = some held) :
      value.setAttr name held = value := by
    cases value <;> simp_all [setAttr, fields, Members.put_get?]
  cases index : slot.index with
  | none =>
    simp only [slot?, index] at found
    simp [putSlot, index, whole found]
  | some position =>
    obtain ⟨items, isList, item⟩ := slot?_item index found
    have unchanged : items.set position inner = items := by
      obtain ⟨within, rfl⟩ := List.getElem?_eq_some_iff.1 item
      exact List.set_getElem_self within
    have held : Members.get? value.fields slot.field = some (.list items) := by
      unfold attr at isList
      cases present : Members.get? value.fields slot.field <;> simp_all
    simp [putSlot, index, isList, unchanged, whole held]

end Filled

/-! ## Child slots -/

theorem mem_childSlots :
    slot ∈ value.childSlots ↔
      slot.field ∈ value.childFields ∧
        match value.attr slot.field, slot.index with
        | .list items, some position => position < items.length
        | .list _, none => False
        | .null, _ => False
        | _, index => index = none := by
  obtain ⟨field, index⟩ := slot
  unfold childSlots
  rw [List.mem_flatMap]
  constructor
  · rintro ⟨name, listed, member⟩
    cases held : value.attr name <;> simp [held] at member
    case list items =>
      obtain ⟨position, within, rfl, rfl⟩ := member
      simp [held, listed, within]
    all_goals
      obtain ⟨rfl, rfl⟩ := member
      simp [held, listed]
  · rintro ⟨listed, shape⟩
    refine ⟨field, listed, ?_⟩
    cases held : value.attr field <;> cases index <;> simp_all

theorem slotNodes_of_isNode (isNode : value.isNode) : value.slotNodes = [value] := by
  cases value <;> first | rfl | cases isNode

theorem isNode_of_mem_children {child : Value} (member : child ∈ value.children) :
    child.isNode := by
  obtain ⟨name, _, inSlot⟩ := List.mem_flatMap.1 member
  cases held : value.attr name <;> simp_all [slotNodes, isNode]

/-- What a slot holds is a whole attribute, or an item of one that is a list. -/
theorem attr_of_slot? (found : value.slot? slot = some inner) :
    (slot.index = none ∧ Members.get? value.fields slot.field = some inner) ∨
      ∃ position items, slot.index = some position ∧ items[position]? = some inner ∧
        Members.get? value.fields slot.field = some (.list items) := by
  cases index : slot.index with
  | none =>
    simp only [slot?, index] at found
    exact .inl ⟨rfl, found⟩
  | some position =>
    obtain ⟨items, isList, item⟩ := slot?_item index found
    unfold attr at isList
    cases present : Members.get? value.fields slot.field with
    | none => simp [present] at isList
    | some held =>
      simp only [present, Option.getD_some] at isList
      exact .inr ⟨position, items, rfl, item, by rw [isList]⟩

theorem childFields_putSlot (found : value.slot? slot = some old) (wasNode : old.isNode)
    (isNode : new.isNode) : (value.putSlot slot new).childFields = value.childFields := by
  have isObject := isObject_of_slot? found
  have open_ : (value.putSlot slot new).openFields = value.openFields := by
    unfold openFields
    rcases attr_of_slot? found with ⟨index, held⟩ | ⟨position, items, index, item, held⟩
    · simp only [putSlot, index, fields_setAttr isObject]
      apply Members.filterMap_put _ held
      simp [slotNodes_of_isNode wasNode, slotNodes_of_isNode isNode]
    · have isList : value.attr slot.field = .list items := by simp [attr, held]
      simp only [putSlot, index, isList, fields_setAttr isObject]
      apply Members.filterMap_put _ held
      have some_ : (items.filter Value.isNode).isEmpty = false := by
        have member : old ∈ items.filter Value.isNode :=
          List.mem_filter.2 ⟨List.mem_of_getElem? item, wasNode⟩
        cases filtered : items.filter Value.isNode <;> simp_all
      have still : ((items.set position new).filter Value.isNode).isEmpty = false := by
        have within := (List.getElem?_eq_some_iff.1 item).1
        have member : new ∈ (items.set position new).filter Value.isNode :=
          List.mem_filter.2 ⟨List.mem_set within new, isNode⟩
        cases filtered : (items.set position new).filter Value.isNode <;> simp_all
      simp only [slotNodes, some_, still]
  unfold childFields
  rw [kind?_putSlot, open_]

theorem childSlots_putSlot (found : value.slot? slot = some old) (wasNode : old.isNode)
    (isNode : new.isNode) : (value.putSlot slot new).childSlots = value.childSlots := by
  have isObject := isObject_of_slot? found
  unfold childSlots
  rw [childFields_putSlot found wasNode isNode]
  rw [List.flatMap_def]
  congr 1
  apply List.map_congr_left
  intro name _
  by_cases here : slot.field = name
  · subst here
    rcases attr_of_slot? found with ⟨index, held⟩ | ⟨position, items, index, _, held⟩
    · have was : value.attr slot.field = old := by simp [attr, held]
      simp only [putSlot, index, attr_setAttr isObject, ↓reduceIte, was]
      cases old <;> cases wasNode
      cases new <;> cases isNode
      rfl
    · have isList : value.attr slot.field = .list items := by simp [attr, held]
      simp [putSlot, index, isList, attr_setAttr isObject]
  · rw [attr_putSlot_of_ne found here]

theorem openFields_sublist (value : Value) :
    value.openFields.Sublist (Members.names value.fields) := by
  unfold openFields Members.names
  induction value.fields with
  | nil => exact .slnil
  | cons field rest ih =>
    rw [List.filterMap_cons]
    split
    · exact .cons _ ih
    · rename_i chosen
      split at chosen
      · cases chosen
      · cases chosen
        exact .cons_cons _ ih

theorem childFields_nodup (distinct : (Members.names value.fields).Nodup) :
    value.childFields.Nodup := by
  have listed : ∀ entry ∈ childTable, entry.2.Nodup := by decide
  unfold childFields
  split
  · rename_i names found
    obtain ⟨kind, _, inTable⟩ := Option.bind_eq_some_iff.1 found
    exact listed _ (Members.mem_of_get? inTable)
  · exact (openFields_sublist value).nodup distinct

theorem childSlots_pairwise_of_nodup (distinct : value.childFields.Nodup) :
    value.childSlots.Pairwise Slot.Apart := by
  unfold childSlots
  rw [List.pairwise_flatMap]
  constructor
  · intro name _
    split
    · rename_i items _
      rw [List.pairwise_map]
      apply (List.nodup_range (n := items.length)).imp
      intro first second differ
      exact .inr ⟨first, second, rfl, rfl, differ⟩
    · exact .nil
    · simp
  · apply distinct.imp
    intro first second differ left inFirst right inSecond
    have ofFirst : left.field = first := by
      split at inFirst
      · obtain ⟨_, _, rfl⟩ := List.mem_map.1 inFirst
        rfl
      · cases inFirst
      · rw [List.mem_singleton.1 inFirst]
    have ofSecond : right.field = second := by
      split at inSecond
      · obtain ⟨_, _, rfl⟩ := List.mem_map.1 inSecond
        rfl
      · cases inSecond
      · rw [List.mem_singleton.1 inSecond]
    exact .inl (by rw [ofFirst, ofSecond]; exact differ)

theorem childSlots_pairwise (distinct : (Members.names value.fields).Nodup) :
    value.childSlots.Pairwise Slot.Apart :=
  childSlots_pairwise_of_nodup (childFields_nodup distinct)

end Value

end Unravel
