import Unravel.Proofs.Tree.Attributes

/-!
Contract: the nodes of a tree.

Owns: children of nodes of the listed kinds, which nodes stand below which, and the
slots that children stand in.
-/

namespace Unravel.Value

variable {value : Value} {name kind : String} {names : List String} {slot : Slot}

/-! ## Kinds -/

theorem isKind_eq_false {other : String} (is : value.kind? = some kind) (differs : kind ≠ other) :
    value.isKind other = false := by
  rw [isKind, is, beq_eq_false_iff_ne]
  exact fun same => differs (Option.some.inj same)

theorem isNode_of_kind? (is : value.kind? = some kind) : value.isNode := by
  cases value <;> first | rfl | cases is

theorem kind?_of_not_isNode (isNot : value.isNode = false) : value.kind? = none := by
  cases value <;> first | rfl | cases isNot

theorem exists_label?_of_isNode (isNode : value.isNode) : ∃ label, value.label? = some label := by
  cases value <;> first | exact ⟨_, rfl⟩ | cases isNode

theorem fieldsFault?_of_isNode (isNode : value.isNode) : value.fieldsFault? = none := by
  cases value with
  | node label kind fields => rfl
  | null | bool _ | number _ | text _ | list _ | record _ _ => cases isNode

theorem exists_kind?_of_isFunction (is : value.isFunction) :
    ∃ kind ∈ functionKinds, value.kind? = some kind := by
  unfold isFunction at is
  split at is
  · rename_i kind isKind
    exact ⟨kind, List.contains_iff_mem.1 is, isKind⟩
  · cases is

/-! ## Children -/

theorem childFields_of_kind (is : value.kind? = some kind)
    (listed : Members.get? childTable kind = some names) : value.childFields = names := by
  unfold childFields
  rw [is, Option.bind_some, listed]

theorem children_of_kind (is : value.kind? = some kind) (listed : Members.get? childTable kind =
    some names) : value.children = names.flatMap fun name => (value.attr name).slotNodes := by
  unfold children
  rw [childFields_of_kind is listed]

theorem mem_childFields (is : value.isKind kind) (listed : Members.get? childTable kind = some
    names) (member : name ∈ names) : name ∈ value.childFields := by
  rw [childFields_of_kind (kind?_of_isKind is) listed]
  exact member

theorem mem_children_of_attr (listed : name ∈ value.childFields)
    (isNode : (value.attr name).isNode) : value.attr name ∈ value.children := by
  refine List.mem_flatMap.2 ⟨name, listed, ?_⟩
  rw [slotNodes_of_isNode isNode]
  exact List.mem_singleton_self _

variable {item child held : Value}

theorem mem_children_of_item (listed : name ∈ value.childFields)
    (member : item ∈ (value.attr name).items) (isNode : item.isNode) : item ∈ value.children := by
  refine List.mem_flatMap.2 ⟨name, listed, ?_⟩
  cases held : value.attr name with
  | list items =>
    rw [held] at member
    exact List.mem_filter.2 ⟨member, isNode⟩
  | _ =>
    rw [held] at member
    cases member

/-! ## Nodes -/

theorem mem_nodes_self (value : Value) : value ∈ value.nodes := by
  rw [nodes_eq]
  exact List.mem_cons_self

theorem length_nodes_pos (value : Value) : 0 < value.nodes.length :=
  List.length_pos_of_mem value.mem_nodes_self

theorem mem_nodes_of_child {inner : Value} (member : child ∈ value.children)
    (inside : inner ∈ child.nodes) : inner ∈ value.nodes := by
  rw [nodes_eq]
  exact List.mem_cons_of_mem _ (List.mem_flatMap.2 ⟨child, member, inside⟩)

theorem mem_nodes_trans {value middle inner : Value} (member : middle ∈ value.nodes)
    (inside : inner ∈ middle.nodes) : inner ∈ value.nodes := by
  rw [nodes_eq] at member
  rcases List.mem_cons.1 member with rfl | below
  · exact inside
  · obtain ⟨child, isChild, inChild⟩ := List.mem_flatMap.1 below
    exact mem_nodes_of_child isChild (mem_nodes_trans inChild inside)
termination_by sizeOf value
decreasing_by exact sizeOf_lt_of_mem_children isChild

theorem isNode_of_mem_nodes {value inner : Value} (isNode : value.isNode)
    (member : inner ∈ value.nodes) : inner.isNode := by
  rw [nodes_eq] at member
  rcases List.mem_cons.1 member with rfl | below
  · exact isNode
  · obtain ⟨child, isChild, inside⟩ := List.mem_flatMap.1 below
    exact isNode_of_mem_nodes (isNode_of_mem_children isChild) inside
termination_by sizeOf value
decreasing_by exact sizeOf_lt_of_mem_children isChild

/-! ## Child slots that hold nodes -/

/-- The child slots that hold nodes, with the nodes. -/
def childEntries (value : Value) : List (Slot × Value) := value.childSlots.filterMap fun slot =>
    (value.slot? slot).bind fun child => if child.isNode then some (slot, child) else none

/-- A slot that holds a node, with the node. -/
def childAt? (value : Value) (slot : Slot) : Option (Slot × Value) :=
  (value.slot? slot).bind fun child => if child.isNode then some (slot, child) else none

theorem childAt?_of_isNode (held : value.slot? slot = some child) (isNode : child.isNode) :
    value.childAt? slot = some (slot, child) := by
  rw [childAt?, held, Option.bind_some, if_pos isNode]

theorem childAt?_of_absent (absent : ∀ child, value.slot? slot = some child → child.isNode = false) :
    value.childAt? slot = none := by
  unfold childAt?
  cases held : value.slot? slot with
  | none => rfl
  | some child => rw [Option.bind_some, absent child held, if_neg Bool.false_ne_true]

theorem mem_childSlots_of_slot? (listed : slot.field ∈ value.childFields)
    (held : value.slot? slot = some child) (isNode : child.isNode) : slot ∈ value.childSlots := by
  rw [mem_childSlots]
  refine ⟨listed, ?_⟩
  rcases attr_of_slot? held with ⟨index, found⟩ | ⟨position, items, index, item, found⟩
  · simp only [attr, found, Option.getD_some, index]
    cases child <;> first | rfl | cases isNode
  · simp only [attr, found, Option.getD_some, index]
    exact (List.getElem?_eq_some_iff.1 item).1

theorem filterMap_range_getElem? (items : List Value) :
    (List.range items.length).filterMap (fun index =>
        items[index]?.bind fun item => if item.isNode then some item else none) =
      items.filter isNode := by
  induction items with
  | nil => rfl
  | cons item rest ih =>
    rw [List.length_cons, List.range_succ_eq_map, List.filterMap_cons, List.filterMap_map]
    simp only [Function.comp_def, List.getElem?_cons_succ, ih,
      List.getElem?_cons_zero, Option.bind_some]
    cases isNode : item.isNode <;> simp [isNode]

theorem get?_of_attr (is : value.attr name = held) (filled : held ≠ .null) :
    Members.get? value.fields name = some held := by
  unfold attr at is
  cases found : Members.get? value.fields name with
  | none =>
    rw [found] at is
    exact absurd is.symm filled
  | some other =>
    rw [found] at is
    exact congrArg some is

theorem slot?_attr_of_isNode (isNode : (value.attr name).isNode) : value.slot? ⟨name, none⟩ = some
    (value.attr name) := get?_of_attr rfl (by intro null; rw [null] at isNode; cases isNode)

theorem setAttr_attr (is : value.attr name = held) (filled : held ≠ .null) :
    value.setAttr name held = value := by
  have found := get?_of_attr is filled
  cases value with
  | record label fields => exact congrArg (record label) (Members.put_get? found)
  | node label kind fields => exact congrArg (node label kind) (Members.put_get? found)
  | _ => rfl

theorem filterMap_slots (value : Value) (name : String) :
    (match value.attr name with
      | .list items => (List.range items.length).map fun index => (⟨name, some index⟩ : Slot)
      | .null => []
      | _ => [⟨name, none⟩]).filterMap (fun slot => (value.slot? slot).bind fun child =>
          if child.isNode then some child else none) =
      (value.attr name).slotNodes := by
  have single (held : Value) (is : value.attr name = held) (filled : held ≠ .null) :
      ([⟨name, none⟩] : List Slot).filterMap (fun slot => (value.slot? slot).bind fun child =>
        if child.isNode then some child else none) =
          if held.isNode then [held] else [] := by
    have found : value.slot? ⟨name, none⟩ = some held := get?_of_attr is filled
    rw [List.filterMap_cons, found, Option.bind_some]
    cases held.isNode <;> rfl
  cases held : value.attr name with
  | list items =>
    rw [List.filterMap_map, slotNodes, ← filterMap_range_getElem?]
    simp only [Function.comp_def, slot?, held, Value.items]
  | null => rfl
  | bool _ | number _ | text _ | record _ _ | node _ _ _ => exact single _ held (by simp)

theorem map_snd_childEntries (value : Value) :
    value.childEntries.map Prod.snd = value.children := by
  have second : (fun slot : Slot => Option.map Prod.snd ((value.slot? slot).bind fun child =>
      if child.isNode then some (slot, child) else none)) =
        fun slot => (value.slot? slot).bind fun child =>
          if child.isNode then some child else none := by
    funext slot
    cases value.slot? slot with
    | none => rfl
    | some child => cases isNode : child.isNode <;> simp [isNode]
  unfold childEntries childSlots children
  rw [List.map_filterMap, second, List.filterMap_flatMap]
  congr 1
  funext name
  exact value.filterMap_slots name

theorem mem_childEntries : (slot, child) ∈ value.childEntries ↔
      slot ∈ value.childSlots ∧ value.slot? slot = some child ∧ child.isNode := by
  unfold childEntries
  rw [List.mem_filterMap]
  constructor
  · rintro ⟨other, member, is⟩
    obtain ⟨held, found, chosen⟩ := Option.bind_eq_some_iff.1 is
    split at chosen
    · cases chosen
      exact ⟨member, found, by assumption⟩
    · cases chosen
  · rintro ⟨member, found, isNode⟩
    exact ⟨slot, member, by rw [found, Option.bind_some, if_pos isNode]⟩

theorem sizeOf_lt_of_mem_childEntries {entry : Slot × Value} (member : entry ∈ value.childEntries) :
    sizeOf entry.2 < sizeOf value := by
  apply sizeOf_lt_of_mem_children
  rw [← map_snd_childEntries]
  exact List.mem_map_of_mem member

theorem irrefl_apart (slot : Slot) : ¬ slot.Apart slot := by
  rintro (differ | ⟨first, second, isFirst, isSecond, differ⟩)
  · exact differ rfl
  · exact differ (Option.some.inj (isFirst.symm.trans isSecond))

theorem childEntries_pairwise (distinct : (Members.names value.fields).Nodup) :
    value.childEntries.Pairwise fun left right => left.1 ≠ right.1 := by
  refine List.Pairwise.filterMap _ ?_ (childSlots_pairwise distinct)
  intro first second apart left isLeft right isRight
  obtain ⟨_, _, chosenLeft⟩ := Option.bind_eq_some_iff.1 isLeft
  obtain ⟨_, _, chosenRight⟩ := Option.bind_eq_some_iff.1 isRight
  split at chosenLeft
  · split at chosenRight
    · cases chosenLeft
      cases chosenRight
      rintro rfl
      exact irrefl_apart _ apart
    · cases chosenRight
  · cases chosenLeft

/-! ## Identifiers -/

/-- The name of an identifier. -/
def identifierText? (value : Value) : Option String :=
  if value.isIdentifier then (value.attr "name").text? else none

theorem identifierText?_eq_some {text : String} : value.identifierText? = some text ↔
    value.isIdentifier = true ∧ value.attr "name" = .text text := by
  unfold identifierText?
  cases value.isIdentifier <;> simp [text?_eq_some]

theorem identifierText?_of_other (other : value.isIdentifier = false) :
    value.identifierText? = none := by
  rw [identifierText?, other, if_neg Bool.false_ne_true]

theorem identifierText?_of_not_isNode (no : value.isNode = false) :
    value.identifierText? = none := by
  refine identifierText?_of_other ?_
  rw [isIdentifier, isKind, kind?_of_not_isNode no]
  rfl

/-! ## Children by slot -/

/-- The child in a slot. -/
def child? (value : Value) (slot : Slot) : Option Value :=
  if slot.field ∈ value.childFields then
    (value.slot? slot).bind fun child => if child.isNode then some child else none
  else none

theorem child?_eq_some : value.child? slot = some child ↔
      slot.field ∈ value.childFields ∧ value.slot? slot = some child ∧ child.isNode := by
  unfold child?
  cases value.slot? slot with
  | none => simp
  | some held => grind

theorem mem_children_of_child? (found : value.child? slot = some child) :
    child ∈ value.children := by
  obtain ⟨listed, held, isNode⟩ := child?_eq_some.1 found
  rw [← map_snd_childEntries]
  exact List.mem_map.2
    ⟨(slot, child), mem_childEntries.2 ⟨mem_childSlots_of_slot? listed held isNode, held, isNode⟩, rfl⟩

/-- The name of the identifier that an address leads to, from child to child. -/
def nameAt? (value : Value) : Address → Option String
  | [] => value.identifierText?
  | slot :: rest => (value.child? slot).bind fun inner => inner.nameAt? rest

/-- The nodes that an address leads through, from child to child. -/
def along (value : Value) : Address → List Value
  | [] => [value]
  | slot :: rest => value :: ((value.child? slot).map fun inner => inner.along rest).getD []

end Unravel.Value
