import Unravel.Proofs.Tree.Labels

/-!
Contract: what a copy shares with the value it was made from.

A copy differs in labels only: `unlabelled` forgets them, and values that are
equal without them are twins. The labels of a copy are the ones that were drawn
for it.
-/

namespace Unravel.Value

variable {value other : Value}

mutual

/-- The value with all labels forgotten. -/
def unlabelled : Value → Value
  | .list items => .list (unlabelledItems items)
  | .record _ fields => .record 0 (unlabelledFields fields)
  | .node _ kind fields => .node 0 kind (unlabelledFields fields)
  | value => value

def unlabelledItems : List Value → List Value
  | [] => []
  | item :: rest => unlabelled item :: unlabelledItems rest

def unlabelledFields : List (String × Value) → List (String × Value)
  | [] => []
  | (name, value) :: rest => (name, unlabelled value) :: unlabelledFields rest

end

@[simp] theorem unlabelledItems_eq_map (items : List Value) :
    unlabelledItems items = items.map unlabelled := by
  induction items with
  | nil => rfl
  | cons item rest ih => simp [unlabelledItems, ih]

@[simp] theorem unlabelledFields_eq_map (fields : List (String × Value)) :
    unlabelledFields fields = fields.map fun field => (field.1, field.2.unlabelled) := by
  induction fields with
  | nil => rfl
  | cons field rest ih => simp [unlabelledFields, ih]

section

variable (value)

@[simp] theorem kind?_unlabelled : value.unlabelled.kind? = value.kind? := by
  cases value <;> rfl

@[simp] theorem isNode_unlabelled : value.unlabelled.isNode = value.isNode := by
  cases value <;> rfl

theorem fields_unlabelled :
    value.unlabelled.fields = value.fields.map fun field => (field.1, field.2.unlabelled) := by
  cases value <;> simp [unlabelled, fields]

theorem items_unlabelled : value.unlabelled.items = value.items.map unlabelled := by
  cases value <;> simp [unlabelled, items]

theorem attr_unlabelled (name : String) :
    value.unlabelled.attr name = (value.attr name).unlabelled := by
  have mapped (fields : Members Value) : Members.get? (fields.map fun field => (field.1,
      field.2.unlabelled)) name = (Members.get? fields name).map unlabelled := by
    induction fields with
    | nil => rfl
    | cons field rest ih =>
      by_cases here : field.1 = name <;> simp [Members.get?, here, ih]
  unfold attr
  rw [fields_unlabelled, mapped]
  cases Members.get? value.fields name <;> rfl

theorem slotNodes_unlabelled : value.unlabelled.slotNodes = value.slotNodes.map unlabelled := by
  cases value with
  | list items => simp [unlabelled, slotNodes, List.filter_map, Function.comp_def]
  | _ => rfl

theorem childFields_unlabelled : value.unlabelled.childFields = value.childFields := by
  unfold childFields openFields
  rw [kind?_unlabelled, fields_unlabelled, List.filterMap_map]
  simp only [Function.comp_def, slotNodes_unlabelled, List.isEmpty_map]

theorem children_unlabelled : value.unlabelled.children = value.children.map unlabelled := by
  unfold children
  rw [childFields_unlabelled, List.map_flatMap]
  simp only [attr_unlabelled, slotNodes_unlabelled]

end

theorem nodes_unlabelled (value : Value) : value.unlabelled.nodes = value.nodes.map unlabelled := by
  rw [nodes_eq, nodes_eq value, children_unlabelled, List.map_cons, List.flatMap_map,
    List.map_flatMap]
  congr 1
  rw [List.flatMap_def]
  congr 1
  apply List.map_congr_left
  intro child member
  exact nodes_unlabelled child
termination_by sizeOf value
decreasing_by exact sizeOf_lt_of_mem_children member

theorem objects_unlabelled (value : Value) :
    value.unlabelled.objects = value.objects.map unlabelled := by
  induction value using treeInduction with
  | list items ih =>
    rw [show (Value.list items).unlabelled = .list (items.map unlabelled) by simp [unlabelled],
      objects_list, objects_list, List.flatMap_map, List.map_flatMap]
    exact List.flatMap_congr ih
  | object value own is ih =>
    have isUnlabelled : value.unlabelled.label? = some 0 := by cases value <;> cases is <;> rfl
    rw [objects_of_label? is, objects_of_label? isUnlabelled, innerObjects, fields_unlabelled,
      List.flatMap_map, List.map_cons, innerObjects, List.map_flatMap]
    exact congrArg (value.unlabelled :: ·) (List.flatMap_congr ih)
  | leaf value plain => cases plain <;> rfl

theorem everywhere_unlabelled {holds : Option String → List String → Prop} :
    value.unlabelled.Everywhere (fun _ => holds) ↔ value.Everywhere fun _ => holds := by
  simp only [everywhere_iff, objects_unlabelled, List.forall_mem_map, Mark.Of, kind?_unlabelled,
    fields_unlabelled, Members.names, List.map_map, Function.comp_def]
  refine forall₂_congr fun object _ => ?_
  cases object <;> simp [unlabelled, label?]

theorem truthy_unlabelled (value : Value) : value.unlabelled.truthy = value.truthy := by
  cases value with
  | list items => cases items <;> rfl
  | _ => rfl

theorem slot?_unlabelled (value : Value) (slot : Slot) :
    value.unlabelled.slot? slot = (value.slot? slot).map unlabelled := by
  unfold slot?
  cases slot.index with
  | none =>
    rw [fields_unlabelled]
    induction value.fields with
    | nil => rfl
    | cons field rest ih =>
      by_cases here : field.1 = slot.field <;> simp [Members.get?, here, ih]
  | some position =>
    dsimp only
    rw [attr_unlabelled, items_unlabelled, List.getElem?_map]

theorem setAttr_unlabelled (value : Value) (name : String) (new : Value) :
    (value.setAttr name new).unlabelled = value.unlabelled.setAttr name new.unlabelled := by
  have mapped (fields : Members Value) : (Members.put fields name new).map (fun field => (field.1,
      field.2.unlabelled)) = Members.put (fields.map fun field => (field.1, field.2.unlabelled))
      name new.unlabelled := by
    induction fields with
    | nil => rfl
    | cons field rest ih =>
      by_cases here : field.1 = name <;> simp [Members.put, here, ih]
  cases value <;> simp [setAttr, unlabelled, mapped]

theorem putSlot_unlabelled (value : Value) (slot : Slot) (new : Value) :
    (value.putSlot slot new).unlabelled = value.unlabelled.putSlot slot new.unlabelled := by
  unfold putSlot
  cases slot.index with
  | none => exact setAttr_unlabelled value slot.field new
  | some position =>
    rw [attr_unlabelled]
    cases value.attr slot.field with
    | list items =>
      rw [setAttr_unlabelled]
      simp [unlabelled, List.map_set]
    | _ => rfl

theorem childSlots_unlabelled (value : Value) : value.unlabelled.childSlots = value.childSlots := by
  unfold childSlots
  rw [childFields_unlabelled]
  congr 1
  funext name
  rw [attr_unlabelled]
  cases value.attr name <;> simp [unlabelled]

/-! ## Twins -/

/-- The values differ in labels only. -/
def Twins (value other : Value) : Prop := value.unlabelled = other.unlabelled

theorem Twins.kind? (twins : value.Twins other) : other.kind? = value.kind? := by
  rw [← kind?_unlabelled, ← twins, kind?_unlabelled]

theorem Twins.isNode (twins : value.Twins other) : other.isNode = value.isNode := by
  rw [← isNode_unlabelled, ← twins, isNode_unlabelled]

theorem Twins.everywhere {holds : Option String → List String → Prop} (twins : value.Twins other)
    (all : value.Everywhere fun _ => holds) : other.Everywhere fun _ => holds := by
  rwa [← everywhere_unlabelled, ← twins, everywhere_unlabelled]

variable {inner : Value}

theorem Twins.exists_slot? {slot : Slot} (twins : value.Twins other) (held : value.slot? slot = some
    inner) : ∃ twin, other.slot? slot = some twin ∧ inner.Twins twin := by
  have same : (value.slot? slot).map unlabelled = (other.slot? slot).map unlabelled := by
    rw [← slot?_unlabelled, twins, slot?_unlabelled]
  rw [held] at same
  obtain ⟨twin, found, isTwin⟩ := Option.map_eq_some_iff.1 same.symm
  exact ⟨twin, found, isTwin.symm⟩

theorem Twins.exists_at? {address : Address} (twins : value.Twins other) (found : value.at? address
    = some inner) : ∃ twin, other.at? address = some twin ∧ inner.Twins twin := by
  induction address generalizing value other with
  | nil =>
    cases found
    exact ⟨other, rfl, twins⟩
  | cons slot rest ih =>
    obtain ⟨held, inSlot, below⟩ := Option.bind_eq_some_iff.1 found
    obtain ⟨twin, inTwin, areTwins⟩ := twins.exists_slot? inSlot
    obtain ⟨last, foundLast, areLast⟩ := ih areTwins below
    exact ⟨last, by rw [Value.at?, inTwin, Option.bind_some, foundLast], areLast⟩

/-! ## Copies -/

mutual

theorem unlabelled_copy (value : Value) (next : Nat) :
    ((copy value).run next).1.unlabelled = value.unlabelled :=
  match value with
  | .list items => by
      change (Value.list ((copyItems items).run next).1).unlabelled = _
      simp only [unlabelled, unlabelled_copyItems items next]
  | .record label fields => by
      change (Value.record next ((copyFields fields).run (next + 1)).1).unlabelled = _
      simp only [unlabelled, unlabelled_copyFields fields (next + 1)]
  | .node label kind fields => by
      change (Value.node next kind ((copyFields fields).run (next + 1)).1).unlabelled = _
      simp only [unlabelled, unlabelled_copyFields fields (next + 1)]
  | .null => rfl
  | .bool _ => rfl
  | .number _ => rfl
  | .text _ => rfl

theorem unlabelled_copyItems (items : List Value) (next : Nat) :
    unlabelledItems ((copyItems items).run next).1 = unlabelledItems items :=
  match items with
  | [] => rfl
  | item :: rest => by
      change unlabelledItems (((copy item).run next).1 ::
        ((copyItems rest).run ((copy item).run next).2).1) = _
      simp only [unlabelledItems, unlabelled_copy item next, unlabelled_copyItems rest]

theorem unlabelled_copyFields (fields : List (String × Value)) (next : Nat) :
    unlabelledFields ((copyFields fields).run next).1 = unlabelledFields fields :=
  match fields with
  | [] => rfl
  | (name, value) :: rest => by
      change unlabelledFields ((name, ((copy value).run next).1) ::
        ((copyFields rest).run ((copy value).run next).2).1) = _
      simp only [unlabelledFields, unlabelled_copy value next, unlabelled_copyFields rest]

end

theorem twins_copy (value : Value) (next : Nat) : value.Twins ((copy value).run next).1 :=
  (unlabelled_copy value next).symm

/-- The labels are those from the first up to the last, in order. -/
def InTurn (drawn : List Nat) (first last : Nat) : Prop :=
  first ≤ last ∧ drawn = List.range' first (last - first)

theorem InTurn.nil (first : Nat) : InTurn [] first first := ⟨Nat.le_refl _, by simp⟩

theorem InTurn.cons {drawn : List Nat} (later : InTurn drawn (first + 1) last) :
    InTurn (first :: drawn) first last := by
  obtain ⟨most, is⟩ := later
  have count : last - first = last - (first + 1) + 1 := by omega
  exact ⟨by omega, by rw [is, count, List.range'_succ]⟩

theorem InTurn.append {left right : List Nat} {middle : Nat} (before : InTurn left first middle)
    (after : InTurn right middle last) : InTurn (left ++ right) first last := by
  obtain ⟨most, is⟩ := before
  obtain ⟨further, are⟩ := after
  have count : last - first = middle - first + (last - middle) := by omega
  have starts : middle = first + (middle - first) := by omega
  refine ⟨Nat.le_trans most further, ?_⟩
  rw [is, are, count, ← List.range'_append_1, ← starts]

mutual

theorem inTurn_copy (value : Value) (next : Nat) :
    InTurn ((copy value).run next).1.labels next ((copy value).run next).2 :=
  match value with
  | .list items => inTurn_copyItems items next
  | .record _ fields => (inTurn_copyFields fields (next + 1)).cons
  | .node _ _ fields => (inTurn_copyFields fields (next + 1)).cons
  | .null => .nil next
  | .bool _ => .nil next
  | .number _ => .nil next
  | .text _ => .nil next

theorem inTurn_copyItems (items : List Value) (next : Nat) :
    InTurn (labelsItems ((copyItems items).run next).1) next ((copyItems items).run next).2 :=
  match items with
  | [] => .nil next
  | item :: rest => (inTurn_copy item next).append (inTurn_copyItems rest _)

theorem inTurn_copyFields (fields : List (String × Value)) (next : Nat) :
    InTurn (labelsFields ((copyFields fields).run next).1) next ((copyFields fields).run next).2 :=
  match fields with
  | [] => .nil next
  | (_, value) :: rest => (inTurn_copy value next).append (inTurn_copyFields rest _)

end

end Unravel.Value
