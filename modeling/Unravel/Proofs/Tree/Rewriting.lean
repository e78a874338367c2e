import Unravel.Proofs.Tree.Copies

/-!
Contract: rewriting nodes from the outside in.

`mapChildren` changes what stands in the child slots of a node. `rewritten` goes
through a value from the outside in: a node that a choice gives another one for is
exchanged for it, and any other node is kept with its children rewritten. Writing
into the child slots one by one, as a walk does, comes to `mapChildren`
(`foldl_putSlot_eq_mapChildren`).
-/

namespace Unravel

variable {name : String} {chosen : Slot → Bool} {child : Value}

namespace Value

/-- What an attribute holds, with a change made to it, or to its items if it is a
list. -/
def mapSlot (change : Value → Value) : Value → Value
  | .list items => .list (items.map change)
  | value => change value

/-- The node with a change made in its child slots. -/
def mapChildren (change : Value → Value) (value : Value) : Value :=
  match value with
  | .node label kind fields => .node label kind (fields.map fun field =>
    (field.1, if field.1 ∈ value.childFields then field.2.mapSlot change else field.2))
  | value => value

/-- The change gives nodes for nodes, and leaves anything else alone. -/
structure Tame (change : Value → Value) : Prop where
  isNode : ∀ ⦃value⦄, value.isNode = true → (change value).isNode = true
  still : ∀ ⦃value⦄, value.isNode = false → change value = value

namespace Tame

variable {change other : Value → Value}

theorem isNode_eq (tame : Tame change) (value : Value) : (change value).isNode = value.isNode := by
  cases isNode : value.isNode with
  | true => exact tame.isNode isNode
  | false => rw [tame.still isNode, isNode]

theorem comp (tame : Tame change) (tameOther : Tame other) :
    Tame fun value => change (other value) where
  isNode _ isNode := tame.isNode (tameOther.isNode isNode)
  still _ no := by rw [tameOther.still no, tame.still no]

end Tame

variable {change other : Value → Value} {value : Value}

theorem isNode_mapSlot (tame : Tame change) (value : Value) :
    (value.mapSlot change).isNode = value.isNode := by
  cases value with
  | list items => rfl
  | _ => exact tame.isNode_eq _

theorem mapSlot_of_isNode (isNode : value.isNode) : value.mapSlot change = change value := by
  cases value <;> first | rfl | cases isNode

theorem slotNodes_mapSlot (tame : Tame change) (value : Value) :
    (value.mapSlot change).slotNodes = value.slotNodes.map change := by
  cases value with
  | list items =>
    simp only [mapSlot, slotNodes, List.filter_map, Function.comp_def, tame.isNode_eq]
  | node label kind fields =>
    exact slotNodes_of_isNode (tame.isNode rfl)
  | null | bool _ | number _ | text _ | record _ _ =>
    rw [mapSlot.eq_2 _ _ (by simp), tame.still rfl]
    rfl

@[simp] theorem kind?_mapChildren (change : Value → Value) (value : Value) :
    (value.mapChildren change).kind? = value.kind? := by
  cases value <;> rfl

@[simp] theorem isNode_mapChildren (change : Value → Value) (value : Value) :
    (value.mapChildren change).isNode = value.isNode := by
  cases value <;> rfl

@[simp] theorem isKind_mapChildren (change : Value → Value) (value : Value) (kind : String) :
    (value.mapChildren change).isKind kind = value.isKind kind := by
  rw [isKind, isKind, kind?_mapChildren]

theorem mapChildren_of_not_isNode (no : value.isNode = false) : value.mapChildren change = value := by
  cases value <;> first | rfl | cases no

theorem fields_mapChildren (isNode : value.isNode) :
    (value.mapChildren change).fields = value.fields.map fun field =>
      (field.1, if field.1 ∈ value.childFields then field.2.mapSlot change else field.2) := by
  cases value <;> first | rfl | cases isNode

theorem names_mapChildren (change : Value → Value) (value : Value) :
    Members.names (value.mapChildren change).fields = Members.names value.fields := by
  cases isNode : value.isNode with
  | false => rw [mapChildren_of_not_isNode isNode]
  | true =>
    rw [fields_mapChildren isNode, Members.names, List.map_map]
    rfl

theorem get?_map_fields (revise : String → Value → Value) (fields : Members Value) (name : String) :
    Members.get? (fields.map fun field => (field.1, revise field.1 field.2)) name =
      (Members.get? fields name).map (revise name) := by
  induction fields with
  | nil => rfl
  | cons field rest ih =>
    by_cases here : field.1 = name
    · simp [Members.get?, here]
    · simp [Members.get?, here, ih]

theorem get?_mapChildren (isNode : value.isNode) (name : String) : Members.get? (value.mapChildren
    change).fields name = (Members.get? value.fields name).map fun held =>
        if name ∈ value.childFields then held.mapSlot change else held := by
  rw [fields_mapChildren isNode, get?_map_fields fun name held =>
    if name ∈ value.childFields then held.mapSlot change else held]

theorem attr_mapChildren (tame : Tame change) (isNode : value.isNode)
    (listed : name ∈ value.childFields) :
    (value.mapChildren change).attr name = (value.attr name).mapSlot change := by
  unfold attr
  rw [get?_mapChildren isNode]
  cases Members.get? value.fields name with
  | none => exact (tame.still rfl).symm
  | some held => simp [listed]

theorem attr_mapChildren_of_not_mem (unlisted : name ∉ value.childFields) :
    (value.mapChildren change).attr name = value.attr name := by
  cases isNode : value.isNode with
  | false => rw [mapChildren_of_not_isNode isNode]
  | true =>
    unfold attr
    rw [get?_mapChildren isNode]
    cases Members.get? value.fields name <;> simp [unlisted]

section Changes

variable (tame : Tame change)

include tame

theorem childFields_mapChildren (value : Value) :
    (value.mapChildren change).childFields = value.childFields := by
  cases isNode : value.isNode with
  | false => rw [mapChildren_of_not_isNode isNode]
  | true =>
    have same : (value.mapChildren change).openFields = value.openFields := by
      unfold openFields
      rw [fields_mapChildren isNode, List.filterMap_map]
      congr 1
      funext field
      simp only [Function.comp_def]
      split <;> simp [slotNodes_mapSlot tame]
    unfold childFields
    rw [kind?_mapChildren, same]

theorem children_mapChildren (isNode : value.isNode) :
    (value.mapChildren change).children = value.children.map change := by
  unfold children
  rw [childFields_mapChildren tame, List.map_flatMap, List.flatMap_def]
  congr 1
  apply List.map_congr_left
  intro name listed
  rw [attr_mapChildren tame isNode listed, slotNodes_mapSlot tame]

theorem items_mapSlot (value : Value) : (value.mapSlot change).items = value.items.map change := by
  cases value with
  | list items => rfl
  | node label kind fields =>
    have isNode := tame.isNode (show (node label kind fields).isNode = true from rfl)
    have noItems {other : Value} (is : other.isNode) : other.items = [] := by
      cases other <;> first | rfl | cases is
    exact noItems isNode
  | null | bool _ | number _ | text _ | record _ _ =>
    rw [mapSlot.eq_2 _ _ (by simp), tame.still rfl]
    rfl

theorem child?_mapChildren (isNode : value.isNode) (slot : Slot) :
    (value.mapChildren change).child? slot = (value.child? slot).map change := by
  unfold child? slot?
  rw [childFields_mapChildren tame]
  split
  · rename_i listed
    cases slot.index with
    | none =>
      rw [get?_mapChildren isNode]
      cases Members.get? value.fields slot.field with
      | none => rfl
      | some held =>
        rw [Option.map_some, if_pos listed]
        cases isHeld : held.isNode <;> simp [isNode_mapSlot tame, tame.isNode_eq, mapSlot_of_isNode, isHeld]
    | some position =>
      dsimp only
      rw [attr_mapChildren tame isNode listed, items_mapSlot tame, List.getElem?_map]
      cases (value.attr slot.field).items[position]? with
      | none => rfl
      | some item => cases isItem : item.isNode <;> simp [tame.isNode_eq, isItem]
  · rfl

theorem mapSlot_congr (tameOther : Tame other) (same : ∀ child ∈ value.slotNodes, change child =
    other child) : value.mapSlot change = value.mapSlot other := by
  have alike (inner : Value) (holds : inner.isNode → change inner = other inner) :
      change inner = other inner := by
    cases isNode : inner.isNode with
    | true => exact holds isNode
    | false => rw [tame.still isNode, tameOther.still isNode]
  cases value with
  | list items =>
    refine congrArg list (List.map_congr_left fun item member => alike item fun isNode => ?_)
    exact same item (List.mem_filter.2 ⟨member, isNode⟩)
  | node label kind fields => exact same _ List.mem_cons_self
  | null | bool _ | number _ | text _ | record _ _ => exact alike _ fun isNode => nomatch isNode

/-- Changes that agree on what the attributes of a node hold change its children
alike. -/
theorem mapChildren_congr (tameOther : Tame other)
    (same : ∀ field ∈ value.fields, ∀ child ∈ field.2.slotNodes, change child = other child) :
    value.mapChildren change = value.mapChildren other := by
  cases value with
  | node label kind fields =>
    refine congrArg (node label kind) (List.map_congr_left fun field member => ?_)
    rw [mapSlot_congr tame tameOther (same field member)]
  | _ => rfl

theorem mapSlot_mapSlot (value : Value) :
    (value.mapSlot change).mapSlot other = value.mapSlot fun inner => other (change inner) := by
  cases value with
  | list items => simp [mapSlot]
  | node label kind fields =>
    exact mapSlot_of_isNode (tame.isNode (show (node label kind fields).isNode = true from rfl))
  | null | bool _ | number _ | text _ | record _ _ =>
    rw [mapSlot.eq_2 change _ (by simp), tame.still rfl, mapSlot.eq_2 other _ (by simp),
      mapSlot.eq_2 _ _ (by simp), tame.still rfl]

theorem mapChildren_mapChildren (value : Value) : (value.mapChildren change).mapChildren other =
    value.mapChildren fun inner => other (change inner) := by
  cases value with
  | node label kind fields =>
    have same := childFields_mapChildren tame (node label kind fields)
    rw [mapChildren] at same
    simp only [mapChildren, same, List.map_map]
    refine congrArg (node label kind) (List.map_congr_left fun field _ => ?_)
    dsimp only [Function.comp_def]
    split
    · rw [mapSlot_mapSlot tame]
    · rfl
  | _ => rfl

end Changes

theorem mapChildren_of_childless (none : value.childFields = []) :
    value.mapChildren change = value := by
  cases value with
  | node label kind fields => simp [mapChildren, none]
  | _ => rfl

/-- Writing an attribute that holds children commutes with the change. -/
theorem mapChildren_setAttr {kind : String} {names : List String} {new : Value}
    (is : value.kind? = some kind) (listed : Members.get? childTable kind = some names)
    (among : name ∈ names) : (value.setAttr name new).mapChildren change =
      (value.mapChildren change).setAttr name (new.mapSlot change) := by
  have mapped (fields : Members Value) : (Members.put fields name new).map (fun field =>
          (field.1, if field.1 ∈ names then field.2.mapSlot change else field.2)) =
        Members.put (fields.map fun field =>
          (field.1, if field.1 ∈ names then field.2.mapSlot change else field.2)) name
          (new.mapSlot change) := by
    induction fields with
    | nil => simp [Members.put, among]
    | cons field rest ih =>
      by_cases here : field.1 = name
      · simp [Members.put, here, among]
      · simp [Members.put, here, ih]
  have fields := childFields_of_kind is listed
  have fieldsAfter := childFields_of_kind
    (show (value.setAttr name new).kind? = some kind by rwa [kind?_setAttr]) listed
  cases value with
  | node label kind fields =>
    simp only [setAttr] at fieldsAfter ⊢
    simp only [mapChildren, fields, fieldsAfter, mapped]
  | _ => cases is

/-! ## Child slots one by one -/

/-- What an attribute holds, with a change made in some of its slots. -/
def mapField (chosen : Slot → Bool) (change : Value → Value) (name : String) : Value → Value
  | .list items => .list (items.mapIdx fun position item =>
    if chosen ⟨name, some position⟩ then change item else item)
  | held => if chosen ⟨name, none⟩ then change held else held

/-- The node with a change made in some slots. -/
def mapSlots (chosen : Slot → Bool) (change : Value → Value) : Value → Value
  | .node label kind fields =>
    .node label kind (fields.map fun field => (field.1, mapField chosen change field.1 field.2))
  | value => value

end Value

theorem Members.put_eq_map {α : Type} {members : Members α} {old : α} (new : α) (distinct : (names
    members).Nodup) (found : get? members name = some old) : put members name new = members.map fun
    member => (member.1, if member.1 = name then new else member.2) := by
  induction members with
  | nil => cases found
  | cons head rest ih =>
    obtain ⟨key, value⟩ := head
    obtain ⟨absent, distinctRest⟩ := List.nodup_cons.1 distinct
    by_cases here : key = name
    · have others : rest.map (fun member => (member.1, if member.1 = name then new else member.2)) =
          rest := by
        rw [List.map_congr_left (g := id), List.map_id]
        intro member within
        have differs : member.1 ≠ name := by
          intro same
          have isIn : member.1 ∈ names rest := List.mem_map_of_mem within
          rw [same, ← here] at isIn
          exact absent isIn
        simp [differs]
      simp [put, here, others]
    · simp only [get?, here, ↓reduceIte] at found
      simp [put, here, ih distinctRest found]

theorem Members.get?_of_mem {α : Type} {members : Members α} {member : String × α} (distinct :
    (names members).Nodup) (within : member ∈ members) : get? members member.1 = some member.2 := by
  induction members with
  | nil => cases within
  | cons head rest ih =>
    obtain ⟨absent, distinctRest⟩ := List.nodup_cons.1 distinct
    rcases List.mem_cons.1 within with rfl | further
    · simp [get?]
    · have differs : head.1 ≠ member.1 := fun same =>
        absent (same ▸ List.mem_map_of_mem further)
      simp [get?, differs, ih distinctRest further]

namespace Value

variable {change : Value → Value} {value : Value}

theorem mapField_of_isNode (name : String) (isNode : value.isNode) :
    mapField chosen change name value = if chosen ⟨name, none⟩ then change value else value := by
  cases value <;> first | rfl | cases isNode

theorem mapField_congr {others : Slot → Bool}
    (same : ∀ index, chosen ⟨name, index⟩ = others ⟨name, index⟩) (value : Value) :
    mapField chosen change name value = mapField others change name value := by
  cases value <;> simp only [mapField, same]

theorem putSlot_mapSlots {slot : Slot} (isNode : value.isNode)
    (distinct : (Members.names value.fields).Nodup) (held : value.slot? slot = some child)
    (isChild : child.isNode) (chosen : Slot → Bool) :
    (value.mapSlots chosen change).putSlot slot (change child) =
      value.mapSlots (fun other => chosen other || other == slot) change := by
  obtain ⟨name, index⟩ := slot
  cases value with
  | node label kind fields =>
    have others (field : String × Value) (differs : field.1 ≠ name) : mapField chosen change field.1
        field.2 = mapField (fun other => chosen other || other == ⟨name, index⟩) change field.1
        field.2 := mapField_congr (fun position => by simp [differs]) _
    have write (old new : Value) (found : Members.get? fields name = some old) (is : new = mapField
        (fun other => chosen other || other == ⟨name, index⟩) change name old) : ((node label kind
        fields).mapSlots chosen change).setAttr name new = (node label kind fields).mapSlots (fun
        other => chosen other || other == ⟨name, index⟩) change := by
      refine congrArg (node label kind) ?_
      have mapped := get?_map_fields (mapField chosen change) fields name
      rw [found] at mapped
      rw [Members.put_eq_map new (by rw [Members.names, List.map_map]; exact distinct) mapped,
        List.map_map]
      refine List.map_congr_left fun field member => ?_
      by_cases here : field.1 = name
      · have same : field.2 = old := by
          have found' := Members.get?_of_mem distinct member
          rw [here] at found'
          exact Option.some.inj (found'.symm.trans found)
        simp only [Function.comp_def, here, if_true, is, same]
      · simp only [Function.comp_def, here, if_false, others field here]
    cases index with
    | none =>
      refine write child _ held ?_
      rw [mapField_of_isNode name isChild]
      simp
    | some position =>
      obtain ⟨items, isList, found⟩ := slot?_item rfl held
      have stored := get?_of_attr isList (by simp)
      have read : ((node label kind fields).mapSlots chosen change).attr name =
          mapField chosen change name (list items) := by
        simp only [attr, mapSlots, Value.fields, get?_map_fields (mapField chosen change)]
        rw [show Members.get? fields name = some (list items) from stored]
        rfl
      simp only [putSlot, read, mapField]
      refine write _ _ stored ?_
      refine congrArg list (List.ext_getElem? fun other => ?_)
      by_cases here : position = other
      · subst here
        obtain ⟨within, is⟩ := List.getElem?_eq_some_iff.1 found
        simp [is, within]
      · have differs : ¬ other = position := fun same => here same.symm
        simp [here, differs, List.getElem?_mapIdx]
  | _ => cases isNode

theorem mapField_of_none (none : ∀ index, chosen ⟨name, index⟩ = false) (value : Value) :
    mapField chosen change name value = value := by
  cases value with
  | list items =>
    refine congrArg list (List.ext_getElem? fun position => ?_)
    simp [none]
  | _ => simp [mapField, none]

theorem mapField_of_all (tame : Tame change) (item : ∀ position item, value.items[position]? = some
    item → item.isNode → chosen ⟨name, some position⟩) (whole : value.isNode → chosen ⟨name, none⟩)
    : mapField chosen change name value = value.mapSlot change := by
  cases value with
  | list items =>
    refine congrArg list (List.ext_getElem? fun position => ?_)
    rw [List.getElem?_mapIdx, List.getElem?_map]
    cases found : items[position]? with
    | none => rfl
    | some inner =>
      cases isNode : inner.isNode with
      | true => simp [item position inner found isNode]
      | false => simp [tame.still isNode]
  | node label kind fields => simp [mapField, mapSlot, whole rfl]
  | null | bool _ | number _ | text _ | record _ _ =>
    rw [mapSlot.eq_2 _ _ (by simp), mapField.eq_2 _ _ _ _ (by simp), tame.still rfl, ite_self]

theorem mapSlots_none (change : Value → Value) (value : Value) :
    value.mapSlots (fun _ => false) change = value := by
  cases value with
  | node label kind fields =>
    refine congrArg (node label kind) ?_
    rw [List.map_congr_left (g := id), List.map_id]
    rintro ⟨name, held⟩ _
    rw [mapField_of_none fun _ => rfl]
    rfl
  | _ => rfl

theorem foldl_putSlot_eq_mapSlots (isNode : value.isNode)
    (distinct : (Members.names value.fields).Nodup) (entries : List (Slot × Value))
    (among : ∀ entry ∈ entries, value.slot? entry.1 = some entry.2 ∧ entry.2.isNode)
    (chosen : Slot → Bool) : entries.foldl (fun done entry => done.putSlot entry.1 (change entry.2))
        (value.mapSlots chosen change) =
      value.mapSlots (fun slot => chosen slot || (entries.map Prod.fst).contains slot) change := by
  induction entries generalizing chosen with
  | nil => simp
  | cons entry rest ih =>
    obtain ⟨held, isChild⟩ := among entry List.mem_cons_self
    rw [List.foldl_cons, putSlot_mapSlots isNode distinct held isChild,
      ih fun other member => among other (List.mem_cons_of_mem _ member)]
    congr 1
    funext slot
    rw [List.map_cons, List.contains_cons, Bool.or_assoc]

/-- Writing into the child slots one by one, as a walk does, changes the children. -/
theorem foldl_putSlot_eq_mapChildren (tame : Tame change) (isNode : value.isNode) (distinct :
    (Members.names value.fields).Nodup) : value.childEntries.foldl (fun done entry => done.putSlot
    entry.1 (change entry.2)) value = value.mapChildren change := by
  have written : value.childEntries.foldl _ _ = value.mapSlots _ change :=
    foldl_putSlot_eq_mapSlots isNode distinct value.childEntries
      (fun entry member => (mem_childEntries.1 member).2) fun _ => false
  rw [mapSlots_none] at written
  rw [written]
  simp only [Bool.false_or]
  cases value with
  | node label kind fields =>
    refine congrArg (node label kind) (List.map_congr_left fun field member => ?_)
    obtain ⟨name, held⟩ := field
    have isAttr : (node label kind fields).attr name = held := by
      rw [attr, Members.get?_of_mem distinct member, Option.getD_some]
    have listed {slot : Slot} {child : Value} (isField : slot.field ∈ (node label kind
        fields).childFields) (found : (node label kind fields).slot? slot = some child) (isChild :
        child.isNode) : ((node label kind fields).childEntries.map Prod.fst).contains slot :=
        List.contains_iff_mem.2 (List.mem_map.2 ⟨_, mem_childEntries.2 ⟨mem_childSlots_of_slot?
        isField found isChild, found, isChild⟩, rfl⟩)
    refine congrArg (Prod.mk name) ?_
    split
    · rename_i isChildField
      refine mapField_of_all tame (fun position item found isChild => ?_) fun isChild => ?_
      · exact @listed ⟨name, some position⟩ item isChildField (by simpa [slot?, isAttr] using found)
          isChild
      · exact @listed ⟨name, none⟩ _ isChildField (slot?_attr_of_isNode (isAttr ▸ isChild))
          (isAttr ▸ isChild)
    · rename_i other
      refine mapField_of_none (fun index => Bool.eq_false_iff.2 fun chosen => other ?_) _
      obtain ⟨entry, isEntry, isSlot⟩ := List.mem_map.1 (List.contains_iff_mem.1 chosen)
      have inSlots := (mem_childEntries.1 isEntry).1
      rw [isSlot] at inSlots
      exact (mem_childSlots.1 inSlots).1
  | _ => cases isNode

theorem childEntries_unlabelled (value : Value) : value.unlabelled.childEntries =
      value.childEntries.map fun entry => (entry.1, entry.2.unlabelled) := by
  unfold childEntries
  rw [childSlots_unlabelled, List.map_filterMap]
  congr 1
  funext slot
  rw [slot?_unlabelled]
  cases value.slot? slot with
  | none => rfl
  | some child => cases isNode : child.isNode <;> simp [isNode]

theorem child?_unlabelled (value : Value) (slot : Slot) :
    value.unlabelled.child? slot = (value.child? slot).map unlabelled := by
  unfold child?
  rw [childFields_unlabelled, slot?_unlabelled]
  split
  · cases value.slot? slot with
    | none => rfl
    | some child => cases isNode : child.isNode <;> simp [isNode]
  · rfl

theorem names_unlabelled (value : Value) :
    Members.names value.unlabelled.fields = Members.names value.fields := by
  rw [fields_unlabelled, Members.names, List.map_map]
  rfl

theorem length_nodes_lt (member : child ∈ value.children) :
    child.nodes.length < value.nodes.length := by
  obtain ⟨before, later, are⟩ := List.append_of_mem member
  rw [nodes_eq value, are, List.flatMap_append, List.flatMap_cons, List.length_cons,
    List.length_append, List.length_append]
  omega

/-! ## Rewriting from the outside in -/

mutual

/-- The value with each outermost node that a choice is made for exchanged for
what is chosen. -/
def rewritten (choose : Value → Option Value) : Value → Value
  | .node label kind fields =>
    match choose (.node label kind fields) with
    | some new => new
    | none => .node label kind
        (rewrittenFields choose (Value.node label kind fields).childFields fields)
  | value => value

def rewrittenItems (choose : Value → Option Value) : List Value → List Value
  | [] => []
  | item :: rest => rewritten choose item :: rewrittenItems choose rest

def rewrittenFields (choose : Value → Option Value) (names : List String) :
    List (String × Value) → List (String × Value)
  | [] => []
  | (name, .list items) :: rest =>
    (name, .list (if name ∈ names then rewrittenItems choose items else items)) ::
      rewrittenFields choose names rest
  | (name, held) :: rest =>
    (name, if name ∈ names then rewritten choose held else held) ::
      rewrittenFields choose names rest

end

variable {choose : Value → Option Value}

theorem rewrittenItems_eq_map (items : List Value) :
    rewrittenItems choose items = items.map (rewritten choose) := by
  induction items with
  | nil => rfl
  | cons item rest ih => rw [rewrittenItems, ih, List.map_cons]

theorem rewrittenFields_eq_map (names : List String) (fields : List (String × Value)) :
    rewrittenFields choose names fields = fields.map fun field =>
      (field.1, if field.1 ∈ names then field.2.mapSlot (rewritten choose) else field.2) := by
  induction fields with
  | nil => rfl
  | cons field rest ih =>
    obtain ⟨name, held⟩ := field
    rw [List.map_cons, ← ih]
    cases held with
    | list items =>
      simp only [rewrittenFields, rewrittenItems_eq_map, mapSlot]
      split <;> rfl
    | _ => rfl

theorem rewritten_of_some {new : Value} (isNode : value.isNode)
    (chosen : choose value = some new) : value.rewritten choose = new := by
  cases value with
  | node label kind fields => rw [rewritten, chosen]
  | _ => cases isNode

theorem rewritten_of_none (kept : choose value = none) :
    value.rewritten choose = value.mapChildren (rewritten choose) := by
  cases value with
  | node label kind fields => simp only [rewritten, kept, rewrittenFields_eq_map, mapChildren]
  | _ => rfl

theorem rewritten_of_not_isNode (no : value.isNode = false) : value.rewritten choose = value := by
  cases value <;> first | rfl | cases no

/-- What is chosen are nodes. -/
def Choice (choose : Value → Option Value) : Prop :=
  ∀ ⦃value new⦄, choose value = some new → new.isNode = true

theorem Choice.tame (choice : Choice choose) : Tame (rewritten choose) where
  isNode value isNode := by
    cases chosen : choose value with
    | some new =>
      rw [rewritten_of_some isNode chosen]
      exact choice chosen
    | none =>
      rw [rewritten_of_none chosen, isNode_mapChildren]
      exact isNode
  still _ no := rewritten_of_not_isNode no

theorem sizeOf_lt_of_mem_field {field : String × Value} (member : field ∈ value.fields)
    (inside : child ∈ field.2.slotNodes) : sizeOf child < sizeOf value := by
  have below := sizeOf_lt_of_mem_fields member
  have within := sizeOf_le_of_mem_slotNodes inside
  omega

/-- Two rewritings that do not see each other can be made in either order: each
chooses the same before and after the other, and leaves alone what the other has
chosen. -/
theorem rewritten_comm {other : Value → Option Value} (choice : Choice choose) (choiceOther : Choice
    other) (blind : ∀ value, choose (value.rewritten other) = choose value) (blindOther : ∀ value,
    other (value.rewritten choose) = other value) (final : ∀ value new, choose value = some new →
    new.rewritten other = new) (finalOther : ∀ value new, other value = some new → new.rewritten
    choose = new) (value : Value) : (value.rewritten other).rewritten choose = (value.rewritten
    choose).rewritten other := by
  cases isNode : value.isNode with
  | false =>
    rw [rewritten_of_not_isNode isNode, rewritten_of_not_isNode isNode,
      rewritten_of_not_isNode isNode]
  | true =>
    have isOther := choiceOther.tame.isNode isNode
    have isChosen := choice.tame.isNode isNode
    cases chosen : choose value with
    | some new =>
      rw [rewritten_of_some isOther ((blind value).trans chosen),
        rewritten_of_some isNode chosen, final value new chosen]
    | none =>
      cases chosenOther : other value with
      | some new =>
        rw [rewritten_of_some isNode chosenOther, finalOther value new chosenOther,
          rewritten_of_some isChosen ((blindOther value).trans chosenOther)]
      | none =>
        have kept := (blind value).trans chosen
        have keptOther := (blindOther value).trans chosenOther
        rw [rewritten_of_none kept, rewritten_of_none chosenOther,
          rewritten_of_none keptOther, rewritten_of_none chosen,
          mapChildren_mapChildren choiceOther.tame, mapChildren_mapChildren choice.tame]
        refine mapChildren_congr (choice.tame.comp choiceOther.tame)
          (choiceOther.tame.comp choice.tame) fun field member child inside => ?_
        exact rewritten_comm choice choiceOther blind blindOther final finalOther child
termination_by sizeOf value
decreasing_by exact sizeOf_lt_of_mem_field member inside

end Value

end Unravel
