import Mathlib.Data.List.Pairwise
import Unravel.Proofs.Renaming.Entering
import Unravel.Proofs.Renaming.Respelling
import Unravel.Proofs.Tree.Distinctness
import Unravel.Proofs.Walk.Yielding

/-!
Contract: the renaming walk spells every variable anew, once.

The walk comes to each slot of a node in turn. An identifier in the slot is replaced by one
with its new name, which the walk does not rename again, and a property may stop being
shorthand. So between two slots a node is partly spelled anew (`Sofar`), and after the last
it is `Respelled`. A walk of enough visits ends and does so for the whole tree
(`exists_start_respelled`).
-/

namespace Unravel.Pass.Renaming

open Value Walk

/-- Names in a map are spelled by it, and others stay. -/
def spellingBy (renames : Members String) (name : String) : String :=
  (Members.get? renames name).getD name

/-- Spelling by a map, whatever the labels and names are. -/
def bookOf (renames : Members String) : Dictionary where
  labels _ _ := True
  occurs _ := True
  spelling := spellingBy renames

variable {value new : Value}

theorem labelled_of_isNode {renames : Members String} (isNode : value.isNode) (isNew : new.isNode) :
    (bookOf renames).Labelled value new := by
  obtain ⟨label, isLabel⟩ := exists_label?_of_isNode isNode
  obtain ⟨other, isOther⟩ := exists_label?_of_isNode isNew
  exact ⟨label, other, isLabel, isOther, trivial⟩

/-! ## Identifiers -/

section Identifiers

variable {renames : Members String} {node parent : Value} {field : Option String}

variable {old : String}

theorem target?_eq (isName : node.attr "name" = .text old) : target? renames node parent field = if
    spellingBy renames old = old ∨ isPropertyName parent field then none else some (spellingBy
    renames old) := by
  unfold target? spellingBy
  rw [isName]
  cases found : Members.get? renames old with
  | none => simp [text?, found]
  | some new => simp [text?, found]

theorem respelled_identifier (is : node.isIdentifier) (isName : node.attr "name" = .text old) {new :
    Value} (isNew : new.isIdentifier) (keeps : isPropertyName parent field = true → new.attr "name"
    = node.attr "name") (become : isPropertyName parent field = false → new.attr "name" = .text
    (spellingBy renames old)) : Respelled (bookOf renames) (isPropertyName parent field) node new
    := by
  have labelled : (bookOf renames).Labelled node new := labelled_of_isNode (isNode_of_kind?
    (kind?_of_isKind is)) (isNode_of_kind? (kind?_of_isKind isNew))
  exact .identifier is isNew labelled keeps fun isVariable =>
    ⟨labelled, old, isName, trivial, become isVariable⟩

end Identifiers

/-- The object is as it was, or a property that is no longer shorthand; a property that
is stays as it was only if something stays. -/
inductive Unmarked (stays : Prop) (object : Value) : Value → Prop where
  | still (holds : object.isKind "Property" = true → (object.attr "shorthand").truthy = true →
      stays) : Unmarked stays object object
  | cleared (isProperty : object.isKind "Property" = true) (moves : ¬stays) :
      Unmarked stays object (spelledOut object)

theorem ne_shorthand {object : Value} {name : String} (is : object.isKind "Property")
    (listed : name ∈ object.childFields) : name ≠ "shorthand" := by
  rw [childFields_of_kind (kind?_of_isKind is) rfl] at listed
  rintro rfl
  revert listed
  decide

namespace Unmarked

variable {stays : Prop} {object now : Value} (unmarked : Unmarked stays object now)

include unmarked

theorem kind? : now.kind? = object.kind? := by
  cases unmarked with
  | still => rfl
  | cleared => exact kind?_setAttr _ _ _

variable {name : String}

theorem attr (other : name ≠ "shorthand") : now.attr name = object.attr name := by
  cases unmarked with
  | still => rfl
  | cleared isProperty =>
    rw [spelledOut, attr_setAttr (isObject_of_kind? (kind?_of_isKind isProperty)),
      if_neg other.symm]

theorem childFields : now.childFields = object.childFields := by
  cases unmarked with
  | still => rfl
  | cleared isProperty =>
    have is := kind?_of_isKind isProperty
    have isThen : (spelledOut object).kind? = some "Property" := (kind?_setAttr _ _ _).trans is
    rw [childFields_of_kind is rfl, childFields_of_kind isThen rfl]

theorem slot? {slot : Slot} (listed : slot.field ∈ object.childFields) :
    now.slot? slot = object.slot? slot := by
  cases unmarked with
  | still => rfl
  | cleared isProperty =>
    have is := kind?_of_isKind isProperty
    have differs := (ne_shorthand isProperty listed).symm
    unfold Value.slot? spelledOut
    rw [attr_setAttr (isObject_of_kind? is), if_neg differs,
      fields_setAttr (isObject_of_kind? is), Members.get?_put, if_neg differs]

theorem attr_child (listed : name ∈ object.childFields) : now.attr name = object.attr name := by
  cases unmarked with
  | still => rfl
  | cleared isProperty =>
    exact Unmarked.attr (.cleared isProperty ‹¬stays›) (ne_shorthand isProperty listed)

end Unmarked

/-! ## One identifier -/

section Visit

variable {renames : Members String} {around : Surroundings} {object child : Value} {slot : Slot}
  {cursor : Cursor} {session : Session State}

theorem exists_rename (solid : around.Solid)
    (here : cursor.address = around.address ++ [slot]) (filled : session.tree = around.fill object)
    (listed : slot.field ∈ object.childFields) (held : object.slot? slot = some child)
    (is : child.isIdentifier) (sound : child.Sound) (byMap : session.state.renames = renames) :
    ∃ moved after new now, rename cursor session = .ok moved after ∧
      moved.address = cursor.address ∧ moved.skipped = cursor.skipped ∧
      after.tree = around.fill (now.putSlot slot new) ∧ after.state.renames = renames ∧
      Unmarked (object.Stays (spellingBy renames) slot) object now ∧ new.isIdentifier ∧
      Respelled (bookOf renames) (isPropertyName object (some slot.field)) child new := by
  obtain ⟨old, isText⟩ := Option.isSome_iff_exists.1 ((sound.shaped is).name is)
  have isName := text?_eq_some.1 isText
  have isChild : cursor.nodeIn session = child := by
    rw [Cursor.nodeIn, here, filled, Surroundings.at?_fill_slot solid, held]
    rfl
  have isParent : cursor.parentIn session = object := by
    rw [Cursor.parentIn, here, List.dropLast_concat, filled, Surroundings.at?_fill solid]
    simp
  have isField : cursor.slot?.map Slot.field = some slot.field := by
    rw [Cursor.slot?, here, List.getLast?_concat]
    rfl
  have below : cursor.address ≠ [] := by
    rw [here]
    exact List.append_ne_nil_of_right_ne_nil _ (List.cons_ne_nil _ _)
  -- an identifier with a new name, put in the slot of the object as it is by then
  have put {now : Value} {ready : Session State} {new : String} {outcome : EStateM.Result Fault
      (Session State) Cursor} (placing : Placing id (identifierNode new) State.rename cursor ready
      outcome) (filledNow : ready.tree = around.fill now) (heldNow : now.slot? slot = some child)
      (byMapNow : ready.state.renames = renames) (isNew : new = spellingBy renames old) (isVariable
      : isPropertyName object (some slot.field) = false) (unmarked : Unmarked (object.Stays
      (spellingBy renames) slot) object now) : ∃ moved after new now, outcome = .ok moved after ∧
      moved.address = cursor.address ∧ moved.skipped = cursor.skipped ∧ after.tree = around.fill
      (now.putSlot slot new) ∧ after.state.renames = renames ∧ Unmarked (object.Stays (spellingBy
      renames) slot) object now ∧ new.isIdentifier ∧ Respelled (bookOf renames) (isPropertyName
      object (some slot.field)) child new := by
    subst isNew
    obtain ⟨moved, after, rfl, puts⟩ := placing.exists_puts rfl below
    refine ⟨moved, after, ((identifierNode _).run ready.next).1, now, rfl, puts.address,
      puts.skipped, ?_, ?_, unmarked, rfl,
      respelled_identifier is isName rfl (fun kept => ?_) fun _ => rfl⟩
    · have inside := Surroundings.putAt_fill (solid.cons heldNow) child
        ((identifierNode (spellingBy renames old)).run ready.next).1
      rw [Surroundings.address, ← here, Surroundings.fill, putSlot_self heldNow, ← filledNow]
        at inside
      exact puts.tree.trans inside
    · rw [puts.state]
      exact byMapNow
    · rw [isVariable] at kept
      cases kept
  have target : target? renames child object (some slot.field) = _ := target?_eq isName
  have renamesTo := renames_rename cursor session
  generalize rename cursor session = outcome at renamesTo ⊢
  have moves {new : String} (isTarget : target? renames child object (some slot.field) = some new) :
      new = spellingBy renames old ∧ isPropertyName object (some slot.field) = false ∧
        ¬object.Stays (spellingBy renames) slot := by
    rw [target] at isTarget
    split at isTarget
    · cases isTarget
    · rename_i moves
      obtain ⟨differs, isVariable⟩ := not_or.1 moves
      cases isTarget
      have isVariable := eq_false_of_ne_true isVariable
      exact ⟨rfl, isVariable, fun stays => differs (stays child held is isVariable old isName)⟩
  cases renamesTo with
  | fails finds =>
    rw [isChild, sound.nameFault? is] at finds
    cases finds
  | keeps keeps =>
    rw [byMap, isChild, isParent, isField, target] at keeps
    split at keeps
    · rename_i same
      refine ⟨cursor, session, child, object, rfl, rfl, rfl, by rw [putSlot_self held, filled],
        byMap, .still fun _ _ => ?_, is, respelled_identifier is isName is (fun _ => rfl) ?_⟩
      · intro other isOther _ isVariable text isOtherName
        cases held.symm.trans isOther
        cases isName.symm.trans isOtherName
        exact same.resolve_right (by simp [isVariable])
      · intro isVariable
        rw [isName, same.resolve_right (by simp [isVariable])]
    · cases keeps
  | places isTarget plain placing =>
    rw [byMap, isChild, isParent, isField] at isTarget
    obtain ⟨isNew, isVariable, _⟩ := moves isTarget
    rw [isParent] at plain
    exact put placing filled held byMap isNew isVariable
      (.still fun isProperty set => by simp [isProperty, set] at plain)
  | spells isTarget isParentToo isProperty _ _ placing =>
    cases isParent.symm.trans isParentToo
    rw [byMap, isChild, isField] at isTarget
    obtain ⟨isNew, isVariable, moved⟩ := moves isTarget
    have unmarked : Unmarked (object.Stays (spellingBy renames) slot) object _ :=
      .cleared isProperty moved
    refine put placing ?_ ((unmarked.slot? listed).trans held) byMap isNew isVariable unmarked
    rw [here, List.dropLast_concat, filled, Surroundings.putAt_fill solid]

end Visit

/-! ## The slots of a node -/

/-- A node in the place of another makes a list no list and no list a list. -/
theorem formed_putSlot {old : Value} {slot : Slot} (held : value.slot? slot = some old) (wasNode :
    old.isNode) (isNode : new.isNode) : ((value.putSlot slot new).attr slot.field).isList =
    (value.attr slot.field).isList ∧ ((value.putSlot slot new).attr slot.field).items.length =
    (value.attr slot.field).items.length ∧ value.attr slot.field ≠ .null := by
  have isObject := isObject_of_slot? held
  rcases attr_of_slot? held with ⟨index, found⟩ | ⟨position, items, index, _, found⟩
  · have was : value.attr slot.field = old := by simp [attr, found]
    simp only [putSlot, index, attr_setAttr isObject, ↓reduceIte, was]
    cases old <;> cases wasNode
    cases new <;> cases isNode
    exact ⟨rfl, rfl, by simp⟩
  · have was : value.attr slot.field = .list items := by simp [attr, found]
    simp only [putSlot, index, was, attr_setAttr isObject, ↓reduceIte]
    exact ⟨rfl, List.length_set, by simp⟩

/-- A node with the slots that are left as they were and the others spelled anew. -/
structure Sofar (renames : Members String) (value : Value) (left : List Slot) (now : Value) :
    Prop where
  kind : now.kind? = value.kind?
  childFields : now.childFields = value.childFields
  formed : ∀ name ∈ value.childFields, (now.attr name).isList = (value.attr name).isList ∧
    (now.attr name).items.length = (value.attr name).items.length ∧
    (value.attr name = .null → now.attr name = .null)
  plain : ∀ name ∉ value.childFields, name ≠ "shorthand" → now.attr name = value.attr name
  marked : value.isKind "Property" = true → ((now.attr "shorthand").truthy = true ↔
    (value.attr "shorthand").truthy = true ∧
      ∀ slot ∈ value.childSlots, slot ∉ left → value.Stays (spellingBy renames) slot)
  waiting : ∀ slot ∈ left, now.slot? slot = value.slot? slot
  done : ∀ slot ∈ value.childSlots, slot ∉ left → ∀ held, value.slot? slot = some held →
    ∃ new, now.slot? slot = some new ∧
      Respelled (bookOf renames) (isPropertyName value (some slot.field)) held new

namespace Sofar

variable {renames : Members String} {value now next child new : Value} {slot : Slot}
  {left : List Slot}

theorem start (value : Value) : Sofar renames value value.childSlots value where
  kind := rfl
  childFields := rfl
  formed _ _ := ⟨rfl, rfl, id⟩
  plain _ _ _ := rfl
  marked _ := by simp +contextual
  waiting _ _ := rfl
  done _ member notLeft := absurd member notLeft

/-- Whether a name is kept is seen on the node as it is by then. -/
theorem isPropertyName (sofar : Sofar renames value left now) (field : Option String) :
    isPropertyName now field = isPropertyName value field :=
  isPropertyName_congr sofar.kind (fun plain => sofar.plain "computed" plain (by decide)) field

theorem stays_iff (sofar : Sofar renames value left now) (member : slot ∈ left) :
    now.Stays (spellingBy renames) slot ↔ value.Stays (spellingBy renames) slot := by
  rw [Value.Stays, Value.Stays, sofar.waiting slot member, sofar.isPropertyName]

section Next

variable (sofar : Sofar renames value (slot :: left) now)

include sofar

theorem marked_of_stays (is : value.isKind "Property") (stays : value.Stays (spellingBy renames)
    slot) : (now.attr "shorthand").truthy = true ↔ (value.attr "shorthand").truthy = true ∧ ∀ slot ∈
    value.childSlots, slot ∉ left → value.Stays (spellingBy renames) slot := by
  refine (sofar.marked is).trans (and_congr_right fun _ => forall₂_congr fun other _ => ?_)
  by_cases same : other = slot
  · subst same
    simp [stays]
  · simp [same]

theorem pass (plain : ∀ held, value.slot? slot = some held → held.isNode = false) :
    Sofar renames value left now where
  kind := sofar.kind
  childFields := sofar.childFields
  formed := sofar.formed
  plain := sofar.plain
  marked is := sofar.marked_of_stays is fun held isHeld isIdentifier => by
    have isNode := isNode_of_kind? (kind?_of_isKind isIdentifier)
    rw [plain held isHeld] at isNode
    cases isNode
  waiting other member := sofar.waiting other (List.mem_cons_of_mem _ member)
  done other member notLeft held isHeld := by
    by_cases same : other = slot
    · subst same
      refine ⟨held, ?_, .still (plain held isHeld)⟩
      rw [sofar.waiting other List.mem_cons_self, isHeld]
    · refine sofar.done other member (fun among => ?_) held isHeld
      rcases List.mem_cons.1 among with here | later
      · exact same here
      · exact notLeft later

theorem put (distinct : (Members.names value.fields).Nodup) (member : slot ∈ value.childSlots)
    (apart : ∀ other ∈ left, slot.Apart other) (among : ∀ other ∈ left, other ∈ value.childSlots)
    (held : value.slot? slot = some child) (isChild : child.isNode)
    (unmarked : Unmarked (value.Stays (spellingBy renames) slot) now next)
    (respelled : Respelled (bookOf renames) (Renaming.isPropertyName value (some slot.field)) child
      new) : Sofar renames value left (next.putSlot slot new) := by
  have isNew : new.isNode := respelled.isNode.trans isChild
  have listed {other : Slot} (member : other ∈ value.childSlots) :
      other.field ∈ now.childFields := by
    rw [sofar.childFields]
    exact (mem_childSlots.1 member).1
  have heldNext : next.slot? slot = some child := by
    rw [unmarked.slot? (listed member), sofar.waiting slot List.mem_cons_self, held]
  have childFields := childFields_putSlot heldNext isChild isNew
  have elsewhere {name : String} (differs : slot.field ≠ name) (isName : name ≠ "shorthand" ∨
      name ∈ value.childFields) : (next.putSlot slot new).attr name = now.attr name := by
    rw [attr_putSlot_of_ne heldNext differs]
    rcases isName with other | isField
    · exact unmarked.attr other
    · exact unmarked.attr_child (by rwa [sofar.childFields])
  refine ⟨?_, ?_, ?_, ?_, ?_, ?_, ?_⟩
  · rw [kind?_putSlot, unmarked.kind?, sofar.kind]
  · rw [childFields, unmarked.childFields, sofar.childFields]
  · intro name isField
    by_cases here : slot.field = name
    · subst here
      obtain ⟨isList, length, absent⟩ := formed_putSlot heldNext isChild isNew
      have same := unmarked.attr_child (listed member)
      obtain ⟨wasList, wasLength, _⟩ := sofar.formed _ isField
      refine ⟨?_, ?_, fun isNull => absurd ?_ absent⟩
      · rw [isList, same, wasList]
      · rw [length, same, wasLength]
      · rw [same]
        exact (sofar.formed _ isField).2.2 isNull
    · rw [elsewhere here (.inr isField)]
      exact sofar.formed name isField
  · intro name notField other
    have differs : slot.field ≠ name := by
      rintro rfl
      exact notField (mem_childSlots.1 member).1
    rw [elsewhere differs (.inl other), sofar.plain name notField other]
  · intro is
    rw [attr_putSlot_of_ne heldNext (ne_shorthand is (mem_childSlots.1 member).1)]
    by_cases stays : value.Stays (spellingBy renames) slot
    · cases unmarked with
      | still => exact sofar.marked_of_stays is stays
      | cleared _ moves => exact absurd stays moves
    · have notLeft : slot ∉ left := by
        intro later
        rcases apart slot later with differs | ⟨_, _, first, second, differs⟩
        · exact differs rfl
        · exact differs (Option.some.inj (first.symm.trans second))
      refine iff_of_false ?_ fun marked => stays (marked.2 slot member notLeft)
      cases unmarked with
      | still holds => exact fun set => stays (holds (by rwa [isKind, sofar.kind]) set)
      | cleared isProperty =>
        rw [spelledOut, attr_setAttr (isObject_of_kind? (kind?_of_isKind isProperty))]
        exact Bool.false_ne_true
  · intro other later
    rw [slot?_putSlot_of_apart heldNext (apart other later), unmarked.slot? (listed (among other later)),
      sofar.waiting other (List.mem_cons_of_mem _ later)]
  · intro other isSlot notLeft inner isInner
    by_cases same : other = slot
    · subst same
      cases held.symm.trans isInner
      exact ⟨new, slot?_putSlot_self heldNext new, respelled⟩
    · have notAmong : other ∉ slot :: left := fun isAmong =>
        (List.mem_cons.1 isAmong).elim same notLeft
      obtain ⟨become, isThere, related⟩ := sofar.done other isSlot notAmong inner isInner
      refine ⟨become, ?_, related⟩
      have symmetric : Std.Symm Slot.Apart := ⟨fun _ _ apart => apart.symm⟩
      have apartHere : slot.Apart other :=
        (childSlots_pairwise distinct).forall member isSlot (Ne.symm same)
      rw [slot?_putSlot_of_apart heldNext apartHere, unmarked.slot? (listed isSlot), isThere]

end Next

theorem respelled (sofar : Sofar renames value [] now) (isNode : value.isNode) (other :
    value.isIdentifier = false) (kept : Bool) : Respelled (bookOf renames) kept value now := by
  have isNow : now.isNode := by
    obtain ⟨kind, is⟩ := isNode_iff_kind?.1 isNode
    exact isNode_iff_kind?.2 ⟨kind, sofar.kind.trans is⟩
  refine .node ⟨other, isNode, sofar.kind, labelled_of_isNode isNode isNow, sofar.childFields,
    fun name listed => (sofar.formed name listed).1,
    fun name listed => (sofar.formed name listed).2.1, sofar.plain,
    fun is => (sofar.marked is).trans (by simp [bookOf])⟩ ?_ ?_
  · intro name listed single
    by_cases isNull : value.attr name = .null
    · rw [isNull, (sofar.formed name listed).2.2 isNull]
      exact .still rfl
    · have member : ⟨name, none⟩ ∈ value.childSlots := by
        refine mem_childSlots.2 ⟨listed, ?_⟩
        cases held : value.attr name <;> simp_all [Value.isList]
      have held : value.slot? ⟨name, none⟩ = some (value.attr name) := get?_of_attr rfl isNull
      obtain ⟨new, isThere, related⟩ := sofar.done _ member List.not_mem_nil _ held
      have isNew : now.attr name = new := slot?_attr rfl isThere
      rw [isNew]
      exact related
  · intro name listed position item isItem
    have held : value.slot? ⟨name, some position⟩ = some item := isItem
    have member : ⟨name, some position⟩ ∈ value.childSlots := by
      refine mem_childSlots.2 ⟨listed, ?_⟩
      obtain ⟨items, isList, within⟩ := slot?_item rfl held
      rw [isList]
      exact (List.getElem?_eq_some_iff.1 within).1
    obtain ⟨new, isThere, related⟩ := sofar.done _ member List.not_mem_nil _ held
    have isNew : (now.attr name).items[position]? = some new := isThere
    rw [List.getD_eq_getElem?_getD, isNew]
    exact related

end Sofar

/-! ## The walk -/

/-- Frames of a walk spell a child of an object anew, and change nothing else but the mark
of a shorthand property. -/
def Respells (renames : Members String) (around : Surroundings) (object : Value) (slot : Slot)
    (child : Value) (frames : List Frame) (session : Session State) : Prop := Brings visitor frames
    around (fun whole after => after.state.renames = renames ∧ ∃ now new, whole = now.putSlot slot
    new ∧ Unmarked (object.Stays (spellingBy renames) slot) object now ∧ Respelled (bookOf renames)
    (isPropertyName object (some slot.field)) child new) session

section Walk

variable {renames : Members String} {around : Surroundings} {value object child : Value}
  {slot : Slot} {cursor : Cursor} {session : Session State}

/-- Leaving a node writes at most to the log. -/
theorem brings_leaving {reached : Value → Session State → Prop} {node : Value} (filled :
    session.tree = around.fill node) (holds : ∀ ⦃after⦄, session.Reindexed after → reached node
    after) : Brings visitor [.leaving cursor] around reached session := by
  have leaves : ∃ moved after, visitor.dispatch .leaving cursor session = .ok moved after ∧
      session.Reindexed after := by
    by_cases isProgram : (cursor.nodeIn session).kind? = some "Program"
    · rw [Visitor.dispatch_apply isProgram]
      have handlers : visitor.handlersFor .leaving "Program" = [logSummary] := rfl
      rw [handlers, Visitor.runHandlers_singleton]
      unfold logSummary
      rw [WalkM.getState_bind]
      split
      · exact ⟨cursor, _, rfl, rfl, rfl, rfl⟩
      · exact ⟨cursor, session, rfl, .refl session⟩
    · refine ⟨cursor, session, Visitor.dispatch_unhandled fun kind is => ?_, .refl session⟩
      have other : kind ≠ "Program" := by
        rintro rfl
        exact isProgram is
      simp [visitor, Visitor.handlersFor, Rule.handlersFor, Rule.onEnter, Rule.onLeave,
        Rule.handler?, Ne.symm other]
  obtain ⟨moved, after, ran, same⟩ := leaves
  have visits : step visitor (.leaving cursor) session = .ok [] after := by
    rw [step_leaving_apply, ran]
  exact brings_of_step visits (brings_nil (same.tree.trans filled) (holds same))

theorem brings_framesOf (solid : around.Solid) (distinct : (Members.names value.fields).Nodup) (here
    : cursor.address = around.address) (filled : session.tree = around.fill value) (byMap :
    session.state.renames = renames) (each : ∀ ⦃object slot child session⦄, child ∈ value.children →
    value.slot? slot = some child → object.slot? slot = some child → slot.field ∈ object.childFields
    → session.tree = around.fill object → session.state.renames = renames → Respells renames around
    object slot child [.entering cursor slot] session) : Brings visitor (framesOf cursor value)
    around (fun now after =>
      after.state.renames = renames ∧ Sofar renames value [] now) session := by
  refine Brings.append (brings_slots (fun slots now session =>
    (∀ slot ∈ slots, slot ∈ value.childSlots) ∧ slots.Pairwise Slot.Apart ∧
      Sofar renames value slots now ∧ session.state.renames = renames) solid here ?_ ?_ filled
    ⟨fun _ member => member, childSlots_pairwise distinct, .start value, byMap⟩) ?_
  · rintro slot rest now session absent ⟨among, apart, sofar, byMap⟩
    rw [sofar.waiting slot List.mem_cons_self] at absent
    exact ⟨fun other later => among other (List.mem_cons_of_mem _ later),
      (List.pairwise_cons.1 apart).2, sofar.pass absent, byMap⟩
  · rintro slot rest now child session held isNode filled ⟨among, apart, sofar, byMap⟩
    obtain ⟨apartHere, apartRest⟩ := List.pairwise_cons.1 apart
    have amongRest : ∀ other ∈ rest, other ∈ value.childSlots :=
      fun other later => among other (List.mem_cons_of_mem _ later)
    have isSlot := among slot List.mem_cons_self
    have was := (sofar.waiting slot List.mem_cons_self).symm.trans held
    have listed : slot.field ∈ now.childFields := by
      rw [sofar.childFields]
      exact (mem_childSlots.1 isSlot).1
    refine (each (mem_children_of_childSlot isSlot was isNode) was held listed filled byMap).imp ?_
    rintro _ after ⟨byMapThere, next, new, rfl, unmarked, related⟩
    rw [sofar.isPropertyName] at related
    rw [sofar.stays_iff List.mem_cons_self] at unmarked
    exact ⟨amongRest, apartRest,
      sofar.put distinct isSlot apartHere amongRest was isNode unmarked related, byMapThere⟩
  · rintro now after filled ⟨_, _, sofar, byMap⟩
    exact brings_leaving filled fun _ same => ⟨by rw [same.state, byMap], sofar⟩

theorem dispatch_entering_other {cursor : Cursor} {session : Session State}
    (other : (cursor.nodeIn session).isIdentifier = false) :
    visitor.dispatch .entering cursor session = .ok cursor session := by
  refine Visitor.dispatch_unhandled fun kind is => ?_
  have differs : kind ≠ "Identifier" := by
    rintro rfl
    simp [isIdentifier, isKind, is] at other
  simp [visitor, Visitor.handlersFor, Rule.handlersFor, Rule.onEnter, Rule.onLeave,
    Rule.handler?, Ne.symm differs]

/-- A node in a slot is spelled anew when the walk comes to it. -/
theorem respells_entering {child : Value} (isNode : child.isNode) (sound : child.Sound)
    (named : child.Everywhere NamedOnce) ⦃around : Surroundings⦄ ⦃object : Value⦄ ⦃slot : Slot⦄
    ⦃cursor : Cursor⦄ ⦃session : Session State⦄ (solid : around.Solid)
    (here : cursor.address = around.address) (filled : session.tree = around.fill object)
    (listed : slot.field ∈ object.childFields) (held : object.slot? slot = some child)
    (byMap : session.state.renames = renames) :
    Respells renames around object slot child [.entering cursor slot] session := by
  have inside := solid.cons held
  have filledChild : session.tree = Surroundings.fill ((object, slot) :: around) child := by
    rw [Surroundings.fill, putSlot_self held, filled]
  have found : session.tree.at? (cursor.address ++ [slot]) = some child := by
    rw [filled, here, Surroundings.at?_fill_slot solid, held]
  obtain ⟨scope, reached, inScope⟩ :=
    WalkM.exists_scopeOf (sound.surveyable isNode) cursor.scope session
  have same := WalkM.scopeOf_eq_ok inScope
  have isHere : Cursor.nodeIn ⟨cursor.address ++ [slot], scope, cursor.scope, false⟩ reached =
      child := by
    rw [Cursor.nodeIn, same.tree, found]
    rfl
  have isPlace : Cursor.address ⟨cursor.address ++ [slot], scope, cursor.scope, false⟩ =
      around.address ++ [slot] := congrArg (· ++ [slot]) here
  have byMapHere : reached.state.renames = renames := by rw [same.state, byMap]
  cases isIdentifier : child.isIdentifier with
  | true =>
    obtain ⟨moved, after, new, now, ran, sameAddress, notSkipped, filledAfter, byMapAfter,
      unmarked, isNew, related⟩ := exists_rename solid isPlace (same.tree.trans filled) listed
        held isIdentifier sound byMapHere
    have dispatches : visitor.dispatch .entering
        ⟨cursor.address ++ [slot], scope, cursor.scope, false⟩ reached = .ok moved after := by
      have isKind : (Cursor.nodeIn ⟨cursor.address ++ [slot], scope, cursor.scope, false⟩
          reached).kind? = some "Identifier" := by
        rw [isHere]
        exact kind?_of_isKind isIdentifier
      rw [Visitor.dispatch_apply isKind]
      exact (Visitor.runHandlers_singleton _ _ _ _).trans ran
    have isThere : moved.nodeIn after = new := by
      rw [Cursor.nodeIn, sameAddress, filledAfter, here, Surroundings.at?_fill_slot solid,
        slot?_putSlot_self ((unmarked.slot? listed).trans held)]
      rfl
    have childless : framesOf moved new = [.leaving moved] := by
      rw [framesOf, childSlots, childFields_of_kind (kind?_of_isKind isNew) rfl]
      rfl
    refine brings_entering found isNode inScope dispatches notSkipped isThere
      (isNode_of_kind? (kind?_of_isKind isNew)) ?_
    rw [childless]
    exact brings_leaving filledAfter fun _ unchanged =>
      ⟨by rw [unchanged.state, byMapAfter], now, new, rfl, unmarked, related⟩
  | false =>
    have distinct : (Members.names child.fields).Nodup := by
      obtain ⟨label, isLabel⟩ := exists_label?_of_isNode isNode
      exact ((everywhere_object isLabel).1 named).1
    have dispatches := dispatch_entering_other (isHere ▸ isIdentifier)
    refine Brings.outside (brings_entering found isNode inScope dispatches rfl isHere isNode
      ((brings_framesOf inside distinct isPlace (same.tree.trans filledChild) byMapHere
        fun _ _ inner _ isInner isThere isHeld isField filledNow byMapNow =>
          respells_entering (isNode_of_mem_children isInner)
            (sound.child isNode fun _ => isInner) (within_slot? (within_of_everywhere named) isThere)
            inside isPlace filledNow isField isHeld byMapNow).imp ?_))
    rintro new after ⟨byMapThere, sofar⟩
    refine ⟨byMapThere, object, new, rfl, .still fun _ _ => ?_, sofar.respelled isNode isIdentifier _⟩
    intro other isOther isName
    cases held.symm.trans isOther
    rw [isIdentifier] at isName
    cases isName
termination_by sizeOf child
decreasing_by exact sizeOf_lt_of_mem_children isInner

/-- A walk of enough visits over a program ends and has spelled its variables anew. -/
theorem exists_start_respelled {document : Document} (wellFormed : document.tree.WellFormed) (named
    : document.tree.Everywhere NamedOnce) (state : State) : ∃ bound after, (∀ limit, bound ≤ limit →
    Walk.start limit visitor document state = (.ok (), after)) ∧ Respelled (bookOf state.renames)
    false document.tree after.tree := by
  have sound : document.tree.Sound := wellFormed.sound document.tree.mem_nodes_self
  have is := kind?_of_isKind wellFormed.program
  have isNode := isNode_of_kind? is
  have notIdentifier : document.tree.isIdentifier = false := isKind_eq_false is (by decide)
  have distinct : (Members.names document.tree.fields).Nodup := by
    obtain ⟨label, isLabel⟩ := exists_label?_of_isNode isNode
    exact ((everywhere_object isLabel).1 named).1
  refine exists_start_of_brings (fun new _ => Respelled _ false document.tree new)
    (sound.surveyable isNode) isNode fun root opened isRoot reindexed => ?_
  have isTree : opened.tree = document.tree := reindexed.tree
  have isHere := Surroundings.nodeIn_of_fill Surroundings.solid_nil isRoot isTree
  refine ⟨opened, dispatch_entering_other (isHere ▸ notIdentifier), isTree, (brings_framesOf
    Surroundings.solid_nil distinct isRoot isTree (congrArg State.renames reindexed.state)
      fun _ _ _ _ isInner isThere isHeld isField filledNow byMapNow =>
        respells_entering (isNode_of_mem_children isInner) (sound.child isNode fun _ => isInner)
          (within_slot? (within_of_everywhere named) isThere) Surroundings.solid_nil isRoot
          filledNow isField isHeld byMapNow).imp ?_⟩
  exact fun _ _ ⟨_, sofar⟩ => sofar.respelled isNode notIdentifier false

end Walk

end Unravel.Pass.Renaming
