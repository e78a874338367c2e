import Unravel.Pass.Concatenation
import Unravel.Proofs.Tree.Nodes
import Unravel.Proofs.Walk.Booking
import Unravel.Proofs.Walk.Recursion

/-!
Contract: concatenations are joined from the inside out.

A + expression is looked at after its operands, and what has become of an operand
is no concatenation any more. So an expression that is joined has exactly two
texts, and the joints that are counted are as many as the changes
(`even_start`).
-/

namespace Unravel

variable {value : Value}

namespace Value

/-! ## Slots that hold nodes -/

/-- A node that is found elsewhere after one has been written was there before. -/
theorem slot?_of_slot?_putSlot {held new child : Value} {slot other : Slot} (found : value.slot?
    slot = some held) (isNode : new.isNode) (differs : other ≠ slot) (there : (value.putSlot slot
    new).slot? other = some child) (isChild : child.isNode) : value.slot? other = some child := by
  by_cases apart : slot.Apart other
  · rwa [slot?_putSlot_of_apart found apart] at there
  · have isObject := isObject_of_slot? found
    obtain ⟨field, index⟩ := slot
    obtain ⟨otherField, otherIndex⟩ := other
    obtain rfl : field = otherField := Decidable.byContradiction fun differs => apart (.inl differs)
    cases index with
    | none =>
      cases otherIndex with
      | none => exact absurd rfl differs
      | some position =>
        -- a node has no items
        have noItems : new.items = [] := by cases new <;> first | rfl | cases isNode
        simp [putSlot, slot?, attr_setAttr isObject, noItems] at there
    | some position =>
      obtain ⟨items, isList, _⟩ := slot?_item rfl found
      cases otherIndex with
      | none =>
        simp only [putSlot, isList, slot?, fields_setAttr isObject, Members.get?_put,
          if_true, Option.some.injEq] at there
        rw [← there] at isChild
        cases isChild
      | some otherPosition =>
        exact absurd (.inr ⟨position, otherPosition, rfl, rfl, fun same => differs (same ▸ rfl)⟩) apart

/-! ## Texts that are joined -/

theorem leaves?_of_string? {leaf : String} (is : value.string? = some leaf) :
    value.leaves? = some [leaf] := by
  rw [leaves?, is]

/-- The texts of anything but a string literal are those of a concatenation. -/
theorem leaves?_of_no_string (no : value.string? = none) :
    value.leaves? = value.concatenation? := by
  unfold concatenation?
  split
  · rfl
  · rename_i other
    rw [leaves?, no]
    by_cases isBinary : value.isKind "BinaryExpression"
    · have noPlus : value.hasText "operator" "+" = false := by
        simpa [isBinary] using other
      simp [isBinary, noPlus]
    · simp [isBinary]

/-- The texts of what is no concatenation are one text. -/
theorem exists_leaf_of_leaves? {leaves : List String} (closed : value.concatenation? = none)
    (are : value.leaves? = some leaves) : ∃ leaf, leaves = [leaf] := by
  cases is : value.string? with
  | some leaf =>
    rw [leaves?_of_string? is] at are
    exact ⟨leaf, (Option.some.inj are).symm⟩
  | none =>
    rw [leaves?_of_no_string is, closed] at are
    cases are

variable {parts : List String}

theorem isBinary_of_concatenation? (joins : value.concatenation? = some parts) : value.isKind
    "BinaryExpression" := by
  unfold concatenation? at joins
  split at joins
  · rename_i isPlus
    exact (Bool.and_eq_true_iff.1 isPlus).1
  · cases joins

/-- A + expression whose operands are no concatenations joins two texts. -/
theorem length_of_concatenation? (left : (value.attr "left").concatenation? = none) (right :
    (value.attr "right").concatenation? = none) (joins : value.concatenation? = some parts) :
    parts.length = 2 := by
  unfold concatenation? at joins
  split at joins
  · rename_i isPlus
    obtain ⟨isBinary, plus⟩ := Bool.and_eq_true_iff.1 isPlus
    have no : value.string? = none := by
      rw [string?, isKind_eq_false (kind?_of_isKind isBinary) (by decide)]
      rfl
    rw [leaves?, no] at joins
    simp only [isBinary, plus, if_true, dite_true] at joins
    split at joins
    · rename_i first second isLeft isRight
      obtain ⟨_, rfl⟩ := exists_leaf_of_leaves? left isLeft
      obtain ⟨_, rfl⟩ := exists_leaf_of_leaves? right isRight
      cases joins
      rfl
    · cases joins
  · cases joins

end Value

namespace Pass.Concatenation

open Walk

variable {cursor moved : Cursor} {session after : Session State} {around : Surroundings}
  {node new : Value}

/-- How joining parts is counted. -/
def State.join (parts : List String) (state : State) : State :=
  ⟨state.tally.change, state.collapsed + (parts.length - 1)⟩

theorem collapse_placing (cursor : Cursor) (session : Session State) :
    match (cursor.nodeIn session).concatenation? with
    | none => collapse cursor session = .ok cursor session
    | some parts => Placing id (Value.stringNode (joined parts)) (State.join parts) cursor session
        (collapse cursor session) := by
  unfold collapse
  rw [Cursor.node_bind]
  cases (cursor.nodeIn session).concatenation? with
  | none => rfl
  | some parts => exact placing_replacing rfl ⟨rfl, rfl, rfl, rfl⟩

theorem handlersFor_leaving : visitor.handlersFor .leaving "BinaryExpression" = [collapse] := rfl

theorem handlersFor_visitor {phase : Phase} {kind : String}
    (other : phase = .entering ∨ kind ≠ "BinaryExpression") : visitor.handlersFor phase kind = [] := by
  rcases other with rfl | differs
  · rfl
  · cases phase with
    | entering => rfl
    | leaving =>
      simp [visitor, Visitor.handlersFor, Rule.handlersFor, Rule.handler?, Rule.onLeave,
        differs.symm]

theorem dispatch_entering (cursor : Cursor) (session : Session State) :
    visitor.dispatch .entering cursor session = .ok cursor session :=
  Visitor.dispatch_unhandled fun _ _ => handlersFor_visitor (.inl rfl)

theorem dispatch_leaving (cursor : Cursor) (session : Session State) :
    match (cursor.nodeIn session).concatenation? with
    | none => visitor.dispatch .leaving cursor session = .ok cursor session
    | some parts => Placing id (Value.stringNode (joined parts)) (State.join parts) cursor session
        (visitor.dispatch .leaving cursor session) := by
  by_cases is : (cursor.nodeIn session).kind? = some "BinaryExpression"
  · rw [Visitor.dispatch_apply is, handlersFor_leaving, Visitor.runHandlers_singleton]
    exact collapse_placing cursor session
  · have other : (cursor.nodeIn session).concatenation? = none := by
      unfold Value.concatenation?
      rw [show (cursor.nodeIn session).isKind "BinaryExpression" = false by simpa [Value.isKind] using is]
      rfl
    rw [other]
    refine Visitor.dispatch_unhandled fun kind isKind => handlersFor_visitor (.inr ?_)
    rintro rfl
    exact is isKind

/-- As many joints as changes have been counted. -/
def Even (session : Session State) : Prop := session.state.collapsed = session.state.tally.changes

theorem concatenation?_of_not_isNode (no : node.isNode = false) : node.concatenation? = none := by
  cases node <;> first | rfl | cases no

/-- An expression joins texts only if what its child slots hold does not. -/
theorem closed_operands (is : node.isKind "BinaryExpression") (closed : ∀ slot ∈ node.childSlots, ∀
    child, node.slot? slot = some child → child.concatenation? = none) : ∀ name ∈ ["left", "right"],
    (node.attr name).concatenation? = none := by
  intro name member
  cases isNode : (node.attr name).isNode with
  | false => exact concatenation?_of_not_isNode isNode
  | true =>
    have held := Value.slot?_attr_of_isNode isNode
    exact closed _ (Value.mem_childSlots_of_slot? (Value.mem_childFields is rfl member) held isNode)
      _ held

/-! ## Pending visits, level by level -/

/-- The child slots of the object at an address hold no concatenation, except for
some of them. -/
def Closed (tree : Value) (address : Address) (except : List Slot) : Prop :=
  ∃ node, tree.at? address = some node ∧ ∀ slot ∈ node.childSlots, slot ∉ except →
    ∀ child, node.slot? slot = some child → child.concatenation? = none

/-- The frames that are left once the node at an address is done: at each level the
child slots that are still to be visited, and leaving the node. -/
inductive Beneath (tree : Value) : Address → List Frame → Prop where
  | root : Beneath tree [] []
  | level {cursor : Cursor} {slot : Slot} {slots : List Slot} {child : Value} {rest : List Frame}
      (found : tree.at? (cursor.address ++ [slot]) = some child) (isNode : child.isNode = true)
      (closed : Closed tree cursor.address (slot :: slots))
      (beneath : Beneath tree cursor.address rest) :
      Beneath tree (cursor.address ++ [slot]) (slots.map (.entering cursor) ++ .leaving cursor :: rest)

variable {tree : Value} {address : Address} {frames : List Frame}

variable {slot : Slot} {slots : List Slot}

theorem Closed.put {old : Value} (closed : Closed tree address (slot :: slots)) (found : tree.at?
    (address ++ [slot]) = some old) (wasNode : old.isNode) (isNode : new.isNode) : Closed
    (tree.putAt (address ++ [slot]) new) address (slot :: slots) := by
  obtain ⟨node, here, none⟩ := closed
  rw [Value.at?_append_of_at? here] at found
  have held : node.slot? slot = some old := by
    obtain ⟨_, held, same⟩ := Option.bind_eq_some_iff.1 found
    exact held.trans same
  refine ⟨node.putSlot slot new, ?_, fun other listed among child there => ?_⟩
  · rw [Value.putAt_append here, Value.putAt, held, Value.at?_putAt here]
    rfl
  · cases isChild : child.isNode with
    | false => exact concatenation?_of_not_isNode isChild
    | true =>
      rw [Value.childSlots_putSlot held wasNode isNode] at listed
      exact none other listed among child (Value.slot?_of_slot?_putSlot held isNode
        (fun same => among (same ▸ List.mem_cons_self)) there isChild)

/-- A slot that holds no concatenation need not be excepted. -/
theorem Closed.drop (closed : Closed tree address (slot :: slots)) (none : ∀ child, tree.at?
    (address ++ [slot]) = some child → child.concatenation? = none) : Closed tree address slots
    := by
  obtain ⟨node, here, others⟩ := closed
  refine ⟨node, here, fun other listed among child held => ?_⟩
  by_cases same : other = slot
  · refine none child ?_
    rw [Value.at?_append_of_at? here, ← same, Value.at?, held]
    rfl
  · exact others other listed (by simp [same, among]) child held

/-- What is put in the place or below it is seen by no level. -/
theorem Beneath.put (beneath : Beneath tree address frames) (more : Address)
    (isNode : new.isNode) : Beneath (tree.putAt (address ++ more) new) address frames := by
  induction beneath generalizing more with
  | root => exact .root
  | @level cursor slot slots child rest inSlot isChild closed _ ih =>
    have whole := Value.putAt_append inSlot more new
    have isNew := Value.isNode_putAt isChild isNode more
    refine .level (whole ▸ Value.at?_putAt inSlot _) isNew ?_ ?_
    · rw [whole]
      exact closed.put inSlot isChild isNew
    · rw [List.append_assoc]
      exact ih _

/-- Where a walk stands: joints and changes are even, and the child slots of the
innermost node that are not pending are closed. -/
def Standing (frames : List Frame) (session : Session State) : Prop := Even session ∧ (frames = [] ∨
  ∃ cursor slots rest, frames = slots.map (.entering cursor) ++ .leaving cursor :: rest ∧ Closed
  session.tree cursor.address slots ∧ Beneath session.tree cursor.address rest)

/-- A node that is done and no concatenation is a closed slot of the node around it. -/
theorem Beneath.standing (beneath : Beneath session.tree address frames)
    (found : session.tree.at? address = some node) (isClosed : node.concatenation? = none)
    (even : Even session) : Standing frames session := by
  cases beneath with
  | root => exact ⟨even, .inl rfl⟩
  | level inSlot isNode closed beneath =>
    refine ⟨even, .inr ⟨_, _, _, rfl, ?_, beneath⟩⟩
    exact closed.drop fun child held => by
      cases found.symm.trans held
      exact isClosed

theorem keeps_standing : Keeps visitor Standing := by
  rintro frame rest session following after ⟨even, standing⟩ visits
  obtain ⟨cursor, slots, below, shape, closed, beneath⟩ := standing.resolve_left (List.cons_ne_nil _ _)
  cases slots with
  | nil =>
    cases shape
    obtain ⟨node, here, none⟩ := closed
    have isHere : cursor.nodeIn session = node := by rw [Cursor.nodeIn, here]; rfl
    cases step_eq_ok visits with
    | left acts =>
      have done := dispatch_leaving cursor session
      rw [isHere, acts] at done
      cases joins : node.concatenation? with
      | none =>
        rw [joins] at done
        cases done
        exact beneath.standing here joins even
      | some parts =>
        rw [joins] at done
        replace done := done.puts
        have operands := closed_operands (Value.isBinary_of_concatenation? joins)
          fun slot listed child => none slot listed List.not_mem_nil child
        have two := Value.length_of_concatenation? (operands "left" (by decide))
          (operands "right" (by decide)) joins
        have isNew : ((Value.stringNode (joined parts)).run session.next).1.isNode := rfl
        have put := beneath.put [] isNew
        rw [List.append_nil, ← done.tree] at put
        refine put.standing (done.tree ▸ Value.at?_putAt here _) rfl ?_
        unfold Even at even ⊢
        rw [done.state]
        simp only [State.join, Tally.change, two, even]
  | cons slot slots =>
    cases shape
    rcases Value.node_or_absent session.tree (cursor.address ++ [slot]) with
      ⟨value, found, isNode⟩ | absent
    · rw [step_entering_of_isNode found isNode] at visits
      obtain ⟨scope, reached, moved, inScope, acts, _⟩ := enterNode_eq_ok visits
      have reindexed := WalkM.scopeOf_eq_ok inScope
      rw [enterNode_apply inScope, acts] at visits
      rw [dispatch_entering] at acts
      cases acts
      have isValue : Cursor.nodeIn ⟨cursor.address ++ [slot], scope, cursor.scope, false⟩ after =
          value := by
        rw [Cursor.nodeIn, reindexed.tree, found]
        rfl
      dsimp only at visits
      rw [isValue, isNode] at visits
      cases visits
      have evenThere : Even after := by
        unfold Even
        rw [reindexed.state]
        exact even
      refine ⟨evenThere, .inr ⟨_, value.childSlots, _, List.append_assoc _ [_] _, ?_⟩⟩
      rw [reindexed.tree]
      exact ⟨⟨value, found, fun slot listed among => absurd listed among⟩,
        .level found isNode closed beneath⟩
    · rw [step_entering_of_absent absent] at visits
      cases visits
      exact ⟨even, .inr ⟨cursor, slots, below, rfl, closed.drop fun child held =>
        concatenation?_of_not_isNode (absent child held), beneath⟩⟩

/-- A walk that gives a result has counted one joint for each change. -/
theorem even_start {limit : Nat} {document : Document} {state : State}
    (even : state.collapsed = state.tally.changes)
    (ran : Walk.start limit visitor document state = (.ok (), after)) : Even after := by
  rw [start_eq] at ran
  cases opens : opening visitor (initialSession document state) with
  | error fault reached =>
    rw [opens] at ran
    cases ran
  | ok frames opened =>
    have standing : Standing frames opened := by
      obtain ⟨root, approached, approaches, enters⟩ := WalkM.bind_eq_ok.1 opens
      obtain ⟨reindexed, atRoot, notSkipped⟩ := approach_eq_ok approaches
      rw [WalkM.bind_apply, dispatch_entering] at enters
      dsimp only at enters
      rw [notSkipped, if_neg Bool.false_ne_true, WalkM.bind_apply] at enters
      obtain ⟨_, checked, hasChecked, goes⟩ := WalkM.bind_eq_ok.1 enters
      obtain ⟨_, rfl⟩ := WalkM.check_eq_ok.1 hasChecked
      cases goes
      refine ⟨?_, .inr ⟨root, opened.tree.childSlots, [], by rw [atRoot]; rfl, ?_, ?_⟩⟩
      · unfold Even
        rw [reindexed.state]
        exact even
      · exact ⟨opened.tree, by rw [atRoot]; rfl, fun slot listed among => absurd listed among⟩
      · rw [atRoot]
        exact .root
    rw [opens] at ran
    dsimp only at ran
    cases finishes : run visitor limit frames opened with
    | error fault reached =>
      rw [finishes] at ran
      cases ran
    | ok result reached =>
      rw [finishes] at ran
      cases ran
      exact (run_keeps keeps_standing standing finishes).1

end Pass.Concatenation

end Unravel
