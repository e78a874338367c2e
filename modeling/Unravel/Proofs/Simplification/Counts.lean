import Mathlib.Algebra.GroupWithZero.Nat
import Unravel.Proofs.Simplification.Choices

/-!
Contract: what the simplifiers count, read off the tree.

`events` lists what is counted when constant expressions are computed, in the order
of the walk; the right side of an assignment is computed by the assignment, so a
literal there is counted as an expression. `joints` is the number of concatenations
in a tree. Neither changes when the other simplifier has been there before
(`events_joined`, `joints_folded`).
-/

namespace Unravel.Pass

open Value

variable {value : Value} {kind : String}

/-! ## Computed numbers -/

namespace Folding

/-- What is counted at one place. -/
inductive Event where
  | normalized
  | folded
deriving DecidableEq, Repr

def State.count (state : State) : Event → State
  | .normalized =>
    { state with tally := state.tally.change, normalized := state.normalized + 1 }
  | .folded => { state with tally := state.tally.change, folded := state.folded + 1 }

/-- Assignments of a number that has to be computed. -/
def foldsRight (value : Value) : Bool :=
  value.isKind "AssignmentExpression" && (folded? (value.attr "right")).isSome

/-- The expression that is evaluated at a node. -/
def subject (value : Value) : Value :=
  if value.isKind "AssignmentExpression" then value.attr "right" else value

theorem subject_of_assignment (is : value.kind? = some "AssignmentExpression") :
    subject value = value.attr "right" := if_pos (beq_iff_eq.2 is)

theorem subject_of_other (is : value.kind? = some kind) (other : kind ≠ "AssignmentExpression") :
    subject value = value := by
  rw [subject, isKind_eq_false is other, if_neg Bool.false_ne_true]

/-- What is evaluated at a node is a part of it, if it is a node at all. -/
theorem subject_cases (value : Value) : subject value ∈ value.nodes ∨ (subject value).isNode = false := by
  by_cases is : value.kind? = some "AssignmentExpression"
  · rw [subject_of_assignment is]
    cases isNode : (value.attr "right").isNode with
    | false => exact .inr rfl
    | true =>
      have listed : "right" ∈ value.childFields := by
        rw [childFields_of_kind is rfl]
        decide
      exact .inl (mem_nodes_of_child (mem_children_of_attr listed isNode) (mem_nodes_self _))
  · rw [subject, isKind, beq_eq_false_iff_ne.2 is, if_neg Bool.false_ne_true]
    exact .inl (mem_nodes_self value)

theorem folded?_of_other (other : ∀ kind ∈ constantKinds, value.kind? ≠ some kind) :
    folded? value = none := by
  rw [folded?, evaluate_of_other other, ite_self]

theorem foldsRight_of_subject (keeps : folded? (subject value) = none) :
    folded? value = none ∧ foldsRight value = false := by
  by_cases is : value.kind? = some "AssignmentExpression"
  · rw [subject_of_assignment is] at keeps
    exact ⟨folded?_of_other (by rw [is]; decide), by rw [foldsRight, keeps]; exact Bool.and_false _⟩
  · have no : value.isKind "AssignmentExpression" = false := beq_eq_false_iff_ne.2 is
    rw [subject, no, if_neg Bool.false_ne_true] at keeps
    exact ⟨keeps, by rw [foldsRight, no]; rfl⟩

/-- What is counted at a node itself. -/
def own (value : Value) : List Event :=
  if (folded? value).isSome then
    if value.isKind "Literal" then [.normalized] else [.folded]
  else if foldsRight value then [.folded]
  else []

/-- The nodes below a node in which there may be more to count. -/
def remaining (value : Value) : List Value :=
  if (folded? value).isSome then []
  else if foldsRight value then (value.attr "left").slotNodes
  else value.children

theorem own_of_some {number : Double} (folds : folded? value = some number) :
    own value = if value.isKind "Literal" then [.normalized] else [.folded] := by
  rw [own, folds, Option.isSome_some, if_pos rfl]

theorem own_of_none (none : folded? value = none) :
    own value = if foldsRight value then [.folded] else [] := by
  rw [own, none, Option.isSome_none, if_neg Bool.false_ne_true]

theorem remaining_of_some {number : Double} (folds : folded? value = some number) :
    remaining value = [] := by
  rw [remaining, folds, Option.isSome_some, if_pos rfl]

theorem remaining_of_none (none : folded? value = none) : remaining value =
      if foldsRight value then (value.attr "left").slotNodes else value.children := by
  rw [remaining, none, Option.isSome_none, if_neg Bool.false_ne_true]

theorem sizeOf_lt_of_mem_remaining {child : Value} (member : child ∈ remaining value) :
    sizeOf child < sizeOf value := by
  unfold remaining at member
  split at member
  · cases member
  · split at member
    · rename_i foldsHere
      have isAssignment := (Bool.and_eq_true_iff.1 foldsHere).1
      exact Nat.lt_of_le_of_lt (sizeOf_le_of_mem_slotNodes member)
        (sizeOf_attr_lt_of_kind? _ (kind?_of_isKind isAssignment))
    · exact sizeOf_lt_of_mem_children member

-- Unfolding these would evaluate expressions.
attribute [irreducible] own remaining

/-- What is counted in a tree, in the order of the walk. -/
def events (value : Value) : List Event :=
  own value ++ (remaining value).attach.flatMap fun child => events child.val
termination_by sizeOf value
decreasing_by exact sizeOf_lt_of_mem_remaining child.property

theorem events_eq (value : Value) :
    events value = own value ++ (remaining value).flatMap events := by
  rw [events, List.flatMap_subtype fun _ _ => rfl, List.unattach_attach]

/-- Nothing is counted at a node that does not fold and is no assignment. -/
theorem events_of_none (none : folded? value = none) (other : value.kind? ≠ some
    "AssignmentExpression") : events value = value.children.flatMap events := by
  have noRight : foldsRight value = false := by simp [foldsRight, isKind, other]
  rw [events_eq, own_of_none none, remaining_of_none none, noRight]
  rfl

theorem events_of_leaf (none : folded? value = none) {kind : String} (is : value.kind? = some kind)
    (listed : Members.get? childTable kind = some []) : events value = [] := by
  have other : kind ≠ "AssignmentExpression" := by
    rintro rfl
    exact absurd listed (by decide)
  rw [events_of_none none (by simpa [is] using other), children_of_kind is listed]
  rfl

theorem folded?_of_isPlainNumber (plain : value.isPlainNumber) : folded? value = none :=
  if_pos plain

theorem folded?_of_mem_numberNode {number : Double} {node : Value}
    (member : node ∈ (bare (numberNode number)).nodes) : folded? node = none :=
  folded?_of_isPlainNumber (isPlainNumber_of_mem_numberNode member)

theorem events_of_keeps {value : Value} (keeps : ∀ node ∈ value.nodes, folded? node = none) :
    events value = [] := by
  have here : folded? (subject value) = none := by
    rcases subject_cases value with inside | no
    · exact keeps _ inside
    · exact folded?_of_not_isNode no
  obtain ⟨none, noRight⟩ := foldsRight_of_subject here
  rw [events_eq, own_of_none none, remaining_of_none none, noRight, if_neg Bool.false_ne_true,
    if_neg Bool.false_ne_true, List.nil_append, List.flatMap_eq_nil_iff]
  intro child member
  exact events_of_keeps fun node inside => keeps node (mem_nodes_of_child member inside)
termination_by sizeOf value
decreasing_by exact sizeOf_lt_of_mem_children member

theorem events_of_leaves? {value : Value} {leaves : List String}
    (are : value.leaves? = some leaves) : events value = [] := by
  have none := folded?_of_leaves? are
  by_cases isLiteral : value.kind? = some "Literal"
  · exact events_of_leaf none isLiteral rfl
  by_cases isBinary : value.kind? = some "BinaryExpression"
  · obtain ⟨left, right, isLeft, isRight, _⟩ := exists_leaves?_of_binary isBinary are
    have operand {name : String} {texts : List String} (joins : (value.attr name).leaves? = some
        texts) : (value.attr name).slotNodes.flatMap events = [] := by
      rw [slotNodes_of_isNode (isNode_of_leaves? joins), List.flatMap_singleton]
      exact events_of_leaves? joins
    rw [events_of_none none (by simp [isBinary]), children_of_kind isBinary rfl]
    simp only [List.flatMap_cons, List.flatMap_nil, List.append_nil, List.flatMap_append,
      operand isLeft, operand isRight]
  · rw [leaves?_of_other isLiteral isBinary] at are
    cases are
termination_by sizeOf value
decreasing_by exact sizeOf_attr_lt_of_kind? _ isBinary

theorem foldsRight_joined (value : Value) :
    foldsRight (value.mapChildren Concatenation.result) = foldsRight value := by
  unfold foldsRight
  rw [isKind_mapChildren]
  by_cases is : value.kind? = some "AssignmentExpression"
  · have right : folded? ((value.attr "right").mapSlot Concatenation.result) = folded? (value.attr
        "right") := read_mapSlot Concatenation.tame_result (fun _ _ => by rw [folded?_of_not_isNode
        rfl, folded?_of_not_isNode rfl]) fun _ => folded?_joined _
    rw [child_mapChildren_of_kind Concatenation.tame_result is rfl (by decide), right]
  · have no : value.isKind "AssignmentExpression" = false := by simpa [isKind] using is
    rw [no]
    rfl

theorem events_joined (value : Value) : events (Concatenation.result value) = events value := by
  have folds := folded?_joined value
  rcases Concatenation.result_cases value with ⟨parts, joins, is⟩ | ⟨_, is⟩
  · rw [is, events_of_leaves? (leaves?_stringNode _),
      events_of_leaves? (leaves?_of_concatenation? joins)]
  · rw [is] at folds ⊢
    cases isNode : value.isNode with
    | false => rw [mapChildren_of_not_isNode isNode]
    | true =>
      have right := foldsRight_joined value
      have same : own (value.mapChildren Concatenation.result) = own value := by
        cases before : folded? value with
        | some number =>
          rw [own_of_some (folds.trans before), own_of_some before, isKind_mapChildren]
        | none => rw [own_of_none (folds.trans before), own_of_none before, right]
      have below : remaining (value.mapChildren Concatenation.result) =
          (remaining value).map Concatenation.result := by
        cases before : folded? value with
        | some number =>
          rw [remaining_of_some (folds.trans before), remaining_of_some before, List.map_nil]
        | none =>
          rw [remaining_of_none (folds.trans before), remaining_of_none before, right]
          split
          · rename_i foldsHere
            have isAssignment := kind?_of_isKind (Bool.and_eq_true_iff.1 foldsHere).1
            rw [child_mapChildren_of_kind Concatenation.tame_result isAssignment rfl
              (by decide), slotNodes_mapSlot Concatenation.tame_result]
          · exact children_mapChildren Concatenation.tame_result isNode
      rw [events_eq, events_eq value, same, below, List.flatMap_map]
      refine congrArg (fun rest => own value ++ rest.flatten) (List.map_congr_left ?_)
      intro child member
      exact events_joined child
termination_by sizeOf value
decreasing_by exact sizeOf_lt_of_mem_remaining member

end Folding

/-! ## Joined texts -/

namespace Concatenation

/-- The number of concatenations in a tree. -/
def joints (value : Value) : Nat :=
  value.nodes.countP fun node => node.concatenation?.isSome

theorem joints_eq (value : Value) : joints value =
      (value.children.map joints).sum + (if value.concatenation?.isSome then 1 else 0) := by
  rw [joints, nodes_eq, List.countP_cons, List.countP_flatMap]
  rfl

theorem joints_of_evaluate {value : Value} {number : Double}
    (stands : value.evaluate = some number) : joints value = 0 := by
  have noJoint := concatenation?_of_leaves? (leaves?_of_evaluate stands)
  have none : ∀ child ∈ value.children, joints child = 0 := fun child member => by
    obtain ⟨inner, isInner⟩ := exists_evaluate_of_child stands member
    exact joints_of_evaluate isInner
  rw [joints_eq, noJoint, List.map_congr_left none]
  simp
termination_by sizeOf value
decreasing_by exact sizeOf_lt_of_mem_children member

theorem joints_numberNode (number : Double) : joints (bare (numberNode number)) = 0 := by
  rw [joints, List.countP_eq_zero]
  intro node member
  rw [concatenation?_of_isPlainNumber (isPlainNumber_of_mem_numberNode member)]
  exact Bool.false_ne_true

theorem joints_folded (value : Value) : joints (Folding.result value) = joints value := by
  have joins := concatenation?_folded value
  rcases Folding.result_cases value with ⟨number, folds, is⟩ | ⟨_, is⟩
  · rw [is, joints_numberNode, joints_of_evaluate (Folding.evaluate_of_folded? folds)]
  · rw [is] at joins ⊢
    cases isNode : value.isNode with
    | false => rw [mapChildren_of_not_isNode isNode]
    | true =>
      rw [joints_eq, joints_eq value, joins, children_mapChildren Folding.tame_result isNode,
        List.map_map]
      refine congrArg (fun counts => List.sum counts + _) (List.map_congr_left ?_)
      intro child member
      exact joints_folded child
termination_by sizeOf value
decreasing_by exact sizeOf_lt_of_mem_children member

end Concatenation

end Unravel.Pass
