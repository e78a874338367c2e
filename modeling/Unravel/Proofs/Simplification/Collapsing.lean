import Unravel.Proofs.Simplification.Counts
import Unravel.Proofs.Simplification.Grammar

/-!
Contract: the walk that joins concatenations.

The walk joins two texts at a time, from the inside out, and `result` joins all the
texts of a concatenation at once. Both come to the same text, and the joints that
the walk counts are the concatenations of the tree it starts from (`exists_start`).
-/

namespace Unravel.Pass.Concatenation

open Value Walk

variable {value node : Value} {cursor moved : Cursor} {session after : Session State}
  {around : Surroundings}

/-! ## Texts of texts -/

theorem foldl_append_text (parts : List String) (sofar : String) :
    parts.foldl (· ++ ·) sofar = sofar ++ joined parts := by
  induction parts generalizing sofar with
  | nil => simp [joined]
  | cons part rest ih =>
    rw [joined, List.foldl_cons, List.foldl_cons, ih,
      ih ("" ++ part), String.empty_append, String.append_assoc]

theorem joined_append (left right : List String) :
    joined (left ++ right) = joined left ++ joined right := by
  rw [joined, List.foldl_append, foldl_append_text right, ← joined]

theorem joined_singleton (text : String) : joined [text] = text := String.empty_append

theorem joined_pair (first second : String) : joined [first, second] = first ++ second := by
  rw [show [first, second] = [first] ++ [second] from rfl, joined_append, joined_singleton,
    joined_singleton]

theorem leaves?_of_not_isNode (no : value.isNode = false) : value.leaves? = none := by
  have noKind := kind?_of_not_isNode no
  exact leaves?_of_other (by simp [noKind]) (by simp [noKind])

theorem leaves?_eq_concatenation? (is : value.kind? = some "BinaryExpression") :
    value.leaves? = value.concatenation? :=
  leaves?_of_no_string (by rw [string?, isKind_eq_false is (by decide)]; rfl)

theorem leaves?_operands (is : value.kind? = some "BinaryExpression")
    (operand : ∀ name ∈ ["left", "right"],
      (result (value.attr name)).leaves? =
        (value.attr name).leaves?.map fun parts => [joined parts]) :
    match value.leaves? with
    | none => (value.mapChildren result).leaves? = none
    | some parts => ∃ left right, parts = left ++ right ∧
        (value.mapChildren result).leaves? = some [joined left, joined right] := by
  have read (name : String) (listed : name ∈ ["left", "right"]) : ((value.mapChildren result).attr
      name).leaves? = (value.attr name).leaves?.map fun parts => [joined parts] := by
    rw [child_mapChildren_of_kind tame_result is rfl listed]
    cases isNode : (value.attr name).isNode with
    | true => rw [mapSlot_of_isNode isNode, operand name listed]
    | false =>
      have still : ((value.attr name).mapSlot result).isNode = false := by
        cases held : value.attr name <;> rw [held] at isNode <;> first | rfl | cases isNode
      rw [leaves?_of_not_isNode isNode, leaves?_of_not_isNode still, Option.map_none]
  have plus : (value.mapChildren result).hasText "operator" "+" = value.hasText "operator" "+" := by
    rw [hasText, hasText, attr_mapChildren_of_kind is rfl (by decide)]
  have isThere : (value.mapChildren result).kind? = some "BinaryExpression" := by
    rwa [kind?_mapChildren]
  rw [leaves?_of_binary isThere, leaves?_of_binary is, read "left" (by decide),
    read "right" (by decide), plus]
  cases value.hasText "operator" "+" with
  | false => rfl
  | true =>
    cases (value.attr "left").leaves? with
    | none => rfl
    | some left =>
      cases (value.attr "right").leaves? with
      | none => rfl
      | some right => exact ⟨left, right, rfl, rfl⟩

theorem leaves?_result (value : Value) :
    (result value).leaves? = value.leaves?.map fun parts => [joined parts] := by
  cases joins : value.concatenation? with
  | some parts =>
    rw [result_of_some joins, leaves?_of_concatenation? joins, leaves?_stringNode,
      Option.map_some]
  | none =>
    rw [result_of_none joins]
    by_cases isLiteral : value.kind? = some "Literal"
    · rw [mapChildren_of_leaf isLiteral rfl, leaves?_of_literal isLiteral]
      cases (value.attr "value").text? with
      | none => rfl
      | some leaf => simp [joined_singleton]
    by_cases isBinary : value.kind? = some "BinaryExpression"
    · have operands := leaves?_operands isBinary fun name _ => leaves?_result (value.attr name)
      rw [leaves?_eq_concatenation? isBinary, joins] at operands ⊢
      exact operands
    · rw [leaves?_of_other isLiteral isBinary,
        leaves?_of_other (by rwa [kind?_mapChildren]) (by rwa [kind?_mapChildren])]
      rfl
termination_by sizeOf value
decreasing_by exact sizeOf_attr_lt_of_kind? _ isBinary

/-- Once its operands have been joined, a concatenation joins two texts. -/
theorem concatenation?_operands (value : Value) :
    match value.concatenation? with
    | none => (value.mapChildren result).concatenation? = none
    | some parts => ∃ left right, joined parts = left ++ right ∧
        (value.mapChildren result).concatenation? = some [left, right] := by
  by_cases is : value.kind? = some "BinaryExpression"
  · have operands := leaves?_operands is fun name _ => leaves?_result (value.attr name)
    rw [leaves?_eq_concatenation? is, leaves?_eq_concatenation? (by rwa [kind?_mapChildren])]
      at operands
    cases joins : value.concatenation? with
    | none => rwa [joins] at operands
    | some parts =>
      rw [joins] at operands
      obtain ⟨left, right, rfl, joinsNow⟩ := operands
      exact ⟨_, _, joined_append left right, joinsNow⟩
  · have other : ∀ {value : Value}, value.kind? ≠ some "BinaryExpression" →
        value.concatenation? = none := by
      intro value differs
      cases joins : value.concatenation? with
      | none => rfl
      | some parts => exact absurd (kind?_of_isKind (isBinary_of_concatenation? joins)) differs
    rw [other is, other (by rwa [kind?_mapChildren])]

/-! ## The walk -/

/-- A number of joints counted. -/
def State.add (state : State) (count : Nat) : State :=
  ⟨{ state.tally with changes := state.tally.changes + count }, state.collapsed + count⟩

theorem State.add_add (state : State) (first second : Nat) :
    (state.add first).add second = state.add (first + second) := by
  simp [State.add, Nat.add_assoc]

theorem foldl_add (children : List Value) (state : State) :
    children.foldl (fun state child => state.add (joints child)) state =
      state.add (children.map joints).sum := by
  induction children generalizing state with
  | nil => rfl
  | cons child rest ih =>
    rw [List.foldl_cons, ih, State.add_add, List.map_cons, List.sum_cons]

/-- A node whose children have been joined is joined when it is left. -/
theorem brings_leaving {new : Value} {state : State} (solid : around.Solid) (here : cursor.address =
    around.address) (below : cursor.address ≠ []) (filled : session.tree = around.fill new) (becomes
    : Becomes (node.mapChildren result) (state.add (node.children.map joints).sum) new session) :
    Brings visitor [.leaving cursor] around (Becomes (result node) (state.add (joints node)))
      session := by
  obtain ⟨isNew, gained⟩ := becomes
  have done := dispatch_leaving cursor session
  rw [Surroundings.nodeIn_of_fill solid here filled, ← concatenation?_unlabelled, isNew] at done
  have operands := concatenation?_operands node
  rw [joints_eq]
  cases joins : node.concatenation? with
  | none =>
    rw [joins] at operands
    rw [operands] at done
    refine brings_of_step (by rw [step_leaving_apply, done]) (brings_nil filled ⟨?_, gained⟩)
    rw [isNew, result_of_none joins]
  | some parts =>
    rw [joins] at operands
    obtain ⟨left, right, isText, joinsNow⟩ := operands
    rw [joinsNow] at done
    obtain ⟨moved, after, acts, puts⟩ := done.exists_puts rfl below
    rw [joined_pair, ← isText] at puts
    have filledAfter : after.tree =
        around.fill ((stringNode (joined parts)).run session.next).1 := by
      rw [puts.tree, filled, here, Surroundings.putAt_fill solid]
    refine brings_of_step (by rw [step_leaving_apply, acts]) (brings_nil filledAfter ⟨?_, ?_⟩)
    · rw [result_of_some joins, unlabelled_stringNode]
    · rw [puts.state, gained]
      rfl

theorem transforms_node {node : Value} (isNode : node.isNode) (grammatical : node.Grammatical) :
    Transforms visitor result (fun node state => state.add (joints node)) node := by
  intro around cursor object slot session solid here held filled
  have inside := solid.cons held
  refine brings_child solid here held isNode grammatical.surveyable filled
    fun place opened isPlace below reindexed => ?_
  have filledThere := reindexed.tree.trans filled
  refine ⟨place, opened, node, dispatch_entering _ _, rfl, rfl, filledThere, isNode, ?_⟩
  have slots := brings_children tame_result inside isPlace isNode
    (grammatical node (mem_nodes_self node)).named (fun child isChild =>
      transforms_node (isNode_of_mem_children isChild) (grammatical.child isChild)) filledThere
  rw [foldl_add, reindexed.state] at slots
  exact slots.append fun _ _ => brings_leaving inside isPlace below
termination_by sizeOf node
decreasing_by exact sizeOf_lt_of_mem_children isChild

theorem exists_start {document : Document} (program : document.tree.isKind "Program") (grammatical :
    document.tree.Grammatical) (state : State) : ∃ bound after, (∀ limit, bound ≤ limit → Walk.start
    limit visitor document state = (.ok (), after)) ∧ after.tree.unlabelled = result
    document.tree.unlabelled ∧ after.state = state.add (joints document.tree.unlabelled) := by
  have is := kind?_of_isKind program
  have keeps : document.tree.unlabelled.concatenation? = none := concatenation?_of_leaves?
    (leaves?_of_other (by rw [kind?_unlabelled, is]; decide) (by rw [kind?_unlabelled, is]; decide))
  rw [result_of_none keeps, joints_eq, keeps, Option.isSome_none, if_neg Bool.false_ne_true,
    Nat.add_zero, ← foldl_add]
  refine exists_start_of_children tame_result grammatical.surveyable (isNode_of_kind? is)
    (grammatical _ (mem_nodes_self _)).named (fun phase kind isKind => ?_) (fun child isChild =>
      transforms_node (isNode_of_mem_children isChild) (grammatical.child isChild)) state
  cases is.symm.trans isKind
  exact handlersFor_visitor (.inr (by decide))

end Unravel.Pass.Concatenation
