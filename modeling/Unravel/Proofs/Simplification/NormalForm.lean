import Mathlib.Algebra.Order.BigOperators.Group.List
import Mathlib.Algebra.Order.Group.Nat
import Unravel.Proofs.Pass.Counting
import Unravel.Proofs.Simplification.Independence

/-!
Contract: joining texts leaves no sum of texts.

`Sums` says what is joined without saying how it is found: string literals, and +
expressions over sums. The pass exchanges the sums that stand in no other
(`largestSums`) for their texts and counts every + expression in them
(`joints_eq_sum`). No sum is left then, so a second run does nothing
(`joins_to_normal_form`).
-/

namespace Unravel

namespace Value

variable {value inner : Value} {texts : List String}

/-! ## Sums of texts -/

/-- A tree of + expressions over string literals, with the texts of its leaves from
left to right. -/
inductive Sums : Value → List String → Prop where
  | literal {value : Value} {text : String} (is : value.kind? = some "Literal")
      (holds : value.attr "value" = .text text) : Sums value [text]
  | plus {value : Value} {left right : List String} (is : value.kind? = some "BinaryExpression")
      (operator : value.attr "operator" = .text "+") (first : Sums (value.attr "left") left)
      (second : Sums (value.attr "right") right) : Sums value (left ++ right)

theorem Sums.leaves? (sums : value.Sums texts) : value.leaves? = some texts := by
  induction sums with
  | literal is holds =>
    rw [leaves?_of_literal is, holds]
    rfl
  | plus is operator _ _ ihFirst ihSecond =>
    rw [leaves?_of_binary is, ihFirst, ihSecond, hasText, operator]
    rfl

theorem sums_of_leaves? {value : Value} {texts : List String}
    (are : value.leaves? = some texts) : value.Sums texts := by
  by_cases isLiteral : value.kind? = some "Literal"
  · rw [leaves?_of_literal isLiteral] at are
    obtain ⟨text, holds, rfl⟩ := Option.map_eq_some_iff.1 are
    exact .literal isLiteral (text?_eq_some.1 holds)
  by_cases isBinary : value.kind? = some "BinaryExpression"
  · have operator : value.hasText "operator" "+" = true := by
      rw [leaves?_of_binary isBinary] at are
      split at are
      · assumption
      · cases are
    obtain ⟨left, right, first, second, rfl⟩ := exists_leaves?_of_binary isBinary are
    exact .plus isBinary (text?_eq_some.1 (eq_of_beq operator)) (sums_of_leaves? first)
      (sums_of_leaves? second)
  · rw [leaves?_of_other isLiteral isBinary] at are
    cases are
termination_by sizeOf value
decreasing_by
  · exact sizeOf_attr_lt_of_kind? _ isBinary
  · exact sizeOf_attr_lt_of_kind? _ isBinary

theorem Sums.isNode (sums : value.Sums texts) : value.isNode := isNode_of_leaves? sums.leaves?

theorem Sums.of_mem_nodes (sums : value.Sums texts) (inside : inner ∈ value.nodes) :
    ∃ parts, inner.Sums parts := by
  induction sums with
  | literal is holds =>
    rw [nodes_eq, children_of_kind is rfl, List.flatMap_nil, List.flatMap_nil,
      List.mem_singleton] at inside
    subst inside
    exact ⟨_, .literal is holds⟩
  | plus is operator first second ihFirst ihSecond =>
    rw [nodes_eq, children_of_kind is rfl] at inside
    simp only [List.flatMap_cons, List.flatMap_nil, slotNodes_of_isNode first.isNode,
      slotNodes_of_isNode second.isNode, List.append_nil, List.singleton_append,
      List.mem_cons] at inside
    rcases inside with rfl | inside
    · exact ⟨_, .plus is operator first second⟩
    · exact (List.mem_append.1 inside).elim ihFirst ihSecond

/-- The number of binary expressions in a tree; in a sum these are the + expressions. -/
def pluses (value : Value) : Nat :=
  value.nodes.countP fun node => node.isKind "BinaryExpression"

end Value

namespace Pass.Concatenation

open Value

variable {value new : Value} {texts : List String}

theorem concatenation?_eq_some_iff :
    value.concatenation? = some texts ↔ value.isKind "BinaryExpression" ∧ value.Sums texts := by
  constructor
  · intro joins
    exact ⟨isBinary_of_concatenation? joins, sums_of_leaves? (leaves?_of_concatenation? joins)⟩
  · rintro ⟨isBinary, sums⟩
    rw [← leaves?_eq_concatenation? (kind?_of_isKind isBinary), sums.leaves?]

/-- What is exchanged are the + expressions over sums, each for the literal of its text. -/
theorem exchange?_eq_some_iff : exchange? value = some new ↔
      value.isKind "BinaryExpression" ∧
        ∃ texts, value.Sums texts ∧ new = bare (stringNode (joined texts)) := by
  rw [exchange?, Option.map_eq_some_iff]
  constructor
  · rintro ⟨texts, joins, rfl⟩
    obtain ⟨isBinary, sums⟩ := concatenation?_eq_some_iff.1 joins
    exact ⟨isBinary, texts, sums, rfl⟩
  · rintro ⟨isBinary, texts, sums, rfl⟩
    exact ⟨texts, concatenation?_eq_some_iff.2 ⟨isBinary, sums⟩, rfl⟩

theorem isSome_exchange? (value : Value) : (exchange? value).isSome = value.concatenation?.isSome :=
    Option.isSome_map

/-! ## What is counted -/

/-- The expressions that are exchanged and stand in no other one, in document order. -/
def largestSums (value : Value) : List Value :=
  if (exchange? value).isSome then [value]
  else value.children.attach.flatMap fun child => largestSums child.val
termination_by sizeOf value
decreasing_by exact sizeOf_lt_of_mem_children child.property

theorem largestSums_of_none (keeps : value.concatenation? = none) :
    largestSums value = value.children.flatMap largestSums := by
  rw [largestSums, isSome_exchange?, keeps, List.flatMap_subtype fun _ _ => rfl,
    List.unattach_attach]
  rfl

theorem joints_of_sums (sums : value.Sums texts) : joints value = pluses value := by
  refine List.countP_congr fun node inside => ?_
  obtain ⟨parts, isSum⟩ := sums.of_mem_nodes inside
  rw [Option.isSome_iff_exists]
  constructor
  · rintro ⟨others, joins⟩
    exact (concatenation?_eq_some_iff.1 joins).1
  · intro isBinary
    exact ⟨parts, concatenation?_eq_some_iff.2 ⟨isBinary, isSum⟩⟩

theorem joints_eq_sum (value : Value) : joints value = ((largestSums value).map pluses).sum := by
  cases joins : value.concatenation? with
  | some texts =>
    rw [largestSums, isSome_exchange?, joins, joints_of_sums (concatenation?_eq_some_iff.1 joins).2]
    simp
  | none =>
    have each : value.children.map joints =
        value.children.map fun child => ((largestSums child).map pluses).sum := by
      refine List.map_congr_left fun child isChild => ?_
      exact joints_eq_sum child
    rw [joints_eq, joins, largestSums_of_none joins, each, List.map_flatMap, List.flatMap,
      List.sum_flatten, List.map_map]
    rfl
termination_by sizeOf value
decreasing_by exact sizeOf_lt_of_mem_children isChild

theorem joints_unlabelled (value : Value) : joints value.unlabelled = joints value := by
  rw [joints, nodes_unlabelled, List.countP_map]
  refine List.countP_congr fun node _ => ?_
  rw [Function.comp_apply, concatenation?_unlabelled]

theorem joints_result {value : Value} (isNode : value.isNode) : joints (result value) = 0 := by
  cases joins : value.concatenation? with
  | some texts =>
    rw [result_of_some joins, joints_eq]
    rfl
  | none =>
    have left := concatenation?_operands value
    rw [joins] at left
    rw [result_of_none joins, joints_eq, left, children_mapChildren tame_result isNode]
    simp only [Option.isSome_none, Bool.false_eq_true, ↓reduceIte, Nat.add_zero, List.sum_eq_zero_iff,
      List.mem_map, forall_exists_index, and_imp, forall_apply_eq_imp_iff₂]
    exact fun child isChild => joints_result (isNode_of_mem_children isChild)
termination_by sizeOf value
decreasing_by exact sizeOf_lt_of_mem_children isChild

/-! ## The normal form -/

variable {document : Document}

/-- On every grammatical program and with visits enough, the pass exchanges, from the
outside in, the + expressions that are sums of texts for one literal each, with the
texts of the leaves one after the other, and changes nothing else. Changes and joints
both count the + expressions in the largest sums. A second run reports no change and
leaves the tree as it is, down to its labels. -/
theorem joins_to_normal_form (program : document.tree.isKind "Program" = true)
    (grammatical : document.tree.Grammatical) (first second : Options) :
    (∀ value new, exchange? value = some new ↔
      value.isKind "BinaryExpression" = true ∧
      ∃ texts, value.Sums texts ∧ new = bare (stringNode (joined texts))) ∧
    ∃ bound, ∀ limit, bound ≤ limit →
      let once := plugin.apply limit first document
      let twice := plugin.apply limit second once.document
      let count := ((largestSums document.tree).map pluses).sum
      once.document.tree.unlabelled = document.tree.unlabelled.rewritten exchange? ∧
      once.result = .ok (State.metadata ⟨⟨count, 0, []⟩, count⟩) ∧
      twice.result = .ok (State.metadata ⟨⟨0, 0, []⟩, 0⟩) ∧
      twice.document.tree = once.document.tree := by
  refine ⟨fun _ _ => exchange?_eq_some_iff, ?_⟩
  obtain ⟨bound, joinedOnce, _, joins, isJoined⟩ := exists_apply program grammatical first
  obtain ⟨programJoined, grammaticalJoined⟩ := program_of_simplifies simplifies (fun value is => by
      rw [exchange?, concatenation?_of_leaves? (leaves?_of_other (by rw [is]; decide)
        (by rw [is]; decide))]
      rfl)
    program grammatical isJoined
  obtain ⟨boundJoined, again, _, joinsAgain, _⟩ :=
    exists_apply programJoined grammaticalJoined second
  have counted : report document.tree.unlabelled = State.metadata ⟨⟨((largestSums document.tree).map
      pluses).sum, 0, []⟩, ((largestSums document.tree).map pluses).sum⟩ := by
    rw [report, joints_unlabelled, joints_eq_sum, State.add]
    simp only [Tally.empty, Nat.zero_add]
  have nothing : report joinedOnce.tree.unlabelled = State.metadata ⟨⟨0, 0, []⟩, 0⟩ := by
    have isNode : document.tree.unlabelled.isNode := by
      rw [isNode_unlabelled]
      exact isNode_of_kind? (kind?_of_isKind program)
    rw [report, isJoined, joints_result isNode]
    rfl
  refine ⟨max bound boundJoined, fun limit most => ?_⟩
  rw [Nat.max_le] at most
  have applies := joinsAgain limit most.2
  have same := (accounted_plugin limit second joinedOnce _ (congrArg PassOutcome.result applies)).2
  rw [nothing] at applies same
  dsimp only
  rw [joins limit most.1]
  exact ⟨isJoined, congrArg _ counted, by rw [applies], same rfl⟩

/-- The two + expressions in `"a" + ("b" + "c")` are counted and become `"abc"`, and the one
around it, which has a number in it, is left. -/
theorem joins_to_normal_form_mixedConstants :
    mixedConstants.tree.isKind "Program" = true ∧
    mixedConstants.tree.Grammatical ∧
    ((largestSums mixedConstants.tree).map pluses).sum = 2 ∧
    ∃ bound, ∀ limit, bound ≤ limit →
      (plugin.apply limit [] mixedConstants).result = .ok (State.metadata ⟨⟨2, 0, []⟩, 2⟩) ∧
      (plugin.apply limit [] mixedConstants).document.tree.unlabelled.nodes.filterMap string? =
        ["abc"] := by
  have program : mixedConstants.tree.isKind "Program" = true := rfl
  have grammatical : mixedConstants.tree.Grammatical := by decide +kernel
  have count : ((largestSums mixedConstants.tree).map pluses).sum = 2 := by
    rw [← joints_eq_sum]
    decide +kernel
  obtain ⟨_, bound, settles⟩ := joins_to_normal_form program grammatical [] []
  refine ⟨program, grammatical, count, bound, fun limit most => ?_⟩
  obtain ⟨becomes, counted, _⟩ := settles limit most
  rw [count] at counted
  refine ⟨counted, ?_⟩
  rw [becomes]
  decide +kernel

end Pass.Concatenation

end Unravel
