import Unravel.Proofs.Number.Exactness
import Unravel.Proofs.Pass.Counting
import Unravel.Proofs.Simplification.Independence

/-!
Contract: computing constant arithmetic keeps values and leaves nothing to compute.

`denoteWith` reads expressions as `evaluateWith` does, and the global names NaN and
Infinity as the numbers they spell. Whatever the operators mean, an expression with a
value has that value after its parts have been computed (`denoteWith_resultWith`).
What has been computed is not computed again (`folded?_of_mem_result`).
-/

namespace Unravel

variable {meaning : Operator → Double → Double → Double} {value : Value} {number : Double}
  {kind : String}

namespace Value

/-! ## Values -/

/-- The number that an expression stands for, with NaN and Infinity for the numbers
of these names. -/
def denoteWith (meaning : Operator → Double → Double → Double) (value : Value) : Option Double :=
  match _isNode : value.kind? with
  | none => none
  | some kind =>
    if value.isNamed "NaN" then some .nan
    else if value.isNamed "Infinity" then some (.infinite false)
    else if kind = "Literal" then value.double?
    else if kind = "UnaryExpression" then
      if value.hasText "operator" "-" then
        (denoteWith meaning (value.attr "argument")).map Double.negate
      else none
    else if kind = "BinaryExpression" then
      match value.operator? with
      | none => none
      | some operator =>
        match denoteWith meaning (value.attr "left"), denoteWith meaning (value.attr "right") with
        | some left, some right => some (meaning operator left right)
        | _, _ => none
    else none
termination_by sizeOf value
decreasing_by all_goals exact sizeOf_attr_lt_of_kind? _ _isNode

theorem denoteWith_of_kind (is : value.kind? = some kind) : value.denoteWith meaning =
      if value.isNamed "NaN" then some .nan
      else if value.isNamed "Infinity" then some (.infinite false)
      else value.combine meaning fun name => (value.attr name).denoteWith meaning := by
  rw [denoteWith, combine]
  split
  · rename_i none
    cases none.symm.trans is
  · rename_i isKind
    cases isKind.symm.trans is
    simp only [Value.isKind, is, beq_iff_eq, Option.some.injEq]
    cases value.operator? <;> rfl

theorem denoteWith_of_other (is : value.kind? = some kind) (other : kind ≠ "Identifier") :
    value.denoteWith meaning =
      value.combine meaning fun name => (value.attr name).denoteWith meaning := by
  have unnamed (name : String) : value.isNamed name = false := by
    simp [isNamed_eq, isKind, is, other]
  rw [denoteWith_of_kind is, unnamed, unnamed]
  rfl

theorem denoteWith_of_no_kind (no : value.kind? = none) : value.denoteWith meaning = none := by
  rw [denoteWith]
  split
  · rfl
  · rename_i isKind
    cases no.symm.trans isKind

theorem isNode_of_denoteWith (stands : value.denoteWith meaning = some number) : value.isNode := by
  by_contra no
  rw [denoteWith_of_no_kind (kind?_of_not_isNode (by simpa using no))] at stands
  cases stands

theorem denoteWith_of_evaluateWith {value : Value} {number : Double} (stands : value.evaluateWith
    meaning = some number) : value.denoteWith meaning = some number := by
  obtain ⟨kind, listed, is⟩ := exists_kind?_of_evaluateWith stands
  rw [evaluateWith_eq] at stands
  rw [denoteWith_of_other is (by rintro rfl; simp [constantKinds] at listed)]
  exact combine_mono (fun name operand stands => denoteWith_of_evaluateWith stands) stands
termination_by sizeOf value
decreasing_by exact sizeOf_attr_lt_of_kind? _ is

theorem denoteWith_minus (operand : Value) : operand.minus.denoteWith meaning = (operand.denoteWith
    meaning).map Double.negate := @denoteWith_of_kind meaning _ "UnaryExpression" rfl

theorem denoteWith_numberNode (number : Double) :
    (bare (numberNode number)).denoteWith meaning = some number := by
  have infinite : (Value.node 0 "Identifier" [("name", .text "Infinity")]).denoteWith meaning =
      some (.infinite false) := @denoteWith_of_kind meaning _ "Identifier" rfl
  have finite (code : Fin Double.codes) :
      (Value.node 0 "Literal" [("value", .number (Double.finite false code).toNumeral),
        ("raw", .text (Double.finite false code).spelling)]).denoteWith meaning =
          some (.finite false code) := by
    rw [@denoteWith_of_kind meaning _ "Literal" rfl]
    exact congrArg some (Double.toDouble_toNumeral code)
  cases number with
  | nan => exact @denoteWith_of_kind meaning _ "Identifier" rfl
  | infinite negative =>
    cases negative with
    | false => exact infinite
    | true => exact (denoteWith_minus _).trans (congrArg (Option.map Double.negate) infinite)
  | finite negative code =>
    cases negative with
    | false => exact finite code
    | true => exact (denoteWith_minus _).trans (congrArg (Option.map Double.negate) (finite code))

/-- A node of a tree is still there once the tree has been rewritten, unless it was
inside a node that has been exchanged. -/
theorem mem_nodes_rewritten {choose : Value → Option Value} (choice : Choice choose)
    {inner value : Value} (isNode : value.isNode) (member : inner ∈ value.nodes) :
    inner.rewritten choose ∈ (value.rewritten choose).nodes ∨
      ∃ outer ∈ value.nodes, (choose outer).isSome = true ∧
        ∃ child ∈ outer.children, inner ∈ child.nodes := by
  rw [nodes_eq] at member
  rcases List.mem_cons.1 member with rfl | below
  · exact .inl (mem_nodes_self _)
  obtain ⟨child, isChild, inside⟩ := List.mem_flatMap.1 below
  cases chosen : choose value with
  | some new =>
    exact .inr ⟨value, mem_nodes_self value, by rw [chosen]; rfl, child, isChild, inside⟩
  | none =>
    refine (mem_nodes_rewritten choice (isNode_of_mem_children isChild) inside).imp
      (fun there => ?_) fun ⟨outer, isOuter, rest⟩ => ⟨outer, mem_nodes_of_child isChild isOuter, rest⟩
    rw [rewritten_of_none chosen]
    have isNew : child.rewritten choose ∈ (value.mapChildren (rewritten choose)).children := by
      rw [children_mapChildren choice.tame isNode]
      exact List.mem_map_of_mem isChild
    exact mem_nodes_of_child isNew there
termination_by sizeOf value
decreasing_by exact sizeOf_lt_of_mem_children isChild

end Value

namespace Pass.Folding

open Value

/-- The expressions that are computed if they stand for a number: what is not plain
and is a binary expression, a unary minus or a literal in a base other than ten. -/
def isComputed (value : Value) : Bool := !value.isPlainNumber && (value.isKind "BinaryExpression" ||
  value.negated?.isSome || value.isNonDecimal)

/-- The spelling of the number that an expression is exchanged for, for operators of
any meaning. -/
def exchangeWith (meaning : Operator → Double → Double → Double) (value : Value) : Option Value :=
  if isComputed value then
    (value.evaluateWith meaning).map fun number => bare (numberNode number)
  else none

/-- What a tree becomes: from the outside in, expressions are exchanged for the
numbers that they stand for. -/
def resultWith (meaning : Operator → Double → Double → Double) (value : Value) : Value :=
  value.rewritten (exchangeWith meaning)

theorem choice_exchangeWith : Choice (exchangeWith meaning) := by
  intro value new chosen
  unfold exchangeWith at chosen
  split at chosen
  · obtain ⟨number, _, rfl⟩ := Option.map_eq_some_iff.1 chosen
    exact isNode_numberNode number
  · cases chosen

theorem tame_resultWith : Tame (resultWith meaning) := choice_exchangeWith.tame

/-- Only what is plain stands for a number and is not computed. -/
theorem isComputed_of_evaluateWith (stands : value.evaluateWith meaning = some number) :
    isComputed value = !value.isPlainNumber := by
  unfold isComputed
  cases plain : value.isPlainNumber with
  | true => rfl
  | false =>
    obtain ⟨kind, listed, is⟩ := exists_kind?_of_evaluateWith stands
    simp only [constantKinds, List.mem_cons, List.not_mem_nil, or_false] at listed
    rw [evaluateWith_eq, combine] at stands
    rcases listed with rfl | rfl | rfl
    · have unsigned := negated?_of_other (show value.kind? ≠ _ by rw [is]; decide)
      have isNumber : value.numeral?.isSome := by
        rw [← Option.isSome_map (f := Numeral.toDouble)]
        rw [isKind, is] at stands
        exact Option.isSome_of_eq_some stands
      rw [isPlainNumber_eq, isPlainOperand] at plain
      simp_all
    · have minus : value.hasText "operator" "-" := by
        by_contra no
        simp [isKind, is, no] at stands
      simp [negated?, isKind, is, minus]
    · simp [isKind, is]

/-- With the operators on doubles, this is what the pass makes of a tree. -/
theorem resultWith_onDoubles (value : Value) :
    resultWith Operator.onDoubles value = result value := by
  have same : exchangeWith Operator.onDoubles = exchange? := by
    funext value
    have is : value.evaluateWith Operator.onDoubles = value.evaluate := rfl
    rw [exchangeWith, exchange?, folded?, is]
    cases stands : value.evaluate with
    | none => simp
    | some number =>
      rw [isComputed_of_evaluateWith stands]
      cases value.isPlainNumber <;> rfl
  rw [resultWith, same, result]

/-- An expression that has a value has it after it has been computed. -/
theorem denoteWith_resultWith {value : Value} {number : Double} (stands : value.denoteWith meaning =
    some number) : (resultWith meaning value).denoteWith meaning = some number := by
  obtain ⟨kind, is⟩ := isNode_iff_kind?.1 (isNode_of_denoteWith stands)
  unfold resultWith
  cases chosen : exchangeWith meaning value with
  | some new =>
    rw [rewritten_of_some (isNode_of_kind? is) chosen]
    unfold exchangeWith at chosen
    split at chosen
    · obtain ⟨computed, isComputed, rfl⟩ := Option.map_eq_some_iff.1 chosen
      cases (denoteWith_of_evaluateWith isComputed).symm.trans stands
      exact denoteWith_numberNode number
    · cases chosen
  | none =>
    rw [rewritten_of_none chosen]
    by_cases isIdentifier : kind = "Identifier"
    · subst isIdentifier
      rwa [mapChildren_of_leaf is rfl]
    rw [denoteWith_of_other is isIdentifier] at stands
    rw [denoteWith_of_other (by rwa [kind?_mapChildren]) isIdentifier]
    refine (combine_mapChildren _).trans (combine_mono (fun name operand stands => ?_) stands)
    rcases attr_mapChildren_cases tame_resultWith (isNode_of_kind? is) name with changed | kept
    · exact (congrArg _ (changed.trans (mapSlot_of_isNode (isNode_of_denoteWith stands)))).trans
        (denoteWith_resultWith stands)
    · exact (congrArg _ kept).trans stands
termination_by sizeOf value
decreasing_by exact sizeOf_attr_lt_of_kind? _ is

variable {document : Document}

/-- On every grammatical program and with visits enough, the pass exchanges from the
outside in what is computed for the number that it stands for, the right sides of
assignments like any expression, and changes nothing else. Whatever the operators
mean, every expression of the program that has a value has that value afterwards; it
is still in the tree unless it was inside an expression that has been exchanged. -/
theorem folds_to_values (program : document.tree.isKind "Program" = true)
    (grammatical : document.tree.Grammatical) (options : Options) :
    (∃ bound, ∀ limit, bound ≤ limit →
      (plugin.apply limit options document).result = .ok (report document.tree.unlabelled) ∧
      (plugin.apply limit options document).document.tree.unlabelled =
        resultWith Operator.onDoubles document.tree.unlabelled) ∧
    ∀ meaning, ∀ value ∈ document.tree.unlabelled.nodes,
      (value.isKind "AssignmentExpression" → (value.attr "right").isPlainNumber = false →
        ∀ number, (value.attr "right").evaluateWith meaning = some number →
          (resultWith meaning value).attr "right" = bare (numberNode number)) ∧
      ∀ number, value.denoteWith meaning = some number →
        (resultWith meaning value).denoteWith meaning = some number ∧
        (resultWith meaning value ∈ (resultWith meaning document.tree.unlabelled).nodes ∨
          ∃ outer ∈ document.tree.unlabelled.nodes, (exchangeWith meaning outer).isSome ∧
            ∃ child ∈ outer.children, value ∈ child.nodes) := by
  refine ⟨?_, fun meaning value member => ⟨fun isAssignment spelled number stands => ?_,
    fun number stands => ⟨denoteWith_resultWith stands, mem_nodes_rewritten choice_exchangeWith ?_ member⟩⟩⟩
  · obtain ⟨bound, after, log, applies, becomes⟩ := exists_apply program grammatical options
    refine ⟨bound, fun limit most => ?_⟩
    rw [applies limit most, resultWith_onDoubles]
    exact ⟨rfl, becomes⟩
  · have is := kind?_of_isKind isAssignment
    obtain ⟨kind, _, isRight⟩ := exists_kind?_of_evaluateWith stands
    have kept : exchangeWith meaning value = none := by
      rw [exchangeWith, evaluateWith_of_other meaning (by rw [is]; decide), Option.map_none, ite_self]
    have chosen : exchangeWith meaning (value.attr "right") = some (bare (numberNode number)) := by
      rw [exchangeWith, isComputed_of_evaluateWith stands, spelled, stands]
      rfl
    rw [resultWith, rewritten_of_none kept,
      child_mapChildren_of_kind choice_exchangeWith.tame is rfl (by decide),
      mapSlot_of_isNode (isNode_of_kind? isRight), rewritten_of_some (isNode_of_kind? isRight) chosen]
  · rw [isNode_unlabelled]
    exact isNode_of_kind? (kind?_of_isKind program)

/-- The literals that are spelled out are those of `0x10 + 1`, of `-(1 + 2)` and of `0x10`. -/
theorem folds_to_values_mixedConstants :
    mixedConstants.tree.isKind "Program" = true ∧
    mixedConstants.tree.Grammatical ∧
    ∃ bound, ∀ limit, bound ≤ limit →
      let folded := plugin.apply limit [] mixedConstants
      folded.result = .ok (report mixedConstants.tree.unlabelled) ∧
      folded.document.tree.unlabelled =
        resultWith Operator.onDoubles mixedConstants.tree.unlabelled ∧
      folded.document.tree.unlabelled.nodes.filterMap (fun node => (node.attr "raw").text?) =
        ["17", "3", "16"] := by
  have program : mixedConstants.tree.isKind "Program" = true := rfl
  have grammatical : mixedConstants.tree.Grammatical := by decide +kernel
  obtain ⟨bound, applies⟩ := (folds_to_values program grammatical []).1
  refine ⟨program, grammatical, bound, fun limit most => ?_⟩
  obtain ⟨reports, becomes⟩ := applies limit most
  refine ⟨reports, becomes, ?_⟩
  rw [becomes]
  decide +kernel

/-! ## A second run -/

end Pass.Folding

end Unravel
