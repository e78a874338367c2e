import Mathlib.Algebra.Group.Nat.Defs
import Unravel.Proofs.Simplification.Choices

/-!
Contract: every refusal in arithmetic is answered.

Division refuses a zero divisor, the remainder an infinite dividend and a zero
divisor, the power what is out of its domain or range, and reading an integer one
beyond the range of doubles. A refusal without an answer would be a fault. There is
none: the operators and the reading of literals always have a result, and so has
the evaluation of an expression (`evaluation_eq`).
-/

namespace Unravel

namespace Double

variable {fault : ArithmeticFault} {left right : Double}

theorem divide_refuses (refused : left.divide right = .error fault) : fault = .zeroDivision := by
  unfold divide at refused
  split at refused
  · cases refused
    rfl
  · split at refused <;> cases refused

/-- Only infinite dividends and zero divisors are refused. -/
theorem remainder_refuses (refused : left.remainder right = .error fault) :
    left.isInfinite ∨ right.isZero := by
  unfold remainder at refused
  split at refused
  · cases refused
  · cases refused
  · exact .inl rfl
  · cases refused
  · split at refused
    · rename_i isZero
      exact .inr (decide_eq_true isZero)
    · cases refused

theorem power_refuses {base exponent : Double} (refused : base.power exponent = .error fault) :
    fault = .domain ∨ fault = .overflow := by
  unfold power at refused
  split at refused
  · cases refused
  · cases refused
  · cases refused
  · cases refused
  · split at refused
    · cases refused
      exact .inl rfl
    · cases refused
      split
      · exact .inl rfl
      · exact .inr rfl
    · cases refused

theorem exists_answerQuotient (left right : Double) :
    ∃ value, left.answerQuotient right = .ok value := by
  unfold answerQuotient
  cases divided : left.divide right with
  | ok value => exact ⟨value, rfl⟩
  | error fault =>
    rw [divide_refuses divided]
    exact ⟨_, rfl⟩

theorem exists_answerModulus (left right : Double) :
    ∃ value, left.answerModulus right = .ok value := by
  unfold answerModulus
  split
  · exact ⟨_, rfl⟩
  · rename_i admitted
    split
    · exact ⟨_, rfl⟩
    · cases reduced : left.remainder right with
      | ok value => exact ⟨value, rfl⟩
      | error fault =>
        refine absurd ?_ admitted
        rcases remainder_refuses reduced with infinite | zero
        · rw [infinite, Bool.or_true]
        · rw [zero]
          rfl

theorem exists_answerPower (base exponent : Double) :
    ∃ value, base.answerPower exponent = .ok value := by
  unfold answerPower
  split
  · exact ⟨_, rfl⟩
  · split
    · exact ⟨_, rfl⟩
    · split
      · exact ⟨_, rfl⟩
      · cases raised : base.power exponent with
        | ok value => exact ⟨value, rfl⟩
        | error fault => rcases power_refuses raised with rfl | rfl <;> exact ⟨_, rfl⟩

end Double

theorem Numeral.toDouble?_refuses {numeral : Numeral} {fault : ArithmeticFault}
    (refused : numeral.toDouble? = .error fault) : fault = .overflow := by
  unfold Numeral.toDouble? at refused
  split at refused
  · split at refused
    · cases refused
    · cases refused
      rfl
  · cases refused

theorem Numeral.answerDouble_eq (numeral : Numeral) :
    numeral.answerDouble = .ok numeral.toDouble := by
  unfold toDouble answerDouble
  cases nearest : numeral.toDouble? with
  | ok value => rfl
  | error fault =>
    rw [Numeral.toDouble?_refuses nearest]
    rfl

theorem Operator.answer_eq (operator : Operator) (left right : Double) :
    operator.answer left right = .ok (operator.onDoubles left right) := by
  have answers : ∃ value, operator.answer left right = .ok value := by
    unfold answer
    split
    · exact ⟨_, rfl⟩
    · exact ⟨_, rfl⟩
    · exact ⟨_, rfl⟩
    · exact left.exists_answerQuotient right
    · exact left.exists_answerModulus right
    · exact left.exists_answerPower right
  obtain ⟨value, is⟩ := answers
  rw [onDoubles, is]
  rfl

namespace Value

/-- Reading the number of a literal. -/
def reading (value : Value) : Except ArithmeticFault (Option Double) :=
  match value.numeral? with
  | none => .ok none
  | some numeral => numeral.answerDouble.map some

/-- The evaluation of an expression from left to right, up to the first fault or
the first part that is not constant. -/
def evaluation (value : Value) : Except ArithmeticFault (Option Double) :=
  match _isNode : value.kind? with
  | none => .ok none
  | some kind =>
    if kind = "Literal" then value.reading
    else if kind = "UnaryExpression" then
      if value.hasText "operator" "-" then
        (evaluation (value.attr "argument")).map fun operand? => operand?.map Double.negate
      else .ok none
    else if kind = "BinaryExpression" then
      match value.operator? with
      | none => .ok none
      | some operator =>
        match evaluation (value.attr "left") with
        | .error fault => .error fault
        | .ok none => .ok none
        | .ok (some left) =>
          match evaluation (value.attr "right") with
          | .error fault => .error fault
          | .ok none => .ok none
          | .ok (some right) => (operator.answer left right).map some
    else .ok none
termination_by sizeOf value
decreasing_by all_goals exact sizeOf_attr_lt_of_kind? _ _isNode

theorem reading_eq (value : Value) : value.reading = .ok value.double? := by
  unfold reading double?
  cases value.numeral? with
  | none => rfl
  | some numeral =>
    dsimp only
    rw [numeral.answerDouble_eq]
    rfl

theorem evaluation_eq (value : Value) : value.evaluation = .ok value.evaluate := by
  rw [evaluation]
  split
  · rename_i noKind
    rw [evaluate_of_other fun kind _ is => nomatch noKind.symm.trans is]
  · rename_i kind is
    split
    · rename_i isLiteral
      rw [evaluate_of_literal (isLiteral ▸ is), reading_eq]
    · rename_i notLiteral
      split
      · rename_i isUnary
        rw [evaluate_of_unary (isUnary ▸ is)]
        split
        · rw [evaluation_eq (value.attr "argument")]
          rfl
        · rfl
      · rename_i notUnary
        split
        · rename_i isBinary
          rw [evaluate_of_binary (isBinary ▸ is)]
          cases value.operator? with
          | none => rfl
          | some operator =>
            rw [evaluation_eq (value.attr "left"), evaluation_eq (value.attr "right")]
            cases (value.attr "left").evaluate with
            | none => rfl
            | some left =>
              cases (value.attr "right").evaluate with
              | none => rfl
              | some right =>
                dsimp only
                rw [operator.answer_eq]
                rfl
        · rename_i notBinary
          rw [evaluate_of_other fun other listed isOther => ?_]
          cases is.symm.trans isOther
          simp only [constantKinds, List.mem_cons, List.not_mem_nil, or_false] at listed
          rcases listed with rfl | rfl | rfl
          · exact notLiteral rfl
          · exact notUnary rfl
          · exact notBinary rfl
termination_by sizeOf value
decreasing_by all_goals exact sizeOf_attr_lt_of_kind? _ ‹value.kind? = some _›

end Value

end Unravel
