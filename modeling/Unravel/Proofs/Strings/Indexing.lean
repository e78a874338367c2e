import Mathlib.Algebra.Polynomial.Roots
import Mathlib.Data.Rat.Cast.CharZero
import Unravel.Pass.Strings.Decoder
import Unravel.Proofs.Tree.Programs

/-!
Contract: what a decoder computes, beside the shape that is read off it.

An index is made up of the parameter of a decoder and numeric literals (`Index`). Its
value is exact: integers of any size, and doubles as the fractions that they are. Every
decoder with such an index has a shape, and none is refused: the offset is read off the
outermost operator alone, whatever it is applied to. That shape is right for every argument
exactly when it is right for the first few, one more than the degree of the index
(`analyze_right_iff`).
-/

namespace Unravel

open Polynomial

/-! ## Exact numbers -/

/-- The fraction that a double stands for. -/
def Double.fraction? : Double → Option ℚ
  | .finite negative code =>
    let magnitude : ℚ := numerator code / denominator code
    some (if negative then -magnitude else magnitude)
  | _ => none

theorem Double.fraction?_zero (negative : Bool) : (zero negative).fraction? = some 0 := by
  have none : numerator 0 = 0 := by
    rw [numerator, significand, if_pos (by decide), Nat.zero_mul]
  simp only [zero, fraction?, none, Nat.cast_zero, zero_div, neg_zero, ite_self]

theorem Double.fraction?_negate (value : Double) :
    value.negate.fraction? = value.fraction?.map (-·) := by
  cases value with
  | nan | infinite negative => rfl
  | finite negative code => cases negative <;> simp [negate, fraction?]

def Numeral.fraction? : Numeral → Option ℚ
  | .integer value => some value
  | .double value => value.fraction?

namespace Pass.Strings

/-! ## Indices -/

inductive IndexOperator where
  | sum
  | difference
  | product
deriving DecidableEq

namespace IndexOperator

def symbol : IndexOperator → String
  | .sum => "+"
  | .difference => "-"
  | .product => "*"

def apply {R : Type} [CommRing R] : IndexOperator → R → R → R
  | .sum, left, right => left + right
  | .difference, left, right => left - right
  | .product, left, right => left * right

/-- The degree of what an operator makes of polynomials. -/
def degree : IndexOperator → Nat → Nat → Nat
  | .product, left, right => left + right
  | _, left, right => max left right

theorem natDegree_apply_le (operator : IndexOperator) (left right : ℚ[X]) :
    (operator.apply left right).natDegree ≤ operator.degree left.natDegree right.natDegree := by
  cases operator with
  | sum => exact natDegree_add_le left right
  | difference => exact natDegree_sub_le left right
  | product => exact natDegree_mul_le

theorem eval_apply (operator : IndexOperator) (point : ℚ) (left right : ℚ[X]) : eval point
    (operator.apply left right) = operator.apply (eval point left) (eval point right) := by
  cases operator <;> simp [apply]

theorem degree_mono (operator : IndexOperator) {left right more further : Nat} (first : left ≤ more)
    (second : right ≤ further) : operator.degree left right ≤ operator.degree more further := by
  cases operator <;> simp only [degree] <;> omega

end IndexOperator

/-- An index over one parameter. -/
inductive Index where
  | parameter
  | literal (numeral : Numeral)
  | binary (operator : IndexOperator) (left right : Index)

namespace Index

/-- The value of an index for an argument, when all its literals are finite. -/
def value? (argument : ℤ) : Index → Option ℚ
  | .parameter => some argument
  | .literal numeral => numeral.fraction?
  | .binary operator left right => do
      return operator.apply (← left.value? argument) (← right.value? argument)

/-- A bound of the degree of an index in its parameter. -/
def degree : Index → Nat
  | .parameter => 1
  | .literal _ => 0
  | .binary operator left right => operator.degree left.degree right.degree

/-- What the outermost operator takes off or adds, when that is a literal. -/
def outermost? : Index → Option Offset
  | .binary .sum _ (.literal numeral) => some ⟨numeral.toDouble, true⟩
  | .binary .difference _ (.literal numeral) => some ⟨numeral.toDouble, false⟩
  | _ => none

/-- The offset that a shape has for an index. -/
def offset (index : Index) : Double := (index.outermost?.map Offset.value).getD (.zero false)

/-- Whether a shape says for an argument what the index computes. -/
def RightAt (index : Index) (argument : ℤ) : Prop := ∃ taken : ℚ, index.offset.fraction? = some
  taken ∧ index.value? argument = some (argument - taken)

/-- The polynomial that an index stands for. -/
noncomputable def polynomial? : Index → Option ℚ[X]
  | .parameter => some X
  | .literal numeral => numeral.fraction?.map C
  | .binary operator left right => do
      return operator.apply (← left.polynomial?) (← right.polynomial?)

theorem value?_eq (index : Index) (argument : ℤ) :
    index.value? argument = index.polynomial?.map (eval (argument : ℚ)) := by
  induction index with
  | parameter => simp [value?, polynomial?]
  | literal numeral => cases exact : numeral.fraction? <;> simp [value?, polynomial?, exact]
  | binary operator left right leftValue rightValue =>
    rw [value?, polynomial?, leftValue, rightValue]
    cases left.polynomial? <;> cases right.polynomial? <;> simp [operator.eval_apply]

variable {index : Index}

theorem natDegree_le {polynomial : ℚ[X]} (stands : index.polynomial? = some polynomial) :
    polynomial.natDegree ≤ index.degree := by
  induction index generalizing polynomial with
  | parameter =>
    cases stands
    exact natDegree_X_le
  | literal numeral =>
    obtain ⟨constant, _, rfl⟩ := Option.map_eq_some_iff.1 stands
    exact (natDegree_C constant).le
  | binary operator left right leftDegree rightDegree =>
    simp only [polynomial?, Option.bind_eq_bind, Option.bind_eq_some_iff, Option.pure_def,
      Option.some.injEq] at stands
    obtain ⟨first, isFirst, second, isSecond, rfl⟩ := stands
    exact (operator.natDegree_apply_le first second).trans
      (operator.degree_mono (leftDegree isFirst) (rightDegree isSecond))

/-- An offset that is right for more arguments than an index has degrees is right for all. -/
theorem rightAt_of_initial (initial : ∀ argument : ℕ, argument ≤ max index.degree 1 → index.RightAt
    argument) (argument : ℤ) : index.RightAt argument := by
  obtain ⟨taken, isTaken, atZero⟩ := initial 0 (Nat.zero_le _)
  rw [value?_eq, Option.map_eq_some_iff] at atZero
  obtain ⟨polynomial, stands, _⟩ := atZero
  -- the difference to what the shape says has more roots than degrees
  have vanishes : polynomial - (X - C taken) = 0 := by
    refine eq_zero_of_natDegree_lt_card_of_eval_eq_zero _
      (f := fun point : Fin (max index.degree 1 + 1) => ((point : ℕ) : ℚ)) ?_ ?_ ?_
    · exact fun first second same => Fin.ext (Nat.cast_injective same)
    · intro point
      obtain ⟨again, isAgain, computed⟩ := initial point (Nat.le_of_lt_succ point.isLt)
      cases isTaken.symm.trans isAgain
      rw [value?_eq, stands] at computed
      have evaluates := Option.some.inj computed
      simp only [Int.cast_natCast] at evaluates
      simp [evaluates]
    · rw [Fintype.card_fin]
      refine Nat.lt_succ_of_le ((natDegree_sub_le _ _).trans (max_le_max (natDegree_le stands) ?_))
      exact natDegree_sub_C.trans_le natDegree_X_le
  refine ⟨taken, isTaken, ?_⟩
  rw [value?_eq, stands, sub_eq_zero.1 vanishes]
  simp

/-- The parameter alone, or with a finite literal added to it or taken off that is a double,
is read right. -/
theorem rightAt_written {numeral : Numeral} {amount : ℚ} (exact : numeral.fraction? = some amount)
    (rounded : numeral.toDouble.fraction? = some amount) (argument : ℤ) :
    RightAt .parameter argument ∧ RightAt (.binary .sum .parameter (.literal numeral)) argument ∧
      RightAt (.binary .difference .parameter (.literal numeral)) argument := by
  refine ⟨⟨0, Double.fraction?_zero false, ?_⟩, ⟨-amount, ?_, ?_⟩, ⟨amount, rounded, ?_⟩⟩
  · simp [value?]
  · rw [offset, outermost?, Option.map_some, Option.getD_some, Offset.value, if_pos rfl,
      Double.fraction?_negate, rounded, Option.map_some]
  · simp [value?, exact, IndexOperator.apply]
  · simp [value?, exact, IndexOperator.apply]

/-! ## Decoders -/

/-- Whether an expression spells an index over a parameter. -/
def Spells (parameter : String) : Index → Value → Prop
  | .parameter, value => value.isNamed parameter = true
  | .literal numeral, value => value.numeral? = some numeral
  | .binary operator left right, value =>
    value.isKind "BinaryExpression" = true ∧ value.hasText "operator" operator.symbol = true ∧
      left.Spells parameter (value.attr "left") ∧ right.Spells parameter (value.attr "right")

section Spelling

variable {parameter : String} {index : Index} {value : Value}

theorem Spells.numeral? (spells : index.Spells parameter value) : value.numeral? =
      match index with
      | .literal numeral => some numeral
      | _ => none := by
  have none (kind : String) (isKind : value.isKind kind) (other : kind ≠ "Literal") :
      value.numeral? = none := by
    refine if_neg fun isLiteral => other ?_
    exact Option.some.inj ((Value.kind?_of_isKind isKind).symm.trans
      (Value.kind?_of_isKind isLiteral))
  cases index with
  | parameter =>
    refine none "Identifier" ?_ (by decide)
    by_contra notIdentifier
    have unnamed := spells
    simp [Spells, Value.isNamed, Value.identifier?, Value.isIdentifier, notIdentifier] at unnamed
  | literal numeral => exact spells
  | binary operator left right => exact none _ spells.1 (by decide)

theorem Spells.offset? (spells : index.Spells parameter value) :
    offset? value = index.outermost? := by
  cases index with
  | parameter =>
    refine if_neg fun isBinary => ?_
    have unnamed := spells
    simp [Spells, Value.isNamed, Value.identifier?, Value.isIdentifier, Value.isKind,
      Value.kind?_of_isKind isBinary] at unnamed
  | literal numeral =>
    refine if_neg fun isBinary => ?_
    have notNumeral := spells
    simp [Spells, Value.numeral?, Value.isKind, Value.kind?_of_isKind isBinary] at notNumeral
  | binary operator left right =>
    obtain ⟨isBinary, isOperator, _, isRight⟩ := spells
    rw [Strings.offset?, if_pos isBinary, Value.double?, isRight.numeral?]
    have symbol : ((value.attr "operator").text?) = some operator.symbol := by
      simpa [Value.hasText] using isOperator
    simp only [Value.hasText, symbol]
    cases operator <;> cases right <;> rfl

end Spelling

end Index

/-- Whether a function of one parameter does nothing but read an array at an index. -/
structure ReadsAt (function : Value) (parameter array : String) (index : Index) : Prop where
  isFunction : function.isFunction = true
  parameters : ∃ identifier, function.attr "params" = .list [identifier] ∧
    identifier.isNamed parameter = true
  returns : ∃ read, (function.attr "body" = read ∨ (function.attr "body").isKind "BlockStatement" =
      true ∧ ∃ statement, (function.attr "body").attr "body" = .list [statement] ∧ statement.isKind
      "ReturnStatement" = true ∧ statement.attr "argument" = read) ∧ read.isKind "MemberExpression"
      = true ∧ (read.attr "computed").truthy = true ∧ (read.attr "object").isNamed array = true ∧
      index.Spells parameter (read.attr "property")

section Analysis

variable {function : Value} {parameter array : String} {index : Index}

/-- Such a function reads once and stores nothing. -/
theorem ReadsAt.exists_read (reads : ReadsAt function parameter array index) :
    ∃ read, candidatesOf function = [read] ∧ (statementsOf function).flatMap storedBy = [] ∧
      memberRead? read = some (.text array, index.outermost?) := by
  obtain ⟨read, body, isMember, isComputed, isObject, spells⟩ := reads.returns
  have found : memberRead? read = some (.text array, index.outermost?) := by
    have isIdentifier : (read.attr "object").isIdentifier := by
      by_contra notIdentifier
      simp [Value.isNamed, Value.identifier?, notIdentifier] at isObject
    have isName : (read.attr "object").name? = some (.text array) := by
      simpa [Value.isNamed, Value.identifier?, isIdentifier] using isObject
    rw [memberRead?, if_pos (by simp [isMemberRead, isMember, isComputed, isIdentifier]), isName,
      spells.offset?]
  rcases body with rfl | ⟨isBlock, statement, isBody, isReturn, rfl⟩
  · have notBlock : (function.attr "body").isKind "BlockStatement" = false := by
      simp [Value.isKind, Value.kind?_of_isKind isMember]
    refine ⟨_, ?_, ?_, found⟩
    · simp [candidatesOf, notBlock]
    · simp [statementsOf, notBlock]
  · have isStatements : statementsOf function = [statement] := by
      rw [statementsOf, if_pos isBlock, isBody, Value.items]
    refine ⟨_, ?_, ?_, found⟩
    · simp [candidatesOf, isBlock, isStatements, readsOf, isReturn]
    · simp [isStatements, storedBy, Value.isKind, Value.kind?_of_isKind isReturn]

theorem analyze_of_readsAt (reads : ReadsAt function parameter array index) :
    analyze function = some ⟨.text array, index.offset⟩ := by
  obtain ⟨read, isRead, nothing, found⟩ := reads.exists_read
  have reads : (candidatesOf function).filterMap memberRead? =
      [(.text array, index.outermost?)] := by
    rw [isRead, List.filterMap_cons, found, List.filterMap_nil]
  rw [analyze, nothing, reads]
  cases isOuter : index.outermost? with
  | none => simp [Index.offset, isOuter, insertName, Name.isIn]
  | some offset => simp [Index.offset, isOuter, insertName, insertOffset, Name.isIn]

/-- Every function that does nothing but read an array at an index over its parameter has a
shape, with the offset of the outermost operator. The shape says what the function computes,
for every argument, exactly when it does for the arguments up to the degree of the index; the
parameter alone and the parameter with a literal that is a double are among these. -/
theorem analyze_right_iff (reads : ReadsAt function parameter array index) : analyze function = some
    ⟨.text array, index.offset⟩ ∧ ((∀ argument : ℤ, index.RightAt argument) ↔ ∀ argument : ℕ,
    argument ≤ max index.degree 1 → index.RightAt argument) ∧ ∀ (numeral : Numeral) (amount : ℚ),
    numeral.fraction? = some amount → numeral.toDouble.fraction? = some amount → index = .parameter
    ∨ index = .binary .sum .parameter (.literal numeral) ∨ index = .binary .difference .parameter
    (.literal numeral) → ∀ argument : ℤ, index.RightAt argument := by
  refine ⟨analyze_of_readsAt reads, ⟨fun right argument _ => right argument,
    Index.rightAt_of_initial⟩, ?_⟩
  intro numeral amount exact rounded written argument
  obtain ⟨alone, added, taken⟩ := Index.rightAt_written exact rounded argument
  rcases written with rfl | rfl | rfl
  · exact alone
  · exact added
  · exact taken

end Analysis

/-- `function d(n) { return A[2 * n - 3]; }` -/
def doublingDecoder : Value :=
  .function 0 (.identifier 1 "d") [.identifier 2 "n"] (.block 3 [
    .returns 4 (.member 5 true (.identifier 6 "A")
      (.binary 7 "-" (.binary 8 "*" (.integer 9 2) (.identifier 10 "n")) (.integer 11 3)))])

/-- `2 * n - 3` -/
def doublingIndex : Index := .binary .difference (.binary .product (.literal (.integer 2))
  .parameter) (.literal (.integer 3))

theorem analyze_right_iff_doubling : analyze doublingDecoder = some ⟨.text "A", .round false 3 1⟩ ∧
    ¬ ∀ argument : ℤ, doublingIndex.RightAt argument := by
  have reads : ReadsAt doublingDecoder "n" "A" doublingIndex := by
    refine ⟨rfl, ⟨_, rfl, by decide⟩, _, .inr ⟨by decide, _, rfl, by decide, rfl⟩, by decide,
      by decide, by decide, ?_⟩
    exact ⟨by decide, by decide, ⟨by decide, by decide, rfl, rfl⟩, rfl⟩
  obtain ⟨analysed, rightIff, _⟩ := analyze_right_iff reads
  refine ⟨analysed.trans (by decide +kernel), fun right => ?_⟩
  obtain ⟨taken, isTaken, atZero⟩ := rightIff.1 right 0 (by decide)
  obtain ⟨again, isAgain, atOne⟩ := rightIff.1 right 1 (by decide)
  cases isTaken.symm.trans isAgain
  have first := Option.some.inj atZero
  have second := Option.some.inj atOne
  simp only [IndexOperator.apply] at first second
  norm_num at first second
  linarith

end Pass.Strings

end Unravel
