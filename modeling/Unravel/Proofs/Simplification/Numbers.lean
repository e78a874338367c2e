import Unravel.Proofs.Number.Decimals
import Unravel.Proofs.Simplification.Grammar

/-!
Contract: the node for a double reads back as that double.

A finite double becomes a literal for its magnitude, behind a minus if the double has one.
The value and the text of the literal are made by two functions with bounds of their own, 2⁵³
and 10²¹; both stand for the magnitude (`numberNode_reads_back`).
-/

namespace Unravel.Value

variable {code : Fin Double.codes} {literal : Value}

/-- A literal without a sign whose text is a decimal numeral for a magnitude. -/
structure SpellsMagnitude (literal : Value) (code : Fin Double.codes) (raw : String)
    (decimal : DecimalText) : Prop where
  unsigned : literal.numeral?.map Numeral.isNegative = some false
  isRaw : literal.attr "raw" = .text raw
  isDecimal : Text.isNonDecimal raw = false
  isText : raw.toList = decimal.text
  rounds : Double.nearest decimal.value = .finite false code
  exact : ∀ whole : Int, (Double.finite false code).toInt? = some whole →
    whole < 10 ^ 21 → decimal.value = Double.magnitudeOf code

/-- The magnitude inside a node, which stands behind a minus if there is a sign. -/
def magnitude? (negative : Bool) (node : Value) : Option Value :=
  if negative then node.negated? else some node

theorem isNegative_toNumeral (code : Fin Double.codes) :
    (Double.finite false code).toNumeral.isNegative = false := by
  unfold Double.toNumeral
  split
  · rename_i integer isWhole
    obtain ⟨is, _⟩ := Option.filter_eq_some_iff.1 isWhole
    obtain ⟨whole, rfl, _⟩ := Double.exists_whole_of_toInt? is
    exact decide_eq_false (Int.not_lt.2 (Int.natCast_nonneg whole))
  · rfl

/-- The literal for a magnitude. -/
def magnitudeLiteral (label : Nat) (code : Fin Double.codes) : Value :=
  .node label "Literal" [("value", .number (Double.finite false code).toNumeral),
    ("raw", .text (Double.finite false code).spelling)]

theorem exists_spellsMagnitude (label : Nat) (code : Fin Double.codes) :
    ∃ raw decimal, (magnitudeLiteral label code).SpellsMagnitude code raw decimal := by
  obtain ⟨decimal, isText, rounds, exact⟩ := Double.exists_decimalText code
  refine ⟨_, decimal, congrArg some (isNegative_toNumeral code), rfl, isNonDecimal_spelling code,
    isText, rounds, fun whole is below => exact whole ?_⟩
  obtain ⟨number, rfl, _⟩ := Double.exists_whole_of_toInt? is
  rw [Double.wholeBelow?, is, Option.filter_some, if_pos]
  exact decide_eq_true (by rw [Int.natAbs_natCast]; exact_mod_cast below)

theorem evaluate_magnitudeLiteral (label : Nat) (code : Fin Double.codes) :
    (magnitudeLiteral label code).evaluate = some (.finite false code) :=
  (evaluate_of_literal rfl).trans (congrArg some (Double.toDouble_toNumeral code))

theorem evaluationFault?_magnitudeLiteral (label : Nat) (code : Fin Double.codes) :
    (magnitudeLiteral label code).evaluationFault? = none :=
  evaluationFault?_of_kind (by simp [magnitudeLiteral, kind?]) (by simp [magnitudeLiteral, kind?])

theorem isPlainNumber_numberNode (number : Double) (next : Nat) :
    ((numberNode number).run next).1.isPlainNumber := by
  rw [← isPlainNumber_unlabelled, unlabelled_numberNode]
  exact isPlainNumber_of_mem_numberNode (mem_nodes_self _)

/-- The node that is made for a number is left alone by the pass. One for a finite number
evaluates without fault to that number, sign included, and is spelled with a literal of its
magnitude; the others are names. -/
theorem numberNode_reads_back (number : Double) (next : Nat) :
    let node := ((numberNode number).run next).1
    node.isPlainNumber ∧
      match number with
      | .nan => node.isNamed "NaN"
      | .infinite negative => (node.magnitude? negative).any (·.isNamed "Infinity")
      | .finite negative code =>
        node.evaluationFault? = none ∧ node.evaluate = some (.finite negative code) ∧
          ∃ literal raw decimal, node.magnitude? negative = some literal ∧
            literal.SpellsMagnitude code raw decimal := by
  refine ⟨isPlainNumber_numberNode number next, ?_⟩
  cases number with
  | nan => rfl
  | infinite negative => cases negative <;> rfl
  | finite negative code =>
    obtain ⟨raw, decimal, spells⟩ := exists_spellsMagnitude next code
    cases negative with
    | false =>
      exact ⟨evaluationFault?_magnitudeLiteral next code, evaluate_magnitudeLiteral next code,
        magnitudeLiteral next code, raw, decimal, rfl, spells⟩
    | true =>
      refine ⟨?_, ?_, magnitudeLiteral next code, raw, decimal, rfl, spells⟩
      · have operand := evaluationFault?_magnitudeLiteral next code
        rw [evaluationFault?]
        split
        · rfl
        · rename_i kind is
          cases is
          rw [if_pos rfl]
          exact ite_eq_right_iff.2 fun _ => operand
      · refine (evaluate_of_unary rfl).trans ?_
        exact congrArg (Option.map Double.negate) (evaluate_magnitudeLiteral next code)

end Unravel.Value
