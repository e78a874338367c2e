import Unravel.Number.Numeral
import Unravel.Proofs.Number.Nearest

/-!
Contract: numerals that stand for doubles exactly.

A whole number that a double stands for is rounded to that double again, so a literal
carries the number that it is made for (`toDouble_toNumeral`).
-/

namespace Unravel.Double

variable {code whole : Nat}

theorem magnitudeOf_of_exact (exact : numerator code = whole * denominator code) :
    magnitudeOf code = whole := by
  rw [← numerator_div_denominator, exact, Nat.cast_mul, mul_div_cancel_right₀]
  exact Nat.cast_ne_zero.2 (Nat.ne_of_gt (denominator_pos code))

/-- A code with a whole magnitude is the code of that magnitude. -/
theorem roundCode_of_exact (exact : numerator code = whole * denominator code) :
    roundCode whole 1 = code := by
  refine roundCode_of_magnitude Nat.one_pos ?_
  rw [magnitudeOf_of_exact exact, Nat.cast_one, div_one]

/-- The whole number that a double without a sign stands for. -/
theorem exists_whole_of_toInt? {code : Fin codes} {integer : Int}
    (is : (finite false code).toInt? = some integer) :
    ∃ whole : Nat, integer = whole ∧ numerator code = whole * denominator code := by
  rw [toInt?] at is
  split at is
  · rename_i divides
    cases is
    exact ⟨_, rfl, (Nat.div_mul_cancel (Nat.dvd_of_mod_eq_zero divides)).symm⟩
  · cases is

theorem toDouble_toNumeral (code : Fin codes) :
    (finite false code).toNumeral.toDouble = .finite false code := by
  unfold toNumeral
  split
  · rename_i integer isWhole
    obtain ⟨is, _⟩ := Option.filter_eq_some_iff.1 isWhole
    obtain ⟨whole, rfl, exact⟩ := exists_whole_of_toInt? is
    have isRound : ofInt? (whole : Int) = some (finite false code) := by
      rw [ofInt?, round, Int.natAbs_natCast, roundCode_of_exact exact, ofCode]
      simp
    simp [Numeral.toDouble, Numeral.answerDouble, Numeral.toDouble?, settled, isRound]
  · rfl

end Unravel.Double
