import Mathlib.Algebra.Order.Field.Power
import Mathlib.Algebra.Order.Field.Rat
import Mathlib.Data.Int.Log
import Mathlib.Data.Rat.Floor
import Mathlib.Tactic.FieldSimp
import Mathlib.Tactic.Linarith
import Unravel.Number.Decimal

/-!
Contract: rounding as a function of rational numbers.

The code nearest to a fraction depends on its value only (`roundCode_congr`), since the
power of two below it does (`binaryExponent_eq_log`). A magnitude of a double is rounded
to its own code, however it is written as a fraction (`roundCode_of_magnitude`).
-/

namespace Unravel.Double

variable {code numerator denominator : Nat}

/-- The rational number that a code stands for. -/
def magnitudeOf (code : Nat) : ℚ :=
  significand code * 2 ^ scale code

theorem zpow_eq_div (base : ℕ) (positive : 0 < base) (exponent : ℤ) :
    (base : ℚ) ^ exponent = (base ^ exponent.toNat : ℕ) / (base ^ (-exponent).toNat : ℕ) := by
  have nonzero : (base : ℚ) ≠ 0 := Nat.cast_ne_zero.2 (Nat.ne_of_gt positive)
  rcases Int.le_total 0 exponent with up | down
  · obtain ⟨power, rfl⟩ := Int.eq_ofNat_of_zero_le up
    simp
  · obtain ⟨power, isPower⟩ := Int.exists_eq_neg_ofNat down
    subst isPower
    simp

theorem denominator_pos (code : Nat) : 0 < Double.denominator code :=
  Nat.two_pow_pos _

theorem numerator_div_denominator (code : Nat) :
    (Double.numerator code : ℚ) / Double.denominator code = magnitudeOf code := by
  have power := zpow_eq_div 2 Nat.two_pos (scale code)
  rw [magnitudeOf, Double.numerator, Double.denominator, Nat.cast_mul, mul_div_assoc]
  exact congrArg _ power.symm

/-! ## The power of two below a fraction -/

theorem binaryExponent_eq_log (positive : 0 < numerator) (divides : 0 < denominator) :
    binaryExponent numerator denominator = Int.log 2 ((numerator : ℚ) / denominator) := by
  have above : (0 : ℚ) < denominator := Nat.cast_pos.2 divides
  have isPositive : (0 : ℚ) < numerator / denominator := div_pos (Nat.cast_pos.2 positive) above
  have fits (exponent : ℤ) :
      denominator * Nat.pow 2 exponent.toNat ≤ numerator * Nat.pow 2 (-exponent).toNat ↔
        exponent ≤ Int.log 2 ((numerator : ℚ) / denominator) := by
    have power := zpow_eq_div 2 Nat.two_pos exponent
    have below : (0 : ℚ) < (2 ^ (-exponent).toNat : ℕ) := Nat.cast_pos.2 (Nat.two_pow_pos _)
    rw [← Int.zpow_le_iff_le_log Nat.one_lt_two isPositive, power, div_le_div_iff₀ below above,
      mul_comm]
    exact_mod_cast Iff.rfl
  -- The logarithms of the two parts give the exponent up to one.
  have lower : (Nat.log2 numerator - Nat.log2 denominator - 1 : ℤ) ≤
      Int.log 2 ((numerator : ℚ) / denominator) := by
    have least : (2 ^ Nat.log2 numerator : ℚ) ≤ numerator := by
      exact_mod_cast Nat.log2_self_le (Nat.ne_of_gt positive)
    have most : (denominator : ℚ) ≤ 2 ^ (Nat.log2 denominator + 1) := by
      exact_mod_cast Nat.le_of_lt Nat.lt_log2_self
    rw [← Int.zpow_le_iff_le_log Nat.one_lt_two isPositive, le_div_iff₀ above, Nat.cast_ofNat]
    calc (2 : ℚ) ^ (Nat.log2 numerator - Nat.log2 denominator - 1 : ℤ) * denominator
      _ ≤ 2 ^ (Nat.log2 numerator - Nat.log2 denominator - 1 : ℤ) *
          2 ^ (Nat.log2 denominator + 1) := by gcongr
      _ = 2 ^ Nat.log2 numerator := by
        rw [← zpow_natCast, ← zpow_natCast, ← zpow_add₀ two_ne_zero]
        congr 1
        push_cast
        ring
      _ ≤ numerator := least
  have upper : Int.log 2 ((numerator : ℚ) / denominator) <
      Nat.log2 numerator - Nat.log2 denominator + 1 := by
    have most : (numerator : ℚ) < 2 ^ (Nat.log2 numerator + 1) := by
      exact_mod_cast Nat.lt_log2_self
    have least : (2 ^ Nat.log2 denominator : ℚ) ≤ denominator := by
      exact_mod_cast Nat.log2_self_le (Nat.ne_of_gt divides)
    rw [← Int.lt_zpow_iff_log_lt Nat.one_lt_two isPositive, div_lt_iff₀ above, Nat.cast_ofNat]
    calc (numerator : ℚ)
      _ < 2 ^ (Nat.log2 numerator + 1) := most
      _ = 2 ^ (Nat.log2 numerator - Nat.log2 denominator + 1 : ℤ) *
          2 ^ Nat.log2 denominator := by
        rw [← zpow_natCast, ← zpow_natCast, ← zpow_add₀ two_ne_zero]
        congr 1
        push_cast
        ring
      _ ≤ 2 ^ (Nat.log2 numerator - Nat.log2 denominator + 1 : ℤ) * denominator := by gcongr
  unfold binaryExponent
  dsimp only
  split
  · rename_i reaches
    have := (fits _).1 reaches
    omega
  · rename_i misses
    have := mt (fits _).2 misses
    omega

/-! ## Rounding -/

variable {factor : Nat}

theorem roundQuotient_mul_right (numerator denominator : Nat) (positive : 0 < factor) :
    roundQuotient (numerator * factor) (denominator * factor) = roundQuotient numerator denominator
    := by
  unfold roundQuotient
  rw [Nat.mul_div_mul_right _ _ positive, Nat.mul_mod_mul_right, ← Nat.mul_assoc]
  simp only [Nat.mul_lt_mul_right positive]

theorem roundQuotient_mul_self (quotient : Nat) (divides : 0 < denominator) :
    roundQuotient (quotient * denominator) denominator = quotient := by
  unfold roundQuotient
  rw [Nat.mul_mod_left, Nat.mul_div_cancel _ divides, if_pos (by omega)]

theorem roundCode_mul_right (divides : 0 < denominator) (positive : 0 < factor) (numerator : Nat) :
    roundCode (numerator * factor) (denominator * factor) = roundCode numerator denominator := by
  by_cases zero : numerator = 0
  · simp [roundCode, zero]
  have above : 0 < numerator := Nat.pos_of_ne_zero zero
  have same : binaryExponent (numerator * factor) (denominator * factor) =
      binaryExponent numerator denominator := by
    rw [binaryExponent_eq_log (Nat.mul_pos above positive) (Nat.mul_pos divides positive),
      binaryExponent_eq_log above divides, Nat.cast_mul, Nat.cast_mul,
      mul_div_mul_right _ _ (Nat.cast_ne_zero.2 (Nat.ne_of_gt positive))]
  rw [roundCode, roundCode, if_neg zero, if_neg (Nat.ne_of_gt (Nat.mul_pos above positive)), same]
  dsimp only
  rw [Nat.mul_right_comm numerator, Nat.mul_right_comm denominator,
    roundQuotient_mul_right _ _ positive]

/-- Equal fractions have one nearest code. -/
theorem roundCode_congr {other divisor : Nat} (divides : 0 < denominator) (dividesToo : 0 < divisor)
    (same : (numerator : ℚ) / denominator = other / divisor) :
    roundCode numerator denominator = roundCode other divisor := by
  have above : (denominator : ℚ) ≠ 0 := Nat.cast_ne_zero.2 (Nat.ne_of_gt divides)
  have aboveToo : (divisor : ℚ) ≠ 0 := Nat.cast_ne_zero.2 (Nat.ne_of_gt dividesToo)
  have crossed : numerator * divisor = other * denominator := by
    rw [div_eq_div_iff above aboveToo] at same
    exact_mod_cast same
  rw [← roundCode_mul_right divides dividesToo, crossed, Nat.mul_comm denominator,
    roundCode_mul_right dividesToo divides]

/-! ## Exact magnitudes -/

/-- A code counts the codes of the coarser spacings below it, and then its own significand. -/
theorem code_eq (code : Nat) : code = (scale code + 1074).toNat * binade + significand code := by
  have parts := Nat.div_add_mod code binade
  unfold scale significand
  split
  · rename_i subnormal
    rw [Nat.div_eq_of_lt subnormal]
    simp
  · rename_i normal
    have exponent : 1 ≤ code / binade := Nat.div_pos (Nat.le_of_not_lt normal) (by decide)
    rw [Nat.max_eq_left exponent,
      show ((code / binade : Nat) - 1075 + 1074 : Int).toNat = code / binade - 1 by omega]
    generalize code / binade = high at *
    generalize code % binade = low at *
    obtain ⟨less, rfl⟩ := Nat.exists_eq_add_of_le' exponent
    rw [Nat.add_sub_cancel, ← parts]
    ring

theorem significand_pos (nonzero : code ≠ 0) : 0 < significand code := by
  have isBinade : binade = 2 ^ 52 := rfl
  unfold significand
  split <;> omega

theorem magnitudeOf_pos (nonzero : code ≠ 0) : 0 < magnitudeOf code :=
  mul_pos (Nat.cast_pos.2 (significand_pos nonzero)) (by positivity)

/-- The spacing of codes around a magnitude is that of its own code. -/
theorem spacing_of_magnitude (nonzero : code ≠ 0) :
    max (Int.log 2 (magnitudeOf code) - 52) (-1074) = scale code := by
  have isBinade : binade = 2 ^ 52 := rfl
  have remainder : code % binade < binade := Nat.mod_lt _ (by decide)
  have isPositive := magnitudeOf_pos nonzero
  have below : Int.log 2 (magnitudeOf code) < scale code + 53 := by
    have most : (significand code : ℚ) < 2 ^ (53 : ℤ) := by
      have : significand code < 2 ^ 53 := by
        unfold significand
        split <;> omega
      exact_mod_cast this
    rw [← Int.lt_zpow_iff_log_lt Nat.one_lt_two isPositive, Nat.cast_ofNat, add_comm,
      zpow_add₀ two_ne_zero, magnitudeOf]
    gcongr
  by_cases subnormal : code < binade
  · have isScale : scale code = -1074 := by
      simp [scale, Nat.div_eq_of_lt subnormal]
    have less : Int.log 2 (magnitudeOf code) < scale code + 52 := by
      have most : (significand code : ℚ) < 2 ^ (52 : ℤ) := by
        have : significand code < 2 ^ 52 := by
          rwa [significand, if_pos subnormal]
        exact_mod_cast this
      rw [← Int.lt_zpow_iff_log_lt Nat.one_lt_two isPositive, Nat.cast_ofNat, add_comm,
        zpow_add₀ two_ne_zero, magnitudeOf]
      gcongr
    omega
  · have atLeast : -1074 ≤ scale code := by
      unfold scale
      omega
    have least : scale code + 52 ≤ Int.log 2 (magnitudeOf code) := by
      have large : (2 : ℚ) ^ (52 : ℤ) ≤ significand code := by
        have : 2 ^ 52 ≤ significand code := by
          rw [significand, if_neg subnormal]
          exact Nat.le_add_right _ _
        exact_mod_cast this
      rw [← Int.zpow_le_iff_le_log Nat.one_lt_two isPositive, Nat.cast_ofNat, add_comm,
        zpow_add₀ two_ne_zero, magnitudeOf]
      gcongr
    omega

theorem roundCode_of_magnitude (divides : 0 < denominator)
    (exact : (numerator : ℚ) / denominator = magnitudeOf code) :
    roundCode numerator denominator = code := by
  have above : (denominator : ℚ) ≠ 0 := Nat.cast_ne_zero.2 (Nat.ne_of_gt divides)
  by_cases zero : code = 0
  · subst zero
    have none : (numerator : ℚ) = 0 := by
      have isZero : magnitudeOf 0 = 0 := by simp [magnitudeOf, significand]
      rw [isZero, div_eq_zero_iff] at exact
      exact exact.resolve_right above
    rw [roundCode, if_pos (Nat.cast_eq_zero.1 none)]
  · have crossed : numerator * Nat.pow 2 (-scale code).toNat =
        significand code * (denominator * Nat.pow 2 (scale code).toNat) := by
      rw [← numerator_div_denominator, div_eq_div_iff above
        (Nat.cast_ne_zero.2 (Nat.ne_of_gt (denominator_pos code)))] at exact
      have natural : numerator * Double.denominator code = Double.numerator code * denominator := by
        exact_mod_cast exact
      rw [Double.denominator, Double.numerator] at natural
      rw [natural]
      ring
    have positive : 0 < numerator := by
      refine Nat.pos_of_ne_zero fun none => ne_of_gt (magnitudeOf_pos zero) ?_
      rw [← exact, none, Nat.cast_zero, zero_div]
    rw [roundCode, if_neg (Nat.ne_of_gt positive), binaryExponent_eq_log positive divides, exact,
      spacing_of_magnitude zero]
    have divisor : 0 < denominator * Nat.pow 2 (scale code).toNat :=
      Nat.mul_pos divides (Nat.two_pow_pos _)
    dsimp only
    rw [crossed, roundQuotient_mul_self _ divisor]
    exact (code_eq code).symm

end Unravel.Double
