import Mathlib.Data.List.Induction
import Mathlib.Data.List.TakeWhile
import Unravel.Proofs.Number.Exactness
import Unravel.Proofs.Number.Spelling

/-!
Contract: how a magnitude is spelled, and what the spelling stands for.

A `DecimalText` is a numeral taken apart: a whole number, digits behind a point and an
exponent, with no zeros in front of the first and the last. The spelling of every magnitude
is the text of one; its value is rounded to the magnitude, and is the magnitude where that is
a whole number below 10²¹ (`exists_decimalText`). The digits come from the shortest decimal,
which reads back by construction or is exact (`code_shortest`).
-/

namespace Unravel

/-! ## Numerals taken apart -/

structure DecimalText where
  whole : Nat
  fraction : List Char
  exponent : Option Int
  isDigit : ∀ char ∈ fraction, char.isDigit = true

namespace DecimalText

/-- Whole numbers are written by their digits, which have no zero in front. -/
def text (decimal : DecimalText) : List Char :=
  Nat.toDigits 10 decimal.whole ++
    (if decimal.fraction.isEmpty then [] else '.' :: decimal.fraction) ++
      match decimal.exponent with
      | none => []
      | some exponent =>
        ['e', if exponent < 0 then '-' else '+'] ++ Nat.toDigits 10 exponent.natAbs

/-- The rational number that the text stands for. -/
def value (decimal : DecimalText) : ℚ :=
  (decimal.whole + Nat.ofDigitChars 10 decimal.fraction 0 / 10 ^ decimal.fraction.length) *
    10 ^ decimal.exponent.getD 0

end DecimalText

/-- The double nearest to a rational number. -/
def Double.nearest (number : ℚ) : Double :=
  .round (number < 0) number.num.natAbs number.den

/-! ## Digits -/

variable {text mantissa digits : List Char} {code : Nat}

theorem digitChar_of_isDigit {char : Char} (is : char.isDigit) :
    char.toNat - '0'.toNat < 10 ∧ Nat.digitChar (char.toNat - '0'.toNat) = char := by
  have bounds : 48 ≤ char.toNat ∧ char.toNat ≤ 57 := by
    simpa [Char.isDigit, UInt32.le_iff_toNat_le] using is
  obtain ⟨least, most⟩ := bounds
  have isZero : '0'.toNat = 48 := rfl
  have small : char.toNat - '0'.toNat < 10 := by omega
  refine ⟨small, Char.toNat_inj.1 ?_⟩
  rw [Nat.toNat_digitChar_of_lt_ten small]
  omega

/-- Digits of a number: at least one, and no zero in front. -/
structure Laid (digits : List Char) : Prop where
  isDigit : ∀ char ∈ digits, char.isDigit = true
  leads : ∃ first rest, digits = first :: rest ∧ first ≠ '0'

theorem Laid.not_mem (laid : Laid digits) : 'e' ∉ digits := fun member =>
  absurd (laid.isDigit _ member) (by decide)

/-- Digits without a zero in front are those of the number they stand for. -/
theorem toDigits_ofDigitChars (laid : Laid digits) :
    Nat.toDigits 10 (Nat.ofDigitChars 10 digits 0) = digits := by
  obtain ⟨are, leads⟩ := laid
  induction digits using List.reverseRecOn with
  | nil => simp at leads
  | append_singleton before last ih =>
    obtain ⟨small, isLast⟩ := digitChar_of_isDigit (are last (by simp))
    rw [Nat.ofDigitChars_append, Nat.ofDigitChars_cons, Nat.ofDigitChars_nil]
    cases before with
    | nil => rw [Nat.ofDigitChars_nil, Nat.mul_zero, Nat.zero_add,
        Nat.toDigits_of_lt_base small, isLast, List.nil_append]
    | cons first rest =>
      obtain ⟨_, _, same, nonzero⟩ := leads
      obtain ⟨rfl, _⟩ := List.cons.inj same
      have same := ih (fun char member => are char (List.mem_append_left _ member))
        ⟨first, rest, rfl, nonzero⟩
      have positive : 0 < Nat.ofDigitChars 10 (first :: rest) 0 := by
        refine Nat.pos_of_ne_zero fun zero => nonzero ?_
        rw [zero] at same
        exact (List.cons.inj same).1.symm
      rw [← Nat.toDigits_append_toDigits (by decide) positive small, same,
        Nat.toDigits_of_lt_base small, isLast]

namespace Double

/-! ## The shortest decimal -/

/-- The rational number that a decimal stands for. -/
def Decimal.value (decimal : Decimal) : ℚ :=
  decimal.digits * 10 ^ decimal.exponent

theorem Decimal.denominator_pos (decimal : Decimal) : 0 < decimal.denominator :=
  Nat.pow_pos (by decide)

theorem Decimal.numerator_div_denominator (decimal : Decimal) :
    (decimal.numerator : ℚ) / decimal.denominator = decimal.value := by
  have power := zpow_eq_div 10 (by decide) decimal.exponent
  rw [value, numerator, denominator, Nat.cast_mul, mul_div_assoc]
  exact congrArg _ power.symm

theorem value_exactDecimal (code : Nat) : (exactDecimal code).value = magnitudeOf code := by
  unfold exactDecimal
  split
  · rename_i below
    obtain ⟨depth, isDepth⟩ := Int.exists_eq_neg_ofNat (Int.le_of_lt below)
    have ten : (10 : ℚ) = 2 * 5 := by norm_num
    rw [Decimal.value, magnitudeOf, isDepth, Int.neg_neg, Int.toNat_natCast, Nat.cast_mul, ten,
      mul_zpow, zpow_neg, zpow_neg, zpow_natCast, zpow_natCast]
    simp only [Nat.pow_eq, Nat.cast_pow, Nat.cast_ofNat]
    field_simp
  · rename_i above
    have whole : denominator code = 1 := by
      rw [denominator, show (-scale code).toNat = 0 by omega, Nat.pow_eq, Nat.pow_zero]
    have same := Double.numerator_div_denominator code
    rw [whole, Nat.cast_one, div_one] at same
    rw [Decimal.value, zpow_zero, mul_one, same]

variable {decimal : Decimal}

theorem Decimal.code_of_value (exact : decimal.value = magnitudeOf code) : decimal.code = code :=
  roundCode_of_magnitude decimal.denominator_pos
    (decimal.numerator_div_denominator.trans exact)

theorem code_shortest (code : Nat) : (shortest code).code = code := by
  unfold shortest
  generalize List.range' 1 17 = counts
  induction counts with
  | nil => exact Decimal.code_of_value (value_exactDecimal code)
  | cons count rest ih =>
    rw [shortestFrom]
    split
    · rename_i decimal others are
      have member : decimal ∈ neighbours code (_ - count) := are ▸ List.mem_cons_self
      exact beq_iff_eq.1 (List.mem_filter.1 member).2
    · exact ih

theorem nearest_of_roundCode {number : ℚ} {numerator denominator : Nat} {code : Fin codes}
    (positive : 0 < denominator) (is : number = numerator / denominator)
    (rounds : roundCode numerator denominator = code) : nearest number = .finite false code := by
  have least : 0 ≤ number := by
    rw [is]
    positivity
  have written : (number.num.natAbs : ℚ) / number.den = numerator / denominator := by
    rw [← is, Nat.cast_natAbs, abs_of_nonneg (Rat.num_nonneg.2 least)]
    exact Rat.num_div_den number
  rw [nearest, round, roundCode_congr number.den_pos positive written, rounds, ofCode,
    dif_pos code.isLt, decide_eq_false (not_lt.2 least)]

/-! ## Layout -/

/-- The digits of a number without the zeros behind them. -/
def dropZeros (number : Nat) : List Char :=
  ((Nat.toDigits 10 number).reverse.dropWhile (· == '0')).reverse

theorem exists_zeros (number : Nat) : ∃ count,
    Nat.toDigits 10 number = dropZeros number ++ List.replicate count '0' := by
  have parts := List.takeWhile_append_dropWhile (p := (· == '0'))
    (l := (Nat.toDigits 10 number).reverse)
  have zeros : (Nat.toDigits 10 number).reverse.takeWhile (· == '0') =
      List.replicate ((Nat.toDigits 10 number).reverse.takeWhile (· == '0')).length '0' :=
    List.eq_replicate_of_mem fun char member =>
      beq_iff_eq.1 (List.all_eq_true.1 List.all_takeWhile char member)
  refine ⟨((Nat.toDigits 10 number).reverse.takeWhile (· == '0')).length, ?_⟩
  rw [dropZeros, ← List.reverse_replicate, ← zeros, ← List.reverse_append, parts,
    List.reverse_reverse]

/-- The digits that are kept of a decimal, which are not all zeros, and its value by them. -/
theorem Decimal.layout_spec (nonzero : decimal.digits ≠ 0) : Laid decimal.layout.1 ∧ decimal.value =
    Nat.ofDigitChars 10 decimal.layout.1 0 * 10 ^ (decimal.layout.2 - decimal.layout.1.length) := by
  obtain ⟨first, rest, are, other⟩ := exists_toDigits (Nat.pos_of_ne_zero nonzero)
  have isLayout : decimal.layout =
      (if (dropZeros decimal.digits).isEmpty then ['0'] else dropZeros decimal.digits,
        (Nat.toDigits 10 decimal.digits).length + decimal.exponent) := rfl
  obtain ⟨count, parts⟩ := exists_zeros decimal.digits
  have some : dropZeros decimal.digits ≠ [] := by
    intro none
    rw [none, List.nil_append, are] at parts
    exact other (List.eq_of_mem_replicate (parts ▸ List.mem_cons_self))
  rw [isLayout, if_neg (by simpa using some)]
  dsimp only
  generalize dropZeros decimal.digits = kept at parts some
  refine ⟨⟨fun char member => ?_, ?_⟩, ?_⟩
  · exact Nat.isDigit_of_mem_toDigits (by decide) (by decide)
      (parts ▸ List.mem_append_left _ member)
  · obtain ⟨head, tail, rfl⟩ := List.exists_cons_of_ne_nil some
    rw [are] at parts
    exact ⟨head, tail, rfl, (List.cons.inj parts).1 ▸ other⟩
  · have number : decimal.digits = 10 ^ count * Nat.ofDigitChars 10 kept 0 := by
      rw [← Nat.ofDigitChars_replicate_zero, ← Nat.ofDigitChars_append, ← parts,
        Nat.ofDigitChars_toDigits (by decide) (by decide)]
    rw [value, parts, number, List.length_append, List.length_replicate, Nat.cast_mul,
      Nat.cast_pow, Nat.cast_ofNat, Nat.cast_add, add_assoc, add_sub_cancel_left,
      zpow_add₀ (by norm_num), zpow_natCast]
    ring

end Double

/-! ## Spellings -/

theorem ofDigitChars_cons_eq (first : Char) (rest : List Char) :
    Nat.ofDigitChars 10 (first :: rest) 0 =
      10 ^ rest.length * Nat.ofDigitChars 10 [first] 0 + Nat.ofDigitChars 10 rest 0 := by
  rw [← List.singleton_append, Nat.ofDigitChars_append, Nat.ofDigitChars_eq_ofDigitChars_zero]

theorem exists_positional_of_nonpos (laid : Laid digits) {point : Int} (below : point ≤ 0) :
    ∃ decimal : DecimalText, decimal.exponent = none ∧
      Double.positional digits point = decimal.text ∧
        decimal.value = Nat.ofDigitChars 10 digits 0 * 10 ^ (point - digits.length) := by
  obtain ⟨count, rfl⟩ := Int.exists_eq_neg_ofNat below
  have isDigit : ∀ char ∈ List.replicate count '0' ++ digits, char.isDigit = true := by
    intro char member
    rcases List.mem_append.1 member with zero | digit
    · rw [List.eq_of_mem_replicate zero]
      decide
    · exact laid.isDigit char digit
  refine ⟨⟨0, List.replicate count '0' ++ digits, none, isDigit⟩, rfl, ?_, ?_⟩
  · obtain ⟨first, rest, rfl, _⟩ := laid.leads
    rw [positional_eq, if_pos below, Int.neg_neg, Int.toNat_natCast]
    simp [DecimalText.text, Nat.toDigits_of_lt_base]
  · rw [DecimalText.value, Nat.ofDigitChars_append, Nat.ofDigitChars_replicate_zero, Nat.mul_zero,
      List.length_append, List.length_replicate, ← neg_add', ← Nat.cast_add, zpow_neg,
      zpow_natCast]
    simp [div_eq_mul_inv]

variable {count : Nat}

/-- Digits with zeros behind them as far as the point are those of a whole number. -/
theorem toDigits_filled (laid : Laid digits) (positive : 0 < count) (zeros : Nat) : Nat.toDigits 10
    (Nat.ofDigitChars 10 (digits.take count ++ List.replicate zeros '0') 0) = digits.take count ++
    List.replicate zeros '0' := by
  refine toDigits_ofDigitChars ⟨?_, ?_⟩
  · intro char member
    rcases List.mem_append.1 member with digit | zero
    · exact laid.isDigit char (List.mem_of_mem_take digit)
    · rw [List.eq_of_mem_replicate zero]
      decide
  · obtain ⟨first, rest, rfl, nonzero⟩ := laid.leads
    obtain ⟨less, rfl⟩ := Nat.exists_eq_add_of_lt positive
    exact ⟨first, _, by rw [Nat.zero_add, List.take_succ_cons]; rfl, nonzero⟩

theorem exists_positional_of_pos (laid : Laid digits) (positive : 0 < count) : ∃ decimal :
    DecimalText, decimal.exponent = none ∧ Double.positional digits count = decimal.text ∧
    decimal.value = Nat.ofDigitChars 10 digits 0 * 10 ^ ((count : Int) - digits.length) := by
  rw [positional_eq, if_neg (by omega), Int.toNat_natCast]
  generalize isZeros : count - (digits.take count).length = zeros
  have whole := toDigits_filled laid positive zeros
  rw [List.length_take] at isZeros
  by_cases all : digits.length ≤ count
  · refine ⟨⟨Nat.ofDigitChars 10 (digits.take count ++ List.replicate zeros '0') 0, ['0'], none,
      List.forall_mem_singleton.2 rfl⟩, rfl, ?_, ?_⟩
    · rw [DecimalText.text, whole, List.drop_eq_nil_of_le all]
      simp
    · have isCount : (count : Int) - digits.length = zeros := by omega
      have zero : Nat.ofDigitChars 10 ['0'] 0 = 0 := rfl
      rw [DecimalText.value, List.take_of_length_le all, Nat.ofDigitChars_append,
        Nat.ofDigitChars_replicate_zero, isCount, zpow_natCast, zero]
      simp [mul_comm]
  · have none : zeros = 0 := by omega
    subst none
    rw [List.replicate_zero, List.append_nil] at whole ⊢
    have some : (digits.drop count).isEmpty = false := by
      rw [List.isEmpty_eq_false_iff, ne_eq, List.drop_eq_nil_iff]
      exact all
    refine ⟨⟨Nat.ofDigitChars 10 (digits.take count) 0, digits.drop count, .none,
      fun char member => laid.isDigit char (List.mem_of_mem_drop member)⟩, rfl, ?_, ?_⟩
    · rw [DecimalText.text, whole, some]
      simp
    · have number : Nat.ofDigitChars 10 digits 0 =
          10 ^ (digits.drop count).length * Nat.ofDigitChars 10 (digits.take count) 0 +
            Nat.ofDigitChars 10 (digits.drop count) 0 := by
        rw [← Nat.ofDigitChars_eq_ofDigitChars_zero, ← Nat.ofDigitChars_append,
          List.take_append_drop]
      have isCount : (count : Int) - digits.length = -((digits.drop count).length : Nat) := by
        rw [List.length_drop]
        omega
      rw [DecimalText.value, isCount, number, zpow_neg, zpow_natCast]
      push_cast
      field_simp
      simp

theorem exists_positional (laid : Laid digits) (point : Int) :
    ∃ decimal : DecimalText, decimal.exponent = none ∧
      Double.positional digits point = decimal.text ∧
        decimal.value = Nat.ofDigitChars 10 digits 0 * 10 ^ (point - digits.length) := by
  rcases le_or_gt point 0 with below | above
  · exact exists_positional_of_nonpos laid below
  · obtain ⟨count, rfl⟩ := Int.eq_ofNat_of_zero_le (Int.le_of_lt above)
    exact exists_positional_of_pos laid (Int.natCast_pos.1 above)

theorem trimExponent_append (zeros number : Nat) :
    trimExponent (List.replicate zeros '0' ++ Nat.toDigits 10 number) = Nat.toDigits 10 number := by
  have dropped : (List.replicate zeros '0' ++ Nat.toDigits 10 number).dropWhile (· == '0') =
      (Nat.toDigits 10 number).dropWhile (· == '0') :=
    List.dropWhile_append_of_pos fun char member => beq_iff_eq.2 (List.eq_of_mem_replicate member)
  unfold trimExponent
  rw [dropped]
  by_cases positive : 0 < number
  · obtain ⟨first, rest, are, other⟩ := exists_toDigits positive
    rw [are, List.dropWhile_cons_of_neg (by simpa using other)]
  · obtain rfl : number = 0 := by omega
    rfl

variable {sign : Char}

theorem dropWhile_sign (isSign : sign = '-' ∨ sign = '+') (zeros number : Nat) : (sign ::
    (List.replicate zeros '0' ++ Nat.toDigits 10 number)).dropWhile (fun char => char == '+' || char
    == '-') = List.replicate zeros '0' ++ Nat.toDigits 10 number := by
  have isDigit : ∀ char ∈ List.replicate zeros '0' ++ Nat.toDigits 10 number,
      char.isDigit = true := by
    intro char member
    rcases List.mem_append.1 member with zero | digit
    · rw [List.eq_of_mem_replicate zero]
      decide
    · exact Nat.isDigit_of_mem_toDigits (by decide) (by decide) digit
  rw [List.dropWhile_cons_of_pos (by rcases isSign with rfl | rfl <;> rfl)]
  generalize List.replicate zeros '0' ++ Nat.toDigits 10 number = digits at isDigit
  cases digits with
  | nil => rfl
  | cons first rest =>
    have digit := isDigit first List.mem_cons_self
    refine List.dropWhile_cons_of_neg fun marked => ?_
    rcases Bool.or_eq_true_iff.1 marked with plus | minus
    · exact absurd (beq_iff_eq.1 plus ▸ digit) (by decide)
    · exact absurd (beq_iff_eq.1 minus ▸ digit) (by decide)

/-- An exponent is written without zeros in front of it. -/
theorem compactExponent_append (plain : 'e' ∉ mantissa) (isSign : sign = '-' ∨ sign = '+') (zeros
    number : Nat) : compactExponent (mantissa ++ ['e', sign] ++ (List.replicate zeros '0' ++
    Nat.toDigits 10 number)) = mantissa ++ ['e', sign] ++ Nat.toDigits 10 number := by
  have others : ∀ char ∈ mantissa, (char != 'e') = true := fun char member =>
    bne_iff_ne.2 fun same => plain (same ▸ member)
  have opens : (mantissa ++ ['e', sign] ++ (List.replicate zeros '0' ++ Nat.toDigits 10 number)) =
      mantissa ++ 'e' :: sign :: (List.replicate zeros '0' ++ Nat.toDigits 10 number) := by
    simp
  have before : (mantissa ++ 'e' :: sign :: (List.replicate zeros '0' ++
      Nat.toDigits 10 number)).takeWhile (· != 'e') = mantissa := by
    rw [List.takeWhile_append_of_pos others, List.takeWhile_cons_of_neg (by decide),
      List.append_nil]
  have after : (mantissa ++ 'e' :: sign :: (List.replicate zeros '0' ++
      Nat.toDigits 10 number)).dropWhile (· != 'e') =
      'e' :: sign :: (List.replicate zeros '0' ++ Nat.toDigits 10 number) := by
    rw [List.dropWhile_append_of_pos others, List.dropWhile_cons_of_neg (by decide)]
  rw [opens]
  unfold compactExponent
  rw [before, after]
  dsimp only
  rw [dropWhile_sign isSign, trimExponent_append]
  rcases isSign with rfl | rfl <;> rfl

theorem exists_scientific (laid : Laid digits) (point : Int) :
    ∃ decimal : DecimalText,
      compactExponent (Double.scientific digits point) = decimal.text ∧
        decimal.value = Nat.ofDigitChars 10 digits 0 * 10 ^ (point - digits.length) := by
  obtain ⟨first, rest, rfl, nonzero⟩ := laid.leads
  have plain : 'e' ∉ first :: if rest.isEmpty then [] else '.' :: rest := by
    have not := laid.not_mem
    split <;> simp_all
  have lead : Nat.toDigits 10 (Nat.ofDigitChars 10 [first] 0) = [first] :=
    toDigits_ofDigitChars ⟨fun char member => laid.isDigit char (by simp_all),
      first, [], rfl, nonzero⟩
  refine ⟨⟨Nat.ofDigitChars 10 [first] 0, rest, some (point - 1),
    fun char member => laid.isDigit char (List.mem_cons_of_mem _ member)⟩, ?_, ?_⟩
  · have isText : Double.scientific (first :: rest) point =
        (first :: if rest.isEmpty then [] else '.' :: rest) ++
          ['e', if point - 1 < 0 then '-' else '+'] ++
            (List.replicate (2 - (Nat.toDigits 10 (point - 1).natAbs).length) '0' ++
              Nat.toDigits 10 (point - 1).natAbs) := by
      rw [scientific_eq]
      cases rest <;> simp
    rw [isText, compactExponent_append plain (by split <;> simp), DecimalText.text, lead]
    exact List.append_assoc _ _ _
  · have isPoint : point - ((first :: rest).length : Nat) = point - 1 + -(rest.length : Nat) := by
      rw [List.length_cons]
      omega
    rw [DecimalText.value, ofDigitChars_cons_eq first rest, isPoint, zpow_add₀ (by norm_num),
      zpow_neg, zpow_natCast, Option.getD_some]
    push_cast
    field_simp

theorem compactExponent_of_plain (plain : 'e' ∉ text) : compactExponent text = text := by
  have others : ∀ char ∈ text, (char != 'e') = true := fun char member =>
    bne_iff_ne.2 fun same => plain (same ▸ member)
  unfold compactExponent
  rw [List.takeWhile_eq_self_iff.2 others, List.dropWhile_eq_nil_iff.2 others]

theorem DecimalText.not_mem_text {decimal : DecimalText} (plain : decimal.exponent = none) :
    'e' ∉ decimal.text := by
  intro member
  rw [text, plain, List.append_nil] at member
  rcases List.mem_append.1 member with whole | fraction
  · exact absurd (Nat.isDigit_of_mem_toDigits (by decide) (by decide) whole) (by decide)
  · split at fraction
    · cases fraction
    · rcases List.mem_cons.1 fraction with point | digit
      · cases point
      · exact absurd (decimal.isDigit _ digit) (by decide)

namespace Double

/-- A magnitude other than zero, by the digits of its shortest decimal. -/
theorem exists_compactExponent_renderCode (nonzero : code ≠ 0) : ∃ decimal : DecimalText,
      compactExponent (renderCode code) = decimal.text ∧
        decimal.value = (shortest code).value := by
  have digits : (shortest code).digits ≠ 0 := by
    intro zero
    have same := code_shortest code
    rw [Decimal.code, Decimal.numerator, zero, Nat.zero_mul, roundCode, if_pos rfl] at same
    exact nonzero same.symm
  obtain ⟨laid, value⟩ := Decimal.layout_spec digits
  rw [renderCode, if_neg nonzero]
  dsimp only
  split
  · obtain ⟨decimal, plain, text, same⟩ := exists_positional laid (shortest code).layout.2
    rw [text, compactExponent_of_plain (DecimalText.not_mem_text plain)]
    exact ⟨decimal, rfl, same.trans value.symm⟩
  · obtain ⟨decimal, text, same⟩ := exists_scientific laid (shortest code).layout.2
    exact ⟨decimal, text, same.trans value.symm⟩

theorem exists_decimalText (code : Fin codes) : ∃ decimal : DecimalText,
      (finite false code).spelling.toList = decimal.text ∧
        nearest decimal.value = .finite false code ∧
          (∀ whole, (finite false code).wholeBelow? (Nat.pow 10 21) = some whole →
            decimal.value = magnitudeOf code) := by
  unfold spelling
  cases isWhole : (finite false code).wholeBelow? (Nat.pow 10 21) with
  | some integer =>
    obtain ⟨is, _⟩ := Option.filter_eq_some_iff.1 isWhole
    obtain ⟨whole, rfl, exact⟩ := exists_whole_of_toInt? is
    have isValue : DecimalText.value ⟨whole, [], none, by simp⟩ = whole := by
      simp [DecimalText.value]
    refine ⟨⟨whole, [], none, by simp⟩, ?_, ?_, fun _ _ => ?_⟩
    · rw [DecimalText.text, List.append_nil]
      exact Nat.toList_repr.trans (List.append_nil _).symm
    · rw [isValue]
      exact nearest_of_roundCode Nat.one_pos (by rw [Nat.cast_one, div_one])
        (roundCode_of_exact exact)
    · rw [isValue, magnitudeOf_of_exact exact]
  | none =>
    have nonzero : (code : Nat) ≠ 0 := by
      intro zero
      obtain ⟨number, small⟩ := code
      subst zero
      simp [wholeBelow?, toInt?, numerator, significand] at isWhole
    obtain ⟨decimal, text, value⟩ := exists_compactExponent_renderCode nonzero
    refine ⟨decimal, ?_, ?_, fun _ is => absurd is (Option.some_ne_none _).symm⟩
    · rw [← text, compact, String.toList_ofList]
      exact congrArg compactExponent String.toList_ofList
    · rw [value, ← Decimal.numerator_div_denominator]
      exact nearest_of_roundCode (shortest code).denominator_pos rfl (code_shortest code)

end Double

end Unravel
