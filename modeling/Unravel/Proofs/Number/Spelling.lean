import Unravel.Number.Numeral
import Unravel.Text.Word

/-!
Contract: how a magnitude is spelled does not read as another base.

A whole number is spelled by its digits, of which the first is a zero for zero
only. Any other magnitude has a point or an exponent in its spelling, and all
characters are those of decimal numbers (`isNonDecimal_spelling`).
-/

namespace Unravel

variable {text : List Char}

/-! ## Digits -/

theorem exists_toDigits {number : Nat} (positive : 0 < number) :
    ∃ first rest, Nat.toDigits 10 number = first :: rest ∧ first ≠ '0' := by
  by_cases small : number < 10
  · refine ⟨_, _, Nat.toDigits_of_lt_base small, ?_⟩
    have each : ∀ digit < 10, 0 < digit → Nat.digitChar digit ≠ '0' := by decide
    exact each number small positive
  · obtain ⟨first, rest, are, other⟩ :=
      exists_toDigits (show 0 < number / 10 from Nat.div_pos (by omega) (by decide))
    refine ⟨first, rest ++ [Nat.digitChar (number % 10)], ?_, other⟩
    rw [Nat.toDigits_of_base_le (by decide) (by omega), are, List.cons_append]

/-- The characters of decimal numbers. -/
def isDecimalChar (char : Char) : Bool := char.isDigit || ['.', 'e', '+', '-'].contains char

variable {char : Char} {digits : List Char}

theorem isDecimalChar_toDigits {number : Nat} (member : char ∈ Nat.toDigits 10 number) :
    isDecimalChar char := by
  rw [isDecimalChar, Nat.isDigit_of_mem_toDigits (by decide) (by decide) member, Bool.true_or]

/-- A decimal text with a point or an exponent in it. -/
structure Broken (text : List Char) : Prop where
  decimal : ∀ char ∈ text, isDecimalChar char = true
  marked : '.' ∈ text ∨ 'e' ∈ text

theorem Broken.tail (broken : Broken ('0' :: text)) : Broken text where
  decimal char member := broken.decimal char (List.mem_cons_of_mem _ member)
  marked := broken.marked.imp (fun member => by simpa using member) fun member => by
    simpa using member

theorem Broken.not_all_octal (broken : Broken text) : text.all Text.isOctalDigit = false := by
  rw [List.all_eq_false]
  rcases broken.marked with member | member
  · exact ⟨'.', member, by decide⟩
  · exact ⟨'e', member, by decide⟩

theorem Broken.dropFinalBreak (broken : Broken text) : Text.dropFinalBreak text = text := by
  unfold Text.dropFinalBreak
  rw [if_neg]
  intro ends
  have plain := broken.decimal '\n' (List.mem_of_getLast? ends)
  exact absurd plain (by decide)

/-- No text with a point or an exponent in it reads as another base. -/
theorem Broken.isNonDecimal (broken : Broken text) :
    Text.isNonDecimal (String.ofList text) = false := by
  unfold Text.isNonDecimal
  rw [String.toList_ofList]
  split
  · have brokenRest := broken.tail
    refine Bool.or_eq_false_iff.2 ⟨?_, ?_⟩
    · split
      · rename_i mark others
        have plain := brokenRest.decimal mark List.mem_cons_self
        have none : ['x', 'X', 'o', 'O', 'b', 'B'].all (fun base => !isDecimalChar base) := by
          decide
        refine Bool.eq_false_iff.2 fun among => ?_
        have foreign := List.all_eq_true.1 none mark (List.contains_iff_mem.1 among)
        rw [plain] at foreign
        cases foreign
      · rfl
    · rw [brokenRest.dropFinalBreak]
      split
      · rfl
      · exact brokenRest.not_all_octal
  · rfl

/-! ## Spellings -/

theorem isDecimalChar_replicate {count : Nat} (member : char ∈ List.replicate count '0') :
    isDecimalChar char := by
  rw [List.eq_of_mem_replicate member]
  decide

theorem positional_eq (digits : List Char) (point : Int) : Double.positional digits point =
      if point ≤ 0 then ['0', '.'] ++ List.replicate (-point).toNat '0' ++ digits
      else digits.take point.toNat ++
        List.replicate (point.toNat - (digits.take point.toNat).length) '0' ++ ['.'] ++
          (if (digits.drop point.toNat).isEmpty then ['0'] else digits.drop point.toNat) :=
  rfl

theorem broken_positional (point : Int) (decimal : ∀ char ∈ digits, isDecimalChar char) :
    Broken (Double.positional digits point) := by
  rw [positional_eq]
  split
  · refine ⟨fun char member => ?_, by simp⟩
    simp only [List.mem_append, List.mem_cons, List.not_mem_nil, or_false] at member
    rcases member with ((rfl | rfl) | zero) | digit
    · decide
    · decide
    · exact isDecimalChar_replicate zero
    · exact decimal char digit
  · refine ⟨fun char member => ?_, by simp⟩
    simp only [List.mem_append, List.mem_singleton] at member
    rcases member with ((whole | zero) | rfl) | fraction
    · exact decimal char (List.mem_of_mem_take whole)
    · exact isDecimalChar_replicate zero
    · decide
    · split at fraction
      · rw [List.mem_singleton.1 fraction]
        decide
      · exact decimal char (List.mem_of_mem_drop fraction)

theorem scientific_eq (digits : List Char) (point : Int) : Double.scientific digits point =
      (match digits with
        | lead :: [] => [lead]
        | lead :: rest => lead :: '.' :: rest
        | [] => ['0']) ++ ['e', if point - 1 < 0 then '-' else '+'] ++ (List.replicate (2 -
          (Nat.toDigits 10 (point - 1).natAbs).length) '0' ++ Nat.toDigits 10 (point - 1).natAbs) :=
  rfl

theorem broken_scientific (point : Int) (decimal : ∀ char ∈ digits, isDecimalChar char) :
    Broken (Double.scientific digits point) := by
  rw [scientific_eq]
  refine ⟨fun char member => ?_, by simp⟩
  simp only [List.mem_append, List.mem_cons, List.not_mem_nil, or_false] at member
  rcases member with (mantissa | rfl | rfl) | zero | digit
  · split at mantissa
    · exact decimal char mantissa
    · rcases List.mem_cons.1 mantissa with rfl | further
      · exact decimal char List.mem_cons_self
      · rcases List.mem_cons.1 further with rfl | fraction
        · decide
        · exact decimal char (List.mem_cons_of_mem _ fraction)
    · rw [List.mem_singleton.1 mantissa]
      decide
  · decide
  · split <;> decide
  · exact isDecimalChar_replicate zero
  · exact isDecimalChar_toDigits digit

theorem isDecimalChar_layout (decimal : Double.Decimal) :
    ∀ char ∈ decimal.layout.1, isDecimalChar char := by
  intro char member
  unfold Double.Decimal.layout at member
  dsimp only at member
  split at member
  · rw [List.mem_singleton.1 member]
    decide
  · rw [List.mem_reverse] at member
    have among := List.mem_reverse.1 ((List.dropWhile_sublist _).mem member)
    exact isDecimalChar_toDigits among

theorem broken_renderCode (code : Nat) : Broken (Double.renderCode code) := by
  unfold Double.renderCode
  split
  · exact ⟨List.all_eq_true.1 (by decide), by decide⟩
  · dsimp only
    split
    · exact broken_positional _ (isDecimalChar_layout _)
    · exact broken_scientific _ (isDecimalChar_layout _)

/-- Writing the exponent without padding keeps what marks the text. -/
theorem Broken.compactExponent {text : List Char} (broken : Broken text) :
    Broken (compactExponent text) := by
  have mantissa {char : Char} (member : char ∈ text.takeWhile (· != 'e')) : isDecimalChar char :=
      broken.decimal char ((List.takeWhile_sublist _).mem member)
  unfold Unravel.compactExponent
  split
  · rename_i noExponent
    have whole : text.takeWhile (· != 'e') = text := by
      have parts := List.takeWhile_append_dropWhile (p := (· != 'e')) (l := text)
      rwa [noExponent, List.append_nil] at parts
    rw [whole]
    exact broken
  · rename_i mark exponent rest
    refine ⟨fun char member => ?_, by simp⟩
    simp only [List.mem_append, List.mem_cons, List.not_mem_nil, or_false] at member
    rcases member with (inMantissa | rfl | rfl) | digit
    · exact mantissa inMantissa
    · decide
    · split <;> decide
    · unfold trimExponent at digit
      split at digit
      · rw [List.mem_singleton.1 digit]
        decide
      · have inExponent := (List.dropWhile_sublist _).mem ((List.dropWhile_sublist _).mem digit)
        have inRest : char ∈ text.dropWhile (· != 'e') := by
          rw [rest]
          exact List.mem_cons_of_mem _ inExponent
        exact broken.decimal char ((List.dropWhile_sublist _).mem inRest)

theorem isNonDecimal_toString (number : Nat) :
    Text.isNonDecimal (toString (number : Int)) = false := by
  have digits : (toString (number : Int)).toList = Nat.toDigits 10 number := Nat.toList_repr
  unfold Text.isNonDecimal
  rw [digits]
  by_cases positive : 0 < number
  · obtain ⟨first, rest, are, other⟩ := exists_toDigits positive
    rw [are]
    split
    · rename_i same
      exact absurd (List.cons.inj same).1 other
    · rfl
  · obtain rfl : number = 0 := by omega
    rfl

theorem isNonDecimal_spelling (code : Fin Double.codes) :
    Text.isNonDecimal (Double.finite false code).spelling = false := by
  have rendered : (Double.finite false code).render.toList = Double.renderCode code :=
    String.toList_ofList
  unfold Double.spelling
  split
  · rename_i integer whole
    obtain ⟨is, _⟩ := Option.filter_eq_some_iff.1 whole
    rw [Double.toInt?] at is
    split at is
    · cases is
      exact isNonDecimal_toString _
    · cases is
  · rw [Double.compact, rendered]
    exact (broken_renderCode code).compactExponent.isNonDecimal

end Unravel
