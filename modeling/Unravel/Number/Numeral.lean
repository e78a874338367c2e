import Unravel.Number.Decimal
import Unravel.Number.Arithmetic

/-!
Contract: the numbers a tree carries, and how scripts spell them.

A numeral is an integer of any size or a double; the two are kept apart even
where they are equal. `Double.spelling` is the decimal spelling a script uses:
whole numbers below 10²¹ in full, other numbers by their shortest digits with
an exponent that has no padding.
-/

namespace Unravel

inductive Numeral where
  | integer (value : Int)
  | double (value : Double)
deriving DecidableEq, Repr

namespace Numeral

/-- The double nearest to a numeral; integers beyond the range overflow. -/
def toDouble? : Numeral → Except ArithmeticFault Double
  | .integer value =>
    match Double.ofInt? value with
    | some nearest => .ok nearest
    | none => .error .overflow
  | .double value => .ok value

/-- The double a numeral is read as: integers beyond the range are infinite. -/
def answerDouble (numeral : Numeral) : Except ArithmeticFault Double :=
  match numeral.toDouble? with
  | .error .overflow => .ok (.infinite false)
  | result => result

def toDouble (numeral : Numeral) : Double :=
  Double.settled numeral.answerDouble

/-- Whether a numeral counts as false: any zero. -/
def isZero : Numeral → Bool
  | .integer value => value == 0
  | .double value => value.isZero

def isNegative : Numeral → Bool
  | .integer value => value < 0
  | .double value => value.isNegative

def abs : Numeral → Numeral
  | .integer value => .integer value.natAbs
  | .double value => .double value.abs

def render : Numeral → String
  | .integer value => toString value
  | .double value => value.render

end Numeral

/-- Leading zeros of an exponent are not written, but one digit always is. -/
def trimExponent (digits : List Char) : List Char :=
  match digits.dropWhile (· == '0') with
  | [] => ['0']
  | kept => kept

/-- Writes the exponent of a decimal text without padding. -/
def compactExponent (text : List Char) : List Char :=
  let mantissa := text.takeWhile (· != 'e')
  match text.dropWhile (· != 'e') with
  | [] => mantissa
  | _ :: exponent =>
    let sign := if exponent.head? = some '-' then '-' else '+'
    let digits := exponent.dropWhile fun char => char == '+' || char == '-'
    mantissa ++ ['e', sign] ++ trimExponent digits

namespace Double

/-- Shortest digits with an unpadded exponent. -/
def compact (value : Double) : String :=
  String.ofList (compactExponent value.render.toList)

/-- The whole number a double is written as in full, when it is. -/
def wholeBelow? (bound : Nat) (value : Double) : Option Int :=
  value.toInt?.filter fun integer => integer.natAbs < bound

def spelling (value : Double) : String :=
  match value.wholeBelow? (Nat.pow 10 21) with
  | some integer => toString integer
  | none => value.compact

/-- The numeral a literal carries: an integer when that is exact and small. -/
def toNumeral (value : Double) : Numeral :=
  match value.wholeBelow? (Nat.pow 2 53) with
  | some integer => .integer integer
  | none => .double value

end Double

namespace Numeral

/-- Spelling of a numeral, as of the double it stands for, except that whole
numbers below 10²¹ keep all their digits. -/
def spelling : Numeral → Except ArithmeticFault String
  | .integer value => do
      let nearest ← toDouble? (.integer value)
      return if value.natAbs < Nat.pow 10 21 then toString value else nearest.compact
  | .double value => .ok value.spelling

/-- The numeral a literal for this one carries. -/
def literal : Numeral → Except ArithmeticFault Numeral
  | .integer value => do
      let nearest ← toDouble? (.integer value)
      return if value.natAbs < Nat.pow 2 53 then .integer value else .double nearest
  | .double value => .ok value.toNumeral

end Numeral

end Unravel
