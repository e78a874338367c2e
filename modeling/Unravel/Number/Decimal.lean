import Unravel.Number.Rounding

/-!
Contract: doubles as decimal text.

`Double.shortest` finds the fewest decimal digits that round back to a
magnitude, the nearest such digits when several do, and the even ones of two
equally near. `Double.render` lays them out: positional while the decimal point
falls between the fourth zero after it and the sixteenth digit, with an
exponent of at least two digits otherwise. `Double.fixed` rounds the exact
value to a number of places, ties to even.
-/

namespace Unravel

namespace Double

/-- `digits * 10 ^ exponent`. -/
structure Decimal where
  digits : Nat
  exponent : Int
deriving DecidableEq, Repr

namespace Decimal

def numerator (decimal : Decimal) : Nat :=
  decimal.digits * Nat.pow 10 decimal.exponent.toNat

def denominator (decimal : Decimal) : Nat :=
  Nat.pow 10 (-decimal.exponent).toNat

/-- Code of the double nearest to a decimal. -/
def code (decimal : Decimal) : Nat :=
  roundCode decimal.numerator decimal.denominator

end Decimal

/-- The exact magnitude of a code: a binary fraction is a decimal one. -/
def exactDecimal (code : Nat) : Decimal :=
  if scale code < 0 then ⟨significand code * Nat.pow 5 (-scale code).toNat, scale code⟩
  else ⟨numerator code, 0⟩

/-- Number of decimal digits of a natural number, one for zero. -/
def digitCount (value : Nat) : Nat :=
  (Nat.toDigits 10 value).length

/-- The position of the decimal point in a positive fraction: the `k` with
`10 ^ (k - 1) ≤ numerator / denominator < 10 ^ k`. -/
def decimalPoint (numerator denominator : Nat) : Int :=
  if denominator ≤ numerator then digitCount (numerator / denominator)
  else
    let guess := digitCount (denominator / numerator)
    if denominator ≤ numerator * Nat.pow 10 (guess - 1) then 2 - (guess : Int) else 1 - (guess : Int)

/-- The neighbours of a code's magnitude among the multiples of a power of ten
that round back to the code, nearest first, the even one first in a tie. -/
def neighbours (code : Nat) (exponent : Int) : List Decimal :=
  let dividend := numerator code * Nat.pow 10 (-exponent).toNat
  let divisor := denominator code * Nat.pow 10 exponent.toNat
  let below : Decimal := ⟨dividend / divisor, exponent⟩
  let above : Decimal := ⟨dividend / divisor + 1, exponent⟩
  let ordered :=
    if roundQuotient dividend divisor = below.digits then [below, above] else [above, below]
  ordered.filter fun decimal => decimal.code == code

/-- First grid, from coarse to fine, with a neighbour that reads back. -/
def shortestFrom (code : Nat) (point : Int) : List Nat → Decimal
  | [] => exactDecimal code
  | count :: rest =>
    match neighbours code (point - count) with
    | decimal :: _ => decimal
    | [] => shortestFrom code point rest

/-- The shortest decimal that rounds to a code. -/
def shortest (code : Nat) : Decimal :=
  shortestFrom code (decimalPoint (numerator code) (denominator code)) (List.range' 1 17)

/-! ## Layout -/

/-- Digits of a decimal without trailing zeros, and the place of its point. -/
def Decimal.layout (decimal : Decimal) : List Char × Int :=
  let digits := Nat.toDigits 10 decimal.digits
  let kept := (digits.reverse.dropWhile (· == '0')).reverse
  (if kept.isEmpty then ['0'] else kept, digits.length + decimal.exponent)

private def zeros (count : Nat) : List Char :=
  List.replicate count '0'

/-- Positional spelling with at least one digit on each side of the point. -/
def positional (digits : List Char) (point : Int) : List Char :=
  if point ≤ 0 then ['0', '.'] ++ zeros (-point).toNat ++ digits
  else
    let whole := digits.take point.toNat
    let fraction := digits.drop point.toNat
    whole ++ zeros (point.toNat - whole.length) ++ ['.'] ++
      (if fraction.isEmpty then ['0'] else fraction)

private def exponentDigits (value : Nat) : List Char :=
  let digits := Nat.toDigits 10 value
  zeros (2 - digits.length) ++ digits

/-- Spelling with one digit before the point and a signed exponent. -/
def scientific (digits : List Char) (point : Int) : List Char :=
  let exponent := point - 1
  let mantissa :=
    match digits with
    | lead :: [] => [lead]
    | lead :: rest => lead :: '.' :: rest
    | [] => ['0']
  mantissa ++ ['e', if exponent < 0 then '-' else '+'] ++ exponentDigits exponent.natAbs

def renderCode (code : Nat) : List Char :=
  if code = 0 then ['0', '.', '0']
  else
    let (digits, point) := (shortest code).layout
    if -4 < point && point ≤ 16 then positional digits point else scientific digits point

/-- Shortest text of a double that reads back as it. -/
def render : Double → String
  | .nan => "nan"
  | .infinite negative => if negative then "-inf" else "inf"
  | .finite negative code =>
    String.ofList (if negative then '-' :: renderCode code else renderCode code)

/-- Text of a double with a fixed number of places. -/
def fixed (places : Nat) : Double → String
  | .nan => "nan"
  | .infinite negative => if negative then "-inf" else "inf"
  | .finite negative code =>
    let scaled := roundQuotient (numerator code * Nat.pow 10 places) (denominator code)
    let digits := Nat.toDigits 10 scaled
    let padded := zeros (places + 1 - digits.length) ++ digits
    let whole := padded.take (padded.length - places)
    let fraction := padded.drop (padded.length - places)
    String.ofList ((if negative then ['-'] else []) ++ whole ++
      (if places = 0 then [] else '.' :: fraction))

end Double

end Unravel
