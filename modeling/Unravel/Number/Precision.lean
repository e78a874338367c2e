import Unravel.Number.Decimal

/-!
Contract: magnitudes of doubles written to a given precision.

`Double.significant` rounds the exact value to a number of significant digits,
ties to even. Three styles lay digits out: a number of places after the point,
one digit before the point and an exponent, or whichever of the two is the
shorter for the number of significant digits, without trailing zeros. Asked to
keep the point, a style writes it even with nothing behind it, and the general
style keeps its zeros.
-/

namespace Unravel

namespace Double

inductive Style where
  | places
  | exponent
  | general
deriving DecidableEq, Repr

/-- Digits of a code's magnitude rounded to a positive number of significant
ones, and the place of the point before or among them. A carry out of the first
digit moves the point. -/
def significant (count code : Nat) : List Char × Int :=
  if code = 0 then (List.replicate count '0', 1)
  else
    let point := decimalPoint (numerator code) (denominator code)
    let exponent := point - count
    let rounded :=
      roundQuotient (numerator code * Nat.pow 10 (-exponent).toNat)
        (denominator code * Nat.pow 10 exponent.toNat)
    let digits := Nat.toDigits 10 rounded
    if count < digits.length then (digits.take count, point + 1) else (digits, point)

/-- A fraction behind its point, which stands alone only when it is kept. -/
def pointed (keepPoint : Bool) (fraction : List Char) : List Char :=
  if fraction.isEmpty && !keepPoint then [] else '.' :: fraction

/-- One digit, the others behind the point, and an exponent of at least two
digits. -/
def withExponent (keepPoint : Bool) (digits : List Char) (point : Int) : List Char :=
  let exponent := point - 1
  let shown := Nat.toDigits 10 exponent.natAbs
  digits.take 1 ++ pointed keepPoint (digits.drop 1) ++
    ['e', if exponent < 0 then '-' else '+'] ++
    List.replicate (2 - shown.length) '0' ++ shown

/-- Digits with the point at its place, filled up with zeros as far as it. -/
def withPoint (keepPoint : Bool) (digits : List Char) (point : Int) : List Char :=
  if point ≤ 0 then '0' :: pointed keepPoint (List.replicate (-point).toNat '0' ++ digits)
  else
    digits.take point.toNat ++ List.replicate (point.toNat - digits.length) '0' ++
      pointed keepPoint (digits.drop point.toNat)

/-- Digits without trailing zeros; the first digit stays. -/
def trimZeros (digits : List Char) : List Char :=
  match (digits.reverse.dropWhile (· == '0')).reverse with
  | [] => digits.take 1
  | kept => kept

def general (keepPoint : Bool) (precision code : Nat) : List Char :=
  let count := max precision 1
  let (digits, point) := significant count code
  let digits := if keepPoint then digits else trimZeros digits
  if point ≤ -4 || (count : Int) < point then withExponent keepPoint digits point
  else withPoint keepPoint digits point

/-- The magnitude of a double in a style, without its sign. -/
def magnitude (style : Style) (keepPoint : Bool) (precision : Nat) : Double → List Char
  | .nan => ['n', 'a', 'n']
  | .infinite _ => ['i', 'n', 'f']
  | .finite _ code =>
    match style with
    | .places =>
      (fixed precision (.finite false code)).toList ++
        (if precision = 0 then pointed keepPoint [] else [])
    | .exponent =>
      let (digits, point) := significant (precision + 1) code
      withExponent keepPoint digits point
    | .general => general keepPoint precision code

end Double

end Unravel
