import Unravel.Number.Double

/-!
Contract: rounding of exact fractions to doubles, to nearest with ties to the
even code.

`Double.round` chooses the spacing of codes around the fraction and rounds to
it once; a result beyond the largest double is an infinity. Every operator of
`Number.Arithmetic` is its exact result rounded by this function.
-/

namespace Unravel

/-- The integer nearest to `numerator / denominator`, the even one of two. -/
def roundQuotient (numerator denominator : Nat) : Nat :=
  let quotient := numerator / denominator
  let twice := 2 * (numerator % denominator)
  if twice < denominator then quotient
  else if denominator < twice then quotient + 1
  else quotient + quotient % 2

namespace Double

/-- The power of two just below a positive fraction, as an exponent. -/
def binaryExponent (numerator denominator : Nat) : Int :=
  let guess : Int := (Nat.log2 numerator : Int) - Nat.log2 denominator
  if denominator * Nat.pow 2 guess.toNat ≤ numerator * Nat.pow 2 (-guess).toNat then guess
  else guess - 1

/-- Code of the double nearest to a fraction; it may lie past the last code. -/
def roundCode (numerator denominator : Nat) : Nat :=
  if numerator = 0 then 0
  else
    let spacing := max (binaryExponent numerator denominator - 52) (-1074)
    (spacing + 1074).toNat * binade +
      roundQuotient (numerator * Nat.pow 2 (-spacing).toNat) (denominator * Nat.pow 2 spacing.toNat)

/-- The double nearest to `± numerator / denominator`. -/
def round (negative : Bool) (numerator denominator : Nat) : Double :=
  ofCode negative (roundCode numerator denominator)

/-- The double nearest to an integer, when that is finite. -/
def ofInt? (value : Int) : Option Double :=
  match round (value < 0) value.natAbs 1 with
  | .finite negative code => some (.finite negative code)
  | _ => none

/-- The double nearest to `± digits * 10 ^ exponent`. Exponents far outside the
range of doubles are settled by the number of digits alone. -/
def ofDecimal (negative : Bool) (digits : Nat) (exponent : Int) : Double :=
  if digits = 0 then zero negative
  else
    let magnitude := (Nat.log2 digits : Int) * 3 / 10 + exponent
    if 400 < magnitude then .infinite negative
    else if magnitude < -800 then zero negative
    else round negative (digits * Nat.pow 10 exponent.toNat) (Nat.pow 10 (-exponent).toNat)

end Double

end Unravel
