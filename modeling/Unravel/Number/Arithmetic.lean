import Unravel.Number.Rounding

/-!
Contract: the operators on doubles.

`add`, `subtract` and `multiply` are defined everywhere. `divide`, `remainder`
and `power` refuse operands for which an exact-result function has no answer
and name the reason. `answerQuotient`, `answerModulus` and `answerPower` have
the answers a script would see for the refusals that can come up; a refusal
without an answer would stay one.

Finite results are the exact result rounded once. `power` on finite operands
is the platform's power function, about which nothing is assumed.
-/

namespace Unravel

/-- Why an exact-result operator has no answer. -/
inductive ArithmeticFault where
  | zeroDivision
  | domain
  | overflow
deriving DecidableEq, Repr

namespace Double

/-- The double nearest to `± magnitude * 2 ^ exponent`. -/
def roundScaled (negative : Bool) (magnitude : Nat) (exponent : Int) : Double :=
  round negative (magnitude * Nat.pow 2 exponent.toNat) (Nat.pow 2 (-exponent).toNat)

/-- Signed significand of a code, counted in units of `2 ^ unit` for a unit no
coarser than the code's own. -/
def units (negative : Bool) (code : Nat) (unit : Int) : Int :=
  let magnitude : Int := (significand code * Nat.pow 2 (scale code - unit).toNat : Nat)
  if negative then -magnitude else magnitude

/-- Exact sums that vanish are positive zero unless both operands are negative. -/
def add : Double → Double → Double
  | .nan, _ => .nan
  | _, .nan => .nan
  | .infinite left, .infinite right => if left = right then .infinite left else .nan
  | .infinite left, _ => .infinite left
  | _, .infinite right => .infinite right
  | .finite leftSign left, .finite rightSign right =>
    let unit := min (scale left) (scale right)
    let total := units leftSign left unit + units rightSign right unit
    if total = 0 then zero (leftSign && rightSign)
    else roundScaled (total < 0) total.natAbs unit

def subtract (left right : Double) : Double :=
  left.add right.negate

def multiply : Double → Double → Double
  | .nan, _ => .nan
  | _, .nan => .nan
  | .infinite left, .infinite right => .infinite (left != right)
  | .infinite left, .finite right code =>
    if code.val = 0 then .nan else .infinite (left != right)
  | .finite left code, .infinite right =>
    if code.val = 0 then .nan else .infinite (left != right)
  | .finite left leftCode, .finite right rightCode =>
    roundScaled (left != right) (significand leftCode * significand rightCode)
      (scale leftCode + scale rightCode)

/-- Division, which refuses a zero divisor whatever the dividend. -/
def divide (left right : Double) : Except ArithmeticFault Double :=
  if right.isZero then .error .zeroDivision
  else
    match left, right with
    | .nan, _ => .ok .nan
    | _, .nan => .ok .nan
    | .infinite _, .infinite _ => .ok .nan
    | .infinite leftSign, .finite rightSign _ => .ok (.infinite (leftSign != rightSign))
    | .finite leftSign _, .infinite rightSign => .ok (zero (leftSign != rightSign))
    | .finite leftSign leftCode, .finite rightSign rightCode =>
      .ok (round (leftSign != rightSign)
        (numerator leftCode * denominator rightCode)
        (denominator leftCode * numerator rightCode))

/-- Remainder of the division truncated towards zero; it has the sign of the
dividend and is exact. -/
def remainder : Double → Double → Except ArithmeticFault Double
  | .nan, _ => .ok .nan
  | _, .nan => .ok .nan
  | .infinite _, _ => .error .domain
  | .finite sign code, .infinite _ => .ok (.finite sign code)
  | .finite leftSign left, .finite _ right =>
    if right.val = 0 then .error .domain
    else
      let unit := min (scale left) (scale right)
      let rest := (units false left unit).natAbs % (units false right unit).natAbs
      .ok (roundScaled leftSign rest unit)

def isOdd (value : Double) : Bool :=
  match value.toInt? with
  | some integer => integer % 2 == 1
  | none => false

private def toFloat (value : Double) : Float :=
  Float.ofBits value.toBits.toUInt64

/-- The platform's power function on the bit patterns. -/
def platformPower (base exponent : Double) : Double :=
  ofBits (Float.pow base.toFloat exponent.toFloat).toBits.toNat

private def one : Double :=
  .finite false ⟨1023 * binade, by decide⟩

/-- Power of a base that is infinite to an exponent that is a number. -/
private def infinitePower (negative : Bool) (exponent : Double) : Double :=
  if exponent.isZero then one
  else if exponent.isNegative then zero (negative && exponent.isOdd)
  else .infinite (negative && exponent.isOdd)

/-- Power of a finite base to an infinite exponent. -/
private def powerOfInfinity (base : Double) (negative : Bool) : Double :=
  if base.abs.same one then one
  else if one.less base.abs = !negative then .infinite false
  else zero false

/-- Exponentiation. On finite operands an answer that is not finite is refused:
it comes from a pole, from a negative base with a fractional exponent, or from
a magnitude out of range. -/
def power (base exponent : Double) : Except ArithmeticFault Double :=
  match base, exponent with
  | .nan, _ => .ok (if exponent.isZero then one else .nan)
  | _, .nan => .ok (if base.same one then one else .nan)
  | .infinite negative, _ => .ok (infinitePower negative exponent)
  | .finite _ _, .infinite negative => .ok (powerOfInfinity base negative)
  | .finite _ _, .finite _ _ =>
    match platformPower base exponent with
    | .nan => .error .domain
    | .infinite _ => .error (if base.isZero then .domain else .overflow)
    | .finite negative code => .ok (.finite negative code)

/-! ## Answers to refusals -/

/-- Division in which a zero divisor gives a signed infinity, or no number when
the dividend is zero or no number itself. -/
def answerQuotient (left right : Double) : Except ArithmeticFault Double :=
  match left.divide right with
  | .error .zeroDivision =>
    .ok (if left.isZero || left.isNaN then .nan
      else .infinite (left.isNegative != right.isNegative))
  | result => result

/-- The remainder, for which operands that would be refused are found before. -/
def answerModulus (left right : Double) : Except ArithmeticFault Double :=
  if right.isZero || left.isNaN || right.isNaN || left.isInfinite then .ok .nan
  else if right.isInfinite then .ok left
  else left.remainder right

/-- Exponentiation in which a unit base to an infinite exponent is no number and
out-of-range answers are infinities signed by the parity of the exponent. -/
def answerPower (base exponent : Double) : Except ArithmeticFault Double :=
  if exponent.isNaN then .ok .nan
  else if exponent.isZero then .ok one
  else if base.abs.same one && exponent.isInfinite then .ok .nan
  else
    match base.power exponent with
    | .error .overflow => .ok (.infinite (base.isNegative && exponent.isOdd))
    | .error .domain =>
      .ok (if base.isZero then .infinite (base.isNegative && exponent.isOdd) else .nan)
    | result => result

/-- The result of an operator that has an answer to its refusals. -/
def settled : Except ArithmeticFault Double → Double
  | .ok value => value
  | .error _ => .nan

end Double

end Unravel
