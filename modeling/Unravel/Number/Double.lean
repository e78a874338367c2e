/-!
Contract: binary64 numbers as data.

A finite double is its sign and its *code*, the bit pattern below the sign bit
read as a natural number. Codes are dense and ordered like the magnitudes they
stand for, so rounding is rounding to a code, and a carry into the next binade
needs no case of its own. The magnitude of a code is
`significand code * 2 ^ scale code`.

Owns: the type, its classification, order and bit pattern.
Does not own: rounding (`Number.Rounding`) and the operators
(`Number.Arithmetic`).
-/

namespace Unravel

namespace Double

/-- Number of codes of one binade. -/
abbrev binade : Nat := Nat.pow 2 52

/-- Number of finite codes; the code after the last one would be infinity. -/
abbrev codes : Nat := 2047 * binade

end Double

inductive Double where
  | nan
  | infinite (negative : Bool)
  | finite (negative : Bool) (code : Fin Double.codes)
deriving DecidableEq, Repr

namespace Double

/-- Integer part of a code's magnitude before scaling: codes of the lowest
binade are subnormal and have no implicit leading bit. -/
def significand (code : Nat) : Nat :=
  if code < binade then code else binade + code % binade

/-- Power of two that a code's significand is scaled by. -/
def scale (code : Nat) : Int :=
  (max (code / binade) 1 : Nat) - 1075

/-- Numerator of a code's magnitude as a fraction. -/
def numerator (code : Nat) : Nat :=
  significand code * Nat.pow 2 (scale code).toNat

/-- Denominator of a code's magnitude as a fraction, a power of two. -/
def denominator (code : Nat) : Nat :=
  Nat.pow 2 (-scale code).toNat

def zero (negative : Bool) : Double :=
  .finite negative ⟨0, by decide⟩

instance : Inhabited Double :=
  ⟨zero false⟩

/-- The double of a sign and a code; codes past the last finite one overflow. -/
def ofCode (negative : Bool) (code : Nat) : Double :=
  if inRange : code < codes then .finite negative ⟨code, inRange⟩ else .infinite negative

/-! ## Classification -/

def isNaN : Double → Bool
  | .nan => true
  | _ => false

def isInfinite : Double → Bool
  | .infinite _ => true
  | _ => false

def isZero : Double → Bool
  | .finite _ code => code.val == 0
  | _ => false

/-- Whether the sign bit is set; a NaN carries no sign here. -/
def isNegative : Double → Bool
  | .nan => false
  | .infinite negative => negative
  | .finite negative _ => negative

def negate : Double → Double
  | .nan => .nan
  | .infinite negative => .infinite (!negative)
  | .finite negative code => .finite (!negative) code

def abs : Double → Double
  | .nan => .nan
  | .infinite _ => .infinite false
  | .finite _ code => .finite false code

/-- The integer a double stands for, when it stands for one. -/
def toInt? : Double → Option Int
  | .finite negative code =>
    if numerator code % denominator code = 0 then
      let magnitude : Int := (numerator code / denominator code : Nat)
      some (if negative then -magnitude else magnitude)
    else none
  | _ => none

def isInteger (value : Double) : Bool :=
  value.toInt?.isSome

/-- The integer between a finite double and zero that is nearest to it. -/
def truncate? : Double → Option Int
  | .finite negative code =>
    let magnitude : Int := (numerator code / denominator code : Nat)
    some (if negative then -magnitude else magnitude)
  | _ => none

/-! ## Order -/

/-- Position of a double on the ordered line of codes; both zeros sit at zero. -/
def rank : Double → Int
  | .nan => 0
  | .infinite negative => if negative then -(codes : Int) else codes
  | .finite negative code => if negative then -(code.val : Int) else code.val

/-- Numeric equality: the zeros agree and a NaN equals nothing. -/
def same (left right : Double) : Bool :=
  !left.isNaN && !right.isNaN && left.rank == right.rank

def less (left right : Double) : Bool :=
  !left.isNaN && !right.isNaN && left.rank < right.rank

/-! ## Bit pattern -/

private def signBit (negative : Bool) : Nat :=
  if negative then Nat.pow 2 63 else 0

def toBits : Double → Nat
  | .nan => codes + binade / 2
  | .infinite negative => signBit negative + codes
  | .finite negative code => signBit negative + code.val

def ofBits (bits : Nat) : Double :=
  let negative := decide (Nat.pow 2 63 ≤ bits % Nat.pow 2 64)
  let code := bits % Nat.pow 2 63
  if codes < code then .nan else ofCode negative code

end Double

end Unravel
