import Unravel.Text.Blank
import Unravel.Text.Quoted

/-!
Contract: reading an integer from a text.

White space around the numeral, a sign, decimal digits of any script and single
underscores between digits are accepted; anything else is refused, and so are
more digits than `digitLimit`. The information separators of ASCII do not count
as white space here.
-/

namespace Unravel.Text

/-- The characters for zero whose nine successors are the other digits of a
script. -/
def digitZeros : List Nat :=
  [0x30, 0x660, 0x6F0, 0x7C0, 0x966, 0x9E6, 0xA66, 0xAE6, 0xB66, 0xBE6, 0xC66, 0xCE6, 0xD66,
    0xDE6, 0xE50, 0xED0, 0xF20, 0x1040, 0x1090, 0x17E0, 0x1810, 0x1946, 0x19D0, 0x1A80, 0x1A90,
    0x1B50, 0x1BB0, 0x1C40, 0x1C50, 0xA620, 0xA8D0, 0xA900, 0xA9D0, 0xA9F0, 0xAA50, 0xABF0,
    0xFF10, 0x104A0, 0x10D30, 0x11066, 0x110F0, 0x11136, 0x111D0, 0x112F0, 0x11450, 0x114D0,
    0x11650, 0x116C0, 0x11730, 0x118E0, 0x11950, 0x11C50, 0x11D50, 0x11DA0, 0x16A60, 0x16AC0,
    0x16B50, 0x1D7CE, 0x1D7D8, 0x1D7E2, 0x1D7EC, 0x1D7F6, 0x1E140, 0x1E2F0, 0x1E950, 0x1FBF0]

def digitValue? (char : Char) : Option Nat :=
  (digitZeros.find? fun start => start ≤ char.toNat && char.toNat < start + 10).map
    (char.toNat - ·)

inductive IntegerFault where
  | invalid (text : String)
  | tooLong (digits : Nat)
deriving DecidableEq, Repr

/-- Integers are read from at most this many digits. -/
def digitLimit : Nat := 4300

def IntegerFault.message : IntegerFault → String
  | .invalid text =>
    "invalid literal for int() with base 10: " ++ String.ofList ((quoted text).toList.take 200)
  | .tooLong digits =>
    "Exceeds the limit (" ++ toString digitLimit ++
      " digits) for integer string conversion: value has " ++ toString digits ++
      " digits; use sys.set_int_max_str_digits() to increase the limit"

/-- White space that may stand around a numeral. -/
def isMargin (char : Char) : Bool :=
  isBlank char && !(0x1C ≤ char.toNat && char.toNat ≤ 0x1F)

/-- Whether underscores stand alone and between digits only. The flag says that
an underscore may come next. -/
def isGrouped : Bool → List Char → Bool
  | afterDigit, [] => afterDigit
  | afterDigit, char :: rest =>
    if char = '_' then afterDigit && isGrouped false rest else isGrouped true rest

def digitsOf (chars : List Char) : List Nat :=
  chars.filterMap digitValue?

def naturalOf (digits : List Nat) : Nat :=
  digits.foldl (fun value digit => value * 10 + digit) 0

def readSign : List Char → Bool × List Char
  | '-' :: rest => (true, rest)
  | '+' :: rest => (false, rest)
  | chars => (false, chars)

def readInteger (text : String) : Except IntegerFault Int :=
  let (negative, chars) := readSign (text.toList.dropWhile isMargin)
  let isDigitOrBar := fun char => char = '_' || (digitValue? char).isSome
  let numeral := chars.takeWhile isDigitOrBar
  let digits := digitsOf numeral
  if !isGrouped false numeral then .error (.invalid text)
  else if digitLimit < digits.length then .error (.tooLong digits.length)
  else if !(chars.dropWhile isDigitOrBar).all isMargin then .error (.invalid text)
  else
    let value : Int := naturalOf digits
    .ok (if negative then -value else value)

end Unravel.Text
