import Unravel.Json.Printer
import Unravel.Text.Integer
import Unravel.Text.Location

/-!
Contract: reading JSON.

Standard JSON, and the words NaN, Infinity and -Infinity as doubles. Numbers
without a fraction or exponent are integers, of as many digits as texts may
have; the others are the nearest double. A member name written twice keeps its
first place and its last value. A text that is not one value with white space
around it is refused, with what is wrong with it and where.

The readers work on lists of characters and return the rest. The mutually
recursive ones spend one unit of fuel a call; `read` supplies more than any
text of its length can use.
-/

namespace Unravel.Json

inductive Problem where
  | expectedValue
  | expectedName
  | expectedColon
  | expectedComma
  | openString
  | controlCharacter
  | unknownEscape
  | numberedEscape
  | extraText
  | byteOrderMark
deriving DecidableEq, Repr

def Problem.message : Problem → String
  | .expectedValue => "Expecting value"
  | .expectedName => "Expecting property name enclosed in double quotes"
  | .expectedColon => "Expecting ':' delimiter"
  | .expectedComma => "Expecting ',' delimiter"
  | .openString => "Unterminated string starting at"
  | .controlCharacter => "Invalid control character at"
  | .unknownEscape => "Invalid \\escape"
  | .numberedEscape => "Invalid \\uXXXX escape"
  | .extraText => "Extra data"
  | .byteOrderMark => "Unexpected UTF-8 BOM (decode using utf-8-sig)"

inductive ReadFault where
  | malformed (problem : Problem) (location : Text.Location)
  | integer (fault : Text.IntegerFault)
deriving DecidableEq, Repr

def ReadFault.message : ReadFault → String
  | .malformed problem location => problem.message ++ ": " ++ location.describe
  | .integer fault => fault.message

/-- Where a reader stops: what it found, and the text from there on. -/
inductive Stop where
  | malformed (problem : Problem) (rest : List Char)
  | integer (fault : Text.IntegerFault)

def isSpace (char : Char) : Bool :=
  char = ' ' || char = '\t' || char = '\n' || char = '\r'

def skipSpace (chars : List Char) : List Char :=
  chars.dropWhile isSpace

/-! ## Strings -/

def hexValue? (char : Char) : Option Nat :=
  let code := char.toNat
  if '0' ≤ char && char ≤ '9' then some (code - 48)
  else if 'a' ≤ char && char ≤ 'f' then some (code - 87)
  else if 'A' ≤ char && char ≤ 'F' then some (code - 55)
  else none

/-- Four hexadecimal digits, with at least one character behind them. -/
def readUnit : List Char → Option (Nat × List Char)
  | a :: b :: c :: d :: next :: rest => do
      let a ← hexValue? a
      let b ← hexValue? b
      let c ← hexValue? c
      let d ← hexValue? d
      return (((a * 16 + b) * 16 + c) * 16 + d, next :: rest)
  | _ => none

/-- The character of an escape with a letter of its own. -/
def shortEscapeValue? (letter : Char) : Option Char :=
  if letter = '\x22' then some '\x22'
  else if letter = '\\' then some '\\'
  else if letter = '/' then some '/'
  else if letter = 'b' then some '\x08'
  else if letter = 'f' then some '\x0c'
  else if letter = 'n' then some '\n'
  else if letter = 'r' then some '\r'
  else if letter = 't' then some '\t'
  else none

/-- The character of a numbered escape from its letter on: one unit, or a
surrogate pair. -/
def readNumbered (chars : List Char) : Except Stop (Char × List Char) :=
  match readUnit (chars.drop 1) with
  | none => .error (.malformed .numberedEscape chars)
  | some (unit, rest) =>
    if 0xD800 ≤ unit && unit < 0xDC00 then
      match rest with
      | '\\' :: 'u' :: after =>
        match readUnit after with
        | some (low, after) =>
          if 0xDC00 ≤ low && low < 0xE000 then
            .ok (Char.ofNat (0x10000 + (unit - 0xD800) * 0x400 + (low - 0xDC00)), after)
          else .ok (Char.ofNat unit, rest)
        | none => .error (.malformed .numberedEscape ('u' :: after))
      | _ => .ok (Char.ofNat unit, rest)
    else .ok (Char.ofNat unit, rest)

/-- The rest of a string after its opening quotation mark. `whole` is the text
from that mark on. -/
def readString (whole : List Char) :
    Nat → List Char → List Char → Except Stop (String × List Char)
  | 0, _, _ => .error (.malformed .openString whole)
  | _, _, [] => .error (.malformed .openString whole)
  | fuel + 1, read, char :: rest =>
    if char = '\x22' then .ok (String.ofList read.reverse, rest)
    else if char = '\\' then
      match rest with
      | 'u' :: _ => do
          let (value, after) ← readNumbered rest
          readString whole fuel (value :: read) after
      | letter :: after =>
        match shortEscapeValue? letter with
        | some value => readString whole fuel (value :: read) after
        | none => .error (.malformed .unknownEscape (char :: rest))
      | [] => .error (.malformed .openString whole)
    else if char.toNat < 0x20 then .error (.malformed .controlCharacter (char :: rest))
    else readString whole fuel (char :: read) rest

def readQuoted (chars : List Char) : Except Stop (String × List Char) :=
  readString chars (chars.length + 1) [] (chars.drop 1)

/-! ## Numbers -/

def digitsValue (digits : List Char) : Nat :=
  digits.foldl (fun value char => value * 10 + (char.toNat - 48)) 0

/-- The digits after a decimal point, when there is a point and a digit. -/
def readFraction : List Char → List Char × List Char
  | '.' :: rest =>
    match rest.takeWhile Char.isDigit with
    | [] => ([], '.' :: rest)
    | digits => (digits, rest.dropWhile Char.isDigit)
  | chars => ([], chars)

/-- An exponent, when its mark is followed by digits. -/
def readExponent (chars : List Char) : Option Int × List Char :=
  match chars with
  | mark :: rest =>
    if mark = 'e' || mark = 'E' then
      let (negative, unsigned) := Text.readSign rest
      match unsigned.takeWhile Char.isDigit with
      | [] => (none, chars)
      | digits =>
        let value : Int := digitsValue digits
        (some (if negative then -value else value), unsigned.dropWhile Char.isDigit)
    else (none, chars)
  | [] => (none, [])

/-- Digits before the point: a single zero, or digits that do not open with one. -/
def readWhole (chars : List Char) : Option (List Char × List Char) :=
  match chars with
  | '0' :: rest => some (['0'], rest)
  | _ =>
    match chars.takeWhile Char.isDigit with
    | [] => none
    | digits => some (digits, chars.dropWhile Char.isDigit)

def readNumber (chars : List Char) : Except Stop (Numeral × List Char) :=
  let (negative, unsigned) : Bool × List Char :=
    match chars with
    | '-' :: rest => (true, rest)
    | _ => (false, chars)
  match readWhole unsigned with
  | none => .error (.malformed .expectedValue chars)
  | some (whole, rest) =>
    let (fraction, rest) := readFraction rest
    let (exponent, rest) := readExponent rest
    if fraction.isEmpty && exponent.isNone then
      if Text.digitLimit < whole.length then .error (.integer (.tooLong whole.length))
      else
        let value : Int := digitsValue whole
        .ok (.integer (if negative then -value else value), rest)
    else
      .ok (.double (Double.ofDecimal negative (digitsValue (whole ++ fraction))
        (exponent.getD 0 - fraction.length)), rest)

def readWord : List Char → List Char → Option (List Char)
  | [], rest => some rest
  | _ :: _, [] => none
  | expected :: word, char :: rest => if char = expected then readWord word rest else none

def words : List (String × Json) :=
  [("null", .null), ("true", .bool true), ("false", .bool false),
    ("NaN", ofDouble .nan), ("Infinity", ofDouble (.infinite false)),
    ("-Infinity", ofDouble (.infinite true))]

def readWords (chars : List Char) : List (String × Json) → Option (Json × List Char)
  | [] => none
  | (word, value) :: others =>
    match readWord word.toList chars with
    | some rest => some (value, rest)
    | none => readWords chars others

def readScalar (chars : List Char) : Except Stop (Json × List Char) :=
  match readWords chars words with
  | some found => .ok found
  | none => (readNumber chars).map fun found => (.number found.1, found.2)

/-! ## Values -/

mutual

def readValue : Nat → List Char → Except Stop (Json × List Char)
  | 0, chars => .error (.malformed .expectedValue chars)
  | fuel + 1, chars =>
    match chars with
    | '\x22' :: _ => (readQuoted chars).map fun found => (.text found.1, found.2)
    | '[' :: rest =>
      match skipSpace rest with
      | ']' :: after => .ok (.list [], after)
      | first => readItems fuel [] first
    | '\x7b' :: rest =>
      match skipSpace rest with
      | '\x7d' :: after => .ok (.object [], after)
      | first => readMembers fuel [] first
    | _ => readScalar chars

/-- Items of a list, from the start of one of them. -/
def readItems : Nat → List Json → List Char → Except Stop (Json × List Char)
  | 0, _, chars => .error (.malformed .expectedValue chars)
  | fuel + 1, read, chars =>
    match readValue fuel chars with
    | .error stop => .error stop
    | .ok (item, rest) =>
      match skipSpace rest with
      | ',' :: after => readItems fuel (item :: read) (skipSpace after)
      | ']' :: after => .ok (.list (item :: read).reverse, after)
      | other => .error (.malformed .expectedComma other)

/-- Members of an object, from the start of a name. -/
def readMembers : Nat → Members Json → List Char → Except Stop (Json × List Char)
  | 0, _, chars => .error (.malformed .expectedName chars)
  | fuel + 1, read, chars =>
    match chars with
    | '\x22' :: _ =>
      match readQuoted chars with
      | .error stop => .error stop
      | .ok (name, rest) =>
        match skipSpace rest with
        | ':' :: after =>
          match readValue fuel (skipSpace after) with
          | .error stop => .error stop
          | .ok (value, rest) =>
            let read := Members.put read name value
            match skipSpace rest with
            | ',' :: after => readMembers fuel read (skipSpace after)
            | '\x7d' :: after => .ok (.object read, after)
            | other => .error (.malformed .expectedComma other)
        | other => .error (.malformed .expectedColon other)
    | _ => .error (.malformed .expectedName chars)

end

/-- The value that characters hold, from the first to the last. -/
def readAll (chars : List Char) : Except Stop Json :=
  if chars.head? = some '\uFEFF' then .error (.malformed .byteOrderMark chars)
  else do
    let (value, rest) ← readValue (2 * chars.length + 2) (skipSpace chars)
    match skipSpace rest with
    | [] => return value
    | extra => .error (.malformed .extraText extra)

def read (text : String) : Except ReadFault Json :=
  let chars := text.toList
  match readAll chars with
  | .ok value => .ok value
  | .error (.malformed problem rest) =>
    .error (.malformed problem (.ofOffset chars (chars.length - rest.length)))
  | .error (.integer fault) => .error (.integer fault)

end Unravel.Json
