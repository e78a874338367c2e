import Unravel.Text.Quoted

/-!
Contract: texts as bytes.

Reading refuses bytes that are no text of the encoding, with the first bytes
that are none and what is wrong with them, and writing refuses characters that
the encoding has no bytes for. A text file's line breaks are read as line
feeds, whichever of the three usual forms they have.
-/

namespace Unravel

inductive Encoding where
  | utf8
  | latin1
deriving DecidableEq, Repr

namespace Encoding

def encode (encoding : Encoding) (text : String) : Option ByteArray :=
  match encoding with
  | .utf8 => some text.toUTF8
  | .latin1 =>
    if text.toList.all fun char => char.toNat < 0x100 then
      some ⟨(text.toList.map fun char => UInt8.ofNat char.toNat).toArray⟩
    else none

end Encoding

/-! ## Bytes that are no text -/

inductive DecodeProblem where
  | invalidStart
  | invalidContinuation
  | unexpectedEnd
deriving DecidableEq, Repr

def DecodeProblem.message : DecodeProblem → String
  | .invalidStart => "invalid start byte"
  | .invalidContinuation => "invalid continuation byte"
  | .unexpectedEnd => "unexpected end of data"

/-- A run of bytes that belongs to no character: its first byte, where it
starts and how long it is. -/
structure DecodeFault where
  problem : DecodeProblem
  byte : UInt8
  start : Nat
  length : Nat
deriving DecidableEq, Repr

def DecodeFault.message (fault : DecodeFault) : String :=
  "'utf-8' codec can't decode " ++
    (if fault.length = 1 then
      "byte 0x" ++ String.ofList (Text.hex 2 fault.byte.toNat) ++ " in position " ++
        toString fault.start
    else
      "bytes in position " ++ toString fault.start ++ "-" ++
        toString (fault.start + fault.length - 1)) ++
    ": " ++ fault.problem.message

namespace Encoding

/-- The bounds of the bytes that may follow a leading byte, in order; none when
no character opens with it. The first bound keeps out longer spellings of
shorter characters, surrogates, and numbers beyond the last character. -/
def continuations (lead : Nat) : Option (List (Nat × Nat)) :=
  let any := (0x80, 0xBF)
  if lead < 0x80 then some []
  else if lead < 0xC2 then none
  else if lead < 0xE0 then some [any]
  else if lead = 0xE0 then some [(0xA0, 0xBF), any]
  else if lead = 0xED then some [(0x80, 0x9F), any]
  else if lead < 0xF0 then some [any, any]
  else if lead = 0xF0 then some [(0x90, 0xBF), any, any]
  else if lead < 0xF4 then some [any, any, any]
  else if lead = 0xF4 then some [(0x80, 0x8F), any, any]
  else none

/-- What is wrong with the bytes after a leading one, and how many bytes were
in order up to there. -/
def checkContinuations : Nat → List (Nat × Nat) → List UInt8 → Option (DecodeProblem × Nat)
  | _, [], _ => none
  | read, _ :: _, [] => some (.unexpectedEnd, read)
  | read, bound :: bounds, byte :: rest =>
    if bound.1 ≤ byte.toNat && byte.toNat ≤ bound.2 then
      checkContinuations (read + 1) bounds rest
    else some (.invalidContinuation, read)

/-- The first run of bytes that belongs to no character, from a position on.
`skipped` bytes belong to the character before. -/
def findFault : Nat → Nat → List UInt8 → Option DecodeFault
  | _, _, [] => none
  | position, skipped + 1, _ :: rest => findFault (position + 1) skipped rest
  | position, 0, byte :: rest =>
    match continuations byte.toNat with
    | none => some ⟨.invalidStart, byte, position, 1⟩
    | some bounds =>
      match checkContinuations 1 bounds rest with
      | some (problem, length) => some ⟨problem, byte, position, length⟩
      | none => findFault (position + 1) bounds.length rest

def decode (encoding : Encoding) (bytes : ByteArray) : Except DecodeFault String :=
  match encoding with
  | .utf8 =>
    match String.fromUTF8? bytes with
    | some text => .ok text
    | none =>
      .error ((findFault 0 0 bytes.data.toList).getD ⟨.unexpectedEnd, 0, bytes.size, 0⟩)
  | .latin1 => .ok (String.ofList (bytes.data.toList.map fun byte => Char.ofNat byte.toNat))

end Encoding

namespace Text

def unifyBreaks : List Char → List Char
  | '\r' :: '\n' :: rest => '\n' :: unifyBreaks rest
  | '\r' :: rest => '\n' :: unifyBreaks rest
  | char :: rest => char :: unifyBreaks rest
  | [] => []

end Text

end Unravel
