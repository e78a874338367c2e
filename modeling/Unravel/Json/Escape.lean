import Unravel.Text.Quoted

/-!
Contract: JSON string literals.

`Json.literal` writes every character as itself except the quotation mark, the
backslash and the controls below U+0020. `Json.asciiLiteral` also escapes
whatever is not a printable ASCII character, as UTF-16 units.
-/

namespace Unravel.Json

/-- Escapes that have a letter of their own. -/
def shortEscape? (char : Char) : Option Char :=
  if char = '\x22' then some '\x22'
  else if char = '\\' then some '\\'
  else if char = '\n' then some 'n'
  else if char = '\r' then some 'r'
  else if char = '\t' then some 't'
  else if char = '\x0c' then some 'f'
  else if char = '\x08' then some 'b'
  else none

def unitEscape (unit : Nat) : List Char :=
  '\\' :: 'u' :: Text.hex 4 unit

def escapeChar (char : Char) : List Char :=
  match shortEscape? char with
  | some letter => ['\\', letter]
  | none => if char.toNat < 0x20 then unitEscape char.toNat else [char]

def escapeAscii (char : Char) : List Char :=
  match shortEscape? char with
  | some letter => ['\\', letter]
  | none =>
    let code := char.toNat
    if 0x20 ≤ code && code ≤ 0x7E then [char]
    else if code < 0x10000 then unitEscape code
    else
      unitEscape (0xD800 + (code - 0x10000) / 0x400) ++
        unitEscape (0xDC00 + (code - 0x10000) % 0x400)

def literalWith (escape : Char → List Char) (text : String) : String :=
  String.ofList ('\x22' :: text.toList.flatMap escape ++ ['\x22'])

def literal (text : String) : String :=
  literalWith escapeChar text

def asciiLiteral (text : String) : String :=
  literalWith escapeAscii text

end Unravel.Json
