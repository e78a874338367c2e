/-!
Contract: quoted spellings of a text, as messages show them.

The quote is an apostrophe, or a quotation mark when the text has an apostrophe
and no quotation mark. The backslash, the quote in use and line breaks are
escaped with a backslash, and characters without a visible shape by their
number.
-/

namespace Unravel.Text

/-- Ranges of characters beyond ASCII that have no visible shape: controls,
format characters, spaces and separators, private use. -/
def invisibleRanges : List (Nat × Nat) :=
  [(0x7F, 0xA0), (0xAD, 0xAD), (0x600, 0x605), (0x61C, 0x61C), (0x6DD, 0x6DD),
    (0x70F, 0x70F), (0x890, 0x891), (0x8E2, 0x8E2), (0x1680, 0x1680), (0x180E, 0x180E),
    (0x2000, 0x200F), (0x2028, 0x202F), (0x205F, 0x206F), (0x3000, 0x3000),
    (0xE000, 0xF8FF), (0xFEFF, 0xFEFF), (0xFFF0, 0xFFFB), (0xFFFE, 0xFFFF),
    (0x110BD, 0x110BD), (0x110CD, 0x110CD), (0x13430, 0x1343F), (0x1BCA0, 0x1BCA3),
    (0x1D173, 0x1D17A), (0xE0000, 0xE00FF), (0xE01F0, 0x10FFFF)]

def isVisible (char : Char) : Bool :=
  let code := char.toNat
  0x20 ≤ code && !invisibleRanges.any fun range => range.1 ≤ code && code ≤ range.2

/-- Hexadecimal digits of a number, padded with zeros to a width. -/
def hex (width value : Nat) : List Char :=
  let digits := Nat.toDigits 16 value
  List.replicate (width - digits.length) '0' ++ digits

/-- A character by its number, with as many digits as its range needs. -/
def byNumber (char : Char) : List Char :=
  if char.toNat < 0x100 then '\\' :: 'x' :: hex 2 char.toNat
  else if char.toNat < 0x10000 then '\\' :: 'u' :: hex 4 char.toNat
  else '\\' :: 'U' :: hex 8 char.toNat

def escapeQuoted (quote char : Char) : List Char :=
  if char = '\\' || char = quote then ['\\', char]
  else if char = '\n' then ['\\', 'n']
  else if char = '\r' then ['\\', 'r']
  else if char = '\t' then ['\\', 't']
  else if isVisible char then [char]
  else byNumber char

/-- A text with the characters beyond ASCII by their numbers. -/
def asciiOnly (text : String) : String :=
  String.ofList (text.toList.flatMap fun char =>
    if char.toNat < 0x80 then [char] else byNumber char)

def quoteFor (chars : List Char) : Char :=
  if chars.contains '\x27' && !chars.contains '\x22' then '\x22' else '\x27'

def quoted (text : String) : String :=
  let chars := text.toList
  let quote := quoteFor chars
  String.ofList (quote :: chars.flatMap (escapeQuoted quote) ++ [quote])

end Unravel.Text
