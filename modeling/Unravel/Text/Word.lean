/-!
Contract: the spellings of names and numerals that the passes test for.

Owns: the identifier test and the test for numerals written in a base other
than ten. Both tests look at whole texts and let one final line break pass.
-/

namespace Unravel.Text

def isWordStart (char : Char) : Bool :=
  char.isAlpha || char = '_' || char = '$'

def isWordRest (char : Char) : Bool :=
  isWordStart char || char.isDigit

/-- Membership in the grammar of plain identifiers, for a whole text. -/
def isWord : List Char → Bool
  | [] => false
  | first :: rest => isWordStart first && rest.all isWordRest

def dropFinalBreak (chars : List Char) : List Char :=
  if chars.getLast? = some '\n' then chars.dropLast else chars

/-- The test a new name has to pass. -/
def isIdentifier (text : String) : Bool :=
  isWord (dropFinalBreak text.toList)

def isOctalDigit (char : Char) : Bool :=
  '0' ≤ char && char ≤ '7'

/-- Numerals that open with a base mark, or are a zero and octal digits. -/
def isNonDecimal (text : String) : Bool :=
  match text.toList with
  | '0' :: rest =>
    (match rest with
      | mark :: _ => ['x', 'X', 'o', 'O', 'b', 'B'].contains mark
      | [] => false) ||
      (match dropFinalBreak rest with
        | [] => false
        | digits => digits.all isOctalDigit)
  | _ => false

end Unravel.Text
