/-!
Contract: white space, and cutting and joining texts.

`isBlank` holds of the characters the Unicode standard treats as white space
and of the four information separators of ASCII.
-/

namespace Unravel.Text

def wideBlanks : List Nat :=
  [0x85, 0xA0, 0x1680, 0x2028, 0x2029, 0x202F, 0x205F, 0x3000]

def isBlank (char : Char) : Bool :=
  let code := char.toNat
  (0x09 ≤ code && code ≤ 0x0D) || (0x1C ≤ code && code ≤ 0x20) ||
    (0x2000 ≤ code && code ≤ 0x200A) || wideBlanks.contains code

def stripChars (chars : List Char) : List Char :=
  ((chars.dropWhile isBlank).reverse.dropWhile isBlank).reverse

def strip (text : String) : String :=
  String.ofList (stripChars text.toList)

/-- Cuts at every occurrence of a separator; one more part than separators. -/
def splitChars (separator : Char) : List Char → List (List Char)
  | [] => [[]]
  | char :: rest =>
    if char = separator then [] :: splitChars separator rest
    else
      match splitChars separator rest with
      | [] => [[char]]
      | part :: parts => (char :: part) :: parts

def split (separator : Char) (text : String) : List String :=
  (splitChars separator text.toList).map String.ofList

def joinWith (separator : String) : List String → String
  | [] => ""
  | first :: rest => rest.foldl (fun text part => text ++ separator ++ part) first

/-- The parts of a comma separated list, stripped, without the blank ones. -/
def splitList (text : String) : List String :=
  ((splitChars ',' text.toList).map stripChars).filterMap fun part =>
    if part.isEmpty then none else some (String.ofList part)

end Unravel.Text
