import Unravel.Pass.Plugin

/-!
Contract: how the strings of a table are stored.

A table may be kept with its letters shifted by thirteen places, and the table
of one name is kept rotated. Both are undone when the table is collected.
-/

namespace Unravel.Pass.Strings

/-- Moves the first `count` elements to the end, as often as the list is long;
negative counts move elements to the front. -/
def rotateLeft {α : Type} (values : List α) (count : Int) : List α :=
  let shift := (count % values.length).toNat
  values.drop shift ++ values.take shift

/-- A letter thirteen places further in its alphabet. -/
def rotateLetter (char : Char) : Char :=
  let shifted := fun (first : Char) =>
    Char.ofNat (first.toNat + (char.toNat - first.toNat + 13) % 26)
  if char.isLower then shifted 'a' else if char.isUpper then shifted 'A' else char

def rot13 (text : String) : String :=
  String.ofList (text.toList.map rotateLetter)

/-- The table that is kept rotated, unless the options name another. -/
def rotatedName : String := "r"

/-- By how many places it is, unless the options say otherwise. -/
def rotation : Int := 0xDD

def integerOf : Json → Except Fault Int
  | .number (.integer value) => .ok value
  | .number (.double value) =>
    match value.truncate? with
    | some integer => .ok integer
    | none => .error (.noIntegerPart value.isInfinite)
  | .bool value => .ok (if value then 1 else 0)
  | .text value =>
    match Text.readInteger value with
    | .ok integer => .ok integer
    | .error fault => .error (.integer fault)
  | other => .error (.notIntegral other.sortName)

/-- The stored strings of a table as the program reads them. -/
def restore (options : Options) (name : Name) (values : List String) :
    Except Fault (List String) :=
  let values :=
    if ((Members.get? options "rot13_strings").getD .null).truthy then values.map rot13 else values
  let rotated := (Members.get? options "rotated_array_name").getD (.text rotatedName)
  if (Name.ofJson? rotated).any name.same then do
    let count ← integerOf ((Members.get? options "array_rotation").getD (.ofInt rotation))
    return rotateLeft values count
  else .ok values

/-- The strings of an array expression, when it holds nothing else. -/
def arrayStrings? (node : Value) : Option (List String) :=
  (node.attr "elements").elements.mapM Value.string?

end Unravel.Pass.Strings
