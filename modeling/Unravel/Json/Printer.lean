import Unravel.Json.Basic
import Unravel.Json.Escape
import Unravel.Text.Blank

/-!
Contract: the two texts of a JSON value.

* `indented`: one member or item a line, two spaces a level, ASCII only.
* `display`: the text messages show, with quoted strings inside containers.
-/

namespace Unravel.Json

def enclose (opening closing separator : String) (parts : List String) : String :=
  opening ++ Text.joinWith separator parts ++ closing

/-! ## Indented text -/

def indentedNumber : Numeral → String
  | .double .nan => "NaN"
  | .double (.infinite negative) => if negative then "-Infinity" else "Infinity"
  | value => value.render

def lineBreak (depth : Nat) : String :=
  String.ofList ('\n' :: List.replicate (2 * depth) ' ')

/-- Texts on lines of their own, one level deeper than the brackets. -/
def encloseLines (opening closing : String) (depth : Nat) (parts : List String) : String :=
  if parts.isEmpty then opening ++ closing
  else
    enclose (opening ++ lineBreak (depth + 1)) (lineBreak depth ++ closing)
      ("," ++ lineBreak (depth + 1)) parts

mutual

def indentedAt (depth : Nat) : Json → String
  | .null => "null"
  | .bool value => if value then "true" else "false"
  | .number value => indentedNumber value
  | .text value => asciiLiteral value
  | .list items => encloseLines "[" "]" depth (indentedItems (depth + 1) items)
  | .object members => encloseLines "\x7b" "\x7d" depth (indentedMembers (depth + 1) members)

def indentedItems (depth : Nat) : List Json → List String
  | [] => []
  | item :: rest => indentedAt depth item :: indentedItems depth rest

def indentedMembers (depth : Nat) : List (String × Json) → List String
  | [] => []
  | (name, value) :: rest =>
    (asciiLiteral name ++ ": " ++ indentedAt depth value) :: indentedMembers depth rest

end

def indented (json : Json) : String :=
  indentedAt 0 json

/-! ## Display text -/

mutual

def inspect : Json → String
  | .null => "None"
  | .bool value => if value then "True" else "False"
  | .number value => value.render
  | .text value => Text.quoted value
  | .list items => enclose "[" "]" ", " (inspectItems items)
  | .object members => enclose "\x7b" "\x7d" ", " (inspectMembers members)

def inspectItems : List Json → List String
  | [] => []
  | item :: rest => inspect item :: inspectItems rest

def inspectMembers : List (String × Json) → List String
  | [] => []
  | (name, value) :: rest => (Text.quoted name ++ ": " ++ inspect value) :: inspectMembers rest

end

/-- Display text: a string shows as itself. -/
def display : Json → String
  | .text value => value
  | json => json.inspect

end Unravel.Json
