import Unravel.Number.Numeral

/-!
Contract: JSON values with ordered members.

Objects keep the order in which their members were first written, and a name
occurs once: writing it again changes its value in place. Integers and doubles
are kept apart.
-/

namespace Unravel

inductive Json where
  | null
  | bool (value : Bool)
  | number (value : Numeral)
  | text (value : String)
  | list (items : List Json)
  | object (members : List (String × Json))
deriving Inhabited, Repr

/-- Ordered members: values found by name, in order of first writing. -/
abbrev Members (α : Type) := List (String × α)

namespace Members

variable {α : Type}

def get? (members : Members α) (name : String) : Option α :=
  match members with
  | [] => none
  | (key, value) :: rest => if key = name then some value else get? rest name

/-- Writes a value under a name, in the place the name already has. -/
def put (members : Members α) (name : String) (value : α) : Members α :=
  match members with
  | [] => [(name, value)]
  | (key, old) :: rest =>
    if key = name then (key, value) :: rest else (key, old) :: put rest name value

def erase (members : Members α) (name : String) : Members α :=
  members.filter fun member => member.1 != name

def names (members : Members α) : List String :=
  members.map Prod.fst

def ofList (pairs : List (String × α)) : Members α :=
  pairs.foldl (fun members pair => put members pair.1 pair.2) []

end Members

namespace Json

def ofNat (value : Nat) : Json :=
  .number (.integer value)

def ofInt (value : Int) : Json :=
  .number (.integer value)

def ofDouble (value : Double) : Json :=
  .number (.double value)

/-- A member of an object; null when there is none. -/
def get (json : Json) (name : String) : Json :=
  match json with
  | .object members => (Members.get? members name).getD .null
  | _ => .null

def has (json : Json) (name : String) : Bool :=
  match json with
  | .object members => (Members.get? members name).isSome
  | _ => false

def text? : Json → Option String
  | .text value => some value
  | _ => none

def integer? : Json → Option Int
  | .number (.integer value) => some value
  | _ => none

def items : Json → List Json
  | .list items => items
  | _ => []

def members : Json → Members Json
  | .object members => members
  | _ => []

def isNull : Json → Bool
  | .null => true
  | _ => false

/-- Null, false, zeros and empty texts and containers count as false. -/
def truthy : Json → Bool
  | .null => false
  | .bool value => value
  | .number value => !value.isZero
  | .text value => value != ""
  | .list items => !items.isEmpty
  | .object members => !members.isEmpty

def sortName : Json → String
  | .null => "NoneType"
  | .bool _ => "bool"
  | .number (.integer _) => "int"
  | .number (.double _) => "float"
  | .text _ => "str"
  | .list _ => "list"
  | .object _ => "dict"

end Json

end Unravel
