import Unravel.Json.Basic

/-!
Contract: what values of the wrong sort cannot be used for.

Lists, texts and objects can be gone through: a list gives its items, a text its
characters and an object its names. Whatever counts as false may stand for the
empty list where that is said.
-/

namespace Unravel

inductive SortFault where
  | notIterable (sort : String)
  | notReversible (sort : String)
  | noLength (sort : String)
  | notHashable (sort : String)
  | noAttribute (sort name : String)
  | noFields
deriving DecidableEq, Repr

def SortFault.message : SortFault → String
  | .notIterable sort => "'" ++ sort ++ "' object is not iterable"
  | .notReversible sort => "'" ++ sort ++ "' object is not reversible"
  | .noLength sort => "object of type '" ++ sort ++ "' has no len()"
  | .notHashable sort => "unhashable type: '" ++ sort ++ "'"
  | .noAttribute sort name => "'" ++ sort ++ "' object has no attribute '" ++ name ++ "'"
  | .noFields => "vars() argument must have __dict__ attribute"

namespace Text

def singletons (text : String) : List String :=
  text.toList.map fun char => String.ofList [char]

end Text

namespace Json

def iterate : Json → Except SortFault (List Json)
  | .list items => .ok items
  | .text value => .ok ((Text.singletons value).map .text)
  | .object members => .ok ((Members.names members).map .text)
  | other => .error (.notIterable other.sortName)

/-- What going through a value gives; whatever counts as false gives nothing. -/
def iterateAny (json : Json) : Except SortFault (List Json) :=
  if json.truthy then json.iterate else .ok []

end Json

end Unravel
