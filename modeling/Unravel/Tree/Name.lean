import Unravel.Json.Sort
import Unravel.Tree.Value

/-!
Contract: the names of identifiers, and maps by name.

In a well-formed tree names are texts. A tree may also hold identifiers without
a name, or with a name of another sort; those are names as well, unless they
are lists. Truth values count as the numbers one and zero, and numbers are
compared by value, so that one name may be spelled in several ways: `key` is
what the spellings of a name share, and a map keeps the spelling under which a
name was first written.
-/

namespace Unravel

inductive Name where
  | text (value : String)
  | absent
  | flag (value : Bool)
  | number (value : Numeral)
  | object (label : Nat)
deriving DecidableEq, Repr

namespace Name

/-- The spelling that stands for all spellings of a name. -/
def key : Name → Name
  | .flag value => .number (.integer (if value then 1 else 0))
  | .number (.double value) =>
    match value.toInt? with
    | some integer => .number (.integer integer)
    | none => .number (.double value)
  | name => name

/-- Whether two spellings are of one name. -/
def same (left right : Name) : Bool :=
  left.key == right.key

@[simp] theorem key_text (value : String) : key (.text value) = .text value := rfl

theorem same_text_iff {left right : String} :
    same (.text left) (.text right) = true ↔ left = right := by
  simp [same]

theorem same_iff {left right : Name} : left.same right = true ↔ left.key = right.key := by
  simp [same]

@[simp] theorem same_self (name : Name) : name.same name = true := by
  simp [same]

def isIn (name : Name) (names : List Name) : Bool :=
  names.any name.same

/-- The name that a value is, unless it is a list. -/
def ofValue? : Value → Option Name
  | .null => some .absent
  | .bool value => some (.flag value)
  | .number value => some (.number value)
  | .text value => some (.text value)
  | .list _ => none
  | .record label _ => some (.object label)
  | .node label _ _ => some (.object label)

def ofJson? : Json → Option Name
  | .null => some .absent
  | .bool value => some (.flag value)
  | .number value => some (.number value)
  | .text value => some (.text value)
  | .list _ => none
  | .object _ => none

def display : Name → String
  | .text value => value
  | .absent => "None"
  | .flag value => if value then "True" else "False"
  | .number value => value.render
  | .object _ => "object"

end Name

/-- Values found by name, in order of first writing. -/
abbrev Names (α : Type) := List (Name × α)

namespace Names

variable {α : Type}

def get? (names : Names α) (name : Name) : Option α :=
  match names with
  | [] => none
  | (other, value) :: rest => if other.same name then some value else get? rest name

/-- Writes a value under a name, in the place and the spelling the name already
has. -/
def put (names : Names α) (name : Name) (value : α) : Names α :=
  match names with
  | [] => [(name, value)]
  | (other, old) :: rest =>
    if other.same name then (other, value) :: rest else (other, old) :: put rest name value

theorem get?_put (names : Names α) (name other : Name) (value : α) :
    get? (put names name value) other =
      if name.same other then some value else get? names other := by
  induction names with
  | nil => rfl
  | cons head rest ih =>
    obtain ⟨spelling, old⟩ := head
    by_cases written : spelling.same name = true
    · have one : spelling.same other = name.same other := by
        simp only [Name.same, Name.same_iff.1 written]
      by_cases found : name.same other = true <;>
        simp [put, get?, written, one, found]
    · by_cases first : spelling.same other = true
      · have differs : name.same other = false := by
          rw [Bool.eq_false_iff]
          exact fun same =>
            written (Name.same_iff.2 ((Name.same_iff.1 first).trans (Name.same_iff.1 same).symm))
        simp [put, get?, written, first, differs]
      · simp [put, get?, written, first, ih]

def erase (names : Names α) (name : Name) : Names α :=
  names.filter fun entry => !entry.1.same name

def keys (names : Names α) : List Name :=
  names.map Prod.fst

def ofList (pairs : List (Name × α)) : Names α :=
  pairs.foldl (fun names pair => put names pair.1 pair.2) []

end Names

namespace Value

/-- What the name attribute of a value holds, unless it is a list. -/
def name? (value : Value) : Option Name :=
  Name.ofValue? (value.attr "name")

mutual

/-- Whether two values are one: lists by their items, all others as names. -/
def same : Value → Value → Bool
  | .list left, .list right => sameAll left right
  | left, right =>
    match Name.ofValue? left, Name.ofValue? right with
    | some left, some right => left.same right
    | _, _ => false

def sameAll : List Value → List Value → Bool
  | [], [] => true
  | left :: lefts, right :: rights => same left right && sameAll lefts rights
  | _, _ => false

end

end Value

end Unravel
