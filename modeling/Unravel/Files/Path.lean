import Unravel.Text.Blank
import Unravel.Text.Quoted

/-!
Contract: paths of files as text, and the places they may lead to.

A path is the slashes it opens with and the names after them; empty names and
single dots are dropped. Two opening slashes are kept apart from one, more than
two count as one. The stem of a name ends before its last dot, unless that dot
is its first or last character.
-/

namespace Unravel

structure Path where
  root : String
  parts : List String
deriving DecidableEq, Repr

inductive PathFault where
  | emptyName (path : Path)
  | invalidName (name : String)
deriving DecidableEq, Repr

namespace Path

def rootOf : List Char → String
  | '/' :: '/' :: '/' :: _ => "/"
  | '/' :: '/' :: _ => "//"
  | '/' :: _ => "/"
  | _ => ""

def isPart (part : List Char) : Bool :=
  !part.isEmpty && part != ['.']

def ofText (text : String) : Path :=
  ⟨rootOf text.toList, ((Text.splitChars '/' text.toList).filter isPart).map String.ofList⟩

def toText (path : Path) : String :=
  if path.root = "" && path.parts.isEmpty then "."
  else path.root ++ Text.joinWith "/" path.parts

/-- The last name; empty when there is none. -/
def name (path : Path) : String :=
  path.parts.getLast?.getD ""

def parent (path : Path) : Path :=
  ⟨path.root, path.parts.dropLast⟩

/-- A name without the extension that it ends in. -/
def stemOf (name : List Char) : List Char :=
  let extension := name.reverse.takeWhile (· != '.')
  let stem := (name.reverse.drop (extension.length + 1)).reverse
  if extension.isEmpty || stem.isEmpty then name else stem

def stem (path : Path) : String :=
  String.ofList (stemOf path.name.toList)

/-- Whether a text can stand as the last name of a path. -/
def isName (name : String) : Bool :=
  let path := ofText name
  name.toList.getLast? != some '/' && path.root = "" && path.parts.length == 1

/-- The neighbour of a path that has a given name. -/
def withName (path : Path) (name : String) : Except PathFault Path :=
  if path.name = "" then .error (.emptyName path)
  else if isName name then .ok ⟨path.root, path.parts.dropLast ++ [name]⟩
  else .error (.invalidName name)

end Path

def PathFault.message : PathFault → String
  | .emptyName path => "PosixPath(" ++ Text.quoted path.toText ++ ") has an empty name"
  | .invalidName name => "Invalid name " ++ Text.quoted name

def outputSuffix : String := "_deob.js"

/-- The path next to an input for what is made of it. -/
def outputPath (input suffix : String) : Except PathFault String :=
  let path := Path.ofText input
  (path.withName (path.stem ++ suffix)).map Path.toText

/-! ## Places -/

/-- Names from the working directory down. A slash stands first for the file
system's root, and double dots for directories above the working directory. -/
abbrev Place := List String

namespace Place

/-- Whether a place lies at or above the working directory. -/
def isBase (place : Place) : Bool :=
  place.all fun name => name == ".." || name == "/"

/-- Whether a place lies below the working directory. -/
def isWithin (place : Place) : Bool :=
  match place with
  | [] => false
  | first :: _ => first != ".." && first != "/"

def above (place : Place) : Place :=
  if place.isBase then if place.head? = some "/" then place else place ++ [".."]
  else place.dropLast

end Place

def Path.start (path : Path) : Place :=
  if path.root = "" then [] else ["/"]

def Place.toText : Place → String
  | "/" :: names => "/" ++ Text.joinWith "/" names
  | names => Text.joinWith "/" names

end Unravel
