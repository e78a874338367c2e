import Unravel.Json.Basic

/-!
Contract: which logger stands above which.

Names have the names before their dots above them; of two dots next to each
other the first is passed over. A logger goes below the nearest of these names
that has a logger, or else below the root. A logger made later takes its place
above those that wait for it, unless what they stand below already has its name
in front.

Names above a logger that have no logger yet remember who waits for them.
-/

namespace Unravel

structure Hierarchy where
  /-- What each logger but the root stands below. -/
  parents : Members String
  /-- The loggers below each name that has none itself. -/
  waiting : Members (List String)
deriving DecidableEq, Repr

namespace Hierarchy

def rootName : String := "root"

def initial : Hierarchy := ⟨[], []⟩

/-- The names above a name given in reverse, nearest first. -/
def namesAbove : Nat → List Char → List String
  | 0, _ => []
  | fuel + 1, reversed =>
    match reversed.dropWhile (· != '.') with
    | _ :: last :: rest => String.ofList (last :: rest).reverse :: namesAbove fuel rest
    | _ => []

def above (name : String) : List String :=
  namesAbove name.toList.length name.toList.reverse

def hasLogger (hierarchy : Hierarchy) (name : String) : Bool :=
  (Members.get? hierarchy.parents name).isSome

/-- Puts a logger below the first of some names that has one. -/
def attach (name : String) : List String → Hierarchy → Hierarchy
  | [], hierarchy =>
    { hierarchy with parents := Members.put hierarchy.parents name rootName }
  | candidate :: rest, hierarchy =>
    if hierarchy.hasLogger candidate then
      { hierarchy with parents := Members.put hierarchy.parents name candidate }
    else
      let before := (Members.get? hierarchy.waiting candidate).getD []
      attach name rest
        { hierarchy with waiting := Members.put hierarchy.waiting candidate (before ++ [name]) }

/-- Puts a waiting logger below a new one. -/
def adopt (name : String) (parents : Members String) (child : String) : Members String :=
  match Members.get? parents child with
  | some parent =>
    if name.toList.isPrefixOf parent.toList then parents else Members.put parents child name
  | none => parents

/-- A hierarchy that has a logger of a name. -/
def register (hierarchy : Hierarchy) (name : String) : Hierarchy :=
  if name = rootName || hierarchy.hasLogger name then hierarchy
  else
    let below := (Members.get? hierarchy.waiting name).getD []
    attach name (above name)
      ⟨below.foldl (adopt name) hierarchy.parents, Members.erase hierarchy.waiting name⟩

def chainFrom (hierarchy : Hierarchy) : Nat → String → List String
  | 0, _ => []
  | fuel + 1, name =>
    name ::
      match Members.get? hierarchy.parents name with
      | some parent => chainFrom hierarchy fuel parent
      | none => []

/-- A logger and those above it, the root last. -/
def chain (hierarchy : Hierarchy) (name : String) : List String :=
  hierarchy.chainFrom (hierarchy.parents.length + 1) name

end Hierarchy

end Unravel
