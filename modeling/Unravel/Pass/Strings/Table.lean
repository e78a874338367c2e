import Unravel.Tree.Shape

/-!
Contract: what one scope is known to define, name by name.

A name is claimed as an array of strings, a function, an alias of another name
or something unknown, of which a value may say more. The first claim is kept; a
later one that differs makes the name ambiguous, and an ambiguous name is in no
table any more. Functions are compared by identity, the other claims by value.
-/

namespace Unravel.Pass.Strings

inductive Claim where
  | array (values : List String)
  | function (node : Value)
  /-- The target is what the name attribute of an identifier holds. -/
  | alias (target : Value)
  | unknown (value : Value)
deriving Repr

def Claim.agrees : Claim → Claim → Bool
  | .array left, .array right => left == right
  | .function left, .function right => left.label? == right.label?
  | .alias left, .alias right => left.same right
  | .unknown left, .unknown right => left.same right
  | _, _ => false

structure ScopeTable where
  arrays : Names (List String)
  functions : Names Value
  aliases : Names Value
  ambiguous : List Name
  claims : Names Claim
deriving Repr

namespace ScopeTable

def empty : ScopeTable :=
  ⟨[], [], [], [], []⟩

/-- Whether a claim contradicts the one that is held for its name. -/
def conflicts (table : ScopeTable) (name : Name) (claim : Claim) : Bool :=
  !name.isIn table.ambiguous &&
    match Names.get? table.claims name with
    | some held => !held.agrees claim
    | none => false

def hold (table : ScopeTable) (name : Name) (claim : Claim) : ScopeTable :=
  let table := { table with claims := Names.put table.claims name claim }
  match claim with
  | .array values => { table with arrays := Names.put table.arrays name values }
  | .function node => { table with functions := Names.put table.functions name node }
  | .alias target => { table with aliases := Names.put table.aliases name target }
  | .unknown _ => table

def drop (table : ScopeTable) (name : Name) : ScopeTable :=
  { table with
    arrays := Names.erase table.arrays name
    functions := Names.erase table.functions name
    aliases := Names.erase table.aliases name
    ambiguous := table.ambiguous ++ [name] }

def record (table : ScopeTable) (name : Name) (claim : Claim) : ScopeTable :=
  if name.isIn table.ambiguous then table
  else
    match Names.get? table.claims name with
    | none => table.hold name claim
    | some held => if held.agrees claim then table else table.drop name

end ScopeTable

/-- Tables by scope, in the order they were made. -/
abbrev Tables := List (Nat × ScopeTable)

namespace Tables

/-- Changes the table of a scope, which is made if it is not there. -/
def update (scope : Nat) (change : ScopeTable → ScopeTable) : Tables → Tables
  | [] => [(scope, change .empty)]
  | (other, table) :: rest =>
    if other = scope then (other, change table) :: rest
    else (other, table) :: update scope change rest

def at? (tables : Tables) (scope : Nat) : Option ScopeTable :=
  tables.lookup scope

def total (tables : Tables) (count : ScopeTable → Nat) : Nat :=
  tables.foldr (fun entry total => count entry.2 + total) 0

end Tables

end Unravel.Pass.Strings
