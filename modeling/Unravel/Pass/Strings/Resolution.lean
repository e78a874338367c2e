import Unravel.Pass.Strings.Table
import Unravel.Scope.Basic

/-!
Contract: what a name stands for in the tables, seen from a scope.

The scopes from the given one outwards are asked in turn. The first that has the
name in the table decides, and so does the first that binds it otherwise: the
name is then shadowed.

An alias leads on when its target is a name. A target that is absent ends the
chain, and one that is a list cannot be followed at all.
-/

namespace Unravel.Pass.Strings

/-- The first table entry along a chain of scopes, unless it is shadowed. -/
def visibleAlong? {α : Type} (index : ScopeIndex) (tables : Tables)
    (entry : ScopeTable → Option α) (name : Name) : List Nat → Option α
  | [] => none
  | scope :: rest =>
    match (tables.at? scope).bind entry with
    | some found => some found
    | none =>
      if (index.own? scope name).isSome then none
      else visibleAlong? index tables entry name rest

/-- What a name is recorded as an alias of. -/
def visibleTarget? (index : ScopeIndex) (tables : Tables) (scope : Nat) (name : Name) :
    Option Value :=
  visibleAlong? index tables (fun table => Names.get? table.aliases name) name
    (index.chain scope)

def targetName? (target : Value) : Option Name :=
  if target.isNull then none else Name.ofValue? target

def visibleAlias? (index : ScopeIndex) (tables : Tables) (scope : Nat) (name : Name) :
    Option Name :=
  (visibleTarget? index tables scope name).bind targetName?

def findDecoder? (index : ScopeIndex) (tables : Tables) (scope : Nat) (name : Name) :
    Option Value :=
  visibleAlong? index tables (fun table => Names.get? table.functions name) name
    (index.chain scope)

def findArray? (index : ScopeIndex) (tables : Tables) (scope : Nat) (name : Name) :
    Option (List String) :=
  visibleAlong? index tables (fun table => Names.get? table.arrays name) name
    (index.chain scope)

/-- Follows aliases from a name until there is none or it has been met. -/
def followAliases (visible? : Name → Option Name) : Nat → List Name → Name → Name
  | 0, _, name => name
  | fuel + 1, seen, name =>
    match visible? name with
    | none => name
    | some target =>
      if target.isIn seen then name
      else followAliases visible? fuel (target :: seen) target

/-- The name that an alias stands for. Each step meets the target of another
alias record, so their number bounds the steps. -/
def resolveAlias (index : ScopeIndex) (tables : Tables) (scope : Nat) (name : Name) : Name :=
  followAliases (visibleAlias? index tables scope)
    (tables.total (fun table => table.aliases.length) + 1) [name] name

/-- The target that ends the chain of a name and cannot be followed. -/
def aliasFault? (index : ScopeIndex) (tables : Tables) (scope : Nat) (name : Name) :
    Option SortFault :=
  (visibleTarget? index tables scope (resolveAlias index tables scope name)).bind
    Value.keyFault?

end Unravel.Pass.Strings
