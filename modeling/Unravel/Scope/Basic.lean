import Unravel.Tree.Name

/-!
Contract: lexical scopes as data.

An index lists scopes in the order they were opened; a scope is referred to by
its number in that list and knows the numbers of the scopes around it, inner
ones first. `owners` maps labels of nodes to the scope that is in force inside
them. A name is looked up along a scope and its enclosing scopes.

A binding is constant as long as nothing has been counted against it.
-/

namespace Unravel

inductive BindingKind where
  | hoisted
  | ownName
  | param
  /-- By a declaration with this keyword, which is a text when the tree is
  well-formed. -/
  | declared (keyword : Value)
  | classDeclared
  | caught
deriving Repr

def BindingKind.name : BindingKind → Value
  | .hoisted => .text "hoisted"
  | .ownName => .text "local"
  | .param => .text "param"
  | .declared keyword => keyword
  | .classDeclared => .text "class"
  | .caught => .text "catch"

/-- A bound name: the node that declares it, as it stood when it was indexed,
the identifier that spells it, and the labels of the nodes that declare it
again or write to it. -/
structure Binding where
  name : Name
  kind : BindingKind
  node : Value
  identifier : Value
  violations : List Nat
deriving Repr

namespace Binding

def constant (binding : Binding) : Bool :=
  binding.violations.isEmpty

/-- Counts a node against the binding. -/
def reassign (binding : Binding) (label : Nat) : Binding :=
  { binding with violations := binding.violations ++ [label] }

end Binding

inductive ScopeKind where
  | program
  | function
  | block
deriving DecidableEq, Repr

def ScopeKind.name : ScopeKind → String
  | .program => "program"
  | .function => "function"
  | .block => "block"

structure Scope where
  label : Nat
  opener : String
  kind : ScopeKind
  enclosing : List Nat
  bindings : List Binding
deriving Repr

namespace Scope

def own? (scope : Scope) (name : Name) : Option Binding :=
  scope.bindings.find? fun binding => binding.name.same name

/-- Declares a name. A name that is declared already stays as it is, with the
new declaration counted against it. -/
def register (scope : Scope) (binding : Binding) (label : Nat) : Scope :=
  if (scope.own? binding.name).isSome then
    { scope with bindings := scope.bindings.map fun old =>
        if old.name.same binding.name then old.reassign label else old }
  else { scope with bindings := scope.bindings ++ [binding] }

/-- Counts a write to a name that the scope declares. -/
def write (scope : Scope) (name : Name) (label : Nat) : Scope :=
  { scope with bindings := scope.bindings.map fun old =>
      if old.name.same name then old.reassign label else old }

end Scope

structure ScopeIndex where
  scopes : List Scope
  owners : List (Nat × Nat)
  program : Option Nat
deriving Repr

namespace ScopeIndex

def empty : ScopeIndex :=
  ⟨[], [], none⟩

/-- The scope that the node with a label opened, or that is in force in it. -/
def owner? (index : ScopeIndex) (label : Nat) : Option Nat :=
  index.owners.lookup label

/-- A scope and the scopes around it, inner ones first. -/
def chain (index : ScopeIndex) (number : Nat) : List Nat :=
  match index.scopes[number]? with
  | some scope => number :: scope.enclosing
  | none => [number]

def own? (index : ScopeIndex) (number : Nat) (name : Name) : Option Binding :=
  index.scopes[number]?.bind fun scope => scope.own? name

/-- The nearest of a list of scopes that binds a name, with its binding. -/
def lookupAlong (index : ScopeIndex) (name : Name) : List Nat → Option (Nat × Binding)
  | [] => none
  | number :: rest =>
    match index.own? number name with
    | some binding => some (number, binding)
    | none => lookupAlong index name rest

/-- The binding a name has from a scope, with the scope that declares it. -/
def lookup (index : ScopeIndex) (number : Nat) (name : Name) : Option (Nat × Binding) :=
  index.lookupAlong name (index.chain number)

/-- The scope that function-wide declarations of a scope belong to. -/
def functionScope (index : ScopeIndex) (number : Nat) : Nat :=
  let isWide := fun candidate =>
    match index.scopes[candidate]? with
    | some scope => scope.kind != .block
    | none => false
  ((index.chain number).find? isWide).getD number

/-- The outermost scope around a scope. -/
def outermost (index : ScopeIndex) (number : Nat) : Nat :=
  ((index.chain number).getLast?).getD number

def modify (index : ScopeIndex) (number : Nat) (change : Scope → Scope) : ScopeIndex :=
  { index with scopes := index.scopes.modify number change }

end ScopeIndex

end Unravel
