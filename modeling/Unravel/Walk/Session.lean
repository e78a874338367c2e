import Unravel.Log.Record
import Unravel.Scope.Build
import Unravel.Tree.Address
import Unravel.Tree.Document
import Unravel.Walk.Fault

/-!
Contract: what a walk over a tree reads and changes.

A session holds the tree as it is, the labels it has not used, the scope index
as far as it has been extended, the log and the state of the pass. A cursor is
a place in the tree with the scope it was reached in. Actions run in `WalkM`,
which keeps the session as it was when an action fails.
-/

namespace Unravel

structure Session (σ : Type) where
  tree : Value
  next : Nat
  index : ScopeIndex
  log : List Remark
  state : σ

/-- Actions of a walk whose pass has the state `σ`. -/
abbrev WalkM (σ : Type) := EStateM Fault (Session σ)

/-- A place in the tree. The scope is the one in force inside the node there,
`parentScope` the one in force inside its parent. -/
structure Cursor where
  address : Address
  scope : Option Nat
  parentScope : Option Nat
  skipped : Bool
deriving DecidableEq, Repr

namespace WalkM

variable {σ : Type}

def log (logger : String) (level : Level) (message : List Piece) : WalkM σ Unit :=
  modify fun session => { session with log := session.log ++ [⟨logger, level, message⟩] }

def getState : WalkM σ σ := do
  return (← get).state

def modifyState (change : σ → σ) : WalkM σ Unit :=
  modify fun session => { session with state := change session.state }

def withLabels {α : Type} (build : Value.Fresh α) : WalkM σ α :=
  modifyGet fun session =>
    let (result, next) := build.run session.next
    (result, { session with next := next })

def scopeLogger : String := "jsdeob.scope"

def check : Option SortFault → WalkM σ Unit
  | some fault => throw (.sort fault)
  | none => pure ()

def indexTree (value : Value) (outer : Option Nat) : WalkM σ Unit := do
  check (value.surveyFault? outer.isSome)
  modify fun session => { session with index := session.index.extend value outer }
  let count := (← get).index.scopes.length
  log scopeLogger .debug [.text ("indexed " ++ toString count ++ " scopes")]

/-- The scope in force inside a node reached from a scope. Nodes that open a
scope and are not indexed yet are added first. -/
def scopeOf (value : Value) (parentScope : Option Nat) : WalkM σ (Option Nat) := do
  match (← get).index.known? value with
  | some known => return some known
  | none =>
    if value.createsScope then
      indexTree value parentScope
      return ((← get).index.known? value).orElse fun _ => parentScope
    else return parentScope

end WalkM

namespace Cursor

variable {σ : Type}

/-- The slot the cursor is at; the root is in none. -/
def slot? (cursor : Cursor) : Option Slot :=
  cursor.address.getLast?

def node (cursor : Cursor) : WalkM σ Value := do
  return ((← get).tree.at? cursor.address).getD .null

/-- The parent of the node at the cursor; null for the root. -/
def parent (cursor : Cursor) : WalkM σ Value := do
  if cursor.address.isEmpty then return .null
  else return ((← get).tree.at? cursor.address.dropLast).getD .null

def lookup (cursor : Cursor) (name : Name) : WalkM σ (Option (Nat × Binding)) := do
  let index := (← get).index
  return cursor.scope.bind fun scope => index.lookup scope name

/-- Keeps the walk out of the children of the node at the cursor. -/
def skip (cursor : Cursor) : Cursor :=
  { cursor with skipped := true }

def put (cursor : Cursor) (new : Value) : WalkM σ Unit :=
  modify fun session => { session with tree := session.tree.putAt cursor.address new }

/-- Changes the parent of the node at the cursor in place. -/
def putParent (cursor : Cursor) (new : Value) : WalkM σ Unit :=
  modify fun session => { session with tree := session.tree.putAt cursor.address.dropLast new }

/-- Puts another node in the slot of the cursor; the walk goes on into it. -/
def replace (cursor : Cursor) (new : Value) : WalkM σ Cursor := do
  if cursor.address.isEmpty then throw .rootReplaced
  cursor.put new
  let scope ← WalkM.scopeOf new cursor.parentScope
  return { cursor with scope := scope }

end Cursor

namespace Session

variable {σ : Type}

/-- The object with a label as it is in the tree now, or as it was recorded if
it has left the tree. -/
def current (session : Session σ) (recorded : Value) : Value :=
  match recorded.label? with
  | some label => (session.tree.find? label).getD recorded
  | none => recorded

def document (session : Session σ) : Document :=
  ⟨session.tree, session.next⟩

end Session

end Unravel
