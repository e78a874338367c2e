import Unravel.Walk.Visitor

/-!
Contract: the walk over a tree.

The walk keeps a stack of pending visits. A pending entry refers to a slot of
its owner and reads it only when its turn comes, so it sees what earlier actions
have put there. After a node has been entered its children are pending, then
its leaving.

Actions may put nodes into the tree that are walked in turn, so a walk need not
end; it is given the number of visits it may make and fails with `stepLimit`
when they are used up.
-/

namespace Unravel

namespace Value

/-- The slots that may hold children, in document order. -/
def childSlots (value : Value) : List Slot :=
  value.childFields.flatMap fun name =>
    match value.attr name with
    | .list items => (List.range items.length).map fun index => ⟨name, some index⟩
    | .null => []
    | _ => [⟨name, none⟩]

end Value

inductive Frame where
  | entering (owner : Cursor) (slot : Slot)
  | leaving (cursor : Cursor)
deriving DecidableEq, Repr

namespace Walk

variable {σ : Type}

/-- The entries of the children of the node at a cursor. -/
def childFrames (cursor : Cursor) : WalkM σ (List Frame) := do
  return (← cursor.node).childSlots.map fun slot => .entering cursor slot

/-- Enters a node, and gives the visits that follow from it. -/
def enterNode (visitor : Visitor σ) (owner : Cursor) (slot : Slot) (value : Value) :
    WalkM σ (List Frame) := do
  let scope ← WalkM.scopeOf value owner.scope
  let cursor ← visitor.dispatch .entering ⟨owner.address ++ [slot], scope, owner.scope, false⟩
  if cursor.skipped || !(← cursor.node).isNode then return []
  else return (← childFrames cursor) ++ [.leaving cursor]

/-- Makes one pending visit, and gives the visits that follow from it. -/
def step (visitor : Visitor σ) : Frame → WalkM σ (List Frame)
  | .leaving cursor => do
      let _ ← visitor.dispatch .leaving cursor
      return []
  | .entering owner slot => do
      match (← get).tree.at? (owner.address ++ [slot]) with
      | some value => if value.isNode then enterNode visitor owner slot value else return []
      | none => return []

def run (visitor : Visitor σ) : Nat → List Frame → WalkM σ Unit
  | _, [] => pure ()
  | 0, _ :: _ => throw .stepLimit
  | limit + 1, frame :: rest => do
      let following ← step visitor frame
      run visitor limit (following ++ rest)

/-- Walks the nodes below a cursor, in its scope. -/
def below (limit : Nat) (visitor : Visitor σ) (cursor : Cursor) : WalkM σ Unit := do
  WalkM.check (← cursor.node).fieldsFault?
  run visitor limit (← childFrames cursor)

def whole (limit : Nat) (visitor : Visitor σ) : WalkM σ Unit := do
  let scope ← WalkM.scopeOf (← get).tree none
  let root ← visitor.dispatch .entering ⟨[], scope, none, false⟩
  if root.skipped then return ()
  else
    WalkM.check (← root.node).fieldsFault?
    run visitor limit ((← childFrames root) ++ [.leaving root])

/-- The outcome of a walk over a document from an initial state: whether it
succeeded, and the session it ended in. -/
def start (limit : Nat) (visitor : Visitor σ) (document : Document) (state : σ) :
    Except Fault Unit × Session σ :=
  let action : WalkM σ Unit := do
    WalkM.indexTree (← get).tree none
    whole limit visitor
  match action.run ⟨document.tree, document.next, .empty, [], state⟩ with
  | .ok _ session => (.ok (), session)
  | .error fault session => (.error fault, session)

end Walk

end Unravel
