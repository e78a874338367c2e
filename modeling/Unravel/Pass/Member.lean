import Unravel.Pass.Plugin

/-!
Contract: the pass that reads members by name.

A computed member whose key is a string literal becomes a member read by that
name when the name is an identifier, and is counted as skipped otherwise.
-/

namespace Unravel.Pass.Member

structure State where
  tally : Tally
  converted : Nat
deriving DecidableEq, Repr

def name : String := "bracket_to_dot"

/-- The string key of a computed member. -/
def stringKey? (value : Value) : Option String :=
  if (value.attr "computed").truthy then (value.attr "property").string? else none

def convert : Handler State := fun cursor => do
  let node ← cursor.node
  match stringKey? node with
  | none => return cursor
  | some key =>
    if Text.isIdentifier key then
      WalkM.log (passLogger name) .debug
        [.text ("converted [" ++ Text.quoted key ++ "] to ." ++ key)]
      let member ← WalkM.withLabels do
        Value.memberNode (node.attr "object") (← Value.identifierNode key)
      let cursor ← cursor.replace member
      WalkM.modifyState fun state => ⟨state.tally.change, state.converted + 1⟩
      return cursor
    else
      WalkM.modifyState fun state => { state with tally := state.tally.skip }
      return cursor

def visitor : Visitor State :=
  [.onEnter "MemberExpression" convert]

def State.metadata (state : State) : Metadata :=
  state.tally.metadata ++ [("members_converted", .ofNat state.converted)]

def plugin : Plugin :=
  .ofVisitor name (fun _ => .ok ⟨.empty, 0⟩) (fun _ => visitor) State.metadata

end Unravel.Pass.Member
