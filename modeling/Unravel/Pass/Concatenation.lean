import Unravel.Pass.Plugin
import Unravel.Tree.Evaluate

/-!
Contract: the pass that joins concatenations of string literals.

Each + expression is looked at when it is left, after its operands have been
joined; one that joins string literals only becomes one string literal.
-/

namespace Unravel.Pass.Concatenation

structure State where
  tally : Tally
  collapsed : Nat
deriving DecidableEq, Repr

def name : String := "string_folding"

def joined (parts : List String) : String :=
  parts.foldl (· ++ ·) ""

def collapse : Handler State := fun cursor => do
  match (← cursor.node).concatenation? with
  | none => return cursor
  | some parts =>
    let text := joined parts
    WalkM.log (passLogger name) .debug
      [.text ("concatenated " ++ Text.joinWith " + " (parts.map Text.quoted) ++ " -> " ++
        Text.quoted text)]
    let cursor ← cursor.replace (← WalkM.withLabels (Value.stringNode text))
    WalkM.modifyState fun state =>
      ⟨state.tally.change, state.collapsed + (parts.length - 1)⟩
    return cursor

def visitor : Visitor State :=
  [.onLeave "BinaryExpression" collapse]

def State.metadata (state : State) : Metadata :=
  state.tally.metadata ++ [("collapsed_concats", .ofNat state.collapsed)]

def plugin : Plugin :=
  .ofVisitor name (fun _ => .ok ⟨.empty, 0⟩) (fun _ => visitor) State.metadata

end Unravel.Pass.Concatenation
