import Unravel.Pass.Plugin
import Unravel.Tree.Evaluate

/-!
Contract: the pass that computes constant arithmetic.

Binary expressions, unary minus and the right sides of assignments become the
number they stand for, outermost first, unless they are a plain number already.
Numeric literals in a base other than ten that are left over are written in
base ten.

Evaluation may be given room for so many expressions inside each other only; an
expression that runs out of it is left as it is. The pass by itself sets no limit.
-/

namespace Unravel.Pass.Folding

structure State where
  tally : Tally
  normalized : Nat
  folded : Nat
deriving DecidableEq, Repr

def name : String := "numeric_folding"

def log (message : List Piece) : WalkM State Unit :=
  WalkM.log (passLogger name) .debug message

def countFold : WalkM State Unit :=
  WalkM.modifyState fun state =>
    { state with tally := state.tally.change, folded := state.folded + 1 }

/-- The number an expression folds to, unless it is spelled as one already. -/
def folded? (value : Value) : Option Double :=
  if value.isPlainNumber then none else value.evaluate

/-- What keeps an expression from being folded. -/
def foldingFault? (value : Value) : Option SortFault :=
  if value.isPlainNumber then none else value.evaluationFault?

def normalizeLiteral : Handler State := fun cursor => do
  let node ← cursor.node
  match node.double? with
  | none => return cursor
  | some number =>
    if node.isNonDecimal then
      let new ← WalkM.withLabels (Value.numberNode number)
      log [.text ("converted " ++ ((node.attr "raw").text?).getD "" ++ " to "), .node new]
      let cursor ← cursor.replace new
      WalkM.modifyState fun state =>
        { state with tally := state.tally.change, normalized := state.normalized + 1 }
      return cursor
    else return cursor

def foldExpression : Handler State := fun cursor => do
  let node ← cursor.node
  WalkM.check (foldingFault? node)
  match folded? node with
  | none => return cursor
  | some number =>
    let new ← WalkM.withLabels (Value.numberNode number)
    log [.text "evaluated ", .node node, .text " -> ", .node new]
    let cursor ← cursor.replace new
    countFold
    return cursor

def foldUnary : Handler State := fun cursor => do
  if (← cursor.node).hasText "operator" "-" then foldExpression cursor else return cursor

/-- The right side of an assignment is changed in the assignment itself. -/
def foldAssignment : Handler State := fun cursor => do
  let node ← cursor.node
  WalkM.check (foldingFault? (node.attr "right"))
  match folded? (node.attr "right") with
  | none => return cursor
  | some number =>
    let new ← WalkM.withLabels (Value.numberNode number)
    cursor.put (node.setAttr "right" new)
    log [.text "evaluated assignment right-hand side to ", .node new]
    countFold
    return cursor

/-- An action that is not taken if evaluating what it reads runs out of room. -/
def within (room : Option Nat) (reads : Value → Value) (handler : Handler State) :
    Handler State :=
  match room with
  | none => handler
  | some room => fun cursor => do
    if (reads (← cursor.node)).overflows room then return cursor else handler cursor

def visitorWithin (room : Option Nat) : Visitor State :=
  [.onEnter "Literal" normalizeLiteral,
    .onEnter "BinaryExpression" (within room id foldExpression),
    .onEnter "UnaryExpression" (within room id foldUnary),
    .onEnter "AssignmentExpression" (within room (·.attr "right") foldAssignment)]

def State.metadata (state : State) : Metadata :=
  state.tally.metadata ++
    [("literals_normalized", .ofNat state.normalized), ("expressions_folded", .ofNat state.folded)]

def pluginWithin (room : Option Nat) : Plugin :=
  .ofVisitor name (fun _ => .ok ⟨.empty, 0, 0⟩) (fun _ => visitorWithin room) State.metadata

abbrev plugin : Plugin := pluginWithin none

end Unravel.Pass.Folding
