import Unravel.Pass.Inlining.Helper
import Unravel.Pass.Inlining.Recursion
import Unravel.Pass.Plugin

/-!
Contract: the pass that replaces calls of tracked helper functions.

On entering the program the functions of all names are collected. A call of a
tracked name is replaced when the name is bound to the collected function and
to nothing else, the function does not call itself through tracked helpers, and
`inline?` has a replacement. The result is looked at again, up to a fixed number
of rounds. A verdict on whether a name calls itself is kept once it is made.
-/

namespace Unravel.Pass.Inlining

structure State where
  tally : Tally
  functions : Names Value
  tracked : List Name
  recursive : Names Bool
  inlined : Nat

def name : String := "function_inliner"

def log (message : List Piece) : WalkM State Unit :=
  WalkM.log (passLogger name) .debug message

/-- The helpers that are tracked unless the options name others. -/
def trackedByDefault : List String :=
  ["Qc", "Pc", "pc", "$n", "wc", "Ac", "Zn", "Gn", "Nc", "Fc", "Vc"]

def maxRounds : Nat := 16

def namesOf : List Json → Except Fault (List Name)
  | [] => .ok []
  | value :: rest =>
    match Name.ofJson? value with
    | some name => do return name :: (← namesOf rest)
    | none => .error (.sort (.notHashable value.sortName))

/-- The tracked names of the option: a list of names, the characters of a text
or the names of an object. -/
def trackedNames : Json → Except Fault (List Name)
  | .null => .ok (trackedByDefault.map .text)
  | names =>
    match names.iterate with
    | .ok items => namesOf items
    | .error fault => .error (.sort fault)

def State.initial (options : Options) : Except Fault State := do
  let tracked ← trackedNames ((Members.get? options "inline_functions").getD .null)
  return ⟨.empty, [], tracked, [], 0⟩

/-! ## Collection -/

/-- Keeps a function under the name of an identifier. -/
def collectFunction (identifier function : Value) : WalkM State Unit := do
  WalkM.check identifier.nameFault?
  match identifier.name? with
  | some target =>
    WalkM.modifyState fun state =>
      { state with functions := Names.put state.functions target function }
  | none => pure ()

def collectDeclaration : Handler State := fun cursor => do
  let node ← cursor.node
  if !(node.attr "id").isNull then collectFunction (node.attr "id") node
  return cursor

def collectDeclarator : Handler State := fun cursor => do
  let node ← cursor.node
  if (node.attr "id").isIdentifier && (node.attr "init").isKind "FunctionExpression" then
    collectFunction (node.attr "id") (node.attr "init")
  return cursor

def collector : Visitor State :=
  [.onEnter "FunctionDeclaration" collectDeclaration,
    .onEnter "VariableDeclarator" collectDeclarator]

def collect (limit : Nat) : Handler State := fun cursor => do
  Walk.below limit collector cursor
  let count := (← WalkM.getState).functions.length
  log [.text ("collected " ++ toString count ++ " function definitions")]
  return cursor

/-! ## Calls -/

/-- The function that a binding's declaration gives, by its label. -/
def declaredFunction? (binding : Binding) : Option Nat :=
  if binding.node.isKind "FunctionDeclaration" then binding.node.label?
  else if binding.node.isKind "VariableDeclarator" then (binding.node.attr "init").label?
  else none

def bodyNow (session : Session State) (target : Name) : Option Value :=
  (Names.get? session.state.functions target).map fun recorded =>
    (session.current recorded).attr "body"

/-- The verdict on a name, from when it was first asked for. -/
def isRecursive (target : Name) : WalkM State Bool := do
  let session ← get
  match Names.get? session.state.recursive target with
  | some verdict => return verdict
  | none =>
    let tracked := session.state.tracked
    WalkM.check (recursionFault? (bodyNow session) tracked target)
    let verdict := callsBack (fun name => (bodyNow session name).map calledNames) tracked target
    WalkM.modifyState fun state =>
      { state with recursive := Names.put state.recursive target verdict }
    return verdict

def refuse (subject : Piece) (reason : String) : WalkM State Unit := do
  log [.text "not inlining ", subject, .text (": " ++ reason)]
  WalkM.modifyState fun state => { state with tally := state.tally.skip }

/-- Replaces a call of a function that its name is known to denote. -/
def replaceCall (cursor : Cursor) (call function : Value) : WalkM State (Bool × Cursor) := do
  let session ← get
  let arguments := call.attr "arguments"
  let declared := session.current function
  let functionScope := session.index.known? function
  WalkM.check (arguments.anyIterationFault?.or
    (inlineFault? session.index declared arguments.elements functionScope cursor.scope))
  match inline? session.index declared arguments.elements functionScope cursor.scope with
  | none =>
    refuse (.node call) "unsupported shape"
    return (false, cursor)
  | some build =>
    let result ← WalkM.withLabels build
    log [.text "inlined ", .node call, .text " -> ", .node result]
    let cursor ← cursor.replace result
    WalkM.modifyState fun state =>
      { state with tally := state.tally.change, inlined := state.inlined + 1 }
    return (true, cursor)

def tryInline (cursor : Cursor) : WalkM State (Bool × Cursor) := do
  let call ← cursor.node
  let state ← WalkM.getState
  match callee? call with
  | none => return (false, cursor)
  | some callee =>
    WalkM.check callee.nameFault?
    let target := callee.name?.getD .absent
    if !target.isIn state.tracked then return (false, cursor)
    match Names.get? state.functions target, ← cursor.lookup target with
    | some function, some (_, binding) =>
      if !binding.constant || declaredFunction? binding != function.label? then
        refuse (.text target.display) "binding is reassigned or shadowed"
        return (false, cursor)
      else if ← isRecursive target then
        refuse (.text target.display) "helper is recursive"
        return (false, cursor)
      else replaceCall cursor call function
    | _, _ => return (false, cursor)

/-- Tries replacements in one place while they give calls again. -/
def inlineRounds : Nat → Handler State
  | 0, cursor => return cursor
  | rounds + 1, cursor => do
      let (replaced, cursor) ← tryInline cursor
      if replaced && (← cursor.node).isKind "CallExpression" then inlineRounds rounds cursor
      else return cursor

def visitor (limit : Nat) : Visitor State :=
  [.onEnter "Program" (collect limit), .onEnter "CallExpression" (inlineRounds maxRounds)]

def State.metadata (state : State) : Metadata :=
  state.tally.metadata ++
    [("calls_inlined", .ofNat state.inlined),
      ("functions_collected", .ofNat state.functions.length)]

def plugin : Plugin :=
  .ofVisitor name State.initial visitor State.metadata

end Unravel.Pass.Inlining
