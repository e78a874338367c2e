import Unravel.Pass.Strings.Decoder
import Unravel.Pass.Strings.Resolution
import Unravel.Pass.Strings.Rotation

/-!
Contract: the pass that recovers strings from tables.

On entering the program the tables of all scopes are collected. Then each call
of a name with one number is followed through aliases to a decoder and its
table, and becomes the string it would read. A decoder is analysed when it is
first called for; calls that lead to a decoder but to no string are counted as
skipped.
-/

namespace Unravel.Pass.Strings

structure State where
  options : Options
  tally : Tally
  tables : Tables
  shapes : List (Nat × Option DecoderShape)
  recovered : Nat

def name : String := "string_deobfuscator"

def log (message : String) : WalkM State Unit :=
  WalkM.log (passLogger name) .debug [.text message]

/-! ## Collection -/

def record (scope : Nat) (target : Name) (claim : Claim) : WalkM State Unit := do
  let table := ((← WalkM.getState).tables.at? scope).getD .empty
  if table.conflicts target claim then
    log ("conflicting definitions for " ++ target.display ++ "; ignoring it")
  WalkM.modifyState fun state =>
    { state with tables := state.tables.update scope fun table => table.record target claim }

/-- What a value makes of the name it is given to. -/
def claimOf (options : Options) (target : Name) (value : Value) : Except Fault Claim :=
  if value.isKind "ArrayExpression" then
    match arrayStrings? value with
    | some values => do return .array (← restore options target values)
    | none => .ok (.unknown .null)
  else if value.isFunction then .ok (.function value)
  else if value.isIdentifier then
    if value.name?.any target.same then .ok (.unknown .null)
    else .ok (.alias (value.attr "name"))
  else .ok (.unknown .null)

def claimFault? (value : Value) : Option SortFault :=
  if value.isKind "ArrayExpression" then (value.attr "elements").anyIterationFault? else none

def classify (scope : Nat) (target : Name) (value : Value) : WalkM State Unit := do
  WalkM.check (claimFault? value)
  match claimOf (← WalkM.getState).options target value with
  | .ok claim => record scope target claim
  | .error fault => throw fault

/-- The scope whose table has a name: where it is bound, else the outermost. -/
def owningScope (index : ScopeIndex) (scope : Nat) (target : Name) : Nat :=
  match index.lookup scope target with
  | some (owner, _) => owner
  | none => index.outermost scope

/-- Does something with the name of an identifier and the scope whose table has
it, if the identifier is in any scope. -/
def withOwner (identifier : Value) (scope : Option Nat) (use : Nat → Name → WalkM State Unit) :
    WalkM State Unit := do
  match scope with
  | none => pure ()
  | some scope =>
    WalkM.check identifier.nameFault?
    match identifier.name? with
    | none => pure ()
    | some target => use (owningScope (← get).index scope target) target

def collectDeclarator : Handler State := fun cursor => do
  let node ← cursor.node
  if (node.attr "id").isIdentifier && !(node.attr "init").isNull then
    withOwner (node.attr "id") cursor.scope fun owner target =>
      classify owner target (node.attr "init")
  return cursor

/-- A function's name lives in the scope around the function. -/
def collectFunction : Handler State := fun cursor => do
  let node ← cursor.node
  if !(node.attr "id").isNull then
    WalkM.check ((node.attr "id").attrFault? "name")
    withOwner (node.attr "id") cursor.parentScope fun owner target =>
      record owner target (.function node)
  return cursor

def collectAssignment : Handler State := fun cursor => do
  let node ← cursor.node
  if (node.attr "left").isIdentifier then
    withOwner (node.attr "left") cursor.scope fun owner target =>
      if node.hasText "operator" "=" then classify owner target (node.attr "right")
      else record owner target (.unknown .null)
  return cursor

def collector : Visitor State :=
  [.onEnter "VariableDeclarator" collectDeclarator,
    .onEnter "FunctionDeclaration" collectFunction,
    .onEnter "AssignmentExpression" collectAssignment]

def arrayCount (tables : Tables) : Nat :=
  tables.total fun table => table.arrays.length

def functionCount (tables : Tables) : Nat :=
  tables.total fun table => table.functions.length

def aliasCount (tables : Tables) : Nat :=
  tables.total fun table => table.aliases.length

def collect (limit : Nat) : Handler State := fun cursor => do
  Walk.below limit collector cursor
  let tables := (← WalkM.getState).tables
  log ("collected " ++ toString (arrayCount tables) ++ " string arrays, " ++
    toString (functionCount tables) ++ " function candidates")
  return cursor

/-! ## Resolution -/

/-- The number given to a call: a literal, with or without a minus. -/
def numericArgument? (value : Value) : Option Double :=
  match value.double? with
  | some number => some number
  | none => (value.negated?.bind Value.double?).map Double.negate

def numberCall? (node : Value) : Option (Value × Double) :=
  if (node.attr "callee").isIdentifier then
    match (node.attr "arguments").items with
    | [argument] => (numericArgument? argument).map fun number => (node.attr "callee", number)
    | _ => none
  else none

/-- What keeps the arguments of a call from being counted. -/
def numberCallFault? (node : Value) : Option SortFault :=
  if (node.attr "callee").isIdentifier then (node.attr "arguments").anyLengthFault? else none

def shapeOf (decoder : Value) : WalkM State (Option DecoderShape) := do
  let session ← get
  let label := decoder.label?.getD 0
  match session.state.shapes.lookup label with
  | some shape => return shape
  | none =>
    WalkM.check (analysisFault? (session.current decoder))
    let shape := analyze (session.current decoder)
    WalkM.modifyState fun state => { state with shapes := (label, shape) :: state.shapes }
    return shape

/-- The index of a position in a list of the given length. -/
def positionIn? (length : Nat) (position : Double) : Option Nat :=
  match position.toInt? with
  | some integer => if 0 ≤ integer && integer < length then some integer.toNat else none
  | none => none

def countSkip : WalkM State Unit :=
  WalkM.modifyState fun state => { state with tally := state.tally.skip }

/-- Puts the string of a table position in the place of a call. -/
def recover (cursor : Cursor) (callee : Name) (argument : Double) (strings : List String)
    (position : Nat) : WalkM State Cursor := do
  match strings[position]? with
  | none => throw .tableBounds
  | some value =>
    log ("resolved " ++ callee.display ++ "(" ++ argument.render ++ ") -> " ++ Text.quoted value)
    let cursor ← cursor.replace (← WalkM.withLabels (Value.stringNode value))
    WalkM.modifyState fun state =>
      { state with tally := state.tally.change, recovered := state.recovered + 1 }
    return cursor

def resolveThrough (cursor : Cursor) (scope : Nat) (callee : Name) (argument : Double)
    (target : Name) (decoder : Value) : WalkM State Cursor := do
  match ← shapeOf decoder with
  | none =>
    log ("decoder " ++ target.display ++ " has no recognisable table lookup")
    countSkip
    return cursor
  | some shape =>
    let session ← get
    let origin := (session.index.known? decoder).getD scope
    match findArray? session.index session.state.tables origin shape.array with
    | none =>
      log ("no string array " ++ shape.array.display ++ " visible from decoder " ++
        target.display)
      countSkip
      return cursor
    | some strings =>
      match positionIn? strings.length (argument.subtract shape.offset) with
      | none =>
        log (callee.display ++ "(" ++ argument.render ++ ") falls outside " ++
          shape.array.display)
        countSkip
        return cursor
      | some position => recover cursor callee argument strings position

def resolveName (cursor : Cursor) (scope : Nat) (callee : Name) (argument : Double) :
    WalkM State Cursor := do
  let session ← get
  let tables := session.state.tables
  WalkM.check (aliasFault? session.index tables scope callee)
  let target := resolveAlias session.index tables scope callee
  match findDecoder? session.index tables scope target with
  | none => return cursor
  | some decoder => resolveThrough cursor scope callee argument target decoder

def resolveCall : Handler State := fun cursor => do
  match cursor.scope with
  | none => return cursor
  | some scope =>
    let node ← cursor.node
    WalkM.check (numberCallFault? node)
    match numberCall? node with
    | none => return cursor
    | some (callee, argument) =>
      WalkM.check callee.nameFault?
      match callee.name? with
      | none => return cursor
      | some name => resolveName cursor scope name argument

def visitor (limit : Nat) : Visitor State :=
  [.onEnter "Program" (collect limit), .onEnter "CallExpression" resolveCall]

def State.initial (options : Options) : State :=
  ⟨options, .empty, [], [], 0⟩

def State.metadata (state : State) : Metadata :=
  state.tally.metadata ++
    [("strings_recovered", .ofNat state.recovered),
      ("string_arrays", .ofNat (arrayCount state.tables)),
      ("decoder_candidates", .ofNat (functionCount state.tables)),
      ("aliases", .ofNat (aliasCount state.tables))]

def plugin : Plugin :=
  .ofVisitor name (fun options => .ok (State.initial options)) visitor State.metadata

end Unravel.Pass.Strings
