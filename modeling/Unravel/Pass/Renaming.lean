import Unravel.Pass.Plugin

/-!
Contract: the pass that renames variables by a map of names.

Property names and labels keep their names: the decision is made by the kind of
the parent and the slot of the identifier. A shorthand property whose value is
renamed stops being shorthand. Targets that are no identifiers are ignored with
a warning.
-/

namespace Unravel.Pass.Renaming

structure State where
  tally : Tally
  renames : Members String
  renamed : Nat
deriving DecidableEq, Repr

def name : String := "variable_rename"

/-- Adds one entry of the map. -/
def State.addRename (state : State) (old : String) (new : Json) : Except Fault State :=
  match new with
  | .text target =>
    if Text.isIdentifier target then
      .ok { state with renames := Members.put state.renames old target }
    else
      let warning :=
        "ignored rename " ++ Text.quoted old ++ " -> " ++ Text.quoted target ++
          ": not an identifier"
      .ok { state with tally := state.tally.warn warning }
  | other => .error (.notText other.sortName)

/-- The map of the option; anything that counts as false is the empty map. -/
def renameEntries (options : Options) : Except Fault (Members Json) :=
  let option := (Members.get? options "rename_map").getD .null
  match option with
  | .object entries => .ok entries
  | other =>
    if other.truthy then .error (.sort (.noAttribute other.sortName "items")) else .ok []

def State.initial (options : Options) : Except Fault State := do
  let entries ← renameEntries options
  entries.foldlM (fun state entry => state.addRename entry.1 entry.2) ⟨.empty, [], 0⟩

def labelKinds : List String :=
  ["LabeledStatement", "BreakStatement", "ContinueStatement"]

/-- Whether an identifier in a field of a parent names a property or a label. -/
def isPropertyName (parent : Value) (field : Option String) : Bool :=
  if parent.isKind "MemberExpression" then
    field == some "property" && !(parent.attr "computed").truthy
  else if parent.isKind "Property" || parent.isKind "MethodDefinition" then
    field == some "key" && !(parent.attr "computed").truthy
  else
    match parent.kind? with
    | some kind => labelKinds.contains kind
    | none => false

/-- The new name of an identifier in its slot, when it gets one. -/
def target? (renames : Members String) (node parent : Value) (field : Option String) :
    Option String :=
  (node.attr "name").text?.bind fun old =>
    (Members.get? renames old).bind fun new =>
      if new = old || isPropertyName parent field then none else some new

def rename : Handler State := fun cursor => do
  let node ← cursor.node
  let parent ← cursor.parent
  WalkM.check node.nameFault?
  match target? (← WalkM.getState).renames node parent (cursor.slot?.map Slot.field) with
  | none => return cursor
  | some new =>
    if parent.isKind "Property" && (parent.attr "shorthand").truthy then
      cursor.putParent (parent.setAttr "shorthand" (.bool false))
    let cursor ← cursor.replace (← WalkM.withLabels (Value.identifierNode new))
    WalkM.modifyState fun state =>
      { state with tally := state.tally.change, renamed := state.renamed + 1 }
    return cursor

def logSummary : Handler State := fun cursor => do
  let count := (← WalkM.getState).renamed
  if count != 0 then
    WalkM.log (passLogger name) .debug
      [.text ("renamed " ++ toString count ++ " identifier references")]
  return cursor

def visitor : Visitor State :=
  [.onEnter "Identifier" rename, .onLeave "Program" logSummary]

def State.metadata (state : State) : Metadata :=
  state.tally.metadata ++ [("identifiers_renamed", .ofNat state.renamed)]

def plugin : Plugin :=
  .ofVisitor name State.initial (fun _ => visitor) State.metadata

end Unravel.Pass.Renaming
