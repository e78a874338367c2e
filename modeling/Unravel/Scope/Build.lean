import Unravel.Scope.Basic
import Unravel.Scope.Pattern

/-!
Contract: building the scope index of a tree.

The tree is surveyed in document order. Declarations are registered as they are
met; writes are noted and settled against the bindings once the whole tree has
been surveyed, so that a write counts against a declaration that follows it.

`ScopeIndex.extend` surveys a tree inside an existing scope and index. Nodes
that the index knows keep their scopes. `Value.surveyFault?` finds what keeps a
malformed tree from being surveyed.
-/

namespace Unravel

def blockKinds : List String :=
  ["BlockStatement", "ForStatement", "ForInStatement", "ForOfStatement", "SwitchStatement",
    "CatchClause"]

namespace Value

def scopeKind? (value : Value) : Option ScopeKind :=
  value.kind?.bind fun kind =>
    if kind = "Program" then some .program
    else if functionKinds.contains kind then some .function
    else if blockKinds.contains kind then some .block
    else none

def createsScope (value : Value) : Bool :=
  value.scopeKind?.isSome

/-- The body that shares the scope of the node it belongs to: a function's
block, and whatever a catch clause has as its body. -/
def sharedBody? (value : Value) : Option Nat :=
  let body := value.attr "body"
  if value.isFunction then if body.isKind "BlockStatement" then body.label? else none
  else if value.isKind "CatchClause" then body.label?
  else none

/-- Whether the names of a declaration belong to the block it stands in. -/
def isBlockScoped (value : Value) : Bool :=
  value.hasText "kind" "let" || value.hasText "kind" "const"

/-- The target that a loop over names or values writes to, unless it declares
it. -/
def loopTarget (value : Value) : Value :=
  if (value.attr "left").isKind "VariableDeclaration" then .null else value.attr "left"

/-- The identifiers that a node itself writes to. -/
def writtenIdentifiers (value : Value) : List Value :=
  if value.isKind "AssignmentExpression" then (value.attr "left").patternIdentifiers
  else if value.isKind "UpdateExpression" then
    if (value.attr "argument").isIdentifier then [value.attr "argument"] else []
  else if value.isKind "ForInStatement" || value.isKind "ForOfStatement" then
    value.loopTarget.patternIdentifiers
  else []

end Value

/-- A write to a name, seen from a scope. -/
structure NotedWrite where
  scope : Nat
  name : Name
  label : Nat
deriving DecidableEq, Repr

/-- What a survey has found so far; the latest write comes first. -/
structure Survey where
  index : ScopeIndex
  writes : List NotedWrite
deriving Repr

namespace Survey

def register (survey : Survey) (scope : Nat) (kind : BindingKind) (node identifier : Value) :
    Survey :=
  match identifier.name?, node.label? with
  | some name, some label =>
    { survey with index := survey.index.modify scope fun found =>
        found.register ⟨name, kind, node, identifier, []⟩ label }
  | _, _ => survey

def registerAll (survey : Survey) (scope : Nat) (kind : BindingKind) (node : Value)
    (identifiers : List Value) : Survey :=
  identifiers.foldl (fun survey identifier => survey.register scope kind node identifier) survey

/-- Notes a write to each name of a list of identifiers. -/
def note (survey : Survey) (scope : Nat) (node : Value) (identifiers : List Value) : Survey :=
  identifiers.foldl
    (fun survey identifier =>
      match identifier.name?, node.label? with
      | some name, some label =>
        { survey with writes := ⟨scope, name, label⟩ :: survey.writes }
      | _, _ => survey)
    survey

/-- A function declaration is known by its name in the scope around it. -/
def hoist (survey : Survey) (value : Value) (scope : Option Nat) : Survey :=
  match scope with
  | some scope =>
    if value.isKind "FunctionDeclaration" && !(value.attr "id").isNull then
      survey.register scope .hoisted value (value.attr "id")
    else survey
  | none => survey

/-- Opens the scope of a node that creates one and is not known yet. -/
def openScope (survey : Survey) (value : Value) (outer : Option Nat) : Survey × Option Nat :=
  match value.label?.bind survey.index.owner? with
  | some known => (survey, some known)
  | none =>
    match value.scopeKind?, value.label?, value.kind? with
    | some kind, some label, some opener =>
      let index := survey.index
      let number := index.scopes.length
      let enclosing := outer.elim [] index.chain
      let shared := (value.sharedBody?.map fun body => (body, number)).toList
      let program :=
        if kind = .program then index.program.orElse fun _ => some number else index.program
      ({ survey with
          index := ⟨index.scopes ++ [⟨label, opener, kind, enclosing, []⟩],
            (label, number) :: shared ++ index.owners, program⟩ },
        some number)
    | _, _, _ => (survey, outer)

def declarator (survey : Survey) (scope : Nat) (keyword : Value) (node : Value) : Survey :=
  survey.registerAll scope (.declared keyword) node (node.attr "id").patternIdentifiers

/-- What a node itself declares in, and writes from, the scope it opens or
stands in. -/
def declare (survey : Survey) (value : Value) (inner : Nat) : Survey :=
  if value.isFunction then
    let survey :=
      if value.isKind "FunctionExpression" && !(value.attr "id").isNull then
        survey.register inner .ownName value (value.attr "id")
      else survey
    survey.registerAll inner .param value
      ((value.attr "params").items.flatMap Value.patternIdentifiers)
  else if value.isKind "VariableDeclaration" then
    let target := if value.isBlockScoped then inner else survey.index.functionScope inner
    (value.attr "declarations").items.foldl
      (fun survey node => survey.declarator target (value.attr "kind") node) survey
  else if value.isKind "ClassDeclaration" then
    if (value.attr "id").isNull then survey
    else survey.register inner .classDeclared value (value.attr "id")
  else if value.isKind "CatchClause" then
    survey.registerAll inner .caught value (value.attr "param").patternIdentifiers
  else survey.note inner value value.writtenIdentifiers

/-- Surveys a tree inside a scope. Without a scope around it, a tree that opens
none is left alone. -/
def visit (value : Value) (outer : Option Nat) (survey : Survey) : Survey :=
  let (survey, inner) := (survey.hoist value outer).openScope value outer
  match inner with
  | none => survey
  | some scope =>
    value.children.attach.foldl (fun survey child => visit child.val (some scope) survey)
      (survey.declare value scope)
termination_by sizeOf value
decreasing_by exact Value.sizeOf_lt_of_mem_children child.property

/-- Counts a noted write against the binding its name has. -/
def settle (index : ScopeIndex) (write : NotedWrite) : ScopeIndex :=
  match index.lookup write.scope write.name with
  | some (scope, _) => index.modify scope fun found => found.write write.name write.label
  | none => index

end Survey

/-! ## Malformed trees -/

namespace Value

/-- What keeps the names of a pattern from being declared. -/
def bindingFault? (pattern : Value) : Option SortFault :=
  pattern.patternFault?.or (pattern.patternIdentifiers.findSome? nameFault?)

/-- What keeps the name of a node's own identifier from being declared. -/
def ownNameFault? (value : Value) : Option SortFault :=
  if (value.attr "id").isNull then none else (value.attr "id").nameFault?

/-- What keeps a function declaration from being known around it. -/
def hoistingFault? (value : Value) : Option SortFault :=
  if value.isKind "FunctionDeclaration" then value.ownNameFault? else none

def declaratorFault? (declarator : Value) : Option SortFault :=
  (declarator.attrFault? "id").or (declarator.attr "id").bindingFault?

/-- What keeps a node from declaring its names, or from being asked for those
it writes to. -/
def declarationFault? (value : Value) : Option SortFault :=
  if value.isFunction then
    (if value.isKind "FunctionExpression" then value.ownNameFault? else none).or
      ((value.attr "params").anyIterationFault?.or
        ((value.attr "params").items.findSome? bindingFault?))
  else if value.isKind "VariableDeclaration" then
    (value.attr "declarations").iterationFault?.or
      ((value.attr "declarations").elements.findSome? declaratorFault?)
  else if value.isKind "ClassDeclaration" then value.ownNameFault?
  else if value.isKind "CatchClause" then (value.attr "param").bindingFault?
  else if value.isKind "AssignmentExpression" then (value.attr "left").patternFault?
  else if value.isKind "ForInStatement" || value.isKind "ForOfStatement" then
    value.loopTarget.patternFault?
  else none

/-- What keeps a tree from being surveyed, inside a scope or not. Declarations
come first, in document order, and then the names that are written to. -/
def surveyFault? (value : Value) (inScope : Bool) : Option SortFault :=
  if !inScope && !value.createsScope then none
  else
    (if inScope then value.hoistingFault? else none).or
      (value.declarationFault?.or
        (((value.nodes.drop 1).findSome? fun node =>
            node.hoistingFault?.or node.declarationFault?).or
          (value.nodes.findSome? fun node => node.writtenIdentifiers.findSome? nameFault?)))

end Value

namespace ScopeIndex

/-- The index with a tree added inside a scope. -/
def extend (index : ScopeIndex) (value : Value) (outer : Option Nat) : ScopeIndex :=
  let survey := Survey.visit value outer ⟨index, []⟩
  survey.writes.reverse.foldl Survey.settle survey.index

def build (value : Value) : ScopeIndex :=
  empty.extend value none

/-- The scope in force inside a node, without adding to the index. -/
def known? (index : ScopeIndex) (value : Value) : Option Nat :=
  value.label?.bind index.owner?

end ScopeIndex

end Unravel
