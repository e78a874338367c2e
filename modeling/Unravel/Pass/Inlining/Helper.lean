import Unravel.Pass.Inlining.Substitution
import Unravel.Scope.Basic

/-!
Contract: what a call of a helper function may be replaced with.

A helper has a body of one return statement. Its return expression takes the
place of a call, with arguments for parameters, when that can change neither
what names mean nor the order or number of side effects.

`inlineFault?` finds what keeps a malformed function or call from being judged.
It follows the judgement: a refusal comes before the faults behind it.
-/

namespace Unravel.Pass.Inlining

open Value (Fresh Substitution)

/-- A block body of exactly one return statement. -/
def isSimple (function : Value) : Bool :=
  let body := function.attr "body"
  body.isKind "BlockStatement" &&
    match (body.attr "body").items with
    | [statement] => statement.isKind "ReturnStatement"
    | _ => false

/-- The expression a simple function returns; null for a bare return. -/
def returned (function : Value) : Value :=
  match ((function.attr "body").attr "body").items with
  | statement :: _ => statement.attr "argument"
  | [] => .null

def pureOperators : List String := ["-", "+", "!", "~"]

/-- Arguments that can be evaluated at any time and any number of times. -/
def isPure (value : Value) : Bool :=
  value.isKind "Literal" || value.isKind "Identifier" || value.isKind "ThisExpression" ||
    (value.isKind "UnaryExpression" &&
      (match (value.attr "operator").text? with
        | some operator => pureOperators.contains operator
        | none => false) &&
      (value.attr "argument").isKind "Literal")

/-- Kinds whose meaning depends on the function they stand in. -/
def contextKinds : List String :=
  functionKinds ++
    ["ThisExpression", "Super", "YieldExpression", "AwaitExpression", "ClassExpression"]

/-- Kinds that may have side effects of their own. -/
def effectKinds : List String :=
  ["CallExpression", "NewExpression", "AssignmentExpression", "UpdateExpression",
    "TaggedTemplateExpression"]

def needsContext (value : Value) : Bool :=
  (match value.kind? with
    | some kind => contextKinds.contains kind
    | none => false) ||
    value.isNamed "arguments"

def isEffect (value : Value) : Bool :=
  (match value.kind? with
    | some kind => effectKinds.contains kind
    | none => false) ||
    (value.isKind "UnaryExpression" && value.hasText "operator" "delete")

def hasEffects (expression : Value) : Bool :=
  expression.nodes.any isEffect

/-- The scope that binds a name, seen from a scope. -/
def binder? (index : ScopeIndex) (scope : Option Nat) (name : Name) : Option Nat :=
  scope.bind fun number => (index.lookup number name).map Prod.fst

/-- The parameters with impure arguments, in the order of the call. -/
def impureNames (arguments : Substitution) : List Name :=
  arguments.filterMap fun entry => if isPure entry.2 then none else some entry.1

/-- Whether one reference of the return expression may move to the call: a
parameter unless an impure argument would become conditional, and any other
name if it means the same there. -/
def mayMove (index : ScopeIndex) (arguments : Substitution) (functionScope callScope : Option Nat)
    (reference : Value × Bool) : Bool :=
  match reference.1.name? with
  | none => true
  | some name =>
    match Names.get? arguments name with
    | some argument => isPure argument || !reference.2
    | none => binder? index functionScope name == binder? index callScope name

/-- The references to parameters with impure arguments, by name, in the order
in which the return expression makes them. -/
def impureUses (arguments : Substitution) (references : List (Value × Bool)) : List Name :=
  references.filterMap fun reference =>
    reference.1.name?.filter fun name => name.isIn (impureNames arguments)

def isSafe (index : ScopeIndex) (expression : Value) (arguments : Substitution)
    (functionScope callScope : Option Nat) : Bool :=
  let references := expression.references false
  let impure := impureNames arguments
  !expression.nodes.any needsContext &&
    references.all (mayMove index arguments functionScope callScope) &&
    (impure.isEmpty || !hasEffects expression) &&
    (impureUses arguments references).map Name.key == impure.map Name.key

/-- The names of parameters that are all plain identifiers. -/
def parameterNames? (function : Value) : Option (List Name) :=
  (function.attr "params").elements.mapM Value.identifier?

/-- Whether every argument is an expression of its own. -/
def areExpressions (arguments : List Value) : Bool :=
  arguments.all fun argument => argument.isNode && !argument.isKind "SpreadElement"

/-- The replacement of a call of a function with given arguments, when there is
one. The scopes are those of the function and of the call. -/
def inline? (index : ScopeIndex) (function : Value) (arguments : List Value)
    (functionScope callScope : Option Nat) : Option (Fresh Value) :=
  if !isSimple function then none
  else if !areExpressions arguments then none
  else
    match parameterNames? function with
    | none => none
    | some parameters =>
      if parameters.length != arguments.length then none
      else
        let expression := returned function
        let substitution := Names.ofList (parameters.zip arguments)
        if expression.isNull then none
        else if isSafe index expression substitution functionScope callScope then
          expression.substitute substitution
        else none

/-! ## Malformed functions and calls -/

/-- What keeps a body from being judged simple or not. -/
def simplicityFault? (function : Value) : Option SortFault :=
  let body := function.attr "body"
  if body.isKind "BlockStatement" then (body.attr "body").lengthFault? else none

/-- What keeps an argument from being judged pure or not. -/
def purityFault? (value : Value) : Option SortFault :=
  if value.isKind "UnaryExpression" then (value.attr "operator").keyFault? else none

/-- What keeps a reference from being judged: its own name, or the argument that
would take its place. -/
def referenceFault? (arguments : Substitution) (value : Value) : Option SortFault :=
  value.searchFault?.or ((value.name?.bind (Names.get? arguments)).bind purityFault?)

/-- What keeps a return expression from being judged. References are looked at
up to the first one that may not move, and then the arguments. -/
def safetyFault? (index : ScopeIndex) (expression : Value) (arguments : Substitution)
    (functionScope callScope : Option Nat) : Option SortFault :=
  let moves := mayMove index arguments functionScope callScope
  if expression.nodes.any needsContext then none
  else
    (expression.fieldsFault?.or
      (Value.faultWhile (referenceFault? arguments) moves (expression.searchEnds false))).or
      (if (expression.references false).all moves then
        arguments.findSome? fun entry => purityFault? entry.2
      else none)

/-- What keeps a call of a function from being judged and replaced. -/
def inlineFault? (index : ScopeIndex) (function : Value) (arguments : List Value)
    (functionScope callScope : Option Nat) : Option SortFault :=
  let params := function.attr "params"
  let expression := returned function
  match simplicityFault? function with
  | some fault => some fault
  | none =>
    if !isSimple function || !areExpressions arguments then none
    else
      match params.anyLengthFault? with
      | some fault => some fault
      | none =>
        if params.elements.length != arguments.length || expression.isNull ||
            !params.elements.all Value.isIdentifier then none
        else
          (params.elements.findSome? Value.nameFault?).or
            (match parameterNames? function with
              | none => none
              | some parameters =>
                let substitution := Names.ofList (parameters.zip arguments)
                (safetyFault? index expression substitution functionScope callScope).or
                  (if isSafe index expression substitution functionScope callScope then
                    expression.substitutionFault? substitution
                  else none))

end Unravel.Pass.Inlining
