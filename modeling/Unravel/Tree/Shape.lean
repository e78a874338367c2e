import Unravel.Json.Escape
import Unravel.Text.Word
import Unravel.Tree.Children
import Unravel.Tree.Sort

/-!
Contract: the shapes of nodes the passes recognise, and the nodes they build.

Literals never carry a negative number: a negative one is a unary minus over
its magnitude, and the numbers without digits are the global names NaN and
Infinity.
-/

namespace Unravel

def functionKinds : List String :=
  ["FunctionDeclaration", "FunctionExpression", "ArrowFunctionExpression"]

namespace Value

/-! ## Recognised shapes -/

def isIdentifier (value : Value) : Bool :=
  value.isKind "Identifier"

def identifier? (value : Value) : Option Name :=
  if value.isIdentifier then value.name? else none

def isNamed (value : Value) (name : String) : Bool :=
  value.identifier? == some (.text name)

def isFunction (value : Value) : Bool :=
  match value.kind? with
  | some kind => functionKinds.contains kind
  | none => false

def numeral? (value : Value) : Option Numeral :=
  if value.isKind "Literal" then
    match value.attr "value" with
    | .number numeral => some numeral
    | _ => none
  else none

def double? (value : Value) : Option Double :=
  value.numeral?.map Numeral.toDouble

def string? (value : Value) : Option String :=
  if value.isKind "Literal" then (value.attr "value").text? else none

/-- Numeric literals written in a base other than ten. -/
def isNonDecimal (value : Value) : Bool :=
  value.numeral?.isSome &&
    match (value.attr "raw").text? with
    | some raw => Text.isNonDecimal raw
    | none => false

def negated? (value : Value) : Option Value :=
  if value.isKind "UnaryExpression" && value.hasText "operator" "-" then
    some (value.attr "argument")
  else none

/-- Spellings of numbers that are final: a decimal literal or a global name,
with or without a minus. -/
def isPlainNumber (value : Value) : Bool :=
  let operand := value.negated?.getD value
  operand.isNamed "Infinity" || operand.isNamed "NaN" ||
    (operand.numeral?.isSome && !operand.isNonDecimal)

/-! ## New nodes -/

def literalNode (value : Value) (raw : String) : Fresh Value := do
  return .node (← fresh) "Literal" [("value", value), ("raw", .text raw)]

def identifierNode (name : String) : Fresh Value := do
  return .node (← fresh) "Identifier" [("name", .text name)]

def minusNode (operand : Value) : Fresh Value := do
  return .node (← fresh) "UnaryExpression"
    [("operator", .text "-"), ("argument", operand), ("prefix", .bool true)]

def memberNode (object property : Value) : Fresh Value := do
  return .node (← fresh) "MemberExpression"
    [("computed", .bool false), ("object", object), ("property", property)]

def stringNode (text : String) : Fresh Value :=
  literalNode (.text text) (Json.literal text)

def magnitudeNode (magnitude : Double) : Fresh Value :=
  if magnitude.isInfinite then identifierNode "Infinity"
  else literalNode (.number magnitude.toNumeral) magnitude.spelling

def numberNode (value : Double) : Fresh Value :=
  if value.isNaN then identifierNode "NaN"
  else do
    let operand ← magnitudeNode value.abs
    if value.isNegative then minusNode operand else return operand

/-- The spelling of an integer as a node; integers beyond the range of doubles
have none. -/
def integerNode (value : Int) : Except ArithmeticFault (Fresh Value) := do
  let numeral ← Numeral.literal (.integer value.natAbs)
  let raw ← Numeral.spelling (.integer value.natAbs)
  return do
    let operand ← literalNode (.number numeral) raw
    if value < 0 then minusNode operand else return operand

end Value

end Unravel
