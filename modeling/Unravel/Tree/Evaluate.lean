import Unravel.Tree.Shape

/-!
Contract: the number that a constant expression stands for.

Constant expressions are built from numeric literals by unary minus and six
binary operators. `evaluateWith` is given the meaning of the operators;
`evaluate` takes theirs on doubles.
-/

namespace Unravel

inductive Operator where
  | plus
  | minus
  | times
  | over
  | modulo
  | power
deriving DecidableEq, Repr

namespace Operator

def ofText? (text : String) : Option Operator :=
  if text = "+" then some .plus
  else if text = "-" then some .minus
  else if text = "*" then some .times
  else if text = "/" then some .over
  else if text = "%" then some .modulo
  else if text = "**" then some .power
  else none

/-- The operators on doubles, with the answers to their refusals. -/
def answer (operator : Operator) (left right : Double) : Except ArithmeticFault Double :=
  match operator with
  | .plus => .ok (left.add right)
  | .minus => .ok (left.subtract right)
  | .times => .ok (left.multiply right)
  | .over => left.answerQuotient right
  | .modulo => left.answerModulus right
  | .power => left.answerPower right

/-- The meaning of the operators on doubles. -/
def onDoubles (operator : Operator) (left right : Double) : Double :=
  Double.settled (operator.answer left right)

end Operator

namespace Value

/-- The operator of a binary expression, when it is one of the six. -/
def operator? (value : Value) : Option Operator :=
  (value.attr "operator").text?.bind Operator.ofText?

def evaluateWith (meaning : Operator → Double → Double → Double) (value : Value) :
    Option Double :=
  match _isNode : value.kind? with
  | none => none
  | some kind =>
    if kind = "Literal" then value.double?
    else if kind = "UnaryExpression" then
      if value.hasText "operator" "-" then
        (evaluateWith meaning (value.attr "argument")).map Double.negate
      else none
    else if kind = "BinaryExpression" then
      match value.operator? with
      | none => none
      | some operator =>
        match evaluateWith meaning (value.attr "left"),
          evaluateWith meaning (value.attr "right") with
        | some left, some right => some (meaning operator left right)
        | _, _ => none
    else none
termination_by sizeOf value
decreasing_by all_goals exact sizeOf_attr_lt_of_kind? _ _isNode

def evaluate (value : Value) : Option Double :=
  value.evaluateWith Operator.onDoubles

/-- What keeps a malformed expression from being evaluated: an operator that is
a list, in a place that evaluation from left to right comes to. -/
def evaluationFault? (value : Value) : Option SortFault :=
  match _isNode : value.kind? with
  | none => none
  | some kind =>
    if kind = "UnaryExpression" then
      if value.hasText "operator" "-" then evaluationFault? (value.attr "argument") else none
    else if kind = "BinaryExpression" then
      match value.operator? with
      | none => (value.attr "operator").keyFault?
      | some _ =>
        (evaluationFault? (value.attr "left")).or
          (if (value.attr "left").evaluate.isSome then evaluationFault? (value.attr "right")
          else none)
    else none
termination_by sizeOf value
decreasing_by all_goals exact sizeOf_attr_lt_of_kind? _ _isNode

/-- Whether evaluation from left to right, with room for so many expressions inside each
other, runs out of it before it comes to an end or to a malformed expression. -/
def overflows : Nat → Value → Bool
  | 0, _ => true
  | room + 1, value =>
    if value.isKind "UnaryExpression" then
      value.hasText "operator" "-" && overflows room (value.attr "argument")
    else if value.isKind "BinaryExpression" then
      value.operator?.isSome && (overflows room (value.attr "left") ||
        ((value.attr "left").evaluationFault?.isNone && (value.attr "left").evaluate.isSome &&
          overflows room (value.attr "right")))
    else false

/-- The texts joined by a tree of + expressions over string literals, in order. -/
def leaves? (value : Value) : Option (List String) :=
  match value.string? with
  | some leaf => some [leaf]
  | none =>
    if _isBinary : value.isKind "BinaryExpression" = true then
      if value.hasText "operator" "+" then
        match leaves? (value.attr "left"), leaves? (value.attr "right") with
        | some left, some right => some (left ++ right)
        | _, _ => none
      else none
    else none
termination_by sizeOf value
decreasing_by
  all_goals exact sizeOf_attr_lt_of_kind? _ (kind?_of_isKind _isBinary)

/-- The leaves of a + expression that joins string literals only. -/
def concatenation? (value : Value) : Option (List String) :=
  if value.isKind "BinaryExpression" && value.hasText "operator" "+" then value.leaves?
  else none

end Value

end Unravel
