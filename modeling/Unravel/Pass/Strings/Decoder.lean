import Unravel.Tree.Shape

/-!
Contract: the shape of a function that reads a string table.

Only the statements of the body itself are looked at: what they assign, declare
or return. A decoder reads one array, at its argument less one offset; two
different arrays or offsets leave no shape.
-/

namespace Unravel.Pass.Strings

/-- The array a decoder reads and what it takes off its argument. -/
structure DecoderShape where
  array : Name
  offset : Double
deriving DecidableEq, Repr

structure Offset where
  amount : Double
  added : Bool
deriving DecidableEq, Repr

namespace Offset

def value (offset : Offset) : Double :=
  if offset.added then offset.amount.negate else offset.amount

/-- Whether two offsets are one. They are compared as numbers; taking NaN off is
one offset wherever it is done, and adding it another each time. -/
def same (left right : Offset) : Bool :=
  left.value.same right.value ||
    (left.value.isNaN && right.value.isNaN && !left.added && !right.added)

end Offset

/-- The amount that an expression takes off its left operand. -/
def offset? (value : Value) : Option Offset :=
  if value.isKind "BinaryExpression" then
    match (value.attr "right").double? with
    | none => none
    | some amount =>
      if value.hasText "operator" "-" then some ⟨amount, false⟩
      else if value.hasText "operator" "+" then some ⟨amount, true⟩
      else none
  else none

/-- Whether an expression reads a computed member of an identifier. -/
def isMemberRead (value : Value) : Bool :=
  value.isKind "MemberExpression" && (value.attr "computed").truthy &&
    (value.attr "object").isIdentifier

/-- The array that a computed member of an identifier reads, and the offset in
its key. -/
def memberRead? (value : Value) : Option (Name × Option Offset) :=
  if isMemberRead value then
    match (value.attr "object").name? with
    | none | some .absent => none
    | some array => some (array, offset? (value.attr "property"))
  else none

/-- The expressions whose value a statement stores; the offsets are read off
these. -/
def storedBy (statement : Value) : List Value :=
  if statement.isKind "ExpressionStatement" then
    let expression := statement.attr "expression"
    if expression.isKind "AssignmentExpression" && expression.hasText "operator" "=" then
      [expression.attr "right"]
    else []
  else if statement.isKind "VariableDeclaration" then
    (statement.attr "declarations").items.map fun declarator => declarator.attr "init"
  else []

/-- The expressions of a statement that may read the table. -/
def readsOf (statement : Value) : List Value :=
  if statement.isKind "ReturnStatement" then [statement.attr "argument"] else storedBy statement

/-- Adds an offset to a list that has none equal to it. -/
def insertOffset (offsets : List Offset) (offset : Offset) : List Offset :=
  if offsets.any (·.same offset) then offsets else offsets ++ [offset]

def insertName (names : List Name) (name : Name) : List Name :=
  if name.isIn names then names else names ++ [name]

def statementsOf (function : Value) : List Value :=
  let body := function.attr "body"
  if body.isKind "BlockStatement" then (body.attr "body").items else []

/-- The expressions of a function that may read the table. -/
def candidatesOf (function : Value) : List Value :=
  let body := function.attr "body"
  if body.isKind "BlockStatement" then (statementsOf function).flatMap readsOf else [body]

def analyze (function : Value) : Option DecoderShape :=
  let reads := (candidatesOf function).filterMap memberRead?
  let offsets :=
    ((statementsOf function).flatMap storedBy).filterMap offset? ++ reads.filterMap Prod.snd
  match (reads.map Prod.fst).foldl insertName [], offsets.foldl insertOffset [] with
  | [array], [] => some ⟨array, .zero false⟩
  | [array], [offset] => some ⟨array, offset.value⟩
  | _, _ => none

/-! ## Malformed functions -/

/-- What keeps the declarators of a statement from being read. -/
def statementFault? (statement : Value) : Option SortFault :=
  if statement.isKind "VariableDeclaration" then
    let declarations := statement.attr "declarations"
    declarations.iterationFault?.or
      (declarations.elements.findSome? fun declarator => declarator.attrFault? "init")
  else none

/-- What keeps the array of an expression from being told from others. -/
def readFault? (value : Value) : Option SortFault :=
  if isMemberRead value then ((value.attr "object").attr "name").keyFault? else none

/-- What keeps a function from being analysed: all statements are gone through
before the arrays are looked at. -/
def analysisFault? (function : Value) : Option SortFault :=
  let body := function.attr "body"
  ((function.attrFault? "body").or
    (if body.isKind "BlockStatement" then (body.attr "body").iterationFault? else none)).or
    (((statementsOf function).findSome? statementFault?).or
      ((candidatesOf function).findSome? readFault?))

end Unravel.Pass.Strings
