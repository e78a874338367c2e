import Unravel.Tree.Value

/-!
Contract: nodes of the commonest kinds.

Programs that theorems are tried on are written with these; each takes the label of
the node first and then its attributes.
-/

namespace Unravel.Value

abbrev identifier (label : Nat) (name : String) : Value :=
  .node label "Identifier" [("name", .text name)]

abbrev string (label : Nat) (value : String) : Value :=
  .node label "Literal" [("value", .text value)]

abbrev integer (label : Nat) (value : Int) : Value :=
  .node label "Literal" [("value", .number (.integer value))]

/-- An integer with its spelling. -/
abbrev spelled (label : Nat) (value : Int) (raw : String) : Value :=
  .node label "Literal" [("value", .number (.integer value)), ("raw", .text raw)]

abbrev binary (label : Nat) (operator : String) (left right : Value) : Value :=
  .node label "BinaryExpression" [("operator", .text operator), ("left", left), ("right", right)]

abbrev assignment (label : Nat) (left right : Value) : Value :=
  .node label "AssignmentExpression" [("operator", .text "="), ("left", left), ("right", right)]

abbrev call (label : Nat) (callee : Value) (arguments : List Value) : Value :=
  .node label "CallExpression" [("callee", callee), ("arguments", .list arguments)]

/-- A member that is computed, or is named. -/
abbrev member (label : Nat) (computed : Bool) (object property : Value) : Value :=
  .node label "MemberExpression" [("computed", .bool computed), ("object", object),
    ("property", property)]

abbrev array (label : Nat) (elements : List Value) : Value :=
  .node label "ArrayExpression" [("elements", .list elements)]

abbrev statement (label : Nat) (expression : Value) : Value :=
  .node label "ExpressionStatement" [("expression", expression)]

abbrev returns (label : Nat) (result : Value) : Value :=
  .node label "ReturnStatement" [("argument", result)]

abbrev block (label : Nat) (body : List Value) : Value :=
  .node label "BlockStatement" [("body", .list body)]

abbrev declaration (label : Nat) (declarators : List Value) : Value :=
  .node label "VariableDeclaration" [("kind", .text "var"), ("declarations", .list declarators)]

abbrev declarator (label : Nat) (id init : Value) : Value :=
  .node label "VariableDeclarator" [("id", id), ("init", init)]

abbrev function (label : Nat) (id : Value) (params : List Value) (body : Value) : Value :=
  .node label "FunctionDeclaration" [("id", id), ("params", .list params), ("body", body)]

abbrev program (body : List Value) : Value :=
  .node 0 "Program" [("body", .list body)]

end Unravel.Value
