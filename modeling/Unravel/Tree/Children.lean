import Unravel.Tree.Value

/-!
Contract: which attributes of a node hold its children, and in which order.

`childFields` follows `childTable` for the kinds it lists. Nodes of other kinds
have as children whatever nodes their attributes hold, in the order of the
attributes. `nodes` lists a tree in document order, each node before its
children.
-/

namespace Unravel

/-- Child attributes of each listed kind, in document order. -/
def childTable : Members (List String) :=
  [("Program", ["body"]),
    ("ExpressionStatement", ["expression"]),
    ("BlockStatement", ["body"]),
    ("EmptyStatement", []),
    ("DebuggerStatement", []),
    ("WithStatement", ["object", "body"]),
    ("ReturnStatement", ["argument"]),
    ("LabeledStatement", ["label", "body"]),
    ("BreakStatement", ["label"]),
    ("ContinueStatement", ["label"]),
    ("IfStatement", ["test", "consequent", "alternate"]),
    ("SwitchStatement", ["discriminant", "cases"]),
    ("SwitchCase", ["test", "consequent"]),
    ("ThrowStatement", ["argument"]),
    ("TryStatement", ["block", "handler", "finalizer"]),
    ("CatchClause", ["param", "body"]),
    ("WhileStatement", ["test", "body"]),
    ("DoWhileStatement", ["body", "test"]),
    ("ForStatement", ["init", "test", "update", "body"]),
    ("ForInStatement", ["left", "right", "body"]),
    ("ForOfStatement", ["left", "right", "body"]),
    ("FunctionDeclaration", ["id", "params", "body"]),
    ("FunctionExpression", ["id", "params", "body"]),
    ("ArrowFunctionExpression", ["params", "body"]),
    ("VariableDeclaration", ["declarations"]),
    ("VariableDeclarator", ["id", "init"]),
    ("ClassDeclaration", ["id", "superClass", "body"]),
    ("ClassExpression", ["id", "superClass", "body"]),
    ("ClassBody", ["body"]),
    ("MethodDefinition", ["key", "value"]),
    ("ThisExpression", []),
    ("Super", []),
    ("Identifier", []),
    ("Literal", []),
    ("ArrayExpression", ["elements"]),
    ("ObjectExpression", ["properties"]),
    ("Property", ["key", "value"]),
    ("UnaryExpression", ["argument"]),
    ("UpdateExpression", ["argument"]),
    ("BinaryExpression", ["left", "right"]),
    ("LogicalExpression", ["left", "right"]),
    ("AssignmentExpression", ["left", "right"]),
    ("ConditionalExpression", ["test", "consequent", "alternate"]),
    ("CallExpression", ["callee", "arguments"]),
    ("NewExpression", ["callee", "arguments"]),
    ("MemberExpression", ["object", "property"]),
    ("SequenceExpression", ["expressions"]),
    ("SpreadElement", ["argument"]),
    ("RestElement", ["argument"]),
    ("YieldExpression", ["argument"]),
    ("AwaitExpression", ["argument"]),
    ("TemplateLiteral", ["quasis", "expressions"]),
    ("TaggedTemplateExpression", ["tag", "quasi"]),
    ("TemplateElement", []),
    ("AssignmentPattern", ["left", "right"]),
    ("ArrayPattern", ["elements"]),
    ("ObjectPattern", ["properties"])]

/-- Attributes that describe a node and never hold children. -/
def descriptiveFields : List String :=
  ["type", "range", "loc", "leadingComments", "trailingComments"]

namespace Value

/-- The nodes that one attribute holds: itself, or those among its items. -/
def slotNodes : Value → List Value
  | .list items => items.filter isNode
  | value => if value.isNode then [value] else []

/-- Child attributes of a node whose kind is not listed. -/
def openFields (value : Value) : List String :=
  value.fields.filterMap fun field =>
    if descriptiveFields.contains field.1 || field.2.slotNodes.isEmpty then none
    else some field.1

def childFields (value : Value) : List String :=
  match value.kind?.bind (Members.get? childTable) with
  | some names => names
  | none => value.openFields

def children (value : Value) : List Value :=
  value.childFields.flatMap fun name => (value.attr name).slotNodes

theorem sizeOf_le_of_mem_slotNodes {value child : Value} (member : child ∈ value.slotNodes) :
    sizeOf child ≤ sizeOf value := by
  cases value with
  | list items =>
    have within := List.sizeOf_lt_of_mem (List.mem_filter.1 member).1
    simp
    omega
  | node label kind fields => simp_all [slotNodes, isNode]
  | _ => simp [slotNodes, isNode] at member

theorem sizeOf_lt_of_mem_children {value child : Value} (member : child ∈ value.children) :
    sizeOf child < sizeOf value := by
  obtain ⟨name, _, inSlot⟩ := List.mem_flatMap.1 member
  have atMost := sizeOf_le_of_mem_slotNodes inSlot
  have present : value.attr name ≠ .null := by
    intro missing
    simp [missing, slotNodes, isNode] at inSlot
  have smaller := sizeOf_attr_lt present
  omega

/-- A value and the nodes below it in document order. -/
def nodes (value : Value) : List Value :=
  value :: value.children.attach.flatMap fun child => nodes child.val
termination_by sizeOf value
decreasing_by exact sizeOf_lt_of_mem_children child.property

theorem nodes_eq (value : Value) : value.nodes = value :: value.children.flatMap nodes := by
  rw [nodes, List.flatMap_subtype fun _ _ => rfl, List.unattach_attach]

end Value

end Unravel
