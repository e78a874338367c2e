import Unravel.Scope.Build

/-!
Contract: lexical scoping, said of a tree and not of an index.

Owns: which nodes of a tree open scopes and which scopes are in force at a node;
what a node declares, and the scope that is the home of the declaration; what a
node writes to; and the binding that a name has in a scope. Scopes are referred
to by the labels of the nodes that open them.

A path is a node with the nodes around it, inner ones first. Declarations and
writes stand where the node that makes them stands, so that their document
order is that of the paths.
-/

namespace Unravel

namespace Value

/-- The identifiers that a target binds: itself, or those inside a default, a
rest element or an array or object pattern. -/
inductive Binds : Value → Value → Prop where
  | identifier {target : Value} (is : target.kind? = some "Identifier") : Binds target target
  | default {target bound : Value} (is : target.kind? = some "AssignmentPattern")
      (inside : Binds (target.attr "left") bound) : Binds target bound
  | rest {target bound : Value} (is : target.kind? = some "RestElement")
      (inside : Binds (target.attr "argument") bound) : Binds target bound
  | element {target element bound : Value} (is : target.kind? = some "ArrayPattern") (member :
      element ∈ (target.attr "elements").items) (inside : Binds element bound) : Binds target bound
  | property {target property bound : Value} (is : target.kind? = some "ObjectPattern") (member :
      property ∈ (target.attr "properties").items) (plain : property.kind? = some "Property")
      (inside : Binds (property.attr "value") bound) : Binds target bound
  | restProperty {target property bound : Value} (is : target.kind? = some "ObjectPattern") (member
      : property ∈ (target.attr "properties").items) (spread : property.kind? = some "RestElement")
      (inside : Binds (property.attr "argument") bound) : Binds target bound

end Value

namespace Lexical

/-! ## Scopes -/

/-- The paths of a tree in document order. -/
def paths (node : Value) (above : List Value) : List (List Value) :=
  (node :: above) :: node.children.attach.flatMap fun child => paths child.val (node :: above)
termination_by sizeOf node
decreasing_by exact Value.sizeOf_lt_of_mem_children child.property

/-- A block that is the body of a function or a catch clause. -/
def isSharedBody (node : Value) : List Value → Bool
  | [] => false
  | parent :: _ =>
    (parent.isFunction || parent.isKind "CatchClause") && node.isKind "BlockStatement" &&
      (parent.attr "body").isKind "BlockStatement" && (parent.attr "body").label? == node.label?

/-- Programs, functions, blocks, loops, switches and catch clauses open a scope,
but a shared body does not. -/
def opens (node : Value) (above : List Value) : Bool :=
  node.createsScope && !isSharedBody node above

/-- The nodes whose scopes are in force inside the first node of a path. -/
def inForce : List Value → List Value
  | [] => []
  | node :: above => if opens node above then node :: inForce above else inForce above

/-- Programs and functions. -/
def isWide (node : Value) : Bool :=
  node.scopeKind? == some .program || node.scopeKind? == some .function

def labels (nodes : List Value) : List Nat := nodes.filterMap Value.label?

/-- A scope: the node that opens it, and the scopes around it, inner ones first. -/
structure Opening where
  label : Nat
  opener : String
  kind : ScopeKind
  enclosing : List Nat
deriving DecidableEq, Repr

def openingAt : List Value → List Opening
  | [] => []
  | node :: above =>
    if opens node above then
      match node.scopeKind?, node.label?, node.kind? with
      | some kind, some label, some opener => [⟨label, opener, kind, labels (inForce above)⟩]
      | _, _, _ => []
    else []

/-! ## Declarations -/

/-- A declaration of a name: the node that declares it, the identifier that
spells it, and the scope it belongs to. -/
structure Declaration where
  name : Name
  kind : BindingKind
  node : Value
  identifier : Value
  label : Nat
  home : Nat

def declared (kind : BindingKind) (node : Value) (identifiers : List Value)
    (home : Option Value) : List Declaration :=
  match node.label?, home.bind Value.label? with
  | some label, some home =>
    identifiers.filterMap fun identifier =>
      identifier.name?.map fun name => ⟨name, kind, node, identifier, label, home⟩
  | _, _ => []

/-- The identifier that names a function or a class. -/
def ownIdentifiers (node : Value) : List Value :=
  if (node.attr "id").isNull then [] else [node.attr "id"]

/-- A function declaration belongs to the scope around it. -/
def hoistedAt (node : Value) (above : List Value) : List Declaration :=
  if node.isKind "FunctionDeclaration" then
    declared .hoisted node (ownIdentifiers node) (inForce above).head?
  else []

/-- Parameters, the own name of a function expression and the parameter of a
catch clause belong to the scope that the node opens; `let`, `const` and classes
to the innermost scope; and other variables to the nearest function or program. -/
def declaredInside (node : Value) (scopes : List Value) : List Declaration :=
  if node.isFunction then
    (if node.isKind "FunctionExpression" then
      declared .ownName node (ownIdentifiers node) scopes.head?
    else []) ++ declared .param node ((node.attr "params").items.flatMap Value.patternIdentifiers)
      scopes.head?
  else if node.isKind "VariableDeclaration" then
    (node.attr "declarations").items.flatMap fun declarator =>
      declared (.declared (node.attr "kind")) declarator (declarator.attr "id").patternIdentifiers
        (if node.isBlockScoped then scopes.head? else scopes.find? isWide)
  else if node.isKind "ClassDeclaration" then
    declared .classDeclared node (ownIdentifiers node) scopes.head?
  else if node.isKind "CatchClause" then
    declared .caught node (node.attr "param").patternIdentifiers scopes.head?
  else []

def declarationsAt : List Value → List Declaration
  | [] => []
  | node :: above => hoistedAt node above ++ declaredInside node (inForce (node :: above))

/-! ## Writes -/

/-- A write to a name, with the scopes that are in force where it is made. -/
structure Write where
  name : Name
  label : Nat
  scopes : List Nat
deriving DecidableEq, Repr

def written (node : Value) (identifiers : List Value) (scopes : List Value) : List Write :=
  match node.label? with
  | some label =>
    identifiers.filterMap fun identifier =>
      identifier.name?.map fun name => ⟨name, label, labels scopes⟩
  | none => []

/-- What a node writes to: the target of an assignment, the variable of an
update, and the target of a loop over names or values that declares none. -/
def targets (node : Value) : List Value :=
  if node.isKind "AssignmentExpression" then [node.attr "left"]
  else if node.isKind "UpdateExpression" then [node.attr "argument"].filter Value.isIdentifier
  else if node.isKind "ForInStatement" || node.isKind "ForOfStatement" then
    [node.attr "left"].filter fun target => !target.isKind "VariableDeclaration"
  else []

def writesAt : List Value → List Write
  | [] => []
  | node :: above =>
    written node ((targets node).flatMap Value.patternIdentifiers) (inForce (node :: above))

/-! ## Bindings -/

def Declaration.isOf (home : Nat) (name : Name) (declaration : Declaration) : Bool :=
  declaration.home == home && declaration.name.same name

/-- The nearest scope, from where a write is made, in which its name is
declared. -/
def Write.target? (declarations : List Declaration) (write : Write) : Option Nat :=
  write.scopes.find? fun home => declarations.any (Declaration.isOf home write.name)

/-- The binding of a name in a scope: that of the first declaration, with the
others and then the writes counted against it. -/
def binding? (declarations : List Declaration) (writes : List Write) (home : Nat) (name : Name) :
    Option Binding :=
  match declarations.filter (Declaration.isOf home name) with
  | [] => none
  | first :: others =>
    some ⟨first.name, first.kind, first.node, first.identifier,
      others.map Declaration.label ++ (writes.filter fun write =>
          write.name.same name && write.target? declarations == some home).map Write.label⟩

/-! ## Whole trees -/

def openings (root : Value) : List Opening := (paths root []).flatMap openingAt

def declarations (root : Value) : List Declaration := (paths root []).flatMap declarationsAt

def writes (root : Value) : List Write := (paths root []).flatMap writesAt

end Lexical

end Unravel
