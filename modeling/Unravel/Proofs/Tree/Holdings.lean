import Unravel.Proofs.Scope.WellFormed
import Unravel.Proofs.Tree.Distinctness

/-!
Contract: what the attributes of nodes hold in a well-formed program.

`grammar` lists the attributes that passes rely on, kind by kind: names and
operators are texts, parameters, arguments and statements are lists, operands are
nodes. Nothing is asked of other attributes, so a literal may hold any value, nor
of kinds that are not listed.

A value is `Lawful` when all its objects keep to the grammar. It stays so when
a node is exchanged for one that `Fits` its place (`Lawful.putAt`), and so do
copies of it.
-/

namespace Unravel

/-- What an attribute may hold. -/
inductive Holding where
  | text
  /-- A truth value, or null. -/
  | flag
  | node
  /-- A node, or null. -/
  | maybeNode
  | list
  /-- A node of the kind. -/
  | kind (name : String)
  /-- A node of the kind, or null. -/
  | optional (name : String)
  /-- A list of nodes of the kind. -/
  | listOf (name : String)
deriving DecidableEq, Repr

namespace Holding

def admits : Holding → Value → Bool
  | .text, value => value.text?.isSome
  | .flag, .null => true
  | .flag, .bool _ => true
  | .flag, _ => false
  | .node, value => value.isNode
  | .maybeNode, value => value.isNull || value.isNode
  | .list, value => value.isList
  | .kind name, value => value.isKind name
  | .optional name, value => value.isNull || value.isKind name
  | .listOf name, value => value.isList && value.items.all (·.isKind name)

/-- The kind that is asked for. -/
def kind? : Holding → Option String
  | .kind name => some name
  | .optional name => some name
  | .listOf name => some name
  | _ => none

end Holding

structure GrammarRule where
  kind : String
  field : String
  holding : Holding
deriving DecidableEq, Repr

/-- What the attributes of the listed kinds hold. -/
def grammar : List GrammarRule := [⟨"Identifier", "name", .text⟩, ⟨"BinaryExpression", "operator",
  .text⟩, ⟨"UnaryExpression", "operator", .text⟩, ⟨"FunctionDeclaration", "id", .optional
  "Identifier"⟩, ⟨"FunctionExpression", "id", .optional "Identifier"⟩, ⟨"ClassDeclaration", "id",
  .optional "Identifier"⟩, ⟨"FunctionDeclaration", "params", .list⟩, ⟨"FunctionExpression",
  "params", .list⟩, ⟨"ArrowFunctionExpression", "params", .list⟩,
    ⟨"FunctionDeclaration", "body", .node⟩,
    ⟨"FunctionExpression", "body", .node⟩,
    ⟨"BlockStatement", "body", .list⟩,
    ⟨"ReturnStatement", "argument", .maybeNode⟩,
    ⟨"VariableDeclaration", "declarations", .listOf "VariableDeclarator"⟩,
    ⟨"CatchClause", "body", .kind "BlockStatement"⟩,
    ⟨"ArrayPattern", "elements", .list⟩,
    ⟨"ObjectPattern", "properties", .list⟩,
    ⟨"ArrayExpression", "elements", .list⟩,
    ⟨"CallExpression", "arguments", .list⟩,
    ⟨"MemberExpression", "object", .node⟩,
    ⟨"Property", "value", .node⟩,
    ⟨"Property", "shorthand", .flag⟩,
    ⟨"LogicalExpression", "left", .node⟩,
    ⟨"LogicalExpression", "right", .node⟩,
    ⟨"ConditionalExpression", "test", .node⟩,
    ⟨"ConditionalExpression", "consequent", .node⟩,
    ⟨"ConditionalExpression", "alternate", .node⟩]

/-- The kinds that some attribute asks for. -/
def pinnedKinds : List String := grammar.filterMap fun rule => rule.holding.kind?

namespace Value

/-- The attributes of the node hold what the grammar says. -/
def WellHeld (node : Value) : Prop :=
  ∀ rule ∈ grammar, node.isKind rule.kind = true → rule.holding.admits (node.attr rule.field) = true

instance : DecidablePred WellHeld := fun node =>
  inferInstanceAs (Decidable (∀ rule ∈ grammar, node.isKind rule.kind = true →
    rule.holding.admits (node.attr rule.field) = true))

/-- All objects of the value keep to the grammar. -/
def Lawful (value : Value) : Prop := ∀ object ∈ value.objects, object.WellHeld

instance : DecidablePred Lawful := fun value =>
  inferInstanceAs (Decidable (∀ object ∈ value.objects, object.WellHeld))

variable {node value new : Value}

theorem WellHeld.holds (held : node.WellHeld) (kind field : String) (holding : Holding) (listed :
    ⟨kind, field, holding⟩ ∈ grammar) (is : node.isKind kind) : holding.admits (node.attr field) :=
    held _ listed is

variable {kind : String} {old : Value}

theorem wellHeld_of_kind (is : node.kind? = some kind)
    (each : ∀ rule ∈ grammar.filter (·.kind == kind),
      rule.holding.admits (node.attr rule.field)) : node.WellHeld := by
  intro rule listed isKind
  cases is.symm.trans (kind?_of_isKind isKind)
  exact each rule (List.mem_filter.2 ⟨listed, beq_self_eq_true _⟩)

/-! ## Parts -/

section Parts

variable (lawful : value.Lawful)

include lawful

theorem Lawful.wellHeld (isObject : value.isObject) : value.WellHeld :=
  lawful value (mem_objects_self isObject)

theorem Lawful.holds (kind field : String) (holding : Holding) (listed : ⟨kind, field, holding⟩ ∈
    grammar) (is : value.isKind kind) : holding.admits (value.attr field) := (lawful.wellHeld
    (isObject_of_kind? (kind?_of_isKind is))).holds kind field holding listed is

theorem Lawful.isIdentifier_id (is : value.kind? = some "FunctionDeclaration")
    (named : (!(value.attr "id").isNull)) : (value.attr "id").isIdentifier := by
  have admits := lawful.holds "FunctionDeclaration" "id" (.optional "Identifier") (by decide)
    (beq_iff_eq.2 is)
  rw [Bool.not_eq_true'] at named
  rwa [Holding.admits, named] at admits

theorem Lawful.arguments (is : value.kind? = some "CallExpression") :
    (value.attr "arguments").isList :=
  lawful.holds "CallExpression" "arguments" .list (by decide) (beq_iff_eq.2 is)

theorem Lawful.statements (is : value.isKind "BlockStatement") : (value.attr "body").isList :=
  lawful.holds "BlockStatement" "body" .list (by decide) is

theorem Lawful.name (is : value.isIdentifier) : (value.attr "name").text?.isSome :=
  lawful.holds "Identifier" "name" .text (by decide) is

theorem Lawful.attr (name : String) : (value.attr name).Lawful :=
  fun object member => lawful object (mem_objects_of_attr member)

theorem Lawful.item {item : Value} (isItem : item ∈ value.items) : item.Lawful :=
  fun object member => lawful object (mem_objects_of_item isItem member)

theorem Lawful.at? {inner : Value} {address : Address} (found : value.at? address = some inner) :
    inner.Lawful := fun object member => lawful object (mem_objects_of_at? found member)

theorem Lawful.child {child : Value} (isChild : child ∈ value.children) : child.Lawful :=
  fun object member => lawful object (mem_objects_of_child isChild member)

end Parts

theorem lawful_of_leaf (plain : value.Plain) : value.Lawful := by
  rw [Lawful, objects_of_leaf plain]
  exact List.forall_mem_nil _

theorem lawful_list {items : List Value} (each : ∀ item ∈ items, item.Lawful) :
    (Value.list items).Lawful := by
  rw [Lawful, objects_list, List.forall_mem_flatMap]
  exact each

theorem lawful_node {label : Nat} {fields : List (String × Value)}
    (held : (Value.node label kind fields).WellHeld) (each : ∀ field ∈ fields, field.2.Lawful) :
    (Value.node label kind fields).Lawful := by
  rw [Lawful, objects_of_label? rfl, List.forall_mem_cons, innerObjects, List.forall_mem_flatMap]
  exact ⟨held, each⟩

/-! ## Exchanges -/

/-- The new value may stand where the old one, an object, stood. -/
structure Fits (old new : Value) : Prop where
  object : old.isObject = true
  node : old.isNode = true → new.isNode = true
  pinned : ∀ kind ∈ pinnedKinds, old.isKind kind = true → new.isKind kind = true

theorem fits_of_kind? (isObject : old.isObject) (same : new.kind? = old.kind?) : Fits old new where
  object := isObject
  node isNode := by
    obtain ⟨kind, is⟩ := isNode_iff_kind?.1 isNode
    exact isNode_iff_kind?.2 ⟨kind, same.trans is⟩
  pinned kind _ is := by rwa [isKind, same]

/-- A node of a kind that no attribute asks for can be exchanged for any. -/
theorem fits_of_unpinned (is : old.kind? = some kind) (unpinned : kind ∉ pinnedKinds)
    (isNode : new.isNode) : Fits old new where
  object := isObject_of_kind? is
  node _ := isNode
  pinned other listed isOther := by
    cases is.symm.trans (kind?_of_isKind isOther)
    exact absurd listed unpinned

end Value

namespace Holding

open Value

variable {holding : Holding} {old new : Value}

theorem admits_of_fits (fits : Fits old new) (pinned : ∀ kind, holding.kind? = some kind → kind ∈
    pinnedKinds) (admits : holding.admits old) : holding.admits new := by
  have isObject := fits.object
  obtain ⟨noText, noList, noNull⟩ : old.text? = none ∧ old.isList = false ∧ old.isNull = false := by
    cases old <;> first | exact ⟨rfl, rfl, rfl⟩ | cases isObject
  cases holding with
  | text =>
    rw [Holding.admits, noText] at admits
    cases admits
  | flag => cases old <;> first | cases isObject; cases admits | cases isObject
  | node => exact fits.node admits
  | maybeNode =>
    rw [Holding.admits, noNull] at admits
    rw [Holding.admits, fits.node admits, Bool.or_true]
  | list => exact absurd (noList.symm.trans admits) Bool.false_ne_true
  | kind name => exact fits.pinned name (pinned name rfl) admits
  | optional name =>
    rw [Holding.admits, noNull] at admits
    rw [Holding.admits, fits.pinned name (pinned name rfl) admits, Bool.or_true]
  | listOf name =>
    rw [Holding.admits, noList] at admits
    cases admits

theorem admits_set {items : List Value} {position : Nat} (fits : Fits old new) (pinned : ∀ kind,
    holding.kind? = some kind → kind ∈ pinnedKinds) (found : items[position]? = some old) (admits :
    holding.admits (.list items)) : holding.admits (.list (items.set position new)) := by
  cases holding with
  | list => rfl
  | listOf name =>
    have each : ∀ item ∈ items, item.isKind name := List.all_eq_true.1 admits
    refine List.all_eq_true.2 fun item member => ?_
    rcases List.mem_or_eq_of_mem_set member with was | rfl
    · exact each item was
    · exact fits.pinned name (pinned name rfl) (each old (List.mem_of_getElem? found))
  | text | flag | node | maybeNode | kind _ | optional _ => cases admits

end Holding

namespace Value

variable {node value new old : Value}

variable {name : String} {slot : Slot}

theorem WellHeld.putSlot (held : node.WellHeld) (found : node.slot? slot = some old)
    (fits : Fits old new) : (node.putSlot slot new).WellHeld := by
  rintro ⟨kind, field, holding⟩ listed is
  rw [isKind, kind?_putSlot] at is
  have admits := held.holds kind field holding listed is
  have pinned (name : String) (isName : holding.kind? = some name) : name ∈ pinnedKinds :=
    List.mem_filterMap.2 ⟨_, listed, isName⟩
  by_cases here : slot.field = field
  · have isObject := isObject_of_slot? found
    subst here
    cases index : slot.index with
    | none =>
      rw [slot?_attr index found] at admits
      simp only [Value.putSlot, index, attr_setAttr isObject, ↓reduceIte]
      exact Holding.admits_of_fits fits pinned admits
    | some position =>
      obtain ⟨items, isList, item⟩ := slot?_item index found
      rw [isList] at admits
      simp only [Value.putSlot, index, isList, attr_setAttr isObject, ↓reduceIte]
      exact Holding.admits_set fits pinned item admits
  · rw [attr_putSlot_of_ne found here]
    exact admits

theorem WellHeld.setAttr (held : node.WellHeld) (isObject : node.isObject)
    (fine : ∀ rule ∈ grammar, node.isKind rule.kind → rule.field = name →
      rule.holding.admits new) : (node.setAttr name new).WellHeld := by
  intro rule listed is
  rw [isKind, kind?_setAttr] at is
  rw [attr_setAttr isObject]
  split
  · rename_i same
    exact fine rule listed is same.symm
  · exact held rule listed is

theorem Lawful.setAttr (lawful : value.Lawful) (newLawful : new.Lawful)
    (held : (value.setAttr name new).WellHeld) : (value.setAttr name new).Lawful := by
  intro object member
  rcases mem_objects_setAttr member with rfl | was | isNew
  · exact held
  · exact lawful object was
  · exact newLawful object isNew

/-- A part may be exchanged for what the rules about its attribute admit. -/
theorem Lawful.setPart (lawful : value.Lawful) {new : Value} (fine : ∀ rule ∈ grammar, rule.field =
    name → rule.holding.admits new) (newLawful : new.Lawful) : (value.setAttr name new).Lawful := by
  cases isObject : value.isObject with
  | true =>
    exact lawful.setAttr newLawful <|
      (lawful.wellHeld isObject).setAttr isObject fun rule listed _ => fine rule listed
  | false => cases value <;> first | exact lawful | cases isObject

theorem Lawful.putSlot (lawful : value.Lawful) (found : value.slot? slot = some old)
    (fits : Fits old new) (newLawful : new.Lawful) : (value.putSlot slot new).Lawful := by
  intro object member
  rcases mem_objects_putSlot found member with rfl | was | isNew
  · exact (lawful.wellHeld (isObject_of_slot? found)).putSlot found fits
  · exact lawful object (mem_objects_of_inner was)
  · exact newLawful object isNew

theorem Lawful.putAt {address : Address} (lawful : value.Lawful) (fits : ∀ old, value.at? address =
    some old → Fits old new) (newLawful : new.Lawful) : (value.putAt address new).Lawful := by
  cases found : value.at? address with
  | none =>
    rw [putAt_of_absent found]
    exact lawful
  | some old =>
    have fitsOld := fits old found
    clear fits
    induction address generalizing value with
    | nil => exact newLawful
    | cons slot rest ih =>
      obtain ⟨held, inSlot, below⟩ := Option.bind_eq_some_iff.1 found
      have heldLawful : held.Lawful := fun object member =>
        lawful object (mem_objects_of_inner (mem_innerObjects_of_slot? inSlot member))
      rw [Value.putAt, inSlot]
      refine lawful.putSlot inSlot ?_ (ih heldLawful below)
      cases rest with
      | nil =>
        cases below
        exact fitsOld
      | cons next later =>
        obtain ⟨_, inNext, _⟩ := Option.bind_eq_some_iff.1 below
        exact fits_of_kind? (isObject_of_slot? inNext) (kind?_putAt (List.cons_ne_nil _ _) held new)

/-! ## Copies -/

theorem admits_unlabelled (holding : Holding) (value : Value) :
    holding.admits value.unlabelled = holding.admits value := by
  cases holding with
  | listOf name =>
    cases value with
    | list items =>
      have same (item : Value) : item.unlabelled.isKind name = item.isKind name := by
        rw [isKind, kind?_unlabelled, isKind]
      simp [Holding.admits, unlabelled, isList, Value.items, List.all_map, Function.comp_def, same]
    | _ => rfl
  | _ => cases value <;> rfl

theorem wellHeld_unlabelled : node.unlabelled.WellHeld ↔ node.WellHeld := by
  unfold WellHeld
  simp only [isKind, kind?_unlabelled, attr_unlabelled, admits_unlabelled]

theorem lawful_unlabelled : value.unlabelled.Lawful ↔ value.Lawful := by
  unfold Lawful
  rw [objects_unlabelled, List.forall_mem_map]
  simp only [wellHeld_unlabelled]

theorem Twins.lawful {other : Value} (twins : value.Twins other) (lawful : value.Lawful) :
    other.Lawful := by
  rwa [← lawful_unlabelled, ← twins, lawful_unlabelled]

/-! ## New nodes -/

/-- Building gives a lawful node. -/
def Builds (build : Fresh Value) : Prop :=
  ∀ next, (build.run next).1.isNode = true ∧ (build.run next).1.Lawful

theorem builds_identifierNode (name : String) : Builds (identifierNode name) := by
  refine fun next => ⟨rfl, lawful_node (wellHeld_of_kind rfl ?_) ?_⟩
  · intro rule listed
    cases List.mem_singleton.1 (show rule ∈ [⟨"Identifier", "name", .text⟩] from listed)
    rfl
  · intro field member
    cases List.mem_singleton.1 member
    exact lawful_of_leaf (.text _)

theorem builds_literalNode (plain : value.Plain) (raw : String) :
    Builds (literalNode value raw) := by
  refine fun next => ⟨rfl, lawful_node (wellHeld_of_kind rfl ?_) ?_⟩
  · intro rule listed
    cases (show rule ∈ [] from listed)
  · simp only [List.forall_mem_cons]
    exact ⟨lawful_of_leaf plain, lawful_of_leaf (.text _), List.forall_mem_nil _⟩

theorem builds_minusNode {build : Fresh Value} (builds : Builds build) :
    Builds (build >>= minusNode) := by
  refine fun next => ⟨rfl, lawful_node (wellHeld_of_kind rfl ?_) ?_⟩
  · intro rule listed
    cases List.mem_singleton.1 (show rule ∈ [⟨"UnaryExpression", "operator", .text⟩] from listed)
    rfl
  · simp only [List.forall_mem_cons]
    exact ⟨lawful_of_leaf (.text _), (builds next).2, lawful_of_leaf (.bool _), List.forall_mem_nil _⟩

theorem builds_stringNode (text : String) : Builds (stringNode text) :=
  builds_literalNode (.text _) _

theorem builds_numberNode (number : Double) : Builds (numberNode number) := by
  have magnitude : Builds (magnitudeNode number.abs) := by
    unfold magnitudeNode
    split
    · exact builds_identifierNode _
    · exact builds_literalNode (.number _) _
  unfold numberNode
  split
  · exact builds_identifierNode _
  · split
    · exact builds_minusNode magnitude
    · exact magnitude

theorem lawful_memberNode {object : Value} (isNode : object.isNode)
    (lawful : object.Lawful) {property : Value} (propertyLawful : property.Lawful) (next : Nat) :
    ((memberNode object property).run next).1.Lawful := by
  refine lawful_node (wellHeld_of_kind rfl ?_) ?_
  · intro rule listed
    cases List.mem_singleton.1 (show rule ∈ [⟨"MemberExpression", "object", .node⟩] from listed)
    exact isNode
  · simp only [List.forall_mem_cons]
    exact ⟨lawful_of_leaf (.bool _), lawful, propertyLawful, List.forall_mem_nil _⟩

/-! ## Scopes -/

theorem WellHeld.shaped (held : node.WellHeld) : node.WellShaped where
  name is := held.holds "Identifier" "name" .text (by decide) is
  own kind named is := by
    simp only [namedKinds, List.mem_cons, List.not_mem_nil, or_false] at named
    rcases named with rfl | rfl | rfl
    · exact held.holds "FunctionDeclaration" "id" (.optional "Identifier") (by decide) is
    · exact held.holds "FunctionExpression" "id" (.optional "Identifier") (by decide) is
    · exact held.holds "ClassDeclaration" "id" (.optional "Identifier") (by decide) is
  params isFunction := by
    obtain ⟨kind, listed, is⟩ := exists_kind?_of_isFunction isFunction
    have isKind : node.isKind kind := beq_iff_eq.2 is
    simp only [functionKinds, List.mem_cons, List.not_mem_nil, or_false] at listed
    rcases listed with rfl | rfl | rfl
    · exact held.holds "FunctionDeclaration" "params" .list (by decide) isKind
    · exact held.holds "FunctionExpression" "params" .list (by decide) isKind
    · exact held.holds "ArrowFunctionExpression" "params" .list (by decide) isKind
  declarations is := (Bool.and_eq_true_iff.1 (held.holds "VariableDeclaration" "declarations"
    (.listOf "VariableDeclarator") (by decide) is)).1
  declarators is := List.all_eq_true.1 (Bool.and_eq_true_iff.1 (held.holds "VariableDeclaration"
    "declarations" (.listOf "VariableDeclarator") (by decide) is)).2
  elements is := held.holds "ArrayPattern" "elements" .list (by decide) is
  properties is := held.holds "ObjectPattern" "properties" .list (by decide) is
  body is := held.holds "CatchClause" "body" (.kind "BlockStatement") (by decide) is

theorem Lawful.sound (lawful : value.Lawful) : value.Sound := by
  intro isNode node inside
  have isObject := isObject_of_isNode (isNode_of_mem_nodes isNode inside)
  exact (lawful node (mem_objects_of_node inside (mem_objects_self isObject))).shaped

theorem keyFault?_of_isText (isText : value.text?.isSome) : value.keyFault? = none := by
  cases value <;> first | rfl | cases isText

theorem Lawful.nameFault? (lawful : value.Lawful) (is : value.isIdentifier) : value.nameFault? =
    none := lawful.sound.nameFault? is

end Value

end Unravel
