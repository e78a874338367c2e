import Unravel.Proofs.Renaming.Surveying
import Unravel.Proofs.Tree.Distinctness

/-!
Contract: how the names of a tree are bound, said without labels.

Nodes are referred to by their numbers, that is, by their places in document order, and
scopes by their numbers in the index. `bindingStructure` has the scopes of a tree with
their bindings, the scope that is known at each node, and what the variables resolve to.
Trees that differ in the spelling of variables have the same binding structure, with the
names spelled anew (`bindingStructure_respelled`).
-/

namespace Unravel

open Value Pass.Renaming

/-! ## Views -/

variable {name : String}

theorem Value.sizeOf_lt_of_mem_slotNodes {value child : Value} (member : child ∈ (value.attr
    name).slotNodes) : sizeOf child < sizeOf value := by
  have present : value.attr name ≠ .null := by
    intro missing
    simp [missing, slotNodes, isNode] at member
  exact Nat.lt_of_le_of_lt (sizeOf_le_of_mem_slotNodes member) (sizeOf_attr_lt present)

/-- The number of the node with a label. -/
def Value.number? (tree : Value) (label : Nat) : Option Nat :=
  (tree.nodes.map label?).idxOf? (some label)

structure BindingView where
  name : Name
  kind : BindingKind
  node : Option Nat
  identifier : Option Nat
  constant : Bool
  violations : List (Option Nat)

structure ScopeView where
  node : Option Nat
  opener : String
  kind : ScopeKind
  enclosing : List Nat
  bindings : List BindingView

/-- An identifier that names a variable, with the scope that binds the name and the
binding. -/
structure UseView where
  identifier : Option Nat
  name : Option Name
  binding : Option (Nat × BindingView)

/-- How the names of a tree are bound. `known` has the scope that is known at each node in
document order. -/
structure BindingStructure where
  scopes : List ScopeView
  known : List (Option Nat)
  program : Option Nat
  uses : List UseView

def Binding.view (tree : Value) (binding : Binding) : BindingView where
  name := binding.name
  kind := binding.kind
  node := binding.node.label?.bind tree.number?
  identifier := binding.identifier.label?.bind tree.number?
  constant := binding.constant
  violations := binding.violations.map tree.number?

def Scope.view (tree : Value) (scope : Scope) : ScopeView where
  node := tree.number? scope.label
  opener := scope.opener
  kind := scope.kind
  enclosing := scope.enclosing
  bindings := scope.bindings.map (Binding.view tree)

/-- The identifiers below a node that name variables, in document order, with the scope
that is in force at each of them. -/
def ScopeIndex.uses (index : ScopeIndex) (outer : Option Nat) (value : Value) :
    List (Value × Option Nat) :=
  let scope := (index.known? value).or outer
  value.childFields.flatMap fun name =>
    (value.attr name).slotNodes.attach.flatMap fun child =>
      (if child.val.isIdentifier && !isPropertyName value (some name) then [(child.val, scope)]
        else []) ++ index.uses scope child.val
termination_by sizeOf value
decreasing_by exact sizeOf_lt_of_mem_slotNodes child.property

theorem ScopeIndex.uses_eq (index : ScopeIndex) (outer : Option Nat) (value : Value) :
    index.uses outer value = value.childFields.flatMap fun name =>
      (value.attr name).slotNodes.flatMap fun child =>
        (if child.isIdentifier && !isPropertyName value (some name) then
          [(child, (index.known? value).or outer)] else []) ++
          index.uses ((index.known? value).or outer) child := by
  rw [ScopeIndex.uses]
  refine congrArg (List.flatMap · value.childFields) (funext fun name => ?_)
  rw [List.flatMap_subtype (g := fun child =>
    (if child.isIdentifier && !isPropertyName value (some name) then
      [(child, (index.known? value).or outer)] else []) ++
        index.uses ((index.known? value).or outer) child) fun _ _ => rfl, List.unattach_attach]

/-- What a name resolves to in the scope that is in force at its identifier. -/
def ScopeIndex.resolve (index : ScopeIndex) (tree : Value) (use : Value × Option Nat) : UseView where
  identifier := use.1.label?.bind tree.number?
  name := use.1.name?
  binding := use.1.name?.bind fun name =>
    (use.2.bind fun scope => index.lookup scope name).map fun found =>
      (found.1, found.2.view tree)

def Value.bindingStructure (tree : Value) : BindingStructure :=
  let index := ScopeIndex.build tree
  { scopes := index.scopes.map (Scope.view tree)
    known := tree.nodes.map index.known?
    program := index.program
    uses := (index.uses none tree).map (index.resolve tree) }

/-- The names of the identifiers of a tree, variables and others. -/
def Value.identifierNames (tree : Value) : List String :=
  tree.nodes.filterMap fun node => if node.isIdentifier then (node.attr "name").text? else none

variable {tree : Value}

theorem Value.mem_identifierNames {node : Value} (inside : node ∈ tree.nodes) (is :
    node.isIdentifier) (isName : node.attr "name" = .text name) : name ∈ tree.identifierNames := by
  refine List.mem_filterMap.2 ⟨node, inside, ?_⟩
  rw [if_pos is, isName]
  rfl

/-! ## Other names -/

/-- A name with its text spelled anew. -/
def Name.renamed (spelling : String → String) : Name → Name
  | .text value => .text (spelling value)
  | other => other

def BindingView.renamed (spelling : String → String) (view : BindingView) : BindingView :=
  { view with name := view.name.renamed spelling }

def ScopeView.renamed (spelling : String → String) (view : ScopeView) : ScopeView :=
  { view with bindings := view.bindings.map (BindingView.renamed spelling) }

def UseView.renamed (spelling : String → String) (view : UseView) : UseView :=
  { view with
    name := view.name.map (Name.renamed spelling)
    binding := view.binding.map fun found => (found.1, found.2.renamed spelling) }

/-- The same binding structure, with every name spelled anew. -/
def BindingStructure.renamed (spelling : String → String) (view : BindingStructure) :
    BindingStructure :=
  { view with
    scopes := view.scopes.map (ScopeView.renamed spelling)
    uses := view.uses.map (UseView.renamed spelling) }

/-! ## Places -/

/-- Labels that stand in the same place of two trees belong together. -/
def Dictionary.placed (tree new : Value) (spelling : String → String) : Dictionary where
  labels label other := ∃ place : Nat,
    (tree.nodes.map label?)[place]? = some (some label) ∧
      (new.nodes.map label?)[place]? = some (some other)
  occurs name := name ∈ tree.identifierNames
  spelling := spelling

theorem Value.number?_eq_some (once : (tree.nodes.map label?).Nodup) {place label : Nat} (found :
    (tree.nodes.map label?)[place]? = some (some label)) : tree.number? label = some place := by
  obtain ⟨within, is⟩ := List.getElem?_eq_some_iff.1 found
  refine List.idxOf?_eq_some_iff.2 ⟨within, is, fun earlier before same => ?_⟩
  exact Nat.ne_of_lt before (once.getElem_inj_iff.1 (same.trans is.symm))

/-- Trees without their labels in common differ from each other in the spelling of variables
also when labels are compared by their places. -/
theorem Respelled.placed {book : Dictionary} {kept : Bool} {new : Value} (respelled : Respelled book
    kept tree new) (isNode : tree.isNode) : Respelled (.placed tree new book.spelling) kept tree new
    := by
  refine respelled.refine rfl isNode (fun pair member => ?_)
    fun inner inside is text isText => mem_identifierNames inside is isText
  obtain ⟨place, found⟩ := List.mem_iff_getElem?.1 member
  obtain ⟨first, second⟩ := List.getElem?_zip_eq_some.1 found
  obtain ⟨label, isLabel⟩ :=
    exists_label?_of_isNode (isNode_of_mem_nodes isNode (List.mem_of_getElem? first))
  obtain ⟨other, isOther⟩ := exists_label?_of_isNode
    (isNode_of_mem_nodes (respelled.isNode.trans isNode) (List.mem_of_getElem? second))
  refine ⟨label, other, isLabel, isOther, place, ?_, ?_⟩
  · rw [List.getElem?_map, first, Option.map_some, isLabel]
  · rw [List.getElem?_map, second, Option.map_some, isOther]

theorem map_eq_of_rel {α β γ : Type} {related : α → β → Prop} {items : List α} {others : List β}
    (each : List.Forall₂ related items others) {first : α → γ} {second : β → γ}
    (same : ∀ ⦃item other⦄, related item other → second other = first item) :
    others.map second = items.map first := by
  rw [eq_comm, ← List.forall₂_eq_eq_eq, List.forall₂_map_left_iff, List.forall₂_map_right_iff]
  exact each.imp fun _ _ related => (same related).symm

/-! ## Uses -/

section Uses

variable {book : Dictionary} {kept : Bool} {value become : Value}

theorem isPropertyName_respelled (respelled : Respelled book kept value become)
    (isNode : value.isNode) (other : value.isIdentifier = false) (field : Option String) :
    isPropertyName become field = isPropertyName value field :=
  isPropertyName_congr respelled.kind?
    (fun plain => (respelled.alike isNode other).plain "computed" plain (by decide)) field

variable {index new : ScopeIndex}

theorem known?_respelled (same : SameIndex book index new) (exact : book.Exact) (labelled :
    book.Labelled value become) : new.known? become = index.known? value := by
  obtain ⟨label, other, isLabel, isOther, belongs⟩ := labelled
  rw [ScopeIndex.known?, ScopeIndex.known?, isLabel, isOther]
  exact same.owner? exact belongs

theorem uses_respelled {kept : Bool} {value become : Value} (same : SameIndex book index new) (exact
    : book.Exact) (respelled : Respelled book kept value become) (isNode : value.isNode) (outer :
    Option Nat) : List.Forall₂ (fun use other => book.Spelled use.1 other.1 ∧ other.2 = use.2)
    (index.uses outer value) (new.uses outer become) := by
  rw [ScopeIndex.uses_eq, ScopeIndex.uses_eq,
    known?_respelled same exact (respelled.labelled isNode)]
  cases isIdentifier : value.isIdentifier with
  | true =>
    rw [childFields_of_kind (kind?_of_isKind isIdentifier) rfl,
      childFields_of_kind (kind?_of_isKind (respelled.isIdentifier.trans isIdentifier)) rfl]
    exact .nil
  | false =>
    rw [(respelled.alike isNode isIdentifier).childFields]
    have fields : List.Forall₂ (fun name other => name ∈ value.childFields ∧ name = other)
        value.childFields value.childFields := List.forall₂_same.2 fun name listed => ⟨listed, rfl⟩
    refine List.rel_flatMap fields ?_
    rintro name _ ⟨listed, rfl⟩
    have each := (List.forall₂_and_left _ _).2 ⟨fun child (member : child ∈ (value.attr
      name).slotNodes) => member, respelled.slotNodes isNode isIdentifier listed⟩
    refine List.rel_flatMap each ?_
    rintro child childNew ⟨member, related⟩
    have isChild := isNode_of_mem_children (List.mem_flatMap.2 ⟨name, listed, member⟩)
    refine List.rel_append ?_ (uses_respelled same exact related isChild _)
    rw [related.isIdentifier, isPropertyName_respelled respelled isNode isIdentifier]
    cases isVariable : child.isIdentifier with
    | false => exact .nil
    | true =>
      cases isKept : isPropertyName value (some name) with
      | true => exact .nil
      | false =>
        rw [isKept] at related
        exact .cons ⟨related.spelled isVariable, rfl⟩ .nil
termination_by sizeOf value
decreasing_by exact sizeOf_lt_of_mem_slotNodes member

end Uses

/-! ## Structures -/

section Views

variable {tree new : Value} {spelling : String → String}
  (once : (tree.nodes.map label?).Nodup) (onceNew : (new.nodes.map label?).Nodup)

include once onceNew

theorem number?_placed {label other : Nat} (placed : (Dictionary.placed tree new spelling).labels
    label other) : new.number? other = tree.number? label := by
  obtain ⟨place, first, second⟩ := placed
  rw [number?_eq_some once first, number?_eq_some onceNew second]

theorem number?_labelled {value become : Value}
    (labelled : (Dictionary.placed tree new spelling).Labelled value become) :
    become.label?.bind new.number? = value.label?.bind tree.number? := by
  obtain ⟨label, other, isLabel, isOther, placed⟩ := labelled
  rw [isLabel, isOther]
  exact number?_placed once onceNew placed

theorem exact_placed (injective : ∀ name ∈ tree.identifierNames,
      ∀ other ∈ tree.identifierNames, spelling name = spelling other → name = other) :
    (Dictionary.placed tree new spelling).Exact where
  labels := by
    rintro label other another more ⟨place, first, second⟩ ⟨further, third, fourth⟩
    constructor
    · rintro rfl
      have here := (number?_eq_some once first).symm.trans (number?_eq_some once third)
      rw [Option.some.inj here, fourth] at second
      exact (Option.some.inj (Option.some.inj second)).symm
    · rintro rfl
      have here := (number?_eq_some onceNew second).symm.trans (number?_eq_some onceNew fourth)
      rw [Option.some.inj here, third] at first
      exact (Option.some.inj (Option.some.inj first)).symm
  names name other first second same := injective name first other second same

theorem view_binding {binding become : Binding} (same : SameBinding (.placed tree new spelling)
    binding become) : become.view new = (binding.view tree).renamed spelling := by
  obtain ⟨text, isText, _, isNew⟩ := same.name
  have constant : become.constant = binding.constant := by
    rw [Binding.constant, Binding.constant, Bool.eq_iff_iff, List.isEmpty_iff_length_eq_zero,
      List.isEmpty_iff_length_eq_zero, same.violations.length_eq]
  unfold Binding.view BindingView.renamed
  rw [number?_labelled once onceNew same.node, number?_labelled once onceNew same.identifier,
    same.kind, constant, isText, isNew,
    map_eq_of_rel same.violations fun _ _ placed => number?_placed once onceNew placed]
  rfl

theorem view_scope {scope become : Scope} (same : SameScope (.placed tree new spelling) scope
    become) : become.view new = (scope.view tree).renamed spelling := by
  unfold Scope.view ScopeView.renamed
  rw [number?_placed once onceNew same.label, same.opener, same.kind, same.enclosing, map_eq_of_rel
    same.bindings fun _ _ related => view_binding once onceNew related, List.map_map]
  rfl

theorem resolve_respelled {index become : ScopeIndex} (same : SameIndex (.placed tree new spelling)
    index become) (exact : (Dictionary.placed tree new spelling).Exact) {use other : Value × Option
    Nat} (spelled : (Dictionary.placed tree new spelling).Spelled use.1 other.1) (scope : other.2 =
    use.2) : become.resolve new other = (index.resolve tree use).renamed spelling := by
  obtain ⟨name, newName, isName, isNewName, named⟩ := spelled.name?
  obtain ⟨text, isText, _, isNewText⟩ := id named
  have found : Option.Rel (fun found other => other.1 = found.1 ∧
      SameBinding (.placed tree new spelling) found.2 other.2)
      (use.2.bind fun scope => index.lookup scope name)
      (use.2.bind fun scope => become.lookup scope newName) := by
    cases use.2 with
    | none => exact .none
    | some scope => exact same.lookup exact scope named
  unfold ScopeIndex.resolve UseView.renamed
  rw [number?_labelled once onceNew spelled.labelled, isName, isNewName, scope]
  dsimp only [Option.bind_some, Option.map_some]
  rw [isText, isNewText] at found ⊢
  rcases rel_cases found with ⟨none, also⟩ | ⟨_, _, one, also, number, related⟩
  · rw [none, also]
    rfl
  · rw [one, also, Option.map_some, number, view_binding once onceNew related]
    rfl

theorem bindingStructure_respelled {book : Dictionary} {kept : Bool}
    (respelled : Respelled book kept tree new) (isNode : tree.isNode)
    (shaped : ∀ node ∈ tree.nodes, node.WellShaped)
    (injective : ∀ name ∈ tree.identifierNames, ∀ other ∈ tree.identifierNames,
      book.spelling name = book.spelling other → name = other) :
    new.bindingStructure = tree.bindingStructure.renamed book.spelling := by
  have exact := exact_placed once onceNew injective
  have placed := respelled.placed isNode
  have same := sameIndex_build exact placed isNode shaped
  have nodes := (List.forall₂_and_left _ _).2
    ⟨fun inner (inside : inner ∈ tree.nodes) => isNode_of_mem_nodes isNode inside,
      placed.nodes isNode⟩
  have known : new.nodes.map (ScopeIndex.build new).known? =
      tree.nodes.map (ScopeIndex.build tree).known? := by
    refine map_eq_of_rel nodes ?_
    rintro inner become ⟨isInner, kept, related⟩
    exact known?_respelled same exact (related.labelled isInner)
  unfold bindingStructure BindingStructure.renamed
  dsimp only
  rw [map_eq_of_rel same.scopes fun _ _ related => view_scope once onceNew related, same.program,
    map_eq_of_rel (uses_respelled same exact placed isNode none) fun _ _ related =>
      resolve_respelled once onceNew same exact related.1 related.2, List.map_map, List.map_map,
    known]
  rfl

end Views

end Unravel
