import Mathlib.Data.List.Forall2
import Unravel.Pass.Renaming
import Unravel.Proofs.Scope.WellFormed

/-!
Contract: trees that differ in the spelling of variables.

`Respelled` relates a tree to one in which the identifiers that name variables are
spelled anew. All else that a survey of names reads is as it was, and the nodes stand
in the same places. A dictionary says which labels belong together, which names occur
and how they are spelled.
-/

namespace Unravel

open Value Pass.Renaming

/-- Which labels of two trees belong together, which names occur in the first, and how
they are spelled in the second. -/
structure Dictionary where
  labels : Nat → Nat → Prop
  occurs : String → Prop
  spelling : String → String

namespace Dictionary

variable (book : Dictionary)

/-- The labels of two objects belong together. -/
def Labelled (value new : Value) : Prop :=
  ∃ label other, value.label? = some label ∧ new.label? = some other ∧ book.labels label other

/-- The second of two names is the first, spelled anew. -/
def Named (name new : Name) : Prop :=
  ∃ text, name = .text text ∧ book.occurs text ∧ new = .text (book.spelling text)

/-- Two identifiers are the same variable. -/
structure Spelled (value new : Value) : Prop where
  labelled : book.Labelled value new
  name : ∃ text, value.attr "name" = .text text ∧ book.occurs text ∧
    new.attr "name" = .text (book.spelling text)

end Dictionary

/-- An identifier in a child slot of the object is spelled as it was. -/
def Value.Stays (spelling : String → String) (object : Value) (slot : Slot) : Prop := ∀ child,
  object.slot? slot = some child → child.isIdentifier = true → isPropertyName object (some
  slot.field) = false → ∀ text, child.attr "name" = .text text → spelling text = text

namespace Dictionary

variable (book : Dictionary)

/-- What a node other than an identifier has in common with what it becomes, its
children aside. A property stays marked as shorthand while its own identifiers stay. -/
structure Alike (value new : Value) : Prop where
  other : value.isIdentifier = false
  isNode : value.isNode = true
  kind : new.kind? = value.kind?
  labelled : book.Labelled value new
  childFields : new.childFields = value.childFields
  isList : ∀ name ∈ value.childFields, (new.attr name).isList = (value.attr name).isList
  length : ∀ name ∈ value.childFields, (new.attr name).items.length = (value.attr name).items.length
  plain : ∀ name ∉ value.childFields, name ≠ "shorthand" → new.attr name = value.attr name
  marked : value.isKind "Property" = true → ((new.attr "shorthand").truthy = true ↔ (value.attr
    "shorthand").truthy = true ∧ ∀ slot ∈ value.childSlots, value.Stays book.spelling slot)

end Dictionary

/-- The second value is the first with its variables spelled anew. An identifier in a
position that is kept has the name it had. -/
inductive Respelled (book : Dictionary) : Bool → Value → Value → Prop where
  | still {kept : Bool} {value : Value} (no : value.isNode = false) :
      Respelled book kept value value
  | identifier {kept : Bool} {value new : Value} (is : value.isIdentifier = true)
      (isNew : new.isIdentifier = true) (labelled : book.Labelled value new)
      (keeps : kept = true → new.attr "name" = value.attr "name")
      (spelled : kept = false → book.Spelled value new) : Respelled book kept value new
  | node {kept : Bool} {value new : Value} (alike : book.Alike value new)
      (single : ∀ name ∈ value.childFields, (value.attr name).isList = false →
        Respelled book (isPropertyName value (some name)) (value.attr name) (new.attr name))
      (listed : ∀ name ∈ value.childFields, ∀ (position : Nat) (item : Value),
        (value.attr name).items[position]? = some item →
          Respelled book (isPropertyName value (some name)) item
            ((new.attr name).items.getD position .null)) : Respelled book kept value new

/-- Kinds of nodes in which an identifier may stand that is no variable. -/
def keepingKinds : List String :=
  "MemberExpression" :: "Property" :: "MethodDefinition" :: labelKinds

theorem isPropertyName_of_kind {value : Value} {kind : String} (is : value.kind? = some kind)
    (name : Option String) (other : kind ∉ keepingKinds) : isPropertyName value name = false := by
  have differs {listed : String} (member : listed ∈ keepingKinds) : value.isKind listed = false :=
    isKind_eq_false is fun same => other (same ▸ member)
  have noLabel : kind ∉ labelKinds := fun listed => other (by simp [keepingKinds, listed])
  rw [isPropertyName, differs (by simp [keepingKinds]), differs (by simp [keepingKinds]),
    differs (by simp [keepingKinds]), is]
  simp [noLabel]

theorem Value.mem_childFields_of_kind? {value : Value} {kind name : String}
    (is : value.kind? = some kind) (listed : (Members.get? childTable kind).any (·.contains name)) :
    name ∈ value.childFields := by
  obtain ⟨names, table, contains⟩ := (Option.any_eq_true _ _).1 listed
  rw [childFields_of_kind is table]
  exact List.contains_iff_mem.1 contains

theorem Value.slotNodes_of_isList {value : Value} (isList : value.isList) :
    value.slotNodes = value.items.filter Value.isNode := by
  cases value <;> first | rfl | cases isList

theorem Value.isNode_of_isList {value : Value} (isList : value.isList) : value.isNode = false := by
  cases value <;> first | rfl | cases isList

namespace Respelled

variable {book : Dictionary} {kept : Bool} {value new : Value}

section Root

variable (respelled : Respelled book kept value new)

include respelled

theorem kind? : new.kind? = value.kind? := by
  cases respelled with
  | still no => rfl
  | identifier is isNew => rw [kind?_of_isKind is, kind?_of_isKind isNew]
  | node alike => exact alike.kind

theorem isNode : new.isNode = value.isNode := by
  rw [Bool.eq_iff_iff, isNode_iff_kind?, isNode_iff_kind?, respelled.kind?]

theorem isKind (kind : String) : new.isKind kind = value.isKind kind := by
  rw [Value.isKind, Value.isKind, respelled.kind?]

theorem isIdentifier : new.isIdentifier = value.isIdentifier := respelled.isKind "Identifier"

theorem labelled (isNode : value.isNode) : book.Labelled value new := by
  cases respelled with
  | still no =>
    rw [no] at isNode
    cases isNode
  | identifier _ _ labelled => exact labelled
  | node alike => exact alike.labelled

theorem eq_of_not_isNode (no : value.isNode = false) : new = value := by
  cases respelled with
  | still _ => rfl
  | identifier is =>
    rw [isNode_of_kind? (kind?_of_isKind is)] at no
    cases no
  | node alike =>
    rw [alike.isNode] at no
    cases no

theorem isNull : new.isNull = value.isNull := by
  have noNull {inner : Value} (isNode : inner.isNode = true) : inner.isNull = false := by
    cases inner <;> first | rfl | cases isNode
  cases isNode : value.isNode with
  | true => rw [noNull isNode, noNull (respelled.isNode.trans isNode)]
  | false => rw [respelled.eq_of_not_isNode isNode]

theorem alike (isNode : value.isNode) (other : value.isIdentifier = false) :
    book.Alike value new := by
  cases respelled with
  | still no =>
    rw [isNode] at no
    cases no
  | identifier is =>
    rw [other] at is
    cases is
  | node alike => exact alike

end Root

theorem spelled (respelled : Respelled book false value new) (is : value.isIdentifier) :
    book.Spelled value new := by
  cases respelled with
  | still no =>
    rw [isNode_of_kind? (kind?_of_isKind is)] at no
    cases no
  | identifier _ _ _ _ spelled => exact spelled rfl
  | node alike =>
    rw [alike.other] at is
    cases is

/-! ## Attributes -/

section Attributes

variable (respelled : Respelled book kept value new) (isNode : value.isNode = true)
  (other : value.isIdentifier = false) {name : String} (listed : name ∈ value.childFields)

include respelled isNode other listed

theorem attr (single : (value.attr name).isList = false) :
    Respelled book (isPropertyName value (some name)) (value.attr name) (new.attr name) := by
  cases respelled with
  | still no =>
    rw [isNode] at no
    cases no
  | identifier is =>
    rw [other] at is
    cases is
  | node _ each => exact each name listed single

theorem items : List.Forall₂ (Respelled book (isPropertyName value (some name))) (value.attr
    name).items (new.attr name).items := by
  cases respelled with
  | still no =>
    rw [isNode] at no
    cases no
  | identifier is =>
    rw [other] at is
    cases is
  | node alike _ each =>
    refine List.forall₂_iff_get.2 ⟨(alike.length name listed).symm, fun position here there => ?_⟩
    have item := each name listed position _ (List.getElem?_eq_getElem here)
    rwa [List.getD_eq_getElem?_getD, List.getElem?_eq_getElem there] at item

theorem slotNodes : List.Forall₂ (Respelled book (isPropertyName value (some name))) (value.attr
    name).slotNodes (new.attr name).slotNodes := by
  have same := (respelled.alike isNode other).isList name listed
  have items := respelled.items isNode other listed
  cases isList : (value.attr name).isList with
  | true =>
    rw [isList] at same
    rw [slotNodes_of_isList isList, slotNodes_of_isList same]
    exact List.rel_filter (fun _ _ related => iff_of_eq (congrArg (· = true) related.isNode.symm))
      items
  | false =>
    rw [isList] at same
    have attr := respelled.attr isNode other listed isList
    have one {held : Value} (isList : held.isList = false) :
        held.slotNodes = if held.isNode then [held] else [] := by
      cases held <;> first | rfl | cases isList
    rw [one isList, one same, attr.isNode]
    split
    · exact .cons attr .nil
    · exact .nil

end Attributes

/-! ## Nodes -/

theorem children (respelled : Respelled book kept value new) (isNode : value.isNode) : List.Forall₂
    (fun child become => ∃ kept, Respelled book kept child become) value.children new.children := by
  cases isIdentifier : value.isIdentifier with
  | true =>
    rw [children_of_kind (kind?_of_isKind isIdentifier) rfl,
      children_of_kind (kind?_of_isKind (respelled.isIdentifier.trans isIdentifier)) rfl]
    exact .nil
  | false =>
    unfold Value.children
    rw [(respelled.alike isNode isIdentifier).childFields]
    have same : List.Forall₂ (fun name other => name ∈ value.childFields ∧ name = other)
        value.childFields value.childFields := List.forall₂_same.2 fun name listed => ⟨listed, rfl⟩
    refine List.rel_flatMap same ?_
    rintro name _ ⟨listed, rfl⟩
    exact (respelled.slotNodes isNode isIdentifier listed).imp fun _ _ related => ⟨_, related⟩

theorem nodes {kept : Bool} {value new : Value} (respelled : Respelled book kept value new)
    (isNode : value.isNode) :
    List.Forall₂ (fun inner become => ∃ kept, Respelled book kept inner become) value.nodes
      new.nodes := by
  rw [nodes_eq, nodes_eq new]
  refine .cons ⟨kept, respelled⟩ ?_
  have each := (List.forall₂_and_left _ _).2
    ⟨fun child (member : child ∈ value.children) => member, respelled.children isNode⟩
  refine List.rel_flatMap each ?_
  rintro child become ⟨member, kept, related⟩
  exact related.nodes (isNode_of_mem_children member)
termination_by sizeOf value
decreasing_by exact sizeOf_lt_of_mem_children member

/-! ## Places -/

theorem zip_flatMap {α β γ δ : Type} {first : α → List γ} {second : β → List δ} {items : List α}
    {others : List β} (lengths : List.Forall₂ (fun item other => (first item).length = (second
    other).length) items others) : (items.flatMap first).zip (others.flatMap second) = (items.zip
    others).flatMap fun pair => (first pair.1).zip (second pair.2) := by
  induction lengths with
  | nil => rfl
  | cons here _ ih =>
    rw [List.flatMap_cons, List.flatMap_cons, List.zip_append here, ih,
      List.zip_cons_cons, List.flatMap_cons]

/-- What two items of two lists have in common, they have after a choice that is made
alike in both. -/
theorem mem_zip_filter {α β : Type} {chosen : α → Bool} {also : β → Bool} {items : List α}
    {others : List β}
    (alike : List.Forall₂ (fun item other => also other = chosen item) items others)
    {pair : α × β} (member : pair ∈ items.zip others) (holds : chosen pair.1) :
    pair ∈ (items.filter chosen).zip (others.filter also) := by
  induction alike with
  | nil => cases member
  | @cons item other rest later here _ ih =>
    rcases List.mem_cons.1 member with rfl | further
    · rw [List.filter_cons_of_pos holds, List.filter_cons_of_pos (here.trans holds)]
      exact List.mem_cons_self
    · have inRest := ih further
      cases isChosen : chosen item with
      | true =>
        rw [List.filter_cons_of_pos isChosen, List.filter_cons_of_pos (here.trans isChosen)]
        exact List.mem_cons_of_mem _ inRest
      | false =>
        rw [List.filter_cons_of_neg (by simp [isChosen]),
          List.filter_cons_of_neg (by simp [here, isChosen])]
        exact inRest

/-- Nodes that stand in the same place below two children stand in the same place
below their parents. -/
theorem mem_zip_nodes (respelled : Respelled book kept value new) (isNode : value.isNode)
    (other : value.isIdentifier = false) {name : String} (listed : name ∈ value.childFields)
    {child become : Value}
    (member : (child, become) ∈ (value.attr name).slotNodes.zip (new.attr name).slotNodes)
    {pair : Value × Value} (inside : pair ∈ child.nodes.zip become.nodes) :
    pair ∈ value.nodes.zip new.nodes := by
  have slot (name : String) (listed : name ∈ value.childFields) :
      List.Forall₂ (fun inner later => List.Forall₂ (fun _ _ => True) inner.nodes later.nodes)
        (value.attr name).slotNodes (new.attr name).slotNodes := by
    have each := (List.forall₂_and_left _ _).2 ⟨fun inner (isInner : inner ∈ (value.attr
      name).slotNodes) => isInner, respelled.slotNodes isNode other listed⟩
    refine each.imp fun inner later related => ?_
    have isInner := isNode_of_mem_children (List.mem_flatMap.2 ⟨name, listed, related.1⟩)
    exact (related.2.nodes isInner).imp fun _ _ _ => trivial
  have fields : List.Forall₂ (fun name other =>
      ((value.attr name).slotNodes.flatMap Value.nodes).length =
        ((new.attr other).slotNodes.flatMap Value.nodes).length) value.childFields
      value.childFields :=
    List.forall₂_same.2 fun name listed =>
      (List.rel_flatMap (slot name listed) fun _ _ related => related).length_eq
  rw [nodes_eq value, nodes_eq new, List.zip_cons_cons]
  refine List.mem_cons_of_mem _ ?_
  unfold Value.children
  rw [(respelled.alike isNode other).childFields, List.flatMap_assoc, List.flatMap_assoc,
    zip_flatMap fields]
  refine List.mem_flatMap.2 ⟨(name, name), ?_, ?_⟩
  · rw [List.zip, List.zipWith_self]
    exact List.mem_map_of_mem listed
  · rw [zip_flatMap ((slot name listed).imp fun _ _ related => related.length_eq)]
    exact List.mem_flatMap.2 ⟨_, member, inside⟩

/-- A dictionary may be made finer: which labels belong together may depend on the
place, and which names occur on the tree. -/
theorem refine {book finer : Dictionary} {kept : Bool} {value new : Value} (respelled : Respelled
    book kept value new) (spelling : finer.spelling = book.spelling) (isNode : value.isNode)
    (labels : ∀ pair ∈ value.nodes.zip new.nodes, finer.Labelled pair.1 pair.2)
    (occurs : ∀ inner ∈ value.nodes, inner.isIdentifier → ∀ text,
      inner.attr "name" = .text text → finer.occurs text) : Respelled finer kept value new := by
  have root {value new : Value}
      (labels : ∀ pair ∈ value.nodes.zip new.nodes, finer.Labelled pair.1 pair.2) :
      finer.Labelled value new := by
    refine labels (value, new) ?_
    rw [nodes_eq value, nodes_eq new]
    exact List.mem_cons_self
  induction respelled with
  | still no =>
    rw [isNode] at no
    cases no
  | identifier is isNew labelled keeps spelled =>
    refine .identifier is isNew (root labels) keeps fun spelledHere => ⟨root labels, ?_⟩
    obtain ⟨text, isText, _, isNewText⟩ := (spelled spelledHere).name
    exact ⟨text, isText, occurs _ (mem_nodes_self _) is text isText, spelling ▸ isNewText⟩
  | @node kept value new alike single listed singleHypothesis listedHypothesis =>
    have whole : Respelled book kept value new := .node alike single listed
    have inner {name : String} (isListed : name ∈ value.childFields) {child become : Value}
        (member : (child, become) ∈ (value.attr name).slotNodes.zip (new.attr name).slotNodes) :
        (∀ pair ∈ child.nodes.zip become.nodes, finer.Labelled pair.1 pair.2) ∧
          ∀ inner ∈ child.nodes, inner.isIdentifier = true → ∀ text,
            inner.attr "name" = .text text → finer.occurs text := by
      refine ⟨fun pair inside => labels pair ?_, fun inner inside => occurs inner ?_⟩
      · exact whole.mem_zip_nodes alike.isNode alike.other isListed member inside
      · exact mem_nodes_of_child (List.mem_flatMap.2 ⟨name, isListed, (List.of_mem_zip member).1⟩)
          inside
    refine .node { alike with labelled := root labels, marked := spelling ▸ alike.marked } ?_ ?_
    · intro name isListed isSingle
      have related := single name isListed isSingle
      cases isNode : (value.attr name).isNode with
      | false =>
        rw [related.eq_of_not_isNode isNode]
        exact .still isNode
      | true =>
        have member : (value.attr name, new.attr name) ∈
            (value.attr name).slotNodes.zip (new.attr name).slotNodes := by
          rw [slotNodes_of_isNode isNode, slotNodes_of_isNode (related.isNode.trans isNode)]
          exact List.mem_singleton_self _
        obtain ⟨labels, occurs⟩ := inner isListed member
        exact singleHypothesis name isListed isSingle isNode labels occurs
    · intro name isListed position item found
      have related := listed name isListed position item found
      cases isNode : item.isNode with
      | false =>
        rw [related.eq_of_not_isNode isNode]
        exact .still isNode
      | true =>
        have isList : (value.attr name).isList = true := by
          cases held : value.attr name <;> rw [held] at found <;> first | rfl | cases found
        have within := (alike.length name isListed).symm ▸ (List.getElem?_eq_some_iff.1 found).1
        have member : (item, (new.attr name).items.getD position .null) ∈
            (value.attr name).slotNodes.zip (new.attr name).slotNodes := by
          rw [slotNodes_of_isList isList,
            slotNodes_of_isList ((alike.isList name isListed).trans isList)]
          refine mem_zip_filter ((whole.items alike.isNode alike.other isListed).imp
            fun _ _ related => related.isNode) ?_ isNode
          refine List.mem_of_getElem? (List.getElem?_zip_eq_some.2 ⟨found, ?_⟩)
          rw [List.getD_eq_getElem?_getD, List.getElem?_eq_getElem within, Option.getD_some]
        obtain ⟨labels, occurs⟩ := inner isListed member
        exact listedHypothesis name isListed position item found isNode labels occurs

end Respelled

/-- Whether a slot names a property shows in the kind of the object and in an
attribute that is no child. -/
theorem isPropertyName_congr {value new : Value} (same : new.kind? = value.kind?)
    (plain : "computed" ∉ value.childFields → new.attr "computed" = value.attr "computed")
    (field : Option String) : isPropertyName new field = isPropertyName value field := by
  have computed {kind : String} {names : List String} (is : value.isKind kind) (listed :
      Members.get? childTable kind = some names) (absent : "computed" ∉ names) : new.attr "computed"
      = value.attr "computed" := plain (by rwa [childFields_of_kind (kind?_of_isKind is) listed])
  have isKind (kind : String) : new.isKind kind = value.isKind kind := by
    rw [Value.isKind, Value.isKind, same]
  unfold isPropertyName
  rw [isKind, isKind, isKind, same]
  cases isMember : value.isKind "MemberExpression" with
  | true => rw [computed isMember rfl (by decide)]
  | false =>
    cases isProperty : value.isKind "Property" with
    | true => rw [computed isProperty rfl (by decide)]
    | false =>
      cases isMethod : value.isKind "MethodDefinition" with
      | true => rw [computed isMethod rfl (by decide)]
      | false => rfl

/-! ## Patterns -/

namespace Dictionary

variable {book : Dictionary} {value new : Value}

/-- Two values that are searched for variables alike. What is no node has none. -/
def Searched (book : Dictionary) (value new : Value) : Prop :=
  Respelled book false value new ∨ value.isNode = false ∧ new.isNode = false

section Attributes

variable {kept : Bool} (respelled : Respelled book kept value new) {kind name : String}
  (is : value.kind? = some kind)
  (listed : (Members.get? childTable kind).any (·.contains name) = true)

include respelled is listed

theorem searched_attr (other : kind ≠ "Identifier") (spelled : isPropertyName value (some name) =
    false) : book.Searched (value.attr name) (new.attr name) := by
  have isNode := isNode_of_kind? is
  have isOther := isKind_eq_false is other
  have isChild := mem_childFields_of_kind? is listed
  have same := (respelled.alike isNode isOther).isList name isChild
  cases isList : (value.attr name).isList with
  | true => exact .inr ⟨isNode_of_isList isList, isNode_of_isList (same.trans isList)⟩
  | false => exact .inl (spelled ▸ respelled.attr isNode isOther isChild isList)

theorem searched_attr_of_plain (other : kind ≠ "Identifier") (plain : kind ∉ keepingKinds) :
    book.Searched (value.attr name) (new.attr name) :=
  searched_attr respelled is listed other (isPropertyName_of_kind is _ plain)

theorem items_of_kind (other : kind ≠ "Identifier") : List.Forall₂ (Respelled book (isPropertyName
    value (some name))) (value.attr name).items (new.attr name).items := respelled.items
    (isNode_of_kind? is) (isKind_eq_false is other) (mem_childFields_of_kind? is listed)

theorem searched_items (other : kind ≠ "Identifier") (plain : kind ∉ keepingKinds) :
    List.Forall₂ book.Searched (value.attr name).items (new.attr name).items := by
  refine (items_of_kind respelled is listed other).imp fun _ _ related => .inl ?_
  rwa [isPropertyName_of_kind is _ plain] at related

end Attributes

theorem searched_property {kept : Bool} (respelled : Respelled book kept value new) :
    Option.Rel book.Searched value.propertyTarget? new.propertyTarget? := by
  unfold propertyTarget?
  rw [respelled.isKind, respelled.isKind]
  cases isRest : value.isKind "RestElement" with
  | true =>
    exact .some (searched_attr_of_plain respelled (kind?_of_isKind isRest) rfl (by decide)
      (by decide))
  | false =>
    cases isProperty : value.isKind "Property" with
    | true =>
      refine .some (searched_attr respelled (kind?_of_isKind isProperty) rfl (by decide) ?_)
      rw [isPropertyName, isKind_eq_false (kind?_of_isKind isProperty) (by decide), isProperty]
      rfl
    | false => exact .none

theorem searched_parts {kept : Bool} (respelled : Respelled book kept value new) :
    List.Forall₂ book.Searched value.patternParts new.patternParts := by
  unfold patternParts
  simp only [respelled.isKind]
  split
  · rename_i is
    exact .cons (searched_attr_of_plain respelled (kind?_of_isKind is) rfl (by decide) (by decide))
      .nil
  · split
    · rename_i is
      exact .cons (searched_attr_of_plain respelled (kind?_of_isKind is) rfl (by decide)
        (by decide)) .nil
    · split
      · rename_i is
        exact searched_items respelled (kind?_of_isKind is) rfl (by decide) (by decide)
      · split
        · rename_i is
          exact List.rel_filterMap (fun _ _ related => searched_property related)
            (items_of_kind respelled (kind?_of_isKind is) rfl (by decide))
        · exact .nil

theorem Searched.patternIdentifiers {value new : Value} (searched : book.Searched value new) :
    List.Forall₂ book.Spelled value.patternIdentifiers new.patternIdentifiers := by
  rcases searched with respelled | ⟨no, noNew⟩
  · rw [patternIdentifiers_eq, patternIdentifiers_eq new, respelled.isIdentifier]
    cases isIdentifier : value.isIdentifier with
    | true => exact .cons (respelled.spelled isIdentifier) .nil
    | false =>
      have each := (List.forall₂_and_left _ _).2
        ⟨fun part (member : part ∈ value.patternParts) => member, searched_parts respelled⟩
      refine List.rel_flatMap each ?_
      rintro part become ⟨member, related⟩
      exact related.patternIdentifiers
  · rw [patternIdentifiers_of_not_isNode no, patternIdentifiers_of_not_isNode noNew]
    exact .nil
termination_by sizeOf value
decreasing_by exact sizeOf_lt_of_mem_patternParts member

end Dictionary

end Unravel
