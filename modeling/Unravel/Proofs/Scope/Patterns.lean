import Mathlib.Data.List.Flatten
import Unravel.Proofs.Scope.Lexical
import Unravel.Proofs.Tree.Nodes

/-!
Contract: the identifiers of a pattern are those it binds, in document order.
-/

namespace Unravel.Value

variable {pattern bound value : Value} {name : String}

theorem patternIdentifiers_eq (pattern : Value) : pattern.patternIdentifiers =
      if pattern.isIdentifier then [pattern]
      else pattern.patternParts.flatMap patternIdentifiers := by
  rw [patternIdentifiers]
  split
  · rfl
  · rw [List.flatMap_subtype fun _ _ => rfl, List.unattach_attach]

/-- The shapes of patterns, each with the parts it has. -/
inductive Shape (pattern : Value) : Prop where
  | default (is : pattern.isKind "AssignmentPattern" = true)
      (parts : pattern.patternParts = [pattern.attr "left"])
  | rest (is : pattern.isKind "RestElement" = true)
      (parts : pattern.patternParts = [pattern.attr "argument"])
  | array (is : pattern.isKind "ArrayPattern" = true)
      (parts : pattern.patternParts = (pattern.attr "elements").items)
  | object (is : pattern.isKind "ObjectPattern" = true) (parts : pattern.patternParts =
      (pattern.attr "properties").items.filterMap propertyTarget?)
  | plain (parts : pattern.patternParts = [])

theorem shape (pattern : Value) : pattern.Shape := by
  have parts : pattern.patternParts = pattern.patternParts := rfl
  conv at parts => rhs; unfold patternParts
  split at parts
  · rename_i is
    exact .default is parts
  · split at parts
    · rename_i is
      exact .rest is parts
    · split at parts
      · rename_i is
        exact .array is parts
      · split at parts
        · rename_i is
          exact .object is parts
        · exact .plain parts

/-- The shapes of the properties of an object pattern. -/
inductive PropertyShape (property : Value) : Prop where
  | spread (is : property.isKind "RestElement" = true)
      (target : property.propertyTarget? = some (property.attr "argument"))
  | plain (is : property.isKind "Property" = true)
      (target : property.propertyTarget? = some (property.attr "value"))
  | other (target : property.propertyTarget? = none)

theorem propertyShape (property : Value) : property.PropertyShape := by
  have target : property.propertyTarget? = property.propertyTarget? := rfl
  conv at target => rhs; unfold propertyTarget?
  split at target
  · rename_i is
    exact .spread is target
  · split at target
    · rename_i is
      exact .plain is target
    · exact .other target

theorem patternParts_of_not_isNode (isNot : pattern.isNode = false) :
    pattern.patternParts = [] := by
  have noKind := kind?_of_not_isNode isNot
  simp [patternParts, isKind, noKind]

theorem patternIdentifiers_of_not_isNode (isNot : pattern.isNode = false) :
    pattern.patternIdentifiers = [] := by
  have noKind := kind?_of_not_isNode isNot
  rw [patternIdentifiers_eq, patternParts_of_not_isNode isNot, isIdentifier, isKind, noKind]
  rfl

theorem writtenIdentifiers_eq (value : Value) :
    value.writtenIdentifiers = (Lexical.targets value).flatMap patternIdentifiers := by
  have nothing : null.patternIdentifiers = [] := patternIdentifiers_of_not_isNode rfl
  unfold writtenIdentifiers Lexical.targets
  split
  · exact (List.flatMap_singleton ..).symm
  · split
    · cases isIdentifier : (value.attr "argument").isIdentifier with
      | true => simp [isIdentifier, patternIdentifiers_eq (value.attr "argument")]
      | false => simp [isIdentifier]
    · split
      · unfold loopTarget
        cases declares : (value.attr "left").isKind "VariableDeclaration" with
        | true => simp [declares, nothing]
        | false => simp [declares]
      · rfl

/-! ## Bound identifiers -/

variable {part property : Value} {found : Value → List Value}

theorem Binds.of_part (member : part ∈ pattern.patternParts) (inside : part.Binds bound) :
    pattern.Binds bound := by
  cases pattern.shape with
  | default is parts =>
    rw [parts, List.mem_singleton] at member
    exact .default (kind?_of_isKind is) (member ▸ inside)
  | rest is parts =>
    rw [parts, List.mem_singleton] at member
    exact .rest (kind?_of_isKind is) (member ▸ inside)
  | array is parts => exact .element (kind?_of_isKind is) (parts ▸ member) inside
  | object is parts =>
    rw [parts] at member
    obtain ⟨property, inList, found⟩ := List.mem_filterMap.1 member
    cases property.propertyShape with
    | spread isRest target =>
      cases found.symm.trans target
      exact .restProperty (kind?_of_isKind is) inList (kind?_of_isKind isRest) inside
    | plain isPlain target =>
      cases found.symm.trans target
      exact .property (kind?_of_isKind is) inList (kind?_of_isKind isPlain) inside
    | other target => cases found.symm.trans target
  | plain parts =>
    rw [parts] at member
    cases member

theorem binds_of_mem (pattern : Value) {bound : Value}
    (member : bound ∈ pattern.patternIdentifiers) : pattern.Binds bound := by
  rw [patternIdentifiers_eq] at member
  split at member
  · rename_i is
    cases List.mem_singleton.1 member
    exact .identifier (kind?_of_isKind is)
  · obtain ⟨part, isPart, inside⟩ := List.mem_flatMap.1 member
    exact .of_part isPart (binds_of_mem part inside)
termination_by sizeOf pattern
decreasing_by exact sizeOf_lt_of_mem_patternParts isPart

theorem mem_of_part {kind : String} (is : pattern.kind? = some kind)
    (differs : kind ≠ "Identifier") (isPart : part ∈ pattern.patternParts)
    (inside : bound ∈ part.patternIdentifiers) : bound ∈ pattern.patternIdentifiers := by
  rw [patternIdentifiers_eq, isIdentifier, isKind_eq_false is differs]
  exact List.mem_flatMap.2 ⟨part, isPart, inside⟩

theorem mem_of_binds (binds : pattern.Binds bound) : bound ∈ pattern.patternIdentifiers := by
  induction binds with
  | @identifier target is =>
    rw [patternIdentifiers_eq, isIdentifier, isKind, is]
    exact List.mem_singleton_self _
  | default is _ ih =>
    refine mem_of_part is (by decide) ?_ ih
    simp [patternParts, isKind, is]
  | rest is _ ih =>
    refine mem_of_part is (by decide) ?_ ih
    simp [patternParts, isKind, is]
  | element is member _ ih =>
    refine mem_of_part is (by decide) ?_ ih
    simpa [patternParts, isKind, is] using member
  | @property _ property _ is member plain _ ih =>
    refine mem_of_part is (by decide) ?_ ih
    have target : property.propertyTarget? = some (property.attr "value") := by
      simp [propertyTarget?, isKind, plain]
    simpa [patternParts, isKind, is] using ⟨property, member, target⟩
  | @restProperty _ property _ is member spread _ ih =>
    refine mem_of_part is (by decide) ?_ ih
    have target : property.propertyTarget? = some (property.attr "argument") := by
      simp [propertyTarget?, isKind, spread]
    simpa [patternParts, isKind, is] using ⟨property, member, target⟩

/-! ## Document order -/

theorem slot_sublist (listed : name ∈ value.childFields) :
    ((value.attr name).slotNodes.flatMap nodes).Sublist (value.children.flatMap nodes) := by
  refine List.Sublist.flatMap ?_ nodes
  have single : [name].Sublist value.childFields := List.singleton_sublist.2 listed
  have whole := single.flatMap fun name => (value.attr name).slotNodes
  rwa [List.flatMap_singleton] at whole

theorem attr_sublist (listed : name ∈ value.childFields)
    (within : (value.attr name).patternIdentifiers.Sublist (value.attr name).nodes) :
    (value.attr name).patternIdentifiers.Sublist (value.children.flatMap nodes) := by
  cases isNode : (value.attr name).isNode with
  | false =>
    rw [patternIdentifiers_of_not_isNode isNode]
    exact List.nil_sublist _
  | true =>
    have slot := slot_sublist listed
    rw [slotNodes_of_isNode isNode, List.flatMap_singleton] at slot
    exact within.trans slot

theorem flatMap_filter_isNode (items : List Value) (nothing : ∀ item : Value, item.isNode = false →
    found item = []) : (items.filter isNode).flatMap found = items.flatMap found := by
  induction items with
  | nil => rfl
  | cons item rest ih =>
    cases isNode : item.isNode with
    | true =>
      rw [List.filter_cons_of_pos isNode, List.flatMap_cons, List.flatMap_cons, ih]
    | false =>
      rw [List.filter_cons_of_neg (by simp [isNode]), List.flatMap_cons,
        nothing item isNode, ih, List.nil_append]

/-- What is found below each item of a list attribute stands there in order. -/
theorem items_sublist (listed : name ∈ value.childFields)
    (within : ∀ item ∈ (value.attr name).items, (found item).Sublist item.nodes)
    (nothing : ∀ item : Value, item.isNode = false → found item = []) :
    ((value.attr name).items.flatMap found).Sublist (value.children.flatMap nodes) := by
  refine List.Sublist.trans ?_ (slot_sublist listed)
  cases held : value.attr name with
  | list entries =>
    rw [held] at within
    have kept : (list entries).items.flatMap found = (list entries).slotNodes.flatMap found :=
        (flatMap_filter_isNode entries nothing).symm
    rw [kept]
    exact List.Sublist.flatMap_right _ fun item member =>
      within item (List.mem_filter.1 member).1
  | _ => exact List.nil_sublist _

/-- The identifiers inside one property of an object pattern. -/
def propertyIdentifiers (property : Value) : List Value :=
  property.propertyTarget?.elim [] patternIdentifiers

theorem propertyIdentifiers_sublist (within : ∀ target, property.propertyTarget? = some target →
      target.patternIdentifiers.Sublist target.nodes) :
    property.propertyIdentifiers.Sublist property.nodes := by
  rw [nodes_eq]
  refine .cons _ ?_
  unfold propertyIdentifiers
  cases property.propertyShape with
  | spread is target =>
    rw [target]
    exact attr_sublist (mem_childFields is rfl (by decide)) (within _ target)
  | plain is target =>
    rw [target]
    exact attr_sublist (mem_childFields is rfl (by decide)) (within _ target)
  | other target =>
    rw [target]
    exact List.nil_sublist _

theorem propertyIdentifiers_of_not_isNode (isNot : property.isNode = false) :
    property.propertyIdentifiers = [] := by
  have noKind := kind?_of_not_isNode isNot
  simp [propertyIdentifiers, propertyTarget?, isKind, noKind]

theorem flatMap_propertyTarget? (properties : List Value) : (properties.filterMap
    propertyTarget?).flatMap patternIdentifiers = properties.flatMap propertyIdentifiers := by
  induction properties with
  | nil => rfl
  | cons property rest ih =>
    rw [List.filterMap_cons, List.flatMap_cons, ← ih, propertyIdentifiers]
    cases property.propertyTarget? <;> rfl

theorem patternIdentifiers_sublist (pattern : Value) :
    pattern.patternIdentifiers.Sublist pattern.nodes := by
  have ih : ∀ part ∈ pattern.patternParts,
      part.patternIdentifiers.Sublist part.nodes :=
    fun part isPart => patternIdentifiers_sublist part
  rw [patternIdentifiers_eq, nodes_eq]
  split
  · exact .cons_cons _ (List.nil_sublist _)
  · refine .cons _ ?_
    cases pattern.shape with
    | default is parts =>
      rw [parts] at ih ⊢
      rw [List.flatMap_singleton]
      exact attr_sublist (mem_childFields is rfl (by decide)) (ih _ (List.mem_singleton_self _))
    | rest is parts =>
      rw [parts] at ih ⊢
      rw [List.flatMap_singleton]
      exact attr_sublist (mem_childFields is rfl (by decide)) (ih _ (List.mem_singleton_self _))
    | array is parts =>
      rw [parts] at ih ⊢
      exact items_sublist (mem_childFields is rfl (by decide)) ih
        fun _ => patternIdentifiers_of_not_isNode
    | object is parts =>
      rw [parts] at ih ⊢
      rw [flatMap_propertyTarget?]
      refine items_sublist (mem_childFields is rfl (by decide)) ?_
        fun _ => propertyIdentifiers_of_not_isNode
      intro property member
      exact propertyIdentifiers_sublist fun target found =>
        ih target (List.mem_filterMap.2 ⟨property, member, found⟩)
    | plain parts =>
      rw [parts]
      exact List.nil_sublist _
termination_by sizeOf pattern
decreasing_by exact sizeOf_lt_of_mem_patternParts isPart

end Unravel.Value
