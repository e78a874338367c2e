import Mathlib.Data.List.Nodup
import Unravel.Proofs.Scope.Patterns

/-!
Contract: well-formed programs are surveyed without a fault.

`WellShaped` is what the grammar asks of single nodes as far as names and scopes
go. What a survey reads of a node are attributes of it and of patterns below it,
all of which are nodes of the tree.
-/

namespace Unravel

variable {value pattern : Value} {kind : String}

namespace Value

def isList : Value → Bool
  | .list _ => true
  | _ => false

/-- Kinds of nodes that declare a name of their own. -/
def namedKinds : List String := ["FunctionDeclaration", "FunctionExpression", "ClassDeclaration"]

structure WellShaped (node : Value) : Prop where
  name : node.isIdentifier = true → (node.attr "name").text?.isSome = true
  own : ∀ kind ∈ namedKinds, node.isKind kind = true →
    ((node.attr "id").isNull || (node.attr "id").isIdentifier) = true
  params : node.isFunction = true → (node.attr "params").isList = true
  declarations : node.isKind "VariableDeclaration" = true → (node.attr "declarations").isList = true
  declarators : node.isKind "VariableDeclaration" = true →
    ∀ item ∈ (node.attr "declarations").items, item.isKind "VariableDeclarator" = true
  elements : node.isKind "ArrayPattern" = true → (node.attr "elements").isList = true
  properties : node.isKind "ObjectPattern" = true → (node.attr "properties").isList = true
  body : node.isKind "CatchClause" = true → (node.attr "body").isKind "BlockStatement" = true

instance : DecidablePred WellShaped := fun _ =>
  decidable_of_iff (_ ∧ _ ∧ _ ∧ _ ∧ _ ∧ _ ∧ _ ∧ _)
    ⟨fun ⟨name, own, params, declarations, declarators, elements, properties, body⟩ =>
      ⟨name, own, params, declarations, declarators, elements, properties, body⟩,
     fun shaped => ⟨shaped.name, shaped.own, shaped.params, shaped.declarations,
      shaped.declarators, shaped.elements, shaped.properties, shaped.body⟩⟩

/-- A program with well-shaped nodes, none of which stands in it twice. -/
structure WellFormed (root : Value) : Prop where
  program : root.isKind "Program" = true
  distinct : (root.nodes.map label?).Nodup
  shaped : ∀ node ∈ root.nodes, node.WellShaped

instance : DecidablePred WellFormed := fun _ =>
  decidable_of_iff (_ ∧ _ ∧ _)
    ⟨fun ⟨program, distinct, shaped⟩ => ⟨program, distinct, shaped⟩,
     fun wellFormed => ⟨wellFormed.program, wellFormed.distinct, wellFormed.shaped⟩⟩

/-- A value all of whose nodes, if it is one, are well-shaped. -/
def Sound (value : Value) : Prop :=
  value.isNode = true → ∀ node ∈ value.nodes, node.WellShaped

theorem Sound.child {value child : Value} (sound : value.Sound) (isNode : value.isNode)
    (member : child.isNode → child ∈ value.children) : child.Sound :=
  fun childIsNode inner inside =>
    sound isNode inner (mem_nodes_of_child (member childIsNode) inside)

theorem Sound.attr {name : String} {names : List String} (sound : value.Sound) (is : value.isKind
    kind) (listed : Members.get? childTable kind = some names) (among : name ∈ names) : (value.attr
    name).Sound := sound.child (isNode_of_kind? (kind?_of_isKind is)) (mem_children_of_attr
    (mem_childFields is listed among))

theorem Sound.item {value item : Value} {kind name : String} {names : List String}
    (sound : value.Sound) (is : value.isKind kind)
    (listed : Members.get? childTable kind = some names) (among : name ∈ names)
    (member : item ∈ (value.attr name).items) : item.Sound :=
  sound.child (isNode_of_kind? (kind?_of_isKind is))
    (mem_children_of_item (mem_childFields is listed among) member)

theorem Sound.shaped (sound : value.Sound) (is : value.isKind kind) : value.WellShaped :=
  sound (isNode_of_kind? (kind?_of_isKind is)) value value.mem_nodes_self

theorem isSequence_of_isList (isList : value.isList) : value.isSequence := by
  cases value <;> first | rfl | cases isList

theorem elements_of_isList (isList : value.isList) : value.elements = value.items := by
  cases value <;> first | rfl | cases isList

/-! ## Patterns -/

theorem Sound.part {pattern part : Value} (sound : pattern.Sound)
    (isPart : part ∈ pattern.patternParts) : part.Sound := by
  cases pattern.shape with
  | default is parts =>
    rw [parts, List.mem_singleton] at isPart
    exact isPart ▸ sound.attr is rfl (by decide)
  | rest is parts =>
    rw [parts, List.mem_singleton] at isPart
    exact isPart ▸ sound.attr is rfl (by decide)
  | array is parts => exact sound.item is rfl (by decide) (parts ▸ isPart)
  | object is parts =>
    rw [parts] at isPart
    obtain ⟨property, member, found⟩ := List.mem_filterMap.1 isPart
    have soundProperty : property.Sound := sound.item is rfl (by decide) member
    cases property.propertyShape with
    | spread isRest target =>
      cases found.symm.trans target
      exact soundProperty.attr isRest rfl (by decide)
    | plain isPlain target =>
      cases found.symm.trans target
      exact soundProperty.attr isPlain rfl (by decide)
    | other target => cases found.symm.trans target
  | plain parts =>
    rw [parts] at isPart
    cases isPart

theorem anyReversalFault?_of_isList (isList : value.isList) : value.anyReversalFault? = none := by
  rw [anyReversalFault?, isSequence_of_isList isList, Bool.not_true, Bool.and_false]
  rfl

theorem Sound.partsFault? (sound : pattern.Sound) : pattern.partsFault? = none := by
  unfold Value.partsFault?
  split
  · rename_i is
    exact anyReversalFault?_of_isList ((sound.shaped is).elements is)
  · split
    · rename_i is
      exact anyReversalFault?_of_isList ((sound.shaped is).properties is)
    · rfl

theorem Sound.patternFault? {pattern : Value} (sound : pattern.Sound) :
    pattern.patternFault? = none := by
  rw [Value.patternFault?, sound.partsFault?, Option.none_or, List.findSome?_eq_none_iff]
  intro part _
  exact Sound.patternFault? (sound.part part.property)
termination_by sizeOf pattern
decreasing_by exact sizeOf_lt_of_mem_patternParts part.property

theorem Sound.identifiers {pattern identifier : Value} (sound : pattern.Sound) (member : identifier
    ∈ pattern.patternIdentifiers) : identifier.Sound ∧ identifier.isIdentifier := by
  rw [patternIdentifiers_eq] at member
  split at member
  · rename_i is
    cases List.mem_singleton.1 member
    exact ⟨sound, is⟩
  · obtain ⟨part, isPart, inside⟩ := List.mem_flatMap.1 member
    exact Sound.identifiers (sound.part isPart) inside
termination_by sizeOf pattern
decreasing_by exact sizeOf_lt_of_mem_patternParts isPart

/-! ## Names -/

theorem Sound.nameFault? {identifier : Value} (sound : identifier.Sound)
    (is : identifier.isIdentifier) : identifier.nameFault? = none := by
  obtain ⟨label, isLabel⟩ := exists_label?_of_isNode (isNode_of_kind? (kind?_of_isKind is))
  obtain ⟨text, isText⟩ := Option.isSome_iff_exists.1 ((sound.shaped is).name is)
  have isObject : identifier.isObject := by
    rw [Value.isObject, isLabel]
    rfl
  have hashable : (identifier.attr "name").keyFault? = none := by
    cases held : identifier.attr "name" <;> rw [held] at isText <;> first | rfl | cases isText
  rw [Value.nameFault?, attrFault?, isObject, hashable]
  rfl

theorem Sound.namesFault? (sound : pattern.Sound) :
    pattern.patternIdentifiers.findSome? Value.nameFault? = none := by
  rw [List.findSome?_eq_none_iff]
  intro identifier member
  obtain ⟨soundIdentifier, is⟩ := sound.identifiers member
  exact soundIdentifier.nameFault? is

theorem Sound.bindingFault? (sound : pattern.Sound) : pattern.bindingFault? = none := by
  rw [Value.bindingFault?, sound.patternFault?, sound.namesFault?]
  rfl

theorem Sound.ownNameFault? {names : List String} (sound : value.Sound) (is : value.isKind kind)
    (named : kind ∈ namedKinds) (listed : Members.get? childTable kind = some names) (among : "id" ∈
    names) : value.ownNameFault? = none := by
  have shape := (sound.shaped is).own kind named is
  unfold Value.ownNameFault?
  split
  · rfl
  · rename_i present
    rw [Bool.eq_false_iff.2 present] at shape
    exact (sound.attr is listed among).nameFault? shape

/-! ## Single nodes -/

theorem Sound.loopTarget (sound : value.Sound) (is : (value.isKind "ForInStatement" || value.isKind
    "ForOfStatement")) : value.loopTarget.Sound := by
  unfold Value.loopTarget
  split
  · intro isNode
    cases isNode
  · rcases Bool.or_eq_true_iff.1 is with overNames | overValues
    · exact sound.attr overNames rfl (by decide)
    · exact sound.attr overValues rfl (by decide)

theorem Sound.hoistingFault? (sound : value.Sound) : value.hoistingFault? = none := by
  unfold Value.hoistingFault?
  split
  · rename_i is
    exact sound.ownNameFault? is (by decide) rfl (by decide)
  · rfl

theorem Sound.params {value item : Value} (sound : value.Sound) (is : value.isFunction)
    (member : item ∈ (value.attr "params").items) : item.Sound := by
  obtain ⟨kind, listed, isKind⟩ := exists_kind?_of_isFunction is
  have table : ∀ kind ∈ functionKinds,
      ∃ names, Members.get? childTable kind = some names ∧ "params" ∈ names := by
    simp only [functionKinds, List.forall_mem_cons]
    refine ⟨⟨_, rfl, ?_⟩, ⟨_, rfl, ?_⟩, ⟨_, rfl, ?_⟩, List.forall_mem_nil _⟩ <;> decide
  obtain ⟨names, found, among⟩ := table kind listed
  have isKind : value.isKind kind := beq_iff_eq.2 isKind
  exact sound.item isKind found among member

theorem Sound.functionFault? (sound : value.Sound) (is : value.isFunction) :
    (value.attr "params").anyIterationFault?.or
      ((value.attr "params").items.findSome? Value.bindingFault?) = none := by
  obtain ⟨kind, _, isKind⟩ := exists_kind?_of_isFunction is
  have isList := (sound.shaped (beq_iff_eq.2 isKind)).params is
  have iterable : (value.attr "params").anyIterationFault? = none := by
    rw [anyIterationFault?, iterationFault?, isSequence_of_isList isList, if_pos rfl, ite_self]
  rw [iterable, Option.none_or, List.findSome?_eq_none_iff]
  intro item member
  exact (sound.params is member).bindingFault?

theorem Sound.declaratorFault? {declarator : Value} (sound : declarator.Sound)
    (is : declarator.isKind "VariableDeclarator") : declarator.declaratorFault? = none := by
  obtain ⟨label, isLabel⟩ := exists_label?_of_isNode (isNode_of_kind? (kind?_of_isKind is))
  have isObject : declarator.isObject := by
    rw [Value.isObject, isLabel]
    rfl
  rw [Value.declaratorFault?, attrFault?, isObject, (sound.attr is rfl (by decide)).bindingFault?]
  rfl

theorem Sound.declarationFault? (sound : value.Sound) : value.declarationFault? = none := by
  unfold Value.declarationFault?
  split
  · rename_i isFunction
    rw [sound.functionFault? isFunction, Option.or_none]
    split
    · rename_i is
      exact sound.ownNameFault? is (by decide) rfl (by decide)
    · rfl
  · split
    · rename_i is
      have isList := (sound.shaped is).declarations is
      rw [iterationFault?, isSequence_of_isList isList, if_pos rfl, Option.none_or,
        elements_of_isList isList, List.findSome?_eq_none_iff]
      intro item member
      exact (sound.item is rfl (by decide) member).declaratorFault?
        ((sound.shaped is).declarators is item member)
    · split
      · rename_i is
        exact sound.ownNameFault? is (by decide) rfl (by decide)
      · split
        · rename_i is
          exact (sound.attr is rfl (by decide)).bindingFault?
        · split
          · rename_i is
            exact (sound.attr is rfl (by decide)).patternFault?
          · split
            · rename_i isLoop
              exact (sound.loopTarget isLoop).patternFault?
            · rfl

theorem Sound.writtenFault? (sound : value.Sound) :
    value.writtenIdentifiers.findSome? Value.nameFault? = none := by
  unfold Value.writtenIdentifiers
  split
  · rename_i is
    exact (sound.attr is rfl (by decide)).namesFault?
  · split
    · rename_i is
      split
      · rename_i isIdentifier
        have soundArgument : (value.attr "argument").Sound := sound.attr is rfl (by decide)
        rw [List.findSome?_singleton, soundArgument.nameFault? isIdentifier]
      · rfl
    · split
      · rename_i isLoop
        exact (sound.loopTarget isLoop).namesFault?
      · rfl

/-! ## Whole programs -/

theorem WellFormed.sound {root node : Value} (wellFormed : root.WellFormed)
    (member : node ∈ root.nodes) : node.Sound :=
  fun _ inner inside => wellFormed.shaped inner (mem_nodes_trans member inside)

theorem WellFormed.surveyFault? {root : Value} (wellFormed : root.WellFormed) :
    root.surveyFault? false = none := by
  have atNode : ∀ node ∈ root.nodes, node.hoistingFault?.or node.declarationFault? = none := by
    intro node member
    have sound := wellFormed.sound member
    rw [sound.hoistingFault?, sound.declarationFault?]
    rfl
  have below : ((root.nodes.drop 1).findSome? fun node =>
      node.hoistingFault?.or node.declarationFault?) = none := by
    rw [List.findSome?_eq_none_iff]
    exact fun node member => atNode node (List.mem_of_mem_drop member)
  have written : (root.nodes.findSome? fun node =>
      node.writtenIdentifiers.findSome? Value.nameFault?) = none := by
    rw [List.findSome?_eq_none_iff]
    exact fun node member => (wellFormed.sound member).writtenFault?
  have own := (wellFormed.sound root.mem_nodes_self).declarationFault?
  unfold Value.surveyFault?
  rw [own, below, written]
  simp

end Value

end Unravel
