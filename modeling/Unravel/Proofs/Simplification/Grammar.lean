import Unravel.Proofs.Simplification.Choices
import Unravel.Proofs.Walk.Yielding

/-!
Contract: the grammar that the simplifiers ask for, and that they keep it.

`Grammatical` is what a walk needs of every node: it can be surveyed, its
attributes have names of their own, and operators are no lists. Rewriting constant
expressions keeps it, as no node of the other kinds is exchanged
(`grammatical_rewritten`).
-/

namespace Unravel

variable {value node : Value} {change : Value → Value} {kind : String}

namespace Value

/-- What the grammar asks of one node. -/
structure WellMade (node : Value) : Prop where
  shaped : node.WellShaped
  named : (Members.names node.fields).Nodup
  operator : node.isKind "BinaryExpression" = true → (node.attr "operator").keyFault? = none

instance : DecidablePred WellMade := fun _ =>
  decidable_of_iff (_ ∧ _ ∧ _)
    ⟨fun ⟨shaped, named, operator⟩ => ⟨shaped, named, operator⟩,
     fun made => ⟨made.shaped, made.named, made.operator⟩⟩

/-- All nodes of the tree are as the grammar asks. -/
def Grammatical (value : Value) : Prop :=
  ∀ node ∈ value.nodes, node.WellMade

instance : DecidablePred Grammatical := fun value =>
  inferInstanceAs (Decidable (∀ node ∈ value.nodes, _))

theorem Grammatical.child {value child : Value} (grammatical : value.Grammatical)
    (member : child ∈ value.children) : child.Grammatical :=
  fun node inside => grammatical node (mem_nodes_of_child member inside)

theorem Grammatical.surveyable (grammatical : value.Grammatical) : value.Surveyable := by
  intro node member
  have sound : node.Sound := fun _ inner inside =>
    (grammatical inner (mem_nodes_trans member inside)).shaped
  exact ⟨sound.hoistingFault?, sound.declarationFault?, sound.writtenFault?⟩

theorem Grammatical.attr {name : String} {names : List String} (grammatical : value.Grammatical)
    (is : value.kind? = some kind) (listed : Members.get? childTable kind = some names)
    (among : name ∈ names) (isNode : (value.attr name).isNode) : (value.attr name).Grammatical := by
  refine grammatical.child (mem_children_of_attr ?_ isNode)
  rw [childFields_of_kind is listed]
  exact among

theorem evaluationFault?_of_kind (noUnary : value.kind? ≠ some "UnaryExpression")
    (noBinary : value.kind? ≠ some "BinaryExpression") : value.evaluationFault? = none := by
  rw [evaluationFault?]
  split
  · rfl
  · rename_i kind is
    have differs {other : String} (no : value.kind? ≠ some other) : kind ≠ other := by
      rintro rfl
      exact no is
    rw [if_neg (differs noUnary), if_neg (differs noBinary)]

/-- Expressions without operators that are lists can be evaluated. -/
theorem evaluationFault?_of_operators {value : Value}
    (operators : ∀ node ∈ value.nodes, node.isKind "BinaryExpression" →
      (node.attr "operator").keyFault? = none) : value.evaluationFault? = none := by
  have operand {kind name : String} {names : List String} (is : value.kind? = some kind)
      (listed : Members.get? childTable kind = some names) (among : name ∈ names)
      (smaller : (∀ node ∈ (value.attr name).nodes, node.isKind "BinaryExpression" →
        (node.attr "operator").keyFault? = none) → (value.attr name).evaluationFault? = none) :
      (value.attr name).evaluationFault? = none := by
    cases isNode : (value.attr name).isNode with
    | true =>
      have isChild := mem_children_of_attr (mem_childFields (beq_iff_eq.2 is) listed among) isNode
      exact smaller fun node inside => operators node (mem_nodes_of_child isChild inside)
    | false =>
      have noKind := kind?_of_not_isNode isNode
      exact evaluationFault?_of_kind (by simp [noKind]) (by simp [noKind])
  by_cases isUnary : value.kind? = some "UnaryExpression"
  · have argument := operand isUnary rfl (List.mem_singleton_self _) evaluationFault?_of_operators
    rw [Value.evaluationFault?]
    split
    · rfl
    · rename_i kind is
      cases is.symm.trans isUnary
      simp only [↓reduceIte, argument, ite_self]
  by_cases isBinary : value.kind? = some "BinaryExpression"
  · have left := operand isBinary rfl (List.mem_cons_self) evaluationFault?_of_operators
    have right := operand isBinary rfl (List.mem_cons_of_mem _ (List.mem_singleton_self _))
      evaluationFault?_of_operators
    have operator := operators value (mem_nodes_self value) (beq_iff_eq.2 isBinary)
    rw [Value.evaluationFault?]
    split
    · rfl
    · rename_i kind is
      cases is.symm.trans isBinary
      simp only [↓reduceIte, String.reduceEq, left, right, operator, ite_self, Option.or_none]
      split <;> rfl
  · exact evaluationFault?_of_kind isUnary isBinary
termination_by sizeOf value
decreasing_by
  · exact sizeOf_attr_lt_of_kind? _ isUnary
  · exact sizeOf_attr_lt_of_kind? _ isBinary
  · exact sizeOf_attr_lt_of_kind? _ isBinary

theorem Grammatical.evaluationFault? (grammatical : value.Grammatical) :
    value.evaluationFault? = none :=
  evaluationFault?_of_operators fun node inside => (grammatical node inside).operator

/-! ## Nodes that read alike -/

/-- What the grammar asks of a node is asked of what is read of it. -/
theorem WellShaped.transfer {other : Value} (shaped : node.WellShaped)
    (kind : other.kind? = node.kind?) (name : node.isIdentifier → (node.attr "name").text?.isSome →
      (other.attr "name").text?.isSome)
    (own : ((node.attr "id").isNull || (node.attr "id").isIdentifier) →
      ((other.attr "id").isNull || (other.attr "id").isIdentifier))
    (lists : ∀ name, (node.attr name).isList → (other.attr name).isList)
    (declarators : (∀ item ∈ (node.attr "declarations").items, item.isKind "VariableDeclarator") →
        ∀ item ∈ (other.attr "declarations").items, item.isKind "VariableDeclarator")
    (body : (node.attr "body").isKind "BlockStatement" →
      (other.attr "body").isKind "BlockStatement") : other.WellShaped := by
  have same (name : String) : other.isKind name = node.isKind name := by
    rw [isKind, isKind, kind]
  have isFunction : other.isFunction = node.isFunction := by
    rw [Value.isFunction, Value.isFunction, kind]
  refine ⟨?_, ?_, ?_, ?_, ?_, ?_, ?_, ?_⟩
  · intro is
    rw [isIdentifier, same] at is
    exact name is (shaped.name is)
  · intro kind listed is
    rw [same] at is
    exact own (shaped.own kind listed is)
  · intro is
    rw [isFunction] at is
    exact lists _ (shaped.params is)
  · intro is
    rw [same] at is
    exact lists _ (shaped.declarations is)
  · intro is
    rw [same] at is
    exact declarators (shaped.declarators is)
  · intro is
    rw [same] at is
    exact lists _ (shaped.elements is)
  · intro is
    rw [same] at is
    exact lists _ (shaped.properties is)
  · intro is
    rw [same] at is
    exact body (shaped.body is)

theorem isNull_unlabelled (value : Value) : value.unlabelled.isNull = value.isNull := by
  cases value <;> rfl

theorem isList_unlabelled (value : Value) : value.unlabelled.isList = value.isList := by
  cases value <;> rfl

theorem keyFault?_unlabelled (value : Value) : value.unlabelled.keyFault? = value.keyFault? := by
  cases value <;> rfl

theorem wellShaped_unlabelled : node.unlabelled.WellShaped ↔ node.WellShaped := by
  -- what is read of an attribute is the same on both sides, in both directions
  refine ⟨fun shaped => shaped.transfer (kind?_unlabelled node).symm ?_ ?_ ?_ ?_ ?_,
    fun shaped => shaped.transfer (kind?_unlabelled node) ?_ ?_ ?_ ?_ ?_⟩ <;>
    simp [attr_unlabelled, text?_unlabelled, isNull_unlabelled, isList_unlabelled, items_unlabelled,
      isIdentifier, isKind_unlabelled]

theorem wellMade_unlabelled : node.unlabelled.WellMade ↔ node.WellMade := by
  have operator : (node.unlabelled.isKind "BinaryExpression" →
      (node.unlabelled.attr "operator").keyFault? = none) ↔
        (node.isKind "BinaryExpression" → (node.attr "operator").keyFault? = none) := by
    rw [isKind_unlabelled, attr_unlabelled, keyFault?_unlabelled]
  constructor
  · rintro ⟨shaped, named, keyed⟩
    exact ⟨wellShaped_unlabelled.1 shaped, names_unlabelled node ▸ named, operator.1 keyed⟩
  · rintro ⟨shaped, named, keyed⟩
    exact ⟨wellShaped_unlabelled.2 shaped, (names_unlabelled node).symm ▸ named, operator.2 keyed⟩

theorem grammatical_unlabelled : value.unlabelled.Grammatical ↔ value.Grammatical := by
  unfold Grammatical
  rw [nodes_unlabelled, List.forall_mem_map]
  simp only [wellMade_unlabelled]

/-! ## Rewriting -/

/-- The change keeps the kinds of all nodes but constant expressions. -/
def KeepsKinds (change : Value → Value) : Prop :=
  ∀ ⦃value kind⦄, value.kind? = some kind → kind ∉ constantKinds →
    (change value).kind? = some kind

theorem KeepsKinds.isKind (keeps : KeepsKinds change) (other : kind ∉ constantKinds)
    (is : value.isKind kind) : (value.mapSlot change).isKind kind := by
  rw [mapSlot_of_isNode (isNode_of_kind? (kind?_of_isKind is))]
  exact beq_iff_eq.2 (keeps (kind?_of_isKind is) other)

theorem isList_mapSlot (is : value.isList) : (value.mapSlot change).isList := by
  cases value <;> first | rfl | cases is

theorem isNull_mapSlot (tame : Tame change) (is : value.isNull) :
    (value.mapSlot change).isNull := by
  cases value with
  | null => rw [mapSlot.eq_2 _ _ (by simp), tame.still rfl, isNull]
  | _ => cases is

theorem WellMade.mapChildren (made : node.WellMade) (tame : Tame change)
    (keeps : KeepsKinds change) (isNode : node.isNode) :
    (node.mapChildren change).WellMade where
  shaped := by
    refine made.shaped.transfer (kind?_mapChildren change node) ?_ ?_ ?_ ?_ ?_
    · intro is isText
      rwa [attr_mapChildren_of_kind (kind?_of_isKind is) rfl (by decide)]
    · intro own
      rcases attr_mapChildren_cases tame isNode "id" with same | same
      · rw [same]
        rcases Bool.or_eq_true_iff.1 own with isNull | isIdentifier
        · exact Bool.or_eq_true_iff.2 (.inl (isNull_mapSlot tame isNull))
        · exact Bool.or_eq_true_iff.2 (.inr (keeps.isKind (by decide) isIdentifier))
      · rwa [same]
    · intro name isList
      rcases attr_mapChildren_cases tame isNode name with same | same
      · rw [same]
        exact isList_mapSlot isList
      · rwa [same]
    · intro declarators
      rcases attr_mapChildren_cases tame isNode "declarations" with same | same
      · rw [same, items_mapSlot tame, List.forall_mem_map]
        intro item member
        have is := kind?_of_isKind (declarators item member)
        exact beq_iff_eq.2 (keeps is (by decide))
      · rwa [same]
    · intro isBlock
      rcases attr_mapChildren_cases tame isNode "body" with same | same
      · rw [same]
        exact keeps.isKind (by decide) isBlock
      · rwa [same]
  named := by
    rw [names_mapChildren]
    exact made.named
  operator is := by
    rw [isKind_mapChildren] at is
    rw [attr_mapChildren_of_kind (kind?_of_isKind is) rfl (by decide)]
    exact made.operator is

/-- A rewriting of constant expressions. -/
structure Simplifies (choose : Value → Option Value) : Prop where
  choice : Choice choose
  constant : ∀ ⦃value new⦄, choose value = some new → ∃ kind ∈ constantKinds,
    value.kind? = some kind
  made : ∀ ⦃value new⦄, choose value = some new → new.Grammatical

theorem Simplifies.keepsKinds {choose : Value → Option Value} (simplifies : Simplifies choose) :
    KeepsKinds (rewritten choose) := by
  intro value kind is other
  cases chosen : choose value with
  | none => rw [rewritten_of_none chosen, kind?_mapChildren, is]
  | some new =>
    obtain ⟨constant, listed, isConstant⟩ := simplifies.constant chosen
    cases is.symm.trans isConstant
    exact absurd listed other

/-- A rewriting of constant expressions keeps a tree grammatical. -/
theorem Simplifies.grammatical {choose : Value → Option Value} (simplifies : Simplifies choose)
    {value : Value} (isNode : value.isNode) (grammatical : value.Grammatical) :
    (value.rewritten choose).Grammatical := by
  cases chosen : choose value with
  | some new =>
    rw [rewritten_of_some isNode chosen]
    exact simplifies.made chosen
  | none =>
    have tame := simplifies.choice.tame
    rw [rewritten_of_none chosen]
    intro node member
    rw [nodes_eq, children_mapChildren tame isNode, List.flatMap_map] at member
    rcases List.mem_cons.1 member with rfl | below
    · exact (grammatical value (mem_nodes_self value)).mapChildren tame simplifies.keepsKinds
        isNode
    · obtain ⟨child, isChild, inside⟩ := List.mem_flatMap.1 below
      exact simplifies.grammatical (isNode_of_mem_children isChild) (grammatical.child isChild)
        node inside
termination_by sizeOf value
decreasing_by exact sizeOf_lt_of_mem_children isChild

/-! ## Nodes that are put in place -/

theorem wellShaped_of_constant (is : node.kind? = some kind) (listed : kind ∈ constantKinds) :
    node.WellShaped := by
  have no {other : String} (unlisted : other ∉ constantKinds) : node.isKind other = false :=
    isKind_eq_false is fun same => unlisted (same ▸ listed)
  have noFunction : node.isFunction = false := by
    have none : ∀ kind ∈ constantKinds, functionKinds.contains kind = false := by decide
    rw [isFunction, is]
    exact none kind listed
  refine ⟨?_, ?_, ?_, ?_, ?_, ?_, ?_, ?_⟩
  · rw [isIdentifier, no (by decide)]
    intro is
    cases is
  · intro kind named
    have none : ∀ kind ∈ namedKinds, kind ∉ constantKinds := by decide
    simp [no (none kind named)]
  · simp [noFunction]
  all_goals
    rw [no (by decide)]
    intro is
    cases is

theorem wellMade_of_plain (is : node.kind? = some kind)
    (listed : kind ∈ ["Literal", "UnaryExpression"]) (named : (Members.names node.fields).Nodup) :
    node.WellMade where
  shaped := by
    have constant : ∀ kind ∈ ["Literal", "UnaryExpression"], kind ∈ constantKinds := by decide
    exact wellShaped_of_constant is (constant kind listed)
  named := named
  operator isBinary := by
    have other : ∀ kind ∈ ["Literal", "UnaryExpression"], kind ≠ "BinaryExpression" := by decide
    rw [isKind_eq_false is (other kind listed)] at isBinary
    cases isBinary

theorem grammatical_of_leaf (made : value.WellMade) (childless : value.childFields = []) :
    value.Grammatical := by
  intro node member
  rw [nodes_eq, children, childless] at member
  exact List.mem_singleton.1 member ▸ made

theorem grammatical_minus {operand : Value} (isNode : operand.isNode)
    (grammatical : operand.Grammatical) : operand.minus.Grammatical := by
  intro node member
  rw [nodes_eq, children_minus isNode, List.flatMap_singleton] at member
  rcases List.mem_cons.1 member with rfl | inside
  · exact wellMade_of_plain (show operand.minus.kind? = some "UnaryExpression" from rfl) (by decide)
      (show ["operator", "argument", "prefix"].Nodup by decide)
  · exact grammatical node inside

theorem grammatical_numberNode (number : Double) : (bare (numberNode number)).Grammatical := by
  have name : Grammatical (.node 0 "Identifier" [("name", .text "Infinity")]) :=
    grammatical_of_leaf (by decide) rfl
  have literal (code : Fin Double.codes) : Grammatical (.node 0 "Literal"
      [("value", .number (Double.finite false code).toNumeral),
        ("raw", .text (Double.finite false code).spelling)]) :=
    grammatical_of_leaf (wellMade_of_plain rfl (by decide)
      (show ["value", "raw"].Nodup by decide)) rfl
  cases number with
  | nan => exact grammatical_of_leaf (by decide) rfl
  | infinite negative =>
    cases negative with
    | false => exact name
    | true => exact grammatical_minus rfl name
  | finite negative code =>
    cases negative with
    | false => exact literal code
    | true => exact grammatical_minus rfl (literal code)

theorem grammatical_stringNode (text : String) : (bare (stringNode text)).Grammatical :=
  grammatical_of_leaf (wellMade_of_plain rfl (by decide) (show ["value", "raw"].Nodup by decide))
    rfl

end Value

namespace Pass

open Value

theorem Folding.simplifies : Simplifies Folding.exchange? where
  choice := Folding.choice_exchange?
  constant value new chosen := by
    obtain ⟨number, folds, _⟩ := Option.map_eq_some_iff.1 chosen
    exact exists_kind?_of_evaluateWith (Folding.evaluate_of_folded? folds)
  made value new chosen := by
    obtain ⟨number, _, rfl⟩ := Option.map_eq_some_iff.1 chosen
    exact grammatical_numberNode number

theorem Concatenation.simplifies : Simplifies Concatenation.exchange? where
  choice := Concatenation.choice_exchange?
  constant value new chosen := by
    obtain ⟨parts, joins, _⟩ := Option.map_eq_some_iff.1 chosen
    exact ⟨_, by decide, kind?_of_isKind (isBinary_of_concatenation? joins)⟩
  made value new chosen := by
    obtain ⟨parts, _, rfl⟩ := Option.map_eq_some_iff.1 chosen
    exact grammatical_stringNode _

end Pass

end Unravel
