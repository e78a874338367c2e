import Unravel.Proofs.Inlining.Assembly
import Unravel.Proofs.Inlining.Replacement
import Unravel.Proofs.Scope.Resolution

/-!
Contract: where the references of a replacement stem from.

Owns: the places at which a value refers to variables (`Refers`), said without
the search that the judgement of a helper makes. A search without a fault finds
all of them. A reference of the result of a substitution stands in an argument
or, at the same place, in the expression (`Stems`), and what lies between the
result and an argument in it opens no scope.
-/

namespace Unravel.Value

open Pass.Inlining

variable {slot : Slot} {value inner result reference : Value} {name : Name} {address : Address}
  {kind : String}

/-! ## Places of references -/

/-- A child in which a node may refer to variables. -/
structure IsPart (value : Value) (slot : Slot) (inner : Value) : Prop where
  isChild : slot ∈ value.childSlots
  isReference : value.isNameSlot slot = false
  held : value.slot? slot = some inner
  isNode : inner.isNode = true

/-- A value refers to variables where it holds identifiers, but for the names of
members and properties. -/
inductive Refers : Value → Address → Value → Prop where
  | here {value : Value} (is : value.isIdentifier = true) : Refers value [] value
  | inside {value inner reference : Value} {slot : Slot} {rest : Address} (isPart : value.IsPart
      slot inner) (further : Refers inner rest reference) : Refers value (slot :: rest) reference

theorem IsPart.isObject (isPart : value.IsPart slot inner) :
    value.isIdentifier = false ∧ value.isObject := by
  refine ⟨?_, isObject_of_slot? isPart.held⟩
  rw [Bool.eq_false_iff]
  intro is
  have nowhere : value.childFields = [] := childFields_of_kind (kind?_of_isKind is) rfl
  have field := (mem_childSlots.1 isPart.isChild).1
  rw [nowhere] at field
  cases field

/-! ## The search for references -/

/-- The search for references ends without a fault everywhere. -/
def Searchable (value : Value) : Prop :=
  ∀ found ∈ (value.searchEnds false).map Prod.fst, found.searchFault? = none

theorem Searchable.of_mem_parts {part : Value × Bool} (searchable : value.Searchable)
    (isIdentifier : value.isIdentifier = false) (isObject : value.isObject)
    (isPart : part ∈ value.referenceParts) : part.1.Searchable := by
  intro found member
  apply searchable
  rw [searchEnds_eq]
  simp only [isIdentifier, isObject, Bool.not_true, Bool.or_self, Bool.false_eq_true,
    ↓reduceIte, List.map_flatMap]
  refine List.mem_flatMap.2 ⟨part, isPart, ?_⟩
  rw [map_fst_searchEnds]
  exact member

theorem Searchable.ne_list (searchable : value.Searchable) (items : List Value) :
    value ≠ .list items := by
  rintro rfl
  have fault := searchable (.list items) (by rw [searchEnds_eq]; exact List.mem_cons_self)
  cases fault

/-- A slot that may refer to variables is searched, or all children are. -/
theorem mem_referenceParts_of_slot (isChild : slot ∈ value.childSlots)
    (isReference : value.isNameSlot slot = false) :
    (∃ conditional, (value.attr slot.field, conditional) ∈ value.referenceParts) ∨
      value.referenceParts = value.children.map fun child => (child, false) := by
  have field := (mem_childSlots.1 isChild).1
  unfold referenceParts
  unfold isNameSlot at isReference
  split
  · rename_i is
    obtain ⟨isMember, named⟩ := Bool.and_eq_true_iff.1 is
    rw [childFields_of_kind (kind?_of_isKind isMember) rfl] at field
    rw [named, isMember] at isReference
    simp only [List.mem_cons, List.not_mem_nil, or_false] at field
    rcases field with isField | isField
    · exact .inl ⟨false, by simp [isField]⟩
    · simp [isField] at isReference
  · split
    · rename_i is
      obtain ⟨isProperty, named⟩ := Bool.and_eq_true_iff.1 is
      rw [childFields_of_kind (kind?_of_isKind isProperty) rfl] at field
      rw [named, isProperty] at isReference
      simp only [List.mem_cons, List.not_mem_nil, or_false] at field
      rcases field with isField | isField
      · simp [isField] at isReference
      · exact .inl ⟨false, by simp [isField]⟩
    · split
      · rename_i isLogical
        rw [childFields_of_kind (kind?_of_isKind isLogical) rfl] at field
        simp only [List.mem_cons, List.not_mem_nil, or_false] at field
        rcases field with isField | isField <;> rw [isField] <;> simp
      · split
        · rename_i isConditional
          rw [childFields_of_kind (kind?_of_isKind isConditional) rfl] at field
          simp only [List.mem_cons, List.not_mem_nil, or_false] at field
          rcases field with isField | isField | isField <;> rw [isField] <;> simp
        · exact .inr rfl

theorem Searchable.exists_part (searchable : value.Searchable) (isPart : value.IsPart slot inner) :
    ∃ conditional, (inner, conditional) ∈ value.referenceParts := by
  obtain ⟨isIdentifier, isObject⟩ := isPart.isObject
  rcases mem_referenceParts_of_slot isPart.isChild isPart.isReference with ⟨conditional, member⟩ | all
  · refine ⟨conditional, ?_⟩
    rcases attr_of_slot? isPart.held with ⟨_, whole⟩ | ⟨_, items, _, _, isList⟩
    · rwa [attr, whole] at member
    · -- The search would have ended at the list.
      have part := searchable.of_mem_parts isIdentifier isObject member
      refine absurd ?_ (part.ne_list items)
      rw [attr, isList]
      rfl
  · refine ⟨false, ?_⟩
    rw [all]
    exact List.mem_map.2
      ⟨inner, mem_children_of_childSlot isPart.isChild isPart.held isPart.isNode, rfl⟩

theorem Searchable.part (searchable : value.Searchable) (isPart : value.IsPart slot inner) :
    inner.Searchable := by
  obtain ⟨conditional, member⟩ := searchable.exists_part isPart
  exact searchable.of_mem_parts isPart.isObject.1 isPart.isObject.2 member

/-- A search without a fault finds every reference. -/
theorem Refers.mem_referenced (refers : Refers value address reference)
    (searchable : value.Searchable) : reference ∈ value.referenced := by
  induction refers with
  | here is =>
    rw [referenced_of_isIdentifier is]
    exact List.mem_singleton_self _
  | @inside value inner reference slot rest isPart _ ih =>
    obtain ⟨conditional, member⟩ := searchable.exists_part isPart
    obtain ⟨isIdentifier, isObject⟩ := isPart.isObject
    have found := ih (searchable.part isPart)
    rw [referenced_eq_filter inner (false || conditional)] at found
    rw [referenced_eq_filter value false, searchEnds_eq]
    simp only [isIdentifier, isObject, Bool.not_true, Bool.or_self, Bool.false_eq_true,
      ↓reduceIte, List.map_flatMap, List.filter_flatMap]
    exact List.mem_flatMap.2 ⟨_, member, found⟩

theorem get?_of_not_mentions {arguments : Substitution} (unmentioned : value.mentions (Names.keys
    arguments) = false) (member : reference ∈ value.referenced) (named : reference.name? = some
    name) : Names.get? arguments name = none := by
  rw [← Option.not_isSome_iff_eq_none, Names.get?_isSome]
  obtain ⟨place, isPlace, rfl⟩ := List.mem_map.1 member
  have never := List.any_eq_false.1 unmentioned place isPlace
  have identifier : place.1.identifier? = some name := by
    rw [identifier?, isIdentifier_of_mem_referenced member, if_pos rfl, named]
  rwa [isOneOf, identifier] at never

variable {arguments : Substitution}

/-! ## Parts of the result of a substitution -/

theorem Substituted.isNameSlot_result (substituted : Substituted arguments value result)
    (is : value.kind? = some kind) (compound : kind ≠ "Identifier") :
    result.isNameSlot = value.isNameSlot := by
  cases substituted with
  | argument isKnown => exact absurd (eq_of_kinds is isKnown) compound
  | other => rfl
  | kept => rfl
  | operands | namedCall | call | computedMember | member =>
    rw [isNameSlot_setAttr (by decide), isNameSlot_setAttr (by decide)]

/-- The parts of a result, where the substitution looks into the expression,
are results for the same parts of the expression. -/
theorem Substituted.part (substituted : Substituted arguments value result)
    (nodes : arguments.AreNodes) (is : value.kind? = some kind) (isOpen : kind ∈ openKinds)
    (compound : kind ≠ "Identifier") (isPart : result.IsPart slot inner) :
    ∃ original, value.IsPart slot original ∧ Substituted arguments original inner := by
  obtain ⟨become, assembled⟩ := substituted.assembled is isOpen compound
  have isReference := isPart.isReference
  rw [substituted.isNameSlot_result is compound] at isReference
  have sameNames : (value.listed true).isNameSlot = value.isNameSlot := by
    unfold listed
    split
    · exact isNameSlot_setAttr (by decide) _ _
    · rfl
  have isChild := isPart.isChild
  rw [assembled.childSlots_result nodes] at isChild
  have isEntry : slot ∈ (value.listed true).referenceEntries.map Prod.fst := by
    rw [assembled.slots, sameNames]
    exact List.mem_filter.2 ⟨isChild, by rw [isReference]; rfl⟩
  obtain ⟨entry, member, rfl⟩ := List.mem_map.1 isEntry
  have same : become entry.1 = inner :=
    Option.some.inj ((assembled.slot?_result member).symm.trans isPart.held)
  have substituted := assembled.parts entry member
  have sameFields : (value.listed true).childFields = value.childFields := by
    simp only [openKinds, List.mem_cons, List.not_mem_nil, or_false] at isOpen
    rcases isOpen with rfl | rfl | rfl | rfl | rfl <;>
      rw [childFields_of_kind is rfl, childFields_of_kind ((kind?_listed true value).trans is) rfl]
  have held := slot?_of_mem_listed member
  have isSlot := mem_childSlots_of_slot? (sameFields ▸ (mem_childSlots.1 isChild).1) held
    substituted.isNode_source
  exact ⟨_, ⟨isSlot, isReference, held, substituted.isNode_source⟩, same ▸ substituted⟩

/-! ## Origins -/

/-- What a reference of the result of a substitution stems from. -/
inductive Stems (arguments : Substitution) (value result : Value) (address : Address)
    (reference : Value) : Prop where
  /-- It stands in an argument, and nothing on the way there opens a scope. -/
  | argument {name : Name} {argument : Value} {way rest : Address} (split : address = way ++ rest)
      (given : Names.get? arguments name = some argument) (placed : result.at? way = some argument)
      (plain : Lexical.Plain result way) (refers : Refers argument rest reference)
  /-- It stands at the same place in the expression and is no parameter. -/
  | helper (refers : Refers value address reference)
      (free : ∀ name, reference.name? = some name → Names.get? arguments name = none)

theorem createsScope_of_openKind (is : value.kind? = some kind) (isOpen : kind ∈ openKinds) :
    value.createsScope = false := by
  unfold createsScope scopeKind?
  rw [is]
  simp only [openKinds, List.mem_cons, List.not_mem_nil, or_false] at isOpen
  rcases isOpen with rfl | rfl | rfl | rfl | rfl <;> decide

theorem Stems.inside {original : Value} {rest : Address} (isPart : value.IsPart slot original) (held
    : result.slot? slot = some inner) (here : result.createsScope = false) (stems : Stems arguments
    original inner rest reference) : Stems arguments value result (slot :: rest) reference := by
  cases stems with
  | @argument name argument way further split given placed plain refers =>
    have isSplit : slot :: rest = (slot :: way) ++ further := by rw [split]; rfl
    refine .argument isSplit given ?_ (.cons here held plain) refers
    rw [at?, held, Option.bind_some, placed]
  | helper refers free => exact .helper (.inside isPart refers) free

theorem not_refers_literal (is : value.kind? = some "Literal") :
    ¬ Refers value address reference := by
  intro refers
  cases refers with
  | here isIdentifier => exact absurd (eq_of_kinds is (kind?_of_isKind isIdentifier)) (by decide)
  | inside isPart =>
    have field := (mem_childSlots.1 isPart.isChild).1
    rw [childFields_of_kind is rfl] at field
    cases field

section Stems

variable (nodes : arguments.AreNodes) (searchable : value.Searchable)
  (substituted : Substituted arguments value result)

include nodes substituted

theorem stems_of_identifier (is : value.kind? = some "Identifier")
    (refers : Refers result address reference) : Stems arguments value result address reference := by
  rcases substituted.of_identifier is with ⟨_, _, given, _⟩ | ⟨rfl, free⟩
  · refine .argument (List.nil_append address).symm given rfl ?_ refers
    intro front back isSplit notAll
    exact absurd (List.append_eq_nil_iff.1 isSplit.symm).2 notAll
  · refine .helper refers fun name named => ?_
    cases refers with
    | inside isPart =>
      have isIdentifier : result.isIdentifier := beq_iff_eq.2 is
      rw [isPart.isObject.1] at isIdentifier
      cases isIdentifier
    | here =>
      cases given : Names.get? arguments name with
      | none => rfl
      | some argument =>
        obtain ⟨_, member⟩ := Names.mem_of_get? given
        have isNode := nodes _ member
        rw [free name argument named given] at isNode
        cases isNode

include searchable

theorem stems_of_leaf (is : value.kind? = some kind)
    (leaf : ¬ (kind ∈ openKinds ∧ kind ≠ "Identifier"))
    (refers : Refers result address reference) : Stems arguments value result address reference := by
  by_cases isIdentifier : kind = "Identifier"
  · exact stems_of_identifier nodes substituted (isIdentifier ▸ is) refers
  · have closed : kind ∉ openKinds := fun isOpen => leaf ⟨isOpen, isIdentifier⟩
    obtain ⟨rfl, isLiteral | unmentioned⟩ := substituted.eq_of_not_open is closed
    · exact absurd refers (not_refers_literal (isLiteral ▸ is))
    · exact .helper refers fun name named =>
        get?_of_not_mentions unmentioned (refers.mem_referenced searchable) named

end Stems

/-- Every reference of a result stems from an argument or from the expression. -/
theorem stems_of_refers (nodes : arguments.AreNodes) (searchable : value.Searchable)
    (substituted : Substituted arguments value result) (refers : Refers result address reference) :
    Stems arguments value result address reference := by
  induction refers generalizing value with
  | @here result is =>
    obtain ⟨kind, isKind⟩ := isNode_iff_kind?.1 substituted.isNode_source
    refine stems_of_leaf nodes searchable substituted isKind ?_ (.here is)
    rintro ⟨_, compound⟩
    have same := substituted.kind?_result fun isName => compound (eq_of_kinds isKind isName)
    rw [kind?_of_isKind is, isKind] at same
    exact compound (Option.some.inj same.symm)
  | @inside result inner reference slot rest isPart further ih =>
    obtain ⟨kind, isKind⟩ := isNode_iff_kind?.1 substituted.isNode_source
    by_cases looked : kind ∈ openKinds ∧ kind ≠ "Identifier"
    · obtain ⟨original, isOriginal, inPart⟩ :=
        substituted.part nodes isKind looked.1 looked.2 isPart
      have same := substituted.kind?_result fun isName => looked.2 (eq_of_kinds isKind isName)
      have plain := createsScope_of_openKind (same.trans isKind) looked.1
      exact (ih (searchable.part isOriginal) inPart).inside isOriginal isPart.held plain
    · exact stems_of_leaf nodes searchable substituted isKind looked (.inside isPart further)

/-! ## Copies -/

theorem isNameSlot_unlabelled (value : Value) (slot : Slot) :
    value.unlabelled.isNameSlot slot = value.isNameSlot slot := by
  simp only [isNameSlot, isKind, kind?_unlabelled, attr_unlabelled, truthy_unlabelled]

theorem Twins.isPart {value other inner : Value} {slot : Slot} (twins : value.Twins other)
    (isPart : value.IsPart slot inner) : ∃ twin, other.IsPart slot twin ∧ inner.Twins twin := by
  obtain ⟨twin, held, areTwins⟩ := twins.exists_slot? isPart.held
  refine ⟨twin, ⟨?_, ?_, held, ?_⟩, areTwins⟩
  · rw [← childSlots_unlabelled, ← twins, childSlots_unlabelled]
    exact isPart.isChild
  · rw [← isNameSlot_unlabelled, ← twins, isNameSlot_unlabelled]
    exact isPart.isReference
  · rw [areTwins.isNode]
    exact isPart.isNode

theorem Twins.refers {value other reference : Value} {address : Address}
    (twins : value.Twins other) (refers : Refers value address reference) :
    ∃ twin, Refers other address twin ∧ reference.Twins twin := by
  induction refers generalizing other with
  | @here value is =>
    have isIdentifier : other.isIdentifier := by
      rw [Value.isIdentifier, isKind, twins.kind?]
      exact is
    exact ⟨other, .here isIdentifier, twins⟩
  | inside isPart _ ih =>
    obtain ⟨part, isPartToo, areParts⟩ := twins.isPart isPart
    obtain ⟨twin, refersToo, areTwins⟩ := ih areParts
    exact ⟨twin, .inside isPartToo refersToo, areTwins⟩

end Unravel.Value
