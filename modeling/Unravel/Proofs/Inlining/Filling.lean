import Unravel.Proofs.Inlining.Refusal

/-!
Contract: a substitution puts the arguments in all places at once.

`fill` replaces every identifier in reference position that has an argument, in
nodes of all kinds, and looks into no argument. Where `substitute` has a result,
it is that one (`Substituted.eq_fill`).
-/

namespace Unravel.Value

variable {arguments : Substitution} {value result : Value} {kind : String}
  {entry : Slot × Value × Bool}

theorem references_eq (other : value.isIdentifier = false) (conditional : Bool) :
    value.references conditional = value.referenceEntries.flatMap fun entry =>
      entry.2.1.references (conditional || entry.2.2) := by
  rw [flatMap_referenceEntries (fun inner further => inner.references (conditional || further))
    (fun _ => by rw [references, searchEnds_eq]; rfl)]
  unfold references
  rw [searchEnds_eq, other]
  cases isObject : value.isObject with
  | true => simp only [Bool.not_true, Bool.or_self, Bool.false_eq_true, ↓reduceIte, List.filter_flatMap]
  | false =>
    have noParts : value.referenceParts = [] := by
      cases value <;> first | rfl | cases isObject
    simp [other, noParts]

theorem referenceEntries_of_identifier (is : value.isIdentifier) : value.referenceEntries = [] := by
  have nowhere : value.childFields = [] := childFields_of_kind (kind?_of_isKind is) rfl
  simp [referenceEntries, isKind, kind?_of_isKind is, childEntries, childSlots, nowhere]

theorem mem_referenced_of_entry {reference : Value} (member : entry ∈ value.referenceEntries)
    (inside : reference ∈ entry.2.1.referenced) : reference ∈ value.referenced := by
  cases other : value.isIdentifier with
  | true =>
    rw [referenceEntries_of_identifier other] at member
    cases member
  | false =>
    rw [referenced, references_eq other, List.map_flatMap]
    refine List.mem_flatMap.2 ⟨entry, member, ?_⟩
    rw [referenced_eq_filter _ (false || entry.2.2), List.filter_map] at inside
    exact inside

/-! ## All places at once -/

/-- Replaces every identifier in reference position that has an argument. A call
that a substitution looks at lists its arguments. -/
def fill (arguments : Substitution) (looked : Bool) (value : Value) : Value :=
  match value.identifier? with
  | some name => (Names.get? arguments name).getD value
  | none =>
    (value.listed looked).putSlots ((value.listed looked).referenceEntries.attach.map fun entry =>
      (entry.val.1, fill arguments (looked && value.kind?.any openKinds.contains) entry.val.2.1))
termination_by sizeOf value
decreasing_by exact sizeOf_lt_of_slot? (slot?_of_mem_listed entry.property)

theorem fill_eq (looked : Bool) (unnamed : value.identifier? = none) : value.fill arguments looked =
    (value.listed looked).putSlots ((value.listed looked).referenceEntries.map fun entry =>
        (entry.1, fill arguments (looked && value.kind?.any openKinds.contains) entry.2.1)) := by
  rw [fill, unnamed]
  rw [List.map_subtype (g := fun entry => (entry.1, fill arguments
    (looked && value.kind?.any openKinds.contains) entry.2.1)) fun _ _ => rfl, List.unattach_attach]

theorem identifier?_eq_some {name : Name} (named : value.identifier? = some name) :
    value.isIdentifier ∧ value.name? = some name := by
  unfold identifier? at named
  split at named
  · exact ⟨by assumption, named⟩
  · cases named

theorem fill_of_free {value : Value} (free : ∀ reference ∈ value.referenced, ∀ name, reference.name?
      = some name → Names.get? arguments name = none) : value.fill arguments false = value := by
  cases named : value.identifier? with
  | some name =>
    obtain ⟨isIdentifier, isNamed⟩ := identifier?_eq_some named
    have nothing := free value (by simp [referenced_of_isIdentifier isIdentifier]) name isNamed
    simp [fill, named, nothing]
  | none =>
    rw [fill_eq false named]
    apply putSlots_self
    intro entry member
    obtain ⟨part, isPart, rfl⟩ := List.mem_map.1 member
    have held := slot?_of_mem_referenceEntries isPart
    have same : part.2.1.fill arguments false = part.2.1 := fill_of_free fun reference among =>
      free reference (mem_referenced_of_entry isPart among)
    simpa [same] using held
termination_by sizeOf value
decreasing_by exact sizeOf_lt_of_slot? (slot?_of_mem_listed isPart)

/-- What is not looked into has no reference with an argument. -/
theorem Substituted.free_of_not_open (substituted : Substituted arguments value result) (is :
    value.kind? = some kind) (closed : kind ∉ openKinds) : ∀ reference ∈ value.referenced, ∀ name,
    reference.name? = some name → Names.get? arguments name = none := by
  rcases (substituted.eq_of_not_open is closed).2 with rfl | unmentioned
  · have noParts : value.referenceParts = [] := by
      simp [referenceParts, isKind, is, children_of_kind is rfl]
    rw [referenced_of_parts is (by decide), noParts]
    simp
  · exact fun reference member name => get?_of_not_mentions unmentioned member

theorem Substituted.eq_fill_of_identifier (nodes : arguments.AreNodes)
    (substituted : Substituted arguments value result) (is : value.kind? = some "Identifier") :
    result = value.fill arguments true := by
  have isIdentifier : value.isIdentifier := beq_iff_eq.2 is
  cases named : value.name? with
  | none =>
    have unnamed : value.identifier? = none := by rw [identifier?, if_pos isIdentifier, named]
    obtain ⟨same, stays⟩ := substituted.unnamed_result unnamed
    rw [stays (same.trans isIdentifier), fill_eq true unnamed,
      listed_of_not_call true is (by decide), referenceEntries_of_identifier isIdentifier]
    rfl
  | some name =>
    have identifier : value.identifier? = some name := by
      rw [identifier?, if_pos isIdentifier, named]
    rw [fill, identifier]
    rcases substituted.eq_of_identifier is named with ⟨given, _⟩ | ⟨stays, free⟩
    · simp [given]
    · cases given : Names.get? arguments name with
      | none => simpa [given] using stays
      | some argument =>
        obtain ⟨_, member⟩ := Names.mem_of_get? given
        have isNode := nodes _ member
        rw [free argument given] at isNode
        cases isNode

/-- A result is the expression with all arguments put in place at once. -/
theorem Substituted.eq_fill {value result : Value} (nodes : arguments.AreNodes)
    (substituted : Substituted arguments value result) : result = value.fill arguments true := by
  obtain ⟨kind, is⟩ := isNode_iff_kind?.1 substituted.isNode_source
  by_cases isIdentifier : kind = "Identifier"
  · exact substituted.eq_fill_of_identifier nodes (isIdentifier ▸ is)
  have unnamed : value.identifier? = none := by
    simp [identifier?, Value.isIdentifier, isKind, is, isIdentifier]
  by_cases isOpen : kind ∈ openKinds
  · obtain ⟨become, assembled⟩ := substituted.assembled is isOpen isIdentifier
    have each : ∀ entry ∈ (value.listed true).referenceEntries,
        become entry.1 = entry.2.1.fill arguments true := fun entry member =>
      (assembled.parts entry member).eq_fill nodes
    rw [assembled.eq, fill_eq true unnamed]
    congr 1
    apply List.map_congr_left
    intro entry member
    simp [each entry member, is, isOpen]
  · obtain ⟨rfl, _⟩ := substituted.eq_of_not_open is isOpen
    have notCall : kind ≠ "CallExpression" := by
      rintro rfl
      exact isOpen (by decide)
    have asBelow : result.fill arguments true = result.fill arguments false := by
      rw [fill_eq true unnamed, fill_eq false unnamed, listed_of_not_call true is notCall,
        listed_of_not_call false is notCall]
      simp [is, isOpen]
    rw [asBelow, fill_of_free (substituted.free_of_not_open is isOpen)]
termination_by sizeOf value
decreasing_by exact sizeOf_lt_of_slot? (slot?_of_mem_listed member)

end Unravel.Value
