import Unravel.Proofs.Inlining.Remaking

/-!
Contract: what a substitution turns an expression into.

`Substituted` lists, shape by shape, the results that `substitute` builds, so
that facts about results are proved by cases on the shape and not by unfolding
the substitution (`exists_substituted`). `referenced` are the identifiers in reference position, in
document order and without the marks that tell conditional ones.
-/

namespace Unravel.Value

variable {kind : String}

/-! ## References -/

theorem searchEnds_eq (value : Value) (conditional : Bool) : value.searchEnds conditional =
      if value.isIdentifier || !value.isObject then [(value, conditional)]
      else value.referenceParts.flatMap fun part => searchEnds part.1 (conditional || part.2) := by
  rw [searchEnds]
  split
  · rfl
  · rw [List.flatMap_subtype (g := fun part => searchEnds part.1 (conditional || part.2))
      fun _ _ => rfl, List.unattach_attach]

/-- The identifiers in reference position, in document order. -/
def referenced (value : Value) : List Value :=
  (value.references false).map Prod.fst

theorem map_fst_searchEnds (value : Value) (conditional : Bool) :
    (value.searchEnds conditional).map Prod.fst = (value.searchEnds false).map Prod.fst := by
  rw [searchEnds_eq, searchEnds_eq value false]
  split
  · rfl
  · rw [List.map_flatMap, List.map_flatMap, List.flatMap_def]
    congr 1
    apply List.map_congr_left
    intro part member
    rw [map_fst_searchEnds part.1 (conditional || part.2), map_fst_searchEnds part.1 (false || part.2)]
termination_by sizeOf value
decreasing_by all_goals exact sizeOf_lt_of_mem_referenceParts member

theorem referenced_eq_filter (value : Value) (conditional : Bool) :
    value.referenced = ((value.searchEnds conditional).map Prod.fst).filter isIdentifier := by
  rw [map_fst_searchEnds]
  rw [List.filter_map]
  rfl

variable {value : Value}

theorem referenced_of_isIdentifier (is : value.isIdentifier) : value.referenced = [value] := by
  rw [referenced_eq_filter value false, searchEnds_eq]
  simp [is]

theorem referenced_of_parts (is : value.kind? = some kind) (other : kind ≠ "Identifier") :
    value.referenced = value.referenceParts.flatMap fun part => part.1.referenced := by
  have notIdentifier : value.isIdentifier = false := by simp [isIdentifier, isKind, is, other]
  rw [referenced_eq_filter value false, searchEnds_eq]
  simp only [notIdentifier, isObject_of_kind? is, Bool.not_true, Bool.or_self, Bool.false_eq_true,
    ↓reduceIte, List.map_flatMap, List.filter_flatMap]
  rw [List.flatMap_def]
  congr 1
  apply List.map_congr_left
  intro part _
  exact (referenced_eq_filter part.1 _).symm

theorem referenceParts_of_children (is : value.kind? = some kind) (member : kind =
    "MemberExpression" → (value.attr "computed").truthy) (property : kind ≠ "Property") (logical :
    kind ≠ "LogicalExpression") (conditional : kind ≠ "ConditionalExpression") :
    value.referenceParts = value.children.map fun child => (child, false) := by
  have kinds (other : String) : value.isKind other = (kind == other) := by
    unfold isKind
    rw [is]
    rfl
  unfold referenceParts
  simp only [kinds]
  by_cases isMember : kind = "MemberExpression"
  · simp [isMember, member isMember]
  · simp [isMember, property, logical, conditional]

theorem isIdentifier_of_mem_referenced {reference : Value} (member : reference ∈ value.referenced) :
    reference.isIdentifier := by
  rw [referenced_eq_filter value false] at member
  exact (List.mem_filter.1 member).2

/-! ## Results of a substitution -/

/-- Kinds that a substitution looks into. -/
def openKinds : List String :=
  ["Identifier", "BinaryExpression", "LogicalExpression", "CallExpression", "MemberExpression"]

/-- The results that a substitution can have, by the shape of the expression. -/
inductive Substituted (arguments : Substitution) : Value → Value → Prop where
  | argument {value argument : Value} {name : Name} (is : value.kind? = some "Identifier")
      (named : value.name? = some name) (given : Names.get? arguments name = some argument)
      (present : argument ≠ .null) :
      Substituted arguments value argument
  | other {value : Value} (is : value.kind? = some "Identifier")
      (free : ∀ name argument, value.name? = some name →
        Names.get? arguments name = some argument → argument = .null) :
      Substituted arguments value value
  | operands {value left right : Value}
      (is : value.kind? = some "BinaryExpression" ∨ value.kind? = some "LogicalExpression")
      (inLeft : Substituted arguments (value.attr "left") left)
      (inRight : Substituted arguments (value.attr "right") right) :
      Substituted arguments value ((value.setAttr "left" left).setAttr "right" right)
  | namedCall {value : Value} {name : Name} {replaced : List Value}
      (is : value.kind? = some "CallExpression")
      (calls : (value.attr "callee").identifier? = some name)
      (free : Names.get? arguments name = none)
      (length : replaced.length = (value.attr "arguments").items.length)
      (inArguments : ∀ pair ∈ (value.attr "arguments").items.zip replaced,
        Substituted arguments pair.1 pair.2) :
      Substituted arguments value ((value.setAttr "callee" (value.attr "callee")).setAttr
        "arguments" (.list replaced))
  | call {value callee : Value} {replaced : List Value}
      (is : value.kind? = some "CallExpression")
      (unnamed : (value.attr "callee").identifier? = none)
      (inCallee : Substituted arguments (value.attr "callee") callee)
      (length : replaced.length = (value.attr "arguments").items.length)
      (inArguments : ∀ pair ∈ (value.attr "arguments").items.zip replaced,
        Substituted arguments pair.1 pair.2) :
      Substituted arguments value ((value.setAttr "callee" callee).setAttr "arguments"
        (.list replaced))
  | computedMember {value object property : Value} (is : value.kind? = some "MemberExpression")
      (computed : (value.attr "computed").truthy = true)
      (inObject : Substituted arguments (value.attr "object") object)
      (inProperty : Substituted arguments (value.attr "property") property) :
      Substituted arguments value ((value.setAttr "object" object).setAttr "property" property)
  | member {value object : Value} (is : value.kind? = some "MemberExpression")
      (named : (value.attr "computed").truthy = false) (present : value.attr "property" ≠ .null)
      (inObject : Substituted arguments (value.attr "object") object) :
      Substituted arguments value ((value.setAttr "object" object).setAttr "property"
        (value.attr "property"))
  | kept {value : Value} {kind : String} (is : value.kind? = some kind) (other : kind ∉ openKinds)
      (unmentioned : kind = "Literal" ∨ value.mentions (Names.keys arguments) = false) :
      Substituted arguments value value

theorem kept_of_not_open {arguments : Substitution} (is : value.kind? = some kind) (other : kind ∉
    openKinds) (unmentioned : ¬ value.mentions (Names.keys arguments)) : Substituted arguments value
    value :=
  .kept is other (.inr (Bool.eq_false_iff.2 unmentioned))

section Shapes

variable {arguments : Substitution} {value result : Value}

theorem eq_of_kinds {first second : String} (one : value.kind? = some first)
    (other : value.kind? = some second) : first = second :=
  Option.some.inj (one.symm.trans other)

section Kinds

variable (substituted : Substituted arguments value result)

include substituted

/-- Kinds that a substitution does not look into stay as they are. -/
theorem Substituted.eq_of_not_open (is : value.kind? = some kind) (closed : kind ∉ openKinds) :
    result = value ∧ (kind = "Literal" ∨ value.mentions (Names.keys arguments) = false) := by
  cases substituted with
  | kept isKept _ unmentioned => exact ⟨rfl, eq_of_kinds isKept is ▸ unmentioned⟩
  | operands isKnown => rcases isKnown with isKnown | isKnown <;> simp_all [openKinds]
  | _ => simp_all [openKinds]

/-- An identifier becomes the argument for its name, or stays. -/
theorem Substituted.of_identifier (is : value.kind? = some "Identifier") :
    (∃ name, value.name? = some name ∧ Names.get? arguments name = some result ∧ result ≠ .null) ∨
    result = value ∧ ∀ name argument, value.name? = some name →
      Names.get? arguments name = some argument → argument = .null := by
  cases substituted with
  | argument _ named given present => exact .inl ⟨_, named, given, present⟩
  | other _ free => exact .inr ⟨rfl, free⟩
  | operands isKnown => rcases isKnown with isKnown | isKnown <;> simp_all
  | _ => simp_all [openKinds]

theorem Substituted.eq_of_identifier {name : Name} (is : value.kind? = some "Identifier")
    (named : value.name? = some name) :
    (Names.get? arguments name = some result ∧ result ≠ .null) ∨
      result = value ∧ ∀ argument, Names.get? arguments name = some argument → argument = .null := by
  rcases substituted.of_identifier is with ⟨other, isNamed, given⟩ | ⟨stays, free⟩
  · cases named.symm.trans isNamed
    exact .inl given
  · exact .inr ⟨stays, fun argument => free name argument named⟩

theorem Substituted.of_binary (is : value.kind? = some "BinaryExpression") :
    ∃ left right, result = (value.setAttr "left" left).setAttr "right" right ∧
      Substituted arguments (value.attr "left") left ∧
      Substituted arguments (value.attr "right") right := by
  cases substituted with
  | operands _ inLeft inRight => exact ⟨_, _, rfl, inLeft, inRight⟩
  | _ => simp_all [openKinds]

end Kinds

end Shapes

/-- What is built for an attribute shares objects with the whole at most. -/
theorem Remakes.of_attr {name : String} {build : Fresh Value}
    (remakes : Remakes (value.attr name) result build) : Remakes value result build :=
  remakes.mono fun _ => mem_objects_of_attr

mutual

/-- What a substitution builds is remade, and like a result that it can have. -/
theorem exists_substituted {arguments : Substitution} (value : Value) {build : Fresh Value}
    (found : value.substitute arguments = some build) :
    ∃ result, Substituted arguments value result ∧ Remakes value result build := by
  rw [substitute] at found
  split at found
  · cases found
  · rename_i kind is
    split at found
    · rename_i isIdentifier
      subst isIdentifier
      split at found
      · rename_i missing
        cases found
        refine ⟨value, .other is fun name argument named given => ?_, remakes_copy _ _⟩
        simp [named, given] at missing
      · rename_i null
        cases found
        refine ⟨value, .other is fun name argument named given => ?_, remakes_copy _ _⟩
        simpa [named, given] using null
      · rename_i argument present given
        cases found
        obtain ⟨name, named, given⟩ := Option.bind_eq_some_iff.1 given
        exact ⟨argument, .argument is named given present, remakes_copy _ _⟩
    · rename_i notIdentifier
      split at found
      · rename_i isLiteral
        cases found
        exact ⟨value, .kept is (by simp [openKinds, isLiteral]) (.inl isLiteral), remakes_copy _ _⟩
      · split at found
        · rename_i isOperation
          split at found
          · rename_i left right inLeft inRight
            cases found
            obtain ⟨_, isLeft, remakesLeft⟩ := exists_substituted _ inLeft
            obtain ⟨_, isRight, remakesRight⟩ := exists_substituted _ inRight
            have operation : kind = "BinaryExpression" ∨ kind = "LogicalExpression" := by
              simpa using isOperation
            refine ⟨_, .operands (by simpa [is] using operation) isLeft isRight, ?_⟩
            rcases operation with rfl | rfl
            · exact .rebuild rfl (by decide) is remakesLeft.of_attr remakesRight.of_attr
            · exact .rebuild rfl (by decide) is remakesLeft.of_attr remakesRight.of_attr
          · cases found
        · rename_i notOperation
          split at found
          · rename_i isCall
            subst isCall
            by_cases filled : (value.attr "arguments").isFilledText
            · simp [filled] at found
            · simp only [filled, Bool.false_eq_true, ↓reduceIte] at found
              cases inArguments : substituteAll arguments (value.attr "arguments").items with
              | none => simp [inArguments] at found
              | some replaced =>
                obtain ⟨results, length, each, remakesArguments⟩ :=
                  exists_substitutedAll _ inArguments
                have remakesAll := remakesArguments.mono fun object member => by
                  obtain ⟨item, isItem, inside⟩ := List.mem_flatMap.1 (objects_list _ ▸ member)
                  exact mem_objects_of_attr (mem_objects_of_item isItem inside)
                cases calls : (value.attr "callee").identifier? with
                | some name =>
                  cases free : Names.get? arguments name with
                  | some argument => simp [calls, free] at found
                  | none =>
                    simp only [calls, free, inArguments, Option.isSome_none,
                      Bool.false_eq_true, ↓reduceIte, Option.some.injEq] at found
                    subst found
                    exact ⟨_, .namedCall is calls free length each,
                      .rebuild rfl (by decide) is (remakes_copy _ _) remakesAll⟩
                | none =>
                  cases inCallee : substitute arguments (value.attr "callee") with
                  | none => simp [calls, inCallee] at found
                  | some callee =>
                    simp only [calls, inCallee, inArguments, Option.some.injEq] at found
                    subst found
                    obtain ⟨_, isCallee, remakesCallee⟩ := exists_substituted _ inCallee
                    exact ⟨_, .call is calls isCallee length each,
                      .rebuild rfl (by decide) is remakesCallee.of_attr remakesAll⟩
          · rename_i notCall
            split at found
            · rename_i isMember
              subst isMember
              cases inObject : substitute arguments (value.attr "object") with
              | none => simp [inObject] at found
              | some object =>
                obtain ⟨_, isObject, remakesObject⟩ := exists_substituted _ inObject
                by_cases computed : (value.attr "computed").truthy
                · cases inProperty : substitute arguments (value.attr "property") with
                  | none => simp [computed, inProperty] at found
                  | some property =>
                    simp only [computed, inObject, inProperty, ↓reduceIte,
                      Option.some.injEq] at found
                    subst found
                    obtain ⟨_, isProperty, remakesProperty⟩ := exists_substituted _ inProperty
                    exact ⟨_, .computedMember is computed isObject isProperty,
                      .rebuild rfl (by decide) is remakesObject.of_attr remakesProperty.of_attr⟩
                · by_cases missing : (value.attr "property").isNull
                  · simp [computed, missing] at found
                  · simp only [computed, missing, inObject, Bool.false_eq_true, ↓reduceIte,
                      Option.some.injEq] at found
                    subst found
                    exact ⟨_, .member is (Bool.eq_false_iff.2 computed)
                      (fun null => missing (by rw [null]; rfl)) isObject,
                      .rebuild rfl (by decide) is remakesObject.of_attr (remakes_copy _ _)⟩
            · rename_i notMember
              split at found
              · cases found
              · rename_i unmentioned
                cases found
                refine ⟨value, kept_of_not_open is ?_ unmentioned, remakes_copy _ _⟩
                simp only [Bool.or_eq_true, decide_eq_true_eq, not_or] at notOperation
                simp [openKinds, notIdentifier, notOperation, notCall, notMember]
termination_by sizeOf value
decreasing_by
  all_goals first
    | exact sizeOf_attr_lt_of_kind? _ ‹_›
    | exact sizeOf_items_lt _ ‹_›

theorem exists_substitutedAll {arguments : Substitution} (values : List Value)
    {build : Fresh (List Value)} (found : substituteAll arguments values = some build) :
    ∃ results, results.length = values.length ∧
      (∀ pair ∈ values.zip results, Substituted arguments pair.1 pair.2) ∧
      Remakes (.list values) (.list results) (.list <$> build) := by
  cases values with
  | nil =>
    rw [substituteAll] at found
    cases found
    exact ⟨[], rfl, by simp, remakes_nil _⟩
  | cons value rest =>
    rw [substituteAll] at found
    split at found
    · rename_i replaced others first later
      cases found
      obtain ⟨result, isResult, remakes⟩ := exists_substituted value first
      obtain ⟨results, length, each, remakesRest⟩ := exists_substitutedAll rest later
      refine ⟨result :: results, by simp [length], fun pair member => ?_, .cons ?_ ?_⟩
      · rcases List.mem_cons.1 member with rfl | inRest
        · exact isResult
        · exact each pair inRest
      · exact remakes.mono fun _ => mem_objects_of_item List.mem_cons_self
      · refine remakesRest.mono fun object member => ?_
        exact List.mem_append_right _ member
    · cases found
termination_by sizeOf values

end

end Unravel.Value
