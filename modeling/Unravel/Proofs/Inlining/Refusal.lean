import Unravel.Proofs.Inlining.Origins

/-!
Contract: which expressions admit no substitution.

A substitution looks from an expression into its operands, the parts of a call
and the parts of a member, and on from there (`LooksAt`). An expression admits
none exactly when it looks at one that is refused for what it is itself
(`Refuses`).
-/

namespace Unravel.Value

/-- What a substitution looks into: both operands, the callee of a call unless
that is an identifier, and its arguments, the object of a member and a computed
property. -/
def operands (value : Value) : List Value :=
  match value.kind? with
  | some "BinaryExpression" | some "LogicalExpression" => [value.attr "left", value.attr "right"]
  | some "CallExpression" =>
    (if (value.attr "callee").isIdentifier then [] else [value.attr "callee"]) ++
      (value.attr "arguments").elements
  | some "MemberExpression" =>
    value.attr "object" :: (if (value.attr "computed").truthy then [value.attr "property"] else [])
  | _ => []

/-- What a substitution looks at from an expression on. -/
inductive LooksAt : Value → Value → Prop where
  | self (value : Value) : LooksAt value value
  | operand {value part inner : Value} (isOperand : part ∈ value.operands)
      (further : LooksAt part inner) : LooksAt value inner

/-- Expressions that admit no substitution by themselves: what is no node, a
member without a name, a call of a parameter, and any expression that is not
looked into and mentions a parameter. -/
def Refuses (arguments : Substitution) (value : Value) : Prop :=
  match value.kind? with
  | none => True
  | some "MemberExpression" =>
    (value.attr "computed").truthy = false ∧ (value.attr "property").isNull = true
  | some "CallExpression" => (value.attr "callee").isOneOf (Names.keys arguments) = true
  | some kind =>
    kind ∉ "Literal" :: openKinds ∧ value.mentions (Names.keys arguments) = true

section

variable {arguments : Substitution} {value : Value}

theorem substituted_items_eq_none_iff (held : Value) :
    (if held.isFilledText then none else substituteAll arguments held.items) = none ↔
      ∃ item ∈ held.elements, item.substitute arguments = none := by
  have all (values : List Value) : substituteAll arguments values = none ↔
      ∃ item ∈ values, item.substitute arguments = none := by
    induction values with
    | nil => simp [substituteAll]
    | cons value rest ih =>
      rw [substituteAll, List.exists_mem_cons_iff, ← ih]
      cases value.substitute arguments <;> cases substituteAll arguments rest <;> simp
  have text (text : String) : (Value.text text).substitute arguments = none := by
    rw [substitute]
    rfl
  cases held with
  | list items =>
    exact all items
  | text held =>
    by_cases empty : held = ""
    · simp [empty, isFilledText, elements, Text.singletons, items, substituteAll]
    · have filled : held.toList ≠ [] := fun nothing => empty (String.toList_eq_nil_iff.1 nothing)
      obtain ⟨char, rest, is⟩ := List.exists_cons_of_ne_nil filled
      simp [isFilledText, empty, elements, Text.singletons, is, text]
  | _ => simp [isFilledText, items, elements, substituteAll]

theorem substituted_callee_eq_none_iff (callee : Value) :
    (match callee.identifier? with
      | some name => if (Names.get? arguments name).isSome then none else some callee.copy
      | none => callee.substitute arguments) = none ↔
      callee.isOneOf (Names.keys arguments) ∨
        callee.isIdentifier = false ∧ callee.substitute arguments = none := by
  unfold isOneOf identifier?
  cases isIdentifier : callee.isIdentifier with
  | false => simp
  | true =>
    cases named : callee.name? with
    | some name => simp [Names.get?_isSome]
    | none =>
      -- An identifier without a name stays as it is.
      have stays : callee.substitute arguments = some callee.copy := by
        rw [substitute]
        split <;> simp_all [Value.isIdentifier, isKind]
      simp [stays]

/-- An expression admits no substitution if it is refused itself or has an
operand that admits none. -/
theorem substitute_eq_none_iff : value.substitute arguments = none ↔
      Refuses arguments value ∨ ∃ part ∈ value.operands, part.substitute arguments = none := by
  rw [substitute]
  split
  · rename_i isNone
    simp [Refuses, isNone]
  · rename_i kind is
    unfold Refuses operands
    rw [is]
    by_cases isIdentifier : kind = "Identifier"
    · subst isIdentifier
      simp [openKinds]
      split <;> simp
    by_cases isLiteral : kind = "Literal"
    · simp [isLiteral]
    by_cases isBinary : kind = "BinaryExpression"
    · subst isBinary
      cases left : (value.attr "left").substitute arguments <;> cases right : (value.attr
        "right").substitute arguments <;> simp [openKinds, left, right]
    by_cases isLogical : kind = "LogicalExpression"
    · subst isLogical
      cases left : (value.attr "left").substitute arguments <;> cases right : (value.attr
        "right").substitute arguments <;> simp [openKinds, left, right]
    by_cases isCall : kind = "CallExpression"
    · subst isCall
      have parts : (∃ part ∈ (if (value.attr "callee").isIdentifier then []
            else [value.attr "callee"]) ++ (value.attr "arguments").elements,
            part.substitute arguments = none) ↔
          ((value.attr "callee").isIdentifier = false ∧
            (value.attr "callee").substitute arguments = none) ∨
              ∃ item ∈ (value.attr "arguments").elements, item.substitute arguments = none := by
        cases (value.attr "callee").isIdentifier <;> simp
      simp only [parts]
      rw [← or_assoc, ← substituted_callee_eq_none_iff, ← substituted_items_eq_none_iff]
      cases (value.attr "callee").identifier? with
      | none =>
        cases (value.attr "callee").substitute arguments <;>
          cases (if (value.attr "arguments").isFilledText then none
            else substituteAll arguments (value.attr "arguments").items) <;> simp
      | some name =>
        cases given : Names.get? arguments name <;>
          cases (if (value.attr "arguments").isFilledText then none
            else substituteAll arguments (value.attr "arguments").items) <;> simp [given]
    by_cases isMember : kind = "MemberExpression"
    · subst isMember
      cases object : (value.attr "object").substitute arguments <;> cases property : (value.attr
        "property").substitute arguments <;> cases (value.attr "computed").truthy <;> cases
        (value.attr "property").isNull <;> simp [object, property]
    · simp [openKinds, isIdentifier, isLiteral, isBinary, isLogical, isCall, isMember]

end

/-! ## Expressions looked at -/

/-- The characters of a text are no nodes. -/
theorem mem_items_of_mem_elements {held item : Value} (member : item ∈ held.elements)
    (isNode : item.isNode) : item ∈ held.items := by
  cases held with
  | list items => exact member
  | text text =>
    obtain ⟨_, _, rfl⟩ := List.mem_map.1 member
    cases isNode
  | _ => cases member

theorem sizeOf_lt_of_mem_operands {value part : Value} (member : part ∈ value.operands)
    (isNode : part.isNode) : sizeOf part < sizeOf value := by
  unfold operands at member
  split at member
  · rename_i is
    simp only [List.mem_cons, List.not_mem_nil, or_false] at member
    rcases member with rfl | rfl <;> exact sizeOf_attr_lt_of_kind? _ is
  · rename_i is
    simp only [List.mem_cons, List.not_mem_nil, or_false] at member
    rcases member with rfl | rfl <;> exact sizeOf_attr_lt_of_kind? _ is
  · rename_i is
    rcases List.mem_append.1 member with inCallee | inArguments
    · split at inCallee
      · cases inCallee
      · rw [List.mem_singleton.1 inCallee]
        exact sizeOf_attr_lt_of_kind? _ is
    · exact sizeOf_item_lt (mem_items_of_mem_elements inArguments isNode)
  · rename_i is
    rcases List.mem_cons.1 member with rfl | inProperty
    · exact sizeOf_attr_lt_of_kind? _ is
    · split at inProperty
      · rw [List.mem_singleton.1 inProperty]
        exact sizeOf_attr_lt_of_kind? _ is
      · cases inProperty
  · cases member

theorem exists_refused {arguments : Substitution} {value : Value} (nothing : value.substitute
    arguments = none) : ∃ inner, value.LooksAt inner ∧ Refuses arguments inner := by
  rcases substitute_eq_none_iff.1 nothing with refuses | ⟨part, isOperand, inPart⟩
  · exact ⟨value, .self value, refuses⟩
  · cases isNode : part.isNode with
    | false => exact ⟨part, .operand isOperand (.self part), by rw [Refuses, kind?_of_not_isNode isNode]; trivial⟩
    | true =>
      obtain ⟨inner, looks, refuses⟩ := exists_refused inPart
      exact ⟨inner, .operand isOperand looks, refuses⟩
termination_by sizeOf value
decreasing_by exact sizeOf_lt_of_mem_operands isOperand isNode

/-- An expression admits no substitution exactly when one that is looked at is
refused. -/
theorem substitute_eq_none_iff_looksAt {arguments : Substitution} {value : Value} :
    value.substitute arguments = none ↔ ∃ inner, value.LooksAt inner ∧ Refuses arguments inner := by
  refine ⟨exists_refused, ?_⟩
  rintro ⟨inner, looks, refuses⟩
  induction looks with
  | self value => exact substitute_eq_none_iff.2 (.inl refuses)
  | operand isOperand _ ih => exact substitute_eq_none_iff.2 (.inr ⟨_, isOperand, ih refuses⟩)

end Unravel.Value
