import Unravel.Pass.Folding
import Unravel.Proofs.Number.Spelling
import Unravel.Proofs.Simplification.Joining
import Unravel.Proofs.Tree.Rewriting

/-!
Contract: constant arithmetic and joined texts do not see each other.

What a tree becomes when its constant expressions are computed, and when its
concatenations are joined, is a rewriting from the outside in. No expression is
both: an expression that stands for a number has no text in it
(`evaluate_of_leaves?`). So each rewriting leaves what the other one looks at as it
was, and what the other one has put in place (`result_comm`).
-/

namespace Unravel

variable {number : Double} {kind name : String} {value operand : Value} {leaves : List String}
  {meaning : Operator → Double → Double → Double}

namespace Value

variable {change : Value → Value}

/-! ## Evaluation, kind by kind -/

/-- The number that an expression stands for, given those of its operands. -/
def combine (meaning : Operator → Double → Double → Double) (value : Value)
    (operand : String → Option Double) : Option Double :=
  if value.isKind "Literal" then value.double?
  else if value.isKind "UnaryExpression" then
    if value.hasText "operator" "-" then (operand "argument").map Double.negate else none
  else if value.isKind "BinaryExpression" then
    value.operator?.bind fun operator =>
      match operand "left", operand "right" with
      | some left, some right => some (meaning operator left right)
      | _, _ => none
  else none

theorem evaluateWith_eq (meaning : Operator → Double → Double → Double) (value : Value) :
    value.evaluateWith meaning =
      value.combine meaning fun name => (value.attr name).evaluateWith meaning := by
  rw [evaluateWith, combine]
  split
  · rename_i none
    simp [isKind, none]
  · rename_i kind is
    simp only [isKind, is, beq_iff_eq, Option.some.injEq]
    cases value.operator? <;> rfl

theorem evaluate_of_literal (is : value.kind? = some "Literal") : value.evaluate = value.double? :=
    (evaluateWith_eq _ value).trans (by rw [combine, isKind, is]; rfl)

theorem evaluate_of_unary (is : value.kind? = some "UnaryExpression") : value.evaluate =
      if value.hasText "operator" "-" then (value.attr "argument").evaluate.map Double.negate
      else none :=
  (evaluateWith_eq _ value).trans (by rw [combine, isKind, isKind, is]; rfl)

theorem evaluate_of_binary (is : value.kind? = some "BinaryExpression") :
    value.evaluate = value.operator?.bind fun operator =>
      match (value.attr "left").evaluate, (value.attr "right").evaluate with
      | some left, some right => some (operator.onDoubles left right)
      | _, _ => none :=
  (evaluateWith_eq _ value).trans (by rw [combine, isKind, isKind, isKind, is]; rfl)

/-- The kinds of constant expressions. -/
def constantKinds : List String := ["Literal", "UnaryExpression", "BinaryExpression"]

theorem combine_of_other (other : ∀ kind ∈ constantKinds, value.kind? ≠ some kind)
    (operand : String → Option Double) : value.combine meaning operand = none := by
  simp only [constantKinds, List.forall_mem_cons] at other
  simp [combine, isKind, other]

theorem evaluateWith_of_other (meaning : Operator → Double → Double → Double) (other : ∀ kind ∈
    constantKinds, value.kind? ≠ some kind) : value.evaluateWith meaning = none := by
  rw [evaluateWith_eq, combine_of_other other]

/-- An expression stands for the same number if more is known of its operands. -/
theorem combine_mono {before after : String → Option Double} (above : ∀ name number, before name =
    some number → after name = some number) (stands : value.combine meaning before = some number) :
    value.combine meaning after = some number := by
  unfold combine at stands ⊢
  split
  · rename_i isLiteral
    rwa [if_pos isLiteral] at stands
  rename_i noLiteral
  rw [if_neg noLiteral] at stands
  split
  · rename_i isUnary
    rw [if_pos isUnary] at stands
    split at stands
    · rename_i minus
      obtain ⟨inner, isInner, rfl⟩ := Option.map_eq_some_iff.1 stands
      rw [if_pos minus, above _ _ isInner]
      rfl
    · cases stands
  rename_i noUnary
  rw [if_neg noUnary] at stands
  split
  · rename_i isBinary
    rw [if_pos isBinary] at stands
    obtain ⟨operator, isOperator, meets⟩ := Option.bind_eq_some_iff.1 stands
    split at meets
    · rename_i left right isLeft isRight
      rw [isOperator, above _ _ isLeft, above _ _ isRight]
      exact meets
    · cases meets
  · rename_i noBinary
    rwa [if_neg noBinary] at stands

theorem evaluate_of_other (other : ∀ kind ∈ constantKinds, value.kind? ≠ some kind) : value.evaluate
    = none := evaluateWith_of_other _ other

theorem exists_kind?_of_evaluateWith (stands : value.evaluateWith meaning = some number) :
    ∃ kind ∈ constantKinds, value.kind? = some kind := by
  by_cases constant : ∃ kind ∈ constantKinds, value.kind? = some kind
  · exact constant
  · rw [evaluateWith_of_other meaning fun kind listed is => constant ⟨kind, listed, is⟩] at stands
    cases stands

theorem isNode_of_evaluate (stands : value.evaluate = some number) : value.isNode := by
  obtain ⟨kind, _, is⟩ := exists_kind?_of_evaluateWith stands
  exact isNode_of_kind? is

/-- The parts of an expression that stands for a number stand for numbers. -/
theorem exists_evaluate_of_child {child : Value} (stands : value.evaluate = some number)
    (member : child ∈ value.children) : ∃ inner, child.evaluate = some inner := by
  obtain ⟨kind, listed, is⟩ := exists_kind?_of_evaluateWith stands
  simp only [constantKinds, List.mem_cons, List.not_mem_nil, or_false] at listed
  rcases listed with rfl | rfl | rfl
  · rw [children_of_kind is rfl] at member
    cases member
  · rw [evaluate_of_unary is] at stands
    split at stands
    · obtain ⟨operand, isOperand, _⟩ := Option.map_eq_some_iff.1 stands
      rw [children_of_kind is rfl, List.flatMap_singleton,
        slotNodes_of_isNode (isNode_of_evaluate isOperand), List.mem_singleton] at member
      exact ⟨operand, member ▸ isOperand⟩
    · cases stands
  · rw [evaluate_of_binary is] at stands
    obtain ⟨operator, _, meets⟩ := Option.bind_eq_some_iff.1 stands
    split at meets
    · rename_i left right isLeft isRight
      rw [children_of_kind is rfl, List.flatMap_cons, List.flatMap_singleton, slotNodes_of_isNode
        (isNode_of_evaluate isLeft), slotNodes_of_isNode (isNode_of_evaluate isRight)] at member
      rcases List.mem_cons.1 member with rfl | isLast
      · exact ⟨left, isLeft⟩
      · exact ⟨right, List.mem_singleton.1 isLast ▸ isRight⟩
    · cases meets

theorem leaves?_of_binary (is : value.kind? = some "BinaryExpression") : value.leaves? =
      if value.hasText "operator" "+" then
        match (value.attr "left").leaves?, (value.attr "right").leaves? with
        | some left, some right => some (left ++ right)
        | _, _ => none
      else none := by
  have noString : value.string? = none := by
    rw [string?, isKind_eq_false is (by decide)]
    rfl
  have isBinary : value.isKind "BinaryExpression" := beq_iff_eq.2 is
  rw [leaves?, noString]
  exact dif_pos isBinary

theorem leaves?_of_literal (is : value.kind? = some "Literal") :
    value.leaves? = (value.attr "value").text?.map fun leaf => [leaf] := by
  have string : value.string? = (value.attr "value").text? := by
    rw [string?, isKind, is]
    rfl
  rw [leaves?, string]
  cases (value.attr "value").text? with
  | some leaf => rfl
  | none => simp [isKind_eq_false is]

theorem leaves?_of_other (noLiteral : value.kind? ≠ some "Literal")
    (noBinary : value.kind? ≠ some "BinaryExpression") : value.leaves? = none := by
  rw [leaves?, string?]
  simp [isKind, noLiteral, noBinary]

theorem isNode_of_leaves? (are : value.leaves? = some leaves) : value.isNode := by
  cases isNode : value.isNode with
  | true => rfl
  | false =>
    have noKind := kind?_of_not_isNode isNode
    rw [leaves?_of_other (by simp [noKind]) (by simp [noKind])] at are
    cases are

theorem exists_leaves?_of_binary (is : value.kind? = some "BinaryExpression")
    (are : value.leaves? = some leaves) : ∃ left right, (value.attr "left").leaves? = some left ∧
      (value.attr "right").leaves? = some right ∧ leaves = left ++ right := by
  rw [leaves?_of_binary is] at are
  split at are
  · split at are
    · rename_i left right isLeft isRight
      exact ⟨left, right, isLeft, isRight, (Option.some.inj are).symm⟩
    · cases are
  · cases are

/-- An expression that joins texts stands for no number. -/
theorem evaluate_of_leaves? {value : Value} {leaves : List String} (are : value.leaves? = some leaves) :
    value.evaluate = none := by
  by_cases isLiteral : value.kind? = some "Literal"
  · rw [leaves?_of_literal isLiteral] at are
    obtain ⟨leaf, isText, _⟩ := Option.map_eq_some_iff.1 are
    rw [evaluate_of_literal isLiteral, double?, numeral?]
    cases held : value.attr "value" <;> rw [held] at isText <;> first | rfl | cases isText
    simp
  · by_cases isBinary : value.kind? = some "BinaryExpression"
    · obtain ⟨left, _, isLeft, _⟩ := exists_leaves?_of_binary isBinary are
      rw [evaluate_of_binary isBinary, evaluate_of_leaves? isLeft]
      cases value.operator? <;> rfl
    · rw [leaves?_of_other isLiteral isBinary] at are
      cases are
termination_by sizeOf value
decreasing_by exact sizeOf_attr_lt_of_kind? _ isBinary

theorem leaves?_of_evaluate (stands : value.evaluate = some number) : value.leaves? = none := by
  cases are : value.leaves? with
  | none => rfl
  | some leaves =>
    rw [evaluate_of_leaves? are] at stands
    cases stands

theorem concatenation?_of_leaves? (no : value.leaves? = none) : value.concatenation? = none := by
  unfold concatenation?
  split
  · exact no
  · rfl

theorem leaves?_of_concatenation? {parts : List String}
    (joins : value.concatenation? = some parts) : value.leaves? = some parts := by
  unfold concatenation? at joins
  split at joins
  · exact joins
  · cases joins

/-! ## Labels aside -/

theorem isKind_unlabelled (value : Value) (kind : String) :
    value.unlabelled.isKind kind = value.isKind kind := by
  rw [isKind, isKind, kind?_unlabelled]

theorem text?_unlabelled (value : Value) : value.unlabelled.text? = value.text? := by
  cases value <;> rfl

theorem hasText_unlabelled (value : Value) (name text : String) :
    value.unlabelled.hasText name text = value.hasText name text := by
  rw [hasText, hasText, attr_unlabelled, text?_unlabelled]

theorem numeral?_unlabelled (value : Value) : value.unlabelled.numeral? = value.numeral? := by
  unfold numeral?
  rw [isKind_unlabelled, attr_unlabelled]
  cases value.attr "value" <;> rfl

theorem evaluate_unlabelled (value : Value) : value.unlabelled.evaluate = value.evaluate := by
  by_cases constant : ∃ kind, value.kind? = some kind
  · obtain ⟨kind, is⟩ := constant
    have operand : (fun name => (value.unlabelled.attr name).evaluate) =
        fun name => (value.attr name).evaluate := by
      funext name
      rw [attr_unlabelled, evaluate_unlabelled (value.attr name)]
    unfold evaluate at operand ⊢
    rw [evaluateWith_eq, evaluateWith_eq _ value, operand]
    simp only [combine, isKind_unlabelled, double?, numeral?_unlabelled, hasText_unlabelled,
      operator?, attr_unlabelled, text?_unlabelled]
  · have other : ∀ kind ∈ constantKinds, value.kind? ≠ some kind :=
      fun kind _ is => constant ⟨kind, is⟩
    rw [evaluate_of_other other, evaluate_of_other (by simpa only [kind?_unlabelled] using other)]
termination_by sizeOf value
decreasing_by exact sizeOf_attr_lt_of_kind? _ is

theorem leaves?_unlabelled (value : Value) : value.unlabelled.leaves? = value.leaves? := by
  by_cases isLiteral : value.kind? = some "Literal"
  · rw [leaves?_of_literal isLiteral, leaves?_of_literal (by rwa [kind?_unlabelled]),
      attr_unlabelled, text?_unlabelled]
  by_cases isBinary : value.kind? = some "BinaryExpression"
  · rw [leaves?_of_binary isBinary, leaves?_of_binary (by rwa [kind?_unlabelled]),
      hasText_unlabelled, attr_unlabelled, attr_unlabelled,
      leaves?_unlabelled (value.attr "left"), leaves?_unlabelled (value.attr "right")]
  · rw [leaves?_of_other isLiteral isBinary,
      leaves?_of_other (by rwa [kind?_unlabelled]) (by rwa [kind?_unlabelled])]
termination_by sizeOf value
decreasing_by
  · exact sizeOf_attr_lt_of_kind? _ isBinary
  · exact sizeOf_attr_lt_of_kind? _ isBinary

theorem concatenation?_unlabelled (value : Value) :
    value.unlabelled.concatenation? = value.concatenation? := by
  rw [concatenation?, concatenation?, isKind_unlabelled, hasText_unlabelled, leaves?_unlabelled]

/-! ## Readings that a change of the children keeps -/

/-- What is read of an attribute is kept if it is kept for nodes, and if lists read
alike. -/
theorem read_mapSlot {α : Type} {read : Value → α} (tame : Tame change) (lists : ∀ items others,
    read (.list items) = read (.list others)) (same : value.isNode → read (change value) = read
    value) : read (value.mapSlot change) = read value := by
  cases value with
  | list items => exact lists _ _
  | node label kind fields => exact same rfl
  | null | bool _ | number _ | text _ | record _ _ =>
    rw [mapSlot.eq_2 _ _ (by simp), tame.still rfl]

variable {names : List String} {choose : Value → Option Value}

theorem attr_mapChildren_of_kind (is : value.kind? = some kind)
    (listed : Members.get? childTable kind = some names) (other : name ∉ names) :
    (value.mapChildren change).attr name = value.attr name := by
  apply attr_mapChildren_of_not_mem
  rw [childFields_of_kind is listed]
  exact other

theorem child_mapChildren_of_kind (tame : Tame change) (is : value.kind? = some kind)
    (listed : Members.get? childTable kind = some names) (among : name ∈ names) :
    (value.mapChildren change).attr name = (value.attr name).mapSlot change := by
  apply attr_mapChildren tame (isNode_of_kind? is)
  rw [childFields_of_kind is listed]
  exact among

theorem mapChildren_of_leaf (is : value.kind? = some kind)
    (listed : Members.get? childTable kind = some []) : value.mapChildren change = value :=
  mapChildren_of_childless (childFields_of_kind is listed)

theorem attr_mapChildren_cases (tame : Tame change) (isNode : value.isNode) (name : String) :
    (value.mapChildren change).attr name = (value.attr name).mapSlot change ∨
      (value.mapChildren change).attr name = value.attr name := by
  by_cases listed : name ∈ value.childFields
  · exact .inl (attr_mapChildren tame isNode listed)
  · exact .inr (attr_mapChildren_of_not_mem listed)

theorem combine_mapChildren (operand : String → Option Double) :
    (value.mapChildren change).combine meaning operand = value.combine meaning operand := by
  by_cases constant : ∃ kind ∈ constantKinds, value.kind? = some kind
  · obtain ⟨kind, listed, is⟩ := constant
    have same (name : String) (among : name ∈ ["operator", "value"]) :
        (value.mapChildren change).attr name = value.attr name := by
      simp only [constantKinds, List.mem_cons, List.not_mem_nil, or_false] at listed among
      rcases listed with rfl | rfl | rfl <;> rcases among with rfl | rfl <;>
        exact attr_mapChildren_of_kind is rfl (by decide)
    have numerals : (value.mapChildren change).numeral? = value.numeral? := by
      rw [numeral?, isKind_mapChildren, same "value" (by decide)]
      rfl
    rw [combine, isKind_mapChildren, isKind_mapChildren, isKind_mapChildren, double?, numerals,
      hasText, operator?, same "operator" (by decide)]
    rfl
  · have other : ∀ kind ∈ constantKinds, value.kind? ≠ some kind :=
      fun kind listed is => constant ⟨kind, listed, is⟩
    rw [combine_of_other other, combine_of_other (by simpa only [kind?_mapChildren] using other)]

theorem evaluate_mapChildren (tame : Tame change) (same : ∀ name, (value.attr name).isNode →
      (change (value.attr name)).evaluate = (value.attr name).evaluate) :
    (value.mapChildren change).evaluate = value.evaluate := by
  cases isNode : value.isNode with
  | false => rw [mapChildren_of_not_isNode isNode]
  | true =>
    have operand : (fun name => ((value.mapChildren change).attr name).evaluate) =
        fun name => (value.attr name).evaluate := by
      funext name
      rcases attr_mapChildren_cases tame isNode name with changed | kept
      · rw [changed]
        exact read_mapSlot tame (fun _ _ => by
          rw [evaluate_of_other fun _ _ => by simp [kind?],
            evaluate_of_other fun _ _ => by simp [kind?]]) (same name)
      · rw [kept]
    unfold evaluate at operand ⊢
    rw [evaluateWith_eq, evaluateWith_eq _ value, operand, combine_mapChildren]

theorem leaves?_mapChildren (tame : Tame change) (same : ∀ name, (value.attr name).isNode →
      (change (value.attr name)).leaves? = (value.attr name).leaves?) :
    (value.mapChildren change).leaves? = value.leaves? := by
  have operand (name : String) : ((value.attr name).mapSlot change).leaves? = (value.attr
      name).leaves? := read_mapSlot tame (fun _ _ => by
      rw [leaves?_of_other (by simp [kind?]) (by simp [kind?]),
        leaves?_of_other (by simp [kind?]) (by simp [kind?])])
      (same name)
  by_cases isLiteral : value.kind? = some "Literal"
  · rw [mapChildren_of_leaf isLiteral rfl]
  by_cases isBinary : value.kind? = some "BinaryExpression"
  · rw [leaves?_of_binary isBinary, leaves?_of_binary (by rwa [kind?_mapChildren]), hasText,
      attr_mapChildren_of_kind isBinary rfl (by decide), child_mapChildren_of_kind tame isBinary rfl
      (by decide), child_mapChildren_of_kind tame isBinary rfl (by decide), operand, operand]
    rfl
  · rw [leaves?_of_other isLiteral isBinary,
      leaves?_of_other (by rwa [kind?_mapChildren]) (by rwa [kind?_mapChildren])]

theorem concatenation?_mapChildren (leaves : (value.mapChildren change).leaves? = value.leaves?) :
    (value.mapChildren change).concatenation? = value.concatenation? := by
  unfold concatenation?
  rw [isKind_mapChildren, leaves]
  by_cases is : value.kind? = some "BinaryExpression"
  · rw [hasText, attr_mapChildren_of_kind is rfl (by decide)]
    rfl
  · simp [isKind, is]

/-! ## Plain numbers -/

/-- A plain number without a minus. -/
def isPlainOperand (value : Value) : Bool := value.isNamed "Infinity" || value.isNamed "NaN" ||
  (value.numeral?.isSome && !value.isNonDecimal)

theorem isPlainNumber_eq (value : Value) : value.isPlainNumber = (value.negated?.getD
    value).isPlainOperand := rfl

theorem isPlainOperand_of_other (noIdentifier : value.kind? ≠ some "Identifier")
    (noLiteral : value.kind? ≠ some "Literal") : value.isPlainOperand = false := by
  simp [isPlainOperand, isNamed, identifier?, isIdentifier, numeral?, isKind, noIdentifier,
    noLiteral]

theorem isPlainOperand_mapChildren (change : Value → Value) (value : Value) :
    (value.mapChildren change).isPlainOperand = value.isPlainOperand := by
  by_cases isIdentifier : value.kind? = some "Identifier"
  · rw [mapChildren_of_leaf isIdentifier rfl]
  by_cases isLiteral : value.kind? = some "Literal"
  · rw [mapChildren_of_leaf isLiteral rfl]
  · rw [isPlainOperand_of_other isIdentifier isLiteral,
      isPlainOperand_of_other (by rwa [kind?_mapChildren]) (by rwa [kind?_mapChildren])]

theorem negated?_of_other (other : value.kind? ≠ some "UnaryExpression") :
    value.negated? = none := by
  simp [negated?, isKind, other]

theorem isPlainNumber_mapChildren (tame : Tame change) (same : (value.attr "argument").isNode →
      (change (value.attr "argument")).isPlainOperand = (value.attr "argument").isPlainOperand) :
    (value.mapChildren change).isPlainNumber = value.isPlainNumber := by
  rw [isPlainNumber_eq, isPlainNumber_eq]
  by_cases is : value.kind? = some "UnaryExpression"
  · have operand : ((value.attr "argument").mapSlot change).isPlainOperand = (value.attr
        "argument").isPlainOperand := read_mapSlot tame (fun _ _ => rfl) same
    unfold negated?
    rw [isKind_mapChildren, hasText, attr_mapChildren_of_kind is rfl (by decide),
      child_mapChildren_of_kind tame is rfl (by decide), ← hasText]
    split
    · exact operand
    · exact isPlainOperand_mapChildren change value
  · rw [negated?_of_other is, negated?_of_other (by rwa [kind?_mapChildren])]
    exact isPlainOperand_mapChildren change value

theorem isNamed_eq (value : Value) (name : String) :
    value.isNamed name = (value.isKind "Identifier" && value.hasText "name" name) := by
  unfold isNamed identifier? isIdentifier hasText name?
  cases value.isKind "Identifier" with
  | false => rfl
  | true =>
    cases value.attr "name" <;> simp [Name.ofValue?, text?]

theorem isPlainOperand_unlabelled (value : Value) :
    value.unlabelled.isPlainOperand = value.isPlainOperand := by
  have named (name : String) : value.unlabelled.isNamed name = value.isNamed name := by
    rw [isNamed_eq, isNamed_eq, isKind_unlabelled, hasText_unlabelled]
  have decimal : value.unlabelled.isNonDecimal = value.isNonDecimal := by
    rw [isNonDecimal, isNonDecimal, numeral?_unlabelled, attr_unlabelled, text?_unlabelled]
  rw [isPlainOperand, isPlainOperand, named, named, numeral?_unlabelled, decimal]

theorem isPlainNumber_unlabelled (value : Value) :
    value.unlabelled.isPlainNumber = value.isPlainNumber := by
  rw [isPlainNumber_eq, isPlainNumber_eq, negated?, negated?, isKind_unlabelled,
    hasText_unlabelled, attr_unlabelled]
  split <;> exact isPlainOperand_unlabelled _

theorem isPlainNumber_of_other (is : value.kind? = some kind) (other : kind ∉ ["Identifier",
    "Literal", "UnaryExpression"]) : value.isPlainNumber = false := by
  simp only [List.mem_cons, List.not_mem_nil, or_false, not_or] at other
  obtain ⟨noIdentifier, noLiteral, noUnary⟩ := other
  rw [isPlainNumber_eq, negated?_of_other (by simpa [is] using noUnary)]
  exact isPlainOperand_of_other (by simpa [is] using noIdentifier) (by simpa [is] using noLiteral)

theorem concatenation?_of_isPlainNumber (plain : value.isPlainNumber) :
    value.concatenation? = none := by
  cases joins : value.concatenation? with
  | none => rfl
  | some parts =>
    have is := kind?_of_isKind (isBinary_of_concatenation? joins)
    rw [isPlainNumber_of_other is (by decide)] at plain
    cases plain

/-! ## Nodes that are put in place -/

/-- A node that is built, with its labels forgotten. -/
def bare (build : Fresh Value) : Value := (build.run 0).1.unlabelled

theorem leaves?_stringNode (text : String) : (bare (stringNode text)).leaves? = some [text] :=
  leaves?_of_string? rfl

theorem unlabelled_stringNode (text : String) (next : Nat) : ((stringNode text).run
    next).1.unlabelled = bare (stringNode text) := rfl

theorem unlabelled_numberNode (number : Double) (next : Nat) :
    ((numberNode number).run next).1.unlabelled = bare (numberNode number) := by
  cases number with
  | nan => rfl
  | infinite negative => cases negative <;> rfl
  | finite negative code => cases negative <;> rfl

/-- The final spelling of a number without a minus. -/
structure Magnitude (operand : Value) : Prop where
  isNode : operand.isNode = true
  childless : operand.childFields = []
  bare : operand.negated? = none
  plain : operand.isPlainOperand = true

theorem Magnitude.isPlainNumber (magnitude : operand.Magnitude) : operand.isPlainNumber := by
  rw [isPlainNumber_eq, magnitude.bare]
  exact magnitude.plain

theorem magnitude_identifier (listed : name = "Infinity" ∨ name = "NaN") :
    Magnitude (.node 0 "Identifier" [("name", .text name)]) := by
  rcases listed with rfl | rfl <;> exact ⟨rfl, rfl, rfl, rfl⟩

theorem magnitude_literal (code : Fin Double.codes) :
    Magnitude (.node 0 "Literal" [("value", .number (Double.finite false code).toNumeral),
      ("raw", .text (Double.finite false code).spelling)]) where
  isNode := rfl
  childless := rfl
  bare := rfl
  plain := by
    have decimal : isNonDecimal (.node 0 "Literal"
        [("value", .number (Double.finite false code).toNumeral),
          ("raw", .text (Double.finite false code).spelling)]) = false :=
      isNonDecimal_spelling code
    rw [isPlainOperand, decimal]
    rfl

/-- An operand after a minus. -/
def minus (operand : Value) : Value :=
  .node 0 "UnaryExpression"
    [("operator", .text "-"), ("argument", operand), ("prefix", .bool true)]

theorem exists_magnitude (number : Double) : ∃ operand : Value, operand.Magnitude ∧
      (bare (numberNode number) = operand ∨ bare (numberNode number) = operand.minus) := by
  cases number with
  | nan => exact ⟨_, magnitude_identifier (.inr rfl), .inl rfl⟩
  | infinite negative =>
    refine ⟨_, magnitude_identifier (.inl rfl), ?_⟩
    cases negative with
    | false => exact .inl rfl
    | true => exact .inr rfl
  | finite negative code =>
    refine ⟨_, magnitude_literal code, ?_⟩
    cases negative with
    | false => exact .inl rfl
    | true => exact .inr rfl

theorem isNode_numberNode (number : Double) : (bare (numberNode number)).isNode := by
  obtain ⟨operand, magnitude, is | is⟩ := exists_magnitude number
  · rw [is]
    exact magnitude.isNode
  · rw [is]
    rfl

theorem Magnitude.nodes (magnitude : operand.Magnitude) : operand.nodes = [operand] := by
  rw [nodes_eq, children, magnitude.childless]
  rfl

theorem children_minus (isNode : operand.isNode) : operand.minus.children = [operand] := by
  have is : operand.minus.kind? = some "UnaryExpression" := rfl
  rw [children_of_kind is rfl, List.flatMap_singleton]
  exact slotNodes_of_isNode isNode

theorem Magnitude.nodes_minus (magnitude : operand.Magnitude) :
    operand.minus.nodes = [operand.minus, operand] := by
  rw [nodes_eq, children_minus magnitude.isNode, List.flatMap_singleton, magnitude.nodes]

theorem isPlainNumber_of_mem_numberNode {node : Value}
    (member : node ∈ (bare (numberNode number)).nodes) : node.isPlainNumber := by
  obtain ⟨operand, magnitude, is | is⟩ := exists_magnitude number
  · rw [is, magnitude.nodes, List.mem_singleton] at member
    exact member ▸ magnitude.isPlainNumber
  · rw [is, magnitude.nodes_minus] at member
    rcases List.mem_cons.1 member with rfl | inside
    · exact magnitude.plain
    · exact List.mem_singleton.1 inside ▸ magnitude.isPlainNumber

theorem length_numberNode (number : Double) : (bare (numberNode number)).nodes.length ≤ 2 := by
  obtain ⟨operand, magnitude, is | is⟩ := exists_magnitude number
  · rw [is, magnitude.nodes]
    exact Nat.le_succ 1
  · rw [is, magnitude.nodes_minus]
    exact Nat.le_refl 2

/-- A rewriting that leaves plain numbers alone leaves the spelling of a number
alone. -/
theorem rewritten_numberNode (spares : ∀ value, value.isPlainNumber → choose value = none)
    (number : Double) : (bare (numberNode number)).rewritten choose = bare (numberNode number) := by
  obtain ⟨operand, magnitude, is | is⟩ := exists_magnitude number
  · rw [is, rewritten_of_none (spares _ magnitude.isPlainNumber),
      mapChildren_of_childless magnitude.childless]
  · have same : operand.rewritten choose = operand := by
      rw [rewritten_of_none (spares _ magnitude.isPlainNumber),
        mapChildren_of_childless magnitude.childless]
    have listed : operand.minus.childFields = ["argument"] := rfl
    rw [rewritten_of_none (spares _ (isPlainNumber_of_mem_numberNode (mem_nodes_self _))), is]
    unfold minus at listed ⊢
    simp [mapChildren, listed, mapSlot_of_isNode magnitude.isNode, same]

theorem rewritten_stringNode {text : String} (spares : choose (bare (stringNode text)) = none) :
    (bare (stringNode text)).rewritten choose = bare (stringNode text) := by
  rw [rewritten_of_none spares]
  exact mapChildren_of_leaf (show (bare (stringNode text)).kind? = some "Literal" from rfl) rfl

end Value

/-! ## Constant arithmetic -/

namespace Pass.Folding

open Value

/-- The spelling of the number that a node is exchanged for. -/
def exchange? (value : Value) : Option Value :=
  (folded? value).map fun number => bare (numberNode number)

theorem choice_exchange? : Choice exchange? := by
  intro value new chosen
  obtain ⟨number, _, rfl⟩ := Option.map_eq_some_iff.1 chosen
  exact isNode_numberNode number

theorem exchange?_of_isPlainNumber (plain : value.isPlainNumber) : exchange? value = none := by
  rw [exchange?, folded?, if_pos plain]
  rfl

theorem evaluate_of_folded? (folds : folded? value = some number) :
    value.evaluate = some number := by
  unfold folded? at folds
  split at folds
  · cases folds
  · exact folds

theorem isNode_of_folded? (folds : folded? value = some number) : value.isNode :=
  isNode_of_evaluate (evaluate_of_folded? folds)

theorem folded?_of_not_isNode (no : value.isNode = false) : folded? value = none := by
  cases folds : folded? value with
  | none => rfl
  | some number =>
    rw [isNode_of_folded? folds] at no
    cases no

theorem folded?_of_leaves? (are : value.leaves? = some leaves) : folded? value = none := by
  unfold folded?
  rw [evaluate_of_leaves? are, ite_self]

theorem leaves?_of_folded? (folds : folded? value = some number) : value.leaves? = none :=
  leaves?_of_evaluate (evaluate_of_folded? folds)

theorem leaves?_numberNode (number : Double) : (bare (numberNode number)).leaves? = none := by
  cases number with
  | nan => exact leaves?_of_other (by decide) (by decide)
  | infinite negative => cases negative <;> exact leaves?_of_other (by decide) (by decide)
  | finite negative code =>
    cases negative with
    | false => exact leaves?_of_literal rfl
    | true =>
      have is : (bare (numberNode (.finite true code))).kind? = some "UnaryExpression" := rfl
      exact leaves?_of_other (by simp [is]) (by simp [is])

theorem folded?_unlabelled (value : Value) : folded? value.unlabelled = folded? value := by
  rw [folded?, folded?, isPlainNumber_unlabelled, evaluate_unlabelled]

/-- What a tree becomes. -/
def result (value : Value) : Value := value.rewritten exchange?

theorem tame_result : Tame result := choice_exchange?.tame

theorem result_of_some (folds : folded? value = some number) :
    result value = bare (numberNode number) :=
  rewritten_of_some (isNode_of_folded? folds) (by rw [exchange?, folds, Option.map_some])

theorem result_of_none (keeps : folded? value = none) : result value = value.mapChildren result :=
  rewritten_of_none (by rw [exchange?, keeps, Option.map_none])

/-- An expression that folds is exchanged for its number, and any other node is kept
with what its children become. -/
theorem result_cases (value : Value) :
    (∃ number, folded? value = some number ∧ result value = bare (numberNode number)) ∨
      folded? value = none ∧ result value = value.mapChildren result := by
  cases folds : folded? value with
  | some number => exact .inl ⟨number, rfl, result_of_some folds⟩
  | none => exact .inr ⟨rfl, result_of_none folds⟩

theorem result_numberNode (number : Double) : result (bare (numberNode number)) = bare (numberNode
    number) := rewritten_numberNode (fun _ => exchange?_of_isPlainNumber) number

theorem result_stringNode (text : String) :
    result (bare (stringNode text)) = bare (stringNode text) := by
  refine rewritten_stringNode ?_
  rw [exchange?, folded?_of_leaves? (leaves?_stringNode text), Option.map_none]

end Pass.Folding

/-! ## Joined texts -/

namespace Pass.Concatenation

open Value

/-- The literal that a concatenation is exchanged for. -/
def exchange? (value : Value) : Option Value :=
  value.concatenation?.map fun parts => bare (stringNode (joined parts))

theorem choice_exchange? : Choice exchange? := by
  intro value new chosen
  obtain ⟨parts, _, rfl⟩ := Option.map_eq_some_iff.1 chosen
  rfl

theorem exchange?_of_isPlainNumber (plain : value.isPlainNumber) : exchange? value = none := by
  rw [exchange?, concatenation?_of_isPlainNumber plain, Option.map_none]

/-- What a tree becomes. -/
def result (value : Value) : Value := value.rewritten exchange?

theorem tame_result : Tame result := choice_exchange?.tame

theorem result_of_some {parts : List String} (joins : value.concatenation? = some parts) :
    result value = bare (stringNode (joined parts)) :=
  rewritten_of_some (isNode_of_kind? (kind?_of_isKind (isBinary_of_concatenation? joins)))
    (by rw [exchange?, joins, Option.map_some])

theorem result_of_none (keeps : value.concatenation? = none) :
    result value = value.mapChildren result :=
  rewritten_of_none (by rw [exchange?, keeps, Option.map_none])

/-- A concatenation is exchanged for its text, and any other node is kept with what
its children become. -/
theorem result_cases (value : Value) :
    (∃ parts, value.concatenation? = some parts ∧
        result value = bare (stringNode (joined parts))) ∨
      value.concatenation? = none ∧ result value = value.mapChildren result := by
  cases joins : value.concatenation? with
  | some parts => exact .inl ⟨parts, rfl, result_of_some joins⟩
  | none => exact .inr ⟨rfl, result_of_none joins⟩

theorem result_numberNode (number : Double) : result (bare (numberNode number)) = bare (numberNode
    number) := rewritten_numberNode (fun _ => exchange?_of_isPlainNumber) number

end Pass.Concatenation

namespace Pass

open Value

/-! ## Neither sees the other -/

theorem sizeOf_attr_lt_of_isNode (isChild : (value.attr name).isNode) :
    sizeOf (value.attr name) < sizeOf value := by
  apply sizeOf_attr_lt
  intro isNull
  rw [isNull] at isChild
  cases isChild

theorem evaluate_joined (value : Value) :
    (Concatenation.result value).evaluate = value.evaluate := by
  rcases Concatenation.result_cases value with ⟨parts, joins, is⟩ | ⟨_, is⟩
  · rw [is, evaluate_of_leaves? (leaves?_stringNode _),
      evaluate_of_leaves? (leaves?_of_concatenation? joins)]
  · rw [is]
    refine evaluate_mapChildren Concatenation.tame_result fun name isChild => ?_
    exact evaluate_joined (value.attr name)
termination_by sizeOf value
decreasing_by exact sizeOf_attr_lt_of_isNode isChild

theorem isPlainOperand_joined (value : Value) :
    (Concatenation.result value).isPlainOperand = value.isPlainOperand := by
  rcases Concatenation.result_cases value with ⟨parts, joins, is⟩ | ⟨_, is⟩
  · have isBinary := kind?_of_isKind (isBinary_of_concatenation? joins)
    have other : value.isPlainOperand = false :=
      isPlainOperand_of_other (by simp [isBinary]) (by simp [isBinary])
    rw [is, other]
    rfl
  · rw [is, isPlainOperand_mapChildren]

theorem folded?_joined (value : Value) :
    Folding.folded? (Concatenation.result value) = Folding.folded? value := by
  have plain : (Concatenation.result value).isPlainNumber = value.isPlainNumber := by
    rcases Concatenation.result_cases value with ⟨parts, joins, is⟩ | ⟨_, is⟩
    · rw [is, isPlainNumber_of_other (kind?_of_isKind (isBinary_of_concatenation? joins))
        (by decide)]
      rfl
    · rw [is]
      exact isPlainNumber_mapChildren Concatenation.tame_result fun _ => isPlainOperand_joined _
  unfold Folding.folded?
  rw [plain, evaluate_joined]

theorem leaves?_folded (value : Value) : (Folding.result value).leaves? = value.leaves? := by
  rcases Folding.result_cases value with ⟨number, folds, is⟩ | ⟨_, is⟩
  · rw [is, Folding.leaves?_numberNode, Folding.leaves?_of_folded? folds]
  · rw [is]
    refine leaves?_mapChildren Folding.tame_result fun name isChild => ?_
    exact leaves?_folded (value.attr name)
termination_by sizeOf value
decreasing_by exact sizeOf_attr_lt_of_isNode isChild

theorem concatenation?_folded (value : Value) :
    (Folding.result value).concatenation? = value.concatenation? := by
  have leaves := leaves?_folded value
  rcases Folding.result_cases value with ⟨number, folds, is⟩ | ⟨_, is⟩
  · rw [is, concatenation?_of_leaves? (Folding.leaves?_numberNode number),
      concatenation?_of_leaves? (Folding.leaves?_of_folded? folds)]
  · rw [is] at leaves ⊢
    exact concatenation?_mapChildren leaves

/-- Constant expressions can be computed before or after texts are joined. -/
theorem result_comm (value : Value) :
    Folding.result (Concatenation.result value) = Concatenation.result (Folding.result value) := by
  refine rewritten_comm Folding.choice_exchange? Concatenation.choice_exchange? ?_ ?_ ?_ ?_ value
  · intro value
    exact congrArg (Option.map fun number => bare (numberNode number)) (folded?_joined value)
  · intro value
    exact congrArg (Option.map fun parts => bare (stringNode (Concatenation.joined parts)))
      (concatenation?_folded value)
  · intro value new chosen
    obtain ⟨number, _, rfl⟩ := Option.map_eq_some_iff.1 chosen
    exact Concatenation.result_numberNode number
  · intro value new chosen
    obtain ⟨parts, _, rfl⟩ := Option.map_eq_some_iff.1 chosen
    exact Folding.result_stringNode _

end Pass

end Unravel
