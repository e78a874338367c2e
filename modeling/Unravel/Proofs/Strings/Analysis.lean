import Unravel.Proofs.Strings.Abridging

/-!
Contract: turning calls into strings does not change how a decoder is read.

The analysis of a function looks for member reads of identifiers and for numbers
that are added or taken off. A call is none of these, and neither is a string. So
an abridged function has the shape of the function itself (`analyze_abridged`),
and nothing keeps it from being analysed (`analysisFault?_abridged`).
-/

namespace Unravel

namespace Value

variable {bound : Nat} {value other : Value}

/-- An abridged value is the value itself, or both are lists or both objects. -/
theorem Abridged.sorts (abridged : Abridged bound value other) :
    other = value ∨ (∃ items others, value = .list items ∧ other = .list others ∧
      List.Forall₂ (Abridged bound) items others) ∨ value.isObject ∧ other.isObject := by
  cases value with
  | list items =>
    obtain ⟨others, rfl, parts⟩ := abridged
    exact .inr (.inl ⟨_, _, rfl, rfl, abridgedItems_iff.1 parts⟩)
  | record label fields =>
    obtain ⟨others, rfl, _⟩ := abridged
    exact .inr (.inr ⟨rfl, rfl⟩)
  | node label kind fields =>
    rcases abridged with ⟨others, rfl, _⟩ | ⟨_, _, _, _, rfl⟩ <;> exact .inr (.inr ⟨rfl, rfl⟩)
  | null | bool _ | number _ | text _ =>
    exact .inl abridged

theorem Abridged.text? (abridged : Abridged bound value other) : other.text? = value.text? := by
  rcases abridged.sorts with rfl | ⟨_, _, rfl, rfl, _⟩ | ⟨isObject, otherObject⟩
  · rfl
  · rfl
  · cases value <;> cases isObject <;> cases other <;> cases otherObject <;> rfl

theorem Resembles.hasText (resembles : Resembles bound value other) (name text : String) :
    other.hasText name text = value.hasText name text := by
  rw [Value.hasText, Value.hasText, (resembles.attr name).text?]

theorem Abridged.truthy (abridged : Abridged bound value other) : other.truthy = value.truthy := by
  rcases abridged.sorts with rfl | ⟨_, _, rfl, rfl, parts⟩ | ⟨isObject, otherObject⟩
  · rfl
  · cases parts <;> rfl
  · cases value <;> cases isObject <;> cases other <;> cases otherObject <;> rfl

theorem Abridged.number_iff (abridged : Abridged bound value other) (numeral : Numeral) :
    other = .number numeral ↔ value = .number numeral := by
  rcases abridged.sorts with rfl | ⟨_, _, rfl, rfl, _⟩ | ⟨isObject, otherObject⟩
  · rfl
  · simp
  · cases value <;> cases isObject <;> cases other <;> cases otherObject <;> simp

theorem numeral?_eq_some {numeral : Numeral} : value.numeral? = some numeral ↔
      value.isKind "Literal" ∧ value.attr "value" = .number numeral := by
  unfold numeral?
  split
  · rename_i is
    rw [is]
    split
    · rename_i held
      rw [held]
      simp
    · rename_i other
      simp only [reduceCtorEq, true_and, false_iff]
      exact fun held => other _ held
  · rename_i isNot
    simp [isNot]

theorem Abridged.numeral? (abridged : Abridged bound value other) :
    other.numeral? = value.numeral? := by
  rcases abridged.shape with ⟨isCall, own, text, _, rfl⟩ | resembles
  · have isNot := isKind_eq_false (kind?_of_isKind isCall) (show _ ≠ "Literal" by decide)
    rw [show value.numeral? = none by rw [Value.numeral?, isNot]; rfl]
    rfl
  · apply Option.ext
    intro numeral
    rw [numeral?_eq_some, numeral?_eq_some, (resembles.attr "value").number_iff, Value.isKind,
      Value.isKind, resembles.kind]

theorem Abridged.double? (abridged : Abridged bound value other) :
    other.double? = value.double? := by
  rw [Value.double?, Value.double?, abridged.numeral?]

end Value

namespace Pass.Strings

open Value

variable {bound : Nat} {value other : Value}

/-! ## Expressions -/

section Expressions

variable (abridged : Abridged bound value other)

include abridged

theorem offset?_abridged : offset? other = offset? value := by
  unfold offset?
  rw [abridged.isKind (by decide) (by decide)]
  split
  · rename_i is
    have resembles := abridged.resembles is (by decide)
    rw [(resembles.attr "right").double?, resembles.hasText, resembles.hasText]
  · rfl

theorem isMemberRead_abridged : isMemberRead other = isMemberRead value := by
  unfold isMemberRead
  rw [abridged.isKind (by decide) (by decide)]
  cases is : value.isKind "MemberExpression" with
  | false => rfl
  | true =>
    have resembles := abridged.resembles is (by decide)
    rw [(resembles.attr "computed").truthy, isIdentifier, isIdentifier,
      (resembles.attr "object").isKind (by decide) (by decide)]

/-- The name of the array that is read, which is a text. -/
theorem exists_text_of_isMemberRead (sound : value.Sound) (reads : isMemberRead value) :
    ∃ text, (value.attr "object").attr "name" = .text text ∧
      (other.attr "object").attr "name" = .text text := by
  obtain ⟨both, isIdentifier⟩ := Bool.and_eq_true_iff.1 reads
  obtain ⟨is, _⟩ := Bool.and_eq_true_iff.1 both
  have object := abridged.attr is (by decide) "object"
  have soundObject : (value.attr "object").Sound := sound.attr is rfl (by decide)
  obtain ⟨text, isText⟩ := Option.isSome_iff_exists.1
    ((soundObject.shaped isIdentifier).name isIdentifier)
  have name := object.attr isIdentifier (by decide) "name"
  have exactly {held : Value} (is : held.text? = some text) : held = .text text := by
    cases held <;> cases is
    rfl
  exact ⟨text, exactly isText, exactly (name.text?.trans isText)⟩

theorem memberRead?_abridged (sound : value.Sound) : memberRead? other = memberRead? value := by
  unfold memberRead?
  rw [isMemberRead_abridged abridged]
  split
  · rename_i reads
    obtain ⟨text, isText, otherText⟩ := exists_text_of_isMemberRead abridged sound reads
    obtain ⟨both, _⟩ := Bool.and_eq_true_iff.1 reads
    obtain ⟨is, _⟩ := Bool.and_eq_true_iff.1 both
    rw [name?, name?, isText, otherText, offset?_abridged (abridged.attr is (by decide) "property")]
  · rfl

end Expressions

/-! ## Statements -/

/-- An abridged form of a value that is well-shaped. -/
structure Kept (bound : Nat) (value other : Value) : Prop where
  abridged : Abridged bound value other
  sound : value.Sound

variable {values others : List Value} {kind name : String} {names : List String}

theorem filterMap_eq_of_forall₂ {α : Type} {read : Value → Option α} (same : ∀ ⦃value other⦄, Kept
    bound value other → read other = read value) (parts : List.Forall₂ (Kept bound) values others) :
    others.filterMap read = values.filterMap read := by
  induction parts with
  | nil => rfl
  | cons first _ ih =>
    rw [List.filterMap_cons, List.filterMap_cons, same first, ih]

section Statements

variable (kept : Kept bound value other)

include kept

theorem Kept.attr (is : value.isKind kind) (listed : Members.get? childTable kind = some names)
    (among : name ∈ names) (notCall : kind ≠ "CallExpression") : Kept bound (value.attr name)
    (other.attr name) := ⟨kept.abridged.attr is notCall name, kept.sound.attr is listed among⟩

theorem Kept.items (is : value.isKind kind) (listed : Members.get? childTable kind = some names)
    (among : name ∈ names) (notCall : kind ≠ "CallExpression") :
    List.Forall₂ (Kept bound) (value.attr name).items (other.attr name).items := by
  have parts := (kept.abridged.attr is notCall name).items
  rw [List.forall₂_iff_get] at parts ⊢
  refine ⟨parts.1, fun position within otherWithin => ⟨parts.2 position within otherWithin, ?_⟩⟩
  exact kept.sound.item is listed among (List.get_mem _ _)

theorem storedBy_abridged : List.Forall₂ (Kept bound) (storedBy value) (storedBy other) := by
  unfold storedBy
  rw [kept.abridged.isKind (by decide) (by decide), kept.abridged.isKind (by decide) (by decide)]
  split
  · rename_i is
    have expression : Kept bound (value.attr "expression") (other.attr "expression") :=
      kept.attr is rfl (by decide) (by decide)
    dsimp only
    rw [expression.abridged.isKind (by decide) (by decide)]
    cases assigns : (value.attr "expression").isKind "AssignmentExpression" with
    | false => exact .nil
    | true =>
      have resembles := expression.abridged.resembles assigns (by decide)
      rw [resembles.hasText]
      split
      · exact .cons (expression.attr assigns rfl (by decide) (by decide)) .nil
      · exact .nil
  · split
    · rename_i is
      have declarators := kept.items is rfl (show "declarations" ∈ _ by decide) (by decide)
      have shaped := (kept.sound.shaped is).declarators is
      rw [List.forall₂_map_left_iff, List.forall₂_map_right_iff]
      rw [List.forall₂_iff_get] at declarators ⊢
      refine ⟨declarators.1, fun position within otherWithin => ?_⟩
      exact (declarators.2 position within otherWithin).attr (shaped _ (List.get_mem _ _)) rfl
        (by decide) (by decide)
    · exact .nil

theorem readsOf_abridged : List.Forall₂ (Kept bound) (readsOf value) (readsOf other) := by
  unfold readsOf
  rw [kept.abridged.isKind (by decide) (by decide)]
  split
  · rename_i is
    exact .cons (kept.attr is rfl (by decide) (by decide)) .nil
  · exact storedBy_abridged kept

end Statements

theorem flatMap_abridged {read : Value → List Value} (each : ∀ ⦃value other⦄, Kept bound value other
    → List.Forall₂ (Kept bound) (read value) (read other)) (parts : List.Forall₂ (Kept bound) values
    others) : List.Forall₂ (Kept bound) (values.flatMap read) (others.flatMap read) := by
  induction parts with
  | nil => exact .nil
  | cons first _ ih =>
    exact List.rel_append (each first) ih

/-! ## Functions -/

section Functions

variable (kept : Kept bound value other) (isFunction : value.isFunction = true)

include kept isFunction

theorem body_abridged : Kept bound (value.attr "body") (other.attr "body") := by
  obtain ⟨kind, listed, isKind⟩ := exists_kind?_of_isFunction isFunction
  have table : ∀ kind ∈ functionKinds, kind ≠ "CallExpression" ∧
      ∃ names, Members.get? childTable kind = some names ∧ "body" ∈ names := by
    simp only [functionKinds, List.forall_mem_cons]
    refine ⟨⟨by decide, _, rfl, ?_⟩, ⟨by decide, _, rfl, ?_⟩, ⟨by decide, _, rfl, ?_⟩,
      List.forall_mem_nil _⟩ <;> decide
  obtain ⟨notCall, names, found, among⟩ := table kind listed
  exact kept.attr (beq_iff_eq.2 isKind) found among notCall

theorem statementsOf_abridged :
    List.Forall₂ (Kept bound) (statementsOf value) (statementsOf other) := by
  have body := body_abridged kept isFunction
  unfold statementsOf
  dsimp only
  rw [body.abridged.isKind (by decide) (by decide)]
  split
  · rename_i is
    exact body.items is rfl (by decide) (by decide)
  · exact .nil

theorem candidatesOf_abridged :
    List.Forall₂ (Kept bound) (candidatesOf value) (candidatesOf other) := by
  have body := body_abridged kept isFunction
  unfold candidatesOf
  dsimp only
  rw [body.abridged.isKind (by decide) (by decide)]
  split
  · exact flatMap_abridged (fun _ _ => readsOf_abridged) (statementsOf_abridged kept isFunction)
  · exact .cons body .nil

theorem analyze_abridged : analyze other = analyze value := by
  have reads : (candidatesOf other).filterMap memberRead? = (candidatesOf value).filterMap
      memberRead? := filterMap_eq_of_forall₂ (fun _ _ kept => memberRead?_abridged kept.abridged
      kept.sound) (candidatesOf_abridged kept isFunction)
  have offsets : ((statementsOf other).flatMap storedBy).filterMap offset? =
      ((statementsOf value).flatMap storedBy).filterMap offset? :=
    filterMap_eq_of_forall₂ (fun _ _ kept => offset?_abridged kept.abridged)
      (flatMap_abridged (fun _ _ => storedBy_abridged) (statementsOf_abridged kept isFunction))
  unfold analyze
  rw [reads, offsets]

end Functions

/-! ## Faults -/

theorem attrFault?_abridged (abridged : Abridged bound value other) (isNode : value.isNode)
    (name : String) : other.attrFault? name = none := by
  have isObject : other.isObject := by
    rcases abridged.shape with ⟨_, own, text, _, rfl⟩ | resembles
    · rfl
    · rw [Value.isObject, resembles.label]
      exact isObject_of_isNode isNode
  rw [attrFault?, isObject]
  rfl

theorem isList_abridged (abridged : Abridged bound value other) (isList : value.isList) :
    other.isList := by
  rcases abridged.shape with ⟨isCall, _⟩ | resembles
  · cases value with
    | list items => cases isCall
    | null | bool _ | number _ | text _ | record _ _ | node _ _ _ => cases isList
  · exact resembles.isList.trans isList

theorem iterationFault?_of_isList (isList : value.isList) : value.iterationFault? = none := by
  rw [iterationFault?, isSequence_of_isList isList]
  rfl

theorem statementFault?_abridged (kept : Kept bound value other) :
    statementFault? other = none := by
  unfold statementFault?
  rw [kept.abridged.isKind (by decide) (by decide)]
  split
  · rename_i is
    have declarations := kept.abridged.attr is (by decide) "declarations"
    have isList := isList_abridged declarations ((kept.sound.shaped is).declarations is)
    dsimp only
    rw [iterationFault?_of_isList isList, Option.none_or, elements_of_isList isList,
      List.findSome?_eq_none_iff]
    intro declarator member
    obtain ⟨original, isOriginal, abridged⟩ := exists_mem_of_forall₂ declarations.items member
    have isDeclarator := (kept.sound.shaped is).declarators is original isOriginal
    exact attrFault?_abridged abridged (isNode_of_kind? (kind?_of_isKind isDeclarator)) "init"
  · rfl

theorem readFault?_abridged (kept : Kept bound value other) : readFault? other = none := by
  unfold readFault?
  rw [isMemberRead_abridged kept.abridged]
  split
  · rename_i reads
    obtain ⟨text, _, isText⟩ := exists_text_of_isMemberRead kept.abridged kept.sound reads
    rw [isText]
    rfl
  · rfl

theorem analysisFault?_abridged (kept : Kept bound value other) (isFunction : value.isFunction)
    (listed : (value.attr "body").isKind "BlockStatement" →
      ((value.attr "body").attr "body").isList) : analysisFault? other = none := by
  have body := body_abridged kept isFunction
  obtain ⟨kind, _, isKind⟩ := exists_kind?_of_isFunction isFunction
  have statements : (statementsOf other).findSome? statementFault? = none := by
    rw [List.findSome?_eq_none_iff]
    intro statement member
    obtain ⟨original, _, keptThere⟩ :=
      exists_mem_of_forall₂ (statementsOf_abridged kept isFunction) member
    exact statementFault?_abridged keptThere
  have candidates : (candidatesOf other).findSome? readFault? = none := by
    rw [List.findSome?_eq_none_iff]
    intro candidate member
    obtain ⟨original, _, keptThere⟩ :=
      exists_mem_of_forall₂ (candidatesOf_abridged kept isFunction) member
    exact readFault?_abridged keptThere
  unfold analysisFault?
  dsimp only
  rw [statements, candidates, attrFault?_abridged kept.abridged (isNode_of_kind? isKind),
    body.abridged.isKind (by decide) (by decide)]
  split
  · rename_i is
    rw [iterationFault?_of_isList
      (isList_abridged (body.abridged.attr is (by decide) "body") (listed is))]
    rfl
  · rfl

end Pass.Strings

end Unravel
