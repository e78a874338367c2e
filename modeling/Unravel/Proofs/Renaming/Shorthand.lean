import Unravel.Proofs.Renaming.Places

/-!
Contract: shorthand properties and the keys that they stand for.

A property that is marked as shorthand is written by its key alone, so the variable it
reads or writes has the name of the key. Renaming takes the mark away where an identifier
directly in the property is renamed. The variable of a default stands one level deeper:
there the mark is left, and the key no longer has the name of the variable
(`shorthandKeyed_iff`).
-/

namespace Unravel

open Value Pass.Renaming

namespace Value

/-- The variable of a shorthand property, without its default. -/
def shorthandTarget (property : Value) : Value :=
  if (property.attr "value").isKind "AssignmentPattern" then (property.attr "value").attr "left"
  else property.attr "value"

/-- The key is an identifier, and so is the variable, with the same name. -/
def isKeyedAlike (property : Value) : Bool := (property.attr "key").identifierText?.isSome &&
  (property.attr "key").identifierText? == property.shorthandTarget.identifierText?

/-- Every property that is marked as shorthand has the name of its variable for its key. -/
def ShorthandKeyed (tree : Value) : Prop :=
  ∀ property ∈ tree.nodes, property.isKind "Property" = true →
    (property.attr "shorthand").truthy = true → property.isKeyedAlike = true

/-- A shorthand property whose variable has a default, as in `{e = 1}`. -/
def isDefaulted (property : Value) : Bool :=
  property.isKind "Property" && (property.attr "shorthand").truthy &&
    !(property.attr "computed").truthy && (property.attr "value").isKind "AssignmentPattern"

variable {property : Value}

theorem isPropertyName_of_property (is : property.isKind "Property") (field : String) :
    isPropertyName property (some field) =
      (field == "key" && !(property.attr "computed").truthy) := by
  rw [isPropertyName, isKind_eq_false (kind?_of_isKind is) (by decide), is]
  simp

/-- Identifiers directly in a property that has a default stay as they are. -/
theorem stays_of_isDefaulted (defaulted : property.isDefaulted) (spelling : String → String)
    {slot : Slot} (member : slot ∈ property.childSlots) : property.Stays spelling slot := by
  simp only [isDefaulted, Bool.and_eq_true, Bool.not_eq_true'] at defaulted
  obtain ⟨⟨⟨is, _⟩, plain⟩, isPattern⟩ := defaulted
  have field := (mem_childSlots.1 member).1
  rw [childFields_of_kind (kind?_of_isKind is) rfl] at field
  intro child held isIdentifier isVariable
  obtain ⟨name, index⟩ := slot
  simp only [List.mem_cons, List.not_mem_nil, or_false] at field
  rcases field with rfl | rfl
  · rw [isPropertyName_of_property is, plain] at isVariable
    cases isVariable
  · cases index with
    | none =>
      rw [slot?_attr rfl held] at isPattern
      exact absurd isPattern (by
        rw [isKind_eq_false (kind?_of_isKind isIdentifier) (by decide)]
        exact Bool.false_ne_true)
    | some position =>
      obtain ⟨items, isList, _⟩ := slot?_item rfl held
      rw [isList] at isPattern
      cases isPattern

end Value

variable {book : Dictionary} {kept : Bool} {value new : Value} {text : String}

theorem Dictionary.Searched.identifierText? (searched : book.Searched value new) :
    new.identifierText? = value.identifierText?.map book.spelling := by
  rcases searched with related | ⟨no, noNew⟩
  · exact related.identifierText?
  · rw [identifierText?_of_not_isNode no, identifierText?_of_not_isNode noNew, Option.map_none]

namespace Respelled

/-- The variable of a property is respelled, with or without a default. -/
theorem searched_shorthandTarget (respelled : Respelled book kept value new)
    (is : value.isKind "Property") : book.Searched value.shorthandTarget new.shorthandTarget := by
  have whole := Dictionary.searched_attr respelled (kind?_of_isKind is) rfl (by decide)
    (isPropertyName_of_property is "value")
  unfold shorthandTarget
  rcases whole with related | ⟨no, noNew⟩
  · rw [related.isKind]
    split
    · rename_i isPattern
      exact Dictionary.searched_attr_of_plain related (kind?_of_isKind isPattern) rfl (by decide)
        (by decide)
    · exact .inl related
  · have other {held : Value} (no : held.isNode = false) :
        held.isKind "AssignmentPattern" = false := by
      rw [Value.isKind, kind?_of_not_isNode no]
      rfl
    rw [other no, other noNew]
    exact .inr ⟨no, noNew⟩

/-- A property that is marked has the name of its variable for its key after renaming,
unless a default keeps the variable out of sight. -/
theorem isKeyedAlike_iff (respelled : Respelled book kept value new) (is : value.isKind "Property")
    (marked : (value.attr "shorthand").truthy) (key : (value.attr "key").identifierText? = some
    text) (target : value.shorthandTarget.identifierText? = some text) : ((new.attr
    "shorthand").truthy = true → new.isKeyedAlike = true) ↔ (value.isDefaulted = true →
    book.spelling text = text) := by
  have isKind := kind?_of_isKind is
  have isNode := isNode_of_kind? isKind
  have other : value.isIdentifier = false := isKind_eq_false isKind (by decide)
  have marks := (respelled.alike isNode other).marked is
  have keyed : new.isKeyedAlike = true ↔
      (if !(value.attr "computed").truthy then text else book.spelling text) =
        book.spelling text := by
    have isKey := isNode_of_kind? (kind?_of_isKind (identifierText?_eq_some.1 key).1)
    have related := respelled.attr isNode other (mem_childFields is rfl (by decide : "key" ∈ _))
      (by cases held : value.attr "key" <;> rw [held] at isKey <;> first | rfl | cases isKey)
    rw [isPropertyName_of_property is] at related
    rw [isKeyedAlike, related.identifierText?, key,
      (respelled.searched_shorthandTarget is).identifierText?, target]
    simp
  rw [keyed]
  constructor
  · intro keyed defaulted
    have stillMarked := marks.2 ⟨marked, fun _ => stays_of_isDefaulted defaulted book.spelling⟩
    have same := keyed stillMarked
    simp only [isDefaulted, Bool.and_eq_true] at defaulted
    rw [if_pos defaulted.1.2] at same
    exact same.symm
  · intro stays stillMarked
    obtain ⟨_, steady⟩ := marks.1 stillMarked
    cases computed : (value.attr "computed").truthy with
    | true => rfl
    | false =>
      refine Eq.symm ?_
      cases isPattern : (value.attr "value").isKind "AssignmentPattern" with
      | true => exact stays (by simp [isDefaulted, is, marked, computed, isPattern])
      | false =>
        -- the variable stands in the property itself, which would have lost its mark
        rw [shorthandTarget, isPattern] at target
        obtain ⟨isIdentifier, isName⟩ := identifierText?_eq_some.1 target
        have held := slot?_attr_of_isNode (isNode_of_kind? (kind?_of_isKind isIdentifier))
        exact steady _ (mem_childSlots_of_slot? (mem_childFields is rfl (by decide)) held
          (isNode_of_kind? (kind?_of_isKind isIdentifier))) _ held isIdentifier
          (isPropertyName_of_property is "value") text isName

end Respelled

namespace Pass.Renaming

theorem forall_mem_congr {α β : Type} {first : α → Prop} {second : β → Prop} {items : List α}
    {others : List β} (alike : List.Forall₂ (fun item other => second other ↔ first item) items
    others) : (∀ other ∈ others, second other) ↔ ∀ item ∈ items, first item := by
  induction alike with
  | nil => simp
  | cons here _ ih => simp [here, ih]

/-- In a program whose shorthand properties have the names of their variables for keys,
they have them again after renaming exactly if the map moves the key of none that has a
default. -/
theorem shorthandKeyed_iff {document : Document} (wellFormed : document.tree.WellFormed)
    (named : document.tree.Everywhere NamedOnce) (keyed : document.tree.ShorthandKeyed)
    {options : Options} {entries : Members Json} (read : renameEntries options = .ok entries)
    (texts : ∀ entry ∈ entries, ∃ target, entry.2 = .text target) :
    (∃ bound, ∀ limit, bound ≤ limit →
        ∃ metadata, (plugin.apply limit options document).result = .ok metadata) ∧
      ∀ limit metadata, (plugin.apply limit options document).result = .ok metadata →
        ((plugin.apply limit options document).document.tree.ShorthandKeyed ↔
          ∀ property ∈ document.tree.nodes, property.isDefaulted = true → ∀ name, (property.attr
            "key").identifierText? = some name → spelling entries name = name) := by
  obtain ⟨ends, respells⟩ := respelled_apply wellFormed named read texts
  refine ⟨ends, fun limit metadata succeeded => ?_⟩
  obtain ⟨state, isSpelling, respelled⟩ := respells limit metadata succeeded
  have isNode := isNode_of_kind? (kind?_of_isKind wellFormed.program)
  rw [← isSpelling]
  refine forall_mem_congr (((List.forall₂_and_left _ _).2
    ⟨fun _ member => member, respelled.nodes isNode⟩).imp ?_)
  rintro property become ⟨member, kept, related⟩
  rw [related.isKind]
  cases is : property.isKind "Property" with
  | false => simp [isDefaulted, is]
  | true =>
    have isKind := kind?_of_isKind is
    cases marked : (property.attr "shorthand").truthy with
    | false =>
      have other : property.isIdentifier = false := isKind_eq_false isKind (by decide)
      have marks := (related.alike (isNode_of_kind? isKind) other).marked is
      simp [isDefaulted, marked, marks]
    | true =>
      obtain ⟨isSome, same⟩ := Bool.and_eq_true_iff.1 (keyed property member is marked)
      obtain ⟨text, key⟩ := Option.isSome_iff_exists.1 isSome
      have target := (beq_iff_eq.1 same).symm.trans key
      simp only [key, Option.some.injEq, forall_eq', forall_true_left]
      exact related.isKeyedAlike_iff is marked key target

/-- The default `{e = 1}` is marked as before, but no longer sets what it is named for. -/
theorem shorthandKeyed_iff_defaultedKey : defaultedKey.tree.ShorthandKeyed ∧ ¬(plugin.apply 60
    [("rename_map", .object defaultedNames)] defaultedKey).document.tree.ShorthandKeyed := by
  have keyed : defaultedKey.tree.ShorthandKeyed := by
    unfold ShorthandKeyed
    decide +kernel
  obtain ⟨wellFormed, named⟩ := wellFormed_defaultedKey
  obtain ⟨_, keeps⟩ := shorthandKeyed_iff wellFormed named keyed (show renameEntries [("rename_map",
    .object defaultedNames)] = .ok defaultedNames from rfl) (by simp [defaultedNames])
  obtain ⟨metadata, succeeded⟩ := exists_metadata (by decide +kernel :
    (plugin.apply 60 [("rename_map", .object defaultedNames)] defaultedKey).result.isOk = true)
  refine ⟨keyed, fun still => ?_⟩
  have moved : ¬∀ property ∈ defaultedKey.tree.nodes, property.isDefaulted = true →
      (property.attr "key").identifierText? ≠ some "e" := by decide +kernel
  exact moved fun property member defaulted isName =>
    absurd ((keeps 60 metadata succeeded).1 still property member defaulted "e" isName) (by decide)

end Pass.Renaming

end Unravel
