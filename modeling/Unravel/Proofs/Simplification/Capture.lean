import Unravel.Proofs.Simplification.Independence
import Unravel.Proofs.Tree.Programs

/-!
Contract: the global names that computed arithmetic puts into a program.

Numbers that no literal spells are spelled by NaN and Infinity. The names are written
wherever such a number is computed, and a scope around the place may have them bound: the
walk does not ask the index. So an introduced name is captured exactly where a scope
around the expression that became it binds the name (`uncaptured_iff`).
-/

namespace Unravel

open Value

variable {value : Value} {name : String} {number : Double} {place address : Address}

namespace Value

theorem nameAt?_unlabelled (value : Value) (address : Address) :
    value.unlabelled.nameAt? address = value.nameAt? address := by
  induction address generalizing value with
  | nil => simp [nameAt?, identifierText?, isIdentifier, isKind, attr_unlabelled, text?_unlabelled]
  | cons slot rest ih =>
    rw [nameAt?, nameAt?, child?_unlabelled]
    cases value.child? slot with
    | none => rfl
    | some inner => exact ih inner

theorem nameAt?_of_evaluate (stands : value.evaluate = some number) (address : Address) :
    value.nameAt? address = none := by
  induction address generalizing value number with
  | nil =>
    obtain ⟨kind, listed, is⟩ := exists_kind?_of_evaluateWith stands
    refine identifierText?_of_other (isKind_eq_false is ?_)
    rintro rfl
    exact absurd listed (by decide)
  | cons slot rest ih =>
    cases found : value.child? slot with
    | none => rw [nameAt?, found, Option.bind_none]
    | some inner =>
      obtain ⟨_, isInner⟩ := exists_evaluate_of_child stands (mem_children_of_child? found)
      rw [nameAt?, found, Option.bind_some, ih isInner]

theorem exists_evaluate_of_along {node : Value} (stands : value.evaluate = some number)
    (member : node ∈ value.along address) : ∃ inner, node.evaluate = some inner := by
  induction address generalizing value number with
  | nil => exact ⟨number, List.mem_singleton.1 member ▸ stands⟩
  | cons slot rest ih =>
    rcases List.mem_cons.1 member with rfl | below
    · exact ⟨number, stands⟩
    · cases found : value.child? slot with
      | none =>
        rw [found] at below
        cases below
      | some inner =>
        rw [found] at below
        obtain ⟨_, isInner⟩ := exists_evaluate_of_child stands (mem_children_of_child? found)
        exact ih isInner below

theorem createsScope_of_evaluate (stands : value.evaluate = some number) :
    value.createsScope = false := by
  obtain ⟨kind, listed, is⟩ := exists_kind?_of_evaluateWith stands
  simp only [constantKinds, List.mem_cons, List.not_mem_nil, or_false] at listed
  rw [createsScope, scopeKind?, is]
  rcases listed with rfl | rfl | rfl <;> rfl

end Value

/-! ## Names of numbers -/

/-- The global name in the spelling of a number, and where it stands there. -/
def Double.global? : Double → Option (Address × String)
  | .nan => some ([], "NaN")
  | .infinite false => some ([], "Infinity")
  | .infinite true => some ([⟨"argument", none⟩], "Infinity")
  | .finite _ _ => none

namespace Value

variable {operand : Value}

theorem Magnitude.nameAt?_eq_some (magnitude : operand.Magnitude) : operand.nameAt? address = some
    name ↔ address = [] ∧ operand.identifierText? = some name := by
  cases address with
  | nil => simp [nameAt?]
  | cons slot rest => simp [nameAt?, child?, magnitude.childless]

theorem Magnitude.nameAt?_minus (magnitude : operand.Magnitude) : operand.minus.nameAt? address =
    some name ↔ address = [⟨"argument", none⟩] ∧ operand.identifierText? = some name := by
  have child {slot : Slot} {inner : Value} : operand.minus.child? slot = some inner ↔
      slot = ⟨"argument", none⟩ ∧ inner = operand := by
    rw [child?_eq_some]
    constructor
    · rintro ⟨listed, held, _⟩
      obtain ⟨field, index⟩ := slot
      cases (List.mem_singleton.1 listed : field = "argument")
      cases index with
      | none => exact ⟨rfl, (slot?_attr rfl held).symm⟩
      | some position =>
        obtain ⟨items, isList, _⟩ := slot?_item rfl held
        have isOperand : operand.isNode := magnitude.isNode
        rw [show operand = .list items from isList] at isOperand
        cases isOperand
    · rintro ⟨rfl, rfl⟩
      exact ⟨List.mem_singleton_self _, rfl, magnitude.isNode⟩
  cases address with
  | nil => exact ⟨nofun, fun ⟨impossible, _⟩ => nomatch impossible⟩
  | cons slot rest => simp [nameAt?, Option.bind_eq_some_iff, child, magnitude.nameAt?_eq_some, and_assoc]

theorem nameAt?_numberNode : (bare (numberNode number)).nameAt? address = some name ↔
      number.global? = some (address, name) := by
  have spelled (within : Address) (text : String) :
      address = within ∧ some text = some name ↔ some (within, text) = some (address, name) := by
    simp [eq_comm]
  have unspelled (within : Address) : address = within ∧ none = some name ↔
      (none : Option (Address × String)) = some (address, name) := by simp
  cases number with
  | nan => exact (magnitude_identifier (.inr rfl)).nameAt?_eq_some.trans (spelled _ _)
  | infinite negative =>
    cases negative with
    | false => exact (magnitude_identifier (.inl rfl)).nameAt?_eq_some.trans (spelled _ _)
    | true => exact (magnitude_identifier (.inl rfl)).nameAt?_minus.trans (spelled _ _)
  | finite negative code =>
    cases negative with
    | false => exact (magnitude_literal code).nameAt?_eq_some.trans (unspelled _)
    | true => exact (magnitude_literal code).nameAt?_minus.trans (unspelled _)

end Value

/-! ## Names that are introduced -/

/-- An identifier that is not in the program. -/
def Introduces (before after : Value) (address : Address) (name : String) : Prop :=
  after.nameAt? address = some name ∧ before.nameAt? address ≠ some name

/-- A scope around a place binds the name, by the index of the program. -/
def Value.isCaptured (root : Value) (address : Address) (name : String) : Bool :=
  (root.along address).any fun node => node.createsScope &&
    ((ScopeIndex.build root).known? node).any fun scope =>
      ((ScopeIndex.build root).own? scope (.text name)).isSome

namespace Pass.Folding

/-- The number that the expression at an address folds to, if none around it folds. -/
def foldedAt? (value : Value) : Address → Option Double
  | [] => folded? value
  | slot :: rest =>
    if (folded? value).isSome then none
    else (value.child? slot).bind fun inner => foldedAt? inner rest

/-- An expression folds to a number that has a global name in its spelling, which comes
to stand at the address. -/
def SpelledAt (root : Value) (place address : Address) (name : String) : Prop :=
  ∃ number within, foldedAt? root place = some number ∧
    number.global? = some (within, name) ∧ address = place ++ within

theorem foldedAt?_cons {slot : Slot} {rest : Address} :
    foldedAt? value (slot :: rest) = some number ↔ folded? value = none ∧
      ∃ inner, value.child? slot = some inner ∧ foldedAt? inner rest = some number := by
  rw [foldedAt?]
  cases folded? value with
  | none => simp [Option.bind_eq_some_iff]
  | some other => simp

theorem foldedAt?_unlabelled (value : Value) (place : Address) :
    foldedAt? value.unlabelled place = foldedAt? value place := by
  induction place generalizing value with
  | nil => exact folded?_unlabelled value
  | cons slot rest ih =>
    rw [foldedAt?, foldedAt?, folded?_unlabelled, child?_unlabelled]
    cases value.child? slot with
    | none => rfl
    | some inner => simp only [Option.map_some, Option.bind_some, ih inner]

/-- A name in what a tree becomes was there before, or spells a number. -/
theorem nameAt?_of_result (isNode : value.isNode) (found : (result value).nameAt? address = some
    name) : value.nameAt? address = some name ∨ ∃ place, SpelledAt value place address name := by
  induction address generalizing value with
  | nil =>
    rcases result_cases value with ⟨number, folds, is⟩ | ⟨_, is⟩
    · rw [is, nameAt?_numberNode] at found
      exact .inr ⟨[], number, [], folds, found, rfl⟩
    · rw [is] at found
      have isIdentifier := (identifierText?_eq_some.1 found).1
      rw [Value.isIdentifier, isKind_mapChildren] at isIdentifier
      rw [mapChildren_of_leaf (kind?_of_isKind isIdentifier) rfl] at found
      exact .inl found
  | cons slot rest ih =>
    rcases result_cases value with ⟨number, folds, is⟩ | ⟨keeps, is⟩
    · rw [is, nameAt?_numberNode] at found
      exact .inr ⟨[], number, slot :: rest, folds, found, rfl⟩
    · rw [is, nameAt?, child?_mapChildren tame_result isNode, Option.bind_map] at found
      obtain ⟨inner, isInner, below⟩ := Option.bind_eq_some_iff.1 found
      obtain ⟨_, _, innerNode⟩ := child?_eq_some.1 isInner
      rcases ih innerNode below with kept | ⟨place, number, within, folds, named, rfl⟩
      · exact .inl (by rw [nameAt?, isInner, Option.bind_some, kept])
      · exact .inr ⟨slot :: place, number, within, foldedAt?_cons.2 ⟨keeps, inner, isInner, folds⟩,
          named, rfl⟩

section Spelled

variable (spelled : SpelledAt value place address name)

include spelled

/-- A name that spells a number is in what a tree becomes. -/
theorem SpelledAt.nameAt?_result (isNode : value.isNode) :
    (result value).nameAt? address = some name := by
  obtain ⟨number, within, folds, named, rfl⟩ := spelled
  induction place generalizing value with
  | nil =>
    rw [result_of_some folds]
    exact nameAt?_numberNode.2 named
  | cons slot rest ih =>
    obtain ⟨keeps, inner, isInner, below⟩ := foldedAt?_cons.1 folds
    obtain ⟨_, _, innerNode⟩ := child?_eq_some.1 isInner
    rw [result_of_none keeps, List.cons_append, nameAt?, child?_mapChildren tame_result isNode, isInner]
    exact ih innerNode below

theorem SpelledAt.nameAt? : value.nameAt? address = none := by
  obtain ⟨number, within, folds, _, rfl⟩ := spelled
  induction place generalizing value with
  | nil => exact nameAt?_of_evaluate (evaluate_of_folded? folds) within
  | cons slot rest ih =>
    obtain ⟨_, inner, isInner, below⟩ := foldedAt?_cons.1 folds
    rw [List.cons_append, Value.nameAt?, isInner, Option.bind_some, ih below]

/-- No scope is opened between the expression and the name that spells its number. -/
theorem SpelledAt.any_along {holds : Value → Bool}
    (opens : ∀ node, holds node = true → node.createsScope = true) :
    (value.along address).any holds = (value.along place).any holds := by
  obtain ⟨number, within, folds, _, rfl⟩ := spelled
  induction place generalizing value with
  | nil =>
    have closed (further : Address) : (value.along further).any holds = false := by
      rw [List.any_eq_false]
      intro node member held
      obtain ⟨_, stands⟩ := exists_evaluate_of_along (evaluate_of_folded? folds) member
      exact Bool.false_ne_true ((createsScope_of_evaluate stands).symm.trans (opens node held))
    rw [closed, closed]
  | cons slot rest ih =>
    obtain ⟨_, inner, isInner, below⟩ := foldedAt?_cons.1 folds
    simp only [List.cons_append, along, isInner, Option.map_some, Option.getD_some, List.any_cons,
      ih below]

end Spelled

/-- On every grammatical program and with visits enough, the pass succeeds. The names that
it introduces are those in the spellings of the numbers that outermost expressions fold
to, and none of them is captured exactly if none of these expressions stands where a
scope around it binds the name. -/
theorem uncaptured_iff {document : Document} (program : document.tree.isKind "Program" = true)
    (grammatical : document.tree.Grammatical) (options : Options) : ∃ bound, ∀ limit, bound ≤ limit
    → (∃ metadata, (plugin.apply limit options document).result = .ok metadata) ∧ (∀ address name,
    Introduces document.tree (plugin.apply limit options document).document.tree address name ↔ ∃
    place, SpelledAt document.tree place address name) ∧ ((∀ address name, Introduces document.tree
    (plugin.apply limit options document).document.tree address name → document.tree.isCaptured
    address name = false) ↔ ∀ place address name, SpelledAt document.tree place address name →
    document.tree.isCaptured place name = false) := by
  obtain ⟨bound, after, log, applies, becomes⟩ := exists_apply program grammatical options
  refine ⟨bound, fun limit most => ?_⟩
  rw [applies limit most]
  have isNode : document.tree.unlabelled.isNode := by
    rw [isNode_unlabelled]
    exact isNode_of_kind? (kind?_of_isKind program)
  have unlabelled {place address : Address} {name : String} : SpelledAt document.tree.unlabelled
      place address name ↔ SpelledAt document.tree place address name := by
    simp only [SpelledAt, foldedAt?_unlabelled]
  have introduces {address : Address} {name : String} : Introduces document.tree after.tree address
      name ↔ ∃ place, SpelledAt document.tree place address name := by
    rw [Introduces, ← nameAt?_unlabelled after.tree, becomes, ← nameAt?_unlabelled document.tree]
    simp only [← unlabelled]
    constructor
    · rintro ⟨found, new⟩
      exact (nameAt?_of_result isNode found).resolve_left new
    · rintro ⟨place, spelled⟩
      refine ⟨spelled.nameAt?_result isNode, ?_⟩
      rw [spelled.nameAt?]
      exact nofun
  have sameScopes {place address : Address} {name : String} (spelled : SpelledAt document.tree place
      address name) : document.tree.isCaptured address name = document.tree.isCaptured place name :=
      spelled.any_along fun _ holds => (Bool.and_eq_true_iff.1 holds).1
  refine ⟨⟨_, rfl⟩, fun _ _ => introduces, fun free place address name spelled => ?_,
    fun free address name new => ?_⟩
  · rw [← sameScopes spelled]
    exact free address name (introduces.2 ⟨place, spelled⟩)
  · obtain ⟨place, spelled⟩ := introduces.1 new
    rw [sameScopes spelled]
    exact free place address name spelled

/-- `function f(NaN) { return 0 / 0; }` -/
def boundGlobal : Document where
  tree := .program [
    .function 1 (.identifier 2 "f") [.identifier 3 "NaN"] (.block 4 [
      .returns 5 (.binary 6 "/" (.spelled 7 0 "0") (.spelled 8 0 "0"))])]
  next := 9

def boundGlobalPlace : Address :=
  [⟨"body", some 0⟩, ⟨"body", none⟩, ⟨"body", some 0⟩, ⟨"argument", none⟩]

/-- The quotient becomes the parameter. -/
theorem uncaptured_iff_boundGlobal : ∃ bound, ∀ limit, bound ≤ limit → ∃ address name, Introduces
    boundGlobal.tree (plugin.apply limit [] boundGlobal).document.tree address name ∧
    boundGlobal.tree.isCaptured address name = true := by
  have program : boundGlobal.tree.isKind "Program" = true := rfl
  have grammatical : boundGlobal.tree.Grammatical := by decide +kernel
  obtain ⟨bound, folds⟩ := uncaptured_iff program grammatical []
  have spelled : SpelledAt boundGlobal.tree boundGlobalPlace boundGlobalPlace "NaN" :=
    ⟨.nan, [], by decide +kernel, rfl, rfl⟩
  refine ⟨bound, fun limit most => ⟨boundGlobalPlace, "NaN", ?_, by decide +kernel⟩⟩
  exact ((folds limit most).2.1 _ _).2 ⟨_, spelled⟩

end Pass.Folding

end Unravel
