import Unravel.Proofs.Pass.Distinctness
import Unravel.Proofs.Renaming.Numbering
import Unravel.Proofs.Renaming.Walking
import Unravel.Proofs.Tree.Programs

/-!
Contract: renaming keeps variables apart and leaves them bound as they are.

The map of the option is restricted to targets that are identifiers, and stands for the
identity elsewhere (`spelling`). If it is injective on the names of the identifiers of a
program, names that are exchanged among each other included, the pass changes names and
nothing else of the binding structure (`renamed_bindings`).
-/

namespace Unravel.Pass.Renaming

open Value

/-! ## The map of the option -/

/-- The new name that an entry gives, if it is an identifier. -/
def validTarget? : Json → Option String
  | .text target => if Text.isIdentifier target then some target else none
  | _ => none

/-- The last entry of a name with a valid target says how the name is spelled. -/
def spelling (entries : Members Json) (name : String) : String :=
  (entries.reverse.findSome? fun entry =>
    if entry.1 = name then validTarget? entry.2 else none).getD name

theorem exists_addRename (state : State) (old : String) {new : Json} {target : String}
    (isText : new = .text target) :
    ∃ after, state.addRename old new = .ok after ∧ ∀ name, Members.get? after.renames name =
      (if old = name then validTarget? new else none).or (Members.get? state.renames name) := by
  subst isText
  unfold State.addRename validTarget?
  dsimp only
  by_cases valid : Text.isIdentifier target
  · rw [if_pos valid]
    refine ⟨_, rfl, fun name => ?_⟩
    rw [Members.get?_put]
    split <;> rfl
  · rw [if_neg valid]
    refine ⟨_, rfl, fun name => ?_⟩
    split <;> rfl

variable {entries : Members Json}

theorem exists_renames (texts : ∀ entry ∈ entries, ∃ target, entry.2 = .text target) (state : State)
    : ∃ after, entries.foldlM (fun state entry => state.addRename entry.1 entry.2) state = .ok after
    ∧ ∀ name, Members.get? after.renames name = (entries.reverse.findSome? fun entry => if entry.1 =
    name then validTarget? entry.2 else none).or (Members.get? state.renames name) := by
  induction entries generalizing state with
  | nil => exact ⟨state, rfl, fun _ => rfl⟩
  | cons entry rest ih =>
    obtain ⟨target, isText⟩ := texts entry List.mem_cons_self
    obtain ⟨middle, added, first⟩ := exists_addRename state entry.1 isText
    obtain ⟨after, folded, others⟩ :=
      ih (fun other member => texts other (List.mem_cons_of_mem _ member)) middle
    refine ⟨after, ?_, fun name => ?_⟩
    · rw [List.foldlM_cons, added]
      exact folded
    · rw [others, first, List.reverse_cons, List.findSome?_append, Option.or_assoc,
        List.findSome?_singleton]

variable {options : Options}

theorem exists_initial (read : renameEntries options = .ok entries) (texts : ∀ entry ∈ entries, ∃
    target, entry.2 = .text target) : ∃ state, State.initial options = .ok state ∧ spellingBy
    state.renames = spelling entries := by
  obtain ⟨state, folded, names⟩ := exists_renames texts ⟨.empty, [], 0⟩
  refine ⟨state, ?_, funext fun name => ?_⟩
  · rw [State.initial, read]
    exact folded
  · rw [spellingBy, spelling, names, show Members.get? ([] : Members String) name = none from rfl,
      Option.or_none]

/-! ## Programs -/

/-- Renaming over a well-formed program ends when it may visit enough, and where it ends,
the variables are spelled as the map says. -/
theorem respelled_apply {document : Document} (wellFormed : document.tree.WellFormed) (named :
    document.tree.Everywhere NamedOnce) (read : renameEntries options = .ok entries) (texts : ∀
    entry ∈ entries, ∃ target, entry.2 = .text target) : (∃ bound, ∀ limit, bound ≤ limit → ∃
    metadata, (plugin.apply limit options document).result = .ok metadata) ∧ ∀ limit metadata,
    (plugin.apply limit options document).result = .ok metadata → ∃ state : State, spellingBy
    state.renames = spelling entries ∧ Respelled (bookOf state.renames) false document.tree
    (plugin.apply limit options document).document.tree := by
  obtain ⟨state, started, isSpelling⟩ := exists_initial read texts
  obtain ⟨bound, after, ends, respelled⟩ := exists_start_respelled wellFormed named state
  have applies (limit : Nat) : plugin.apply limit options document = ⟨(Walk.start limit visitor
      document state).2.document, (Walk.start limit visitor document state).2.log, (Walk.start limit
      visitor document state).1.map fun _ =>
          (Walk.start limit visitor document state).2.state.metadata⟩ := by
    rw [plugin, Plugin.ofVisitor]
    dsimp only
    rw [started]
  refine ⟨⟨bound, fun limit most => ⟨_, by rw [applies, ends limit most]; rfl⟩⟩, ?_⟩
  intro limit metadata succeeded
  -- with visits to spare, the walk has the same outcome
  have same : Walk.start limit visitor document state = (.ok (), after) := by
    have ended : Recursive.Ended (Walk.start limit visitor document state) := by
      rw [applies] at succeeded
      intro cut
      rw [cut] at succeeded
      cases succeeded
    rw [← Recursive.start_add_of_ended ended bound]
    exact ends _ (Nat.le_add_left bound limit)
  refine ⟨state, isSpelling, ?_⟩
  rw [applies, same]
  exact respelled

/-- Renaming over a well-formed program ends when it may visit enough, and where it ends,
names are bound as they were: if the map, restricted to valid targets and extended by the
identity, is injective on the names of the identifiers of the program, the binding structure is
the one it was with every name spelled anew. -/
theorem renamed_bindings {document : Document} (wellFormed : document.tree.WellFormed)
    (distinct : document.Distinct) {options : Options} {entries : Members Json}
    (read : renameEntries options = .ok entries)
    (texts : ∀ entry ∈ entries, ∃ target, entry.2 = .text target)
    (injective : ∀ name ∈ document.tree.identifierNames,
      ∀ other ∈ document.tree.identifierNames,
        spelling entries name = spelling entries other → name = other) :
    (∃ bound, ∀ limit, bound ≤ limit →
        ∃ metadata, (plugin.apply limit options document).result = .ok metadata) ∧
      ∀ limit metadata, (plugin.apply limit options document).result = .ok metadata →
        (plugin.apply limit options document).document.tree.bindingStructure =
          document.tree.bindingStructure.renamed (spelling entries) := by
  obtain ⟨ends, respells⟩ := respelled_apply wellFormed distinct.named read texts
  refine ⟨ends, fun limit metadata succeeded => ?_⟩
  obtain ⟨state, isSpelling, respelled⟩ := respells limit metadata succeeded
  have known : plugin ∈ all := by simp [all]
  rw [← isSpelling] at injective ⊢
  exact bindingStructure_respelled wellFormed.distinct (distinct_apply known limit options
    distinct).once respelled distinct.root wellFormed.shaped injective

theorem exists_metadata {outcome : PassOutcome} (isOk : outcome.result.isOk = true) :
    ∃ metadata, outcome.result = .ok metadata := by
  cases result : outcome.result with
  | ok metadata => exact ⟨metadata, rfl⟩
  | error fault =>
    rw [result] at isOk
    cases isOk

/-- `var b, a = {b}; function f(b) { a = a.b + b; }` -/
def crossedNames : Document where
  tree := .program [
    .declaration 1 [
      .declarator 2 (.identifier 3 "b") .null,
      .declarator 4 (.identifier 5 "a") (.node 6 "ObjectExpression" [("properties", .list [
        .node 7 "Property" [("shorthand", .bool true), ("computed", .bool false),
          ("key", .identifier 8 "b"), ("value", .identifier 9 "b")]])])],
    .function 10 (.identifier 11 "f") [.identifier 12 "b"] (.block 13 [
      .statement 14 (.assignment 15 (.identifier 16 "a") (.binary 17 "+"
        (.member 18 false (.identifier 19 "a") (.identifier 20 "b")) (.identifier 21 "b")))])]
  next := 22

/-- Two names exchanged, and a third that has no valid target. -/
def exchangedNames : Members Json := [("a", .text "b"), ("b", .text "a"), ("f", .text "1f")]

/-- The names of a property and of a member stay, and each variable is renamed once. -/
theorem renamed_bindings_crossedNames :
    let applied := plugin.apply 60 [("rename_map", .object exchangedNames)] crossedNames
    applied.document.tree.identifierNames = ["a", "b", "b", "a", "f", "a", "b", "b", "b", "a"] ∧
        applied.document.tree.bindingStructure = crossedNames.tree.bindingStructure.renamed
        (spelling exchangedNames) := by
  have distinct : crossedNames.Distinct := by
    refine ⟨rfl, ?_, by decide +kernel, by decide +kernel⟩
    simp [crossedNames, Value.Everywhere, Value.EverywhereItems, Value.EverywhereFields,
      Value.NamedOnce, Members.names]
  have wellFormed : crossedNames.tree.WellFormed := by decide +kernel
  have texts : ∀ entry ∈ exchangedNames, ∃ target, entry.2 = .text target := by
    simp [exchangedNames]
  have injective : ∀ name ∈ crossedNames.tree.identifierNames,
      ∀ other ∈ crossedNames.tree.identifierNames,
        spelling exchangedNames name = spelling exchangedNames other → name = other := by
    decide +kernel
  have read : renameEntries [("rename_map", .object exchangedNames)] = .ok exchangedNames := rfl
  obtain ⟨_, preserves⟩ := renamed_bindings wellFormed distinct read texts injective
  refine ⟨by decide +kernel, ?_⟩
  obtain ⟨metadata, succeeded⟩ := exists_metadata (by decide +kernel : (plugin.apply 60
    [("rename_map", .object exchangedNames)] crossedNames).result.isOk = true)
  exact preserves 60 metadata succeeded

end Unravel.Pass.Renaming
