import Unravel.Proofs.Scope.Settling
import Unravel.Proofs.Scope.Visiting
import Unravel.Proofs.Scope.WellFormed
import Unravel.Proofs.Tree.Programs

/-!
Contract: the index of a well-formed program is its lexical scoping.

The survey of the tree finds the scopes, declarations and writes; settling the
writes turns declarations and writes into bindings.
-/

namespace Unravel

open Lexical

theorem Value.WellFormed.regular {root : Value} (wellFormed : root.WellFormed) : root.Regular where
  distinct := wellFormed.distinct
  bodies node member := (wellFormed.shaped node member).body

theorem Lexical.opens_of_program {root : Value} (program : root.isKind "Program") :
    opens root [] ∧ isWide root := by
  have kind : root.scopeKind? = some .program := by
    rw [Value.scopeKind?, Value.kind?_of_isKind program]
    rfl
  rw [opens, isWide, Value.createsScope, kind]
  exact ⟨rfl, rfl⟩

namespace Survey

theorem renders_empty : Survey.Renders ⟨.empty, []⟩ [] [] [] where
  opened := .nil
  distinct := List.nodup_nil
  owned _ member := absurd member List.not_mem_nil
  bound _ _ found := by cases found
  homes _ member := absurd member List.not_mem_nil
  written := .nil

theorem ready_program {root : Value} (program : root.isKind "Program") :
    Ready .empty root [] none := by
  have unowned : ∀ node : Value, node.label?.bind ScopeIndex.empty.owner? = none := by
    intro node
    cases node.label? <;> rfl
  obtain ⟨opens', isWide'⟩ := opens_of_program program
  refine ⟨.nil, ⟨root, ?_, isWide'⟩, .fresh rfl (unowned root), fun _ _ node _ => unowned node⟩
  rw [inForce, opens']
  exact List.mem_cons_self

theorem renders_program {root : Value} (wellFormed : root.WellFormed) : (visit root none ⟨.empty,
    []⟩).Renders (openings root) (declarations root) (Lexical.writes root) := (adds_visit root
    wellFormed.regular (ready_program wellFormed.program)).renders renders_empty

end Survey

namespace ScopeIndex

theorem Shows.of_headings {index : ScopeIndex} {opened : List Opening} (shows' : List.Forall₂
    index.Shows index.headings opened) : List.Forall₂ index.Shows index.scopes opened :=
    (List.forall₂_map_left_iff.1 shows').imp fun _ _ shows' =>
    ⟨shows'.label, shows'.opener, shows'.kind, shows'.enclosing⟩

/-- Building the index of a well-formed program meets no fault. Its scopes are
the lexical ones in document order, each with the scopes around it; a scope binds
a name as the declarations that belong to it and the writes that reach it say;
and the identifiers of a pattern are those it binds, in document order. -/
theorem build_lexical {root : Value} (wellFormed : root.WellFormed) : root.surveyFault? false = none
    ∧ List.Forall₂ (build root).Shows (build root).scopes (openings root) ∧ (∀ scope ∈ (build
    root).scopes, ∀ name, scope.own? name = binding? (declarations root) (writes root) scope.label
    name) ∧
      ∀ pattern : Value, pattern.patternIdentifiers.Sublist pattern.nodes ∧
        ∀ identifier, identifier ∈ pattern.patternIdentifiers ↔ pattern.Binds identifier := by
  have renders := Survey.renders_program wellFormed
  obtain ⟨headings, binds⟩ := Survey.settled renders.bound renders.distinct renders.written
  have grows := Extends.of_headings headings
  refine ⟨wellFormed.surveyFault?, ?_, ?_, fun pattern =>
    ⟨pattern.patternIdentifiers_sublist, fun identifier =>
      ⟨pattern.binds_of_mem, Value.mem_of_binds⟩⟩⟩
  · apply Shows.of_headings
    have shown := renders.opened.imp fun _ _ shows' => shows'.extends grows
    rw [← headings] at shown
    exact shown
  · intro scope member
    obtain ⟨number, found⟩ := List.mem_iff_getElem?.1 member
    exact binds found

/-- A function with a parameter pattern, whose variable `x` is declared in a
block that has an `x` of its own: the assignment in the block reaches the inner
one, and the update after it the outer one. -/
def shadowing : Value :=
  .program [
    .function 1 (.identifier 2 "f")
      [.node 3 "ArrayPattern" [("elements", .list [.null, .identifier 4 "y"])]] (.block 5 [
      .block 6 [
        .declaration 7 [.declarator 8 (.identifier 9 "x") .null],
        .node 10 "VariableDeclaration" [("kind", .text "let"),
          ("declarations", .list [.declarator 11 (.identifier 12 "x") .null])],
        .statement 13 (.assignment 14 (.identifier 15 "x") (.identifier 16 "y"))],
      .statement 17 (.node 18 "UpdateExpression" [("operator", .text "++"),
        ("argument", .identifier 19 "x")])])]

theorem build_lexical_shadowing : shadowing.WellFormed ∧ (openings shadowing).map Opening.label =
    [0, 1, 6] ∧ ((binding? (declarations shadowing) (writes shadowing) 1 (.text "x")).map
    Binding.violations = some [18]) ∧ ((binding? (declarations shadowing) (writes shadowing) 6
    (.text "x")).map Binding.violations = some [14]) ∧ List.Forall₂ (build shadowing).Shows (build
    shadowing).scopes (openings shadowing) ∧ ∀ scope ∈ (build shadowing).scopes, ∀ name, scope.own?
    name = binding? (declarations shadowing) (writes shadowing) scope.label name := by
  have wellFormed : shadowing.WellFormed := by decide +kernel
  obtain ⟨_, scopes, bindings, _⟩ := build_lexical wellFormed
  refine ⟨wellFormed, ?_, ?_, ?_, scopes, bindings⟩
  · with_unfolding_all rfl
  · with_unfolding_all rfl
  · with_unfolding_all rfl

end ScopeIndex

end Unravel
