import Unravel.Pipeline.Report
import Unravel.Proofs.Simplification.Collapsing
import Unravel.Proofs.Simplification.Computing
import Unravel.Proofs.Tree.Programs

/-!
Contract: the simplifiers do not see each other.

Neither the tree nor what the two passes report depends on which of them runs first
(`simplifiers_independent`). Each pass takes a grammatical program to what `result`
makes of it and counts what there is to count; the results commute, and what one
pass counts the other keeps.
-/

namespace Unravel.Pass

open Value

variable {document : Document}

/-- A grammatical program is one after its constant expressions have been rewritten. -/
theorem program_of_simplifies {choose : Value → Option Value} (simplifies : Simplifies choose)
    (keeps : ∀ value : Value, value.kind? = some "Program" → choose value = none)
    (program : document.tree.isKind "Program") (grammatical : document.tree.Grammatical)
    {after : Value} (becomes : after.unlabelled = document.tree.unlabelled.rewritten choose) :
    after.isKind "Program" ∧ after.Grammatical := by
  have is : document.tree.unlabelled.kind? = some "Program" := by
    rw [kind?_unlabelled, kind?_of_isKind program]
  constructor
  · rw [← isKind_unlabelled, becomes, rewritten_of_none (keeps _ is), isKind_mapChildren,
      isKind_unlabelled, program]
  · rw [← grammatical_unlabelled, becomes]
    exact simplifies.grammatical (isNode_of_kind? is) (grammatical_unlabelled.2 grammatical)

/-- What is reported of the numbers in a tree. -/
def Folding.report (value : Value) : Metadata :=
  ((events value).foldl State.count ⟨.empty, 0, 0⟩).metadata

/-- What is reported of the texts in a tree. -/
def Concatenation.report (value : Value) : Metadata :=
  (State.add ⟨.empty, 0⟩ (joints value)).metadata

theorem Folding.exists_apply_within (program : document.tree.isKind "Program") {room : Option Nat}
    (ready : Ready room document.tree) (options : Options) : ∃ bound after log,
      (∀ limit, bound ≤ limit → (pluginWithin room).apply limit options document =
        ⟨after, log, .ok (report document.tree.unlabelled)⟩) ∧
      after.tree.unlabelled = result document.tree.unlabelled := by
  obtain ⟨bound, after, starts, becomes, counted⟩ := exists_start program ready ⟨.empty, 0, 0⟩
  refine ⟨bound, after.document, after.log, fun limit most => ?_, becomes⟩
  simp only [pluginWithin, Plugin.ofVisitor, starts limit most, report, ← counted]
  rfl

section Runs

variable (program : document.tree.isKind "Program") (grammatical : document.tree.Grammatical)
  (options : Options)

include program grammatical options

theorem Folding.exists_apply : ∃ bound after log, (∀ limit, bound ≤ limit → plugin.apply limit
    options document = ⟨after, log, .ok (report document.tree.unlabelled)⟩) ∧ after.tree.unlabelled
    = result document.tree.unlabelled := by
  exact exists_apply_within program ⟨grammatical, by simp [Exhausts]⟩ options

theorem Concatenation.exists_apply : ∃ bound after log, (∀ limit, bound ≤ limit → plugin.apply limit
    options document = ⟨after, log, .ok (report document.tree.unlabelled)⟩) ∧ after.tree.unlabelled
    = result document.tree.unlabelled := by
  obtain ⟨bound, after, starts, becomes, counted⟩ := exists_start program grammatical ⟨.empty, 0⟩
  refine ⟨bound, after.document, after.log, fun limit most => ?_, becomes⟩
  simp only [plugin, Plugin.ofVisitor, starts limit most, report, ← counted]
  rfl

end Runs

/-- On every grammatical program and with visits enough, computing numbers and then
joining texts leaves the same tree as joining texts and then computing numbers, and
each pass reports the same in either order. -/
theorem simplifiers_independent (program : document.tree.isKind "Program" = true)
    (grammatical : document.tree.Grammatical) (ofNumbers ofTexts : Options) :
    ∃ numbers texts bound, ∀ limit, bound ≤ limit →
      let folded := Folding.plugin.apply limit ofNumbers document
      let foldedThenJoined := Concatenation.plugin.apply limit ofTexts folded.document
      let joined := Concatenation.plugin.apply limit ofTexts document
      let joinedThenFolded := Folding.plugin.apply limit ofNumbers joined.document
      folded.result = .ok numbers ∧ joinedThenFolded.result = .ok numbers ∧
        joined.result = .ok texts ∧ foldedThenJoined.result = .ok texts ∧
        foldedThenJoined.document.tree.Twins joinedThenFolded.document.tree := by
  obtain ⟨first, folded, _, folds, isFolded⟩ := Folding.exists_apply program grammatical ofNumbers
  obtain ⟨second, joined, _, joins, isJoined⟩ :=
    Concatenation.exists_apply program grammatical ofTexts
  obtain ⟨programFolded, grammaticalFolded⟩ := program_of_simplifies Folding.simplifies
    (fun value is => by rw [Folding.exchange?, Folding.folded?_of_other (by rw [is]; decide)]; rfl)
    program grammatical isFolded
  obtain ⟨programJoined, grammaticalJoined⟩ := program_of_simplifies Concatenation.simplifies
    (fun value is => by
      rw [Concatenation.exchange?, concatenation?_of_leaves?
        (leaves?_of_other (by rw [is]; decide) (by rw [is]; decide))]
      rfl)
    program grammatical isJoined
  obtain ⟨third, foldedThenJoined, _, joinsAfter, isFoldedThenJoined⟩ :=
    Concatenation.exists_apply programFolded grammaticalFolded ofTexts
  obtain ⟨fourth, joinedThenFolded, _, foldsAfter, isJoinedThenFolded⟩ :=
    Folding.exists_apply programJoined grammaticalJoined ofNumbers
  have sameTexts : Concatenation.report folded.tree.unlabelled =
      Concatenation.report document.tree.unlabelled := by
    rw [isFolded, Concatenation.report, Concatenation.joints_folded, Concatenation.report]
  have sameNumbers : Folding.report joined.tree.unlabelled =
      Folding.report document.tree.unlabelled := by
    rw [isJoined, Folding.report, Folding.events_joined, Folding.report]
  refine ⟨Folding.report document.tree.unlabelled,
    Concatenation.report document.tree.unlabelled, max (max first second) (max third fourth), fun limit most => ?_⟩
  simp only [Nat.max_le] at most
  obtain ⟨⟨mostFirst, mostSecond⟩, mostThird, mostFourth⟩ := most
  simp only [folds limit mostFirst, joins limit mostSecond, joinsAfter limit mostThird,
    foldsAfter limit mostFourth, sameTexts, sameNumbers, true_and]
  rw [Twins, isFoldedThenJoined, isJoinedThenFolded, isFolded, isJoined, result_comm]

/-- `x = 0x10 + 1; y = "a" + ("b" + "c") + -(1 + 2); f(0x10);` -/
def mixedConstants : Document where
  tree := .program [
    .statement 1 (.assignment 2 (.identifier 3 "x")
      (.binary 4 "+" (.spelled 5 16 "0x10") (.spelled 6 1 "1"))),
    .statement 7 (.assignment 8 (.identifier 9 "y") (.binary 10 "+"
      (.binary 11 "+" (.string 12 "a") (.binary 13 "+" (.string 14 "b") (.string 15 "c")))
      (.node 16 "UnaryExpression" [("operator", .text "-"), ("prefix", .bool true),
        ("argument", .binary 17 "+" (.integer 18 1) (.integer 19 2))]))),
    .statement 20 (.call 21 (.identifier 22 "f") [.spelled 23 16 "0x10"])]
  next := 24

/-- Three numbers are computed and two pairs of texts joined, in either order. -/
theorem simplifiers_independent_mixedConstants : mixedConstants.tree.isKind "Program" = true ∧
    mixedConstants.tree.Grammatical ∧ (Folding.plugin.apply 90 []
    mixedConstants).result.toOption.map (Report.count · "changes") = some 3 ∧
    (Concatenation.plugin.apply 90 [] mixedConstants).result.toOption.map (Report.count · "changes")
    = some 2 ∧ ∃ numbers texts bound, ∀ limit, bound ≤ limit →
        let folded := Folding.plugin.apply limit [] mixedConstants
        let foldedThenJoined := Concatenation.plugin.apply limit [] folded.document
        let joined := Concatenation.plugin.apply limit [] mixedConstants
        let joinedThenFolded := Folding.plugin.apply limit [] joined.document
        folded.result = .ok numbers ∧ joinedThenFolded.result = .ok numbers ∧
          joined.result = .ok texts ∧ foldedThenJoined.result = .ok texts ∧
          foldedThenJoined.document.tree.Twins joinedThenFolded.document.tree := by
  have program : mixedConstants.tree.isKind "Program" = true := rfl
  have grammatical : mixedConstants.tree.Grammatical := by decide +kernel
  exact ⟨program, grammatical, by decide +kernel, by decide +kernel,
    simplifiers_independent program grammatical [] []⟩

end Unravel.Pass
