import Unravel.Proofs.Inlining.Safety
import Unravel.Proofs.Renaming.Preservation
import Unravel.Proofs.Renaming.Safety
import Unravel.Proofs.Simplification.Refusals
import Unravel.Proofs.Strings.Safety
import Unravel.Proofs.Tree.Programs

/-!
Contract: no pass fails on a well-formed program.

A proper document is a program whose attributes hold what the grammar says; what
literals hold is left open. With options of the documented types every pass gives
metadata and a proper document again, unless its walk is cut off. Faults of sorts,
of table positions and of a replaced root do not come up, and every refusal in
arithmetic has an answer (`passes_never_fail`).
-/

namespace Unravel

/-! ## Options -/

namespace Json

def isText : Json → Bool
  | .text _ => true
  | _ => false

/-- Null, or a list of texts. -/
def isTextList : Json → Bool
  | .null => true
  | .list items => items.all isText
  | _ => false

/-- Null, or an object with texts. -/
def isTextMap : Json → Bool
  | .null => true
  | .object members => members.all fun member => member.2.isText
  | _ => false

def isInteger : Json → Bool
  | .number (.integer _) => true
  | _ => false

end Json

/-- The settings that passes read are of the documented types, where they are
given. Any value is a name and any value is true or false, so nothing is asked of
the name of the rotated table and of the setting for shifted letters. -/
structure Options.Documented (options : Options) : Prop where
  helpers : (Options.setting options "inline_functions").isTextList = true
  rotation : ((Members.get? options "array_rotation").getD
    (.ofInt Pass.Strings.rotation)).isInteger = true
  renames : (Options.setting options "rename_map").isTextMap = true

instance : DecidablePred Options.Documented := fun _ =>
  decidable_of_iff (_ ∧ _ ∧ _) ⟨fun ⟨helpers, rotation, renames⟩ => ⟨helpers, rotation, renames⟩,
    fun documented => ⟨documented.helpers, documented.rotation, documented.renames⟩⟩

namespace Pass

open Walk

variable {options : Options} {document : Document}

theorem Inlining.exists_namesOf {items : List Json} (texts : items.all Json.isText) :
    ∃ names, Inlining.namesOf items = .ok names := by
  induction items with
  | nil => exact ⟨[], rfl⟩
  | cons item rest ih =>
    obtain ⟨isText, others⟩ := Bool.and_eq_true_iff.1 texts
    obtain ⟨names, are⟩ := ih others
    cases item with
    | text value => exact ⟨.text value :: names, by rw [Inlining.namesOf, are]; rfl⟩
    | null | bool _ | number _ | list _ | object _ => cases isText

theorem Inlining.exists_initial (proper : document.Proper)
    (documented : Options.Documented options) :
    ∃ state, Inlining.State.initial options = .ok state ∧ Inlining.Fit document state := by
  have tracks : ∃ tracked,
      Inlining.trackedNames (Options.setting options "inline_functions") = .ok tracked := by
    have isTextList := documented.helpers
    cases held : Options.setting options "inline_functions" with
    | null => exact ⟨_, rfl⟩
    | list items =>
      rw [held] at isTextList
      exact Inlining.exists_namesOf isTextList
    | bool _ | number _ | text _ | object _ =>
      rw [held] at isTextList
      cases isTextList
  obtain ⟨tracked, are⟩ := tracks
  refine ⟨⟨.empty, [], tracked, [], 0⟩, ?_, List.forall_mem_nil _,
    proper.labelled.mono fun object inside => ?_⟩
  rotate_left
  · rcases Inlining.mem_stock.1 inside with inTree | ⟨_, member, _⟩
    · exact inTree
    · cases member
  unfold Inlining.State.initial
  rw [show (Members.get? options "inline_functions").getD .null =
    Options.setting options "inline_functions" from rfl, are]
  rfl

theorem Renaming.exists_entries (documented : Options.Documented options) :
    ∃ entries, Renaming.renameEntries options = .ok entries ∧
      ∀ entry ∈ entries, ∃ target, entry.2 = .text target := by
  have isTextMap := documented.renames
  unfold Renaming.renameEntries
  rw [show (Members.get? options "rename_map").getD .null =
    Options.setting options "rename_map" from rfl]
  cases held : Options.setting options "rename_map" with
  | null => exact ⟨[], rfl, List.forall_mem_nil _⟩
  | object entries =>
    rw [held] at isTextMap
    refine ⟨entries, rfl, fun entry member => ?_⟩
    have isText := List.all_eq_true.1 isTextMap entry member
    cases given : entry.2 with
    | text target => exact ⟨target, rfl⟩
    | null | bool _ | number _ | list _ | object _ =>
      rw [given] at isText
      cases isText
  | bool _ | number _ | text _ | list _ =>
    rw [held] at isTextMap
    cases isTextMap

theorem Strings.rotates_of_documented (documented : Options.Documented options) :
    Strings.Rotates options := by
  have isInteger := documented.rotation
  unfold Strings.Rotates
  cases held : (Members.get? options "array_rotation").getD (.ofInt Strings.rotation) with
  | number numeral =>
    cases numeral with
    | integer count => exact ⟨count, rfl⟩
    | double _ =>
      rw [held] at isInteger
      cases isInteger
  | null | bool _ | text _ | list _ | object _ =>
    rw [held] at isInteger
    cases isInteger

/-! ## All passes -/

/-- The outcome is metadata with a proper document, unless the walk was cut off. -/
def Succeeds (outcome : PassOutcome) : Prop := outcome.document.Proper ∧ ((∃ metadata,
  outcome.result = .ok metadata) ∨ outcome.result = .error .stepLimit)

theorem succeeds_ofVisitor {σ : Type} {name : String} {initial : Options → Except Fault σ}
    {visitor : Nat → Visitor σ} {metadata : σ → Metadata} {fit : Document → σ → Prop}
    (harmless : ∀ limit, Harmless fit (visitor limit)) (proper : document.Proper)
    (starts : ∃ state, initial options = .ok state ∧ fit document state) (limit : Nat) :
    Succeeds ((Plugin.ofVisitor name initial visitor metadata).apply limit options document) := by
  obtain ⟨state, started, fits⟩ := starts
  obtain ⟨ended, settled⟩ := safe_start (harmless limit) limit proper fits
  unfold Plugin.ofVisitor
  dsimp only
  rw [started]
  refine ⟨settled.proper, ?_⟩
  dsimp only
  rcases ended with ends | cut
  · rw [ends]
    exact .inl ⟨_, rfl⟩
  · rw [cut]
    exact .inr rfl

/-- With documented options every pass turns a proper document into a proper one
and gives metadata, unless its walk is cut off. In the arithmetic of the passes
all refusals of an operator or of the reading of a literal are answered. -/
theorem passes_never_fail (proper : document.Proper) (documented : Options.Documented options) :
    (∀ plugin ∈ all, ∀ limit, Succeeds (plugin.apply limit options document)) ∧
      ∀ value : Value, value.evaluation = .ok value.evaluate ∧ value.reading = .ok value.double? := by
  refine ⟨fun plugin known limit => ?_, fun value => ⟨value.evaluation_eq, value.reading_eq⟩⟩
  simp only [all, List.mem_cons, List.not_mem_nil, or_false] at known
  rcases known with rfl | rfl | rfl | rfl | rfl | rfl
  · exact succeeds_ofVisitor Strings.harmless_visitor proper
      ⟨_, rfl, Strings.rotates_of_documented documented, Strings.kempt_empty⟩ limit
  · exact succeeds_ofVisitor Inlining.harmless_visitor proper (Inlining.exists_initial proper
      documented) limit
  · exact succeeds_ofVisitor (fun _ => Concatenation.harmless_visitor) proper ⟨_, rfl, trivial⟩ limit
  · exact succeeds_ofVisitor (fun _ => Member.harmless_visitor) proper ⟨_, rfl, trivial⟩ limit
  · exact succeeds_ofVisitor (fun _ => Folding.harmless_visitor) proper ⟨_, rfl, trivial⟩ limit
  · obtain ⟨entries, read, texts⟩ := Renaming.exists_entries documented
    obtain ⟨state, started, _⟩ := Renaming.exists_initial read texts
    exact succeeds_ofVisitor (fun _ => Renaming.harmless_visitor) proper ⟨state, started, trivial⟩
      limit

/-- A program with an integer beyond the range of doubles, a remainder and a
position that are out of range, a gap in a list and a shorthand property:
`var r = ["p", "q"]; function d(i) { return r[i - 1] } function Qc(a) { return a }
[, d(2), d(-1), d(1e400), Qc(0x10)]; x["p"]["p" + "q"]; x = 1e400 / (3 % 0); ({x});` -/
def borderline : Document where
  tree := .program [
    .declaration 1 [.declarator 2 (.identifier 3 "r") (.array 4 [.string 5 "p", .string 6 "q"])],
    .function 7 (.identifier 8 "d") [.identifier 9 "i"] (.block 10 [
      .returns 11 (.member 12 true (.identifier 13 "r")
        (.binary 14 "-" (.identifier 15 "i") (.integer 16 1)))]),
    .function 17 (.identifier 18 "Qc") [.identifier 19 "a"]
      (.block 20 [.returns 21 (.identifier 22 "a")]),
    .statement 23 (.array 24 [.null,
      .call 25 (.identifier 26 "d") [.integer 27 2],
      .call 28 (.identifier 29 "d") [
        .node 30 "UnaryExpression" [("operator", .text "-"), ("argument", .integer 31 1)]],
      .call 32 (.identifier 33 "d") [.integer 34 (10 ^ 400)],
      .call 35 (.identifier 36 "Qc") [.spelled 37 16 "0x10"]]),
    .statement 38 (.member 39 true (.member 40 true (.identifier 41 "x") (.string 42 "p"))
      (.binary 43 "+" (.string 44 "p") (.string 45 "q"))),
    .statement 46 (.assignment 47 (.identifier 48 "x") (.binary 49 "/" (.integer 50 (10 ^ 400))
      (.binary 51 "%" (.integer 52 3) (.integer 53 0)))),
    .statement 54 (.node 55 "ObjectExpression" [("properties", .list [
      .node 56 "Property" [("key", .identifier 57 "x"), ("value", .identifier 58 "x"),
        ("shorthand", .bool true)]])])]
  next := 59

/-- Settings of all documented types; one of the new names is none. -/
def borderlineSettings : Options := [("inline_functions", .list [.text "Qc"]), ("array_rotation",
  .ofInt (-3)), ("rename_map", .object [("x", .text "z"), ("d", .text "no name")])]

/-- All walks over the program end within two hundred visits, with metadata. -/
theorem passes_never_fail_borderline :
    borderline.Proper ∧
    Options.Documented borderlineSettings ∧
    (all.map fun plugin => (plugin.apply 200 borderlineSettings borderline).result.isOk) =
      [true, true, true, true, true, true] ∧
    ∀ plugin ∈ all, (plugin.apply 200 borderlineSettings borderline).document.Proper := by
  have proper : borderline.Proper :=
    ⟨⟨Value.told_of_nodup (by decide +kernel), by decide +kernel⟩, rfl, by decide +kernel⟩
  have documented : Options.Documented borderlineSettings := by decide
  exact ⟨proper, documented, by decide +kernel, fun plugin known =>
    ((passes_never_fail proper documented).1 plugin known 200).1⟩

end Pass

end Unravel
