import Unravel.Proofs.Tree.Everywhere
import Unravel.Proofs.Walk.Reading

/-!
Contract: walks that begin with a collection.

A visitor may have a rule for the program, which only the root is. Below the root
the walk is then that of its other rules (`run_of_single`). Where the rule is a walk
that only reads, entering the program is not cut off from some number of visits on
(`exists_opening`), and has one outcome then (`opening_of_finished`).
-/

namespace Unravel

/-- The object is no program. -/
def Value.notProgram : Value.Mark := fun _ kind _ => kind ≠ some "Program"

namespace Walk

open Value

variable {σ : Type} {first : Handler σ} {rest : Visitor σ} {session : Session σ}

/-- Below the root a rule for the program does not matter. -/
theorem step_of_single (frame : Frame) (single : session.tree.Within notProgram) :
    step (.onEnter "Program" first :: rest) frame session = step rest frame session := by
  refine step_of_handlers (fun _ => rfl) ?_
  rintro owner slot value kind - found is
  have other : "Program" ≠ kind := by
    rintro rfl
    obtain ⟨label, isLabel⟩ := exists_label?_of_isNode (isNode_of_kind? is)
    exact ((everywhere_object isLabel).1 (within_at? single (by simp) found)).1 is
  simp [Visitor.handlersFor, Rule.handlersFor, Rule.handler?, Rule.onEnter, other]

theorem run_of_single {invariant : Session σ → Prop} (keeps : Keeps rest fun _ => invariant)
    (single : ∀ session, invariant session → session.tree.Within notProgram)
    (holds : invariant session) (limit : Nat) (frames : List Frame) :
    run (.onEnter "Program" first :: rest) limit frames session = run rest limit frames session :=
  run_congr keeps (fun frame _ _ holds => step_of_single frame (single _ holds)) holds limit

/-- Entering the program is the action of its rule. -/
theorem dispatch_program {root : Cursor} {reached : Session σ}
    (approached : approach session = .ok root reached) (program : session.tree.kind? = some "Program")
    (others : rest.handlersFor .entering "Program" = []) :
    Visitor.dispatch (.onEnter "Program" first :: rest) .entering root reached =
      first root reached := by
  obtain ⟨reindexed, atRoot, _⟩ := approach_eq_ok approached
  have here : (root.nodeIn reached).kind? = some "Program" := by
    rw [Cursor.nodeIn, atRoot, reindexed.tree]
    exact program
  have handlers : Visitor.handlersFor (.onEnter "Program" first :: rest) .entering "Program" =
      first :: rest.handlersFor .entering "Program" := rfl
  rw [Visitor.dispatch_apply here, handlers, others, Visitor.runHandlers_singleton]

theorem finished_bind {α β : Type} {action : WalkM σ α} {next : α → WalkM σ β}
    (first : Finished (action session)) (second : ∀ value after, action session = .ok value after →
      Finished (next value after)) : Finished ((action >>= next) session) := by
  rw [WalkM.bind_apply]
  cases ran : action session with
  | ok value after => exact second value after ran
  | error fault after =>
    rintro later ⟨⟩
    exact first after ran

theorem finished_of_bind {α β : Type} {action : WalkM σ α} {next : α → WalkM σ β}
    (finished : Finished ((action >>= next) session)) : Finished (action session) := by
  intro after cut
  rw [WalkM.bind_apply, cut] at finished
  exact finished after rfl

/-- A visitor that begins with the walk of a collector, and then makes a note. -/
def collecting (collector : Visitor σ) (note : Handler σ) (rest : Visitor σ) (limit : Nat) :
    Visitor σ :=
  .onEnter "Program" (fun cursor => below limit collector cursor >>= fun _ => note cursor) :: rest

section Collection

variable {collector : Visitor σ} {note : Handler σ} (program : session.tree.kind? = some "Program")
  (others : rest.handlersFor .entering "Program" = [])

include program others

theorem opening_of_finished {bound limit : Nat}
    (finished : Finished (opening (collecting collector note rest bound) session))
    (most : bound ≤ limit) : opening (collecting collector note rest limit) session =
      opening (collecting collector note rest bound) session := by
  unfold opening collecting at finished ⊢
  cases approached : approach session with
  | error fault reached => rw [WalkM.bind_apply, WalkM.bind_apply, approached]
  | ok root reached =>
    rw [WalkM.bind_apply, approached] at finished
    have entered := finished_of_bind finished
    rw [dispatch_program approached program others] at entered
    simp only [WalkM.bind_apply, approached, dispatch_program approached program others,
      below_of_finished (finished_of_bind entered) most]

/-- From some number of visits on, the beginning of a walk that begins with a collection that
only reads is not cut off. -/
theorem exists_opening (reads : collector.Reads)
    (notes : ∀ cursor, Fixes Session.tree (note cursor)) :
    ∃ bound, Finished (opening (collecting collector note rest bound) session) := by
  unfold opening collecting
  have uncut := (fixes_approach (fun _ _ _ => rfl : Blind Session.tree) session).2
  cases approached : approach session with
  | error fault reached =>
    refine ⟨0, finished_bind uncut ?_⟩
    rw [approached]
    exact nofun
  | ok root reached =>
    obtain ⟨bound, finished⟩ := exists_below_of_reads reads root reached
    refine ⟨bound, finished_bind uncut ?_⟩
    rw [approached]
    rintro _ _ ⟨⟩
    refine finished_bind ?_ fun moved after _ => ?_
    · rw [dispatch_program approached program others]
      exact finished_bind finished fun _ after _ => (notes root after).2
    · split
      · exact nofun
      · refine finished_bind nofun fun node later _ => ?_
        refine finished_bind ((fixes_check _ : Fixes Session.tree _) later).2 fun _ _ _ => nofun

end Collection

end Walk

end Unravel
