import Mathlib.Order.Filter.IsBounded
import Unravel.Proofs.Walk.Booking
import Unravel.Proofs.Walk.Opening

/-!
Contract: a walk that keeps count of its rewrites ends just when they are bounded.

Between two rewrites a walk is over one tree and comes to the end of it, so it
cannot go on for ever without another one (`exists_finished_iff`). So it is with
walks that begin with a collection (`exists_start_iff`).
-/

namespace Unravel.Walk

open Account

variable {σ : Type} {account : Account σ} {visitor : Visitor σ} {frames : List Frame}
  {session : Session σ}

theorem booked_step (books : Bookkeeping account visitor) {frame : Frame} {following : List Frame}
    {after : Session σ} (visits : step visitor frame session = .ok following after) :
    account.Booked session after := by
  have ends := meets_step suited_booked (books session) frame (.of_sheet rfl)
  rw [visits] at ends
  exact ends

/-- The visit makes a rewrite. -/
def Rewrites (account : Account σ) (visitor : Visitor σ) (frame : Frame) (session : Session σ) :
    Prop := ∃ following after, step visitor frame session = .ok following after ∧
  account.rewrites session.state < account.rewrites after.state

theorem rewrites_or_same (books : Bookkeeping account visitor) ⦃frame : Frame⦄ ⦃session : Session σ⦄
    ⦃following : List Frame⦄ ⦃after : Session σ⦄
    (visits : step visitor frame session = .ok following after) :
    Rewrites account visitor frame session ∨ account.sheet after = account.sheet session := by
  obtain ⟨count, gained, same⟩ := booked_step books visits
  cases count with
  | zero =>
    right
    simp only [sheet, balance, same rfl, gained.changes, gained.rewrites, Nat.add_zero]
  | succ count =>
    have more := gained.rewrites
    exact .inl ⟨following, after, visits, by omega⟩

theorem last_run_zero (frames : List Frame) (session : Session σ) :
    last (run visitor 0 frames session) = session := by
  cases frames <;> rfl

theorem exists_finished_of_bounded (remains : visitor.Remains) (books : Bookkeeping account visitor)
    {rewrites : Nat} (bounded : ∀ limit, account.rewrites (last (run visitor limit frames
      session)).state < account.rewrites session.state + rewrites) :
    ∃ limit, Finished (run visitor limit frames session) := by
  -- The induction is on the rewrites that are left.
  induction rewrites generalizing frames session with
  | zero =>
    have impossible := bounded 0
    rw [last_run_zero] at impossible
    omega
  | succ rewrites ih =>
    have fixes := rewrites_or_same books
    rcases (resolves_frames remains (fun _ _ _ _ visits => (fixes visits).imp_right
      (congrArg Prod.fst)) frames session).finished_or_stopped (finished_step remains) fixes with
      finished | ⟨count, frame, rest, reached, ⟨following, after, visits, more⟩, same, goes⟩
    · exact finished
    · have sameCount : account.rewrites reached.state = account.rewrites session.state :=
        congrArg (fun sheet => sheet.2.2) same
      have goesOn (limit : Nat) : run visitor (count + (limit + 1)) frames session =
          run visitor limit (following ++ rest) after := by
        rw [goes, run_succ, visits]
      have fewer (limit : Nat) : account.rewrites (last (run visitor limit (following ++ rest)
          after)).state < account.rewrites after.state + rewrites := by
        have atMost := bounded (count + (limit + 1))
        rw [goesOn] at atMost
        omega
      obtain ⟨limit, finished⟩ := ih fewer
      exact ⟨count + (limit + 1), by rwa [goesOn]⟩

/-- A walk whose actions stay where they are and book their rewrites ends just when it makes
boundedly many. -/
theorem exists_finished_iff (remains : visitor.Remains) (books : Bookkeeping account visitor) :
    (∃ limit, Finished (run visitor limit frames session)) ↔ BddAbove (Set.range fun limit =>
      account.rewrites (last (run visitor limit frames session)).state) := by
  constructor
  · rintro ⟨limit, finished⟩
    refine Filter.IsBoundedUnder.bddAbove_range (Filter.isBoundedUnder_of_eventually_le
      (a := account.rewrites (last (run visitor limit frames session)).state) ?_)
    filter_upwards [Filter.eventually_ge_atTop limit] with more most
    obtain ⟨extra, rfl⟩ := Nat.exists_eq_add_of_le most
    rw [run_add_of_finished finished]
  · rintro ⟨bound, isBound⟩
    have bounded (limit : Nat) : account.rewrites (last (run visitor limit frames session)).state <
        account.rewrites session.state + (bound + 1) := by
      have atMost := isBound ⟨limit, rfl⟩
      dsimp only at atMost
      omega
    exact exists_finished_of_bounded remains books bounded

/-! ## Walks that begin with a collection -/

open Filter in
theorem bddAbove_range_congr {first second : Nat → Nat} (same : first =ᶠ[atTop] second) :
    BddAbove (Set.range first) ↔ BddAbove (Set.range second) := by
  have bounded {values others : Nat → Nat} (same : values =ᶠ[atTop] others)
      (bounded : BddAbove (Set.range values)) : BddAbove (Set.range others) := by
    refine IsBoundedUnder.bddAbove_range ?_
    change IsBounded _ (map others atTop)
    rw [← map_congr same]
    exact bounded.isBoundedUnder_of_range
  exact ⟨bounded same, bounded same.symm⟩

variable {collector rest : Visitor σ} {note : Handler σ} {invariant : Session σ → Prop}
  {document : Document} {state : σ}

section Collection

variable (others : rest.handlersFor .entering "Program" = [])
  (suited : Suited invariant fun _ => True)
  (actions : ∀ limit, Actions (collecting collector note rest limit) invariant fun _ => True)
  (single : ∀ session, invariant session → session.tree.Within Value.notProgram)
  (program : document.tree.kind? = some "Program")
  (holds : invariant (initialSession document state))

include suited actions single holds

/-- Below the program, a walk that begins with a collection is that of the other rules. -/
theorem start_of_opening {limit : Nat} {first : Session σ} (opened : opening (collecting collector
    note rest limit) (initialSession document state) = .ok frames first) :
    (start limit (collecting collector note rest limit) document state).2 =
        last (run rest limit frames first) ∧
      ((start limit (collecting collector note rest limit) document state).1 ≠ .error .stepLimit ↔
        Finished (run rest limit frames first)) := by
  have settled := meets_opening suited (actions limit) holds
  rw [opened] at settled
  obtain ⟨⟨_, settled⟩, _⟩ := settled
  have keeps : Keeps rest fun _ => invariant := keeps_settled suited fun phase kind handler member =>
    actions limit phase kind handler (Visitor.mem_handlersFor_onEnter.2 (.inr member))
  rw [start_eq, opened]
  dsimp only
  rw [collecting, run_of_single keeps single settled]
  cases run rest limit frames first with
  | ok result after => exact ⟨rfl, iff_of_true nofun nofun⟩
  | error fault after =>
    refine ⟨rfl, fun uncut _ cut => ?_, fun finished cut => ?_⟩
    · cases cut
      exact uncut rfl
    · cases cut
      exact finished after rfl

include others program

/-- A walk that is not cut off is not cut off if it may make more visits. -/
theorem uncut_of_le {limit more : Nat} (most : limit ≤ more) (uncut : (start limit (collecting
    collector note rest limit) document state).1 ≠ .error .stepLimit) :
    (start more (collecting collector note rest more) document state).1 ≠ .error .stepLimit := by
  have finished : Finished (opening (collecting collector note rest limit)
      (initialSession document state)) := by
    intro after cut
    rw [start_eq, cut] at uncut
    exact uncut rfl
  have same := opening_of_finished program others finished most
  cases opened : opening (collecting collector note rest limit) (initialSession document state) with
  | error fault after =>
    rw [start_eq, opened] at uncut
    rwa [start_eq, same, opened]
  | ok frames first =>
    have ran := (start_of_opening suited actions single holds opened).2.1 uncut
    rw [(start_of_opening suited actions single holds (same.trans opened)).2]
    obtain ⟨extra, rfl⟩ := Nat.exists_eq_add_of_le most
    rwa [run_add_of_finished ran]

/-- A walk that begins with a collection that only reads ends just when it makes boundedly many
rewrites. -/
theorem exists_start_iff (reads : collector.Reads)
    (notes : ∀ cursor, Fixes Session.tree (note cursor)) (remains : rest.Remains)
    (books : ∀ limit, Bookkeeping account (collecting collector note rest limit)) :
    (∃ bound, ∀ limit, bound ≤ limit →
      (start limit (collecting collector note rest limit) document state).1 ≠ .error .stepLimit) ↔
    BddAbove (Set.range fun limit => account.rewrites
      (start limit (collecting collector note rest limit) document state).2.state) := by
  obtain ⟨bound, finished⟩ := exists_opening
    (show (initialSession document state).tree.kind? = _ from program) others reads notes
  have opens {limit : Nat} := @opening_of_finished _ _ _ _ _ program others bound limit finished
  cases opened : opening (collecting collector note rest bound) (initialSession document state) with
  | error fault after =>
    rw [opened] at finished
    have starts (limit : Nat) (most : bound ≤ limit) :
        start limit (collecting collector note rest limit) document state = (.error fault, after) := by
      rw [start_eq, opens most, opened]
    refine iff_of_true ⟨bound, fun limit most => ?_⟩ ?_
    · rw [starts limit most]
      rintro ⟨⟩
      exact finished after rfl
    · refine (Filter.isBoundedUnder_of_eventually_le
        (a := account.rewrites after.state) ?_).bddAbove_range
      filter_upwards [Filter.eventually_ge_atTop bound] with limit most
      rw [starts limit most]
  | ok frames first =>
    have starts (limit : Nat) (most : bound ≤ limit) :=
      start_of_opening suited actions single holds ((opens most).trans opened)
    have same : (fun limit => account.rewrites (last (run rest limit frames first)).state)
        =ᶠ[Filter.atTop] fun limit => account.rewrites
          (start limit (collecting collector note rest limit) document state).2.state := by
      filter_upwards [Filter.eventually_ge_atTop bound] with limit most
      rw [(starts limit most).1]
    rw [← bddAbove_range_congr same, ← exists_finished_iff remains fun first phase kind handler
      member => books bound first phase kind handler (Visitor.mem_handlersFor_onEnter.2 (.inr member))]
    constructor
    · rintro ⟨enough, uncut⟩
      exact ⟨_, (starts _ (le_max_left bound enough)).2.1 (uncut _ (le_max_right bound enough))⟩
    · rintro ⟨enough, finished⟩
      refine ⟨max bound enough, fun limit most => ?_⟩
      rw [(starts limit (le_trans (le_max_left _ _) most)).2]
      obtain ⟨extra, rfl⟩ := Nat.exists_eq_add_of_le (le_trans (le_max_right _ _) most)
      rwa [run_add_of_finished finished]

end Collection

end Unravel.Walk
