import Unravel.Walk.Machine

/-!
Contract: when a walk ends.

A walk ends when for some number of visits it is not cut off; it then has the
same outcome for every larger number. `Resolves` says that a walk gets to the
end of its frames, fails, or comes to a visit of a given kind, after finitely
many visits (`Resolves.finished_or_stopped`).
-/

namespace Unravel

variable {σ : Type}

variable {limit : Nat} {invariant : List Frame → Session σ → Prop}

namespace WalkM

variable {α β : Type} {action : WalkM σ α} {next : α → WalkM σ β} {session after : Session σ}

theorem bind_apply (action : WalkM σ α) (next : α → WalkM σ β) (session : Session σ) :
    (action >>= next) session =
      match action session with
      | .ok value middle => next value middle
      | .error fault middle => .error fault middle := by
  change EStateM.bind action next session = _
  unfold EStateM.bind
  cases action session <;> rfl

theorem bind_eq_ok {result : β} : (action >>= next) session = .ok result after ↔
      ∃ value middle, action session = .ok value middle ∧ next value middle = .ok result after := by
  rw [bind_apply]
  cases action session <;> simp [and_assoc]

end WalkM

namespace Walk

/-- An outcome that is not that of a walk cut off. -/
def Finished {α : Type} (outcome : EStateM.Result Fault (Session σ) α) : Prop :=
  ∀ session, outcome ≠ .error .stepLimit session

variable {visitor : Visitor σ} {frames : List Frame} {session : Session σ}

theorem run_succ (visitor : Visitor σ) (limit : Nat) (frame : Frame) (rest : List Frame) (session :
    Session σ) : run visitor (limit + 1) (frame :: rest) session =
      match step visitor frame session with
      | .ok following after => run visitor limit (following ++ rest) after
      | .error fault after => .error fault after := by
  rw [run, WalkM.bind_apply]
  cases step visitor frame session <;> rfl

/-- More visits than a walk needs make no difference. -/
theorem run_add_of_finished (finished : Finished (run visitor limit frames session)) (extra : Nat) :
    run visitor (limit + extra) frames session = run visitor limit frames session := by
  induction limit generalizing frames session with
  | zero =>
    cases frames with
    | nil => cases extra <;> rfl
    | cons frame rest => exact absurd rfl (finished session)
  | succ limit ih =>
    cases frames with
    | nil => rw [Nat.add_right_comm]; rfl
    | cons frame rest =>
      rw [Nat.add_right_comm, run_succ, run_succ]
      rw [run_succ] at finished
      cases visited : step visitor frame session with
      | error fault after => rfl
      | ok following after =>
        rw [visited] at finished
        exact ih finished

/-! ## Getting to an end -/

/-- After finitely many visits the walk has no frame left and is where it should
be, or has failed, or is about to make a visit that stops it. -/
inductive Resolves (visitor : Visitor σ) (stops : Frame → Session σ → Prop)
    (goal : Session σ → Prop) : List Frame → Session σ → Prop where
  | done {session : Session σ} (reached : goal session) : Resolves visitor stops goal [] session
  | stopped {frame : Frame} {rest : List Frame} {session : Session σ}
      (here : stops frame session) : Resolves visitor stops goal (frame :: rest) session
  | failed {frame : Frame} {rest : List Frame} {session after : Session σ} {fault : Fault}
      (fails : step visitor frame session = .error fault after) :
      Resolves visitor stops goal (frame :: rest) session
  | visited {frame : Frame} {following rest : List Frame} {session after : Session σ} (visits : step
      visitor frame session = .ok following after) (further : Resolves visitor stops goal (following
      ++ rest) after) : Resolves visitor stops goal (frame :: rest) session

variable {stops : Frame → Session σ → Prop} {middle goal : Session σ → Prop}

theorem Resolves.append {rest : List Frame} (first : Resolves visitor stops middle frames session)
    (second : ∀ after, middle after → Resolves visitor stops goal rest after) :
    Resolves visitor stops goal (frames ++ rest) session := by
  induction first with
  | done reached => exact second _ reached
  | stopped here => exact .stopped here
  | failed fails => exact .failed fails
  | visited visits _ ih =>
    rw [List.append_assoc] at ih
    exact .visited visits ih

/-- What one visit keeps of pending frames and the session. -/
def Keeps (visitor : Visitor σ) (invariant : List Frame → Session σ → Prop) : Prop :=
  ∀ ⦃frame rest session following after⦄, invariant (frame :: rest) session →
    step visitor frame session = .ok following after → invariant (following ++ rest) after

theorem run_keeps (keeps : Keeps visitor invariant) {after : Session σ} (holds : invariant frames
    session) (ran : run visitor limit frames session = .ok () after) : invariant [] after := by
  induction limit generalizing frames session with
  | zero =>
    cases frames with
    | nil =>
      cases ran
      exact holds
    | cons frame rest => cases ran
  | succ limit ih =>
    cases frames with
    | nil =>
      cases ran
      exact holds
    | cons frame rest =>
      rw [run_succ] at ran
      cases visited : step visitor frame session with
      | error fault reached =>
        rw [visited] at ran
        cases ran
      | ok following reached =>
        rw [visited] at ran
        exact ih (keeps holds visited) ran

/-- Visitors whose visits agree wherever a walk stands run alike. -/
theorem run_congr {other : Visitor σ} (keeps : Keeps visitor invariant) (agree : ∀ frame rest
    session, invariant (frame :: rest) session → step other frame session = step visitor frame
    session) (holds : invariant frames session) (limit : Nat) : run other limit frames session = run
    visitor limit frames session := by
  induction limit generalizing frames session with
  | zero => cases frames <;> rfl
  | succ limit ih =>
    cases frames with
    | nil => rfl
    | cons frame rest =>
      rw [run_succ, run_succ, agree frame rest session holds]
      cases visited : step visitor frame session with
      | error fault after => rfl
      | ok following after => exact ih (keeps holds visited)

/-- A walk that resolves is not cut off, or comes to a visit that stops it, and a view that
no other visit changes is as it was. -/
theorem Resolves.finished_or_stopped {γ : Type} {view : Session σ → γ}
    (uncut : ∀ frame session, Finished (step visitor frame session))
    (fixes : ∀ ⦃frame session following after⦄, step visitor frame session = .ok following after →
      stops frame session ∨ view after = view session)
    (walks : Resolves visitor stops goal frames session) :
    (∃ limit, Finished (run visitor limit frames session)) ∨
      ∃ count frame rest reached, stops frame reached ∧ view reached = view session ∧ ∀ extra,
        run visitor (count + extra) frames session = run visitor extra (frame :: rest) reached := by
  induction walks with
  | done => exact .inl ⟨0, nofun⟩
  | stopped here => exact .inr ⟨0, _, _, _, here, rfl, fun extra => by rw [Nat.zero_add]⟩
  | @failed frame rest session after fault fails =>
    refine .inl ⟨1, ?_⟩
    have uncutHere := uncut frame session
    rw [run_succ, fails]
    rw [fails] at uncutHere
    intro other same
    cases same
    exact uncutHere _ rfl
  | visited visits _ ih =>
    rcases fixes visits with here | same
    · exact .inr ⟨0, _, _, _, here, rfl, fun extra => by rw [Nat.zero_add]⟩
    · rcases ih with ⟨limit, finished⟩ | ⟨count, frame, rest, reached, here, sameThere, goes⟩
      · refine .inl ⟨limit + 1, ?_⟩
        rw [run_succ, visits]
        exact finished
      · refine .inr ⟨count + 1, frame, rest, reached, here, sameThere.trans same, fun extra => ?_⟩
        rw [Nat.add_right_comm, run_succ, visits]
        exact goes extra

/-! ## The start of a walk -/

/-- The way to the root of the tree. -/
def approach : WalkM σ Cursor := do
  WalkM.indexTree (← get).tree none
  return ⟨[], ← WalkM.scopeOf (← get).tree none, none, false⟩

/-- What a walk does before its first visit, and the frames it then has. -/
def opening (visitor : Visitor σ) : WalkM σ (List Frame) := do
  let root ← visitor.dispatch .entering (← approach)
  if root.skipped then return []
  else
    WalkM.check (← root.node).fieldsFault?
    return (← childFrames root) ++ [.leaving root]

/-- The session a walk over a document starts in. -/
def initialSession (document : Document) (state : σ) : Session σ :=
  ⟨document.tree, document.next, .empty, [], state⟩

theorem start_eq (limit : Nat) (visitor : Visitor σ) (document : Document) (state : σ) :
    start limit visitor document state =
      match opening visitor (initialSession document state) with
      | .ok frames session =>
        match run visitor limit frames session with
        | .ok _ after => (.ok (), after)
        | .error fault after => (.error fault, after)
      | .error fault after => (.error fault, after) := by
  have nothingLeft : run visitor limit [] = pure () := by cases limit <;> rfl
  have splits : (do
      WalkM.indexTree (← get).tree none
      whole limit visitor : WalkM σ Unit) = opening visitor >>= run visitor limit := by
    unfold opening approach whole
    simp only [bind_assoc, pure_bind]
    congr
    funext session
    congr
    funext _
    congr
    funext reached
    congr
    funext scope
    congr
    funext root
    split
    · rw [pure_bind, nothingLeft]
    · simp only [bind_assoc, pure_bind]
  unfold start
  rw [splits]
  change (match (opening visitor >>= run visitor limit) (initialSession document state) with
    | .ok _ session => _
    | .error fault session => _) = _
  rw [WalkM.bind_apply]
  cases opening visitor (initialSession document state) with
  | error fault after => rfl
  | ok frames session => rfl

end Walk

end Unravel
