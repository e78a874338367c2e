import Unravel.Proofs.Tree.Distinctness
import Unravel.Proofs.Walk.Outcomes

/-!
Contract: actions that keep the labels of a document distinct.

Most of what an action does leaves the document alone (`Spares`). What remains
is a replacement: labels stay distinct if those of the new node are drawn for it or
were in the place before (`Placing.unshared`).

A pass that keeps objects in its state has a condition on them to keep as well;
it is carried along as a property of the state and of the first label that is not in use.
-/

namespace Unravel

variable {σ : Type} {α β : Type}

namespace Walk

/-- No two places hold one node, and the state is as it should be. -/
structure Unshared (fit : Nat → σ → Prop) (session : Session σ) : Prop where
  distinct : session.document.Distinct
  fit : fit session.next session.state

/-- The action leaves the document alone and the state as it should be. -/
def Spares (fit : Nat → σ → Prop) (action : WalkM σ α) : Prop :=
  ∀ session, fit session.next session.state →
    (last (action session)).document = session.document ∧
      fit session.next (last (action session)).state

/-- Any state will do. -/
def free (_ : Nat) (_ : σ) : Prop := True

variable {fit : Nat → σ → Prop} {action : WalkM σ α} {next : α → WalkM σ β}
  {session after : Session σ} {cursor : Cursor} {new : Value}

theorem suited_unshared : Suited (Unshared fit) (Unshared fit) where
  kept before after same unshared := by
    have tree : after.tree = before.tree := congrArg Prod.fst same
    have next : after.next = before.next := congrArg (fun standing => standing.2.1) same
    have state : after.state = before.state := congrArg (fun standing => standing.2.2) same
    refine ⟨?_, next ▸ state ▸ unshared.fit⟩
    rw [Session.document, tree, next]
    exact unshared.distinct
  eased _ unshared := unshared

theorem spares_of_fixes (fixes : Fixes standing action) : Spares fit action := by
  intro session holds
  have same := (fixes session).1
  have tree : (last (action session)).tree = session.tree := congrArg Prod.fst same
  have next : (last (action session)).next = session.next :=
    congrArg (fun standing => standing.2.1) same
  have state : (last (action session)).state = session.state :=
    congrArg (fun standing => standing.2.2) same
  refine ⟨?_, state ▸ holds⟩
  rw [Session.document, tree, next]
  rfl

theorem spares_of_document (fixes : Fixes Session.document action) : Spares free action :=
  fun session _ => ⟨(fixes session).1, trivial⟩

theorem spares_pure (value : α) : Spares fit (pure value : WalkM σ α) :=
  spares_of_fixes (fixes_pure value)

theorem spares_getState : Spares fit (WalkM.getState : WalkM σ σ) := spares_of_fixes fixes_getState

theorem spares_log (logger : String) (level : Level) (message : List Piece) :
    Spares fit (WalkM.log logger level message : WalkM σ Unit) :=
  spares_of_fixes (fixes_log (fun _ _ _ => rfl) logger level message)

theorem spares_bind (first : Spares fit action) (second : ∀ value, Spares fit (next value)) :
    Spares fit (action >>= next) := by
  intro session holds
  have before := first session holds
  rw [WalkM.bind_apply]
  cases ran : action session with
  | error fault after =>
    rw [ran] at before
    exact before
  | ok value after =>
    rw [ran] at before
    have next : after.next = session.next := congrArg Document.next before.1
    have then_ := second value after (next ▸ before.2)
    rw [next] at then_
    exact ⟨then_.1.trans before.1, then_.2⟩

theorem Spares.meets (spares : Spares fit action) (unshared : Unshared fit session) :
    Meets (Unshared fit) (Unshared fit) (action session) := by
  have kept := spares session unshared.fit
  have still (after : Session σ) (same : after.document = session.document)
      (holds : fit session.next after.state) : Unshared fit after := by
    have next : after.next = session.next := congrArg Document.next same
    refine ⟨?_, next ▸ holds⟩
    rw [same]
    exact unshared.distinct
  cases ran : action session with
  | ok value after =>
    rw [ran] at kept
    exact still after kept.1 kept.2
  | error fault after =>
    rw [ran] at kept
    exact still after kept.1 kept.2

theorem meets_after (spares : Spares fit action) (unshared : Unshared fit session) (second : ∀ value
    after, action session = .ok value after → after.document = session.document → Unshared fit after
    → Meets (Unshared fit) (Unshared fit) (next value after)) : Meets (Unshared fit) (Unshared fit)
    ((action >>= next) session) := by
  refine meets_bind (spares.meets unshared) fun value after ran unsharedThen => ?_
  have kept := spares session unshared.fit
  rw [ran] at kept
  exact second value after ran kept.1 unsharedThen

theorem Unshared.nodeIn (unshared : Unshared fit session) (cursor : Cursor) :
    (cursor.nodeIn session).Everywhere Value.NamedOnce ∧
      ∀ label ∈ (cursor.nodeIn session).labels, label < session.next := by
  unfold Cursor.nodeIn
  cases found : session.tree.at? cursor.address with
  | none => exact ⟨Value.everywhere_null, by simp [Value.labels]⟩
  | some node =>
    exact ⟨Value.everywhere_at? unshared.distinct.named found, Value.everywhere_iff_labels.1
      (Value.everywhere_at? (Value.everywhere_iff_labels.2 unshared.distinct.used) found)⟩

/-! ## Replacements -/

variable {answer : Cursor → α} {build : Value.Fresh Value} {change : σ → σ}
  {outcome : EStateM.Result Fault (Session σ) α}

/-- A node whose labels are drawn for it or were in the place before can be put in the
place, whether or not it can be indexed. -/
theorem Placing.unshared (placing : Placing answer build change cursor session outcome)
    (unshared : Unshared fit session) (most : session.next ≤ (build.run session.next).2)
    (grafts : (cursor.nodeIn session).Grafts (build.run session.next).1 session.next
      (build.run session.next).2)
    (grown : fit (build.run session.next).2 session.state)
    (keeps : fit (build.run session.next).2 (change session.state)) :
    Meets (Unshared fit) (Unshared fit) outcome := by
  have put {drawn : Session σ} {new : Value} (below : cursor.address ≠ [])
      (draws : session.Drawn build drawn) (isNew : (build.run session.next).1 = new) :
      Document.Distinct ⟨drawn.tree.putAt cursor.address new, drawn.next⟩ := by
    rw [draws.tree, draws.next, ← isNew]
    exact unshared.distinct.graft most (fun atRoot => absurd atRoot below) grafts
  have scopes (new : Value) (drawn : Session σ) :=
    (fixes_scopeOf (fun _ _ _ => rfl : Blind (standing (σ := σ))) new cursor.parentScope drawn).1
  cases placing with
  | refused root draws =>
    refine ⟨?_, draws.next ▸ draws.state ▸ grown⟩
    rw [Session.document, draws.tree, draws.next]
    exact unshared.distinct.mono most
  | @unread drawn after new fault below draws isNew ran =>
    have same := scopes new { drawn with tree := drawn.tree.putAt cursor.address new }
    rw [ran] at same
    exact suited_unshared.kept _ _ same ⟨put below draws isNew, draws.next ▸ draws.state ▸ grown⟩
  | put below draws isNew ran =>
    have reindexed := WalkM.scopeOf_eq_ok ran
    refine ⟨?_, ?_⟩
    · rw [reindexed.tree, reindexed.next]
      exact put below draws isNew
    · rw [reindexed.next, reindexed.state, draws.next, draws.state]
      exact keeps

/-- One that has labels of its own only may take any place. -/
theorem Placing.unshared_of_draws (placing : Placing answer build change cursor session outcome)
    (unshared : Unshared free session) (draws : Value.Draws build) :
    Meets (Unshared free) (Unshared free) outcome :=
  placing.unshared unshared (draws session.next).1 ((draws session.next).2.grafts _) trivial trivial

/-- What the actions of a visitor keep unshared, a walk keeps unshared, whether or not
it succeeds. -/
theorem distinct_start {visitor : Visitor σ} (actions : Actions visitor (Unshared fit) (Unshared fit))
    (limit : Nat) {document : Document} {state : σ} (distinct : document.Distinct)
    (holds : fit document.next state) : (start limit visitor document state).2.document.Distinct := by
  have unshared : Unshared fit (initialSession document state) := ⟨distinct, holds⟩
  rcases meets_start suited_unshared actions limit unshared with ⟨_, _, kept⟩ | ⟨_, _, kept⟩ <;>
    exact kept.distinct

end Walk

end Unravel
