import Unravel.Proofs.Tree.Exchange
import Unravel.Proofs.Walk.Reading
import Unravel.Proofs.Walk.Yielding

/-!
Contract: walks that cannot fail.

A session is settled when its document is proper and the state of the pass is fit
for it. An outcome is `Safe` when it is a result in a settled session, or comes
from a walk that was cut off. Looking for scopes is safe in settled sessions, and
so is a replacement by a node that fits and is supplied for it (`Placing.safe`).
If all actions of a visitor are safe, so is a walk (`safe_start`).
-/

namespace Unravel

variable {σ : Type} {α β : Type}

variable {kind : String} {rest : Visitor σ} {handler : Handler σ}

namespace Walk

structure Settled (fit : Document → σ → Prop) (session : Session σ) : Prop where
  proper : session.document.Proper
  fit : fit session.document session.state

/-- The outcome is an accepted result, or that of a walk cut off; the session is
settled in both cases. -/
def Safe (fit : Document → σ → Prop) (accepted : α → Prop) : EStateM.Result Fault (Session σ) α →
    Prop := Ends (fun value after => accepted value ∧ Settled fit after) fun fault after => fault =
    .stepLimit ∧ Settled fit after

variable {fit : Document → σ → Prop} {session after : Session σ} {cursor : Cursor}
  {action : WalkM σ α} {next : α → WalkM σ β} {accepted : α → Prop} {admitted : β → Prop}

theorem Settled.reindexed (settled : Settled fit session) (reindexed : session.Reindexed after) :
    Settled fit after := by
  have same : after.document = session.document := by
    rw [Session.document, reindexed.tree, reindexed.next]
    rfl
  exact ⟨same ▸ settled.proper, same ▸ reindexed.state ▸ settled.fit⟩

theorem mem_objects_nodeIn {object : Value} (member : object ∈ (cursor.nodeIn session).objects) :
    object ∈ session.document.tree.objects := by
  unfold Cursor.nodeIn at member
  cases found : session.tree.at? cursor.address with
  | none =>
    rw [found] at member
    cases member
  | some node =>
    rw [found] at member
    exact Value.mem_objects_of_at? found member

theorem Settled.lawful_nodeIn (settled : Settled fit session) (cursor : Cursor) :
    (cursor.nodeIn session).Lawful :=
  fun object member => settled.proper.lawful object (mem_objects_nodeIn member)

theorem Settled.below (settled : Settled fit session)
    (is : (cursor.nodeIn session).kind? = some kind) (other : kind ≠ "Program") :
    cursor.address ≠ [] := by
  intro atRoot
  rw [Cursor.nodeIn, atRoot] at is
  exact other (Option.some.inj (is.symm.trans settled.proper.program))

theorem Settled.lawful_current (settled : Settled fit session) {recorded : Value}
    (lawful : recorded.Lawful) : (session.current recorded).Lawful := by
  rcases Value.current_cases session recorded with is | ⟨_, _, _, member⟩
  · rwa [is]
  · exact fun object inside => settled.proper.lawful object (Value.mem_objects_trans member inside)

/-! ## Actions -/

theorem safe_pure {value : α} (settled : Settled fit session) (holds : accepted value) : Safe fit
    accepted ((pure value : WalkM σ α) session) := ⟨holds, settled⟩

theorem safe_bind (first : Safe fit accepted (action session))
    (second : ∀ value after, accepted value → Settled fit after →
      Safe fit admitted (next value after)) : Safe fit admitted ((action >>= next) session) :=
  ends_bind first fun value after _ accepts => second value after accepts.1 accepts.2

variable {next : Unit → WalkM σ β}

theorem safe_check {fault? : Option SortFault} (fine : fault? = none) (then_ : Safe fit admitted
    (next () session)) : Safe fit admitted ((WalkM.check fault? >>= next) session) := by
  rw [fine]
  exact then_

theorem safe_log (logger : String) (level : Level) (message : List Piece) (settled : Settled fit
    session) (then_ : ∀ after, session.Reindexed after → Settled fit after → Safe fit admitted (next
    () after)) : Safe fit admitted ((WalkM.log logger level message >>= next) session) := by
  have logged : session.Reindexed
      { session with log := session.log ++ [⟨logger, level, message⟩] } := ⟨rfl, rfl, rfl⟩
  exact then_ _ logged (settled.reindexed logged)

/-! ## Replacements -/

variable {answer : Cursor → α} {build : Value.Fresh Value}
  {change : σ → σ} {outcome : EStateM.Result Fault (Session σ) α}

/-- A lawful node can be put in a place below the root if the document is proper then, and
the state fit for it. -/
theorem Placing.safe_of_put (placing : Placing answer build change cursor session outcome)
    (below : cursor.address ≠ [])
    (isNode : (build.run session.next).1.isNode)
    (lawful : (build.run session.next).1.Lawful)
    (put : Settled fit
      { session with
        tree := session.tree.putAt cursor.address (build.run session.next).1
        next := (build.run session.next).2
        state := change session.state })
    (answers : ∀ scope, accepted (answer { cursor with scope := scope })) :
    Safe fit accepted outcome := by
  have surveyable := lawful.sound.surveyable isNode
  cases placing with
  | refused root => exact absurd root below
  | @unread drawn after new fault _ _ isNew ran =>
    obtain ⟨_, _, found⟩ := WalkM.exists_scopeOf (isNew ▸ surveyable) cursor.parentScope
      { drawn with tree := drawn.tree.putAt cursor.address new }
    cases found.symm.trans ran
  | @put drawn after new scope _ draws isNew ran =>
    have reindexed := WalkM.scopeOf_eq_ok ran
    have same : after.document = ⟨session.tree.putAt cursor.address (build.run session.next).1,
        (build.run session.next).2⟩ := by
      rw [Session.document, reindexed.tree, reindexed.next, draws.tree, draws.next, isNew]
    have state := reindexed.state.trans draws.state
    exact ⟨answers scope, same ▸ put.proper, by rw [state]; exact same ▸ put.fit⟩

section Placing

variable (placing : Placing answer build change cursor session outcome)
  (settled : Settled fit session)
  (keeps : ∀ document, fit session.document session.state → fit document (change session.state))
  (answers : ∀ scope, accepted (answer { cursor with scope := scope }))

include placing settled keeps answers

/-- A node that is supplied and fits can be put in a place below the root. -/
theorem Placing.safe (below : cursor.address ≠ [])
    (supplies : session.document.Supplies (build.run session.next).1 (build.run session.next).2)
    (isNode : (build.run session.next).1.isNode)
    (fits : Value.Fits (cursor.nodeIn session) (build.run session.next).1) :
    Safe fit accepted outcome := by
  refine placing.safe_of_put below isNode supplies.lawful ⟨?_, keeps _ settled.fit⟩ answers
  refine settled.proper.put supplies below fun old found => ?_
  rw [Cursor.nodeIn, show session.tree.at? cursor.address = some old from found] at fits
  exact fits

/-- A node is built, and no attribute asks for the kind of the one at the cursor. -/
theorem Placing.safe_of_unpinned (builds : Value.Builds build) (draws : Value.Draws build)
    (is : (cursor.nodeIn session).kind? = some kind) (other : kind ≠ "Program")
    (unpinned : kind ∉ pinnedKinds) : Safe fit accepted outcome :=
  placing.safe settled keeps answers (settled.below is other)
    (Document.supplies_of_draws builds draws session.document) (builds session.next).1
    (Value.fits_of_unpinned is unpinned (builds session.next).1)

end Placing

/-! ## Visitors -/

/-- The actions of the visitor are safe and stay where they are. -/
def Harmless (fit : Document → σ → Prop) (visitor : Visitor σ) : Prop :=
  Acts visitor (fun _ => Settled fit) (fun fault after => fault = .stepLimit ∧ Settled fit after)
    fun cursor _ moved after => moved.address = cursor.address ∧ Settled fit after

variable {visitor : Visitor σ}

theorem governed_settled : Governed (fun _ => Settled fit) (fun _ => True)
    (fun fault after => fault = .stepLimit ∧ Settled fit after)
    fun cursor _ moved after => moved.address = cursor.address ∧ Settled fit after where
  scopes owner _ session _ settled _ found isNode := by
    obtain ⟨scope, after, inScope⟩ := WalkM.exists_scopeOf
      ((settled.proper.lawful.at? found).sound.surveyable isNode) owner.scope session
    have settledThen := settled.reindexed (WalkM.scopeOf_eq_ok inScope)
    rw [inScope]
    exact ⟨settledThen, fun _ _ => settledThen⟩
  follows _ _ _ _ _ := trivial
  rests _ _ settled := ⟨rfl, settled⟩
  settles _ _ _ _ arrives := ⟨arrives.2, fun _ _ => arrives.2⟩
  moves _ _ _ _ _ _ arrives further := ⟨further.1.trans arrives.1, further.2⟩

theorem safe_below (harmless : Harmless fit visitor) (limit : Nat)
    (isNode : (cursor.nodeIn session).isNode) (settled : Settled fit session) :
    Safe fit (fun _ => True) (below limit visitor cursor session) := by
  refine (ends_below governed_settled harmless (fun _ _ settled => ⟨rfl, settled⟩) limit cursor
    settled fun fault is => ?_).imp fun _ _ kept => ⟨trivial, kept cursor settled⟩
  rw [Value.fieldsFault?_of_isNode isNode] at is
  cases is

/-- If all actions of a visitor are safe, a walk fails only by being cut off. -/
theorem safe_start (harmless : Harmless fit visitor) (limit : Nat) {document : Document} {state : σ}
    (proper : document.Proper) (holds : fit document state) : ((start limit visitor document
    state).1 = .ok () ∨ (start limit visitor document state).1 = .error .stepLimit) ∧ Settled fit
    (start limit visitor document state).2 := by
  obtain ⟨root, reached, approaches, _, _, reindexed⟩ :=
    @exists_approach σ (initialSession document state) (proper.lawful.sound.surveyable proper.isNode)
  have settled : Settled fit (initialSession document state) := ⟨proper, holds⟩
  have ends := ends_start governed_settled harmless (fun _ _ settled => ⟨rfl, settled⟩) limit
    (ends_opening governed_settled harmless (by
        rw [approaches]
        exact settled.reindexed reindexed) ?_)
  · rcases ends with ⟨is, _, settled⟩ | ⟨_, is, rfl, settled⟩
    · exact ⟨.inl is, settled⟩
    · exact ⟨.inr is, settled⟩
  · rintro root reached moved after isRoot ⟨stays, settled⟩ fault is
    have atRoot : (moved.nodeIn after).isNode := by
      rw [Cursor.nodeIn, stays, isRoot]
      exact settled.proper.isNode
    rw [Value.fieldsFault?_of_isNode atRoot] at is
    cases is

end Walk

end Unravel
