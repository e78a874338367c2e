import Unravel.Proofs.Walk.Effects

/-!
Contract: what a walk leaves behind, also when it fails.

`Ends` describes an outcome by the results it may have and the faults it may fail
with, `Meets` by the session alone. `ends_start` carries such a description from the
actions of a visitor to a whole walk. Cursors may have to be ready for the actions, and
then stay so while the walk has frames from them.
-/

namespace Unravel

variable {σ : Type} {α β : Type}

namespace Walk

variable {action : WalkM σ α} {next : α → WalkM σ β}

/-! ## Properties of the session an action ends in -/

/-- The result is accepted or the fault admitted, with the session it leaves. -/
def Ends (accepted : α → Session σ → Prop) (admitted : Fault → Session σ → Prop) :
    EStateM.Result Fault (Session σ) α → Prop
  | .ok value after => accepted value after
  | .error fault after => admitted fault after

/-- The session of a result is settled, that of a fault is at least fair. -/
def Meets (settled fair : Session σ → Prop) : EStateM.Result Fault (Session σ) α → Prop :=
  Ends (fun _ => settled) fun _ => fair

variable {settled fair : Session σ → Prop} {session : Session σ}
  {admitted : Fault → Session σ → Prop}

variable {accepted : α → Session σ → Prop}

theorem Ends.imp {further : α → Session σ → Prop} {outcome : EStateM.Result Fault (Session σ) α}
    (ends : Ends accepted admitted outcome) (above : ∀ value after, accepted value after → further
    value after) : Ends further admitted outcome := by
  cases outcome with
  | ok value after => exact above value after ends
  | error fault after => exact ends

theorem ends_of_ok {outcome : EStateM.Result Fault (Session σ) α}
    (holds : ∀ value after, outcome = .ok value after → accepted value after) :
    Ends accepted (fun _ _ => True) outcome := by
  cases outcome with
  | ok value after => exact holds value after rfl
  | error fault after => trivial

theorem ends_bind {further : β → Session σ → Prop} (first : Ends accepted admitted (action session))
    (second : ∀ value after, action session = .ok value after → accepted value after → Ends further
    admitted (next value after)) : Ends further admitted ((action >>= next) session) := by
  rw [WalkM.bind_apply]
  cases ran : action session with
  | error fault after =>
    rw [ran] at first
    exact first
  | ok value after =>
    rw [ran] at first
    exact second value after ran first

theorem meets_bind (first : Meets settled fair (action session)) (second : ∀ value after, action
    session = .ok value after → settled after → Meets settled fair (next value after)) : Meets
    settled fair ((action >>= next) session) := ends_bind first second

/-- The part of a session that looking for a scope does not change. -/
def standing (session : Session σ) : Value × Nat × σ := (session.tree, session.next, session.state)

/-- The properties do not depend on the scope index and the log, and what is
settled is fair. -/
structure Suited (settled fair : Session σ → Prop) : Prop where
  kept : ∀ before after : Session σ, standing after = standing before → settled before →
    settled after
  eased : ∀ session : Session σ, settled session → fair session

theorem Suited.meets (suited : Suited settled fair) (fixes : Fixes standing action)
    (holds : settled session) : Meets settled fair (action session) := by
  have same := (fixes session).1
  cases ran : action session with
  | ok value after =>
    rw [ran] at same
    exact suited.kept session after same holds
  | error fault after =>
    rw [ran] at same
    exact suited.eased after (suited.kept session after same holds)

theorem suited_tree (holds : Value → Prop) :
    Suited (fun session : Session σ => holds session.tree) fun _ => True where
  kept _ _ same := (congrArg (fun stands => holds stands.1) same).mpr
  eased _ _ := trivial

variable {visitor : Visitor σ} {ready : Cursor → Session σ → Prop} {fits : Frame → Prop}
  {arrived : Cursor → Session σ → Cursor → Session σ → Prop}

/-! ## Actions -/

/-- Each action of the visitor, at a node of a kind that it is for, ends as it
should: from a cursor that is ready another is arrived at, or the fault is admitted. -/
def Acts (visitor : Visitor σ) (ready : Cursor → Session σ → Prop)
    (admitted : Fault → Session σ → Prop)
    (arrived : Cursor → Session σ → Cursor → Session σ → Prop) : Prop :=
  ∀ phase kind, ∀ handler ∈ visitor.handlersFor phase kind, ∀ cursor session,
    ready cursor session → (cursor.nodeIn session).kind? = some kind →
      Ends (arrived cursor session) admitted (handler cursor session)

def Actions (visitor : Visitor σ) (settled fair : Session σ → Prop) : Prop :=
  Acts visitor (fun _ => settled) (fun _ => fair) fun _ _ _ => settled

theorem acts_nil : Acts ([] : Visitor σ) ready admitted arrived :=
  fun _ _ _ member => absurd member List.not_mem_nil

variable {kind : String} {handler : Handler σ}

section Handlers

variable (each : ∀ cursor session, ready cursor session →
    (cursor.nodeIn session).kind? = some kind →
      Ends (arrived cursor session) admitted (handler cursor session))
  (others : Acts visitor ready admitted arrived)

include each others

theorem acts_onEnter : Acts (.onEnter kind handler :: visitor) ready admitted arrived := by
  intro phase named action member
  rcases Visitor.mem_handlersFor_onEnter.1 member with ⟨_, rfl, rfl⟩ | later
  · exact each
  · exact others phase named action later

theorem acts_onLeave : Acts (.onLeave kind handler :: visitor) ready admitted arrived := by
  intro phase named action member
  rcases Visitor.mem_handlersFor_onLeave.1 member with ⟨_, rfl, rfl⟩ | later
  · exact each
  · exact others phase named action later

end Handlers

/-! ## Walks -/

/-- The cursor is ready, and so are all that were ready before. -/
def Onward (ready : Cursor → Session σ → Prop) (before : Session σ) (cursor : Cursor)
    (after : Session σ) : Prop :=
  ready cursor after ∧ ∀ other, ready other before → ready other after

/-- Cursors arrive one after the other. -/
structure Arrivals (ready : Cursor → Session σ → Prop)
    (arrived : Cursor → Session σ → Cursor → Session σ → Prop) : Prop where
  rests : ∀ ⦃cursor session⦄, ready cursor session → arrived cursor session cursor session
  settles : ∀ ⦃cursor session moved after⦄, arrived cursor session moved after →
    Onward ready session moved after
  moves : ∀ ⦃cursor session moved middle later after⦄, arrived cursor session moved middle →
    arrived moved middle later after → arrived cursor session later after

theorem arrivals_of_ready (steady : ∀ ⦃moved other before after⦄, ready moved after →
    ready other before → ready other after) : Arrivals ready fun _ _ => ready :=
  ⟨fun _ _ is => is, fun _ _ _ _ is => ⟨is, fun _ => steady is⟩, fun _ _ _ _ _ _ _ is => is⟩

section Arrivals

variable (arrivals : Arrivals ready arrived) {cursor : Cursor}

include arrivals

theorem ends_runHandlers {handlers : List (Handler σ)}
    (each : ∀ handler ∈ handlers, ∀ cursor session, ready cursor session →
      (cursor.nodeIn session).kind? = some kind →
        Ends (arrived cursor session) admitted (handler cursor session))
    (is : (cursor.nodeIn session).kind? = some kind) (isReady : ready cursor session) :
    Ends (arrived cursor session) admitted
      (Visitor.runHandlers kind handlers cursor session) := by
  induction handlers generalizing cursor session with
  | nil => exact arrivals.rests isReady
  | cons handler rest ih =>
    refine ends_bind (each handler List.mem_cons_self cursor session isReady is) ?_
    intro moved after _ arrives
    rw [Cursor.node_bind]
    split
    · rename_i still
      have further := ih (fun other member => each other (List.mem_cons_of_mem _ member)) still
        (arrivals.settles arrives).1
      exact further.imp fun _ _ => arrivals.moves arrives
    · exact arrives

theorem ends_dispatch (acts : Acts visitor ready admitted arrived) (phase : Phase) (cursor : Cursor)
    (isReady : ready cursor session) :
    Ends (arrived cursor session) admitted (visitor.dispatch phase cursor session) := by
  cases is : (cursor.nodeIn session).kind? with
  | some kind =>
    rw [Visitor.dispatch_apply is]
    exact ends_runHandlers arrivals (acts phase kind) is isReady
  | none =>
    rw [Visitor.dispatch_unhandled (by simp [is])]
    exact arrivals.rests isReady

end Arrivals

/-- What a walk does between the actions ends as it should, and the frames of a cursor
that is ready fit. -/
structure Governed (ready : Cursor → Session σ → Prop) (fits : Frame → Prop)
    (admitted : Fault → Session σ → Prop)
    (arrived : Cursor → Session σ → Cursor → Session σ → Prop) : Prop
    extends Arrivals ready arrived where
  scopes : ∀ ⦃owner slot session value⦄, ready owner session → fits (.entering owner slot) →
    session.tree.at? (owner.address ++ [slot]) = some value → value.isNode →
      Ends (fun scope => Onward ready session ⟨owner.address ++ [slot], scope, owner.scope, false⟩)
        admitted (WalkM.scopeOf value owner.scope session)
  follows : ∀ ⦃cursor session⦄, ready cursor session →
    ∀ frame ∈ framesOf cursor (cursor.nodeIn session), fits frame

theorem Suited.governed (suited : Suited settled fair) :
    Governed (fun _ => settled) (fun _ => True) (fun _ => fair) fun _ _ _ => settled where
  scopes _ _ _ _ holds _ _ _ := (suited.meets (fixes_scopeOf (fun _ _ _ => rfl) _ _) holds).imp
    fun _ _ kept => ⟨kept, fun _ _ => kept⟩
  follows _ _ _ _ _ := trivial
  toArrivals := arrivals_of_ready fun _ _ _ _ holds _ => holds

/-- Frames from cursors that are ready. -/
def Awaits (ready : Cursor → Session σ → Prop) (fits : Frame → Prop) (frames : List Frame)
    (session : Session σ) : Prop :=
  ∀ frame ∈ frames, ready frame.cursor session ∧ fits frame

/-- Frames of a walk in which cursors are ready. -/
def Opened (ready : Cursor → Session σ → Prop) (fits : Frame → Prop) (frames : List Frame)
    (session : Session σ) : Prop :=
  (∃ root, ready root session) ∧ Awaits ready fits frames session

section Governed

variable (governed : Governed ready fits admitted arrived) {cursor : Cursor} {frames : List Frame}

include governed

theorem Governed.awaits (isReady : ready cursor session) :
    Awaits ready fits (framesOf cursor (cursor.nodeIn session)) session := by
  intro frame member
  rw [cursor_of_mem_framesOf member]
  exact ⟨isReady, governed.follows isReady frame member⟩

variable (acts : Acts visitor ready admitted arrived)

include acts

/-- A visit leaves cursors ready, and so are those of the frames that follow. -/
theorem ends_step (frame : Frame) (isReady : ready frame.cursor session) (fit : fits frame) :
    Ends (fun following after => (∀ other, ready other session → ready other after) ∧
      Awaits ready fits following after) admitted (step visitor frame session) := by
  cases frame with
  | leaving cursor =>
    exact ends_bind (ends_dispatch governed.toArrivals acts .leaving cursor isReady)
      fun _ _ _ arrives => ⟨(governed.settles arrives).2, List.forall_mem_nil _⟩
  | entering owner slot =>
    rcases Value.node_or_absent session.tree (owner.address ++ [slot]) with
      ⟨value, found, isNode⟩ | absent
    · rw [step_entering_of_isNode found isNode]
      refine ends_bind (governed.scopes isReady fit found isNode) ?_
      rintro scope reached _ ⟨readyThere, kept⟩
      refine ends_bind (ends_dispatch governed.toArrivals acts .entering _ readyThere) ?_
      intro moved after _ arrives
      obtain ⟨readyThen, keptThen⟩ := governed.settles arrives
      rw [Cursor.node_bind]
      split
      · exact ⟨fun other was => keptThen other (kept other was), List.forall_mem_nil _⟩
      · exact ⟨fun other was => keptThen other (kept other was), governed.awaits readyThen⟩
    · rw [step_entering_of_absent absent]
      exact ⟨fun _ was => was, List.forall_mem_nil _⟩

theorem ends_awaits {frame : Frame} (awaits : Awaits ready fits (frame :: frames) session) :
    Ends (fun following after => (∀ other, ready other session → ready other after) ∧
      Awaits ready fits (following ++ frames) after) admitted (step visitor frame session) := by
  obtain ⟨here, others⟩ := List.forall_mem_cons.1 awaits
  refine (ends_step governed acts frame here.1 here.2).imp fun _ _ ends => ⟨ends.1, ?_⟩
  exact List.forall_mem_append.2 ⟨ends.2, fun other member =>
    ⟨ends.1 _ (others other member).1, (others other member).2⟩⟩

theorem keeps_opened : Keeps visitor (Opened ready fits) := by
  rintro frame rest session following after ⟨⟨root, isReady⟩, awaits⟩ visits
  have ends := ends_awaits governed acts awaits
  rw [visits] at ends
  exact ⟨⟨root, ends.1 root isReady⟩, ends.2⟩

theorem ends_opening (approaches : Ends ready admitted (approach session))
    (faulty : ∀ ⦃root reached moved after⦄, root.address = [] → arrived root reached moved after →
      ∀ fault, (moved.nodeIn after).fieldsFault? = some fault → admitted (.sort fault) after) :
    Ends (Opened ready fits) admitted (opening visitor session) := by
  refine ends_bind approaches fun root reached approached isReady => ?_
  refine ends_bind (ends_dispatch governed.toArrivals acts .entering root isReady) fun moved after _ arrives => ?_
  have readyThen := (governed.settles arrives).1
  split
  · exact ⟨⟨moved, readyThen⟩, List.forall_mem_nil _⟩
  · rw [Cursor.node_bind]
    cases is : (moved.nodeIn after).fieldsFault? with
    | some fault => exact faulty (approach_eq_ok approached).2.1 arrives fault is
    | none => exact ⟨⟨moved, readyThen⟩, governed.awaits readyThen⟩

variable (cut : ∀ cursor session, ready cursor session → admitted .stepLimit session)

include cut

theorem ends_run (limit : Nat) (awaits : Awaits ready fits frames session) :
    Ends (fun _ after => ∀ other, ready other session → ready other after) admitted
      (run visitor limit frames session) := by
  induction limit generalizing frames session with
  | zero =>
    cases frames with
    | nil => exact fun _ was => was
    | cons frame rest => exact cut _ _ (awaits frame List.mem_cons_self).1
  | succ limit ih =>
    cases frames with
    | nil => exact fun _ was => was
    | cons frame rest =>
      refine ends_bind (ends_awaits governed acts awaits) fun following after _ ends => ?_
      exact (ih ends.2).imp fun _ _ kept other was => kept other (ends.1 other was)

theorem ends_below (limit : Nat) (cursor : Cursor) (isReady : ready cursor session)
    (faulty : ∀ fault, (cursor.nodeIn session).fieldsFault? = some fault →
      admitted (.sort fault) session) :
    Ends (fun _ after => ∀ other, ready other session → ready other after) admitted
      (below limit visitor cursor session) := by
  rw [below_apply]
  split
  · rename_i fault is
    exact faulty fault is
  · exact ends_run governed acts cut limit fun frame member =>
      governed.awaits isReady frame (List.mem_append_left _ member)

/-- A walk leaves a cursor ready if its actions do; where it fails, it leaves what they
leave there. -/
theorem ends_start (limit : Nat) {document : Document} {state : σ}
    (opens : Ends (Opened ready fits) admitted (opening visitor (initialSession document state))) :
    ((start limit visitor document state).1 = .ok () ∧
        ∃ root, ready root (start limit visitor document state).2) ∨
      ∃ fault, (start limit visitor document state).1 = .error fault ∧
        admitted fault (start limit visitor document state).2 := by
  rw [start_eq]
  cases opened : opening visitor (initialSession document state) with
  | error fault after =>
    rw [opened] at opens
    exact .inr ⟨fault, rfl, opens⟩
  | ok frames reached =>
    rw [opened] at opens
    obtain ⟨⟨root, isReady⟩, awaits⟩ := opens
    have runs := ends_run governed acts cut limit awaits
    dsimp only
    cases ran : run visitor limit frames reached with
    | error fault after =>
      rw [ran] at runs
      exact .inr ⟨fault, rfl, runs⟩
    | ok _ after =>
      rw [ran] at runs
      exact .inl ⟨rfl, root, runs root isReady⟩

end Governed

section Suited

variable (suited : Suited settled fair) (actions : Actions visitor settled fair)

include suited actions

theorem meets_step (frame : Frame) (holds : settled session) :
    Meets settled fair (step visitor frame session) :=
  (ends_step suited.governed actions frame holds trivial).imp
    fun _ _ ends => ends.1 frame.cursor holds

theorem keeps_settled : Keeps visitor fun _ => settled := by
  intro frame rest session following after holds visits
  have ends := meets_step suited actions frame holds
  rw [visits] at ends
  exact ends

theorem meets_below (limit : Nat) (cursor : Cursor) (holds : settled session) :
    Meets settled fair (below limit visitor cursor session) :=
  (ends_below suited.governed actions (fun _ => suited.eased) limit cursor holds
    fun _ _ => suited.eased session holds).imp fun _ _ kept => kept cursor holds

theorem meets_opening (holds : settled session) : Ends (Opened (fun _ => settled) fun _ => True)
    (fun _ => fair) (opening visitor session) :=
  ends_opening suited.governed actions (suited.meets (fixes_approach fun _ _ _ => rfl) holds)
    fun _ _ _ after _ arrives _ _ => suited.eased after arrives

theorem meets_start (limit : Nat) {document : Document} {state : σ}
    (holds : settled (initialSession document state)) :
    ((start limit visitor document state).1 = .ok () ∧
        ∃ _ : Cursor, settled (start limit visitor document state).2) ∨
      ∃ fault, (start limit visitor document state).1 = .error fault ∧
        fair (start limit visitor document state).2 :=
  ends_start suited.governed actions (fun _ => suited.eased) limit
    (meets_opening suited actions holds)

end Suited

end Walk

end Unravel
