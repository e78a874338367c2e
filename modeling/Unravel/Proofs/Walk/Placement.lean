import Unravel.Proofs.Walk.Reading

/-!
Contract: a walk stays in scopes of its index, which only grows.

`keeps_placed` carries a fact about the index and the state of a pass through a
walk: it is enough that it outlives the growth of the index and that actions
keep it.
-/

namespace Unravel

variable {σ : Type}

/-- The scopes of a cursor are of the index. -/
structure Cursor.Within (cursor : Cursor) (index : ScopeIndex) : Prop where
  scope : index.Has cursor.scope
  parentScope : index.Has cursor.parentScope

theorem Cursor.Within.grows {cursor : Cursor} {index later : ScopeIndex}
    (within : cursor.Within index) (grows : index.Grows later) : cursor.Within later :=
  ⟨within.scope.grows grows, within.parentScope.grows grows⟩

/-- The session has a nested index that has grown out of an earlier one. -/
structure Session.Evolves (before after : Session σ) : Prop where
  grows : before.index.Grows after.index
  nested : after.index.Nested

theorem Session.Evolves.refl {session : Session σ} (nested : session.index.Nested) : session.Evolves
    session := ⟨.refl _, nested⟩

namespace WalkM

variable {session after : Session σ}

theorem has_known? {index : ScopeIndex} (nested : index.Nested) (value : Value) :
    index.Has (index.known? value) := by
  intro number known
  obtain ⟨label, _, owner⟩ := Option.bind_eq_some_iff.1 known
  exact nested.owners owner

theorem scopeOf_evolves {value : Value} {outer scope : Option Nat} (nested : session.index.Nested)
    (has : session.index.Has outer) (ran : scopeOf value outer session = .ok scope after) :
    session.Evolves after ∧ after.index.Has scope := by
  refine scopeOf_cases (motive := fun outcome => outcome = .ok scope after →
    session.Evolves after ∧ after.index.Has scope) value outer session ?_ ?_ ?_ ran
  · rintro ⟨⟩
    exact ⟨.refl nested, (has_known? nested value).or has⟩
  · exact nofun
  · rintro ⟨⟩
    obtain ⟨grows, stillNested⟩ := ScopeIndex.grows_extend value nested has
    exact ⟨⟨grows, stillNested⟩, (has_known? stillNested value).or (has.grows grows)⟩

end WalkM

namespace Walk

variable {visitor : Visitor σ} {session after : Session σ}

variable {cursor : Cursor} {document : Document} {state : σ} {frames : List Frame}

/-- A walk in nested scopes, all of which its index has. -/
structure Placed (frames : List Frame) (session : Session σ) : Prop where
  nested : session.index.Nested
  within : ∀ frame ∈ frames, frame.cursor.Within session.index

/-- An action keeps a walk in its scopes, and a fact about them and the state. -/
def Handler.Places (handler : Handler σ) (invariant : ScopeIndex → σ → Prop) : Prop :=
  ∀ ⦃cursor session moved after⦄, session.index.Nested → cursor.Within session.index →
    invariant session.index session.state → handler cursor session = .ok moved after →
      session.Evolves after ∧ moved.Within after.index ∧ invariant after.index after.state

/-- A fact about the index and the state outlives the growth of the index. -/
def Outlives (invariant : ScopeIndex → σ → Prop) : Prop := ∀ ⦃index later state⦄, index.Nested →
  index.Grows later → invariant index state → invariant later state

variable {invariant : ScopeIndex → σ → Prop}

/-- A cursor in scopes of a nested index, with a fact about the index and the state. -/
structure Seated (invariant : ScopeIndex → σ → Prop) (cursor : Cursor) (session : Session σ) :
    Prop where
  nested : session.index.Nested
  within : cursor.Within session.index
  holds : invariant session.index session.state

theorem Session.Evolves.onward {moved : Cursor} (evolves : session.Evolves after)
    (within : moved.Within after.index) (holds : invariant after.index after.state) :
    Onward (Seated invariant) session moved after :=
  ⟨⟨evolves.nested, within, holds⟩, fun _ was =>
    ⟨evolves.nested, was.within.grows evolves.grows, holds⟩⟩

section

variable (outlives : Outlives invariant)

include outlives

theorem governed_seated : Governed (Seated invariant) (fun _ => True) (fun _ _ => True)
    fun _ => Onward (Seated invariant) where
  scopes owner _ session value seated _ _ _ := ends_of_ok fun scope after ran => by
    obtain ⟨evolves, hasScope⟩ := WalkM.scopeOf_evolves seated.nested seated.within.scope ran
    refine Session.Evolves.onward evolves ⟨hasScope, seated.within.scope.grows evolves.grows⟩ ?_
    rw [(WalkM.scopeOf_eq_ok ran).state]
    exact outlives seated.nested evolves.grows seated.holds
  follows _ _ _ _ _ := trivial
  rests _ _ seated := ⟨seated, fun _ was => was⟩
  settles _ _ _ _ onward := onward
  moves _ _ _ _ _ _ first second := ⟨second.1, fun other was => second.2 other (first.2 other was)⟩

end

theorem acts_of_places (each : ∀ phase kind, ∀ handler ∈ visitor.handlersFor phase kind,
    Handler.Places handler invariant) : Acts visitor (Seated invariant) (fun _ _ => True)
      fun _ => Onward (Seated invariant) := by
  refine fun phase kind handler member cursor session seated _ => ends_of_ok fun moved after ran => ?_
  obtain ⟨evolves, within, kept⟩ :=
    each phase kind handler member seated.nested seated.within seated.holds ran
  exact Session.Evolves.onward evolves within kept

section

variable (outlives : Outlives invariant) (each : ∀ phase kind, ∀ handler ∈
  visitor.handlersFor phase kind, Handler.Places handler invariant)

include outlives each

/-- What outlives the growth of the index and is kept by the actions is kept by
a walk. -/
theorem keeps_placed : Keeps visitor fun frames session =>
    Placed frames session ∧ invariant session.index session.state := by
  rintro frame rest session following after ⟨placed, holds⟩ visits
  obtain ⟨⟨_, seated⟩, awaits⟩ := keeps_opened (governed_seated outlives) (acts_of_places each)
    ⟨⟨_, placed.nested, placed.within frame List.mem_cons_self, holds⟩, fun other member =>
      ⟨⟨placed.nested, placed.within other member, holds⟩, trivial⟩⟩ visits
  exact ⟨⟨seated.nested, fun other member => (awaits other member).1.within⟩, seated.holds⟩

theorem below_places {limit : Nat} {result : Unit} (nested : session.index.Nested)
    (within : cursor.Within session.index) (holds : invariant session.index session.state)
    (ran : below limit visitor cursor session = .ok result after) :
    session.Evolves after ∧ invariant after.index after.state := by
  have grownOut : Outlives fun index state => session.index.Grows index ∧ invariant index state :=
    fun _ _ _ nested grows holds => ⟨holds.1.trans grows, outlives nested grows holds.2⟩
  have ends : Ends _ _ (below limit visitor cursor session) :=
    ends_below (governed_seated grownOut) (acts_of_places ?_) (fun _ _ _ => trivial) limit cursor
      ⟨nested, within, .refl _, holds⟩ fun _ _ => trivial
  · rw [ran] at ends
    obtain ⟨nestedThen, _, grown, kept⟩ := ends cursor ⟨nested, within, .refl _, holds⟩
    exact ⟨⟨grown, nestedThen⟩, kept⟩
  · rintro phase kind handler member cursor reached moved after nested within ⟨grown, holds⟩ acts
    obtain ⟨evolves, movedWithin, kept⟩ := each phase kind handler member nested within holds acts
    exact ⟨evolves, movedWithin, grown.trans evolves.grows, kept⟩

end

/-! ## Whole walks -/

/-- The frames and sessions that a walk from a session comes to. -/
inductive Reached (visitor : Visitor σ) (start : Session σ) : List Frame → Session σ → Prop where
  | opened {frames : List Frame} {session : Session σ}
      (opens : opening visitor start = .ok frames session) : Reached visitor start frames session
  | visited {frame : Frame} {following rest : List Frame} {session after : Session σ} (reached :
      Reached visitor start (frame :: rest) session) (visits : step visitor frame session = .ok
      following after) : Reached visitor start (following ++ rest) after

/-- The frames and the session that a number of visits leads to. -/
def advance (visitor : Visitor σ) : Nat → List Frame → Session σ → Option (List Frame × Session σ)
  | 0, frames, session => some (frames, session)
  | _ + 1, [], _ => none
  | visits + 1, frame :: rest, session =>
    match step visitor frame session with
    | .ok following after => advance visitor visits (following ++ rest) after
    | .error _ _ => none

variable {start : Session σ} {visits : Nat}

theorem Reached.advance {frames later : List Frame} (reached : Reached visitor start frames session)
    (advances : advance visitor visits frames session = some (later, after)) : Reached visitor start
    later after := by
  induction visits generalizing frames session with
  | zero =>
    cases advances
    exact reached
  | succ visits ih =>
    cases frames with
    | nil => cases advances
    | cons frame rest =>
      rw [Walk.advance] at advances
      split at advances
      · rename_i visited
        exact ih (.visited reached visited) advances
      · cases advances

/-- Whether what a number of visits leads to passes a test. -/
def passesAfter (visitor : Visitor σ) (start : Session σ) (visits : Nat)
    (test : List Frame → Session σ → Bool) : Bool :=
  match opening visitor start with
  | .error _ _ => false
  | .ok frames session =>
    match advance visitor visits frames session with
    | none => false
    | some (later, after) => test later after

theorem exists_reached {test : List Frame → Session σ → Bool} (passes : passesAfter visitor start
    visits test) : ∃ frames session, Reached visitor start frames session ∧ test frames session
    := by
  unfold passesAfter at passes
  split at passes
  · cases passes
  · rename_i frames session opens
    split at passes
    · cases passes
    · rename_i later after advances
      exact ⟨later, after, (Reached.opened opens).advance advances, passes⟩

/-- A walk sets out with the index of the tree, or more. -/
theorem approach_evolves {root : Cursor} (ran : approach (initialSession document state) = .ok root
    after) : (ScopeIndex.build document.tree).Nested ∧ (ScopeIndex.build document.tree).Grows
    after.index ∧ after.index.Nested ∧ root.Within after.index := by
  obtain ⟨scope, rfl, inScope⟩ := exists_of_approach ran
  obtain ⟨_, nested⟩ := ScopeIndex.grows_extend document.tree ScopeIndex.nested_empty
    (ScopeIndex.has_none _)
  obtain ⟨evolves, hasScope⟩ := WalkM.scopeOf_evolves nested (ScopeIndex.has_none _) inScope
  exact ⟨nested, evolves.grows, evolves.nested, hasScope, ScopeIndex.has_none _⟩

theorem Reached.keeps {ready : Cursor → Session σ → Prop} {fits : Frame → Prop}
    {admitted : Fault → Session σ → Prop} {arrived : Cursor → Session σ → Cursor → Session σ → Prop}
    (governed : Governed ready fits admitted arrived) (acts : Acts visitor ready admitted arrived)
    (opens : Ends (Opened ready fits) admitted (opening visitor start))
    (reached : Reached visitor start frames session) : Opened ready fits frames session := by
  induction reached with
  | opened ran =>
    rw [ran] at opens
    exact opens
  | visited _ visits ih => exact keeps_opened governed acts ih visits

theorem Reached.placed (outlives : Outlives invariant) (each : ∀ phase kind, ∀ handler ∈
    visitor.handlersFor phase kind, Handler.Places handler invariant) (holds : invariant (.build
    document.tree) state) (reached : Reached visitor (initialSession document state) frames session)
    : Placed frames session ∧ invariant session.index session.state := by
  have approaches : Ends (Seated invariant) (fun _ _ => True)
      (approach (initialSession document state)) := ends_of_ok fun root after approached => by
    obtain ⟨built, came, nested, within⟩ := approach_evolves approached
    refine ⟨nested, within, ?_⟩
    rw [(approach_eq_ok approached).1.state]
    exact outlives built came holds
  have governed := governed_seated outlives
  have acts := acts_of_places each
  obtain ⟨⟨_, seated⟩, awaits⟩ := reached.keeps governed acts
    (ends_opening governed acts approaches fun _ _ _ _ _ _ _ _ => trivial)
  exact ⟨⟨seated.nested, fun frame member => (awaits frame member).1.within⟩, seated.holds⟩

end Walk

end Unravel
