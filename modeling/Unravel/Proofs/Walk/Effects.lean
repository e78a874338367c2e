import Unravel.Proofs.Tree.Addresses
import Unravel.Proofs.Walk.Ending

/-!
Contract: what the actions of a walk leave alone.

Looking for a scope may extend the scope index and the log and changes nothing
else. `Fixes view action` says that the action does not change a view of the session,
whatever comes of it, and never fails with `stepLimit`. So do the basic actions, and so
does what is built from them.
-/

namespace Unravel

variable {σ : Type}

/-- The sessions differ at most in the scope index and the log. -/
structure Session.Reindexed (before after : Session σ) : Prop where
  tree : after.tree = before.tree
  next : after.next = before.next
  state : after.state = before.state

theorem Session.Reindexed.refl (session : Session σ) : session.Reindexed session := ⟨rfl, rfl, rfl⟩

/-- The session with a tree in a scope added to its index. -/
def Session.surveyed (session : Session σ) (value : Value) (outer : Option Nat) : Session σ :=
  let index := session.index.extend value outer
  { session with
    index := index
    log := session.log ++
      [⟨WalkM.scopeLogger, .debug,
        [.text ("indexed " ++ toString index.scopes.length ++ " scopes")]⟩] }

namespace WalkM

variable {session after : Session σ}

variable {value : Value} {fault? : Option SortFault} {result : Unit} {outer : Option Nat} {α : Type}

theorem check_eq_ok :
    check fault? session = .ok result after ↔ fault? = none ∧ after = session := by
  cases fault? with
  | none =>
    change EStateM.Result.ok () session = .ok result after ↔ _
    simp [eq_comm]
  | some fault =>
    change EStateM.Result.error (Fault.sort fault) session = .ok result after ↔ _
    simp

theorem indexTree_apply (value : Value) (outer : Option Nat) (session : Session σ) :
    indexTree value outer session =
      match value.surveyFault? outer.isSome with
      | some fault => .error (.sort fault) session
      | none => .ok () (session.surveyed value outer) := by
  unfold indexTree
  cases value.surveyFault? outer.isSome <;> rfl

/-- Looking for a scope finds it, or fails to add the node to the index, or adds it. -/
theorem scopeOf_cases {motive : EStateM.Result Fault (Session σ) (Option Nat) → Prop} (value :
    Value) (outer : Option Nat) (session : Session σ) (finds : motive (.ok ((session.index.known?
    value).or outer) session)) (fails : ∀ fault, value.surveyFault? outer.isSome = some fault →
    motive (.error (.sort fault) session)) (adds : motive (.ok (((session.surveyed value
    outer).index.known? value).or outer) (session.surveyed value outer))) : motive (scopeOf value
    outer session) := by
  unfold scopeOf
  rw [bind_apply]
  dsimp only [get, getThe, MonadStateOf.get, EStateM.get]
  cases known : session.index.known? value with
  | some scope =>
    rw [known] at finds
    exact finds
  | none =>
    rw [known] at finds
    dsimp only
    split
    · rw [bind_apply, indexTree_apply]
      cases faulty : value.surveyFault? outer.isSome with
      | some fault => exact fails fault faulty
      | none =>
        rw [← Option.orElse_eq_or (f := fun _ => outer)] at adds
        exact adds
    · exact finds

theorem scopeOf_eq_ok {scope : Option Nat} (ran : scopeOf value outer session = .ok scope after) :
    session.Reindexed after := by
  refine scopeOf_cases (motive := fun outcome => outcome = .ok scope after → session.Reindexed after)
    value outer session ?_ ?_ ?_ ran
  · rintro ⟨⟩
    exact .refl _
  · exact nofun
  · rintro ⟨⟩
    exact ⟨rfl, rfl, rfl⟩

theorem scopeOf_of_known {scope : Nat} (known : session.index.known? value = some scope) :
    scopeOf value outer session = .ok (some scope) session := by
  unfold scopeOf
  rw [bind_apply]
  dsimp only [get, getThe, MonadStateOf.get, EStateM.get]
  rw [known]
  rfl

/-- A node that opens no scope is in the scope it is known to be in, else in the
one around it. -/
theorem scopeOf_of_plain (plain : value.createsScope = false) (outer : Option Nat)
    (session : Session σ) :
    scopeOf value outer session = .ok ((session.index.known? value).or outer) session := by
  cases known : session.index.known? value with
  | some scope => exact scopeOf_of_known known
  | none =>
    unfold scopeOf
    rw [bind_apply]
    dsimp only [get, getThe, MonadStateOf.get, EStateM.get]
    rw [known]
    rw [plain]
    rfl

theorem get_bind {β : Type} (next : Session σ → WalkM σ β) (session : Session σ) : ((get : WalkM σ
    (Session σ)) >>= next) session = next session session := rfl

theorem getState_bind {β : Type} (next : σ → WalkM σ β) (session : Session σ) : (getState >>= next)
    session = next session.state session := rfl

theorem check_none_bind {β : Type} (next : Unit → WalkM σ β) (session : Session σ) : (check none >>=
    next) session = next () session := rfl

end WalkM

/-! ## One visit -/

namespace Cursor

/-- The node at a cursor in a session. -/
def nodeIn (cursor : Cursor) (session : Session σ) : Value :=
  (session.tree.at? cursor.address).getD .null

theorem node_apply (cursor : Cursor) (session : Session σ) :
    cursor.node session = .ok (cursor.nodeIn session) session :=
  rfl

theorem node_bind {β : Type} (cursor : Cursor) (next : Value → WalkM σ β) (session : Session σ) :
    (cursor.node >>= next) session = next (cursor.nodeIn session) session :=
  rfl

/-- The parent of the node at a cursor in a session. -/
def parentIn (cursor : Cursor) (session : Session σ) : Value :=
  if cursor.address.isEmpty then .null else (session.tree.at? cursor.address.dropLast).getD .null

theorem parent_apply (cursor : Cursor) (session : Session σ) :
    cursor.parent session = .ok (cursor.parentIn session) session := by
  unfold parent parentIn
  split <;> rfl

theorem put_apply (cursor : Cursor) (new : Value) (session : Session σ) :
    cursor.put new session = .ok () { session with tree := session.tree.putAt cursor.address new } :=
  rfl

theorem replace_apply {cursor : Cursor} (below : cursor.address ≠ []) (new : Value) (session :
    Session σ) : cursor.replace new session =
      match WalkM.scopeOf new cursor.parentScope
          { session with tree := session.tree.putAt cursor.address new } with
      | .ok scope after => .ok { cursor with scope := scope } after
      | .error fault after => .error fault after := by
  have notRoot : ¬ cursor.address.isEmpty := fun isEmpty =>
    below (List.isEmpty_iff.1 isEmpty)
  unfold replace
  dsimp only
  rw [if_neg notRoot, WalkM.bind_apply, put_apply]
  dsimp only
  rw [WalkM.bind_apply]
  cases WalkM.scopeOf new cursor.parentScope
    { session with tree := session.tree.putAt cursor.address new } <;> rfl

theorem replace_eq_ok {cursor moved : Cursor} {session after : Session σ} {new : Value}
    (ran : cursor.replace new session = .ok moved after) :
    cursor.address ≠ [] ∧ ∃ scope, moved = { cursor with scope := scope } ∧
      WalkM.scopeOf new cursor.parentScope
        { session with tree := session.tree.putAt cursor.address new } = .ok scope after := by
  by_cases root : cursor.address = []
  · unfold replace at ran
    rw [if_pos (List.isEmpty_iff.2 root)] at ran
    cases ran
  · rw [replace_apply root] at ran
    split at ran
    · rename_i scope reached found
      cases ran
      exact ⟨root, scope, rfl, found⟩
    · cases ran

end Cursor

namespace Visitor

variable {visitor : Visitor σ} {phase : Phase} {cursor moved : Cursor} {session after : Session σ}

variable {kind : String}

variable {named : String} {rest : Visitor σ} {handler action : Handler σ}

theorem mem_handlersFor_cons {rule : Rule σ} : action ∈ handlersFor (rule :: rest) phase named ↔
      (rule.handler? phase = some action ∧ named ∈ rule.kinds) ∨
        action ∈ rest.handlersFor phase named := by
  have own : action ∈ rule.handlersFor phase named ↔
      rule.handler? phase = some action ∧ named ∈ rule.kinds := by
    unfold Rule.handlersFor
    cases rule.handler? phase <;> simp [List.mem_replicate, List.count_eq_zero, eq_comm, and_comm]
  rw [handlersFor, List.flatMap_cons, List.mem_append, own]
  rfl

theorem mem_handlersFor_onEnter : action ∈ handlersFor (.onEnter kind handler :: rest) phase named ↔
    (phase = .entering ∧ named = kind ∧ action = handler) ∨ action ∈ rest.handlersFor phase named :=
    by
  rw [mem_handlersFor_cons]
  cases phase <;> simp [Rule.onEnter, Rule.handler?, and_comm, eq_comm]

theorem mem_handlersFor_onLeave : action ∈ handlersFor (.onLeave kind handler :: rest) phase named ↔
    (phase = .leaving ∧ named = kind ∧ action = handler) ∨ action ∈ rest.handlersFor phase named :=
    by
  rw [mem_handlersFor_cons]
  cases phase <;> simp [Rule.onLeave, Rule.handler?, and_comm, eq_comm]

theorem dispatch_apply (is : (cursor.nodeIn session).kind? = some kind) : visitor.dispatch phase
    cursor session = runHandlers kind (visitor.handlersFor phase kind) cursor session := by
  unfold dispatch
  rw [Cursor.node_bind]
  simp only [is]

theorem dispatch_unhandled (unhandled : ∀ kind, (cursor.nodeIn session).kind? = some kind →
      visitor.handlersFor phase kind = []) :
    visitor.dispatch phase cursor session = .ok cursor session := by
  cases is : (cursor.nodeIn session).kind? with
  | some kind =>
    rw [dispatch_apply is, unhandled kind is]
    rfl
  | none =>
    unfold dispatch
    rw [Cursor.node_bind]
    simp only [is]
    rfl

theorem runHandlers_singleton (kind : String) (handler : Handler σ) (cursor : Cursor)
    (session : Session σ) : runHandlers kind [handler] cursor session = handler cursor session := by
  unfold runHandlers
  rw [WalkM.bind_apply]
  cases handler cursor session with
  | error fault after => rfl
  | ok moved after =>
    dsimp only
    rw [Cursor.node_bind]
    split <;> rfl

end Visitor

/-- The cursor that a frame starts from. -/
def Frame.cursor : Frame → Cursor
  | .entering owner _ => owner
  | .leaving cursor => cursor

namespace Walk

variable {visitor : Visitor σ} {owner cursor : Cursor} {slot : Slot} {session after : Session σ}
  {following : List Frame}

theorem step_leaving_apply (visitor : Visitor σ) (cursor : Cursor) (session : Session σ) :
    step visitor (.leaving cursor) session =
      match visitor.dispatch .leaving cursor session with
      | .ok _ after => .ok [] after
      | .error fault after => .error fault after := by
  simp only [step]
  rw [WalkM.bind_apply]
  cases visitor.dispatch .leaving cursor session <;> rfl

theorem step_entering_of_absent
    (absent : ∀ value, session.tree.at? (owner.address ++ [slot]) = some value →
      value.isNode = false) : step visitor (.entering owner slot) session = .ok [] session := by
  simp only [step]
  rw [WalkM.get_bind]
  cases found : session.tree.at? (owner.address ++ [slot]) with
  | none => rfl
  | some value =>
    simp only [absent value found]
    rfl

variable {value : Value} {root : Cursor} {reached : Session σ}

theorem step_entering_of_isNode (found : session.tree.at? (owner.address ++ [slot]) = some value)
    (isNode : value.isNode) :
    step visitor (.entering owner slot) session = enterNode visitor owner slot value session := by
  simp only [step]
  rw [WalkM.get_bind]
  simp only [found, isNode, ↓reduceIte]

theorem approach_apply (session : Session σ) : approach session =
      match session.tree.surveyFault? false with
      | some fault => .error (.sort fault) session
      | none =>
        match WalkM.scopeOf session.tree none (session.surveyed session.tree none) with
        | .ok scope after => .ok ⟨[], scope, none, false⟩ after
        | .error fault after => .error fault after := by
  unfold approach
  rw [WalkM.get_bind, WalkM.bind_apply, WalkM.indexTree_apply]
  rw [show (none : Option Nat).isSome = false from rfl]
  cases session.tree.surveyFault? false with
  | some fault => rfl
  | none =>
    dsimp only
    rw [WalkM.get_bind, WalkM.bind_apply,
      show (session.surveyed session.tree none).tree = session.tree from rfl]
    cases WalkM.scopeOf session.tree none (session.surveyed session.tree none) <;> rfl

theorem exists_of_approach (ran : approach session = .ok root after) :
    ∃ scope, root = ⟨[], scope, none, false⟩ ∧
      WalkM.scopeOf session.tree none (session.surveyed session.tree none) = .ok scope after := by
  rw [approach_apply] at ran
  split at ran
  · cases ran
  · split at ran
    · rename_i scope reached inScope
      cases ran
      exact ⟨scope, rfl, inScope⟩
    · cases ran

theorem approach_eq_ok (ran : approach session = .ok root after) :
    session.Reindexed after ∧ root.address = [] ∧ root.skipped = false := by
  obtain ⟨scope, rfl, inScope⟩ := exists_of_approach ran
  obtain ⟨tree, next, state⟩ := WalkM.scopeOf_eq_ok inScope
  exact ⟨⟨tree, next, state⟩, rfl, rfl⟩

/-- The frames of the children of a node, and of leaving it. -/
def framesOf (cursor : Cursor) (value : Value) : List Frame :=
  value.childSlots.map (.entering cursor) ++ [.leaving cursor]

theorem cursor_of_mem_framesOf {frame : Frame}
    (member : frame ∈ framesOf cursor value) : frame.cursor = cursor := by
  rcases List.mem_append.1 member with child | own
  · obtain ⟨slot, _, rfl⟩ := List.mem_map.1 child
    rfl
  · cases List.mem_singleton.1 own
    rfl

theorem below_apply (limit : Nat) (visitor : Visitor σ) (cursor : Cursor) (session : Session σ) :
    below limit visitor cursor session =
      match (cursor.nodeIn session).fieldsFault? with
      | some fault => .error (.sort fault) session
      | none =>
        run visitor limit ((cursor.nodeIn session).childSlots.map (.entering cursor)) session := by
  unfold below
  rw [Cursor.node_bind]
  cases (cursor.nodeIn session).fieldsFault? <;> rfl

theorem enterNode_eq_ok (ran : enterNode visitor owner slot value session = .ok following after) :
    ∃ scope reached moved, WalkM.scopeOf value owner.scope session = .ok scope reached ∧
        visitor.dispatch .entering ⟨owner.address ++ [slot], scope, owner.scope, false⟩ reached =
          .ok moved after ∧ (following = [] ∨ following = framesOf moved (moved.nodeIn after)) := by
  obtain ⟨scope, reached, inScope, dispatches⟩ := WalkM.bind_eq_ok.1 ran
  obtain ⟨moved, acted, hasActed, looks⟩ := WalkM.bind_eq_ok.1 dispatches
  rw [Cursor.node_bind] at looks
  refine ⟨scope, reached, moved, inScope, ?_⟩
  split at looks
  · cases looks
    exact ⟨hasActed, .inl rfl⟩
  · cases looks
    exact ⟨hasActed, .inr rfl⟩

/-- What a visit can be: leaving a node, finding none, or entering one. -/
inductive Visits (visitor : Visitor σ) (session after : Session σ) : Frame → List Frame → Prop where
  | left {cursor moved : Cursor} (acts : visitor.dispatch .leaving cursor session = .ok moved after)
      : Visits visitor session after (.leaving cursor) []
  | absent {owner : Cursor} {slot : Slot} (none : ∀ value,
        session.tree.at? (owner.address ++ [slot]) = some value → value.isNode = false)
      (same : after = session) : Visits visitor session after (.entering owner slot) []
  | entered {owner moved : Cursor} {slot : Slot} {value : Value} {scope : Option Nat} {reached :
      Session σ} {following : List Frame} (found : session.tree.at? (owner.address ++ [slot]) = some
      value) (isNode : value.isNode) (inScope : WalkM.scopeOf value owner.scope session = .ok scope
      reached) (acts : visitor.dispatch .entering ⟨owner.address ++ [slot], scope, owner.scope,
      false⟩ reached = .ok moved after)
      (follows : following = [] ∨ following = framesOf moved (moved.nodeIn after)) :
      Visits visitor session after (.entering owner slot) following

theorem step_eq_ok {frame : Frame} (ran : step visitor frame session = .ok following after) :
    Visits visitor session after frame following := by
  cases frame with
  | leaving cursor =>
    rw [step_leaving_apply] at ran
    cases acts : visitor.dispatch .leaving cursor session with
    | error fault reached =>
      rw [acts] at ran
      cases ran
    | ok moved reached =>
      rw [acts] at ran
      cases ran
      exact .left acts
  | entering owner slot =>
    rcases Value.node_or_absent session.tree (owner.address ++ [slot]) with
      ⟨value, found, isNode⟩ | absent
    · rw [step_entering_of_isNode found isNode] at ran
      obtain ⟨scope, reached, moved, inScope, acts, follows⟩ := enterNode_eq_ok ran
      exact .entered found isNode inScope acts follows
    · rw [step_entering_of_absent absent] at ran
      cases ran
      exact .absent absent rfl

/-- A visit to a node takes the actions at it, and then the children of what is
there by then. -/
theorem enterNode_apply {scope : Option Nat} (inScope : WalkM.scopeOf value owner.scope session =
    .ok scope reached) : enterNode visitor owner slot value session =
      match visitor.dispatch .entering ⟨owner.address ++ [slot], scope, owner.scope, false⟩
          reached with
      | .ok moved after =>
        .ok (if moved.skipped || !(moved.nodeIn after).isNode then []
          else framesOf moved (moved.nodeIn after)) after
      | .error fault after => .error fault after := by
  unfold enterNode
  rw [WalkM.bind_apply, inScope]
  dsimp only
  rw [WalkM.bind_apply]
  cases visitor.dispatch .entering ⟨owner.address ++ [slot], scope, owner.scope, false⟩ reached with
  | error fault after => rfl
  | ok moved after =>
    dsimp only
    rw [Cursor.node_bind]
    split <;> rfl

/-- Visitors with the same handlers for what a frame leads to make the same
visit. -/
theorem step_of_handlers {first second : Visitor σ} {frame : Frame} {session : Session σ} (leaving :
    ∀ kind, first.handlersFor .leaving kind = second.handlersFor .leaving kind) (entering : ∀ owner
    slot value kind, frame = .entering owner slot → session.tree.at? (owner.address ++ [slot]) =
    some value → value.kind? = some kind → first.handlersFor .entering kind = second.handlersFor
    .entering kind) : step first frame session = step second frame session := by
  cases frame with
  | leaving cursor =>
    rw [step_leaving_apply, step_leaving_apply, Visitor.dispatch, Visitor.dispatch]
    simp only [leaving]
  | entering owner slot =>
    rcases Value.node_or_absent session.tree (owner.address ++ [slot]) with
      ⟨value, found, isNode⟩ | absent
    · obtain ⟨kind, is⟩ := Value.isNode_iff_kind?.1 isNode
      rw [step_entering_of_isNode found isNode, step_entering_of_isNode found isNode]
      unfold enterNode
      rw [WalkM.bind_apply, WalkM.bind_apply]
      cases inScope : WalkM.scopeOf value owner.scope session with
      | error fault reached => rfl
      | ok scope reached =>
        have here : (Cursor.nodeIn ⟨owner.address ++ [slot], scope, owner.scope, false⟩
            reached).kind? = some kind := by
          rw [Cursor.nodeIn, (WalkM.scopeOf_eq_ok inScope).tree, found, Option.getD_some, is]
        dsimp only
        rw [WalkM.bind_apply, WalkM.bind_apply, Visitor.dispatch_apply here,
          Visitor.dispatch_apply here, entering owner slot value kind rfl found is]
    · rw [step_entering_of_absent absent, step_entering_of_absent absent]

/-- A walk whose actions leave its root where it is opens with the frames of the
root. -/
theorem opening_of_dispatch {visitor : Visitor σ} (approached : approach session = .ok root reached)
    (entered : visitor.dispatch .entering root reached = .ok root after)
    (fine : after.tree.fieldsFault? = none) :
    opening visitor session = .ok (framesOf root after.tree) after := by
  obtain ⟨_, atRoot, notSkipped⟩ := approach_eq_ok approached
  have isTree : root.nodeIn after = after.tree := by
    rw [Cursor.nodeIn, atRoot]
    rfl
  unfold opening
  rw [WalkM.bind_apply, approached]
  dsimp only
  rw [WalkM.bind_apply, entered]
  dsimp only
  rw [if_neg (by simp [notSkipped]), WalkM.bind_apply, Cursor.node_apply, isTree]
  dsimp only
  rw [fine]
  change (childFrames root >>= fun frames => pure (frames ++ [.leaving root]) :
    WalkM σ (List Frame)) after = _
  rw [WalkM.bind_apply]
  unfold childFrames
  rw [WalkM.bind_apply, Cursor.node_apply, isTree]
  rfl

theorem opening_of_fault {visitor : Visitor σ} {fault : Fault} (approached : approach session = .ok
    root reached) (entered : visitor.dispatch .entering root reached = .error fault after) : opening
    visitor session = .error fault after := by
  unfold opening
  rw [WalkM.bind_apply, approached]
  dsimp only
  rw [WalkM.bind_apply, entered]

end Walk

/-! ## Views that an action does not change -/

namespace Walk

variable {α β γ : Type}

/-- The session an action ends in, with a result or with a fault. -/
def last : EStateM.Result Fault (Session σ) α → Session σ
  | .ok _ after => after
  | .error _ after => after

/-- The view is the same before and after the action, which never fails for want of
visits. -/
def Fixes (view : Session σ → γ) (action : WalkM σ α) : Prop :=
  ∀ session, view (last (action session)) = view session ∧ Finished (action session)

/-- The view shows neither the scope index nor the log. -/
def Blind (view : Session σ → γ) : Prop :=
  ∀ session index log, view { session with index := index, log := log } = view session

variable {view : Session σ → γ} {action : WalkM σ α} {next : α → WalkM σ β}

theorem fixes_pure (value : α) : Fixes view (pure value : WalkM σ α) := fun _ => ⟨rfl, nofun⟩

theorem fixes_get : Fixes view (get : WalkM σ (Session σ)) := fun _ => ⟨rfl, nofun⟩

theorem fixes_throw {fault : Fault} (other : fault ≠ .stepLimit) :
    Fixes view (throw fault : WalkM σ α) := by
  refine fun _ => ⟨rfl, fun _ same => ?_⟩
  cases same
  exact other rfl

theorem fixes_modify {change : Session σ → Session σ} (same : ∀ session, view (change session) =
    view session) : Fixes view (modify change : WalkM σ Unit) := fun session => ⟨same session,
    nofun⟩

theorem fixes_bind (first : Fixes view action) (second : ∀ value, Fixes view (next value)) :
    Fixes view (action >>= next) := by
  intro session
  obtain ⟨before, uncut⟩ := first session
  rw [WalkM.bind_apply]
  cases ran : action session with
  | error fault after =>
    rw [ran] at before uncut
    refine ⟨before, fun reached same => uncut reached ?_⟩
    cases same
    rfl
  | ok value after =>
    rw [ran] at before
    exact ⟨(second value after).1.trans before, (second value after).2⟩

theorem fixes_check (fault? : Option SortFault) :
    Fixes view (WalkM.check fault? : WalkM σ Unit) := by
  cases fault? with
  | none => exact fixes_pure ()
  | some fault => exact fixes_throw nofun

theorem fixes_node (cursor : Cursor) : Fixes view (cursor.node : WalkM σ Value) :=
  fun _ => ⟨rfl, nofun⟩

theorem fixes_getState : Fixes view (WalkM.getState : WalkM σ σ) :=
  fixes_bind fixes_get fun _ => fixes_pure _

section Blindness

variable (blind : Blind view)

include blind

theorem fixes_log (logger : String) (level : Level) (message : List Piece) :
    Fixes view (WalkM.log logger level message : WalkM σ Unit) :=
  fixes_modify fun session => blind session session.index _

theorem fixes_scopeOf (value : Value) (outer : Option Nat) :
    Fixes view (WalkM.scopeOf value outer : WalkM σ (Option Nat)) := by
  intro session
  refine WalkM.scopeOf_cases (motive := fun outcome => view (last outcome) = view session ∧
    Finished outcome) value outer session ⟨rfl, nofun⟩ (fun _ _ => ⟨rfl, nofun⟩) ⟨?_, nofun⟩
  exact blind session _ _

theorem fixes_approach : Fixes view (approach : WalkM σ Cursor) := by
  intro session
  obtain ⟨same, uncut⟩ := fixes_scopeOf blind session.tree none (session.surveyed session.tree none)
  have surveyed : view (session.surveyed session.tree none) = view session := blind session _ _
  rw [approach_apply]
  split
  · exact ⟨rfl, nofun⟩
  · split <;> rename_i ran <;> rw [ran] at same
    · exact ⟨same.trans surveyed, nofun⟩
    · refine ⟨same.trans surveyed, fun reached cut => uncut reached ?_⟩
      cases cut
      exact ran

end Blindness

end Walk

/-! ## Nodes that are put in place -/

/-- Labels have been drawn for a node, and at most the log has changed besides. -/
structure Session.Drawn (before : Session σ) (build : Value.Fresh Value) (after : Session σ) :
    Prop where
  tree : after.tree = before.tree
  next : after.next = (build.run before.next).2
  index : after.index = before.index
  state : after.state = before.state

namespace Walk

variable {α : Type} {answer : Cursor → α} {build : Value.Fresh Value} {new : Value} {change : σ → σ}
  {cursor moved : Cursor} {session drawn after : Session σ}

/-- What comes of putting a node that was built in the place of a cursor. At the root it
is refused. Below, the node is in the tree also where looking for its scope fails; where
it does not fail, the state changes as well. -/
inductive Placing (answer : Cursor → α) (build : Value.Fresh Value) (change : σ → σ)
    (cursor : Cursor) (session : Session σ) : EStateM.Result Fault (Session σ) α → Prop where
  | refused {drawn : Session σ} (root : cursor.address = []) (draws : session.Drawn build drawn) :
      Placing answer build change cursor session (.error .rootReplaced drawn)
  | unread {drawn after : Session σ} {new : Value} {fault : Fault} (below : cursor.address ≠ [])
      (draws : session.Drawn build drawn) (isNew : (build.run session.next).1 = new)
      (ran : WalkM.scopeOf new cursor.parentScope
        { drawn with tree := drawn.tree.putAt cursor.address new } = .error fault after) :
      Placing answer build change cursor session (.error fault after)
  | put {drawn after : Session σ} {new : Value} {scope : Option Nat} (below : cursor.address ≠ [])
      (draws : session.Drawn build drawn) (isNew : (build.run session.next).1 = new)
      (ran : WalkM.scopeOf new cursor.parentScope
        { drawn with tree := drawn.tree.putAt cursor.address new } = .ok scope after) :
      Placing answer build change cursor session
        (.ok (answer { cursor with scope := scope }) { after with state := change after.state })

theorem placing_replacing (isNew : (build.run session.next).1 = new)
    (draws : session.Drawn build drawn) :
    Placing answer build change cursor session ((do
      let moved ← cursor.replace new
      WalkM.modifyState change
      return answer moved : WalkM σ α) drawn) := by
  by_cases root : cursor.address = []
  · have refuses : cursor.replace new drawn = .error .rootReplaced drawn := by
      unfold Cursor.replace
      rw [if_pos (List.isEmpty_iff.2 root)]
      rfl
    rw [WalkM.bind_apply, refuses]
    exact .refused root draws
  · rw [WalkM.bind_apply, Cursor.replace_apply root]
    cases ran : WalkM.scopeOf new cursor.parentScope
        { drawn with tree := drawn.tree.putAt cursor.address new } with
    | ok scope after => exact .put root draws isNew ran
    | error fault after => exact .unread root draws isNew ran

/-- A node that was built has been put at a cursor, and the state has changed. -/
structure Puts (build : Value.Fresh Value) (change : σ → σ) (cursor : Cursor) (session : Session σ)
    (moved : Cursor) (after : Session σ) : Prop where
  address : moved.address = cursor.address
  skipped : moved.skipped = cursor.skipped
  tree : after.tree = session.tree.putAt cursor.address (build.run session.next).1
  state : after.state = change session.state

namespace Placing

variable {outcome : EStateM.Result Fault (Session σ) Cursor}

theorem state {value : α} (placing : Placing answer build change cursor session (.ok value after)) :
    after.state = change session.state := by
  cases placing with
  | put _ draws _ ran => exact congrArg change ((WalkM.scopeOf_eq_ok ran).state.trans draws.state)

theorem puts (placing : Placing id build change cursor session (.ok moved after)) :
    Puts build change cursor session moved after := by
  have state := placing.state
  cases placing with
  | put _ draws isNew ran =>
    have reindexed := WalkM.scopeOf_eq_ok ran
    exact ⟨rfl, rfl, by rw [reindexed.tree, draws.tree, isNew], state⟩

/-- A node that opens no scope can be put in any place below the root. -/
theorem exists_puts (placing : Placing id build change cursor session outcome)
    (plain : (build.run session.next).1.createsScope = false) (below : cursor.address ≠ []) :
    ∃ moved after, outcome = .ok moved after ∧ Puts build change cursor session moved after := by
  have same := placing
  cases placing with
  | refused root => exact absurd root below
  | unread _ _ isNew ran =>
    rw [WalkM.scopeOf_of_plain (isNew ▸ plain)] at ran
    cases ran
  | put => exact ⟨_, _, rfl, same.puts⟩

end Placing

end Walk

end Unravel
