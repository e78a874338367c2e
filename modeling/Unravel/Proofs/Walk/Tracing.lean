import Unravel.Proofs.Walk.Recursion

/-!
Contract: the sequence of the actions that a walk runs.

`Visitor.traced` records each action before it is run, and does otherwise what
the visitor does. The record is part of the state, so two walks of a traced
visitor with one outcome have run the same actions in the same order.
-/

namespace Unravel

variable {σ τ α β : Type}

/-- An action that was run: its phase, the rule it is of, where it was run and
the node that was there. -/
structure Call where
  phase : Phase
  rule : Nat
  cursor : Cursor
  node : Value
deriving Repr

namespace Session

def withState (session : Session σ) (state : τ) : Session τ :=
  ⟨session.tree, session.next, session.index, session.log, state⟩

/-- The session without the second part of its state. -/
def forget (session : Session (σ × τ)) : Session σ := session.withState session.state.1

end Session

/-- The action with a record of its call. -/
def Handler.traced (phase : Phase) (rule : Nat) (handler : Handler σ) :
    Handler (σ × List Call) := fun cursor session =>
  let calls := session.state.2 ++ [⟨phase, rule, cursor, cursor.nodeIn session⟩]
  match handler cursor session.forget with
  | .ok moved after => .ok moved (after.withState (after.state, calls))
  | .error fault after => .error fault (after.withState (after.state, calls))

def Rule.traced (position : Nat) (rule : Rule σ) : Rule (σ × List Call) :=
  ⟨rule.kinds, rule.enter.map (Handler.traced .entering position),
    rule.leave.map (Handler.traced .leaving position)⟩

namespace Visitor

/-- The visitor with records of calls, its rules numbered from a number on. -/
def tracedFrom (position : Nat) : Visitor σ → Visitor (σ × List Call)
  | [] => []
  | rule :: rest => rule.traced position :: tracedFrom (position + 1) rest

def traced (visitor : Visitor σ) : Visitor (σ × List Call) := visitor.tracedFrom 0

/-- The actions for a kind, with the numbers of their rules. -/
def numberedFrom (phase : Phase) (kind : String) (position : Nat) :
    Visitor σ → List (Nat × Handler σ)
  | [] => []
  | rule :: rest =>
    (rule.handlersFor phase kind).map (position, ·) ++ numberedFrom phase kind (position + 1) rest

def numbered (visitor : Visitor σ) (phase : Phase) (kind : String) : List (Nat × Handler σ) :=
  visitor.numberedFrom phase kind 0

theorem map_snd_numberedFrom (visitor : Visitor σ) (phase : Phase) (kind : String) (position : Nat)
    : (visitor.numberedFrom phase kind position).map Prod.snd = visitor.handlersFor phase kind := by
  induction visitor generalizing position with
  | nil => rfl
  | cons rule rest ih =>
    rw [numberedFrom, List.map_append, ih, List.map_map]
    exact congrArg (· ++ _) (List.map_id _)

theorem handlersFor_traced_rule (rule : Rule σ) (phase : Phase) (kind : String) (position : Nat) :
    (rule.traced position).handlersFor phase kind =
      (rule.handlersFor phase kind).map (Handler.traced phase position) := by
  unfold Rule.handlersFor
  cases phase with
  | entering => cases held : rule.enter <;> simp [Rule.traced, Rule.handler?, held]
  | leaving => cases held : rule.leave <;> simp [Rule.traced, Rule.handler?, held]

theorem handlersFor_tracedFrom (visitor : Visitor σ) (phase : Phase) (kind : String) (position :
    Nat) : (visitor.tracedFrom position).handlersFor phase kind = (visitor.numberedFrom phase kind
    position).map fun entry =>
        entry.2.traced phase entry.1 := by
  induction visitor generalizing position with
  | nil => rfl
  | cons rule rest ih =>
    rw [tracedFrom, numberedFrom, List.map_append, List.map_map, ← ih,
      handlersFor, List.flatMap_cons, handlersFor_traced_rule]
    rfl

theorem mem_handlersFor_traced {visitor : Visitor σ} {phase : Phase} {kind : String}
    {handler : Handler (σ × List Call)} (member : handler ∈ visitor.traced.handlersFor phase kind) :
    ∃ rule, ∃ plain ∈ visitor.handlersFor phase kind, handler = plain.traced phase rule := by
  rw [traced, handlersFor_tracedFrom] at member
  obtain ⟨entry, isNumbered, rfl⟩ := List.mem_map.1 member
  refine ⟨entry.1, entry.2, ?_, rfl⟩
  rw [← visitor.map_snd_numberedFrom phase kind 0]
  exact List.mem_map_of_mem isNumbered

end Visitor

/-! ## Records do not matter -/

/-- The outcome without the second part of the state. -/
def forgetIn : EStateM.Result Fault (Session (σ × τ)) α → EStateM.Result Fault (Session σ) α
  | .ok value after => .ok value after.forget
  | .error fault after => .error fault after.forget

/-- The action does what the other does, but for the second part of the state. -/
def Mirrors (action : WalkM (σ × τ) α) (plain : WalkM σ α) : Prop :=
  ∀ session, forgetIn (action session) = plain session.forget

theorem mirrors_pure (value : α) : Mirrors (pure value : WalkM (σ × τ) α) (pure value) :=
  fun _ => rfl

theorem mirrors_throw (fault : Fault) : Mirrors (throw fault : WalkM (σ × τ) α) (throw fault) :=
  fun _ => rfl

theorem mirrors_bind {action : WalkM (σ × τ) α} {plain : WalkM σ α} {next : α → WalkM (σ × τ) β}
    {plainNext : α → WalkM σ β} (first : Mirrors action plain) (second : ∀ value, Mirrors (next
    value) (plainNext value)) : Mirrors (action >>= next) (plain >>= plainNext) := by
  intro session
  rw [WalkM.bind_apply, WalkM.bind_apply, ← first session]
  cases action session with
  | error fault after => rfl
  | ok value after => exact second value after

theorem mirrors_get_bind {next : Session (σ × τ) → WalkM (σ × τ) α} {plainNext : Session σ → WalkM σ
    α} (each : ∀ session, Mirrors (next session) (plainNext session.forget)) : Mirrors (get >>=
    next) (get >>= plainNext) := fun session => each session session

theorem mirrors_modify {change : Session (σ × τ) → Session (σ × τ)} {plainChange : Session σ →
    Session σ} (same : ∀ session, (change session).forget = plainChange session.forget) : Mirrors
    (modify change) (modify plainChange) := fun session => congrArg (EStateM.Result.ok ()) (same
    session)

theorem mirrors_check (fault? : Option SortFault) :
    Mirrors (WalkM.check fault? : WalkM (σ × τ) Unit) (WalkM.check fault?) := by
  cases fault? with
  | none => exact mirrors_pure ()
  | some fault => exact mirrors_throw _

theorem mirrors_node (cursor : Cursor) : Mirrors (cursor.node : WalkM (σ × τ) Value) cursor.node :=
  fun _ => rfl

theorem mirrors_indexTree (value : Value) (outer : Option Nat) :
    Mirrors (WalkM.indexTree value outer : WalkM (σ × τ) Unit) (WalkM.indexTree value outer) := by
  refine mirrors_bind (mirrors_check _) fun _ => ?_
  refine mirrors_bind (mirrors_modify fun _ => rfl) fun _ => ?_
  exact mirrors_get_bind fun _ => mirrors_modify fun _ => rfl

theorem mirrors_scopeOf (value : Value) (outer : Option Nat) : Mirrors (WalkM.scopeOf value outer :
    WalkM (σ × τ) (Option Nat)) (WalkM.scopeOf value outer) := by
  refine mirrors_get_bind fun session => ?_
  have sameIndex : session.forget.index = session.index := rfl
  rw [sameIndex]
  cases session.index.known? value with
  | some known => exact mirrors_pure _
  | none =>
    dsimp only
    split
    · refine mirrors_bind (mirrors_indexTree _ _) fun _ => ?_
      exact mirrors_get_bind fun _ => mirrors_pure _
    · exact mirrors_pure _

theorem mirrors_approach : Mirrors (Walk.approach : WalkM (σ × τ) Cursor) Walk.approach := by
  refine mirrors_get_bind fun session => ?_
  refine mirrors_bind (mirrors_indexTree _ _) fun _ => ?_
  refine mirrors_get_bind fun session => ?_
  exact mirrors_bind (mirrors_scopeOf _ _) fun _ => mirrors_pure _

theorem mirrors_traced (phase : Phase) (rule : Nat) (handler : Handler σ) (cursor : Cursor) :
    Mirrors (handler.traced phase rule cursor) (handler cursor) := by
  intro session
  unfold Handler.traced
  cases handler cursor session.forget <;> rfl

namespace Visitor

theorem mirrors_runHandlers (phase : Phase) (kind : String) (entries : List (Nat × Handler σ))
    (cursor : Cursor) : Mirrors (runHandlers kind (entries.map fun entry => entry.2.traced phase
    entry.1) cursor) (runHandlers kind (entries.map Prod.snd) cursor) := by
  induction entries generalizing cursor with
  | nil => exact mirrors_pure _
  | cons entry rest ih =>
    refine mirrors_bind (mirrors_traced phase entry.1 entry.2 cursor) fun moved => ?_
    refine mirrors_bind (mirrors_node moved) fun node => ?_
    split
    · exact ih moved
    · exact mirrors_pure _

theorem mirrors_dispatch (visitor : Visitor σ) (phase : Phase) (cursor : Cursor) :
    Mirrors (visitor.traced.dispatch phase cursor) (visitor.dispatch phase cursor) := by
  refine mirrors_bind (mirrors_node cursor) fun node => ?_
  cases node.kind? with
  | none => exact mirrors_pure _
  | some kind =>
    dsimp only
    rw [traced, handlersFor_tracedFrom, ← visitor.map_snd_numberedFrom phase kind 0]
    exact mirrors_runHandlers phase kind _ cursor

theorem Local.traced {visitor : Visitor σ} (isLocal : visitor.Local) : visitor.traced.Local := by
  intro phase kind handler member cursor session moved after ran
  obtain ⟨rule, plain, isPlain, rfl⟩ := mem_handlersFor_traced member
  have mirrors := mirrors_traced phase rule plain cursor session
  rw [ran] at mirrors
  exact isLocal phase kind plain isPlain mirrors.symm

end Visitor

namespace Recursive

open Walk

variable {visitor : Visitor σ}

theorem mirrors_act (visitor : Visitor σ) (phase : Phase) (around : Surroundings)
    (cursor : Cursor) (node : Value) : Mirrors (act visitor.traced phase around cursor node)
      (act visitor phase around cursor node) := by
  refine mirrors_bind (mirrors_modify fun _ => rfl) fun _ => ?_
  refine mirrors_bind (visitor.mirrors_dispatch phase cursor) fun moved => ?_
  exact mirrors_bind (mirrors_node moved) fun _ => mirrors_pure _

variable {plain : Surroundings → Value → WalkM σ Value}

theorem mirrors_visitSlots {visit : Surroundings → Value → WalkM (σ × τ) Value}
    (each : ∀ around node, Mirrors (visit around node) (plain around node))
    (around : Surroundings) (slots : List Slot) (node : Value) :
    Mirrors (visitSlots visit around slots node) (visitSlots plain around slots node) := by
  induction slots generalizing node with
  | nil => exact mirrors_pure _
  | cons slot rest ih =>
    unfold visitSlots
    split
    · exact ih node
    · split
      · exact mirrors_bind (each _ _) fun _ => ih _
      · exact ih node

theorem mirrors_finish {visit : Surroundings → Value → WalkM (σ × List Call) Value} (each : ∀ around
    node, Mirrors (visit around node) (plain around node)) (around : Surroundings) (cursor : Cursor)
    (node : Value) : Mirrors (finish visitor.traced visit around cursor node) (finish visitor plain
    around cursor node) := by
  refine mirrors_bind (mirrors_visitSlots each _ _ _) fun _ => ?_
  exact mirrors_bind (mirrors_act visitor .leaving _ _ _) fun _ => mirrors_pure _

theorem mirrors_visit (visitor : Visitor σ) (depth : Nat) (outer : Option Nat)
    (around : Surroundings) (node : Value) : Mirrors (visit visitor.traced depth outer around node)
      (visit visitor depth outer around node) := by
  induction depth generalizing outer around node with
  | zero => exact mirrors_throw _
  | succ depth ih =>
    refine mirrors_bind (mirrors_scopeOf _ _) fun scope => ?_
    refine mirrors_bind (mirrors_act visitor .entering _ _ _) fun result => ?_
    dsimp only
    split
    · exact mirrors_pure _
    · exact mirrors_finish (fun _ _ => ih _ _ _) _ _ _

theorem mirrors_visitRoot (visitor : Visitor σ) (depth : Nat) :
    Mirrors (visitRoot visitor.traced depth) (visitRoot visitor depth) := by
  refine mirrors_bind mirrors_approach fun root => ?_
  refine mirrors_get_bind fun session => ?_
  refine mirrors_bind (mirrors_act visitor .entering _ _ _) fun ⟨root, node⟩ => ?_
  dsimp only
  split
  · exact mirrors_pure _
  · refine mirrors_bind (mirrors_check _) fun _ => ?_
    exact mirrors_finish (fun _ _ => mirrors_visit visitor depth _ _ _) _ _ _

/-- Recording the calls does not keep the recursion from its end. -/
theorem Ended.traced {depth : Nat} {document : Document} {state : σ} {calls : List Call}
    (ends : Ended (start depth visitor document state)) :
    Ended (start depth visitor.traced document (state, calls)) := by
  have mirrors := mirrors_visitRoot visitor depth (initialSession document (state, calls))
  have same : (initialSession document (state, calls)).forget = initialSession document state := rfl
  rw [same] at mirrors
  unfold start at ends ⊢
  rw [← mirrors] at ends
  cases ran : visitRoot visitor.traced depth (initialSession document (state, calls)) with
  | ok tree session => exact fun cut => nomatch cut
  | error fault session =>
    rw [ran] at ends
    exact ends

end Recursive

end Unravel
