import Unravel.Proofs.Walk.Outcomes

/-!
Contract: the recursive walk, and that the walk with pending visits refines it.

The recursive walk takes a node with what is around it and gives back what has
become of the node. It enters the node, walks what its child slots hold, one
after the other, and leaves it; nothing is pending and nothing is looked up in
the tree. `carries_visit` relates it to the frames of a walk: if the actions
change the tree at most where they are, a walk that comes to the frame of a node
goes on as the recursion has left the node.
-/

namespace Unravel

/-- What is around a node: the objects that hold it, inner ones first, each with
the slot that leads to the node. -/
abbrev Surroundings := List (Value × Slot)

namespace Surroundings

def address : Surroundings → Address
  | [] => []
  | (_, slot) :: rest => address rest ++ [slot]

/-- The tree with a node in its place. -/
def fill : Surroundings → Value → Value
  | [], node => node
  | (object, slot) :: rest, node => fill rest (object.putSlot slot node)

/-- Every slot is there. -/
def Solid (around : Surroundings) : Prop := ∀ entry ∈ around, (entry.1.slot? entry.2).isSome = true

variable {around : Surroundings}

theorem solid_nil : Solid [] := fun _ member => absurd member List.not_mem_nil

theorem Solid.cons {object inner : Value} {slot : Slot} (solid : around.Solid)
    (held : object.slot? slot = some inner) : Solid ((object, slot) :: around) := by
  intro entry member
  rcases List.mem_cons.1 member with rfl | further
  · exact Option.isSome_iff_exists.2 ⟨inner, held⟩
  · exact solid entry further

theorem at?_fill (solid : around.Solid) (node : Value) :
    (around.fill node).at? around.address = some node := by
  induction around generalizing node with
  | nil => rfl
  | cons entry rest ih =>
    obtain ⟨inner, held⟩ := Option.isSome_iff_exists.1 (solid entry List.mem_cons_self)
    have above := ih (fun other member => solid other (List.mem_cons_of_mem _ member))
      (entry.1.putSlot entry.2 node)
    rw [fill, address, Value.at?_append_of_at? above, Value.at?, Value.slot?_putSlot_self held]
    rfl

theorem putAt_fill (solid : around.Solid) (node new : Value) :
    (around.fill node).putAt around.address new = around.fill new := by
  induction around generalizing node new with
  | nil => rfl
  | cons entry rest ih =>
    obtain ⟨inner, held⟩ := Option.isSome_iff_exists.1 (solid entry List.mem_cons_self)
    have above : Solid rest := fun other member => solid other (List.mem_cons_of_mem _ member)
    rw [fill, address, Value.putAt_append (at?_fill above _), ih above, Value.putAt, Value.slot?_putSlot_self held]
    exact congrArg _ (Value.putSlot_putSlot held node new)

theorem nodeIn_of_fill {σ : Type} {session : Session σ} {cursor : Cursor} {node : Value}
    (solid : around.Solid) (here : cursor.address = around.address)
    (filled : session.tree = around.fill node) : cursor.nodeIn session = node := by
  rw [Cursor.nodeIn, here, filled, at?_fill solid, Option.getD_some]

theorem at?_fill_slot (solid : around.Solid) (node : Value) (slot : Slot) :
    (around.fill node).at? (around.address ++ [slot]) = node.slot? slot := by
  rw [Value.at?_append_of_at? (at?_fill solid node), Value.at?]
  cases node.slot? slot <;> rfl

end Surroundings

variable {σ : Type}

/-! ## The recursive walk -/

namespace Recursive

/-- Runs the actions of one phase at a node. -/
def act (visitor : Visitor σ) (phase : Phase) (around : Surroundings) (cursor : Cursor)
    (node : Value) : WalkM σ (Cursor × Value) := do
  modify fun session => { session with tree := around.fill node }
  let cursor ← visitor.dispatch phase cursor
  return (cursor, ← cursor.node)

/-- Walks what slots of a node hold, one after the other. -/
def visitSlots (visit : Surroundings → Value → WalkM σ Value) (around : Surroundings) :
    List Slot → Value → WalkM σ Value
  | [], node => pure node
  | slot :: rest, node =>
    match node.slot? slot with
    | none => visitSlots visit around rest node
    | some child =>
      if child.isNode then do
        let child ← visit ((node, slot) :: around) child
        visitSlots visit around rest (node.putSlot slot child)
      else visitSlots visit around rest node

/-- Walks the children of a node that has been entered, field by field and from
left to right, and leaves it. -/
def finish (visitor : Visitor σ) (visit : Surroundings → Value → WalkM σ Value)
    (around : Surroundings) (cursor : Cursor) (node : Value) : WalkM σ Value := do
  let node ← visitSlots visit around node.childSlots node
  let (_, node) ← act visitor .leaving around cursor node
  return node

/-- Walks a node that is inside a scope, and gives what has become of it. The
recursion goes no deeper than it may. -/
def visit (visitor : Visitor σ) : Nat → Option Nat → Surroundings → Value → WalkM σ Value
  | 0, _, _, _ => throw .stepLimit
  | depth + 1, outer, around, node => do
      let scope ← WalkM.scopeOf node outer
      let (cursor, node) ← act visitor .entering around ⟨around.address, scope, outer, false⟩ node
      if cursor.skipped || !node.isNode then return node
      else finish visitor (visit visitor depth cursor.scope) around cursor node

/-- Walks the root of a tree, and gives what has become of it. -/
def visitRoot (visitor : Visitor σ) (depth : Nat) : WalkM σ Value := do
  let root ← Walk.approach
  let (root, node) ← act visitor .entering [] root (← get).tree
  if root.skipped then return node
  else
    WalkM.check node.fieldsFault?
    finish visitor (visit visitor depth root.scope) [] root node

/-- The outcome of a recursive walk over a document from an initial state. -/
def start (depth : Nat) (visitor : Visitor σ) (document : Document) (state : σ) :
    Except Fault Unit × Session σ :=
  match visitRoot visitor depth (Walk.initialSession document state) with
  | .ok tree session => (.ok (), { session with tree := tree })
  | .error fault session => (.error fault, session)

end Recursive

/-! ## Actions that change the tree at most where they are -/

/-- The action records, skips the node or replaces it, and changes nothing else
in the tree. -/
def Handler.Local (handler : Handler σ) : Prop := ∀ ⦃cursor session moved after⦄, handler cursor
  session = .ok moved after → moved.address = cursor.address ∧ (after.tree = session.tree ∨ ∃ new,
  after.tree = session.tree.putAt cursor.address new)

/-- All actions of the visitor are local. -/
def Visitor.Local (visitor : Visitor σ) : Prop :=
  ∀ phase kind, ∀ handler ∈ visitor.handlersFor phase kind, Handler.Local handler

namespace Visitor

variable {visitor : Visitor σ} {session after : Session σ} {cursor moved : Cursor}
  {around : Surroundings} {node : Value}

/-- Actions at a node change the tree at most in its place. -/
theorem Local.dispatch (isLocal : visitor.Local) {phase : Phase} (solid : around.Solid)
    (here : cursor.address = around.address) (filled : session.tree = around.fill node)
    (ran : visitor.dispatch phase cursor session = .ok moved after) :
    moved.address = around.address ∧ after.tree = around.fill (moved.nodeIn after) := by
  let ready (placed : Cursor) (reached : Session σ) : Prop :=
    placed.address = around.address ∧ ∃ new, reached.tree = around.fill new
  have acts : Walk.Acts visitor ready (fun _ _ => True) fun _ _ => ready := by
    rintro phase kind handler member placed reached ⟨isHere, new, isFilled⟩ _
    refine Walk.ends_of_ok fun further later acts => ?_
    obtain ⟨sameAddress, unchanged | ⟨put, isPut⟩⟩ := isLocal phase kind handler member acts
    · exact ⟨sameAddress.trans isHere, new, unchanged.trans isFilled⟩
    · refine ⟨sameAddress.trans isHere, put, ?_⟩
      rw [isPut, isFilled, isHere, Surroundings.putAt_fill solid]
  have kept := Walk.ends_dispatch (Walk.arrivals_of_ready fun _ _ _ _ is was => ⟨was.1, is.2⟩)
    acts phase cursor ⟨here, node, filled⟩
  rw [ran] at kept
  obtain ⟨isHere, new, isFilled⟩ := kept
  refine ⟨isHere, ?_⟩
  rw [Cursor.nodeIn, isHere, isFilled, Surroundings.at?_fill solid]
  rfl

end Visitor

/-! ## Frames that do what the recursion does -/

namespace Walk

variable {visitor : Visitor σ} {session middle after : Session σ} {frames later : List Frame}
  {α β : Type}

/-- A walk with frames left goes on from where an action ends, or fails as it does. -/
def resume (visitor : Visitor σ) (limit : Nat) (rest : List Frame) :
    EStateM.Result Fault (Session σ) α → EStateM.Result Fault (Session σ) Unit
  | .ok _ after => run visitor limit rest after
  | .error fault after => .error fault after

/-- A walk that comes to the frames does what the action does, if that is not cut off. -/
def Carries (visitor : Visitor σ) (frames : List Frame) (session : Session σ)
    (outcome : EStateM.Result Fault (Session σ) α) : Prop :=
  Finished outcome → ∃ count, ∀ extra rest,
    run visitor (count + extra) (frames ++ rest) session = resume visitor extra rest outcome

theorem carries_nil (value : α) (session : Session σ) : Carries visitor [] session (.ok value
    session) := fun _ => ⟨0, fun _ _ => by rw [Nat.zero_add, List.nil_append, resume]⟩

theorem Carries.append {value : α} {outcome : EStateM.Result Fault (Session σ) β} (first : Carries
    visitor frames session (.ok value middle)) (second : Carries visitor later middle outcome) :
    Carries visitor (frames ++ later) session outcome := by
  intro finished
  obtain ⟨before, comes⟩ := first nofun
  obtain ⟨count, goes⟩ := second finished
  refine ⟨before + count, fun extra rest => ?_⟩
  rw [Nat.add_assoc, List.append_assoc, comes, resume, goes]

variable {frame : Frame} {fault : Fault} {following : List Frame}
  {outcome : EStateM.Result Fault (Session σ) α}

theorem Carries.fail
    (first : Carries visitor frames session (.error fault after : EStateM.Result _ _ α))
    (later : List Frame) :
    Carries visitor (frames ++ later) session (.error fault after : EStateM.Result _ _ β) := by
  intro finished
  obtain ⟨count, fails⟩ := first fun other same => finished other (by cases same; rfl)
  refine ⟨count, fun extra rest => ?_⟩
  rw [List.append_assoc, fails]
  rfl

theorem carries_cons {rest : List Frame} (visits : step visitor frame session = .ok following
    middle) (further : Carries visitor (following ++ rest) middle outcome) : Carries visitor (frame
    :: rest) session outcome := by
  intro finished
  obtain ⟨count, goes⟩ := further finished
  refine ⟨count + 1, fun extra later => ?_⟩
  rw [Nat.add_right_comm, List.cons_append, run_succ, visits, ← goes, List.append_assoc]

theorem carries_of_step (visits : step visitor frame session = .ok following middle) (further :
    Carries visitor following middle outcome) : Carries visitor [frame] session outcome :=
    carries_cons visits (by rwa [List.append_nil])

theorem carries_of_fault (fails : step visitor frame session = .error fault after) :
    Carries visitor [frame] session (.error fault after : EStateM.Result _ _ α) := by
  refine fun _ => ⟨1, fun extra rest => ?_⟩
  rw [Nat.add_comm, List.singleton_append, run_succ, fails, resume]

/-- A walk of the frames alone does what the action does, if it may make enough visits. -/
theorem Carries.exists_run (carries : Carries visitor frames session outcome)
    (finished : Finished outcome) : ∃ bound, ∀ limit, bound ≤ limit →
      run visitor limit frames session = resume visitor 0 [] outcome := by
  obtain ⟨bound, goes⟩ := carries finished
  refine ⟨bound, fun limit most => ?_⟩
  have whole := goes (limit - bound) []
  rw [Nat.add_sub_of_le most, List.append_nil] at whole
  rw [whole]
  cases outcome with
  | error fault after => rfl
  | ok value after => cases limit - bound <;> rfl

/-- Frames do, with others behind them, what they do alone. -/
theorem carries_run (visitor : Visitor σ) (limit : Nat) (frames : List Frame)
    (session : Session σ) : Carries visitor frames session (run visitor limit frames session) := by
  induction limit generalizing frames session with
  | zero =>
    cases frames with
    | nil => exact carries_nil () session
    | cons frame rest => exact fun finished => absurd rfl (finished session)
  | succ limit ih =>
    cases frames with
    | nil => exact carries_nil () session
    | cons frame rest =>
      rw [run_succ]
      cases visited : step visitor frame session with
      | error fault after =>
        exact (carries_of_fault visited : Carries _ _ _ (.error fault after :
          EStateM.Result _ _ Unit)).fail rest
      | ok following middle => exact carries_cons visited (ih _ _)

end Walk

namespace Recursive

open Walk

variable {visitor : Visitor σ} {session after : Session σ} {around : Surroundings} {node : Value}

theorem act_apply (phase : Phase) (cursor : Cursor) (filled : session.tree = around.fill node) :
    act visitor phase around cursor node session =
      match visitor.dispatch phase cursor session with
      | .ok moved after => .ok (moved, moved.nodeIn after) after
      | .error fault after => .error fault after := by
  have same : ({ session with tree := around.fill node } : Session σ) = session := by
    rw [← filled]
  change (visitor.dispatch phase cursor >>= _) { session with tree := around.fill node } = _
  rw [same, WalkM.bind_apply]
  cases visitor.dispatch phase cursor session <;> rfl

/-- The recursion, where it ends, leaves the tree with the node it gives. -/
def Fills (around : Surroundings) : EStateM.Result Fault (Session σ) Value → Prop
  | .ok node after => after.tree = around.fill node
  | .error _ _ => True

variable {cursor : Cursor}

theorem carries_leaving (isLocal : visitor.Local) (solid : around.Solid)
    (here : cursor.address = around.address) (filled : session.tree = around.fill node) :
    Carries visitor [.leaving cursor] session
        ((do let (_, node) ← act visitor .leaving around cursor node; return node :
          WalkM σ Value) session) ∧
      Fills around
        ((do let (_, node) ← act visitor .leaving around cursor node; return node :
          WalkM σ Value) session) := by
  have visits := step_leaving_apply visitor cursor session
  rw [WalkM.bind_apply, act_apply .leaving cursor filled]
  cases ran : visitor.dispatch .leaving cursor session with
  | error fault after =>
    rw [ran] at visits
    exact ⟨carries_of_fault visits, trivial⟩
  | ok moved after =>
    rw [ran] at visits
    exact ⟨carries_of_step visits (carries_nil _ _), (isLocal.dispatch solid here filled ran).2⟩

variable {walk : Surroundings → Value → WalkM σ Value}

/-- The recursion does for a child in a slot what the frame of the slot does. -/
def ChildrenCarry (visitor : Visitor σ) (cursor : Cursor) (around : Surroundings)
    (walk : Surroundings → Value → WalkM σ Value) : Prop :=
  ∀ ⦃object child slot session⦄, object.slot? slot = some child → child.isNode →
    session.tree = Surroundings.fill ((object, slot) :: around) child →
      Carries visitor [.entering cursor slot] session
          (walk ((object, slot) :: around) child session) ∧
        Fills ((object, slot) :: around) (walk ((object, slot) :: around) child session)

theorem carries_visitSlots (each : ChildrenCarry visitor cursor around walk) (solid : around.Solid)
    (here : cursor.address = around.address) (slots : List Slot) (filled : session.tree =
    around.fill node) : Carries visitor (slots.map (.entering cursor)) session (visitSlots walk
    around slots node session) ∧ Fills around (visitSlots walk around slots node session) := by
  induction slots generalizing node session with
  | nil => exact ⟨carries_nil _ _, filled⟩
  | cons slot rest ih =>
    have read : session.tree.at? (cursor.address ++ [slot]) = node.slot? slot := by
      rw [filled, here, Surroundings.at?_fill_slot solid]
    have passes (absent : ∀ value, node.slot? slot = some value → value.isNode = false) : Carries
        visitor ((slot :: rest).map (.entering cursor)) session (visitSlots walk around rest node
        session) ∧ Fills around (visitSlots walk around rest node session) := by
      obtain ⟨goes, ends⟩ := ih filled
      have visits : step visitor (.entering cursor slot) session = .ok [] session :=
        step_entering_of_absent fun value is => absent value (read ▸ is)
      exact ⟨(carries_of_step visits (carries_nil () session)).append goes, ends⟩
    unfold visitSlots
    cases held : node.slot? slot with
    | none => exact passes (by simp [held])
    | some child =>
      cases isNode : child.isNode with
      | false =>
        simp only [isNode, Bool.false_eq_true, ↓reduceIte]
        exact passes fun value is => by
          cases held.symm.trans is
          exact isNode
      | true =>
        simp only [isNode, ↓reduceIte]
        have filledChild : session.tree = Surroundings.fill ((node, slot) :: around) child := by
          rw [Surroundings.fill, Value.putSlot_self held]
          exact filled
        obtain ⟨goes, ends⟩ := each held isNode filledChild
        rw [WalkM.bind_apply]
        cases ran : walk ((node, slot) :: around) child session with
        | error fault after =>
          rw [ran] at goes
          exact ⟨goes.fail _, trivial⟩
        | ok new after =>
          rw [ran] at goes ends
          obtain ⟨further, endsThere⟩ := ih ends
          exact ⟨goes.append further, endsThere⟩

theorem carries_finish (isLocal : visitor.Local) (each : ChildrenCarry visitor cursor around walk)
    (solid : around.Solid) (here : cursor.address = around.address) (filled : session.tree =
    around.fill node) : Carries visitor (framesOf cursor node) session (finish visitor walk around
    cursor node session) ∧ Fills around (finish visitor walk around cursor node session) := by
  obtain ⟨goes, ends⟩ := carries_visitSlots each solid here node.childSlots filled
  unfold finish framesOf
  rw [WalkM.bind_apply]
  cases ran : visitSlots walk around node.childSlots node session with
  | error fault after =>
    rw [ran] at goes
    exact ⟨goes.fail _, trivial⟩
  | ok new after =>
    rw [ran] at goes ends
    obtain ⟨leaves, endsThere⟩ := carries_leaving isLocal solid here ends
    exact ⟨goes.append leaves, endsThere⟩

/-- Where the recursion comes to a node in a slot, the frame of the slot does
what the recursion does. -/
theorem carries_visit (isLocal : visitor.Local) (depth : Nat) {object child : Value} {slot : Slot}
    (solid : around.Solid) (here : cursor.address = around.address) (held : object.slot? slot = some
    child) (isNode : child.isNode) (filled : session.tree = Surroundings.fill ((object, slot) ::
    around) child) : Carries visitor [.entering cursor slot] session (visit visitor depth
    cursor.scope ((object, slot) :: around) child session) ∧ Fills ((object, slot) :: around) (visit
    visitor depth cursor.scope ((object, slot) :: around) child session) := by
  induction depth generalizing around cursor object child slot session with
  | zero => exact ⟨fun finished => absurd rfl (finished session), trivial⟩
  | succ depth ih =>
    have inside := solid.cons held
    have isAddress : cursor.address ++ [slot] =
        Surroundings.address ((object, slot) :: around) := by
      rw [here, Surroundings.address]
    have found : session.tree.at? (cursor.address ++ [slot]) = some child := by
      rw [isAddress, filled, Surroundings.at?_fill inside]
    have visits : step visitor (.entering cursor slot) session =
        enterNode visitor cursor slot child session := step_entering_of_isNode found isNode
    unfold enterNode at visits
    rw [WalkM.bind_apply] at visits
    unfold visit
    rw [WalkM.bind_apply]
    cases inScope : WalkM.scopeOf child cursor.scope session with
    | error fault after =>
      rw [inScope] at visits
      exact ⟨carries_of_fault visits, trivial⟩
    | ok scope reached =>
      rw [inScope] at visits
      have filledThere := (WalkM.scopeOf_eq_ok inScope).tree.trans filled
      dsimp only at visits ⊢
      rw [WalkM.bind_apply] at visits ⊢
      rw [isAddress] at visits
      rw [act_apply _ _ filledThere]
      cases ran : visitor.dispatch .entering ⟨Surroundings.address ((object, slot) :: around),
          scope, cursor.scope, false⟩ reached with
      | error fault after =>
        rw [ran] at visits
        exact ⟨carries_of_fault visits, trivial⟩
      | ok moved entered =>
        rw [ran] at visits
        dsimp only at visits ⊢
        obtain ⟨isHere, filledNow⟩ := isLocal.dispatch inside rfl filledThere ran
        rw [Cursor.node_bind] at visits
        by_cases stops : (moved.skipped || !(moved.nodeIn entered).isNode)
        · rw [if_pos stops] at visits ⊢
          exact ⟨carries_of_step visits (carries_nil _ _), filledNow⟩
        · rw [if_neg stops] at visits ⊢
          obtain ⟨goes, ends⟩ := carries_finish isLocal (fun _ _ _ _ held isNode filled =>
              ih inside isHere held isNode filled)
            inside isHere filledNow
          exact ⟨carries_of_step visits goes, ends⟩

/-- The recursion starts as a walk does, and the frames that the walk starts
with do the rest. -/
theorem carries_visitRoot (isLocal : visitor.Local) (depth : Nat) (session : Session σ) :
    match opening visitor session with
    | .ok frames opened =>
      Carries visitor frames opened (visitRoot visitor depth session) ∧
        Fills [] (visitRoot visitor depth session)
    | .error fault after => visitRoot visitor depth session = .error fault after := by
  unfold opening visitRoot
  rw [WalkM.bind_apply, WalkM.bind_apply]
  cases approached : approach session with
  | error fault after => rfl
  | ok root reached =>
    dsimp only
    have got : (get : WalkM σ (Session σ)) reached = .ok reached reached := rfl
    rw [WalkM.bind_apply, WalkM.bind_apply, got]
    dsimp only
    rw [WalkM.bind_apply, act_apply .entering root rfl]
    cases ran : visitor.dispatch .entering root reached with
    | error fault after => rfl
    | ok moved entered =>
      obtain ⟨isHere, filled⟩ := isLocal.dispatch Surroundings.solid_nil
        (approach_eq_ok approached).2.1 rfl ran
      dsimp only
      cases skips : moved.skipped with
      | true => exact ⟨carries_nil _ _, filled⟩
      | false =>
        simp only [Bool.false_eq_true, ↓reduceIte]
        rw [WalkM.bind_apply, WalkM.bind_apply, Cursor.node_apply]
        dsimp only
        cases (moved.nodeIn entered).fieldsFault? with
        | some fault => rfl
        | none =>
          exact carries_finish isLocal (fun _ _ _ _ held isNode filled => carries_visit isLocal
            depth Surroundings.solid_nil isHere held isNode filled) Surroundings.solid_nil isHere
            filled

/-- Whether an outcome is not that of a walk cut off. -/
def Ended (outcome : Except Fault Unit × Session σ) : Prop := outcome.1 ≠ .error .stepLimit

/-- Where the recursion ends, a walk of enough visits has its outcome. -/
theorem exists_start_eq (isLocal : visitor.Local) (document : Document) (state : σ) {depth : Nat}
    (ends : Ended (start depth visitor document state)) : ∃ bound, ∀ limit, bound ≤ limit →
      Walk.start limit visitor document state = start depth visitor document state := by
  have carries := carries_visitRoot isLocal depth (initialSession document state)
  unfold start at ends ⊢
  cases opened : opening visitor (initialSession document state) with
  | error fault after =>
    rw [opened] at carries
    refine ⟨0, fun limit _ => ?_⟩
    rw [start_eq, opened, carries]
  | ok frames session =>
    rw [opened] at carries
    obtain ⟨goes, fills⟩ := carries
    have finished : Finished (visitRoot visitor depth (initialSession document state)) := by
      intro after cut
      rw [cut] at ends
      exact ends rfl
    obtain ⟨bound, runs⟩ := goes.exists_run finished
    refine ⟨bound, fun limit most => ?_⟩
    rw [start_eq, opened]
    simp only [runs limit most]
    cases ran : visitRoot visitor depth (initialSession document state) with
    | error fault after => rfl
    | ok tree after =>
      rw [ran] at fills
      obtain rfl : after.tree = tree := fills
      rfl

theorem start_add_of_ended {limit : Nat} {document : Document} {state : σ} (ended : Ended
    (Walk.start limit visitor document state)) (extra : Nat) : Walk.start (limit + extra) visitor
    document state = Walk.start limit visitor document state := by
  rw [start_eq] at ended ⊢
  rw [start_eq]
  cases opened : opening visitor (initialSession document state) with
  | error fault after => rfl
  | ok frames session =>
    rw [opened] at ended
    have finished : Finished (run visitor limit frames session) := by
      intro other cut
      simp only [cut] at ended
      exact ended rfl
    simp only [run_add_of_finished finished extra]

end Recursive

end Unravel
