import Unravel.Proofs.Strings.Steadiness
import Unravel.Proofs.Tree.Programs
import Unravel.Proofs.Walk.Yielding

/-!
Contract: the pass replaces all calls at once.

`recoverAll` judges every call on the program as it was read and puts the strings
of those that have one in their places, whatever becomes of the others. The walk
of the pass comes to the calls one after the other and judges each in the session
that it finds, in which some calls have become strings and some decoders have
been analysed; it gives the same program (`recovers_at_once`).
-/

namespace Unravel.Pass.Strings

open Value Walk

variable {phase : Phase} {kind : String}

/-! ## All calls at once -/

/-- A node with all calls that stand for a string replaced: each call is judged on
the program as it was read. -/
def recoverAll (index : ScopeIndex) (tables : Tables) (outer : Option Nat) (node : Value) :
    Fresh Value :=
  let scope := (index.known? node).or outer
  match scope.bind fun scope => judged? index tables scope node with
  | some string => stringNode string
  | none =>
    node.childEntries.attach.foldlM (fun done entry => do
      return done.putSlot entry.val.1 (← recoverAll index tables scope entry.val.2)) node
termination_by sizeOf node
decreasing_by exact sizeOf_lt_of_mem_childEntries entry.property

/-- Puts what becomes of a child in its place. -/
def placing (become : Value → Fresh Value) (done : Value) (entry : Slot × Value) : Fresh Value := do
  return done.putSlot entry.1 (← become entry.2)

theorem recoverAll_eq (index : ScopeIndex) (tables : Tables) (outer : Option Nat) (node : Value) :
    recoverAll index tables outer node =
      match ((index.known? node).or outer).bind fun scope => judged? index tables scope node with
      | some string => stringNode string
      | none => node.childEntries.foldlM
          (placing (recoverAll index tables ((index.known? node).or outer))) node := by
  rw [recoverAll, List.foldlM_subtype (g := placing (recoverAll index tables ((index.known? node).or
    outer))) fun _ _ _ => rfl, List.unattach_attach]

/-! ## The calls one after the other -/

/-- The pass after the collection. -/
def resolver : Visitor State := [.onEnter "CallExpression" resolveCall]

theorem handlersFor_resolver_call :
    resolver.handlersFor .entering "CallExpression" = [resolveCall] :=
  rfl

theorem handlersFor_resolver (other : phase = .leaving ∨ kind ≠ "CallExpression") :
    resolver.handlersFor phase kind = [] := by
  rcases other with rfl | differs
  · rfl
  · cases phase with
    | entering =>
      simp [resolver, Visitor.handlersFor, Rule.handlersFor, Rule.handler?, Rule.onEnter,
        differs.symm]
    | leaving => rfl

theorem mem_handlersFor_resolver {handler : Handler State}
    (member : handler ∈ resolver.handlersFor phase kind) : handler = resolveCall :=
  (Visitor.mem_handlersFor_onEnter.1 member).elim (·.2.2) nofun

section

variable {document : Document} {tables : Tables} {session : Session State} {cursor : Cursor}
  {around : Surroundings} {node : Value}

/-- The node becomes what it should, with the labels that it should have. -/
def Yields (document : Document) (tables : Tables) (become : Fresh Value) (next : Nat)
    (new : Value) (after : Session State) : Prop :=
  Steady document tables after ∧ become.run next = (new, after.next)

variable {become : Value → Fresh Value}

/-- A node that has been entered: its children become what they should, and
leaving it changes nothing. -/
theorem brings_framesOf (names : (Members.names node.fields).Nodup) (solid : around.Solid) (here :
    cursor.address = around.address) (each : ∀ ⦃object child slot session⦄, (slot, child) ∈
    node.childEntries → object.slot? slot = some child → session.tree = Surroundings.fill ((object,
    slot) :: around) child → Steady document tables session → Brings resolver [.entering cursor
    slot] ((object, slot) :: around) (Yields document tables (become child) session.next) session)
    (steady : Steady document tables session) (filled : session.tree = around.fill node) : Brings
    resolver (framesOf cursor node) around (Yields document tables (node.childEntries.foldlM
    (placing become) node) session.next) session := by
  refine (brings_entries (fun done => Yields document tables
    (done.foldlM (placing become) node) session.next) solid here names ?_ filled
    ⟨steady, rfl⟩).append fun new after filled holds => brings_leaving_of_unhandled filled
      (fun _ _ => handlersFor_resolver (.inl rfl)) holds
  rintro done slot child now reached isEntry held filled ⟨steady, becomes⟩
  refine (each isEntry held filled steady).imp ?_
  rintro new after ⟨steadyAfter, becomesNew⟩
  refine ⟨steadyAfter, ?_⟩
  simp only [List.foldlM_append, StateT.run_bind, becomes, List.foldlM_cons, List.foldlM_nil,
    bind_pure]
  change (placing become now (slot, child)).run reached.next = _
  rw [placing, StateT.run_bind, becomesNew]
  rfl

variable (wellFormed : document.WellFormed) (drawn : Drawn document.tree tables)

include wellFormed drawn

/-- Entering a node of the program: a call that stands for a string becomes its
literal, and nothing else changes. -/
theorem Steady.exists_dispatch (steady : Steady document tables session)
    (inside : cursor.address ≠ []) (member : node ∈ document.tree.nodes) (solid : around.Solid)
    (here : cursor.address = around.address) (filled : session.tree = around.fill node) :
    ∃ moved new after, resolver.dispatch .entering cursor session = .ok moved after ∧
      Steady document tables after ∧ after.tree = around.fill new ∧
      moved.address = cursor.address ∧ moved.skipped = cursor.skipped ∧
      match cursor.scope.bind fun scope =>
          judged? (.build document.tree) tables scope node with
      | none => moved = cursor ∧ node = new ∧ after.next = session.next
      | some string => (stringNode string).run session.next = (new, after.next) := by
  have found : session.tree.at? cursor.address = some node := by
    rw [here, filled, Surroundings.at?_fill solid]
  have isHere := Surroundings.nodeIn_of_fill solid here filled
  by_cases isCall : node.isKind "CallExpression"
  · obtain ⟨moved, after, ran, steadyAfter, done⟩ :=
      steady.exists_resolveCall wellFormed drawn inside member isCall found
    have isKind : (cursor.nodeIn session).kind? = some "CallExpression" := by
      rw [isHere]
      exact kind?_of_isKind isCall
    rw [Visitor.dispatch_apply isKind, handlersFor_resolver_call, Visitor.runHandlers_singleton, ran]
    cases judgement : (cursor.scope.bind fun scope =>
        judged? (.build document.tree) tables scope node) with
    | none =>
      rw [judgement] at done
      obtain ⟨rfl, sameTree, sameNext, _, _⟩ := done
      exact ⟨moved, node, after, rfl, steadyAfter, sameTree.trans filled, rfl, rfl, rfl, rfl,
        sameNext⟩
    | some string =>
      rw [judgement] at done
      refine ⟨moved, _, after, rfl, steadyAfter, ?_, done.address, done.skipped,
        Prod.ext rfl done.next.symm⟩
      rw [done.tree, here, filled, Surroundings.putAt_fill solid]
  · have unhandled : ∀ kind, (cursor.nodeIn session).kind? = some kind →
        resolver.handlersFor .entering kind = [] := by
      intro kind isKind
      apply handlersFor_resolver
      right
      rintro rfl
      rw [isHere] at isKind
      exact isCall (beq_iff_eq.2 isKind)
    rw [Visitor.dispatch_unhandled unhandled]
    refine ⟨cursor, node, session, rfl, steady, filled, rfl, rfl, ?_⟩
    have unjudged : (cursor.scope.bind fun scope =>
        judged? (.build document.tree) tables scope node) = none := by
      cases cursor.scope with
      | none => rfl
      | some scope => exact if_neg isCall
    rw [unjudged]
    exact ⟨rfl, rfl, rfl⟩

/-- A node below the root of the program becomes what it becomes when all calls
are replaced at once. -/
theorem Steady.brings_node {node object : Value} {slot : Slot} {around : Surroundings}
    {cursor : Cursor} {session : Session State} (steady : Steady document tables session)
    (member : node ∈ document.tree.nodes) (isNode : node.isNode) (solid : around.Solid)
    (here : cursor.address = around.address) (held : object.slot? slot = some node)
    (filled : session.tree = Surroundings.fill ((object, slot) :: around) node) :
    Brings resolver [.entering cursor slot] ((object, slot) :: around) (Yields document tables
      (recoverAll (.build document.tree) tables cursor.scope node) session.next) session := by
  have inside := solid.cons held
  have isPlace : (⟨cursor.address ++ [slot], ((ScopeIndex.build document.tree).known? node).or
      cursor.scope, cursor.scope, false⟩ : Cursor).address =
        Surroundings.address ((object, slot) :: around) := by rw [here, Surroundings.address]
  have found : session.tree.at? (cursor.address ++ [slot]) = some node := by
    rw [filled, show cursor.address ++ [slot] = _ from isPlace, Surroundings.at?_fill inside]
  obtain ⟨moved, new, middle, entered, steadyNow, filledNow, stays, unskipped, done⟩ :=
    steady.exists_dispatch wellFormed drawn (by simp) member inside isPlace filled
  have inScope := scopeOf_of_build wellFormed.createsScope member cursor.scope steady.index
  have isNew := Surroundings.nodeIn_of_fill inside (stays.trans isPlace) filledNow
  rw [recoverAll_eq]
  cases judgement : ((((ScopeIndex.build document.tree).known? node).or cursor.scope).bind
      fun scope => judged? (.build document.tree) tables scope node) with
  | none =>
    rw [judgement] at done
    obtain ⟨rfl, rfl, sameNext⟩ := done
    rw [← sameNext]
    refine brings_entering found isNode inScope entered unskipped isNew isNode
      (brings_framesOf (wellFormed.names _ member) inside isPlace ?_ steadyNow filledNow)
    intro object child slot reached isChild held filledChild steadyChild
    obtain ⟨isSlot, inSlot, childNode⟩ := mem_childEntries.1 isChild
    have isIn := mem_children_of_childSlot isSlot inSlot childNode
    exact steadyChild.brings_node (mem_nodes_trans member (mem_nodes_of_child isIn (mem_nodes_self
      _))) childNode inside isPlace held filledChild
  | some string =>
    rw [judgement] at done
    obtain rfl : ((stringNode string).run session.next).1 = new := congrArg Prod.fst done
    exact brings_entering found isNode inScope entered unskipped isNew rfl
      (brings_leaving_of_unhandled filledNow (fun _ _ => handlersFor_resolver (.inl rfl))
        ⟨steadyNow, done⟩)
termination_by sizeOf node
decreasing_by exact sizeOf_lt_of_mem_children isIn

theorem Steady.exists_run (steady : Steady document tables session) (same : session.tree =
    document.tree) {root : Cursor} (atRoot : root.address = []) (isScope : root.scope =
    (ScopeIndex.build document.tree).known? document.tree) : ∃ bound after, (∀ limit, bound ≤ limit
    → run resolver limit (framesOf root session.tree) session = .ok () after) ∧ (recoverAll (.build
    document.tree) tables none document.tree).run session.next = (after.tree, after.next) := by
  have unjudged : (root.scope.bind fun scope =>
      judged? (.build document.tree) tables scope document.tree) = none := by
    cases root.scope with
    | none => rfl
    | some scope =>
      exact if_neg (by simp [isKind_eq_false (kind?_of_isKind wellFormed.tree.program)])
  obtain ⟨bound, after, runs, _, becomes⟩ := (brings_framesOf
    (wellFormed.names _ (mem_nodes_self _)) Surroundings.solid_nil atRoot
    (fun object child slot reached isChild held filledChild steadyChild => by
      obtain ⟨isSlot, inSlot, childNode⟩ := mem_childEntries.1 isChild
      have isIn := mem_children_of_childSlot isSlot inSlot childNode
      exact steadyChild.brings_node wellFormed drawn (mem_nodes_of_child isIn (mem_nodes_self _))
        childNode Surroundings.solid_nil atRoot held filledChild)
    steady same).exists_run
  refine ⟨bound, after, fun limit most => same ▸ runs limit most, ?_⟩
  rw [recoverAll_eq, Option.or_none, ← isScope, unjudged]
  exact becomes

end

/-! ## The whole pass -/

/-- The tables that are collected from a program on its own. -/
def collected (limit : Nat) (document : Document) (options : Options) : Except Fault Tables :=
  match Walk.start limit collector document (State.initial options) with
  | (.ok _, session) => .ok session.state.tables
  | (.error fault, _) => .error fault

theorem everywhere_stringNode (text : String) (next : Nat) :
    ((stringNode text).run next).1.Everywhere notProgram := by
  refine (everywhere_object (show _ = some next from rfl)).2 ⟨?_, ?_⟩
  · exact (by decide : some "Literal" ≠ some "Program")
  · intro field member
    rcases List.mem_cons.1 member with rfl | further
    · exact everywhere_leaf (.text _)
    · rw [List.mem_singleton.1 further]
      exact everywhere_leaf (.text _)

theorem keeps_single : Keeps resolver fun _ session => session.tree.Within notProgram := by
  refine keeps_settled (suited_tree (Within notProgram)) fun phase kind handler member cursor session
    single _ => ends_of_ok fun moved after ran => ?_
  rw [mem_handlersFor_resolver member] at ran
  have done := resolveCall_eq_ok ran
  dsimp only at single ⊢
  split at done
  · rwa [done.tree]
  · rw [done.tree]
    exact within_putAt single done.below (everywhere_stringNode _ _)

variable {session : Session State}

theorem run_visitor {limit visits : Nat} {frames : List Frame} (single : session.tree.Within
    notProgram) : run (visitor limit) visits frames session = run resolver visits frames session :=
  run_of_single keeps_single (fun _ single => single) single visits frames

variable {document : Document}

theorem exists_started (wellFormed : document.WellFormed) (options : Options) : ∃ root reached,
    approach (initialSession document (State.initial options)) = .ok root reached ∧ root.scope =
    (ScopeIndex.build document.tree).known? document.tree ∧ Gathered document reached := by
  obtain ⟨scope, log, approached, isScope⟩ := wellFormed.exists_approach (State.initial options)
  exact ⟨_, _, approached, isScope, rfl, rfl, rfl, .empty⟩

/-- Nothing has changed when the tables have been collected. -/
theorem Gathered.steady (gathered : Gathered document session) (same : session.tree = document.tree)
    (log : List Remark) : Steady document session.state.tables { session with log := log } := by
  refine ⟨gathered.index, rfl, ?_, gathered.next.ge, ?_⟩
  · rw [same]
    exact abridged_refl _ _
  · intro decoder _ _ shape known
    rw [gathered.shapes] at known
    cases known

/-- What is logged about the tables that have been collected. -/
def summary (tables : Tables) : Remark :=
  ⟨passLogger name, .debug, [.text ("collected " ++ toString (arrayCount tables) ++
    " string arrays, " ++ toString (functionCount tables) ++ " function candidates")]⟩

theorem collect_apply (limit : Nat) (cursor : Cursor) (session : Session State) :
    collect limit cursor session =
      match below limit collector cursor session with
      | .ok _ after => .ok cursor { after with log := after.log ++ [summary after.state.tables] }
      | .error fault after => .error fault after := by
  unfold collect
  rw [WalkM.bind_apply]
  cases below limit collector cursor session <;> rfl

section

variable {document : Document} {options : Options} {root : Cursor} {reached : Session State}
  (wellFormed : document.WellFormed)
  (approached : approach (initialSession document (State.initial options)) = .ok root reached)

include wellFormed approached

theorem dispatch_root (limit : Nat) : collector.dispatch .entering root reached = .ok root reached ∧
      (visitor limit).dispatch .entering root reached = collect limit root reached := by
  obtain ⟨reindexed, atRoot, _⟩ := approach_eq_ok approached
  have here : (root.nodeIn reached).kind? = some "Program" := by
    rw [Cursor.nodeIn, atRoot, reindexed.tree]
    exact kind?_of_isKind wellFormed.tree.program
  constructor
  · refine Visitor.dispatch_unhandled fun kind is => ?_
    cases here.symm.trans is
    rfl
  · exact dispatch_program approached (kind?_of_isKind wellFormed.tree.program) rfl

/-- From some number of visits on, the tables that are collected on their own are
those that are collected on entering the program. -/
theorem exists_collected {limit : Nat} (finished : Finished (below limit collector root reached)) :
    ∃ bound, ∀ more, bound ≤ more → collected more document options =
      match below limit collector root reached with
      | .ok _ after => .ok after.state.tables
      | .error fault _ => .error fault := by
  obtain ⟨reindexed, atRoot, _⟩ := approach_eq_ok approached
  have sameTree : reached.tree = document.tree := reindexed.tree
  have isTree : root.nodeIn reached = document.tree := by
    rw [Cursor.nodeIn, atRoot, sameTree]
    rfl
  have fine : reached.tree.fieldsFault? = none := by
    rw [sameTree]
    exact fieldsFault?_of_isNode wellFormed.isNode
  have opened := opening_of_dispatch approached (dispatch_root wellFormed approached limit).1 fine
  have isBelow : below limit collector root reached =
      run collector limit (document.tree.childSlots.map (.entering root)) reached := by
    rw [below_apply, isTree, ← sameTree, fine]
  have carries := carries_run collector limit
    (document.tree.childSlots.map (.entering root)) reached
  rw [← isBelow] at carries
  unfold collected
  obtain ⟨count, goes⟩ := carries finished
  refine ⟨count + 1, fun more most => ?_⟩
  obtain ⟨extra, rfl⟩ := Nat.exists_eq_add_of_le most
  rw [start_eq, opened, sameTree, framesOf, Nat.add_assoc]
  simp only [goes]
  cases below limit collector root reached with
  | error fault after => rfl
  | ok result after =>
    have leaves : run collector (1 + extra) [.leaving root] after = .ok () after := by
      rw [Nat.add_comm, run_succ, step_leaving_apply, Visitor.dispatch_unhandled fun _ _ => rfl]
      cases extra <;> rfl
    simp only [resume, leaves]

end

/-- The pass ends, and leaves the program with all those calls replaced at once
that stand for a string when each is judged on its own: its aliases, decoder,
shape, table and position are those of the program as it was read. It fails just
as the collection of the tables does. -/
theorem recovers_at_once {document : Document} (wellFormed : document.WellFormed) (options :
    Options) : ∃ bound, ∀ limit, bound ≤ limit →
      match collected limit document options with
      | .ok tables => ∃ after, Walk.start limit (visitor limit) document (State.initial options) =
          (.ok (), after) ∧ (recoverAll (.build document.tree) tables none document.tree).run
          document.next = (after.tree, after.next)
      | .error fault => fault ≠ .stepLimit ∧ ∃ after, Walk.start limit (visitor limit) document
          (State.initial options) = (.error fault, after) := by
  obtain ⟨root, reached, approached, isScope, started⟩ := exists_started wellFormed options
  obtain ⟨reindexed, atRoot, _⟩ := approach_eq_ok approached
  obtain ⟨enough, finished⟩ := exists_below_of_reads reads_collector root reached
  obtain ⟨first, collects⟩ := exists_collected wellFormed approached finished
  have entered (limit : Nat) (most : enough ≤ limit) := by
    have applied := (dispatch_root wellFormed approached limit).2.trans
      (collect_apply limit root reached)
    rwa [below_of_finished finished most] at applied
  cases ran : below enough collector root reached with
  | error fault after =>
    rw [ran] at collects finished entered
    refine ⟨max first enough, fun limit most => ?_⟩
    obtain ⟨late, later⟩ := Nat.max_le.1 most
    rw [collects limit late, start_eq, opening_of_fault approached (entered limit later)]
    exact ⟨fun cut => finished after (by rw [cut]), after, rfl⟩
  | ok result gathered =>
    rw [ran] at collects entered
    obtain ⟨sameTree, isGathered⟩ := gathered_of_below wellFormed atRoot reindexed.tree started ran
    obtain ⟨second, after, runs, becomes⟩ := (isGathered.steady sameTree (gathered.log ++ [summary
      gathered.state.tables])).exists_run wellFormed isGathered.drawn sameTree atRoot isScope
    refine ⟨max first (max enough second), fun limit most => ?_⟩
    obtain ⟨late, most⟩ := Nat.max_le.1 most
    obtain ⟨later, latest⟩ := Nat.max_le.1 most
    have opened := opening_of_dispatch approached (entered limit later)
      (by rw [sameTree]; exact fieldsFault?_of_isNode wellFormed.isNode)
    rw [collects limit late, start_eq, opened]
    dsimp only
    rw [run_visitor (by rw [sameTree]; exact wellFormed.single), runs limit latest]
    exact ⟨after, rfl, isGathered.next ▸ becomes⟩

/-- `function d(n) { var m = e(0); return t[n] }`
`function e(n) { return t[n] } var t = ["left", "right"]; d(1);`

The call of `e` in the body of `d` has become a string when `d` is analysed. -/
def analysedLate : Document where
  tree := .program [
    .function 1 (.identifier 2 "d") [.identifier 3 "n"] (.block 4 [
      .declaration 5 [
        .declarator 6 (.identifier 7 "m") (.call 8 (.identifier 9 "e") [.integer 10 0])],
      .returns 11 (.member 12 true (.identifier 13 "t") (.identifier 14 "n"))]),
    .function 15 (.identifier 16 "e") [.identifier 17 "n"] (.block 18 [
      .returns 19 (.member 20 true (.identifier 21 "t") (.identifier 22 "n"))]),
    .declaration 23 [
      .declarator 24 (.identifier 25 "t") (.array 26 [.string 27 "left", .string 28 "right"])],
    .statement 29 (.call 30 (.identifier 31 "d") [.integer 32 1])]
  next := 33

theorem wellFormed_analysedLate : analysedLate.WellFormed := by
  refine ⟨by decide +kernel, by decide +kernel, by decide +kernel, by decide +kernel,
    by decide +kernel, ?_⟩
  simp [Within, analysedLate, Everywhere, EverywhereItems, EverywhereFields, notProgram, fields]

/-- Both calls of `analysedLate` are replaced, the second by what it was judged
to stand for. -/
theorem recovers_at_once_analysedLate : analysedLate.WellFormed ∧ (∃ after, Walk.start 80 (visitor
    80) analysedLate (State.initial []) = (.ok (), after) ∧ after.state.recovered = 2) ∧ ∃ bound, ∀
    limit, bound ≤ limit →
        match collected limit analysedLate [] with
        | .ok tables => ∃ after, Walk.start limit (visitor limit) analysedLate (State.initial []) =
            (.ok (), after) ∧ (recoverAll (.build analysedLate.tree) tables none
            analysedLate.tree).run analysedLate.next = (after.tree, after.next)
        | .error fault => fault ≠ .stepLimit ∧ ∃ after, Walk.start limit (visitor limit)
            analysedLate (State.initial []) = (.error fault, after) := by
  have recovers : (match Walk.start 80 (visitor 80) analysedLate (State.initial []) with
      | (.ok _, after) => after.state.recovered == 2
      | (.error _, _) => false) = true := by decide +kernel
  refine ⟨wellFormed_analysedLate, ?_, recovers_at_once wellFormed_analysedLate []⟩
  split at recovers
  · rename_i after is
    exact ⟨after, is, beq_iff_eq.1 recovers⟩
  · cases recovers

end Unravel.Pass.Strings
