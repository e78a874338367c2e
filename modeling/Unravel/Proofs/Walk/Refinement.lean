import Unravel.Proofs.Tree.Programs
import Unravel.Proofs.Walk.Touring
import Unravel.Proofs.Walk.Yielding

/-!
Contract: the walk with pending visits does what the recursive walk does.

`walk_refines_recursion` is the whole statement, for any visitor whose actions
record, skip the node they are at or replace it: where the recursion ends, the
walk has its outcome and runs the same actions in the same order. Actions that
only record are run along the tour of the tree.
-/

namespace Unravel

variable {σ : Type}

/-! ## Actions that only record -/

/-- The action leaves the tree as it is and stays where it is. -/
def Handler.Records (handler : Handler σ) : Prop :=
  ∀ cursor session, ∃ after, handler cursor session = .ok cursor after ∧ after.tree = session.tree

def Visitor.Records (visitor : Visitor σ) : Prop :=
  ∀ phase kind, ∀ handler ∈ visitor.handlersFor phase kind, Handler.Records handler

/-- What a call is of: the visit it belongs to, and the rule. -/
def Call.site (call : Call) : Visit × Nat :=
  (⟨call.phase, call.cursor.address, call.node⟩, call.rule)

/-- The calls that a visit asks for: one for each action for the kind of the
node, in the order of the rules. -/
def Visitor.callsAt (visitor : Visitor σ) (visit : Visit) : List (Visit × Nat) :=
  match visit.node.kind? with
  | some kind => (visitor.numbered visit.phase kind).map fun entry => (visit, entry.1)
  | none => []

/-- The tree is as it was, and calls have been recorded. -/
structure Session.Tours (visits : List (Visit × Nat)) (before after : Session (σ × List Call)) :
    Prop where
  tree : after.tree = before.tree
  calls : after.state.2.map Call.site = before.state.2.map Call.site ++ visits

theorem Session.Tours.of_reindexed {before after : Session (σ × List Call)}
    (reindexed : before.Reindexed after) : before.Tours [] after :=
  ⟨reindexed.tree, by rw [reindexed.state, List.append_nil]⟩

theorem Session.Tours.trans {first second third : Session (σ × List Call)}
    {before after : List (Visit × Nat)} (left : first.Tours before second)
    (right : second.Tours after third) : first.Tours (before ++ after) third :=
  ⟨right.tree.trans left.tree, by rw [right.calls, left.calls, List.append_assoc]⟩

namespace Visitor

variable {visitor : Visitor σ} {session : Session (σ × List Call)} {cursor : Cursor}

theorem exists_runHandlers {phase : Phase} {kind : String} {entries : List (Nat × Handler σ)}
    (records : ∀ entry ∈ entries, Handler.Records entry.2)
    (is : (cursor.nodeIn session).kind? = some kind) :
    ∃ after, runHandlers kind (entries.map fun entry => entry.2.traced phase entry.1) cursor session
        = .ok cursor after ∧ session.Tours (entries.map fun entry =>
        (⟨phase, cursor.address, cursor.nodeIn session⟩, entry.1)) after := by
  induction entries generalizing session with
  | nil => exact ⟨session, rfl, rfl, (List.append_nil _).symm⟩
  | cons entry rest ih =>
    obtain ⟨plain, acts, sameTree⟩ := records entry List.mem_cons_self cursor session.forget
    have traces : entry.2.traced phase entry.1 cursor session =
        .ok cursor (plain.withState (plain.state,
          session.state.2 ++ [⟨phase, entry.1, cursor, cursor.nodeIn session⟩])) := by
      unfold Handler.traced
      rw [acts]
    have sameNode : cursor.nodeIn (plain.withState (plain.state,
        session.state.2 ++ [⟨phase, entry.1, cursor, cursor.nodeIn session⟩])) =
          cursor.nodeIn session := by
      exact congrArg (fun tree => (Value.at? tree cursor.address).getD .null) sameTree
    obtain ⟨after, ran, tours⟩ := ih
      (fun other member => records other (List.mem_cons_of_mem _ member)) (sameNode ▸ is)
    refine ⟨after, ?_, ?_⟩
    · rw [List.map_cons, runHandlers, WalkM.bind_apply, traces]
      dsimp only
      rw [Cursor.node_bind]
      rw [if_pos (sameNode ▸ is)]
      exact ran
    · rw [sameNode] at tours
      refine ⟨tours.tree.trans sameTree, ?_⟩
      rw [tours.calls]
      simp [Session.withState, Call.site]

theorem Records.exists_dispatch (records : visitor.Records) (phase : Phase) (cursor : Cursor)
    (session : Session (σ × List Call)) :
    ∃ after, visitor.traced.dispatch phase cursor session = .ok cursor after ∧
      session.Tours (visitor.callsAt ⟨phase, cursor.address, cursor.nodeIn session⟩) after := by
  unfold callsAt
  cases is : (cursor.nodeIn session).kind? with
  | none =>
    rw [dispatch_unhandled (by simp [is])]
    exact ⟨session, rfl, rfl, (List.append_nil _).symm⟩
  | some kind =>
    rw [dispatch_apply is, traced, handlersFor_tracedFrom]
    apply exists_runHandlers _ is
    intro entry member
    apply records phase kind
    rw [← visitor.map_snd_numberedFrom phase kind 0]
    exact List.mem_map_of_mem member

theorem Records.isLocal {visitor : Visitor σ} (records : visitor.Records) : visitor.Local := by
  intro phase kind handler member cursor session moved after ran
  obtain ⟨reached, acts, sameTree⟩ := records phase kind handler member cursor session
  cases ran.symm.trans acts
  exact ⟨rfl, .inl sameTree⟩

end Visitor

namespace Walk

open Value

variable {visitor : Visitor σ} {session : Session (σ × List Call)} {around : Surroundings}
  {cursor : Cursor} {node : Value} {slot : Slot}

/-- The node is as it was, and calls have been recorded. -/
def Toured (before : Session (σ × List Call)) (node : Value) (visits : List (Visit × Nat))
    (new : Value) (after : Session (σ × List Call)) : Prop :=
  new = node ∧ before.Tours visits after

theorem exists_dispatch_fill (records : visitor.Records) (phase : Phase) (solid : around.Solid)
    (here : cursor.address = around.address) (filled : session.tree = around.fill node) :
    ∃ after, visitor.traced.dispatch phase cursor session = .ok cursor after ∧
      session.Tours (visitor.callsAt ⟨phase, around.address, node⟩) after := by
  have isHere := Surroundings.nodeIn_of_fill solid here filled
  rw [← isHere, ← here]
  exact records.exists_dispatch phase cursor session

theorem brings_framesOf (records : visitor.Records) (solid : around.Solid) (here : cursor.address =
    around.address) (each : ∀ ⦃slot child session⦄, slot ∈ node.childSlots → node.slot? slot = some
    child → child.isNode → session.tree = around.fill node → Brings visitor.traced [.entering cursor
    slot] around (Toured session node ((child.tour (around.address ++ [slot])).flatMap
    visitor.callsAt)) session) (filled : session.tree = around.fill node) : Brings visitor.traced
    (framesOf cursor node) around (Toured session node ((node.childEntries.flatMap fun entry =>
        (entry.2.tour (around.address ++ [entry.1])).flatMap visitor.callsAt) ++
          visitor.callsAt ⟨.leaving, around.address, node⟩)) session := by
  refine Brings.append (brings_slots (fun slots now reached =>
    (∀ slot ∈ slots, slot ∈ node.childSlots) ∧ ∃ done, done ++ slots.filterMap node.childAt? =
      node.childEntries ∧ Toured session node (done.flatMap fun entry =>
          (entry.2.tour (around.address ++ [entry.1])).flatMap visitor.callsAt) now reached)
    solid here ?_ ?_ filled ⟨fun _ member => member, [], rfl, rfl, rfl, by simp⟩) ?_
  · rintro slot rest now reached absent ⟨among, done, isAll, rfl, tours⟩
    rw [List.filterMap_cons_none (childAt?_of_absent absent)] at isAll
    exact ⟨fun other later => among other (List.mem_cons_of_mem _ later), done, isAll, rfl, tours⟩
  · rintro slot rest now child reached held isNode filledNow ⟨among, done, isAll, rfl, tours⟩
    rw [List.filterMap_cons_some (childAt?_of_isNode held isNode), List.append_cons] at isAll
    refine (each (among slot List.mem_cons_self) held isNode filledNow).imp ?_
    rintro new after ⟨rfl, further⟩
    refine ⟨fun other later => among other (List.mem_cons_of_mem _ later), _, isAll, rfl, ?_⟩
    rw [List.flatMap_append, List.flatMap_singleton]
    exact tours.trans further
  · rintro new reached filledNow ⟨_, done, isAll, rfl, tours⟩
    rw [List.filterMap_nil, List.append_nil] at isAll
    subst isAll
    obtain ⟨after, leaves, toursLast⟩ := exists_dispatch_fill records .leaving solid here filledNow
    have visits : step visitor.traced (.leaving cursor) reached = .ok [] after := by
      rw [step_leaving_apply, leaves]
    exact brings_of_step visits
      (brings_nil (toursLast.tree.trans filledNow) ⟨rfl, tours.trans toursLast⟩)

/-- Actions that only record are run along the tour of a node. -/
theorem brings_tour (records : visitor.Records) {object node : Value} {around : Surroundings}
    {cursor : Cursor} {slot : Slot} {session : Session (σ × List Call)} (fine : node.Surveyable)
    (isNode : node.isNode) (solid : around.Solid) (here : cursor.address = around.address)
    (held : object.slot? slot = some node) (filled : session.tree = around.fill object) :
    Brings visitor.traced [.entering cursor slot] around (Toured session object
      ((node.tour (around.address ++ [slot])).flatMap visitor.callsAt)) session := by
  have inside := solid.cons held
  have filledHere : session.tree = Surroundings.fill ((object, slot) :: around) node := by
    rw [Surroundings.fill, putSlot_self held, filled]
  refine Brings.outside (brings_child solid here held isNode fine filledHere
    fun place opened isPlace _ reindexed => ?_)
  have toursScope := Session.Tours.of_reindexed reindexed
  obtain ⟨entered, enters, toursEnter⟩ := exists_dispatch_fill records .entering inside isPlace
    (toursScope.tree.trans filledHere)
  have toursNow := toursScope.trans toursEnter
  have filledNow := toursNow.tree.trans filledHere
  refine ⟨place, entered, node, enters, rfl, rfl, filledNow, isNode, (brings_framesOf records inside
    isPlace (fun inner child reached isSlot isChild childNode filled => ?_) filledNow).imp ?_⟩
  · have member := mem_children_of_childSlot isSlot isChild childNode
    exact brings_tour records (fine.child member) childNode inside isPlace isChild filled
  · rintro new after ⟨rfl, toursRest⟩
    have whole := toursNow.trans toursRest
    rw [tour_eq, List.cons_append, List.flatMap_cons, List.flatMap_append, List.flatMap_assoc]
    exact ⟨putSlot_self held, by simpa [Surroundings.address] using whole⟩
termination_by sizeOf node
decreasing_by exact sizeOf_lt_of_mem_children member

theorem exists_start_of_records (records : visitor.Records) {document : Document} (state : σ) (fine
    : document.tree.Surveyable) (isNode : document.tree.isNode) : ∃ bound, ∀ limit, bound ≤ limit →
    ∃ session, Walk.start limit visitor.traced document (state, []) = (.ok (), session) ∧
    session.tree = document.tree ∧ session.state.2.map Call.site = (document.tree.tour []).flatMap
    visitor.callsAt := by
  have ends : ∃ bound after, (∀ limit, bound ≤ limit → start limit visitor.traced document (state,
      []) = (.ok (), after)) ∧ Toured (initialSession document (state, [])) document.tree
      ((document.tree.tour []).flatMap visitor.callsAt) after.tree after := by
    refine exists_start_of_brings (Toured _ _ _) fine isNode fun root opened isRoot reindexed => ?_
    have isTree : opened.tree = document.tree := reindexed.tree
    obtain ⟨entered, enters, toursEnter⟩ := exists_dispatch_fill records .entering
      Surroundings.solid_nil isRoot isTree
    have toursNow := (Session.Tours.of_reindexed reindexed).trans toursEnter
    refine ⟨entered, enters, toursNow.tree, (brings_framesOf records Surroundings.solid_nil isRoot
      (fun slot child reached isSlot isChild childNode filled => brings_tour records
        (fine.child (mem_children_of_childSlot isSlot isChild childNode)) childNode
        Surroundings.solid_nil isRoot isChild filled) toursNow.tree).imp ?_⟩
    rintro new after ⟨rfl, toursRest⟩
    have whole := toursNow.trans toursRest
    rw [tour_eq, List.cons_append, List.flatMap_cons, List.flatMap_append, List.flatMap_assoc]
    exact ⟨rfl, by simpa [Surroundings.address] using whole⟩
  obtain ⟨bound, after, starts, _, tours⟩ := ends
  exact ⟨bound, fun limit most => ⟨after, starts limit most, tours.tree, tours.calls⟩⟩

end Walk

/-! ## The refinement -/

/-- Where the recursion ends, whatever it ends with, a walk that may make enough
visits ends with the same outcome, and has made the same calls. If the actions
only record, the calls follow the tour of the tree, which is properly nested,
enters the nodes in document order, and comes to each place once. -/
theorem walk_refines_recursion {visitor : Visitor σ} (isLocal : visitor.Local)
    (document : Document) (state : σ) :
    (∀ depth, Recursive.Ended (Recursive.start depth visitor document state) →
      ∃ bound, ∀ limit, bound ≤ limit →
        Walk.start limit visitor document state = Recursive.start depth visitor document state ∧
        Walk.start limit visitor.traced document (state, []) =
          Recursive.start depth visitor.traced document (state, [])) ∧
    (visitor.Records → document.tree.isNode = true → document.tree.Surveyable →
      (∃ bound, ∀ limit, bound ≤ limit → ∃ session,
        Walk.start limit visitor.traced document (state, []) = (.ok (), session) ∧
        session.tree = document.tree ∧
        session.state.2.map Call.site = (document.tree.tour []).flatMap visitor.callsAt) ∧
      Visit.Nested (document.tree.tour []) ∧
      (Value.inPhase .entering (document.tree.tour [])).map Visit.node = document.tree.nodes ∧
      (∀ visit ∈ document.tree.tour [], document.tree.at? visit.address = some visit.node) ∧
      ((∀ node ∈ document.tree.nodes, (Members.names node.fields).Nodup) →
        ∀ phase, (Value.placesIn phase (document.tree.tour [])).Nodup)) := by
  refine ⟨fun depth ends => ?_, fun records isNode fine => ⟨?_, ?_, ?_, ?_, ?_⟩⟩
  · obtain ⟨first, walks⟩ := Recursive.exists_start_eq isLocal document state ends
    obtain ⟨second, traces⟩ := Recursive.exists_start_eq isLocal.traced document (state, [])
      ends.traced
    exact ⟨max first second, fun limit most =>
      ⟨walks limit (Nat.le_trans (Nat.le_max_left _ _) most),
        traces limit (Nat.le_trans (Nat.le_max_right _ _) most)⟩⟩
  · exact Walk.exists_start_of_records records state fine isNode
  · exact Value.nested_tour [] document.tree
  · exact Value.map_node_tour [] document.tree
  · exact fun visit member => Value.at?_of_mem_tour rfl member
  · exact fun distinct phase => Value.nodup_placesIn_tour phase [] document.tree distinct

/-- Counts a visit. -/
def countOne : Handler Nat := fun cursor => do
  WalkM.modifyState (· + 1)
  return cursor

theorem records_countOne : Handler.Records countOne := fun _ _ => ⟨_, rfl, rfl⟩

/-- Counts the identifiers and literals that are entered and left. -/
def counting : Visitor Nat := [⟨["Identifier", "Literal"], some countOne, some countOne⟩]

theorem records_counting : counting.Records := by
  intro phase kind handler member
  have isCount : handler = countOne := by
    cases phase <;>
      exact (List.mem_append.1 member).elim List.eq_of_mem_replicate (absurd · List.not_mem_nil)
  rw [isCount]
  exact records_countOne

/-- Puts a literal in the place of every identifier that is entered, counts the
identifiers and literals that are left, and skips functions. -/
def settling : Visitor Nat := [.onEnter "Identifier" fun cursor =>
      cursor.replace (.integer 8 1),
    ⟨["Identifier", "Literal"], none, some countOne⟩,
    .onEnter "FunctionDeclaration" fun cursor => pure cursor.skip]

theorem local_settling : settling.Local := by
  intro phase kind handler member cursor session moved after ran
  cases phase with
  | entering =>
    simp only [settling, Visitor.handlersFor, List.flatMap_cons, List.flatMap_nil,
      List.append_nil, List.mem_append, Rule.handlersFor, Rule.handler?, Rule.onEnter,
      List.mem_replicate, List.not_mem_nil, false_or] at member
    rcases member with ⟨_, rfl⟩ | ⟨_, rfl⟩
    · obtain ⟨_, scope, rfl, inScope⟩ := Cursor.replace_eq_ok ran
      exact ⟨rfl, .inr ⟨_, (WalkM.scopeOf_eq_ok inScope).tree⟩⟩
    · cases ran
      exact ⟨rfl, .inl rfl⟩
  | leaving =>
    simp only [settling, Visitor.handlersFor, List.flatMap_cons, List.flatMap_nil, List.append_nil,
      List.nil_append, Rule.handlersFor, Rule.handler?, Rule.onEnter, List.mem_replicate] at member
    obtain ⟨_, rfl⟩ := member
    cases ran
    exact ⟨rfl, .inl rfl⟩

/-- `x + 0; function f() {}` -/
def sumAndFunction : Document where
  tree := .program [
    .statement 1 (.binary 2 "+" (.identifier 3 "x") (.integer 4 0)),
    .function 5 (.identifier 6 "f") [] (.block 7 [])]
  next := 8

theorem walk_refines_recursion_sumAndFunction :
    (∃ bound, ∀ limit, bound ≤ limit →
      Walk.start limit settling sumAndFunction 0 = Recursive.start 4 settling sumAndFunction 0 ∧
      Walk.start limit settling.traced sumAndFunction (0, []) =
        Recursive.start 4 settling.traced sumAndFunction (0, [])) ∧
    (∃ bound, ∀ limit, bound ≤ limit → ∃ session,
      Walk.start limit counting.traced sumAndFunction (0, []) = (.ok (), session) ∧
      session.tree = sumAndFunction.tree ∧
      session.state.2.map Call.site = (sumAndFunction.tree.tour []).flatMap counting.callsAt) ∧
    ∀ phase, (Value.placesIn phase (sumAndFunction.tree.tour [])).Nodup := by
  have ends : Recursive.Ended (Recursive.start 4 settling sumAndFunction 0) := by
    have succeeds : (Recursive.start 4 settling sumAndFunction 0).1.toBool = true := by
      decide +kernel
    intro cut
    rw [cut] at succeeds
    cases succeeds
  obtain ⟨recorded, _, _, _, once⟩ := (walk_refines_recursion records_counting.isLocal
    sumAndFunction 0).2 records_counting rfl (by decide +kernel)
  exact ⟨(walk_refines_recursion local_settling sumAndFunction 0).1 4 ends, recorded,
    once (by decide +kernel)⟩

end Unravel
