import Unravel.Proofs.Scope.Building
import Unravel.Proofs.Scope.Growth
import Unravel.Proofs.Walk.Outcomes

/-!
Contract: a walk that only reads the tree ends.

Every visit is of a node that was in the tree before, so the walk of a node ends
once those of its children do (`exists_finished_of_reads`). The visits are to the
nodes of the tree, and what the actions maintain there the walk keeps
(`keeps_stays`). If the root opens a scope, all scopes of the tree are indexed
from the start.
-/

namespace Unravel

open Walk

variable {σ : Type}

/-- The actions of the visitor stay where they are and are never cut off. -/
def Visitor.Remains (visitor : Visitor σ) : Prop :=
  Acts visitor (fun _ _ => True) (fun fault _ => fault ≠ .stepLimit) fun cursor _ moved _ =>
    moved.address = cursor.address

/-- The actions of the visitor leave the tree as it is, stay where they are and
are never cut off. -/
structure Visitor.Reads (visitor : Visitor σ) : Prop where
  fixes : ∀ phase kind, ∀ handler ∈ visitor.handlersFor phase kind, ∀ cursor,
    Fixes Session.tree (handler cursor)
  stays : ∀ phase kind, ∀ handler ∈ visitor.handlersFor phase kind, ∀ cursor session moved after,
    handler cursor session = .ok moved after → moved.address = cursor.address

variable {visitor : Visitor σ} {session after : Session σ} {cursor moved : Cursor} {tree : Value}

theorem Visitor.Reads.keeps (reads : visitor.Reads) {phase : Phase} {kind : String} {handler :
    Handler σ} (member : handler ∈ visitor.handlersFor phase kind) (ran : handler cursor session =
    .ok moved after) : after.tree = session.tree ∧ moved.address = cursor.address := by
  have fixed := (reads.fixes phase kind handler member cursor session).1
  rw [ran] at fixed
  exact ⟨fixed, reads.stays phase kind handler member _ _ _ _ ran⟩

theorem Visitor.Reads.remains (reads : visitor.Reads) : visitor.Remains := by
  intro phase kind handler member cursor session _ _
  cases ran : handler cursor session with
  | ok moved after => exact reads.stays phase kind handler member _ _ _ _ ran
  | error fault after =>
    rintro rfl
    exact (reads.fixes phase kind handler member cursor session).2 after ran

namespace Walk

variable {stops : Frame → Session σ → Prop} {owner : Cursor} {slot : Slot} {frame : Frame}
  {following : List Frame}

theorem tree_of_reads (reads : visitor.Reads)
    (visits : step visitor frame session = .ok following after) : after.tree = session.tree := by
  have keeps : Keeps visitor fun _ reached => reached.tree = session.tree :=
    keeps_settled (suited_tree (· = session.tree)) fun _ _ _ member _ _ same _ =>
      ends_of_ok fun _ _ ran => (reads.keeps member ran).1.trans same
  exact @keeps frame [] session following after rfl visits

theorem governed_remains : Governed (fun (_ : Cursor) (_ : Session σ) => True) (fun _ => True)
    (fun fault _ => fault ≠ .stepLimit) fun cursor _ moved _ => moved.address = cursor.address where
  scopes owner _ session value _ _ _ _ := by
    have uncut := (fixes_scopeOf (fun _ _ _ => rfl : Blind Session.tree) value owner.scope session).2
    cases ran : WalkM.scopeOf value owner.scope session with
    | ok scope after => exact ⟨trivial, fun _ _ => trivial⟩
    | error fault after =>
      rintro rfl
      exact uncut after ran
  follows _ _ _ _ _ := trivial
  rests _ _ _ := rfl
  settles _ _ _ _ _ := ⟨trivial, fun _ _ => trivial⟩
  moves _ _ _ _ _ _ arrives further := further.trans arrives

theorem resolves_of_each {frames : List Frame} (each : ∀ frame ∈ frames, ∀ reached : Session σ,
    reached.tree = tree → Resolves visitor stops (fun after => after.tree = tree) [frame] reached)
    (same : session.tree = tree) : Resolves visitor stops (fun after => after.tree = tree) frames
    session := by
  induction frames generalizing session with
  | nil => exact .done same
  | cons frame rest ih =>
    apply (each frame List.mem_cons_self session same).append
    intro middle sameMiddle
    exact ih (fun other member => each other (List.mem_cons_of_mem _ member)) sameMiddle

section Remains

variable (remains : visitor.Remains)

include remains

theorem finished_step (frame : Frame) (session : Session σ) :
    Finished (step visitor frame session) := by
  have ends : Ends _ _ (step visitor frame session) :=
    ends_step governed_remains remains frame trivial trivial
  intro reached cut
  rw [cut] at ends
  exact ends rfl

theorem address_of_dispatch {phase : Phase}
    (ran : visitor.dispatch phase cursor session = .ok moved after) :
    moved.address = cursor.address := by
  have ends : Ends _ _ (visitor.dispatch phase cursor session) :=
    ends_dispatch governed_remains.toArrivals remains phase cursor trivial
  rw [ran] at ends
  exact ends

/-- How much there is to be visited from a frame on. -/
noncomputable def extent (tree : Value) : Frame → Nat
  | .entering owner slot => ((tree.at? (owner.address ++ [slot])).filter Value.isNode).elim 0 sizeOf
  | .leaving _ => 0

/-- Where a visit leaves the tree as it is, there is less to be visited from the frames that
follow. -/
theorem extent_lt {inner : Frame} (visits : step visitor frame session = .ok following after)
    (same : after.tree = session.tree) (member : inner ∈ following) :
    extent session.tree inner < extent session.tree frame := by
  cases step_eq_ok visits with
  | left | absent => cases member
  | @entered owner moved slot value scope reached _ found isNode inScope acts follows =>
    have positive : 0 < sizeOf value := by cases value <;> simp [Nat.pos_iff_ne_zero]
    have isHere : moved.address = owner.address ++ [slot] :=
      address_of_dispatch remains acts
    have isValue : moved.nodeIn after = value := by
      rw [Cursor.nodeIn, same, isHere, found]
      rfl
    have here : extent session.tree (.entering owner slot) = sizeOf value := by
      simp [extent, found, Option.filter_some, isNode]
    rcases follows with rfl | rfl
    · cases member
    · rw [here]
      rw [isValue] at member
      rcases List.mem_append.1 member with isChild | isLast
      · obtain ⟨inside, isSlot, rfl⟩ := List.mem_map.1 isChild
        rw [extent, isHere, Value.at?_append_of_at? found]
        cases held : (value.at? [inside]).filter Value.isNode with
        | none => exact positive
        | some child =>
          obtain ⟨atChild, childNode⟩ := Option.filter_eq_some_iff.1 held
          exact Value.sizeOf_lt_of_mem_children
            (Value.mem_children_of_childSlot isSlot (by simpa [Value.at?] using atChild) childNode)
      · rw [List.mem_singleton.1 isLast]
        exact positive

variable (fixes : ∀ ⦃frame session following after⦄, step visitor frame session = .ok following
  after → stops frame session ∨ after.tree = session.tree)

include fixes

/-- While no visit changes the tree, the walk of a node comes to its end. -/
theorem resolves_frame (frame : Frame) (session : Session σ) :
    Resolves visitor stops (fun after => after.tree = session.tree) [frame] session := by
  cases visits : step visitor frame session with
  | error fault after => exact .failed visits
  | ok following after =>
    rcases fixes visits with here | same
    · exact .stopped here
    · refine .visited visits ?_
      rw [List.append_nil]
      refine resolves_of_each (fun inner member reached sameThere => ?_) same
      have smaller := extent_lt remains visits same member
      rw [← sameThere]
      exact resolves_frame inner reached
termination_by extent session.tree frame
decreasing_by exact sameThere ▸ smaller

theorem resolves_frames (frames : List Frame) (session : Session σ) :
    Resolves visitor stops (fun after => after.tree = session.tree) frames session :=
  resolves_of_each (fun frame _ reached same =>
    same ▸ resolves_frame remains fixes frame reached) rfl

end Remains

theorem exists_finished_of_reads (reads : visitor.Reads) (frames : List Frame)
    (session : Session σ) : ∃ limit, Finished (run visitor limit frames session) := by
  have fixes : ∀ ⦃frame session following after⦄, step visitor frame session = .ok following after →
      False ∨ after.tree = session.tree := fun _ _ _ _ visits => .inr (tree_of_reads reads visits)
  rcases (resolves_frames reads.remains fixes frames session).finished_or_stopped
    (finished_step reads.remains) fixes with finished | ⟨_, _, _, _, impossible, _⟩
  · exact finished
  · exact impossible.elim

variable {node : Value} {invariant : Session σ → Prop}

variable {limit : Nat} {result : Unit}

theorem below_keeps {invariant : List Frame → Session σ → Prop} (keeps : Keeps visitor invariant)
    (holds : invariant ((cursor.nodeIn session).childSlots.map (.entering cursor)) session) (ran :
    below limit visitor cursor session = .ok result after) : invariant [] after := by
  rw [below_apply] at ran
  cases fault : (cursor.nodeIn session).fieldsFault? with
  | some found =>
    rw [fault] at ran
    cases ran
  | none =>
    rw [fault] at ran
    exact run_keeps keeps holds ran

theorem below_of_finished {bound : Nat} (finished : Finished (below bound visitor cursor session))
    (most : bound ≤ limit) :
    below limit visitor cursor session = below bound visitor cursor session := by
  obtain ⟨extra, rfl⟩ := Nat.exists_eq_add_of_le most
  rw [below_apply] at finished
  rw [below_apply, below_apply]
  cases fault : (cursor.nodeIn session).fieldsFault? with
  | none =>
    rw [fault] at finished
    exact run_add_of_finished finished extra
  | some fault => rfl

theorem exists_below_of_reads (reads : visitor.Reads) (cursor : Cursor) (session : Session σ) :
    ∃ bound, Finished (below bound visitor cursor session) := by
  obtain ⟨bound, finished⟩ := exists_finished_of_reads reads
    ((cursor.nodeIn session).childSlots.map (.entering cursor)) session
  refine ⟨bound, ?_⟩
  rw [below_apply]
  cases (cursor.nodeIn session).fieldsFault? with
  | none => exact finished
  | some fault => exact fun _ same => nomatch same

/-! ## Visits to the nodes of one tree -/

/-- The visit is to a child slot of a node of the tree, or leaves such a node. -/
def OnTree (tree : Value) : Frame → Prop
  | .entering owner slot => tree.Leads owner.address ∧
      ∃ node, tree.at? owner.address = some node ∧ slot ∈ node.childSlots
  | .leaving cursor => tree.Leads cursor.address ∧ (tree.at? cursor.address).isSome = true

theorem OnTree.mem_nodes {value : Value} (onTree : OnTree tree (.entering owner slot))
    (foundValue : tree.at? (owner.address ++ [slot]) = some value) (isNode : value.isNode) :
    tree.Leads (owner.address ++ [slot]) ∧ value ∈ tree.nodes := by
  obtain ⟨leads, node, found, isSlot⟩ := onTree
  have held : node.slot? slot = some value := by
    rw [Value.at?_append_of_at? found] at foundValue
    simpa [Value.at?] using foundValue
  have leadsThere : tree.Leads (owner.address ++ [slot]) := by
    rw [Value.leads_append found]
    exact ⟨leads, isSlot, value, held, isNode, trivial⟩
  exact ⟨leadsThere, Value.mem_nodes_of_leads leadsThere foundValue⟩

/-- The walk is over a tree that stays as it is. -/
structure Stays (tree : Value) (invariant : Session σ → Prop) (frames : List Frame)
    (session : Session σ) : Prop where
  same : session.tree = tree
  holds : invariant session
  onTree : ∀ frame ∈ frames, OnTree tree frame

theorem onTree_framesOf (leads : tree.Leads cursor.address) (found : tree.at? cursor.address = some
    node) : ∀ frame ∈ framesOf cursor node, OnTree tree frame := by
  intro frame member
  rcases List.mem_append.1 member with child | own
  · obtain ⟨slot, isSlot, rfl⟩ := List.mem_map.1 child
    exact ⟨leads, node, found, isSlot⟩
  · cases List.mem_singleton.1 own
    exact ⟨leads, by rw [found]; rfl⟩

/-- The actions at nodes of the tree keep an invariant, and leave the tree as it
is. -/
def Maintains (visitor : Visitor σ) (tree : Value) (invariant : Session σ → Prop) : Prop :=
  ∀ ⦃phase kind handler⦄, handler ∈ visitor.handlersFor phase kind →
    ∀ ⦃cursor session moved after⦄, session.tree = tree → invariant session →
      cursor.nodeIn session ∈ tree.nodes → (cursor.nodeIn session).kind? = some kind →
        handler cursor session = .ok moved after →
          moved.address = cursor.address ∧ after.tree = tree ∧ invariant after

/-- The index of a tree has a scope for each of its nodes, and stays. -/
theorem scopeOf_of_build (creates : tree.createsScope) (member : node ∈ tree.nodes) (outer : Option
    Nat) (isIndex : session.index = .build tree) : WalkM.scopeOf node outer session = .ok
    (((ScopeIndex.build tree).known? node).or outer) session := by
  cases opens : node.createsScope with
  | false => rw [WalkM.scopeOf_of_plain opens, isIndex]
  | true =>
    obtain ⟨known, isKnown⟩ := Option.isSome_iff_exists.1
      (ScopeIndex.isSome_known?_build creates member opens)
    rw [← isIndex] at isKnown ⊢
    rw [WalkM.scopeOf_of_known isKnown, isKnown]
    rfl

/-- The cursor is at a node of the tree, which is as it was. -/
structure Stands (tree : Value) (invariant : Session σ → Prop) (cursor : Cursor)
    (session : Session σ) : Prop where
  same : session.tree = tree
  holds : invariant session
  leads : tree.Leads cursor.address
  isSome : (tree.at? cursor.address).isSome = true

theorem Stands.found (stands : Stands tree invariant cursor session) :
    tree.at? cursor.address = some (cursor.nodeIn session) := by
  obtain ⟨node, found⟩ := Option.isSome_iff_exists.1 stands.isSome
  rw [Cursor.nodeIn, stands.same, found]
  rfl

theorem OnTree.stands (onTree : OnTree tree frame) (same : session.tree = tree)
    (holds : invariant session) : Stands tree invariant frame.cursor session := by
  cases frame with
  | leaving cursor => exact ⟨same, holds, onTree.1, onTree.2⟩
  | entering owner slot =>
    obtain ⟨leads, node, found, _⟩ := onTree
    exact ⟨same, holds, leads, Option.isSome_iff_exists.2 ⟨node, found⟩⟩

theorem Maintains.acts (maintains : Maintains visitor tree invariant) :
    Acts visitor (Stands tree invariant) (fun _ _ => True) fun _ _ => Stands tree invariant := by
  refine fun phase kind handler member cursor session stands is => ends_of_ok fun moved after ran => ?_
  obtain ⟨isThere, keptTree, kept⟩ := maintains member stands.same stands.holds
    (Value.mem_nodes_of_leads stands.leads stands.found) is ran
  exact ⟨keptTree, kept, isThere ▸ stands.leads, isThere ▸ stands.isSome⟩

theorem onTree_childSlots (atRoot : cursor.address = []) :
    ∀ frame ∈ tree.childSlots.map (.entering cursor), OnTree tree frame := by
  intro frame member
  obtain ⟨slot, isSlot, rfl⟩ := List.mem_map.1 member
  exact ⟨by rw [atRoot]; trivial, tree, by rw [atRoot]; rfl, isSlot⟩

section Indexed

variable (creates : tree.createsScope)
  (indexed : ∀ session, invariant session → session.index = .build tree)

include creates indexed

theorem governed_stands : Governed (Stands tree invariant) (OnTree tree) (fun _ _ => True)
    fun _ _ => Stands tree invariant where
  scopes _ _ session _ stands onTree found isNode := by
    rw [stands.same] at found
    obtain ⟨leads, member⟩ := onTree.mem_nodes found isNode
    rw [scopeOf_of_build creates member _ (indexed session stands.holds)]
    exact ⟨⟨stands.same, stands.holds, leads, by rw [found]; rfl⟩, fun _ was => was⟩
  follows _ _ stands := onTree_framesOf stands.leads stands.found
  toArrivals := arrivals_of_ready fun _ _ _ _ stands was =>
    ⟨stands.same, stands.holds, was.leads, was.isSome⟩

/-- What the actions maintain at the nodes of a tree, a walk over it keeps, if all
scopes of the tree are indexed. -/
theorem keeps_stays (maintains : Maintains visitor tree invariant) :
    Keeps visitor (Stays tree invariant) := by
  rintro frame rest session following after ⟨same, holds, onTree⟩ visits
  obtain ⟨⟨_, stands⟩, awaits⟩ := keeps_opened (governed_stands creates indexed) maintains.acts
    ⟨⟨_, (onTree frame List.mem_cons_self).stands same holds⟩, fun other member =>
      ⟨(onTree other member).stands same holds, onTree other member⟩⟩ visits
  exact ⟨stands.same, stands.holds, fun other member => (awaits other member).2⟩

theorem below_stays (maintains : Maintains visitor tree invariant) (atRoot : cursor.address = [])
    (same : session.tree = tree) (holds : invariant session)
    (ran : below limit visitor cursor session = .ok result after) :
    after.tree = tree ∧ invariant after := by
  have isRoot : cursor.nodeIn session = tree := by
    rw [Cursor.nodeIn, atRoot, same]
    rfl
  have kept := below_keeps (keeps_stays creates indexed maintains)
    ⟨same, holds, isRoot ▸ onTree_childSlots atRoot⟩ ran
  exact ⟨kept.same, kept.holds⟩

end Indexed

end Walk

end Unravel
