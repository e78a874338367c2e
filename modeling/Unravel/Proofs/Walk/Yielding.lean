import Unravel.Proofs.Scope.WellFormed
import Unravel.Proofs.Tree.Rewriting
import Unravel.Proofs.Walk.Recursion

/-!
Contract: what a walk makes of a node, from what it makes of the children.

`Brings` says of frames that a walk that comes to them goes on, and what holds of the
node in a place and of the session by then. The frames of the child slots of a node
are put together from those of the children (`brings_slots`, `brings_entries`), the
frame of a node from its actions and the frames these lead to (`brings_entering`),
and a whole walk from the frames of the root (`exists_start_of_brings`).
-/

namespace Unravel

variable {σ : Type}

/-! ## Trees that can be surveyed -/

namespace Value

/-- No node of the tree keeps it from being surveyed. -/
def Surveyable (value : Value) : Prop :=
  ∀ node ∈ value.nodes, node.hoistingFault? = none ∧ node.declarationFault? = none ∧
    node.writtenIdentifiers.findSome? nameFault? = none

variable {value : Value}

theorem Surveyable.child {child : Value} (fine : value.Surveyable) (member : child ∈ value.children)
    : child.Surveyable :=
  fun node isNode => fine node (mem_nodes_of_child member isNode)

theorem Sound.surveyable (sound : value.Sound) (isNode : value.isNode) : value.Surveyable := by
  intro node inside
  have soundNode : node.Sound :=
    fun _ inner below => sound isNode inner (mem_nodes_trans inside below)
  exact ⟨soundNode.hoistingFault?, soundNode.declarationFault?, soundNode.writtenFault?⟩

theorem Surveyable.surveyFault? (fine : value.Surveyable) (inScope : Bool) : value.surveyFault?
    inScope = none := by
  obtain ⟨hoists, declares, writes⟩ := fine value (mem_nodes_self value)
  have below : (value.nodes.drop 1).findSome? (fun node =>
      node.hoistingFault?.or node.declarationFault?) = none := by
    rw [List.findSome?_eq_none_iff]
    intro node member
    obtain ⟨nodeHoists, nodeDeclares, _⟩ := fine node (List.mem_of_mem_drop member)
    rw [nodeHoists, nodeDeclares]
    rfl
  have written : value.nodes.findSome? (fun node =>
      node.writtenIdentifiers.findSome? nameFault?) = none := by
    rw [List.findSome?_eq_none_iff]
    exact fun node member => (fine node member).2.2
  unfold Value.surveyFault?
  rw [hoists, declares, below, written]
  cases inScope <;> simp

instance : DecidablePred Surveyable := fun value =>
  inferInstanceAs (Decidable (∀ node ∈ value.nodes, _))

end Value

namespace WalkM

theorem exists_scopeOf {value : Value} (fine : value.Surveyable) (outer : Option Nat)
    (session : Session σ) : ∃ scope after, scopeOf value outer session = .ok scope after := by
  refine scopeOf_cases (motive := fun outcome => ∃ scope after, outcome = .ok scope after) value
    outer session ⟨_, _, rfl⟩ (fun fault faulty => ?_) ⟨_, _, rfl⟩
  rw [fine.surveyFault?] at faulty
  cases faulty

end WalkM

namespace Walk

open Value

theorem exists_approach {session : Session σ} (fine : session.tree.Surveyable) :
    ∃ root reached, approach session = .ok root reached ∧ root.address = [] ∧
      root.skipped = false ∧ session.Reindexed reached := by
  obtain ⟨scope, reached, inScope⟩ :=
    WalkM.exists_scopeOf fine none (session.surveyed session.tree none)
  have approaches : approach session = .ok ⟨[], scope, none, false⟩ reached := by
    rw [approach_apply, fine.surveyFault?, inScope]
  obtain ⟨reindexed, isRoot, unskipped⟩ := approach_eq_ok approaches
  exact ⟨_, reached, approaches, isRoot, unskipped, reindexed⟩

/-! ## Frames and what they bring -/

variable {visitor : Visitor σ} {session : Session σ} {around : Surroundings} {node : Value}
  {cursor : Cursor} {slot : Slot} {frames later : List Frame} {reached : Value → Session σ → Prop}

/-- A walk that comes to the frames goes on, with something that holds of the node in
the place and of the session. -/
def Brings (visitor : Visitor σ) (frames : List Frame) (around : Surroundings) (reached : Value →
    Session σ → Prop) (session : Session σ) : Prop := ∃ new after, Carries visitor frames session
    (.ok () after : EStateM.Result _ _ Unit) ∧ after.tree = around.fill new ∧ reached new after

theorem brings_nil (filled : session.tree = around.fill node) (holds : reached node session) :
    Brings visitor [] around reached session :=
  ⟨node, session, carries_nil () session, filled, holds⟩

variable {further : Value → Session σ → Prop}

theorem Brings.imp (brings : Brings visitor frames around reached session) (implies : ∀ ⦃new after⦄,
    reached new after → further new after) : Brings visitor frames around further session := by
  obtain ⟨new, after, goes, filled, holds⟩ := brings
  exact ⟨new, after, goes, filled, implies holds⟩

theorem Brings.append (first : Brings visitor frames around reached session) (second : ∀ ⦃new
    after⦄, after.tree = around.fill new → reached new after → Brings visitor later around further
    after) : Brings visitor (frames ++ later) around further session := by
  obtain ⟨middle, halfway, goes, filled, holds⟩ := first
  obtain ⟨new, after, goesOn, ends⟩ := second filled holds
  exact ⟨new, after, goes.append goesOn, ends⟩

theorem brings_of_step {frame : Frame} {following : List Frame} {middle : Session σ} (visits : step
    visitor frame session = .ok following middle) (brings : Brings visitor following around reached
    middle) : Brings visitor [frame] around reached session := by
  obtain ⟨new, after, goes, ends⟩ := brings
  exact ⟨new, after, carries_of_step visits goes, ends⟩

variable {object : Value}

/-- What is brought about in a slot, seen from the object with the slot. -/
theorem Brings.outside (brings : Brings visitor frames ((object, slot) :: around) (fun new =>
    reached (object.putSlot slot new)) session) : Brings visitor frames around reached session := by
  obtain ⟨new, after, goes, filled, holds⟩ := brings
  exact ⟨_, after, goes, filled, holds⟩

theorem Brings.exists_run (brings : Brings visitor frames [] reached session) :
    ∃ bound after, (∀ limit, bound ≤ limit → run visitor limit frames session = .ok () after) ∧
      reached after.tree after := by
  obtain ⟨new, after, carries, filled, holds⟩ := brings
  obtain rfl : after.tree = new := filled
  obtain ⟨bound, runs⟩ := carries.exists_run nofun
  exact ⟨bound, after, runs, holds⟩

theorem brings_leaving_of_unhandled (filled : session.tree = around.fill node)
    (unhandled : ∀ kind, (cursor.nodeIn session).kind? = some kind →
      visitor.handlersFor .leaving kind = [])
    (holds : reached node session) : Brings visitor [.leaving cursor] around reached session := by
  refine brings_of_step ?_ (brings_nil filled holds)
  rw [step_leaving_apply, Visitor.dispatch_unhandled unhandled]

variable {child : Value}

/-- A node is entered, and the walk goes on with the frames of what it has become. -/
theorem brings_entering {new : Value} {scope : Option Nat} {indexed entered : Session σ} {moved :
    Cursor} (found : session.tree.at? (cursor.address ++ [slot]) = some child) (isNode :
    child.isNode) (inScope : WalkM.scopeOf child cursor.scope session = .ok scope indexed) (acts :
    visitor.dispatch .entering ⟨cursor.address ++ [slot], scope, cursor.scope, false⟩ indexed = .ok
    moved entered) (unskipped : moved.skipped = false) (isNew : moved.nodeIn entered = new) (newNode
    : new.isNode) (brings : Brings visitor (framesOf moved new) around reached entered) : Brings
    visitor [.entering cursor slot] around reached session := by
  refine brings_of_step ?_ brings
  rw [step_entering_of_isNode found isNode, enterNode_apply inScope, acts]
  dsimp only
  rw [unskipped, isNew, newNode]
  rfl

/-- The node in a slot is entered, which leaves the place as it is or puts a node there. -/
theorem brings_child (solid : around.Solid) (here : cursor.address = around.address) (held :
    object.slot? slot = some child) (isNode : child.isNode) (fine : child.Surveyable) (filled :
    session.tree = Surroundings.fill ((object, slot) :: around) child) (enters : ∀ ⦃place : Cursor⦄
    ⦃opened⦄, place.address = Surroundings.address ((object, slot) :: around) → place.address ≠ [] →
    session.Reindexed opened → ∃ moved entered new, visitor.dispatch .entering place opened = .ok
    moved entered ∧ moved.address = place.address ∧ moved.skipped = place.skipped ∧ entered.tree =
    Surroundings.fill ((object, slot) :: around) new ∧ new.isNode ∧ Brings visitor (framesOf moved
    new) ((object, slot) :: around) reached entered) : Brings visitor [.entering cursor slot]
    ((object, slot) :: around) reached session := by
  have inside := solid.cons held
  have isPlace : cursor.address ++ [slot] = Surroundings.address ((object, slot) :: around) := by
    rw [here, Surroundings.address]
  have found : session.tree.at? (cursor.address ++ [slot]) = some child := by
    rw [filled, isPlace, Surroundings.at?_fill inside]
  obtain ⟨scope, opened, inScope⟩ := WalkM.exists_scopeOf fine cursor.scope session
  obtain ⟨moved, entered, new, acts, stays, unskipped, filledNow, newNode, brings⟩ :=
    @enters ⟨_, scope, cursor.scope, false⟩ opened isPlace (by simp) (WalkM.scopeOf_eq_ok inScope)
  exact brings_entering found isNode inScope acts unskipped
    (Surroundings.nodeIn_of_fill inside (stays.trans isPlace) filledNow) newNode brings

/-! ## The slots of a node -/

/-- The child slots of a node one by one: what holds with some of them left holds in
the end with none. -/
theorem brings_slots (reached : List Slot → Value → Session σ → Prop) (solid : around.Solid) (here :
    cursor.address = around.address) (idle : ∀ ⦃slot rest now session⦄, (∀ child, now.slot? slot =
    some child → child.isNode = false) → reached (slot :: rest) now session → reached rest now
    session) (each : ∀ ⦃slot rest now child session⦄, now.slot? slot = some child → child.isNode →
    session.tree = around.fill now → reached (slot :: rest) now session → Brings visitor [.entering
    cursor slot] around (reached rest) session) {slots : List Slot} (filled : session.tree =
    around.fill node) (starts : reached slots node session) : Brings visitor (slots.map (.entering
    cursor)) around (reached []) session := by
  induction slots generalizing node session with
  | nil => exact brings_nil filled starts
  | cons slot rest ih =>
    have passes (absent : ∀ child, node.slot? slot = some child → child.isNode = false) :
        Brings visitor [.entering cursor slot] around (reached rest) session := by
      refine brings_of_step (step_entering_of_absent fun inner found => absent inner ?_)
        (brings_nil filled (idle absent starts))
      rwa [filled, here, Surroundings.at?_fill_slot solid] at found
    have first : Brings visitor [.entering cursor slot] around (reached rest) session := by
      cases held : node.slot? slot with
      | none => exact passes (by simp [held])
      | some child =>
        cases isNode : child.isNode with
        | false => exact passes (by simp [held, isNode])
        | true => exact each held isNode filled starts
    exact first.append fun _ _ => ih

/-- The children of a node one by one: what holds of the entries that are done holds of
all entries at the end. -/
theorem brings_entries (reached : List (Slot × Value) → Value → Session σ → Prop)
    (solid : around.Solid) (here : cursor.address = around.address)
    (distinct : (Members.names node.fields).Nodup)
    (each : ∀ ⦃done slot child now session⦄, (slot, child) ∈ node.childEntries →
      now.slot? slot = some child → session.tree = Surroundings.fill ((now, slot) :: around) child →
        reached done now session →
          Brings visitor [.entering cursor slot] ((now, slot) :: around)
            (fun new => reached (done ++ [(slot, child)]) (now.putSlot slot new)) session)
    (filled : session.tree = around.fill node) (starts : reached [] node session) :
    Brings visitor (node.childSlots.map (.entering cursor)) around (reached node.childEntries)
      session := by
  -- what is in the slots that are left is as it was
  refine Brings.imp (brings_slots (fun slots now session =>
      slots.Pairwise Slot.Apart ∧
        (∀ slot ∈ slots, slot ∈ node.childSlots ∧ now.slot? slot = node.slot? slot) ∧
          ∃ done, done ++ slots.filterMap node.childAt? = node.childEntries ∧ reached done now session)
    solid here ?_ ?_ filled
    ⟨childSlots_pairwise distinct, fun _ member => ⟨member, rfl⟩, [], rfl, starts⟩) ?_
  · rintro slot rest now session absent ⟨apart, same, done, isAll, holds⟩
    rw [(same slot List.mem_cons_self).2] at absent
    rw [List.filterMap_cons_none (childAt?_of_absent absent)] at isAll
    exact ⟨(List.pairwise_cons.1 apart).2, fun other later => same other (List.mem_cons_of_mem _ later),
      done, isAll, holds⟩
  · rintro slot rest now child session held isNode filled ⟨apart, same, done, isAll, holds⟩
    obtain ⟨apartHere, apartRest⟩ := List.pairwise_cons.1 apart
    obtain ⟨isSlot, sameHere⟩ := same slot List.mem_cons_self
    have was := sameHere.symm.trans held
    rw [List.filterMap_cons_some (childAt?_of_isNode was isNode), List.append_cons] at isAll
    have isEntry := mem_childEntries.2 ⟨isSlot, was, isNode⟩
    have filledHere : session.tree = Surroundings.fill ((now, slot) :: around) child := by
      rw [Surroundings.fill, putSlot_self held, filled]
    refine Brings.outside ((each isEntry held filledHere holds).imp fun new after holds => ?_)
    refine ⟨apartRest, fun other later => ?_, _, isAll, holds⟩
    rw [slot?_putSlot_of_apart held (apartHere other later)]
    exact same other (List.mem_cons_of_mem _ later)
  · rintro new after ⟨_, _, done, isAll, holds⟩
    rw [List.filterMap_nil, List.append_nil] at isAll
    exact isAll ▸ holds

/-! ## Rewriting -/

variable {change : Value → Value}

/-- What has become of the node, labels aside, and where the state has come to. -/
def Becomes (become : Value) (state : σ) (new : Value) (after : Session σ) : Prop :=
  new.unlabelled = become ∧ after.state = state

/-- Wherever it stands, the node becomes what a change makes of it when it is walked, and
the state what is gained by that. -/
def Transforms (visitor : Visitor σ) (change : Value → Value) (gain : Value → σ → σ) (node : Value) :
    Prop :=
  ∀ ⦃around : Surroundings⦄ ⦃cursor : Cursor⦄ ⦃object slot session⦄, around.Solid →
    cursor.address = around.address → object.slot? slot = some node →
      session.tree = Surroundings.fill ((object, slot) :: around) node →
        Brings visitor [.entering cursor slot] ((object, slot) :: around)
          (Becomes (change node.unlabelled) (gain node.unlabelled session.state)) session

variable {gain : Value → σ → σ}

theorem brings_children (tame : Tame change) (solid : around.Solid)
    (here : cursor.address = around.address) (isNode : node.isNode)
    (distinct : (Members.names node.fields).Nodup)
    (each : ∀ child ∈ node.children, Transforms visitor change gain child)
    (filled : session.tree = around.fill node) :
    Brings visitor (node.childSlots.map (.entering cursor)) around
      (Becomes (node.unlabelled.mapChildren change)
        (node.unlabelled.children.foldl (fun state child => gain child state) session.state))
      session := by
  rw [← foldl_putSlot_eq_mapChildren tame (by rwa [isNode_unlabelled]) (by rwa [names_unlabelled]),
    ← map_snd_childEntries, childEntries_unlabelled, List.foldl_map, List.map_map, List.foldl_map]
  refine brings_entries (fun done => Becomes (done.foldl (fun sofar entry => sofar.putSlot entry.1
      (change entry.2.unlabelled)) node.unlabelled) (done.foldl (fun state entry => gain
      entry.2.unlabelled state) session.state)) solid here distinct ?_ filled ⟨rfl, rfl⟩
  rintro done slot child now session isEntry held filled ⟨become, gained⟩
  obtain ⟨isSlot, inSlot, isChild⟩ := mem_childEntries.1 isEntry
  refine (each child (mem_children_of_childSlot isSlot inSlot isChild) solid here held filled).imp ?_
  rintro new after ⟨becomeChild, gainedChild⟩
  rw [List.foldl_append, List.foldl_append, ← become, ← gained]
  exact ⟨by rw [putSlot_unlabelled, becomeChild]; rfl, gainedChild⟩

/-! ## Whole walks -/

variable {document : Document}

/-- The root is entered, and the walk ends as the frames of the root bring it about. -/
theorem exists_start_of_brings (reached : Value → Session σ → Prop) {state : σ} (fine :
    document.tree.Surveyable) (isNode : document.tree.isNode) (enters : ∀ ⦃root opened⦄,
    root.address = [] → (initialSession document state).Reindexed opened → ∃ entered,
    visitor.dispatch .entering root opened = .ok root entered ∧ entered.tree = document.tree ∧
    Brings visitor (framesOf root document.tree) [] reached entered) : ∃ bound after, (∀ limit,
    bound ≤ limit → start limit visitor document state = (.ok (), after)) ∧ reached after.tree after
    := by
  obtain ⟨root, opened, approaches, isRoot, _, reindexed⟩ :=
    exists_approach (show (initialSession document state).tree.Surveyable from fine)
  obtain ⟨entered, acts, same, brings⟩ := enters isRoot reindexed
  have opens := opening_of_dispatch approaches acts (by rw [same, fieldsFault?_of_isNode isNode])
  rw [same] at opens
  obtain ⟨bound, after, runs, holds⟩ := brings.exists_run
  refine ⟨bound, after, fun limit most => ?_, holds⟩
  rw [start_eq, opens]
  dsimp only
  rw [runs limit most]

/-- If each child of the root of a document becomes what a change makes of it, a walk
of enough visits changes the children of the root so. -/
theorem exists_start_of_children (tame : Tame change) (fine : document.tree.Surveyable)
    (isNode : document.tree.isNode) (distinct : (Members.names document.tree.fields).Nodup)
    (unhandled : ∀ phase kind, document.tree.kind? = some kind →
      visitor.handlersFor phase kind = [])
    (each : ∀ child ∈ document.tree.children, Transforms visitor change gain child) (state : σ) :
    ∃ bound after,
      (∀ limit, bound ≤ limit → start limit visitor document state = (.ok (), after)) ∧
      after.tree.unlabelled = document.tree.unlabelled.mapChildren change ∧
      after.state =
        document.tree.unlabelled.children.foldl (fun state child => gain child state) state := by
  refine exists_start_of_brings (Becomes _ _) fine isNode fun root opened isRoot reindexed => ?_
  have isTree : opened.tree = document.tree := reindexed.tree
  have isHere {session : Session σ} {new : Value} (filled : session.tree = Surroundings.fill [] new) :
      root.nodeIn session = new :=
    Surroundings.nodeIn_of_fill Surroundings.solid_nil isRoot filled
  refine ⟨opened, Visitor.dispatch_unhandled ?_, isTree, ?_⟩
  · rw [isHere isTree]
    exact unhandled .entering
  have isState : opened.state = state := reindexed.state
  rw [← isState]
  refine (brings_children tame Surroundings.solid_nil isRoot isNode distinct each isTree).append
    fun new after filled holds => brings_leaving_of_unhandled filled ?_ holds
  rw [isHere filled, ← kind?_unlabelled, holds.1, kind?_mapChildren, kind?_unlabelled]
  exact unhandled .leaving

end Walk

end Unravel
