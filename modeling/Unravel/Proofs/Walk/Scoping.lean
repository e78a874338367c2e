import Unravel.Proofs.Scope.Reaching
import Unravel.Proofs.Tree.Programs
import Unravel.Proofs.Walk.Reading

/-!
Contract: walks and the scope index agree on scopes.

A walk that only looks at a well-formed program gives each path the scope that building
the index had in force at its node, also where the walk is started below some node. No
such walk adds to the index, whatever comes of it.
-/

namespace Unravel

open Lexical Walk

variable {σ : Type}

/-! ## Actions that only look -/

/-- The cursor is where it was; it may have been marked to be skipped. -/
def Cursor.Rests (cursor moved : Cursor) : Prop :=
  moved = { cursor with skipped := moved.skipped }

/-- Actions that leave the tree as it is: such as change only the log and the state of the
pass, walks below the node with actions of this kind, and what is made of these one after
the other or by choice. -/
inductive Handler.Looks : Handler σ → Prop where
  | acts {handler : Handler σ} (leaves : ∀ cursor session, Ends (fun moved after => after.tree =
      session.tree ∧ after.index = session.index ∧ cursor.Rests moved) (fun _ after => after.tree =
      session.tree ∧ after.index = session.index) (handler cursor session)) : Looks handler
  | walks {limit : Nat} {visitor : Visitor σ}
      (each : ∀ phase kind, ∀ handler ∈ visitor.handlersFor phase kind, Looks handler) :
      Looks fun cursor => do
        below limit visitor cursor
        return cursor
  | andThen {first second : Handler σ} (firstLooks : Looks first) (secondLooks : Looks second) :
      Looks fun cursor => first cursor >>= second
  | choose {choice : Cursor → Session σ → Handler σ}
      (each : ∀ cursor session, Looks (choice cursor session)) :
      Looks fun cursor => do choice cursor (← get) cursor

def Visitor.Looks (visitor : Visitor σ) : Prop :=
  ∀ phase kind, ∀ handler ∈ visitor.handlersFor phase kind, Handler.Looks handler

theorem Visitor.looks_nil : Visitor.Looks ([] : Visitor σ) :=
  fun _ _ _ member => absurd member List.not_mem_nil

theorem Visitor.looks_onEnter {kind : String} {handler : Handler σ} {visitor : Visitor σ}
    (looks : Handler.Looks handler) (others : visitor.Looks) :
    Visitor.Looks (.onEnter kind handler :: visitor) := by
  intro phase named action member
  rcases mem_handlersFor_onEnter.1 member with ⟨_, _, rfl⟩ | later
  · exact looks
  · exact others phase named action later

/-! ## Paths -/

namespace Walk

/-- The path that a visit makes for the node it comes to. -/
def pathAt (session : Session σ) : Frame → Option Cursor
  | .leaving _ => none
  | .entering owner slot =>
    match session.tree.at? (owner.address ++ [slot]) with
    | none => none
    | some value =>
      if value.isNode then
        match WalkM.scopeOf value owner.scope session with
        | .ok scope _ => some ⟨owner.address ++ [slot], scope, owner.scope, false⟩
        | .error _ _ => none
      else none

/-- The paths that the first visits of a walk make. -/
def pathsWithin (visitor : Visitor σ) : Nat → List Frame → Session σ → List Cursor
  | 0, _, _ => []
  | _ + 1, [], _ => []
  | limit + 1, frame :: rest, session =>
    (pathAt session frame).toList ++
      match step visitor frame session with
      | .ok following after => pathsWithin visitor limit (following ++ rest) after
      | .error _ _ => []

/-- The paths that a walk below a cursor makes. -/
def pathsBelow (limit : Nat) (visitor : Visitor σ) (cursor : Cursor) (session : Session σ) :
    List Cursor :=
  pathsWithin visitor limit ((cursor.nodeIn session).childSlots.map (.entering cursor)) session

/-- The paths that a walk over a document makes, from that of the root on. -/
def pathsOf (limit : Nat) (visitor : Visitor σ) (document : Document) (state : σ) : List Cursor :=
  match approach (initialSession document state) with
  | .error _ _ => []
  | .ok root _ =>
    root ::
      match opening visitor (initialSession document state) with
      | .ok frames reached => pathsWithin visitor limit frames reached
      | .error _ _ => []

end Walk

/-! ## Scopes of paths -/

/-- A path has the one scope that building the index had in force at its node: that of
the nearest node at or above it that opens one, inside those of the nodes further out. -/
structure Situated (tree : Value) (path : Cursor) : Prop where
  leads : tree.Leads path.address
  reached : ScopeIndex.Reaches tree (tree.along path.address).reverse path.parentScope path.scope
  only : ∀ around inner, ScopeIndex.Reaches tree (tree.along path.address).reverse around inner →
    inner = path.scope
  nearest : ∃ number, path.scope = some number ∧
    (ScopeIndex.build tree).Stands (some number) (inForce (tree.along path.address).reverse)

/-- The session of a walk over a tree, with the index of the tree. -/
structure Indexed (tree : Value) (session : Session σ) : Prop where
  same : session.tree = tree
  indexed : session.index = .build tree

variable {tree node child : Value} {address : Address} {slot : Slot} {cursor moved owner : Cursor}
  {session after : Session σ} {visitor : Visitor σ}

theorem Value.along_of_childSlot (isSlot : slot ∈ tree.childSlots) (held : tree.slot? slot = some
    child) (isNode : child.isNode) (rest : Address) : tree.along (slot :: rest) = tree ::
    child.along rest := by
  have isChild : tree.child? slot = some child :=
    child?_eq_some.2 ⟨(mem_childSlots.1 isSlot).1, held, isNode⟩
  rw [along, isChild, Option.map_some, Option.getD_some]

theorem Value.exists_along (leads : tree.Leads address) : ∃ node around, tree.at? address = some
    node ∧ (tree.along address).reverse = node :: around := by
  induction address generalizing tree with
  | nil => exact ⟨tree, [], rfl, rfl⟩
  | cons slot rest ih =>
    obtain ⟨isSlot, inner, held, isNode, below⟩ := leads
    obtain ⟨node, around, found, isPath⟩ := ih below
    refine ⟨node, around ++ [tree], by rw [at?, held]; exact found, ?_⟩
    rw [along_of_childSlot isSlot held isNode, List.reverse_cons, isPath, List.cons_append]

theorem Value.along_append (leads : tree.Leads address) (found : tree.at? address = some node)
    (isSlot : slot ∈ node.childSlots) (held : node.slot? slot = some child)
    (isNode : child.isNode) : tree.along (address ++ [slot]) = tree.along address ++ [child] := by
  induction address generalizing tree with
  | nil =>
    cases found
    exact along_of_childSlot isSlot held isNode []
  | cons first rest ih =>
    obtain ⟨isFirst, inner, heldInner, innerNode, below⟩ := leads
    have further : inner.at? rest = some node := by simpa [at?, heldInner] using found
    rw [List.cons_append, along_of_childSlot isFirst heldInner innerNode,
      along_of_childSlot isFirst heldInner innerNode, ih below further, List.cons_append]

theorem createsScope_of_wellFormed (wellFormed : tree.WellFormed) : tree.createsScope :=
  (Bool.and_eq_true_iff.1 (opens_of_program wellFormed.program).1).1

theorem Situated.rests (situated : Situated tree cursor) (rests : cursor.Rests moved) :
    Situated tree moved := by
  rw [rests]
  exact ⟨situated.leads, situated.reached, situated.only, situated.nearest⟩

theorem ScopeIndex.Reaches.situated (wellFormed : tree.WellFormed) (leads : tree.Leads
    cursor.address) (reaches : ScopeIndex.Reaches tree (tree.along cursor.address).reverse
    cursor.parentScope cursor.scope) : Situated tree cursor := by
  obtain ⟨stands, isSome, _⟩ := reaches.sound wellFormed
  obtain ⟨number, isNumber⟩ := Option.isSome_iff_exists.1 isSome
  exact ⟨leads, reaches, fun _ _ also => reaches.unique wellFormed also, number, isNumber,
    isNumber ▸ stands⟩

theorem situated_root (wellFormed : tree.WellFormed) (skipped : Bool) :
    Situated tree ⟨[], (ScopeIndex.build tree).known? tree, none, skipped⟩ := by
  have reaches : ScopeIndex.Reaches tree [tree] none _ := .here _ _ _ _
  obtain ⟨_, _, known⟩ := reaches.sound wellFormed
  rw [known tree rfl, Option.or_none] at reaches
  exact ScopeIndex.Reaches.situated wellFormed trivial reaches

/-- A child has the scope that it is known to have, or else that of its parent. -/
theorem Situated.onward (wellFormed : tree.WellFormed) (situated : Situated tree owner) (found :
    tree.at? owner.address = some node) (isSlot : slot ∈ node.childSlots) (held : node.slot? slot =
    some child) (isNode : child.isNode) (skipped : Bool) : Situated tree ⟨owner.address ++ [slot],
    ((ScopeIndex.build tree).known? child).or owner.scope, owner.scope, skipped⟩ := by
  obtain ⟨_, around, same, isPath⟩ := Value.exists_along situated.leads
  cases found.symm.trans same
  obtain ⟨number, isNumber, _⟩ := situated.nearest
  have reached := situated.reached
  rw [isPath, isNumber] at reached
  obtain ⟨inside, reaches⟩ := Survey.Reaches.onward reached
    (Value.mem_children_of_childSlot isSlot held isNode)
  obtain ⟨_, _, known⟩ := ScopeIndex.Reaches.sound wellFormed reaches
  rw [known child rfl, ← isNumber] at reaches
  apply ScopeIndex.Reaches.situated wellFormed
  · rw [Value.leads_append found]
    exact ⟨situated.leads, isSlot, child, held, isNode, trivial⟩
  · rw [Value.along_append situated.leads found isSlot held isNode, List.reverse_concat, isPath]
    exact reaches

/-! ## What walks keep -/

namespace Walk

/-- The cursor is a path of a tree that is indexed. -/
def Poised (tree : Value) (cursor : Cursor) (session : Session σ) : Prop :=
  Situated tree cursor ∧ Indexed tree session

/-- At a path of a tree the action leaves the tree and its index as they are, and is at a
path still. -/
def Leaves (tree : Value) (handler : Handler σ) : Prop :=
  ∀ cursor session, Poised tree cursor session →
    Ends (Poised tree) (fun _ => Indexed tree) (handler cursor session)

section Run

variable (wellFormed : tree.WellFormed)
  (leaves : ∀ phase kind, ∀ handler ∈ visitor.handlersFor phase kind, Leaves tree handler)

theorem acts_of_leaves (leaves : ∀ phase kind, ∀ handler ∈ visitor.handlersFor phase kind,
    Leaves tree handler) :
    Acts visitor (Poised tree) (fun _ => Indexed tree) fun _ _ => Poised tree :=
  fun phase kind handler member cursor session poised _ =>
    leaves phase kind handler member cursor session poised

include wellFormed

/-- The path of a visit is rightly placed, and making it leaves the session alone. -/
theorem situated_of_onTree {value : Value} (poised : Poised tree owner session)
    (onTree : OnTree tree (.entering owner slot))
    (found : tree.at? (owner.address ++ [slot]) = some value) (isNode : value.isNode) :
    ∃ scope, WalkM.scopeOf value owner.scope session = .ok scope session ∧
      Situated tree ⟨owner.address ++ [slot], scope, owner.scope, false⟩ := by
  obtain ⟨situated, indexed⟩ := poised
  have member := (onTree.mem_nodes found isNode).2
  obtain ⟨_, node, foundNode, isSlot⟩ := onTree
  have held : node.slot? slot = some value := by
    rw [Value.at?_append_of_at? foundNode] at found
    simpa [Value.at?] using found
  have creates := createsScope_of_wellFormed wellFormed
  exact ⟨_, scopeOf_of_build creates member owner.scope indexed.indexed,
    situated.onward wellFormed foundNode isSlot held isNode false⟩

theorem governed_poised : Governed (Poised tree) (OnTree tree)
    (fun _ => (Indexed tree : Session σ → Prop)) fun _ _ => Poised tree where
  scopes _ _ _ _ poised onTree found isNode := by
    obtain ⟨scope, inScope, situated⟩ := situated_of_onTree wellFormed poised onTree
      (poised.2.same ▸ found) isNode
    rw [inScope]
    exact ⟨⟨situated, poised.2⟩, fun _ was => was⟩
  follows cursor session poised := by
    obtain ⟨node, _, found, _⟩ := Value.exists_along poised.1.leads
    have isNode : cursor.nodeIn session = node := by
      rw [Cursor.nodeIn, poised.2.same, found, Option.getD_some]
    rw [isNode]
    exact onTree_framesOf poised.1.leads found
  toArrivals := arrivals_of_ready fun _ _ _ _ poised was => ⟨was.1, poised.2⟩

theorem situated_of_pathAt {frame : Frame} {path : Cursor}
    (poised : Poised tree frame.cursor session) (onTree : OnTree tree frame)
    (is : pathAt session frame = some path) : Situated tree path := by
  cases frame with
  | leaving cursor => cases is
  | entering owner slot =>
    change Poised tree owner session at poised
    rcases Value.node_or_absent session.tree (owner.address ++ [slot]) with
      ⟨value, found, isNode⟩ | absent
    · obtain ⟨scope, inScope, situated⟩ := situated_of_onTree wellFormed poised onTree
        (poised.2.same ▸ found) isNode
      rw [pathAt, found] at is
      simp only [isNode, ↓reduceIte, inScope] at is
      cases is
      exact situated
    · rw [pathAt] at is
      cases found : session.tree.at? (owner.address ++ [slot]) with
      | none => simp [found] at is
      | some value => simp [found, absent value found] at is

include leaves

/-- A walk makes paths that are rightly placed. -/
theorem situated_of_pathsWithin (limit : Nat) {frames : List Frame}
    (awaits : Awaits (Poised tree) (OnTree tree) frames session) :
    ∀ path ∈ pathsWithin visitor limit frames session, Situated tree path := by
  induction limit generalizing frames session with
  | zero => exact List.forall_mem_nil _
  | succ limit ih =>
    cases frames with
    | nil => exact List.forall_mem_nil _
    | cons frame rest =>
      obtain ⟨poised, onTree⟩ := awaits frame List.mem_cons_self
      have keeps := keeps_opened (governed_poised wellFormed) (acts_of_leaves leaves)
      refine List.forall_mem_append.2 ⟨fun path member =>
        situated_of_pathAt wellFormed poised onTree (Option.mem_toList.1 member), ?_⟩
      cases visits : step visitor frame session with
      | error fault after => exact List.forall_mem_nil _
      | ok following after => exact ih (keeps ⟨⟨_, poised⟩, awaits⟩ visits).2

/-- Whatever comes of a walk below a path, it keeps the index and makes paths that are rightly
placed. -/
theorem below_of_situated (limit : Nat) (situated : Situated tree cursor) (indexed : Indexed tree
    session) : Ends (fun _ => Indexed tree) (fun _ => Indexed tree) (below limit visitor cursor
    session) ∧ ∀ path ∈ pathsBelow limit visitor cursor session, Situated tree path := by
  have governed := @governed_poised σ tree wellFormed
  have poised : Poised tree cursor session := ⟨situated, indexed⟩
  refine ⟨(ends_below governed (acts_of_leaves leaves) (fun _ _ poised => poised.2) limit cursor
    poised fun _ _ => indexed).imp fun _ _ kept => (kept cursor poised).2, ?_⟩
  exact situated_of_pathsWithin wellFormed leaves limit fun frame member =>
    governed.awaits poised frame (List.mem_append_left _ member)

end Run

theorem leaves_of_looks {handler : Handler σ} (wellFormed : tree.WellFormed)
    (looks : Handler.Looks handler) : Leaves tree handler := by
  induction looks with
  | @acts handler leaves =>
    rintro cursor session ⟨situated, indexed⟩
    have ends := leaves cursor session
    cases ran : handler cursor session with
    | ok moved after =>
      rw [ran] at ends
      obtain ⟨same, sameIndex, rests⟩ := ends
      exact ⟨situated.rests rests, same.trans indexed.same, sameIndex.trans indexed.indexed⟩
    | error fault after =>
      rw [ran] at ends
      exact ⟨ends.1.trans indexed.same, ends.2.trans indexed.indexed⟩
  | walks _ ih =>
    rintro cursor session ⟨situated, indexed⟩
    exact ends_bind (below_of_situated wellFormed ih _ situated indexed).1
      fun _ _ _ indexedThen => ⟨situated, indexedThen⟩
  | andThen _ _ leavesFirst leavesSecond =>
    exact fun cursor session poised => ends_bind (leavesFirst cursor session poised)
      fun moved after _ poised => leavesSecond moved after poised
  | choose _ ih => exact fun cursor session => ih cursor session cursor session

/-! ## Whole walks -/

variable {document : Document}

theorem approach_of_wellFormed (wellFormed : document.tree.WellFormed) (state : σ) : ∃ root reached,
    approach (initialSession document state) = .ok root reached ∧ Situated document.tree root ∧
    Indexed document.tree reached := by
  have inScope : WalkM.scopeOf document.tree none
      ((initialSession document state).surveyed document.tree none) = _ :=
    scopeOf_of_build (createsScope_of_wellFormed wellFormed) (Value.mem_nodes_self _) none rfl
  have isTree : (initialSession document state).tree = document.tree := rfl
  refine ⟨_, (initialSession document state).surveyed document.tree none, ?_,
    situated_root wellFormed false, rfl, rfl⟩
  rw [approach_apply, isTree, wellFormed.surveyFault?]
  rw [inScope, Option.or_none]

theorem opening_of_looks (wellFormed : document.tree.WellFormed) (leaves : ∀ phase kind, ∀ handler ∈
    visitor.handlersFor phase kind, Leaves document.tree handler) (state : σ) :
    Ends (Opened (Poised document.tree) (OnTree document.tree)) (fun _ => Indexed document.tree)
      (opening visitor (initialSession document state)) := by
  obtain ⟨root, reached, approached, poised⟩ := approach_of_wellFormed wellFormed state
  refine ends_opening (governed_poised wellFormed) (acts_of_leaves leaves) ?_
    fun _ _ _ _ _ poised _ _ => poised.2
  rw [approached]
  exact poised

/-- On a well-formed program, whatever actions that only look do and whatever comes of the
walk, each path has the scope that building the index had in force at its node, also in
walks below some path, and the index stays as it was built. -/
theorem paths_in_scope {document : Document} {visitor : Visitor σ}
    (wellFormed : document.tree.WellFormed) (looks : visitor.Looks) (limit : Nat) (state : σ) :
    (∀ path ∈ pathsOf limit visitor document state, Situated document.tree path) ∧
      Indexed document.tree (start limit visitor document state).2 ∧
      ∀ cursor session, Situated document.tree cursor → Indexed document.tree session →
        Ends (fun _ => Indexed document.tree) (fun _ => Indexed document.tree)
          (below limit visitor cursor session) ∧
        ∀ path ∈ pathsBelow limit visitor cursor session, Situated document.tree path := by
  have leaves (phase : Phase) (kind : String) (handler : Handler σ)
      (member : handler ∈ visitor.handlersFor phase kind) : Leaves document.tree handler :=
    leaves_of_looks wellFormed (looks phase kind handler member)
  obtain ⟨root, reached, approached, situated, _⟩ := approach_of_wellFormed wellFormed state
  have opens := opening_of_looks wellFormed leaves state
  have belowAny (cursor : Cursor) (session : Session σ) (situated : Situated document.tree cursor)
      (indexed : Indexed document.tree session) :=
    below_of_situated wellFormed leaves limit situated indexed
  have ends := ends_start (governed_poised wellFormed) (acts_of_leaves leaves)
    (fun _ _ poised => poised.2) limit opens
  refine ⟨?_, ends.elim (fun ⟨_, _, poised⟩ => poised.2) fun ⟨_, _, indexed⟩ => indexed, belowAny⟩
  rw [pathsOf, approached]
  refine List.forall_mem_cons.2 ⟨situated, ?_⟩
  cases opened : opening visitor (initialSession document state) with
  | error fault after => exact List.forall_mem_nil _
  | ok frames after =>
    rw [opened] at opens
    exact situated_of_pathsWithin wellFormed leaves limit opens.2

/-- A clause whose body shares its scope, with a function inside a node of a kind that is
in no table. -/
def guardedCall : Document :=
  ⟨.program [
    .node 1 "TryStatement" [("block", .block 2 []),
      ("handler", .node 3 "CatchClause" [("param", .identifier 4 "e"),
        ("body", .block 5 [
          .node 6 "Wrapper" [
            ("inner", .node 7 "ArrowFunctionExpression" [("params", .list [.identifier 8 "x"]),
              ("body", .identifier 9 "e")])]])])]], 10⟩

def countOne : Handler Nat := fun cursor => do
  WalkM.modifyState (· + 1)
  return cursor

/-- Counts identifiers, those inside a catch clause once more. -/
def counting : Visitor Nat :=
  [.onEnter "Identifier" countOne, .onEnter "CatchClause" fun cursor => do
    below 20 [.onEnter "Identifier" countOne] cursor
    return cursor]

theorem counting_looks : counting.Looks := by
  have one : Handler.Looks countOne := .acts fun _ _ => ⟨rfl, rfl, rfl⟩
  have inner : Visitor.Looks [.onEnter "Identifier" countOne] :=
    Visitor.looks_onEnter one Visitor.looks_nil
  exact Visitor.looks_onEnter one (Visitor.looks_onEnter (.walks inner) Visitor.looks_nil)

theorem paths_in_scope_guardedCall : guardedCall.tree.WellFormed ∧ counting.Looks ∧ (pathsOf 40
    counting guardedCall 0).map Cursor.scope = [some 0, some 0, some 1, some 2, some 2, some 2, some
    2, some 3, some 3, some 3] ∧ (start 40 counting guardedCall 0).2.state = 6 ∧ (∀ path ∈ pathsOf
    40 counting guardedCall 0, Situated guardedCall.tree path) ∧ Indexed guardedCall.tree (start 40
    counting guardedCall 0).2 := by
  have wellFormed : guardedCall.tree.WellFormed := by decide +kernel
  obtain ⟨paths, indexed, _⟩ := paths_in_scope wellFormed counting_looks 40 0
  refine ⟨wellFormed, counting_looks, ?_, ?_, paths, indexed⟩
  · with_unfolding_all rfl
  · with_unfolding_all rfl

end Walk

end Unravel
