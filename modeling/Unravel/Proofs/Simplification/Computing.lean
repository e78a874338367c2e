import Unravel.Proofs.Simplification.Edits
import Unravel.Proofs.Simplification.Grammar

/-!
Contract: what computing constant expressions makes of a document.

Entering a node puts the number in the place of a constant expression, and the walk
goes on into what has been put in place. For a grammatical program the walk gives what the
rewriting from the outside in gives, and counts what is there to count
(`Folding.exists_start`).
-/

namespace Unravel

open Value Walk

variable {kind : String} {value : Value} {depth : Nat}

namespace Pass.Folding

variable {session after : Session State} {cursor moved : Cursor} {around : Surroundings}
  {node : Value} {room : Option Nat}

/-- The node is grammatical, and evaluation runs out of room at most where there is nothing
to fold. -/
structure Ready (room : Option Nat) (node : Value) : Prop where
  grammatical : node.Grammatical
  roomy : ∀ inner ∈ node.nodes, Exhausts room inner → folded? inner = none

namespace Ready

variable (ready : Ready room node)

include ready

theorem child {child : Value} (member : child ∈ node.children) : Ready room child :=
  ⟨ready.grammatical.child member,
    fun inner inside => ready.roomy inner (mem_nodes_of_child member inside)⟩

theorem foldingFault?_subject : foldingFault? (subject node) = none := by
  rcases subject_cases node with inside | no
  · have grammatical : (subject node).Grammatical :=
      fun inner below => ready.grammatical inner (mem_nodes_trans inside below)
    rw [foldingFault?, grammatical.evaluationFault?, ite_self]
  · have noKind := kind?_of_not_isNode no
    rw [foldingFault?, evaluationFault?_of_kind (by simp [noKind]) (by simp [noKind]), ite_self]

theorem folded?_subject (exhausts : Exhausts room (subject node)) : folded? (subject node) = none := by
  rcases subject_cases node with inside | no
  · exact ready.roomy _ inside exhausts
  · exact folded?_of_not_isNode no

end Ready

/-! ### The whole walk -/

/-- The node spells a number. -/
def Spells (node : Value) (number : Double) : Prop := node.unlabelled = bare (numberNode number)

namespace Spells

variable {number : Double} (spells : Spells node number)

include spells

theorem isNode : node.isNode := by
  rw [← isNode_unlabelled, spells]
  exact isNode_numberNode number

theorem grammatical : node.Grammatical := by
  rw [← grammatical_unlabelled, spells]
  exact grammatical_numberNode number

theorem ready : Ready room node := by
  refine ⟨spells.grammatical, fun inner inside _ => ?_⟩
  rw [← folded?_unlabelled]
  refine @folded?_of_mem_numberNode number _ ?_
  rw [← spells, nodes_unlabelled]
  exact List.mem_map_of_mem inside

theorem length_nodes : node.nodes.length ≤ 2 := by
  have same : node.nodes.length = (bare (numberNode number)).nodes.length := by
    rw [← spells, nodes_unlabelled, List.length_map]
  rw [same]
  exact length_numberNode number

end Spells

theorem spells_numberNode (number : Double) (next : Nat) : Spells ((numberNode number).run next).1
    number := unlabelled_numberNode number next

theorem foldsRight_unlabelled (node : Value) : foldsRight node.unlabelled = foldsRight node := by
  rw [foldsRight, foldsRight, isKind_unlabelled, attr_unlabelled, folded?_unlabelled]

theorem own_unlabelled (node : Value) : own node.unlabelled = own node := by
  have same := folded?_unlabelled node
  cases folds : folded? node with
  | some number => rw [own_of_some folds, own_of_some (same.trans folds), isKind_unlabelled]
  | none => rw [own_of_none folds, own_of_none (same.trans folds), foldsRight_unlabelled]

variable {number : Double}

/-- The right side of an assignment that has been computed is rewritten as the right
side that was there. -/
theorem mapChildren_computed (is : node.kind? = some "AssignmentExpression") (folds : folded?
    (node.attr "right") = some number) : (node.setAttr "right" (bare (numberNode
    number))).mapChildren result = node.mapChildren result := by
  have isNumber := isNode_numberNode number
  have held : (node.mapChildren result).attr "right" = bare (numberNode number) := by
    rw [child_mapChildren_of_kind tame_result is rfl (by decide),
      mapSlot_of_isNode (isNode_of_folded? folds), result_of_some folds]
  have filled : bare (numberNode number) ≠ .null := by
    intro isNull
    rw [isNull] at isNumber
    cases isNumber
  rw [mapChildren_setAttr is rfl (by decide), mapSlot_of_isNode isNumber, result_numberNode,
    setAttr_attr held filled]

variable {right : Value}

theorem children_computed (is : node.kind? = some "AssignmentExpression") (isNode : right.isNode) :
    (node.setAttr "right" right).children = (node.attr "left").slotNodes ++ [right] := by
  have isObject := isObject_of_kind? is
  have isAfter : (node.setAttr "right" right).kind? = some "AssignmentExpression" := by
    rwa [kind?_setAttr]
  have left : (node.setAttr "right" right).attr "left" = node.attr "left" := by
    rw [attr_setAttr isObject, if_neg (by decide)]
  have new : (node.setAttr "right" right).attr "right" = right := by
    rw [attr_setAttr isObject, if_pos rfl]
  rw [children_of_kind isAfter rfl]
  simp only [List.flatMap_cons, List.flatMap_nil, List.append_nil, left, new,
    slotNodes_of_isNode isNode]

/-- The walk may go on in the new node: it becomes what the node should become, with
what is left to count, and is hardly larger. -/
structure Resumes (room : Option Nat) (node new : Value) : Prop where
  isNode : new.isNode
  named : (Members.names new.fields).Nodup
  ready : ∀ child ∈ new.children, Ready room child
  becomes : new.unlabelled.mapChildren result = result node.unlabelled
  counts : events node.unlabelled = own node ++ new.unlabelled.children.flatMap events
  short : new.nodes.length ≤ node.nodes.length + (own node).length

variable {new : Value}

theorem Spells.resumes (spells : Spells new number) (folds : folded? node = some number) :
    Resumes room node new := by
  have sameFolds := (folded?_unlabelled node).trans folds
  have keeps {inner : Value} (inside : inner ∈ (bare (numberNode number)).nodes) :=
    folded?_of_mem_numberNode inside
  refine ⟨spells.isNode, (spells.grammatical _ (mem_nodes_self _)).named,
    fun _ => spells.ready.child, ?_, ?_, ?_⟩
  · rw [spells, ← result_of_none (keeps (mem_nodes_self _)),
      result_numberNode, result_of_some sameFolds]
  · have nothing : (bare (numberNode number)).children.flatMap events = [] :=
      List.flatMap_eq_nil_iff.2 fun child isChild =>
        events_of_keeps fun inner inside => keeps (mem_nodes_of_child isChild inside)
    rw [events_eq, remaining_of_some sameFolds, own_unlabelled, spells, nothing, List.flatMap_nil]
  · have short := spells.length_nodes
    have positive := length_nodes_pos node
    have once : (own node).length = 1 := by
      rw [own_of_some folds]
      split <;> rfl
    omega

/-- The right side of an assignment is walked as the number it has become. -/
theorem Spells.resumes_right (spells : Spells right number)
    (is : node.kind? = some "AssignmentExpression") (ready : Ready room node)
    (folds : folded? (node.attr "right") = some number) :
    Resumes room node (node.setAttr "right" right) := by
  have keeps : folded? node = none := folded?_of_other (by rw [is]; decide)
  have computes : foldsRight node := by
    rw [foldsRight, folds, show node.isKind "AssignmentExpression" from beq_iff_eq.2 is]
    rfl
  have children := children_computed is spells.isNode
  have isBare := (kind?_unlabelled node).trans is
  have keepsBare := (folded?_unlabelled node).trans keeps
  have foldsBare : folded? (node.unlabelled.attr "right") = some number := by
    rw [attr_unlabelled, folded?_unlabelled, folds]
  have isUnlabelled : (node.setAttr "right" right).unlabelled =
      node.unlabelled.setAttr "right" (bare (numberNode number)) := by
    rw [setAttr_unlabelled, spells]
  refine ⟨isNode_of_kind? ((kind?_setAttr _ _ _).trans is), ?_, ?_, ?_, ?_, ?_⟩
  · rw [fields_setAttr (isObject_of_kind? is)]
    exact Members.nodup_names_put (ready.grammatical node (mem_nodes_self node)).named _ _
  · rw [children]
    intro child isChild
    rcases List.mem_append.1 isChild with inLeft | isRight
    · refine ready.child ?_
      rw [children_of_kind is rfl]
      exact List.mem_append_left _ inLeft
    · rw [List.mem_singleton.1 isRight]
      exact spells.ready
  · rw [isUnlabelled, mapChildren_computed isBare foldsBare, result_of_none keepsBare]
  · have nothing : events (bare (numberNode number)) = [] :=
      events_of_keeps fun _ => folded?_of_mem_numberNode
    rw [events_eq, own_unlabelled, remaining_of_none keepsBare, foldsRight_unlabelled,
      if_pos computes, isUnlabelled, children_computed isBare (isNode_numberNode number),
      List.flatMap_append, List.flatMap_singleton, nothing, List.append_nil]
  · have short := spells.length_nodes
    have positive := length_nodes_pos (node.attr "right")
    rw [nodes_eq, children, nodes_eq node, children_of_kind is rfl, own_of_none keeps,
      if_pos computes]
    simp only [List.flatMap_cons, List.flatMap_nil, List.append_nil, List.flatMap_append,
      slotNodes_of_isNode (isNode_of_folded? folds), List.length_cons, List.length_append,
      List.length_nil]
    omega

/-- A node that is entered is replaced by one in which the walk may go on. -/
theorem exists_dispatch (solid : around.Solid) (here : cursor.address = around.address)
    (below : cursor.address ≠ []) (isNode : node.isNode) (ready : Ready room node)
    (filled : session.tree = around.fill node) :
    ∃ moved after new, (visitorWithin room).dispatch .entering cursor session = .ok moved after ∧
      moved.address = cursor.address ∧ moved.skipped = cursor.skipped ∧
      after.tree = around.fill new ∧ Resumes room node new ∧
      after.state = (own node).foldl State.count session.state := by
  have folds : Folds room cursor session _ := dispatch_folds cursor session
  have isHere := Surroundings.nodeIn_of_fill solid here filled
  have put (new : Value) : session.tree.putAt cursor.address new = around.fill new := by
    rw [filled, here, Surroundings.putAt_fill solid]
  have rests (keeps : folded? node = none) (noRight : foldsRight node = false) :
      Resumes room node node ∧ own node = [] := by
    have sameFolds := (folded?_unlabelled node).trans keeps
    refine ⟨⟨isNode, (ready.grammatical node (mem_nodes_self node)).named, fun _ => ready.child,
      (result_of_none sameFolds).symm, ?_, Nat.le_add_right _ _⟩, ?_⟩
    · rw [events_eq, own_unlabelled, remaining_of_none sameFolds, foldsRight_unlabelled, noRight]
      rfl
    · rw [own_of_none keeps, noRight, if_neg Bool.false_ne_true]
  generalize (visitorWithin room).dispatch .entering cursor session = outcome at folds ⊢
  cases folds with
  | fails finds =>
    rw [isHere, ready.foldingFault?_subject] at finds
    cases finds
  | stops exhausts =>
    rw [isHere] at exhausts
    obtain ⟨keeps, noRight⟩ := foldsRight_of_subject (ready.folded?_subject exhausts)
    obtain ⟨resumes, nothing⟩ := rests keeps noRight
    exact ⟨cursor, session, node, rfl, rfl, rfl, filled, resumes, by rw [nothing]; rfl⟩
  | keeps keeps noRight =>
    rw [isHere] at keeps noRight
    obtain ⟨resumes, nothing⟩ := rests keeps noRight
    exact ⟨cursor, session, node, rfl, rfl, rfl, filled, resumes, by rw [nothing]; rfl⟩
  | @places number event _ folds counts placing =>
    rw [isHere] at folds counts
    obtain ⟨moved, after, rfl, puts⟩ :=
      placing.exists_puts (createsScope_numberNode number session.next) below
    exact ⟨moved, after, _, rfl, puts.address, puts.skipped, puts.tree.trans (put _),
      (spells_numberNode number session.next).resumes folds, by rw [counts, puts.state]; rfl⟩
  | @assigns number log is folds =>
    rw [isHere] at is folds ⊢
    have counts : own node = [.folded] := by
      rw [own_of_none (folded?_of_other (by rw [is]; decide)), foldsRight, isKind, is, folds]
      rfl
    exact ⟨cursor, _, _, rfl, rfl, rfl, put _, (spells_numberNode number session.next).resumes_right
      is ready folds, by rw [counts]; rfl⟩

/-- What a walk of a node takes: more for an edit than the edit can add. -/
def effort (node : Value) : Nat :=
  node.nodes.length + 2 * (events node.unlabelled).length

theorem Resumes.effort_lt {child : Value} (resumes : Resumes room node new) (isChild : child ∈
    new.children) : effort child < effort node := by
  have smaller := length_nodes_lt isChild
  have short := resumes.short
  have fewer : (events child.unlabelled).length ≤
      (new.unlabelled.children.flatMap events).length := by
    have member : child.unlabelled ∈ new.unlabelled.children := by
      rw [children_unlabelled]
      exact List.mem_map_of_mem isChild
    obtain ⟨before, later, are⟩ := List.append_of_mem member
    rw [are, List.flatMap_append, List.flatMap_cons, List.length_append, List.length_append]
    omega
  have all := congrArg List.length resumes.counts
  rw [List.length_append] at all
  unfold effort
  omega

theorem transforms_node {node : Value} (isNode : node.isNode) (ready : Ready room node) :
    Transforms (visitorWithin room) result (fun node state => (events node).foldl State.count state) node := by
  intro around cursor object slot session solid here held filled
  have inside := solid.cons held
  refine brings_child solid here held isNode ready.grammatical.surveyable filled
    fun place opened isPlace below reindexed => ?_
  obtain ⟨moved, entered, new, acts, stays, unskipped, filledNow, resumes, counted⟩ :=
    exists_dispatch inside isPlace below isNode ready (reindexed.tree.trans filled)
  refine ⟨moved, entered, new, acts, stays, unskipped, filledNow, resumes.isNode, ?_⟩
  have isHere := stays.trans isPlace
  dsimp only
  rw [← resumes.becomes, resumes.counts, List.foldl_append, ← reindexed.state, ← counted,
    List.foldl_flatMap]
  exact (brings_children tame_result inside isHere resumes.isNode resumes.named
    (fun child isChild => transforms_node (isNode_of_mem_children isChild)
      (resumes.ready child isChild)) filledNow).append fun new after filled holds =>
        brings_leaving_of_unhandled filled (fun _ _ => handlersFor_other (.inl rfl)) holds
termination_by effort node
decreasing_by exact resumes.effort_lt isChild

theorem exists_start {document : Document} (program : document.tree.isKind "Program")
    (ready : Ready room document.tree) (state : State) : ∃ bound after,
      (∀ limit, bound ≤ limit →
        Walk.start limit (visitorWithin room) document state = (.ok (), after)) ∧
        after.tree.unlabelled = result document.tree.unlabelled ∧
        after.state = (events document.tree.unlabelled).foldl State.count state := by
  have is := kind?_of_isKind program
  have isNode := isNode_of_kind? is
  have keeps : folded? document.tree.unlabelled = none :=
    folded?_of_other (by rw [kind?_unlabelled, is]; decide)
  rw [result_of_none keeps, events_of_none keeps (by rw [kind?_unlabelled, is]; decide),
    List.foldl_flatMap]
  refine exists_start_of_children tame_result ready.grammatical.surveyable isNode
    (ready.grammatical _ (mem_nodes_self _)).named (fun phase kind isKind => ?_) (fun child isChild =>
      transforms_node (isNode_of_mem_children isChild) (ready.child isChild)) state
  cases is.symm.trans isKind
  exact handlersFor_other (.inr (by decide))

end Pass.Folding

end Unravel
