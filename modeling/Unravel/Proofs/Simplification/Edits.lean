import Unravel.Pass.Member
import Unravel.Proofs.Simplification.Counts

/-!
Contract: what the simplifiers do at one node.

Each case of what an action can do is named once: a constant expression, or the right
side of an assignment, becomes its number (`Folding.Folds`), unless evaluating it runs out
of the room that there is, and a member with a string
for its key is read by name (`Member.Converts`).
-/

namespace Unravel.Pass

open Value Walk

/-! ## Constant expressions -/

namespace Folding

variable {kind : String} {session : Session State} {cursor : Cursor} {node : Value}
  {room : Option Nat}

theorem createsScope_numberNode (number : Double) (next : Nat) :
    ((numberNode number).run next).1.createsScope = false := by
  cases number with
  | nan => rfl
  | infinite negative => cases negative <;> rfl
  | finite negative code => cases negative <;> rfl

theorem folded?_of_literal (is : node.kind? = some "Literal") :
    folded? node = if node.isNonDecimal then node.double? else none := by
  have noMinus : node.negated? = none := negated?_of_other (by simp [is])
  have noName (name : String) : node.isNamed name = false := by
    rw [isNamed_eq, isKind_eq_false is (by decide)]
    rfl
  rw [folded?, isPlainNumber_eq, noMinus, Option.getD_none, isPlainOperand, noName, noName,
    evaluate_of_literal is, double?]
  cases node.isNonDecimal with
  | true => simp
  | false => cases node.numeral? <;> simp

/-- There is a limit, and evaluation runs out of room. -/
def Exhausts (room : Option Nat) (value : Value) : Prop :=
  ∃ limit ∈ room, value.overflows limit = true

/-- What comes of entering a node. -/
inductive Folds (room : Option Nat) (cursor : Cursor) (session : Session State) :
    EStateM.Result Fault (Session State) Cursor → Prop where
  | fails {fault : SortFault} (finds : foldingFault? (subject (cursor.nodeIn session)) = some fault) :
      Folds room cursor session (.error (.sort fault) session)
  | stops (exhausts : Exhausts room (subject (cursor.nodeIn session))) :
      Folds room cursor session (.ok cursor session)
  | keeps (keeps : folded? (cursor.nodeIn session) = none)
      (noRight : foldsRight (cursor.nodeIn session) = false) :
      Folds room cursor session (.ok cursor session)
  | places {number : Double} {event : Event} {outcome : EStateM.Result Fault (Session State) Cursor}
      (folds : folded? (cursor.nodeIn session) = some number)
      (counts : own (cursor.nodeIn session) = [event])
      (placing : Placing id (numberNode number) (·.count event) cursor session outcome) :
      Folds room cursor session outcome
  | assigns {number : Double} {log : List Remark}
      (is : (cursor.nodeIn session).kind? = some "AssignmentExpression")
      (folds : folded? ((cursor.nodeIn session).attr "right") = some number) :
      Folds room cursor session (.ok cursor { session with
        tree := session.tree.putAt cursor.address ((cursor.nodeIn session).setAttr "right"
          ((numberNode number).run session.next).1)
        next := ((numberNode number).run session.next).2
        log := log
        state := session.state.count .folded })

theorem folds_of_none (is : (cursor.nodeIn session).kind? = some kind)
    (other : kind ≠ "AssignmentExpression") (keeps : folded? (cursor.nodeIn session) = none) :
    Folds room cursor session (.ok cursor session) :=
  .keeps keeps (by rw [foldsRight, isKind_eq_false is other]; rfl)

theorem folds_normalizeLiteral (is : (cursor.nodeIn session).kind? = some "Literal") :
    Folds room cursor session (normalizeLiteral cursor session) := by
  have folds := folded?_of_literal is
  unfold normalizeLiteral
  rw [Cursor.node_bind]
  cases double : (cursor.nodeIn session).double? with
  | none => exact folds_of_none is (by decide) (by rw [folds, double, ite_self])
  | some number =>
    split
    · rename_i other
      rw [if_pos other, double] at folds
      have counts : own (cursor.nodeIn session) = [.normalized] := by
        rw [own_of_some folds, isKind, is]
        rfl
      exact .places folds counts (placing_replacing rfl ⟨rfl, rfl, rfl, rfl⟩)
    · rename_i decimal
      exact folds_of_none is (by decide) (by rw [folds, if_neg decimal])

theorem folds_foldExpression (is : (cursor.nodeIn session).kind? = some kind)
    (noLiteral : kind ≠ "Literal") (noAssignment : kind ≠ "AssignmentExpression") :
    Folds room cursor session (foldExpression cursor session) := by
  unfold foldExpression
  rw [Cursor.node_bind]
  cases finds : foldingFault? (cursor.nodeIn session) with
  | some fault => exact .fails (by rwa [subject_of_other is noAssignment])
  | none =>
    cases folds : folded? (cursor.nodeIn session) with
    | none => exact folds_of_none is noAssignment folds
    | some number =>
      have counts : own (cursor.nodeIn session) = [.folded] := by
        rw [own_of_some folds, isKind_eq_false is noLiteral]
        rfl
      exact .places folds counts (placing_replacing rfl ⟨rfl, rfl, rfl, rfl⟩)

theorem folds_foldUnary (is : (cursor.nodeIn session).kind? = some "UnaryExpression") :
    Folds room cursor session (foldUnary cursor session) := by
  unfold foldUnary
  rw [Cursor.node_bind]
  split
  · exact folds_foldExpression is (by decide) (by decide)
  · rename_i other
    refine folds_of_none is (by decide) ?_
    rw [folded?, evaluate_of_unary is, if_neg other, ite_self]

theorem folds_foldAssignment (is : (cursor.nodeIn session).kind? = some "AssignmentExpression") :
    Folds room cursor session (foldAssignment cursor session) := by
  unfold foldAssignment
  rw [Cursor.node_bind]
  cases finds : foldingFault? ((cursor.nodeIn session).attr "right") with
  | some fault => exact .fails (by rwa [subject_of_assignment is])
  | none =>
    cases folds : folded? ((cursor.nodeIn session).attr "right") with
    | none =>
      exact .keeps (folded?_of_other (by rw [is]; decide))
        (by rw [foldsRight, folds]; exact Bool.and_false _)
    | some number => exact .assigns is folds

theorem folds_within {reads : Value → Value} {handler : Handler State}
    (same : subject (cursor.nodeIn session) = reads (cursor.nodeIn session))
    (folds : Folds room cursor session (handler cursor session)) :
    Folds room cursor session (within room reads handler cursor session) := by
  cases room with
  | none => exact folds
  | some limit =>
    unfold within
    dsimp only
    rw [Cursor.node_bind]
    split
    · rename_i overflows
      exact .stops ⟨limit, rfl, by rwa [same]⟩
    · exact folds

theorem folds_binary (is : (cursor.nodeIn session).kind? = some "BinaryExpression") :
    Folds room cursor session (within room id foldExpression cursor session) :=
  folds_within (subject_of_other is (by decide)) (folds_foldExpression is (by decide) (by decide))

theorem folds_unary (is : (cursor.nodeIn session).kind? = some "UnaryExpression") :
    Folds room cursor session (within room id foldUnary cursor session) :=
  folds_within (subject_of_other is (by decide)) (folds_foldUnary is)

theorem folds_assignment (is : (cursor.nodeIn session).kind? = some "AssignmentExpression") :
    Folds room cursor session (within room (·.attr "right") foldAssignment cursor session) :=
  folds_within (subject_of_assignment is) (folds_foldAssignment is)

theorem handlersFor_other {phase : Phase} (other : phase = .leaving ∨
      kind ∉ "AssignmentExpression" :: constantKinds) :
    (visitorWithin room).handlersFor phase kind = [] := by
  rcases other with rfl | unlisted
  · rfl
  · simp only [constantKinds, List.mem_cons, List.not_mem_nil, or_false, not_or, ← ne_eq]
      at unlisted
    obtain ⟨noAssignment, noLiteral, noUnary, noBinary⟩ := unlisted
    cases phase with
    | leaving => rfl
    | entering =>
      simp [visitorWithin, Visitor.handlersFor, Rule.handlersFor, Rule.handler?, Rule.onEnter,
        noLiteral.symm, noBinary.symm, noUnary.symm, noAssignment.symm]

theorem acts_visitor {ready : Cursor → Session State → Prop} {admitted : Fault → Session State → Prop}
    {arrived : Cursor → Session State → Cursor → Session State → Prop}
    (each : ∀ cursor session outcome, ready cursor session → Folds room cursor session outcome →
      Ends (arrived cursor session) admitted outcome) :
    Acts (visitorWithin room) ready admitted arrived :=
  acts_onEnter (fun _ _ holds is => each _ _ _ holds (folds_normalizeLiteral is)) <|
    acts_onEnter (fun _ _ holds is => each _ _ _ holds (folds_binary is)) <|
    acts_onEnter (fun _ _ holds is => each _ _ _ holds (folds_unary is)) <|
    acts_onEnter (fun _ _ holds is => each _ _ _ holds (folds_assignment is)) acts_nil

theorem dispatch_folds (cursor : Cursor) (session : Session State) :
    Folds room cursor session ((visitorWithin room).dispatch .entering cursor session) := by
  by_cases handled : ∃ kind ∈ "AssignmentExpression" :: constantKinds,
      (cursor.nodeIn session).kind? = some kind
  · obtain ⟨kind, listed, is⟩ := handled
    rw [Visitor.dispatch_apply is]
    simp only [constantKinds, List.mem_cons, List.not_mem_nil, or_false] at listed
    rcases listed with rfl | rfl | rfl | rfl
    · exact Visitor.runHandlers_singleton .. ▸ folds_assignment is
    · exact Visitor.runHandlers_singleton .. ▸ folds_normalizeLiteral is
    · exact Visitor.runHandlers_singleton .. ▸ folds_unary is
    · exact Visitor.runHandlers_singleton .. ▸ folds_binary is
  · rw [Visitor.dispatch_unhandled fun kind is => handlersFor_other (.inr fun listed =>
      handled ⟨kind, listed, is⟩)]
    refine .keeps (folded?_of_other fun kind listed is =>
      handled ⟨kind, List.mem_cons_of_mem _ listed, is⟩) ?_
    have no : (cursor.nodeIn session).kind? ≠ some "AssignmentExpression" :=
      fun is => handled ⟨_, List.mem_cons_self, is⟩
    simp [foldsRight, isKind, no]

/-- What takes the place of the right side of an assignment is written there alone. -/
theorem putAt_right {number : Double}
    (folds : folded? ((cursor.nodeIn session).attr "right") = some number) (new : Value) :
    session.tree.at? (cursor.address ++ [⟨"right", none⟩]) =
        some ((cursor.nodeIn session).attr "right") ∧
      session.tree.putAt cursor.address ((cursor.nodeIn session).setAttr "right" new) =
        session.tree.putAt (cursor.address ++ [⟨"right", none⟩]) new := by
  have isNode := isNode_of_folded? folds
  have inSlot := slot?_attr_of_isNode isNode
  cases found : session.tree.at? cursor.address with
  | none =>
    rw [Cursor.nodeIn, found] at isNode
    cases isNode
  | some node =>
    have is : cursor.nodeIn session = node := by rw [Cursor.nodeIn, found]; rfl
    rw [is] at inSlot ⊢
    rw [at?_append_of_at? found, putAt_append found, at?, putAt, inSlot]
    exact ⟨rfl, rfl⟩

end Folding

/-! ## Members -/

namespace Member

variable {session : Session State} {cursor : Cursor}

/-- A member read by name. -/
def byName (object : Value) (key : String) : Fresh Value := do
  memberNode object (← identifierNode key)

/-- What comes of entering a member. -/
inductive Converts (cursor : Cursor) (session : Session State) :
    EStateM.Result Fault (Session State) Cursor → Prop where
  | keeps {state : State} (changes : state.tally.changes = session.state.tally.changes)
      (converted : state.converted = session.state.converted)
      (refused : ∀ key, stringKey? (cursor.nodeIn session) = some key → ¬ Text.isIdentifier key) :
      Converts cursor session (.ok cursor { session with state := state })
  | places {key : String} {outcome : EStateM.Result Fault (Session State) Cursor}
      (placing : Placing id (byName ((cursor.nodeIn session).attr "object") key)
        (fun state => ⟨state.tally.change, state.converted + 1⟩) cursor session outcome)
      (isKey : stringKey? (cursor.nodeIn session) = some key) (passes : Text.isIdentifier key) :
      Converts cursor session outcome

theorem converts_convert (cursor : Cursor) (session : Session State) :
    Converts cursor session (convert cursor session) := by
  unfold convert
  rw [Cursor.node_bind]
  cases isKey : stringKey? (cursor.nodeIn session) with
  | none => exact .keeps rfl rfl (by simp [isKey])
  | some key =>
    dsimp only
    split
    · rename_i passes
      exact .places (placing_replacing rfl ⟨rfl, rfl, rfl, rfl⟩) isKey passes
    · rename_i refused
      refine .keeps rfl rfl fun other same => ?_
      cases isKey.symm.trans same
      exact refused

end Member

end Unravel.Pass
