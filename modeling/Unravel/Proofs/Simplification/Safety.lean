import Unravel.Proofs.Pass.Distinctness
import Unravel.Proofs.Simplification.Grammar
import Unravel.Proofs.Walk.Safety

/-!
Contract: the passes that simplify expressions and members do not fail.

What they exchange are constant expressions and members, which no attribute asks
for by kind, so any node fits in their place; and none of them is the root. A
member keeps its object, which stays a node. The only fault that looking at an
expression could meet is an operator that is a list.
-/

namespace Unravel

open Walk

/-- The state of a pass that keeps nothing of the tree. -/
def anyState {σ : Type} (_ : Document) (_ : σ) : Prop := True

namespace Pass

/-! ## Concatenations -/

namespace Concatenation

theorem safe_collapse {cursor : Cursor} {session : Session State} (settled : Settled anyState session)
    (is : (cursor.nodeIn session).kind? = some "BinaryExpression") :
    Safe anyState (fun moved => moved.address = cursor.address) (collapse cursor session) := by
  have placing := collapse_placing cursor session
  split at placing
  · rw [placing]
    exact ⟨rfl, settled⟩
  · exact placing.safe_of_unpinned settled (fun _ _ => trivial) (fun _ => rfl)
      (Value.builds_stringNode _) (Value.draws_stringNode _) is (by decide) (by decide)

theorem harmless_visitor : Harmless anyState visitor :=
  acts_onLeave (fun _ _ settled is => safe_collapse settled is) acts_nil

end Concatenation

/-! ## Arithmetic -/

namespace Folding

variable {cursor : Cursor} {session : Session State}

theorem foldingFault?_of_lawful {value : Value} (lawful : value.Lawful) :
    foldingFault? value = none := by
  unfold foldingFault?
  split
  · rfl
  · refine Value.evaluationFault?_of_operators fun node inside is => ?_
    have isObject := Value.isObject_of_kind? (Value.kind?_of_isKind is)
    have held := lawful node (Value.mem_objects_of_node inside (Value.mem_objects_self isObject))
    have isText := held.holds "BinaryExpression" "operator" .text (by decide) is
    exact Value.keyFault?_of_isText isText

theorem safe_of_folds {room : Option Nat} {outcome : EStateM.Result Fault (Session State) Cursor}
    (settled : Settled anyState session) (folds : Folds room cursor session outcome) :
    Safe anyState (fun moved => moved.address = cursor.address) outcome := by
  have lawful := settled.lawful_nodeIn cursor
  have unpinned : ∀ kind ∈ Value.constantKinds, kind ≠ "Program" ∧ kind ∉ pinnedKinds := by decide
  cases folds with
  | fails finds =>
    have lawfulThere : (subject (cursor.nodeIn session)).Lawful := by
      unfold subject
      split
      · exact lawful.attr "right"
      · exact lawful
    cases (foldingFault?_of_lawful lawfulThere).symm.trans finds
  | stops | keeps => exact ⟨rfl, settled⟩
  | places folds _ placing =>
    obtain ⟨kind, constant, is⟩ := Value.exists_kind?_of_evaluateWith (evaluate_of_folded? folds)
    exact placing.safe_of_unpinned settled (fun _ _ => trivial) (fun _ => rfl)
      (Value.builds_numberNode _) (Value.draws_numberNode _) is (unpinned kind constant).1
      (unpinned kind constant).2
  | @assigns number _ _ folds =>
    -- the number takes the place of a constant expression, on the right side
    obtain ⟨kind, constant, is⟩ := Value.exists_kind?_of_evaluateWith (evaluate_of_folded? folds)
    obtain ⟨inSlot, put⟩ := putAt_right folds ((Value.numberNode number).run session.next).1
    have builds := Value.builds_numberNode number
    have properThere := settled.proper.put
      (Document.supplies_of_draws builds (Value.draws_numberNode number) session.document)
      (List.append_ne_nil_of_right_ne_nil cursor.address (List.cons_ne_nil _ _)) fun old isOld => by
        cases inSlot.symm.trans isOld
        exact Value.fits_of_unpinned is (unpinned kind constant).2 (builds session.next).1
    rw [put]
    exact ⟨rfl, properThere, trivial⟩

theorem harmless_visitor : Harmless anyState (visitorWithin none) :=
  acts_visitor fun _ _ _ settled folds => safe_of_folds settled folds

end Folding

/-! ## Members -/

namespace Member

variable {cursor : Cursor} {session : Session State}

/-- A member by name is made of the object that was there and of two new nodes. -/
theorem supplies_byName {document : Document} {node : Value} (proper : document.Proper) (lawful :
    node.Lawful) (is : node.kind? = some "MemberExpression") (there : ∀ object ∈ node.objects,
    document.Has object) (key : String) : document.Supplies ((byName (node.attr "object") key).run
    document.next).1 (document.next + 2) := by
  have objectNode := lawful.holds "MemberExpression" "object" .node (by decide) (beq_iff_eq.2 is)
  have parts {object : Value} (member : object ∈ (Value.node (document.next + 1)
      "MemberExpression" [("computed", .bool false), ("object", node.attr "object"),
        ("property", .node document.next "Identifier" [("name", .text key)])]).objects) :
      document.Has object ∨ ∃ label, object.label? = some label ∧
        (document.next ≤ label ∧ label < document.next + 2) ∧ object.kind? =
          some (if label = document.next then "Identifier" else "MemberExpression") := by
    simp only [Value.objects, Value.objectsFields, List.nil_append, List.append_nil, List.mem_cons,
      List.mem_append, List.not_mem_nil, or_false] at member
    rcases member with rfl | inObject | rfl
    · exact .inr ⟨_, rfl, by omega, by simp [Value.kind?]⟩
    · exact .inl (there object (Value.mem_objects_of_attr inObject))
    · exact .inr ⟨_, rfl, by omega, by simp [Value.kind?]⟩
  refine ⟨by omega, ?_, ?_, ?_⟩
  · exact Value.lawful_memberNode objectNode (lawful.attr "object")
      (Value.builds_identifierNode key document.next).2 (document.next + 1)
  · intro object member
    rcases parts member with has | ⟨label, is, drawn, _⟩
    · exact .inl has
    · exact .inr ⟨label, is, drawn⟩
  · intro first isFirst second isSecond label firstLabel secondLabel drawn
    have kindOf {object : Value}
        (member : object ∈ ((byName (node.attr "object") key).run document.next).1.objects)
        (is : object.label? = some label) : object.kind? =
          some (if label = document.next then "Identifier" else "MemberExpression") := by
      rcases parts member with has | ⟨_, isOwn, _, kind⟩
      · exact absurd (proper.labelled.lt_of_has has is) (Nat.not_lt.2 drawn)
      · cases isOwn.symm.trans is
        exact kind
    exact (kindOf isFirst firstLabel).trans (kindOf isSecond secondLabel).symm

theorem safe_convert (settled : Settled anyState session)
    (is : (cursor.nodeIn session).kind? = some "MemberExpression") :
    Safe anyState (fun moved => moved.address = cursor.address) (convert cursor session) := by
  have converts := converts_convert cursor session
  generalize convert cursor session = outcome at converts ⊢
  cases converts with
  | keeps => exact ⟨rfl, settled.proper, trivial⟩
  | places placing =>
    exact placing.safe settled (fun _ _ => trivial) (fun _ => rfl) (settled.below is (by decide))
      (supplies_byName settled.proper (settled.lawful_nodeIn cursor) is
        (fun object member => Document.has_of_mem (mem_objects_nodeIn member)) _)
      rfl (Value.fits_of_kind? (Value.isObject_of_kind? is) is.symm)

theorem harmless_visitor : Harmless anyState visitor :=
  acts_onEnter (fun _ _ settled is => safe_convert settled is) acts_nil

end Member

end Pass

end Unravel
