import Unravel.Proofs.Simplification.Safety

/-!
Contract: the pass that renames variables does not fail.

An identifier is exchanged for an identifier, which fits wherever one is asked
for. Before that its parent may stop being shorthand; the mark is a truth value,
so the identifier does not stand there and is still in its place.
-/

namespace Unravel.Pass.Renaming

open Walk Value

variable {cursor : Cursor} {session : Session State}

theorem safe_respelling {outcome : EStateM.Result Fault (Session State) Cursor} {new : String}
    (placing : Placing id (identifierNode new) State.rename cursor session outcome)
    (settled : Settled anyState session) (is : (cursor.nodeIn session).kind? = some "Identifier") :
    Safe anyState (fun moved => moved.address = cursor.address) outcome :=
  placing.safe settled (fun _ _ => trivial) (fun _ => rfl) (settled.below is (by decide))
    (Document.supplies_of_draws (builds_identifierNode new) (draws_identifierNode new) _) rfl
    (fits_of_kind? (isObject_of_kind? is) is.symm)

/-! ## Shorthand properties -/

variable {parent : Value}

theorem lawful_spelledOut (lawful : parent.Lawful) : (spelledOut parent).Lawful :=
  lawful.setPart (by decide) (lawful_of_leaf (.bool _))

theorem supplies_spelledOut {document : Document} (proper : document.Proper) {address : Address}
    (found : document.tree.at? address = some parent) (isObject : parent.isObject) :
    document.Supplies (spelledOut parent) document.next := by
  refine Document.supplies_of_has proper
    (lawful_spelledOut (proper.lawful.at? found)) fun object member => ?_
  rcases mem_objects_setAttr member with rfl | was | isNew
  · exact ⟨parent, mem_objects_of_at? found (mem_objects_self isObject), by simp, by simp⟩
  · exact Document.has_of_mem (mem_objects_of_at? found was)
  · cases isNew

variable {kind : String}

theorem slot?_spelledOut (held : parent.WellHeld) (isProperty : parent.isKind "Property") (marked :
    (parent.attr "shorthand").truthy) {slot : Slot} {node : Value} (found : parent.slot? slot = some
    node) (is : node.kind? = some kind) : (spelledOut parent).slot? slot = some node := by
  have isFlag := held.holds "Property" "shorthand" .flag (by decide) isProperty
  have elsewhere : "shorthand" ≠ slot.field := by
    intro same
    rw [same] at isFlag
    cases index : slot.index with
    | none =>
      rw [slot?_attr index found] at isFlag
      have noKind : node.kind? = none := by cases node <;> first | rfl | cases isFlag
      cases noKind.symm.trans is
    | some position =>
      obtain ⟨items, isList, _⟩ := slot?_item index found
      rw [isList] at isFlag
      cases isFlag
  have filled : parent.attr "shorthand" ≠ .null := by
    intro missing
    rw [missing] at marked
    cases marked
  have marks : parent.slot? ⟨"shorthand", none⟩ = some (parent.attr "shorthand") :=
    get?_of_attr rfl filled
  exact (slot?_putSlot_of_apart marks (.inl elsewhere) (.bool false)).trans found

/-- The identifier is in its place when the property above it is spelled out. -/
theorem kind?_nodeIn_spelledOut (found : session.tree.at? cursor.address.dropLast = some parent)
    (below : cursor.address ≠ []) (held : parent.WellHeld) (isProperty : parent.isKind "Property")
    (marked : (parent.attr "shorthand").truthy) (is : (cursor.nodeIn session).kind? = some kind) :
    (cursor.nodeIn { session with tree := session.tree.putAt cursor.address.dropLast (spelledOut
    parent) }).kind? = some kind := by
  have parts := List.dropLast_append_getLast below
  unfold Cursor.nodeIn at is ⊢
  rw [← parts, at?_append_of_at? found] at is
  rw [← parts, List.dropLast_concat, at?_putAt_append found]
  cases inSlot : parent.slot? (cursor.address.getLast below) with
  | none =>
    rw [Value.at?, inSlot] at is
    cases is
  | some node =>
    rw [Value.at?, inSlot] at is
    rw [Value.at?, slot?_spelledOut held isProperty marked inSlot is]
    exact is

theorem safe_rename (settled : Settled anyState session)
    (is : (cursor.nodeIn session).kind? = some "Identifier") :
    Safe anyState (fun moved => moved.address = cursor.address) (rename cursor session) := by
  have renames := renames_rename cursor session
  generalize rename cursor session = outcome at renames ⊢
  cases renames with
  | fails finds =>
    cases ((settled.lawful_nodeIn cursor).nameFault? (beq_iff_eq.2 is)).symm.trans finds
  | keeps => exact ⟨rfl, settled⟩
  | places _ _ placing => exact safe_respelling placing settled is
  | spells _ isParent isProperty marked found placing =>
    subst isParent
    have isKind := kind?_of_isKind isProperty
    have isObject := isObject_of_kind? isKind
    have proper := settled.proper.put (supplies_spelledOut settled.proper found isObject)
      (settled.proper.address_ne_nil found isKind (by decide)) fun old isOld => by
        cases found.symm.trans isOld
        exact fits_of_kind? isObject (by simp [spelledOut])
    exact safe_respelling placing ⟨proper, trivial⟩ (kind?_nodeIn_spelledOut found (exists_parent isProperty).1
      ((settled.proper.lawful.at? found).wellHeld isObject) isProperty marked is)

theorem safe_logSummary (settled : Settled anyState session) :
    Safe anyState (fun moved => moved.address = cursor.address) (logSummary cursor session) := by
  unfold logSummary
  rw [WalkM.getState_bind]
  split
  · exact safe_log _ _ _ settled fun _ _ settled => safe_pure settled rfl
  · exact safe_pure settled rfl

theorem harmless_visitor : Harmless anyState visitor :=
  acts_onEnter (fun _ _ settled is => safe_rename settled is) <|
    acts_onLeave (fun _ _ settled _ => safe_logSummary settled) acts_nil

end Unravel.Pass.Renaming
