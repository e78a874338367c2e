import Unravel.Pass.Renaming
import Unravel.Proofs.Walk.Effects

/-!
Contract: what the renaming pass does at one identifier.

The name of the identifier and the node around it decide (`target?`). A property that
is marked as shorthand loses its mark before the new identifier is put in place.
-/

namespace Unravel.Pass.Renaming

open Value Walk

/-- The property without its mark. -/
def spelledOut (parent : Value) : Value := parent.setAttr "shorthand" (.bool false)

/-- How a renamed identifier is counted. -/
def State.rename (state : State) : State :=
  { state with tally := state.tally.change, renamed := state.renamed + 1 }

variable {cursor : Cursor} {session : Session State}

theorem exists_parent (is : (cursor.parentIn session).isKind "Property") : cursor.address ≠ [] ∧
      session.tree.at? cursor.address.dropLast = some (cursor.parentIn session) := by
  unfold Cursor.parentIn at is ⊢
  split at is
  · cases is
  · rename_i below
    rw [if_neg below]
    cases found : session.tree.at? cursor.address.dropLast with
    | some parent => exact ⟨by simpa using below, rfl⟩
    | none =>
      rw [found] at is
      cases is

/-- What comes of entering an identifier. -/
inductive Renames (cursor : Cursor) (session : Session State) :
    EStateM.Result Fault (Session State) Cursor → Prop where
  | fails {fault : SortFault} (finds : (cursor.nodeIn session).nameFault? = some fault) :
      Renames cursor session (.error (.sort fault) session)
  | keeps (keeps : target? session.state.renames (cursor.nodeIn session) (cursor.parentIn session)
        (cursor.slot?.map Slot.field) = none) : Renames cursor session (.ok cursor session)
  | places {new : String} {outcome : EStateM.Result Fault (Session State) Cursor}
      (target : target? session.state.renames (cursor.nodeIn session) (cursor.parentIn session)
        (cursor.slot?.map Slot.field) = some new)
      (unmarked : ((cursor.parentIn session).isKind "Property" &&
        ((cursor.parentIn session).attr "shorthand").truthy) = false)
      (placing : Placing id (identifierNode new) State.rename cursor session outcome) :
      Renames cursor session outcome
  | spells {new : String} {parent : Value} {outcome : EStateM.Result Fault (Session State) Cursor}
      (target : target? session.state.renames (cursor.nodeIn session) parent
        (cursor.slot?.map Slot.field) = some new) (isParent : cursor.parentIn session = parent)
      (isProperty : parent.isKind "Property" = true) (marked : (parent.attr "shorthand").truthy = true)
      (found : session.tree.at? cursor.address.dropLast = some parent)
      (placing : Placing id (identifierNode new) State.rename cursor { session with
        tree := session.tree.putAt cursor.address.dropLast (spelledOut parent) } outcome) :
      Renames cursor session outcome

theorem renames_rename (cursor : Cursor) (session : Session State) :
    Renames cursor session (rename cursor session) := by
  unfold rename
  rw [Cursor.node_bind, WalkM.bind_apply, Cursor.parent_apply]
  dsimp only
  cases finds : (cursor.nodeIn session).nameFault? with
  | some fault => exact .fails finds
  | none =>
    rw [WalkM.check_none_bind, WalkM.getState_bind]
    cases target : target? session.state.renames (cursor.nodeIn session) (cursor.parentIn session)
        (cursor.slot?.map Slot.field) with
    | none => exact .keeps target
    | some new =>
      split
      · rename_i shorthand
        obtain ⟨isProperty, marked⟩ := Bool.and_eq_true_iff.1 shorthand
        exact .spells target rfl isProperty marked (exists_parent isProperty).2
          (placing_replacing rfl ⟨rfl, rfl, rfl, rfl⟩)
      · rename_i plain
        exact .places target (eq_false_of_ne_true plain)
          (placing_replacing rfl ⟨rfl, rfl, rfl, rfl⟩)

end Unravel.Pass.Renaming
