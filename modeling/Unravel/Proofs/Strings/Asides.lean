import Unravel.Pass.Strings.Recovery
import Unravel.Proofs.Walk.Outcomes

/-!
Contract: what the recovery of strings does on the side.

The collection of tables and the log change nothing that a view of the session shows
which looks at neither (`Aside`).
-/

namespace Unravel.Pass.Strings

open Walk

variable {γ : Type} {view : Session State → γ}

/-- The view shows neither the scope index and the log nor the tables. -/
structure Aside (view : Session State → γ) : Prop where
  blind : Blind view
  tables : ∀ session tables,
    view { session with state := { session.state with tables := tables } } = view session

theorem integerOf_ne_stepLimit (value : Json) : integerOf value ≠ .error .stepLimit := by
  unfold integerOf
  repeat' split
  all_goals exact fun cut => nomatch cut

theorem restore_ne_stepLimit (options : Options) (target : Name) (values : List String) :
    restore options target values ≠ .error .stepLimit := by
  unfold restore
  dsimp only
  split
  · cases counted : integerOf ((Members.get? options "array_rotation").getD (.ofInt rotation)) with
    | error fault =>
      intro cut
      cases cut
      exact integerOf_ne_stepLimit _ counted
    | ok count => exact fun cut => nomatch cut
  · exact fun cut => nomatch cut

theorem claimOf_ne_stepLimit (options : Options) (target : Name) (value : Value) :
    claimOf options target value ≠ .error .stepLimit := by
  unfold claimOf
  split
  · split
    · rename_i values _
      cases restored : restore options target values with
      | error fault =>
        intro cut
        cases cut
        exact restore_ne_stepLimit _ _ _ restored
      | ok strings => exact fun cut => nomatch cut
    · exact fun cut => nomatch cut
  · repeat' split
    all_goals exact fun cut => nomatch cut

variable {phase : Phase} {kind : String} {handler : Handler State}

theorem mem_handlersFor_collector (member : handler ∈ collector.handlersFor phase kind) : kind =
    "VariableDeclarator" ∧ handler = collectDeclarator ∨ kind = "FunctionDeclaration" ∧ handler =
    collectFunction ∨ kind = "AssignmentExpression" ∧ handler = collectAssignment := by
  simp only [collector, Visitor.mem_handlersFor_onEnter] at member
  exact member.imp And.right (.imp And.right fun last => last.elim And.right nofun)

section

variable (aside : Aside view)

include aside

theorem fixes_message (message : String) : Fixes view (log message) := fixes_log aside.blind _ _ _

theorem fixes_record (scope : Nat) (target : Name) (claim : Claim) :
    Fixes view (record scope target claim) := by
  have books : Fixes view (WalkM.modifyState fun state : State =>
      { state with tables := state.tables.update scope fun table => table.record target claim }) :=
    fixes_modify fun session => aside.tables session _
  refine fixes_bind fixes_getState fun state => ?_
  dsimp only
  split
  · exact fixes_bind (fixes_message aside _) fun _ => books
  · exact books

theorem fixes_classify (scope : Nat) (target : Name) (value : Value) :
    Fixes view (classify scope target value) := by
  refine fixes_bind (fixes_check _) fun _ => fixes_bind fixes_getState fun state => ?_
  cases claims : claimOf state.options target value with
  | ok claim => exact fixes_record aside _ _ _
  | error fault =>
    apply fixes_throw
    rintro rfl
    exact claimOf_ne_stepLimit _ _ _ claims

omit aside in
theorem fixes_withOwner (identifier : Value) (scope : Option Nat)
    {use : Nat → Name → WalkM State Unit} (uses : ∀ owner target, Fixes view (use owner target)) :
    Fixes view (withOwner identifier scope use) := by
  unfold withOwner
  split
  · exact fixes_pure _
  · refine fixes_bind (fixes_check _) fun _ => ?_
    split
    · exact fixes_pure _
    · exact fixes_bind fixes_get fun _ => uses _ _

theorem fixes_collectDeclarator (cursor : Cursor) : Fixes view (collectDeclarator cursor) := by
  refine fixes_bind (fixes_node cursor) fun node => ?_
  split
  · refine fixes_bind (fixes_withOwner _ _ fun _ _ => ?_) fun _ => fixes_pure _
    exact fixes_classify aside _ _ _
  · exact fixes_pure _

theorem fixes_collectFunction (cursor : Cursor) : Fixes view (collectFunction cursor) := by
  refine fixes_bind (fixes_node cursor) fun node => ?_
  split
  · refine fixes_bind (fixes_check _) fun _ => ?_
    refine fixes_bind (fixes_withOwner _ _ fun _ _ => ?_) fun _ => fixes_pure _
    exact fixes_record aside _ _ _
  · exact fixes_pure _

theorem fixes_collectAssignment (cursor : Cursor) : Fixes view (collectAssignment cursor) := by
  refine fixes_bind (fixes_node cursor) fun node => ?_
  split
  · refine fixes_bind (fixes_withOwner _ _ fun _ _ => ?_) fun _ => fixes_pure _
    split
    · exact fixes_classify aside _ _ _
    · exact fixes_record aside _ _ _
  · exact fixes_pure _

theorem fixes_collector (member : handler ∈ collector.handlersFor phase kind) (cursor : Cursor) :
    Fixes view (handler cursor) := by
  rcases mem_handlersFor_collector member with ⟨_, rfl⟩ | ⟨_, rfl⟩ | ⟨_, rfl⟩
  · exact fixes_collectDeclarator aside cursor
  · exact fixes_collectFunction aside cursor
  · exact fixes_collectAssignment aside cursor

end

end Unravel.Pass.Strings
