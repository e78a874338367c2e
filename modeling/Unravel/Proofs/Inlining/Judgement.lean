import Unravel.Pass.Inlining.Calls
import Unravel.Proofs.Inlining.Reachability
import Unravel.Proofs.Inlining.Replacement
import Unravel.Proofs.Walk.Effects

/-!
Contract: what a call is judged to become.

`judgement` says what a call in a scope is to be replaced with, without making
any change; a malformed call or helper has none. A try does what the judgement
says (`tryInline_judged`): it fails, leaves the call and remembers at most the
verdict on its name, or puts what is built for it in its place. `judged_of_judgement`
says what has been checked by then.
-/

namespace Unravel.Pass.Inlining

open Value Walk

variable {before : Session State}

/-! ## Verdicts -/

/-- Whether a name calls itself through tracked helpers, as their bodies are
now. -/
def callsItself (session : Session State) (target : Name) : Bool :=
  callsBack (fun name => (bodyNow session name).map calledNames) session.state.tracked target

/-- The verdict on a name: the one that is kept, else that of the bodies as they
are. -/
def verdictOn (session : Session State) (target : Name) : Except SortFault Bool :=
  match Names.get? session.state.recursive target with
  | some verdict => .ok verdict
  | none =>
    match recursionFault? (bodyNow session) session.state.tracked target with
    | some fault => .error fault
    | none => .ok (callsItself session target)

theorem bodyNow_respects (session : Session State) (name other : Name)
    (same : name.key = other.key) : bodyNow session name = bodyNow session other := by
  rw [bodyNow, bodyNow, Names.get?_congr _ same]

/-! ## Judgements -/

def orElseFault {α : Type} (fault? : Option SortFault) (value : Except SortFault α) :
    Except SortFault α :=
  match fault? with
  | some fault => .error fault
  | none => value

/-- The replacement of a call of a function that its name is known to denote. -/
def replacement (session : Session State) (scope : Option Nat) (call function : Value) :
    Except SortFault (Option (Fresh Value)) :=
  let arguments := call.attr "arguments"
  let declared := session.current function
  let functionScope := session.index.known? function
  orElseFault (arguments.anyIterationFault?.or (inlineFault? session.index declared
    arguments.elements functionScope scope)) (.ok (inline? session.index declared arguments.elements
    functionScope scope))

/-- What is to be put in the place of a call that stands in a scope, if it is to
be replaced. -/
def judgement (session : Session State) (scope : Option Nat) (call : Value) :
    Except SortFault (Option (Fresh Value)) :=
  match callee? call with
  | none => .ok none
  | some callee =>
    orElseFault callee.nameFault? (let target := callee.name?.getD .absent
      if !target.isIn session.state.tracked then .ok none
      else
        match Names.get? session.state.functions target,
          scope.bind fun scope => session.index.lookup scope target with
        | some function, some (_, binding) =>
          if !binding.constant || declaredFunction? binding != function.label? then .ok none
          else
            match verdictOn session target with
            | .error fault => .error fault
            | .ok true => .ok none
            | .ok false => replacement session scope call function
        | _, _ => .ok none)

/-- The sessions agree but for the log and the count of calls that were left, and
at most one verdict has been added. -/
structure Learns (before after : Session State) : Prop where
  tree : after.tree = before.tree
  next : after.next = before.next
  index : after.index = before.index
  functions : after.state.functions = before.state.functions
  tracked : after.state.tracked = before.state.tracked
  inlined : after.state.inlined = before.state.inlined
  changes : after.state.tally.changes = before.state.tally.changes
  recursive : after.state.recursive = before.state.recursive ∨ ∃ target verdict, verdictOn before
    target = .ok verdict ∧ after.state.recursive = Names.put before.state.recursive target verdict

theorem Learns.refl (session : Session State) : Learns session session :=
  ⟨rfl, rfl, rfl, rfl, rfl, rfl, rfl, .inl rfl⟩

/-- What was built for the call has been put in its place. -/
structure Places (cursor : Cursor) (build : Fresh Value) (before after : Session State) :
    Prop where
  below : cursor.address ≠ []
  tree : after.tree = before.tree.putAt cursor.address (build.run before.next).1
  functions : after.state.functions = before.state.functions
  inlined : after.state.inlined = before.state.inlined + 1
  changes : after.state.tally.changes = before.state.tally.changes + 1

/-- How a replaced call is counted. -/
def State.inline (state : State) : State :=
  { state with tally := state.tally.change, inlined := state.inlined + 1 }

/-- What becomes of a call that has been judged. -/
def Follows (cursor : Cursor) (before : Session State) (judged : Except SortFault (Option (Fresh Value)))
    (outcome : EStateM.Result Fault (Session State) (Bool × Cursor)) : Prop :=
  match judged with
  | .error fault => ∃ after, outcome = .error (.sort fault) after ∧ Learns before after
  | .ok none => ∃ after, outcome = .ok (false, cursor) after ∧ Learns before after
  | .ok (some build) => ∃ middle, Learns before middle ∧
      Placing (fun moved => (true, moved)) build State.inline cursor middle outcome

variable {session after : Session State} {cursor : Cursor} {call function : Value}
  {build : Fresh Value}

theorem follows_refuse (subject : Piece) (reason : String) (learns : Learns before session) :
    Follows cursor before (.ok none) ((do
      refuse subject reason
      return (false, cursor) : WalkM State (Bool × Cursor)) session) :=
  ⟨_, rfl, learns.tree, learns.next, learns.index, learns.functions, learns.tracked,
    learns.inlined, learns.changes, learns.recursive⟩

theorem follows_pure : Follows cursor session (.ok none) ((pure (false, cursor) : WalkM State (Bool
    × Cursor)) session) := ⟨session, rfl, .refl session⟩

variable {fault? : Option SortFault}

theorem follows_check {judged : Except SortFault (Option (Fresh Value))} {next : Unit → WalkM State (Bool ×
    Cursor)} (learns : Learns before session) (further : Follows cursor before judged (next ()
    session)) : Follows cursor before (orElseFault fault? judged) ((WalkM.check fault? >>= next)
    session) := by
  cases fault? with
  | some fault => exact ⟨session, rfl, learns⟩
  | none => exact further

theorem follows_replaceCall (learns : Learns before session) : Follows cursor before (replacement
    session cursor.scope call function) (replaceCall cursor call function session) := by
  refine follows_check learns ?_
  cases found : inline? session.index (session.current function)
      (call.attr "arguments").elements (session.index.known? function) cursor.scope with
  | none => exact follows_refuse _ _ learns
  | some build => exact ⟨session, learns, placing_replacing rfl ⟨rfl, rfl, rfl, rfl⟩⟩

theorem places_of_placing {answer : Bool × Cursor} (learns : Learns before session)
    (placing : Placing (fun moved => (true, moved)) build State.inline cursor session
      (.ok answer after)) : answer.1 = true ∧ Places cursor build before after := by
  cases placing with
  | @put drawn reached new scope below draws isNew ran =>
    have reindexed := WalkM.scopeOf_eq_ok ran
    have state := reindexed.state.trans draws.state
    subst isNew
    refine ⟨rfl, below, ?_, ?_, ?_, ?_⟩
    · rw [← learns.tree, ← learns.next, ← draws.tree]
      exact reindexed.tree
    · exact (congrArg State.functions state).trans learns.functions
    · exact congrArg (· + 1) ((congrArg State.inlined state).trans learns.inlined)
    · exact congrArg (· + 1) ((congrArg (·.tally.changes) state).trans learns.changes)

theorem Learns.replacement {before : Session State} (learns : Learns before session)
    (scope : Option Nat) (call function : Value) :
    replacement session scope call function = Inlining.replacement before scope call function := by
  unfold Inlining.replacement Session.current
  rw [learns.index, learns.tree]

theorem isRecursive_judged (target : Name) (session : Session State) :
    match verdictOn session target with
    | .error fault => isRecursive target session = .error (.sort fault) session
    | .ok verdict => ∃ after, isRecursive target session = .ok verdict after ∧
        Learns session after := by
  unfold isRecursive
  rw [WalkM.get_bind]
  dsimp only
  cases kept : Names.get? session.state.recursive target with
  | some verdict =>
    rw [verdictOn, kept]
    exact ⟨session, rfl, .refl session⟩
  | none =>
    cases fault : recursionFault? (bodyNow session) session.state.tracked target with
    | some found =>
      rw [verdictOn, kept]
      rw [fault]
      rfl
    | none =>
      have verdict : verdictOn session target = .ok (callsItself session target) := by
        rw [verdictOn, kept]
        rw [fault]
      rw [verdict]
      exact ⟨_, rfl, rfl, rfl, rfl, rfl, rfl, rfl, rfl, .inr ⟨target, _, verdict, rfl⟩⟩

/-- The last part of a try, once the name of the call is known to denote its
function. -/
theorem follows_judged (cursor : Cursor) (session : Session State) (call function : Value) (target :
    Name) : Follows cursor session
      (match verdictOn session target with
      | .error fault => .error fault
      | .ok true => .ok none
      | .ok false => replacement session cursor.scope call function)
      ((do
        if ← isRecursive target then
          refuse (.text target.display) "helper is recursive"
          return (false, cursor)
        else replaceCall cursor call function : WalkM State (Bool × Cursor)) session) := by
  have judged := isRecursive_judged target session
  rw [WalkM.bind_apply]
  cases verdict : verdictOn session target with
  | error fault =>
    rw [verdict] at judged
    rw [judged]
    exact ⟨session, rfl, .refl session⟩
  | ok found =>
    rw [verdict] at judged
    obtain ⟨middle, isOk, learns⟩ := judged
    rw [isOk]
    cases found with
    | true => exact follows_refuse _ _ learns
    | false =>
      rw [← learns.replacement]
      exact follows_replaceCall learns

theorem tryInline_judged (cursor : Cursor) (session : Session State) :
    Follows cursor session (judgement session cursor.scope (cursor.nodeIn session))
      (tryInline cursor session) := by
  unfold tryInline judgement
  rw [Cursor.node_bind]
  dsimp only
  cases callee? (cursor.nodeIn session) with
  | none => exact follows_pure
  | some callee =>
    refine follows_check (.refl session) ?_
    split
    · exact follows_pure
    · have looked : cursor.lookup (callee.name?.getD .absent) session =
          .ok (cursor.scope.bind fun scope =>
            session.index.lookup scope (callee.name?.getD .absent)) session := rfl
      rw [WalkM.bind_apply, looked]
      cases Names.get? session.state.functions (callee.name?.getD .absent) with
      | none => exact follows_pure
      | some function =>
        cases cursor.scope.bind fun scope =>
            session.index.lookup scope (callee.name?.getD .absent) with
        | none => exact follows_pure
        | some bound =>
          dsimp only
          split
          · exact follows_refuse _ _ (.refl session)
          · exact follows_judged _ _ _ _ _

/-- The outcome of a try is a fault, a call that is left, or what comes of putting
what is built for it in its place. -/
theorem tryInline_outcome (cursor : Cursor) (session : Session State) {motive : EStateM.Result Fault
    (Session State) (Bool × Cursor) → Prop} (fails : ∀ fault after,
      judgement session cursor.scope (cursor.nodeIn session) = .error fault →
        Learns session after → motive (.error (.sort fault) after))
    (leaves : ∀ after, judgement session cursor.scope (cursor.nodeIn session) = .ok none →
      Learns session after → motive (.ok (false, cursor) after))
    (puts : ∀ build middle outcome,
      judgement session cursor.scope (cursor.nodeIn session) = .ok (some build) → Learns session
        middle → Placing (fun moved => (true, moved)) build State.inline cursor middle outcome
        → motive outcome) :
    motive (tryInline cursor session) := by
  have follows := tryInline_judged cursor session
  cases judged : judgement session cursor.scope (cursor.nodeIn session) with
  | error fault =>
    rw [judged] at follows
    obtain ⟨after, is, learns⟩ := follows
    exact is ▸ fails fault after judged learns
  | ok decision =>
    rw [judged] at follows
    cases decision with
    | none =>
      obtain ⟨after, is, learns⟩ := follows
      exact is ▸ leaves after judged learns
    | some build =>
      obtain ⟨middle, learns, placing⟩ := follows
      exact puts build middle _ judged learns placing

/-! ## What a replacement was judged on -/

/-- What has been checked of a call that is to be replaced. -/
structure Judged (session : Session State) (scope : Option Nat) (call : Value) (target : Name)
    (function : Value) (build : Fresh Value) : Prop where
  calls : calledName? call = some target
  collected : Names.get? session.state.functions target = some function
  readable : inlineFault? session.index (session.current function)
    (call.attr "arguments").elements (session.index.known? function) scope = none
  inlined : inline? session.index (session.current function) (call.attr "arguments").elements
    (session.index.known? function) scope = some build

variable {moved : Cursor} {scope : Option Nat}

theorem orElseFault_eq_ok {α : Type} {value : Except SortFault α} {result : α} (is : orElseFault
    fault? value = .ok result) : fault? = none ∧ value = .ok result := by
  cases fault? with
  | none => exact ⟨rfl, is⟩
  | some fault => cases is

theorem name?_of_nameFault? {value : Value} (fine : value.nameFault? = none) :
    value.name? ≠ none := by
  intro noName
  simp only [nameFault?, Option.or_eq_none_iff] at fine
  unfold name? at noName
  cases held : value.attr "name" <;> simp [held, Name.ofValue?, keyFault?] at noName fine

theorem judged_of_judgement (is : judgement session scope call = .ok (some build)) :
    ∃ target function, Judged session scope call target function build := by
  unfold judgement at is
  cases called : callee? call with
  | none =>
    rw [called] at is
    cases is
  | some callee =>
    rw [called] at is
    obtain ⟨named, looks⟩ := orElseFault_eq_ok is
    dsimp only at looks
    split at looks
    · cases looks
    · cases collected : Names.get? session.state.functions (callee.name?.getD .absent) with
      | none =>
        rw [collected] at looks
        cases looks
      | some function =>
        rw [collected] at looks
        cases bound : scope.bind fun scope =>
            session.index.lookup scope (callee.name?.getD .absent) with
        | none =>
          rw [bound] at looks
          cases looks
        | some found =>
          rw [bound] at looks
          dsimp only at looks
          split at looks
          · cases looks
          · split at looks
            · cases looks
            · cases looks
            · obtain ⟨readable, inlined⟩ := orElseFault_eq_ok looks
              obtain ⟨name, isName⟩ := Option.ne_none_iff_exists'.1 (name?_of_nameFault? named)
              refine ⟨_, function, ?_, collected, (Option.or_eq_none_iff.1 readable).2,
                Except.ok.inj inlined⟩
              rw [calledName?, called, Option.bind_some, isName]
              rfl

/-- A try that does not fail leaves the call, or puts what it was judged to become in
its place. -/
theorem tryInline_cases {replaced : Bool}
    (ran : tryInline cursor before = .ok (replaced, moved) after) :
    (judgement before cursor.scope (cursor.nodeIn before) = .ok none ∧ replaced = false ∧
      moved = cursor ∧ Learns before after) ∨
    ∃ build, judgement before cursor.scope (cursor.nodeIn before) = .ok (some build) ∧
      replaced = true ∧ Places cursor build before after := by
  refine tryInline_outcome cursor before
    (motive := fun outcome => outcome = .ok (replaced, moved) after → _) ?_ ?_ ?_ ran
  · rintro _ _ _ _ ⟨⟩
  · rintro _ isLeft learns ⟨⟩
    exact .inl ⟨isLeft, rfl, rfl, learns⟩
  · rintro build middle _ isJudgement learns placing rfl
    exact .inr ⟨build, isJudgement, places_of_placing learns placing⟩

theorem judged_of_tryInline (ran : tryInline cursor before = .ok (true, moved) after) :
    ∃ target function build,
      judgement before cursor.scope (cursor.nodeIn before) = .ok (some build) ∧
      Judged before cursor.scope (cursor.nodeIn before) target function build ∧
        Places cursor build before after := by
  rcases tryInline_cases ran with ⟨_, left, _⟩ | ⟨build, isJudgement, _, places⟩
  · cases left
  · obtain ⟨target, function, judged⟩ := judged_of_judgement isJudgement
    exact ⟨target, function, build, isJudgement, judged, places⟩

end Unravel.Pass.Inlining
