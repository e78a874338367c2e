import Unravel.Pass.Strings.Recovery
import Unravel.Proofs.Walk.Effects

/-!
Contract: what the resolution of one call does.

`recovery?` is the string that a call stands for in a session. A call that has
one is replaced by its literal, and any other call is left as it is
(`resolveCall_eq_ok`). Either way at most the shape of the call's decoder is
remembered, and the scopes and the tables stay as they are.
-/

namespace Unravel.Pass.Strings

open Walk

variable {callee : Name} {argument : Double}

/-! ## What a call stands for -/

/-- The name and the number of a call of a name with one number. -/
def namedCall? (node : Value) : Option (Name × Double) :=
  (numberCall? node).bind fun call => call.1.name?.map fun name => (name, call.2)

/-- The decoder that a name leads to from a scope. -/
def decoderOf? (index : ScopeIndex) (tables : Tables) (scope : Nat) (name : Name) : Option Value :=
    findDecoder? index tables scope (resolveAlias index tables scope name)

/-- The shape of a decoder: the one it was found to have, else that of its body
as it is. -/
def shapeIn? (session : Session State) (decoder : Value) : Option DecoderShape :=
  (session.state.shapes.lookup (decoder.label?.getD 0)).getD (analyze (session.current decoder))

/-- The string that a decoder of a shape reads for a number. -/
def stringAt? (index : ScopeIndex) (tables : Tables) (scope : Nat) (decoder : Value)
    (shape : DecoderShape) (argument : Double) : Option String :=
  (findArray? index tables ((index.known? decoder).getD scope) shape.array).bind fun strings =>
    (positionIn? strings.length (argument.subtract shape.offset)).bind fun position =>
      strings[position]?

/-- The string that a call of a name with a number stands for. -/
def recoveryOf? (session : Session State) (scope : Nat) (name : Name) (argument : Double) : Option
    String := (decoderOf? session.index session.state.tables scope name).bind fun decoder =>
    (shapeIn? session decoder).bind fun shape =>
      stringAt? session.index session.state.tables scope decoder shape argument

/-- The string that a node stands for, if it is a call that has one. -/
def recovery? (session : Session State) (scope : Nat) (node : Value) : Option String :=
  (namedCall? node).bind fun call => recoveryOf? session scope call.1 call.2

variable {position scope : Nat} {decoder : Value}

theorem lt_of_positionIn? {length : Nat} {number : Double}
    (is : positionIn? length number = some position) : position < length := by
  unfold positionIn? at is
  split at is
  · split at is
    · rename_i integer _ within
      rw [Bool.and_eq_true, decide_eq_true_iff, decide_eq_true_iff] at within
      cases is
      omega
    · cases is
  · cases is

theorem isIdentifier_of_numberCall? {value callee : Value} {argument : Double} (is : numberCall?
    value = some (callee, argument)) : callee = value.attr "callee" ∧ callee.isIdentifier := by
  unfold numberCall? at is
  split at is
  · rename_i isIdentifier
    split at is
    · obtain ⟨number, _, same⟩ := Option.map_eq_some_iff.1 is
      cases same
      exact ⟨rfl, isIdentifier⟩
    · cases is
  · cases is

/-! ## What is done with it -/

/-- The sessions agree but for the log, the counts and the shapes, of which at
most that of one decoder of the tables has been added. -/
structure Remembers (before after : Session State) : Prop where
  index : after.index = before.index
  tables : after.state.tables = before.state.tables
  options : after.state.options = before.state.options
  shapes : after.state.shapes = before.state.shapes ∨ ∃ scope name decoder, findDecoder?
    before.index before.state.tables scope name = some decoder ∧ after.state.shapes =
    (decoder.label?.getD 0, analyze (before.current decoder)) :: before.state.shapes

theorem Remembers.refl (session : Session State) : Remembers session session :=
  ⟨rfl, rfl, rfl, .inl rfl⟩

/-- The call is left as it is. -/
structure Leaves (cursor : Cursor) (before : Session State) (moved : Cursor)
    (after : Session State) : Prop where
  moved : moved = cursor
  tree : after.tree = before.tree
  next : after.next = before.next
  recovered : after.state.recovered = before.state.recovered
  changes : after.state.tally.changes = before.state.tally.changes
  remembers : Remembers before after

/-- The call is replaced by the literal of a string. -/
structure Recovers (string : String) (cursor : Cursor) (before : Session State) (moved : Cursor)
    (after : Session State) : Prop where
  below : cursor.address ≠ []
  address : moved.address = cursor.address
  parentScope : moved.parentScope = cursor.parentScope
  skipped : moved.skipped = cursor.skipped
  scope : moved.scope =
    (before.index.known? ((Value.stringNode string).run before.next).1).or cursor.parentScope
  tree : after.tree = before.tree.putAt cursor.address ((Value.stringNode string).run before.next).1
  next : after.next = ((Value.stringNode string).run before.next).2
  recovered : after.state.recovered = before.state.recovered + 1
  changes : after.state.tally.changes = before.state.tally.changes + 1
  remembers : Remembers before after

/-- What keeps a node from being judged. -/
inductive Hinders (session : Session State) (node : Value) (fault : SortFault) : Prop where
  | call (is : numberCallFault? node = some fault)
  | callee {name : Value} {argument : Double} (calls : numberCall? node = some (name, argument))
      (is : name.nameFault? = some fault)
  | alias {scope : Nat} {name : Name}
      (is : aliasFault? session.index session.state.tables scope name = some fault)
  | decoder {scope : Nat} {name : Name} {decoder : Value}
      (found : findDecoder? session.index session.state.tables scope name = some decoder)
      (is : analysisFault? (session.current decoder) = some fault)

/-- How a recovered string is counted. -/
def State.recover (state : State) : State :=
  { state with tally := state.tally.change, recovered := state.recovered + 1 }

/-- What the resolution of a call comes to, which stands for a string or for
none. -/
inductive Resolves (cursor : Cursor) (session : Session State) (string? : Option String) :
    EStateM.Result Fault (Session State) Cursor → Prop where
  | fails {fault : SortFault} (hinders : Hinders session (cursor.nodeIn session) fault) :
      Resolves cursor session string? (.error (.sort fault) session)
  | leaves {after : Session State} (noString : string? = none) (leaves : Leaves cursor session
      cursor after) : Resolves cursor session string? (.ok cursor after)
  | puts {string : String} {middle : Session State} {outcome : EStateM.Result Fault (Session State)
      Cursor} (isString : string? = some string) (leaves : Leaves cursor session cursor middle)
      (placing : Placing id (Value.stringNode string) State.recover cursor middle outcome) :
      Resolves cursor session string? outcome

variable {session middle after : Session State} {cursor moved : Cursor} {string? : Option String}

theorem resolves_pure : Resolves cursor session none ((pure cursor : WalkM State Cursor) session) :=
    .leaves rfl ⟨rfl, rfl, rfl, rfl, rfl, .refl session⟩

theorem resolves_check {fault? : Option SortFault} {next : Unit → WalkM State Cursor}
    (hinders : ∀ fault, fault? = some fault → Hinders session (cursor.nodeIn session) fault)
    (further : Resolves cursor session string? (next () session)) :
    Resolves cursor session string? ((WalkM.check fault? >>= next) session) := by
  cases fault? with
  | some fault => exact .fails (hinders fault rfl)
  | none => exact further

theorem shapeOf_cases (decoder : Value) (session : Session State) : (∃ fault, analysisFault?
    (session.current decoder) = some fault ∧ shapeOf decoder session = .error (.sort fault) session)
    ∨ ∃ shapes, shapeOf decoder session = .ok (shapeIn? session decoder)
        { session with state := { session.state with shapes := shapes } } ∧
      (shapes = session.state.shapes ∨ shapes = (decoder.label?.getD 0, analyze (session.current
        decoder)) :: session.state.shapes) := by
  unfold shapeOf shapeIn?
  rw [WalkM.get_bind]
  cases session.state.shapes.lookup (decoder.label?.getD 0) with
  | some found => exact .inr ⟨_, rfl, .inl rfl⟩
  | none =>
    cases analysisFault? (session.current decoder) with
    | some fault => exact .inl ⟨fault, rfl, rfl⟩
    | none => exact .inr ⟨_, rfl, .inr rfl⟩

/-- A call that leads to a decoder is replaced if it has a string, else left. -/
theorem resolveThrough_resolves {target name : Name}
    (found : findDecoder? session.index session.state.tables scope name = some decoder) :
    Resolves cursor session ((shapeIn? session decoder).bind fun shape =>
        stringAt? session.index session.state.tables scope decoder shape argument)
      (resolveThrough cursor scope callee argument target decoder session) := by
  unfold resolveThrough
  rw [WalkM.bind_apply]
  rcases shapeOf_cases decoder session with ⟨fault, is, ran⟩ | ⟨shapes, ran, remembered⟩
  · rw [ran]
    exact .fails (.decoder found is)
  · have leaves (log : List Remark) (tally : Tally)
        (same : tally.changes = session.state.tally.changes) : Leaves cursor session cursor
          { session with log := log, state := ⟨session.state.options, tally,
            session.state.tables, shapes, session.state.recovered⟩ } :=
      ⟨rfl, rfl, rfl, rfl, same, rfl, rfl, rfl, remembered.imp_right fun is => ⟨_, _, _, found, is⟩⟩
    rw [ran]
    cases shapeIn? session decoder with
    | none => exact .leaves rfl (leaves _ _ rfl)
    | some shape =>
      dsimp only
      rw [WalkM.get_bind, Option.bind_some, stringAt?]
      cases findArray? session.index session.state.tables
          ((session.index.known? decoder).getD scope) shape.array with
      | none => exact .leaves rfl (leaves _ _ rfl)
      | some strings =>
        rw [Option.bind_some]
        dsimp only
        cases isPosition : positionIn? strings.length (argument.subtract shape.offset) with
        | none => exact .leaves rfl (leaves _ _ rfl)
        | some position =>
          have held := List.getElem?_eq_getElem (lt_of_positionIn? isPosition)
          dsimp only
          unfold recover
          rw [Option.bind_some, held]
          exact .puts rfl (leaves _ _ rfl) (placing_replacing rfl ⟨rfl, rfl, rfl, rfl⟩)

theorem resolveName_resolves : Resolves cursor session (recoveryOf? session scope callee argument)
    (resolveName cursor scope callee argument session) := by
  unfold resolveName recoveryOf? decoderOf?
  refine resolves_check (fun _ is => .alias is) ?_
  cases found : findDecoder? session.index session.state.tables scope
      (resolveAlias session.index session.state.tables scope callee) with
  | none => exact resolves_pure
  | some decoder => exact resolveThrough_resolves found

/-- A call fails to be judged, is left, or is replaced by what it stands for. -/
theorem resolveCall_resolves (cursor : Cursor) (session : Session State) : Resolves cursor session
      (cursor.scope.bind fun scope => recovery? session scope (cursor.nodeIn session))
      (resolveCall cursor session) := by
  unfold resolveCall
  cases cursor.scope with
  | none => exact resolves_pure
  | some scope =>
    dsimp only
    rw [Cursor.node_bind, Option.bind_some, recovery?, namedCall?]
    refine resolves_check (fun _ is => .call is) ?_
    cases calls : numberCall? (cursor.nodeIn session) with
    | none => exact resolves_pure
    | some call =>
      refine resolves_check (fun _ is => .callee calls is) ?_
      rw [Option.bind_some]
      cases call.1.name? with
      | none => exact resolves_pure
      | some callee => exact resolveName_resolves

theorem recovers_of_placing {string : String} (leaves : Leaves cursor session cursor middle)
    (placing : Placing id (Value.stringNode string) State.recover cursor middle (.ok moved after)) :
    Recovers string cursor session moved after := by
  cases placing with
  | @put drawn _ _ _ below draws isNew ran =>
    subst isNew
    rw [WalkM.scopeOf_of_plain rfl] at ran
    cases ran
    obtain ⟨drawnTree, drawnNext, drawnIndex, drawnState⟩ := draws
    obtain ⟨_, tree, next, recovered, changes, index, tables, options, shapes⟩ := leaves
    rw [← drawnIndex] at index
    rw [← drawnTree] at tree
    rw [← drawnState] at recovered changes tables options shapes
    refine ⟨below, rfl, rfl, rfl, ?_, ?_, ?_, congrArg (· + 1) recovered, congrArg (· + 1) changes,
      index, tables, options, shapes⟩
    · rw [← index, ← next]
      rfl
    · rw [← tree, ← next]
    · rw [← next, ← drawnNext]

/-- A call that stands for a string is replaced by its literal, and any other
call is left. -/
theorem resolveCall_eq_ok (ran : resolveCall cursor session = .ok moved after) :
    match cursor.scope.bind fun scope => recovery? session scope (cursor.nodeIn session) with
    | none => Leaves cursor session moved after
    | some string => Recovers string cursor session moved after := by
  have resolves := resolveCall_resolves cursor session
  generalize resolveCall cursor session = outcome at resolves ran
  cases resolves with
  | fails hinders => cases ran
  | leaves noString leaves =>
    cases ran
    rw [noString]
    exact leaves
  | puts isString leaves placing =>
    rw [isString]
    exact recovers_of_placing leaves (ran ▸ placing)

end Unravel.Pass.Strings
