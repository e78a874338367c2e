import Unravel.Proofs.Strings.Denotation
import Unravel.Proofs.Strings.Simultaneity

/-!
Contract: which tables of strings are used.

The collection files what is claimed of all names that are set in a program, in
document order, and passes over those that are set indirectly
(`filed_of_reached`). So a name that is bound stands for a table only if it is
set at least once other than indirectly, and then always to that table
(`gives_of_verdict`); a call is resolved through it whatever it is set to
indirectly (`recovered_from_direct_settings`).
-/

namespace Unravel.Pass.Strings

open Value Walk

/-! ## What a program sets -/

/-- All that is set in a tree, in document order. -/
def settings (index : ScopeIndex) (outer : Option Nat) (node : Value) : List Setting := settingsAt
  ((index.known? node).or outer) outer node ++ node.children.attach.flatMap fun child =>
      settings index ((index.known? node).or outer) child.val
termination_by sizeOf node
decreasing_by exact sizeOf_lt_of_mem_children child.property

theorem settings_eq (index : ScopeIndex) (outer : Option Nat) (node : Value) :
    settings index outer node = settingsAt ((index.known? node).or outer) outer node ++
      node.children.flatMap (settings index ((index.known? node).or outer)) := by
  rw [settings, List.flatMap_subtype (g := settings index ((index.known? node).or outer))
    fun _ _ => rfl, List.unattach_attach]

/-- The tables of all that a program sets. -/
def filedTables (document : Document) (options : Options) : Except Fault Tables := (settings (.build
  document.tree) none document.tree).foldlM (Tables.file (.build document.tree) options) []

/-- What is set at the nodes that a frame leads to. -/
def pending (tree : Value) : Frame → List Setting
  | .leaving _ => []
  | .entering owner slot =>
    ((tree.at? (owner.address ++ [slot])).filter isNode).toList.flatMap
      (settings (.build tree) owner.scope)

variable {document : Document} {options : Options} {session after : Session State}
  {cursor moved : Cursor} {tree node : Value} {index : ScopeIndex} {tables : Tables}

theorem pending_framesOf (found : tree.at? cursor.address = some node) : (framesOf cursor
    node).flatMap (pending tree) = node.children.flatMap (settings (.build tree) cursor.scope) := by
  have each (slot : Slot) : pending tree (.entering cursor slot) =
      ((node.slot? slot).bind fun child =>
        if child.isNode then some (slot, child) else none).toList.flatMap fun entry =>
          settings (.build tree) cursor.scope entry.2 := by
    rw [pending, at?_append_of_at? found]
    cases held : node.slot? slot with
    | none => simp [Value.at?, held]
    | some child =>
      cases isNode : child.isNode <;> simp [Value.at?, held, isNode, Option.filter]
  rw [framesOf, List.flatMap_append, List.flatMap_map, ← map_snd_childEntries, List.flatMap_map,
    childEntries, List.filterMap_eq_flatMap_toList, List.flatMap_assoc, List.flatMap_congr
      fun slot _ => each slot]
  exact List.append_nil _

theorem dispatch_collector (ran : collector.dispatch .entering cursor session = .ok moved after) :
    moved = cursor ∧
      Files (settingsAt cursor.scope cursor.parentScope (cursor.nodeIn session)) session after := by
  have handled {kind : String} {handler : Handler State}
      (is : (cursor.nodeIn session).isKind kind)
      (handlers : collector.handlersFor .entering kind = [handler]) :
      handler cursor session = .ok moved after := by
    rwa [Visitor.dispatch_apply (kind?_of_isKind is), handlers, Visitor.runHandlers_singleton] at ran
  unfold settingsAt
  split
  · rename_i is
    exact collectDeclarator_eq_ok (handled is rfl)
  · split
    · rename_i is
      exact collectFunction_eq_ok (handled is rfl)
    · split
      · rename_i is
        exact collectAssignment_eq_ok (handled is rfl)
      · rename_i notDeclarator notFunction notAssignment
        rw [Visitor.dispatch_unhandled] at ran
        · cases ran
          exact ⟨rfl, .of_indirect fun _ member => (of_mem_settings member).2⟩
        · intro kind is
          refine List.eq_nil_iff_forall_not_mem.2 fun handler member => ?_
          have isKind : (cursor.nodeIn session).isKind kind := beq_iff_eq.2 is
          rcases mem_handlersFor_collector member with ⟨rfl, _⟩ | ⟨rfl, _⟩ | ⟨rfl, _⟩
          · exact notDeclarator isKind
          · exact notFunction isKind
          · exact notAssignment isKind

/-- A walk of the collection files what is set at the nodes that it still has to
come to. -/
theorem keeps_filing (wellFormed : document.WellFormed) (outcome : Except Fault Tables) :
    Keeps collector fun frames session => Stays document.tree (Gathered document) frames session ∧
      (frames.flatMap (pending document.tree)).foldlM
        (Tables.file (.build document.tree) session.state.options) session.state.tables =
          outcome := by
  rintro frame rest session following after ⟨stays, filed⟩ visits
  refine ⟨keeps_stays wellFormed.createsScope (fun _ gathered => gathered.index)
    (maintains_gathered wellFormed) stays visits, ?_⟩
  have gathered := stays.holds
  cases step_eq_ok visits with
  | left acts =>
    rw [Visitor.dispatch_unhandled fun _ _ => rfl] at acts
    cases acts
    exact filed
  | @absent owner slot none same =>
    have nothing : (document.tree.at? (owner.address ++ [slot])).filter isNode = .none := by
      rw [← stays.same, Option.filter_eq_none_iff]
      intro value found
      simp [none value found]
    rw [same]
    rwa [List.flatMap_cons, pending, nothing] at filed
  | @entered owner _ slot value _ _ _ found isNode inScope acts _ =>
    rw [step_entering_of_isNode found isNode, enterNode_apply inScope, acts] at visits
    rw [stays.same] at found
    have member := ((stays.onTree _ List.mem_cons_self).mem_nodes found isNode).2
    rw [scopeOf_of_build wellFormed.createsScope member _ gathered.index] at inScope
    cases inScope
    obtain ⟨rfl, log, tables, hasFiled, rfl⟩ := dispatch_collector acts
    have here (scope : Option Nat) (reached : Session State) (same : reached.tree = document.tree) :
        Cursor.nodeIn ⟨owner.address ++ [slot], scope, owner.scope, false⟩ reached = value := by
      rw [Cursor.nodeIn, same, found]
      rfl
    rw [here _ _ stays.same, gathered.index] at hasFiled
    dsimp only at visits
    rw [here _ { session with log := log, state := { session.state with tables := tables } }
      stays.same, isNode] at visits
    cases visits
    have first : pending document.tree (.entering owner slot) =
        settings (.build document.tree) owner.scope value := by
      simp [pending, found, Option.filter, isNode]
    rw [List.flatMap_cons, first, settings_eq, List.append_assoc, List.foldlM_append,
      hasFiled] at filed
    change ((framesOf _ value ++ rest).flatMap _).foldlM _ _ = _
    rw [List.flatMap_append, pending_framesOf found]
    exact filed

variable {limit : Nat}

theorem filed_of_below (wellFormed : document.WellFormed) {result : Unit} (atRoot : cursor.address =
    []) (isScope : cursor.scope = (ScopeIndex.build document.tree).known? document.tree) (same :
    session.tree = document.tree) (gathered : Gathered document session) (ran : below limit
    collector cursor session = .ok result after) : (settings (.build document.tree) none
    document.tree).foldlM (Tables.file (.build document.tree) session.state.options)
    session.state.tables = .ok after.state.tables := by
  have isRoot : cursor.nodeIn session = document.tree := by
    rw [Cursor.nodeIn, atRoot, same]
    rfl
  have rootSets : settingsAt cursor.scope none document.tree = [] := by
    have isKind := kind?_of_isKind wellFormed.tree.program
    simp [settingsAt, Value.isKind, isKind, writtenIdentifiers, loopVariables]
  have pends : (document.tree.childSlots.map (.entering cursor)).flatMap (pending document.tree) =
      settings (.build document.tree) none document.tree := by
    have whole : (framesOf cursor document.tree).flatMap (pending document.tree) = _ :=
      pending_framesOf (by rw [atRoot]; rfl)
    rw [settings_eq, Option.or_none, ← isScope, rootSets, ← whole, framesOf, List.flatMap_append]
    exact (List.append_nil _).symm
  obtain ⟨_, filed⟩ := below_keeps (keeps_filing wellFormed _)
    ⟨⟨same, gathered, isRoot ▸ onTree_childSlots atRoot⟩, rfl⟩ ran
  rw [isRoot, pends] at filed
  exact filed.symm

/-- In every session that a walk of the pass comes to, the tables are those of all
that the program sets, and the index has grown out of that of the program. -/
theorem filed_of_reached (wellFormed : document.WellFormed) {frames : List Frame} (reached : Reached
    (visitor limit) (initialSession document (State.initial options)) frames session) :
    session.tree.Within notProgram ∧ (ScopeIndex.build document.tree).Grows session.index ∧
    filedTables document options = .ok session.state.tables := by
  induction reached with
  | @opened frames session opens =>
    obtain ⟨root, started, approached, isScope, gathered⟩ := exists_started wellFormed options
    obtain ⟨reindexed, atRoot, _⟩ := approach_eq_ok approached
    have entered := (dispatch_root wellFormed approached limit).2.trans
      (collect_apply limit root started)
    cases ran : below limit collector root started with
    | error fault after =>
      rw [ran] at entered
      cases (opening_of_fault approached entered).symm.trans opens
    | ok result after =>
      rw [ran] at entered
      obtain ⟨same, isGathered⟩ := gathered_of_below wellFormed atRoot reindexed.tree gathered ran
      have filed := filed_of_below wellFormed atRoot isScope reindexed.tree gathered ran
      rw [reindexed.state] at filed
      cases (opening_of_dispatch approached entered
        (by rw [same]; exact fieldsFault?_of_isNode wellFormed.isNode)).symm.trans opens
      refine ⟨?_, ?_, filed⟩
      · rw [same]
        exact wellFormed.single
      · rw [isGathered.index]
        exact .refl _
  | visited reached visits ih =>
    obtain ⟨single, kept⟩ := ih
    rw [visitor, step_of_single _ single] at visits
    have each : ∀ phase kind, ∀ handler ∈ resolver.handlersFor phase kind,
        Handler.Places handler fun index state => (ScopeIndex.build document.tree).Grows index ∧
          filedTables document options = .ok state.tables := by
      intro phase kind handler member
      rw [mem_handlersFor_resolver member]
      exact resolveCall_places fun index tables =>
        (ScopeIndex.build document.tree).Grows index ∧ filedTables document options = .ok tables
    have keeps := keeps_placed (fun _ _ _ _ grows kept => ⟨kept.1.trans grows, kept.2⟩) each
    exact ⟨@keeps_single _ [] _ _ _ single visits,
      (keeps ⟨(inOrder_of_reached reached).1, kept⟩ visits).2⟩

/-! ## Claims that stand -/

/-- What has come of the claims for a name of a scope. -/
def Tables.verdict? (tables : Tables) (scope : Nat) (name : Name) : Option (Option Claim) :=
  (tables.at? scope).bind fun table => table.verdict? name

/-- The name of the setting is recorded in the scope, as the name is. -/
def Setting.isTo (index : ScopeIndex) (home : Nat) (name : Name) (setting : Setting) : Bool :=
  home == owningScope index setting.scope setting.target && setting.target.same name

/-- What is given is a list of strings, for which these are stored. -/
def Setting.Gives (options : Options) (strings : List String) (setting : Setting) : Prop :=
  ∃ value values, setting.gift = .value value ∧ value.isKind "ArrayExpression" = true ∧
    arrayStrings? value = some values ∧ restore options setting.target values = .ok strings

variable {home : Nat} {name : Name} {strings : List String} {setting : Setting}

variable {scope : Nat} {claim : Claim}

theorem Tables.verdict?_update {target : Name} : (tables.update scope fun table => table.record
    target claim).verdict? home name = if home == scope && target.same name then some (claim.after
    (tables.verdict? home name)) else tables.verdict? home name := by
  unfold Tables.verdict?
  rw [Tables.at?_update]
  by_cases here : home = scope
  · subst here
    cases tables.at? home <;> simp [ScopeTable.verdict?_record]
    rfl
  · simp [here]

theorem after_eq_array {verdict : Option (Option Claim)} (stands : claim.after verdict = some
    (.array strings)) : claim = .array strings ∧ (verdict = none ∨ verdict = some (some (.array
    strings))) := by
  cases verdict with
  | none => exact ⟨Option.some.inj stands, .inl rfl⟩
  | some held =>
    obtain ⟨rfl, agrees⟩ := Option.filter_eq_some_iff.1 stands
    cases claim <;> simp_all [Claim.agrees]

theorem gives_of_claim? (claims : setting.gift.claim? options setting.target = some (.ok (.array
    strings))) : setting.Gives options strings := by
  cases given : setting.gift with
  | value value =>
    rw [given] at claims
    have is : claimOf options setting.target value = .ok (.array strings) := Option.some.inj claims
    unfold claimOf at is
    split at is
    · rename_i isArray
      split at is
      · rename_i values found
        refine ⟨value, values, given, isArray, found, ?_⟩
        cases restored : restore options setting.target values <;> rw [restored] at is <;> cases is
        rfl
      · cases is
    · repeat' split at is
      all_goals cases is
  | function | compound | indirect =>
    rw [given] at claims
    cases claims

/-- If a table stands for a name after some settings, all of them that are to the
name and are looked at give it. -/
theorem gives_of_verdict {settings : List Setting} {after : Tables} (ran : settings.foldlM
    (Tables.file index options) tables = .ok after) (stands : after.verdict? home name = some (some
    (.array strings))) : (tables.verdict? home name = some (some (.array strings)) ∨ tables.verdict?
    home name = none ∧ ∃ setting ∈ settings, setting.isTo index home name ∧ setting.Gives options
    strings) ∧ ∀ setting ∈ settings, setting.isTo index home name → setting.gift ≠ .indirect →
    setting.Gives options strings := by
  induction settings generalizing tables with
  | nil =>
    cases ran
    exact ⟨.inl stands, nofun⟩
  | cons setting rest ih =>
    rw [List.foldlM_cons] at ran
    cases first : tables.file index options setting with
    | error fault =>
      rw [first] at ran
      cases ran
    | ok next =>
      rw [first] at ran
      obtain ⟨before, each⟩ := ih ran
      rw [List.exists_mem_cons_iff, List.forall_mem_cons]
      rcases file_eq_ok first with ⟨silent, rfl⟩ | ⟨claim, claims, rfl⟩
      · refine ⟨before.imp_right (.imp_right .inr), fun _ direct => absurd ?_ direct, each⟩
        cases given : setting.gift <;> rw [given] at silent <;> first | rfl | cases silent
      · rw [Tables.verdict?_update] at before
        cases here : setting.isTo index home name with
        | false =>
          unfold Setting.isTo at here
          rw [if_neg (by simp [here])] at before
          exact ⟨before.imp_right (.imp_right .inr), nofun, each⟩
        | true =>
          unfold Setting.isTo at here
          rw [if_pos here] at before
          obtain ⟨rfl, stood⟩ := after_eq_array (Option.some.inj (before.resolve_right nofun))
          have gives := gives_of_claim? claims
          exact ⟨stood.symm.imp_right fun none => ⟨none, .inl ⟨rfl, gives⟩⟩, fun _ _ => gives, each⟩

variable {binding : Binding}

/-- A name that is bound is read in the scope that binds it. -/
theorem visibleAlong?_of_lookup {α : Type} {entry : ScopeTable → Option α} {chain : List Nat} (bound
    : ∀ scope ∈ chain.dropLast, ((tables.at? scope).bind entry).isSome → (index.own? scope
    name).isSome) (found : index.lookupAlong name chain = some (home, binding)) : visibleAlong?
    index tables entry name chain = (tables.at? home).bind entry := by
  induction chain with
  | nil => cases found
  | cons scope rest ih =>
    rw [ScopeIndex.lookupAlong] at found
    rw [visibleAlong?]
    cases own : index.own? scope name with
    | some here =>
      rw [own] at found
      cases found
      cases (tables.at? home).bind entry <;> rfl
    | none =>
      rw [own] at found
      have filled : rest ≠ [] := by
        rintro rfl
        cases found
      rw [List.dropLast_cons_of_ne_nil filled, List.forall_mem_cons] at bound
      have passed : (tables.at? scope).bind entry = none := by
        simpa [own] using bound.1
      rw [passed]
      exact ih bound.2 found

theorem verdict?_of_findArray? (nested : index.Nested) (recorded : Recorded index tables) (bound :
    index.lookup scope name = some (home, binding)) (stored : findArray? index tables scope name =
    some strings) : tables.verdict? home name = some (some (.array strings)) := by
  rw [findArray?, visibleAlong?_of_lookup (fun inner member is => ?_) bound] at stored
  · obtain ⟨table, isTable, held⟩ := Option.bind_eq_some_iff.1 stored
    rw [(recorded.sound isTable).arrays] at held
    obtain ⟨claim, standing, isArray⟩ := Option.bind_eq_some_iff.1 held
    cases claim <;> cases isArray
    rw [Tables.verdict?, isTable]
    exact Option.join_eq_some_iff.1 standing
  · obtain ⟨values, held⟩ := Option.isSome_iff_exists.1 is
    obtain ⟨table, isTable, held⟩ := Option.bind_eq_some_iff.1 held
    rw [(recorded.sound isTable).arrays] at held
    obtain ⟨claim, standing, _⟩ := Option.bind_eq_some_iff.1 held
    exact recorded.bound nested member isTable standing

/-! ## Calls -/

/-- What a program sets a name to that is recorded in a scope. -/
def settingsTo (document : Document) (home : Nat) (name : Name) : List Setting := (settings (.build
  document.tree) none document.tree).filter (Setting.isTo (.build document.tree) home name)

/-- A call that the pass resolves is replaced by a string of a table. If the name
of the table is bound, it is set to lists of strings only, for all of which that
table is stored, except where it is set indirectly: what it gets there makes no
difference. So all that it is set to gives the table exactly when it is never set
indirectly. -/
theorem recovered_from_direct_settings {limit : Nat} {owner : Cursor} {slot : Slot}
    {rest following : List Frame} {call : Value} (wellFormed : document.WellFormed)
    (reached : Reached (visitor limit) (initialSession document (State.initial options))
      (.entering owner slot :: rest) session)
    (found : session.tree.at? (owner.address ++ [slot]) = some call)
    (isCall : call.isKind "CallExpression" = true)
    (visits : step (visitor limit) (.entering owner slot) session = .ok following after)
    (resolved : session.state.recovered < after.state.recovered) :
    ∃ scope name argument decoder shape string,
      (session.index.known? call).or owner.scope = some scope ∧
      namedCall? call = some (name, argument) ∧
      decoderOf? session.index session.state.tables scope name = some decoder ∧
      shapeIn? session decoder = some shape ∧
      after.tree = session.tree.putAt (owner.address ++ [slot])
        ((Value.stringNode string).run session.next).1 ∧
      ∀ home binding,
        session.index.lookup ((session.index.known? decoder).getD scope) shape.array =
            some (home, binding) →
          ∃ strings, string ∈ strings ∧
            (∃ setting ∈ settingsTo document home shape.array, setting.Gives options strings) ∧
            (∀ setting ∈ settingsTo document home shape.array, setting.gift ≠ .indirect →
              setting.Gives options strings) ∧
            ((∀ setting ∈ settingsTo document home shape.array, setting.Gives options strings) ↔
              ∀ setting ∈ settingsTo document home shape.array, setting.gift ≠ .indirect) := by
  obtain ⟨placed, recorded⟩ := inOrder_of_reached reached
  obtain ⟨_, _, filed⟩ := filed_of_reached wellFormed reached
  obtain ⟨scope, string, moved, inScope, recovers, done⟩ :=
    exists_recovers_of_step found isCall visits resolved
  obtain ⟨⟨name, argument⟩, isNamed, isString⟩ := Option.bind_eq_some_iff.1 recovers
  obtain ⟨decoder, isDecoder, shapes⟩ := Option.bind_eq_some_iff.1 isString
  obtain ⟨shape, isShape, reads⟩ := Option.bind_eq_some_iff.1 shapes
  obtain ⟨strings, stored, positions⟩ := Option.bind_eq_some_iff.1 reads
  obtain ⟨position, _, isHeld⟩ := Option.bind_eq_some_iff.1 positions
  refine ⟨scope, name, argument, decoder, shape, string, inScope, isNamed, isDecoder, isShape,
    done.tree, fun home binding bound => ⟨strings, List.mem_of_getElem? isHeld, ?_⟩⟩
  obtain ⟨before, each⟩ := gives_of_verdict filed
    (verdict?_of_findArray? placed.nested recorded bound stored)
  obtain ⟨setting, member, isTo, gives⟩ := (before.resolve_left nofun).2
  have direct : ∀ setting ∈ settingsTo document home shape.array, setting.gift ≠ .indirect →
      setting.Gives options strings := fun setting member =>
    each setting (List.mem_filter.1 member).1 (List.mem_filter.1 member).2
  refine ⟨⟨setting, List.mem_filter.2 ⟨member, isTo⟩, gives⟩, direct, fun all setting member is => ?_,
    fun never setting member => direct setting member (never setting member)⟩
  obtain ⟨value, _, isValue, _⟩ := all setting member
  cases isValue.symm.trans is

theorem recovered_from_direct_settings_analysedLate :
    analysedLate.WellFormed ∧ ∃ owner slot rest session call following after,
      Reached (visitor 80) (initialSession analysedLate (State.initial []))
        (.entering owner slot :: rest) session ∧
      session.tree.at? (owner.address ++ [slot]) = some call ∧
      call.isKind "CallExpression" = true ∧
      step (visitor 80) (.entering owner slot) session = .ok following after ∧
      session.state.recovered < after.state.recovered ∧
      ∃ scope decoder shape string, shapeIn? session decoder = some shape ∧
        after.tree = session.tree.putAt (owner.address ++ [slot])
          ((Value.stringNode string).run session.next).1 ∧
        ∀ home binding,
          session.index.lookup ((session.index.known? decoder).getD scope) shape.array =
              some (home, binding) →
            ∃ strings, string ∈ strings ∧
              ∃ setting ∈ settingsTo analysedLate home shape.array, setting.Gives [] strings := by
  have passes : passesAfter (visitor 80) (initialSession analysedLate (State.initial [])) 10
      (resolvesNext 80) = true := by decide +kernel
  obtain ⟨frames, session, reached, resolves⟩ := exists_reached passes
  obtain ⟨owner, slot, rest, call, following, after, rfl, found, isCall, visits, resolved⟩ :=
    exists_of_resolvesNext resolves
  obtain ⟨scope, _, _, decoder, shape, string, _, _, _, isShape, replaced, backed⟩ :=
    recovered_from_direct_settings wellFormed_analysedLate reached found isCall visits resolved
  refine ⟨wellFormed_analysedLate, owner, slot, rest, session, call, following, after, reached, found,
    isCall, visits, resolved, scope, decoder, shape, string, isShape, replaced,
    fun home binding bound => ?_⟩
  obtain ⟨strings, member, given, _⟩ := backed home binding bound
  exact ⟨strings, member, given⟩

end Unravel.Pass.Strings
