import Unravel.Proofs.Strings.Asides
import Unravel.Proofs.Strings.Recording
import Unravel.Proofs.Strings.Recovering

/-!
Contract: the actions of the pass keep its tables in order.

The collection records a name in the scope that binds it, or in the outermost
one (`owns_owningScope`); the resolution of calls leaves the tables alone. So
whatever session a walk of the pass comes to, each scope records only what it
binds, the outermost apart (`inOrder_of_reached`).
-/

namespace Unravel

namespace ScopeIndex

theorem chain_ne_nil (index : ScopeIndex) (number : Nat) : index.chain number ≠ [] := by
  unfold chain
  split <;> exact List.cons_ne_nil _ _

theorem outermost_suffix (index : ScopeIndex) (number : Nat) :
    [index.outermost number] <:+ index.chain number := by
  have filled := index.chain_ne_nil number
  rw [outermost, List.getLast?_eq_some_getLast filled]
  exact ⟨_, List.dropLast_append_getLast filled⟩

end ScopeIndex

namespace Pass.Strings

open Walk

variable {scope limit : Nat} {phase : Phase} {kind : String} {handler : Handler State}
  {target : Name}

/-- A name is recorded in a scope of the index that binds it or is outermost. -/
theorem owns_owningScope {index : ScopeIndex} (nested : index.Nested) (within : scope <
    index.scopes.length) (target : Name) : owningScope index scope target < index.scopes.length ∧
    ((index.own? (owningScope index scope target) target).isSome ∨ index.chain (owningScope index
    scope target) = [owningScope index scope target]) := by
  unfold owningScope
  split
  · rename_i owner binding found
    obtain ⟨member, own⟩ := ScopeIndex.own?_of_lookupAlong found
    exact ⟨nested.lt_of_mem_chain within member, .inl (by rw [own]; rfl)⟩
  · have suffix := index.outermost_suffix scope
    exact ⟨nested.lt_of_mem_chain within (suffix.subset List.mem_cons_self),
      .inr (nested.chain_of_suffix suffix)⟩

variable {session after : Session State} {cursor moved : Cursor} {result : Unit}

/-! ## Collection -/

/-- What a name is set to: a value, a function that is declared, or what a
compound assignment makes of it. What it is set to indirectly, in a pattern, by an
update or in the head of a loop, is not looked at. -/
inductive Gift where
  | value (value : Value)
  | function (node : Value)
  | compound
  | indirect

/-- What a gift makes of the name that it is given to. -/
def Gift.claim? (options : Options) (target : Name) : Gift → Option (Except Fault Claim)
  | .value given => some (claimOf options target given)
  | .function node => some (.ok (.function node))
  | .compound => some (.ok (.unknown .null))
  | .indirect => none

/-- A name that is set from a scope. -/
structure Setting where
  target : Name
  scope : Nat
  gift : Gift

def setting? (scope : Option Nat) (gift : Gift) (identifier : Value) : Option Setting :=
  scope.bind fun scope => identifier.name?.map fun target => ⟨target, scope, gift⟩

/-- The names in a target: those in a pattern are set indirectly. -/
def settingsOf (scope : Option Nat) (gift : Gift) (target : Value) : List Setting :=
  target.patternIdentifiers.filterMap
    (setting? scope (if target.isIdentifier then gift else .indirect))

def declaratorSettings (scope : Option Nat) (node : Value) : List Setting :=
  if (node.attr "init").isNull then []
  else settingsOf scope (.value (node.attr "init")) (node.attr "id")

def functionSettings (scope : Option Nat) (node : Value) : List Setting :=
  (Lexical.ownIdentifiers node).filterMap (setting? scope (.function node))

def assignmentSettings (scope : Option Nat) (node : Value) : List Setting := settingsOf scope (if
  node.hasText "operator" "=" then .value (node.attr "right") else .compound) (node.attr "left")

/-- The variables that a loop over names or values declares. -/
def loopVariables (node : Value) : List Value :=
  if (node.isKind "ForInStatement" || node.isKind "ForOfStatement") &&
      (node.attr "left").isKind "VariableDeclaration" then
    ((node.attr "left").attr "declarations").items.flatMap fun declarator =>
      (declarator.attr "id").patternIdentifiers
  else []

/-- What a node itself sets: in the scope around it if it declares a function,
else from the scope inside it. -/
def settingsAt (inner outer : Option Nat) (node : Value) : List Setting :=
  if node.isKind "VariableDeclarator" then declaratorSettings inner node
  else if node.isKind "FunctionDeclaration" then functionSettings outer node
  else if node.isKind "AssignmentExpression" then assignmentSettings inner node
  else (node.writtenIdentifiers ++ loopVariables node).filterMap (setting? inner .indirect)

/-- Files what is claimed of a name that is set. -/
def Tables.file (index : ScopeIndex) (options : Options) (tables : Tables) (setting : Setting) :
    Except Fault Tables :=
  match setting.gift.claim? options setting.target with
  | none => .ok tables
  | some claim => do
    let claim ← claim
    return tables.update (owningScope index setting.scope setting.target) fun table =>
      table.record setting.target claim

/-- What has been set has been filed, and nothing else has changed but the log. -/
def Files (settings : List Setting) (before after : Session State) : Prop := ∃ log tables,
  settings.foldlM (Tables.file before.index before.state.options) before.state.tables = .ok tables ∧
      after = { before with log := log, state := { before.state with tables := tables } }

variable {setting : Setting} {settings : List Setting} {index : ScopeIndex} {options : Options}
  {tables : Tables}

theorem of_mem_settings {scope : Option Nat} {gift : Gift} {identifiers : List Value}
    (member : setting ∈ identifiers.filterMap (setting? scope gift)) :
    scope = some setting.scope ∧ setting.gift = gift := by
  obtain ⟨identifier, _, is⟩ := List.mem_filterMap.1 member
  obtain ⟨number, inScope, is⟩ := Option.bind_eq_some_iff.1 is
  obtain ⟨target, _, rfl⟩ := Option.map_eq_some_iff.1 is
  exact ⟨inScope, rfl⟩

theorem Files.of_indirect (indirect : ∀ setting ∈ settings, setting.gift = .indirect) :
    Files settings session session := by
  refine ⟨session.log, _, ?_, rfl⟩
  induction settings with
  | nil => rfl
  | cons setting rest ih =>
    have same (tables : Tables) :
        tables.file session.index session.state.options setting = .ok tables := by
      rw [Tables.file, indirect setting List.mem_cons_self]
      rfl
    rw [List.foldlM_cons, same]
    exact ih fun other member => indirect other (List.mem_cons_of_mem _ member)

theorem file_eq_ok {after : Tables} (is : tables.file index options setting = .ok after) :
    setting.gift.claim? options setting.target = none ∧ after = tables ∨
      ∃ claim, setting.gift.claim? options setting.target = some (.ok claim) ∧
        after = tables.update (owningScope index setting.scope setting.target) fun table =>
          table.record setting.target claim := by
  unfold Tables.file at is
  split at is
  · rename_i silent
    cases is
    exact .inl ⟨silent, rfl⟩
  · rename_i claim claims
    cases claim with
    | error fault => cases is
    | ok claim =>
      cases is
      exact .inr ⟨claim, claims, rfl⟩

/-- What every claim that is filed keeps holds of the tables afterwards. -/
theorem file_induction {motive : Tables → Prop} {after : Tables}
    (each : ∀ setting ∈ settings, ∀ claim tables,
      setting.gift.claim? options setting.target = some (.ok claim) → motive tables →
        motive (tables.update (owningScope index setting.scope setting.target) fun table =>
          table.record setting.target claim))
    (start : motive tables)
    (ran : settings.foldlM (Tables.file index options) tables = .ok after) : motive after := by
  induction settings generalizing tables with
  | nil =>
    cases ran
    exact start
  | cons setting rest ih =>
    rw [List.foldlM_cons] at ran
    cases first : tables.file index options setting with
    | error fault =>
      rw [first] at ran
      cases ran
    | ok next =>
      rw [first] at ran
      refine ih (fun other member => each other (List.mem_cons_of_mem _ member)) ?_ ran
      rcases file_eq_ok first with ⟨_, rfl⟩ | ⟨claim, claims, rfl⟩
      · exact start
      · exact each setting List.mem_cons_self claim _ claims start

theorem record_eq_ok {claim : Claim} (ran : record scope target claim session = .ok result after) :
    ∃ log, after = { session with
      log := log
      state := { session.state with
        tables := session.state.tables.update scope fun table => table.record target claim } } := by
  obtain ⟨state, read, got, chooses⟩ := WalkM.bind_eq_ok.1 ran
  cases got
  split at chooses
  · obtain ⟨_, logged, hasLogged, records⟩ := WalkM.bind_eq_ok.1 chooses
    cases hasLogged
    cases records
    exact ⟨_, rfl⟩
  · cases chooses
    exact ⟨_, rfl⟩

theorem classify_eq_ok {value : Value} (ran : classify scope target value session = .ok result
    after) : ∃ claim, (Gift.value value).claim? session.state.options target = some (.ok claim) ∧
    record scope target claim session = .ok result after := by
  obtain ⟨_, checked, hasChecked, reads⟩ := WalkM.bind_eq_ok.1 ran
  obtain ⟨_, rfl⟩ := WalkM.check_eq_ok.1 hasChecked
  obtain ⟨state, read, got, chooses⟩ := WalkM.bind_eq_ok.1 reads
  cases got
  cases claims : claimOf checked.state.options target value with
  | ok claim =>
    simp only [claims] at chooses
    exact ⟨claim, congrArg some claims, chooses⟩
  | error fault =>
    simp only [claims] at chooses
    cases chooses

theorem withOwner_files {identifier : Value} {gift : Gift} {scope : Option Nat} {use : Nat → Name →
    WalkM State Unit} (each : ∀ owner target, use owner target session = .ok result after → ∃ claim,
    gift.claim? session.state.options target = some (.ok claim) ∧ record owner target claim session
    = .ok result after) (ran : withOwner identifier scope use session = .ok result after) : Files
    ([identifier].filterMap (setting? scope gift)) session after := by
  cases scope with
  | none =>
    cases ran
    exact .of_indirect nofun
  | some scope =>
    obtain ⟨_, checked, hasChecked, chooses⟩ := WalkM.bind_eq_ok.1 ran
    obtain ⟨_, rfl⟩ := WalkM.check_eq_ok.1 hasChecked
    cases named : identifier.name? with
    | none =>
      simp only [named] at chooses
      cases chooses
      simp only [List.filterMap_cons, setting?, named]
      exact .of_indirect nofun
    | some target =>
      simp only [named] at chooses
      obtain ⟨_, read, got, uses⟩ := WalkM.bind_eq_ok.1 chooses
      cases got
      obtain ⟨claim, claims, records⟩ := each _ _ uses
      obtain ⟨log, rfl⟩ := record_eq_ok records
      refine ⟨log, _, ?_, rfl⟩
      simp only [List.filterMap_cons, setting?, named, Option.bind_some, Option.map_some,
        List.foldlM_cons, Tables.file, claims]
      rfl

theorem settingsOf_identifier {target : Value} (is : target.isIdentifier) (scope : Option Nat)
    (gift : Gift) : settingsOf scope gift target = [target].filterMap (setting? scope gift) := by
  rw [settingsOf, Value.patternIdentifiers_eq, if_pos is, if_pos is]

theorem indirect_settingsOf {target : Value} (is : ¬target.isIdentifier) (scope : Option Nat)
    (gift : Gift) : ∀ setting ∈ settingsOf scope gift target, setting.gift = .indirect := by
  intro setting member
  rw [settingsOf, if_neg is] at member
  exact (of_mem_settings member).2

theorem collectDeclarator_eq_ok (ran : collectDeclarator cursor session = .ok moved after) :
    moved = cursor ∧
      Files (declaratorSettings cursor.scope (cursor.nodeIn session)) session after := by
  unfold collectDeclarator at ran
  rw [Cursor.node_bind] at ran
  unfold declaratorSettings
  split at ran
  · rename_i declares
    obtain ⟨isIdentifier, isSet⟩ := Bool.and_eq_true_iff.1 declares
    obtain ⟨_, classified, hasClassified, gives⟩ := WalkM.bind_eq_ok.1 ran
    cases gives
    rw [if_neg (by simpa using isSet), settingsOf_identifier isIdentifier]
    exact ⟨rfl, withOwner_files (fun _ _ classifies => classify_eq_ok classifies) hasClassified⟩
  · rename_i other
    cases ran
    refine ⟨rfl, .of_indirect ?_⟩
    split
    · nofun
    · rename_i isSet
      exact indirect_settingsOf (fun isIdentifier => other (by simp [isIdentifier, isSet])) _ _

theorem collectFunction_eq_ok (ran : collectFunction cursor session = .ok moved after) :
    moved = cursor ∧
      Files (functionSettings cursor.parentScope (cursor.nodeIn session)) session after := by
  unfold collectFunction at ran
  rw [Cursor.node_bind] at ran
  unfold functionSettings Lexical.ownIdentifiers
  split at ran
  · rename_i named
    obtain ⟨_, checked, hasChecked, records⟩ := WalkM.bind_eq_ok.1 ran
    obtain ⟨_, rfl⟩ := WalkM.check_eq_ok.1 hasChecked
    obtain ⟨_, done, hasDone, gives⟩ := WalkM.bind_eq_ok.1 records
    cases gives
    refine ⟨rfl, ?_⟩
    rw [if_neg (by simpa using named)]
    exact withOwner_files (fun _ _ adds => ⟨_, rfl, adds⟩) hasDone
  · rename_i unnamed
    cases ran
    rw [if_pos (by simpa using unnamed)]
    exact ⟨rfl, .of_indirect nofun⟩

theorem collectAssignment_eq_ok (ran : collectAssignment cursor session = .ok moved after) :
    moved = cursor ∧
      Files (assignmentSettings cursor.scope (cursor.nodeIn session)) session after := by
  unfold collectAssignment at ran
  rw [Cursor.node_bind] at ran
  unfold assignmentSettings
  split at ran
  · rename_i isIdentifier
    obtain ⟨_, done, hasDone, gives⟩ := WalkM.bind_eq_ok.1 ran
    cases gives
    rw [settingsOf_identifier isIdentifier]
    refine ⟨rfl, withOwner_files (fun owner target adds => ?_) hasDone⟩
    split at adds
    · rename_i plain
      rw [if_pos plain]
      exact classify_eq_ok adds
    · rename_i compound
      rw [if_neg compound]
      exact ⟨_, rfl, adds⟩
  · rename_i other
    cases ran
    exact ⟨rfl, .of_indirect (indirect_settingsOf other _ _)⟩

/-- The tables of a session record what is bound. -/
abbrev InOrder (session : Session State) : Prop := Recorded session.index session.state.tables

/-- Claims are filed where their names are bound, or outermost. -/
theorem Files.collects {scope : Option Nat} (files : Files settings session after) (nested :
    session.index.Nested) (has : session.index.Has scope) (each : ∀ setting ∈ settings, scope = some
    setting.scope) (recorded : InOrder session) : after.index = session.index ∧ InOrder after := by
  obtain ⟨log, tables, filed, rfl⟩ := files
  refine ⟨rfl, file_induction (fun setting member claim tables _ recorded => ?_) recorded filed⟩
  obtain ⟨within, owns⟩ := owns_owningScope nested (has _ (each setting member)) setting.target
  refine recorded.update fun other same => ⟨within, ?_⟩
  rwa [← ScopeIndex.own?_congr _ _ (Name.same_iff.1 same)]

theorem collects_of_handler (member : handler ∈ collector.handlersFor phase kind)
    (nested : session.index.Nested) (within : cursor.Within session.index)
    (recorded : InOrder session) (ran : handler cursor session = .ok moved after) :
    moved = cursor ∧ after.index = session.index ∧ InOrder after := by
  rcases mem_handlersFor_collector member with ⟨_, rfl⟩ | ⟨_, rfl⟩ | ⟨_, rfl⟩
  · obtain ⟨rfl, files⟩ := collectDeclarator_eq_ok ran
    refine ⟨rfl, files.collects nested within.scope (fun setting member => ?_) recorded⟩
    unfold declaratorSettings at member
    split at member
    · cases member
    · exact (of_mem_settings member).1
  · obtain ⟨rfl, files⟩ := collectFunction_eq_ok ran
    exact ⟨rfl, files.collects nested within.parentScope
      (fun setting member => (of_mem_settings member).1) recorded⟩
  · obtain ⟨rfl, files⟩ := collectAssignment_eq_ok ran
    exact ⟨rfl, files.collects nested within.scope
      (fun setting member => (of_mem_settings member).1) recorded⟩

theorem outlives_recorded :
    Outlives fun index (state : State) => Recorded index state.tables :=
  fun _ _ _ _ grows recorded => recorded.grows grows

theorem collect_places (limit : Nat) :
    Handler.Places (collect limit) fun index state => Recorded index state.tables := by
  intro cursor session moved after nested within recorded ran
  obtain ⟨_, walked, hasWalked, logs⟩ := WalkM.bind_eq_ok.1 ran
  cases logs
  have each : ∀ phase kind, ∀ handler ∈ collector.handlersFor phase kind,
      Handler.Places handler fun index state => Recorded index state.tables := by
    rintro phase kind handler member cursor reached moved after nested within recorded acts
    obtain ⟨rfl, sameIndex, kept⟩ := collects_of_handler member nested within recorded acts
    exact ⟨⟨sameIndex ▸ .refl _, sameIndex ▸ nested⟩, sameIndex ▸ within, kept⟩
  obtain ⟨⟨grows, nestedThen⟩, kept⟩ :=
    below_places outlives_recorded each nested within recorded hasWalked
  exact ⟨⟨grows, nestedThen⟩, within.grows grows, kept⟩

/-! ## Resolution -/

theorem Remembers.evolves (remembers : Remembers session after) (nested : session.index.Nested) :
    session.Evolves after := by
  constructor <;> rw [remembers.index]
  · exact .refl _
  · exact nested

theorem resolveCall_places (holds : ScopeIndex → Tables → Prop) :
    Handler.Places resolveCall fun index state => holds index state.tables := by
  intro cursor session moved after nested within kept ran
  have remembered (remembers : Remembers session after) :
      session.Evolves after ∧ holds after.index after.state.tables := by
    refine ⟨remembers.evolves nested, ?_⟩
    rw [remembers.index, remembers.tables]
    exact kept
  have done := resolveCall_eq_ok ran
  split at done
  · obtain ⟨evolves, kept⟩ := remembered done.remembers
    rw [done.moved]
    exact ⟨evolves, within.grows evolves.grows, kept⟩
  · rename_i string _
    obtain ⟨evolves, kept⟩ := remembered done.remembers
    refine ⟨evolves, .grows ⟨?_, ?_⟩ evolves.grows, kept⟩
    · rw [done.scope]
      have hasKnown := WalkM.has_known? nested ((Value.stringNode string).run session.next).1
      cases isKnown : session.index.known? ((Value.stringNode string).run session.next).1 with
      | none => exact within.parentScope
      | some number =>
        rw [isKnown] at hasKnown
        exact hasKnown
    · rw [done.parentScope]
      exact within.parentScope

theorem mem_handlersFor_visitor (member : handler ∈ (visitor limit).handlersFor phase kind) :
    handler = collect limit ∨ handler = resolveCall := by
  simp only [visitor, Visitor.mem_handlersFor_onEnter] at member
  exact member.imp (·.2.2) fun last => last.elim (·.2.2) nofun

/-- In every session that a walk of the pass comes to, the scopes are nested and
the tables are in order. -/
theorem inOrder_of_reached {document : Document} {options : Options} {frames : List Frame}
    (reached : Reached (visitor limit) (initialSession document (State.initial options)) frames
      session) : Placed frames session ∧ InOrder session := by
  refine reached.placed outlives_recorded ?_ ?_
  · intro phase kind handler member
    rcases mem_handlersFor_visitor member with rfl | rfl
    · exact collect_places limit
    · exact resolveCall_places Recorded
  · exact .empty

end Pass.Strings

end Unravel
