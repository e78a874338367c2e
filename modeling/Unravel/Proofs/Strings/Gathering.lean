import Unravel.Proofs.Strings.Upkeep
import Unravel.Proofs.Tree.Labels
import Unravel.Proofs.Walk.Opening

/-!
Contract: what is collected from a well-formed program.

The decoders in the tables are functions of the program as it was read, and the
targets of aliases are texts (`Drawn`). The collection adds nothing to the scope
index, which knows all scopes of the program from the start.
-/

namespace Unravel

/-- Arguments and the statements of a block are lists. -/
structure Value.Listed (node : Value) : Prop where
  arguments : node.isKind "CallExpression" = true → (node.attr "arguments").isList = true
  statements : node.isKind "BlockStatement" = true → (node.attr "body").isList = true

instance : DecidablePred Value.Listed := fun _ =>
  decidable_of_iff (_ ∧ _)
    ⟨fun ⟨arguments, statements⟩ => ⟨arguments, statements⟩,
     fun listed => ⟨listed.arguments, listed.statements⟩⟩

/-- A well-formed program as it has been read: attribute names do not repeat,
each object has a label of its own, and no program stands in another. -/
structure Document.WellFormed (document : Document) : Prop where
  tree : document.tree.WellFormed
  listed : ∀ node ∈ document.tree.nodes, node.Listed
  names : ∀ node ∈ document.tree.nodes, (Members.names node.fields).Nodup
  distinct : document.tree.labels.Nodup
  used : ∀ label ∈ document.tree.labels, label < document.next
  single : document.tree.Within Value.notProgram

/-! ## Scopes -/

namespace Document.WellFormed

variable {σ : Type} {document : Document} (wellFormed : document.WellFormed)

include wellFormed

theorem isNode : document.tree.isNode :=
  Value.isNode_of_kind? (Value.kind?_of_isKind wellFormed.tree.program)

theorem createsScope : document.tree.createsScope := by
  rw [Value.createsScope, Value.scopeKind?, Value.kind?_of_isKind wellFormed.tree.program]
  rfl

theorem exists_approach (state : σ) : ∃ scope log, Walk.approach (Walk.initialSession document
    state) = .ok ⟨[], scope, none, false⟩ ⟨document.tree, document.next, .build document.tree, log,
    state⟩ ∧ scope = (ScopeIndex.build document.tree).known? document.tree := by
  refine ⟨_, ((Walk.initialSession document state).surveyed document.tree none).log, ?_, rfl⟩
  rw [Walk.approach_apply, show (Walk.initialSession document state).tree = document.tree from rfl,
    wellFormed.tree.surveyFault?]
  rw [Walk.scopeOf_of_build wellFormed.createsScope (Value.mem_nodes_self _) none rfl, Option.or_none]
  rfl

end Document.WellFormed

namespace Pass.Strings

open Value Walk

/-! ## Tables -/

/-- The claim is about a function of a tree, or leads to a text. -/
def Claim.Drawn (tree : Value) : Claim → Prop
  | .function decoder => decoder ∈ tree.nodes ∧ decoder.isFunction = true
  | .alias target => target.text?.isSome = true
  | .array _ => True
  | .unknown _ => True

/-- The tables hold functions of a tree, and aliases that lead to texts. -/
abbrev Drawn (tree : Value) (tables : Tables) : Prop :=
  tables.Hold fun _ _ claim => claim.Drawn tree

variable {claim : Claim} {tree : Value}

variable {value : Value} {options : Options}

theorem claimOf_drawn {target : Name} (member : value.isNode → value ∈ tree.nodes) (sound :
    value.Sound) (is : claimOf options target value = .ok claim) : claim.Drawn tree := by
  unfold claimOf at is
  split at is
  · split at is
    · cases restored : restore options target _ with
      | error fault =>
        rw [restored] at is
        cases is
      | ok strings =>
        rw [restored] at is
        cases is
        trivial
    · cases is
      trivial
  · split at is
    · rename_i isFunction
      cases is
      obtain ⟨kind, _, isKind⟩ := exists_kind?_of_isFunction isFunction
      exact ⟨member (isNode_of_kind? isKind), isFunction⟩
    · split at is
      · rename_i isIdentifier
        split at is
        · cases is
          trivial
        · cases is
          exact (sound.shaped isIdentifier).name isIdentifier
      · cases is
        trivial

/-! ## The collection ends -/

theorem reads_collector : collector.Reads := by
  constructor
  · intro phase kind handler member cursor
    exact fixes_collector ⟨fun _ _ _ => rfl, fun _ _ => rfl⟩ member cursor
  · intro phase kind handler member cursor session moved after ran
    rcases mem_handlersFor_collector member with ⟨_, rfl⟩ | ⟨_, rfl⟩ | ⟨_, rfl⟩
    · rw [(collectDeclarator_eq_ok ran).1]
    · rw [(collectFunction_eq_ok ran).1]
    · rw [(collectAssignment_eq_ok ran).1]

/-! ## The collection over a program -/

/-- What holds of a session while a program is collected. -/
structure Gathered (document : Document) (session : Session State) : Prop where
  index : session.index = .build document.tree
  next : session.next = document.next
  shapes : session.state.shapes = []
  drawn : Drawn document.tree session.state.tables

variable {document : Document} {session after : Session State} {cursor : Cursor}

theorem Files.gathered {settings : List Setting} (files : Files settings session after) (gathered :
    Gathered document session) (each : ∀ setting ∈ settings, ∀ claim, setting.gift.claim?
    session.state.options setting.target = some (.ok claim) → claim.Drawn document.tree) : Gathered
    document after := by
  obtain ⟨log, tables, filed, rfl⟩ := files
  refine ⟨gathered.index, gathered.next, gathered.shapes, file_induction ?_ gathered.drawn filed⟩
  intro setting member claim _ claims drawn
  exact drawn.update fun _ _ => each setting member claim claims

theorem settingsOf_drawn {target : Value} {scope : Option Nat} {gift : Gift} {setting : Setting}
    (member : value.isNode → value ∈ tree.nodes) (sound : value.Sound) (given : gift = .value value
    ∨ gift = .compound) (isIn : setting ∈ settingsOf scope gift target) (claims :
    setting.gift.claim? options setting.target = some (.ok claim)) : claim.Drawn tree := by
  rw [(of_mem_settings isIn).2] at claims
  split at claims
  · rcases given with rfl | rfl
    · exact claimOf_drawn member sound (Option.some.inj claims)
    · cases claims
      trivial
  · cases claims

theorem maintains_gathered (wellFormed : document.WellFormed) :
    Maintains collector document.tree (Gathered document) := by
  intro phase kind handler member cursor session moved after same gathered isIn is ran
  have sound := wellFormed.tree.sound isIn
  have held {name : String} {names : List String}
      (listed : Members.get? childTable kind = some names) (among : name ∈ names)
      (isNode : ((cursor.nodeIn session).attr name).isNode) :
      (cursor.nodeIn session).attr name ∈ document.tree.nodes :=
    mem_nodes_trans isIn (mem_nodes_of_child (mem_children_of_attr
      (mem_childFields (beq_iff_eq.2 is) listed among) isNode) (mem_nodes_self _))
  have keepsTree := (reads_collector.keeps member ran).1.trans same
  rcases mem_handlersFor_collector member with ⟨rfl, rfl⟩ | ⟨rfl, rfl⟩ | ⟨rfl, rfl⟩
  · obtain ⟨rfl, files⟩ := collectDeclarator_eq_ok ran
    refine ⟨rfl, keepsTree, files.gathered gathered fun setting isSet claim claims => ?_⟩
    unfold declaratorSettings at isSet
    split at isSet
    · cases isSet
    · exact settingsOf_drawn (held rfl (by decide))
        (sound.attr (beq_iff_eq.2 is) rfl (by decide)) (.inl rfl) isSet claims
  · obtain ⟨rfl, files⟩ := collectFunction_eq_ok ran
    refine ⟨rfl, keepsTree, files.gathered gathered fun setting isSet claim claims => ?_⟩
    rw [(of_mem_settings isSet).2] at claims
    cases claims
    refine ⟨isIn, ?_⟩
    rw [isFunction, is]
    rfl
  · obtain ⟨rfl, files⟩ := collectAssignment_eq_ok ran
    refine ⟨rfl, keepsTree, files.gathered gathered fun setting isSet claim claims => ?_⟩
    have soundRight : ((moved.nodeIn session).attr "right").Sound :=
      sound.attr (beq_iff_eq.2 is) rfl (by decide)
    refine settingsOf_drawn (held rfl (by decide)) soundRight ?_ isSet claims
    split
    · exact .inl rfl
    · exact .inr rfl

theorem gathered_of_below (wellFormed : document.WellFormed) {limit : Nat} {result : Unit} (atRoot :
    cursor.address = []) (same : session.tree = document.tree) (gathered : Gathered document
    session) (ran : below limit collector cursor session = .ok result after) : after.tree =
    document.tree ∧ Gathered document after := below_stays wellFormed.createsScope (fun _ gathered
    => gathered.index) (maintains_gathered wellFormed) atRoot same gathered ran

end Pass.Strings

end Unravel
