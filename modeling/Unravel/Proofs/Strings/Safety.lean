import Unravel.Proofs.Simplification.Safety
import Unravel.Proofs.Strings.Steadiness

/-!
Contract: the pass that recovers strings does not fail.

The tables are `Kempt`: decoders are lawful, so that they can be analysed whenever
a call leads to them, and aliases lead to texts. A position that is read is within
the table. What is exchanged are calls, which no attribute asks for by kind.

The only option that is read as a number is the one for the rotation; it has to
stand for an integer (`Rotates`).
-/

namespace Unravel.Pass.Strings

open Walk Value

/-- The options give a number of places to rotate by. -/
def Rotates (options : Options) : Prop :=
  ∃ count, integerOf ((Members.get? options "array_rotation").getD (.ofInt rotation)) = .ok count

/-- The claim is about a lawful object, or leads to a text. -/
def Claim.Kempt : Claim → Prop
  | .function decoder => decoder.Lawful ∧ decoder.isObject = true
  | .alias target => target.text?.isSome = true
  | .array _ => True
  | .unknown _ => True

/-- The tables hold lawful objects, and aliases that lead to texts. -/
abbrev Kempt (tables : Tables) : Prop := tables.Hold fun _ _ claim => claim.Kempt

theorem kempt_empty : Kempt [] := .empty

variable {claim : Claim} {options : Options} {decoder : Value}

/-- What is asked of the state in any document. -/
structure Fit (_ : Document) (state : State) : Prop where
  rotates : Rotates state.options
  tables : Kempt state.tables

variable {cursor : Cursor} {session : Session State} {value : Value}

/-! ## Collection -/

theorem exists_restore (rotates : Rotates options) (target : Name) (values : List String) :
    ∃ restored, restore options target values = .ok restored := by
  obtain ⟨count, counted⟩ := rotates
  unfold restore
  dsimp only
  split
  · rw [counted]
    exact ⟨_, rfl⟩
  · exact ⟨_, rfl⟩

theorem exists_claimOf (rotates : Rotates options) (target : Name) (lawful : value.Lawful) :
    ∃ claim, claimOf options target value = .ok claim ∧ claim.Kempt := by
  unfold claimOf
  split
  · split
    · rename_i values _
      obtain ⟨restored, is⟩ := exists_restore rotates target values
      rw [is]
      exact ⟨_, rfl, trivial⟩
    · exact ⟨_, rfl, trivial⟩
  · split
    · rename_i isFunction
      obtain ⟨kind, _, isKind⟩ := exists_kind?_of_isFunction isFunction
      exact ⟨_, rfl, lawful, isObject_of_kind? isKind⟩
    · split
      · rename_i isIdentifier
        split
        · exact ⟨_, rfl, trivial⟩
        · exact ⟨_, rfl, lawful.name isIdentifier⟩
      · exact ⟨_, rfl, trivial⟩

theorem claimFault?_of_lawful (lawful : value.Lawful) : claimFault? value = none := by
  unfold claimFault?
  split
  · rename_i isArray
    have isList := lawful.holds "ArrayExpression" "elements" .list (by decide) isArray
    rw [anyIterationFault?, iterationFault?_of_isList isList, ite_self]
  · rfl

section Collection

variable (settled : Settled Fit session)

include settled

theorem safe_record (scope : Nat) (target : Name) (kempt : claim.Kempt) :
    Safe Fit (fun _ => True) (record scope target claim session) := by
  have records (before : Session State) (settled : Settled Fit before) :
      Safe Fit (fun _ => True) (WalkM.modifyState (fun state =>
        { state with tables := state.tables.update scope fun table => table.record target claim })
        before) :=
    ⟨trivial, settled.proper, settled.fit.rotates, settled.fit.tables.update fun _ _ => kempt⟩
  unfold record
  rw [WalkM.getState_bind]
  split
  · exact safe_log _ _ _ settled fun after _ settled => records after settled
  · exact records session settled

theorem safe_classify (scope : Nat) (target : Name) (lawful : value.Lawful) :
    Safe Fit (fun _ => True) (classify scope target value session) := by
  obtain ⟨claim, is, kempt⟩ := exists_claimOf settled.fit.rotates target lawful
  refine safe_check (claimFault?_of_lawful lawful) ?_
  rw [WalkM.getState_bind]
  rw [is]
  exact safe_record settled scope target kempt

theorem safe_withOwner {use : Nat → Name → WalkM State Unit} (lawful : value.Lawful) (is :
    value.isIdentifier) (scope : Option Nat) (each : ∀ owner target, Safe Fit (fun _ => True) (use
    owner target session)) : Safe Fit (fun _ => True) (withOwner value scope use session) := by
  unfold withOwner
  split
  · exact safe_pure settled trivial
  · refine safe_check (lawful.nameFault? is) ?_
    cases value.name? with
    | none => exact safe_pure settled trivial
    | some target => exact each _ target

theorem safe_collectDeclarator :
    Safe Fit (fun moved => moved.address = cursor.address) (collectDeclarator cursor session) := by
  have lawful := settled.lawful_nodeIn cursor
  unfold collectDeclarator
  rw [Cursor.node_bind]
  split
  · rename_i declares
    obtain ⟨isIdentifier, _⟩ := Bool.and_eq_true_iff.1 declares
    refine safe_bind (safe_withOwner settled (lawful.attr "id") isIdentifier _ fun _ _ =>
      safe_classify settled _ _ (lawful.attr "init")) fun _ _ _ settled => safe_pure settled rfl
  · exact safe_pure settled rfl

theorem safe_collectFunction (is : (cursor.nodeIn session).kind? = some "FunctionDeclaration") :
    Safe Fit (fun moved => moved.address = cursor.address) (collectFunction cursor session) := by
  have lawful := settled.lawful_nodeIn cursor
  have isObject := isObject_of_kind? is
  unfold collectFunction
  rw [Cursor.node_bind]
  split
  · rename_i named
    have isIdentifier := lawful.isIdentifier_id is named
    refine safe_check (if_pos (isObject_of_kind? (kind?_of_isKind isIdentifier))) ?_
    exact safe_bind (safe_withOwner settled (lawful.attr "id") isIdentifier _ fun _ _ =>
      safe_record settled _ _ ⟨lawful, isObject⟩) fun _ _ _ settled => safe_pure settled rfl
  · exact safe_pure settled rfl

theorem safe_collectAssignment :
    Safe Fit (fun moved => moved.address = cursor.address) (collectAssignment cursor session) := by
  have lawful := settled.lawful_nodeIn cursor
  unfold collectAssignment
  rw [Cursor.node_bind]
  split
  · rename_i isIdentifier
    refine safe_bind (safe_withOwner settled (lawful.attr "left") isIdentifier _ fun _ _ => ?_)
      fun _ _ _ settled => safe_pure settled rfl
    split
    · exact safe_classify settled _ _ (lawful.attr "right")
    · exact safe_record settled _ _ trivial
  · exact safe_pure settled rfl

end Collection

theorem harmless_collector : Harmless Fit collector :=
  acts_onEnter (fun _ _ settled _ => safe_collectDeclarator settled) <|
    acts_onEnter (fun _ _ settled is => safe_collectFunction settled is) <|
      acts_onEnter (fun _ _ settled _ => safe_collectAssignment settled) acts_nil

theorem safe_collect (limit : Nat) (settled : Settled Fit session)
    (isNode : (cursor.nodeIn session).isNode) :
    Safe Fit (fun moved => moved.address = cursor.address) (collect limit cursor session) := by
  refine safe_bind (safe_below harmless_collector limit isNode settled) ?_
  intro _ after _ settled
  rw [WalkM.getState_bind]
  exact safe_log _ _ _ settled fun _ _ settled => safe_pure settled rfl

/-! ## Analysis -/

section Analysis

variable (lawful : value.Lawful)

include lawful

theorem statementFault?_of_lawful : statementFault? value = none := by
  unfold statementFault?
  split
  · rename_i is
    have declarators := lawful.holds "VariableDeclaration" "declarations"
      (.listOf "VariableDeclarator") (by decide) is
    obtain ⟨isList, each⟩ := Bool.and_eq_true_iff.1 declarators
    dsimp only
    rw [iterationFault?_of_isList isList, Option.none_or, elements_of_isList isList,
      List.findSome?_eq_none_iff]
    intro declarator member
    have isDeclarator := List.all_eq_true.1 each declarator member
    exact if_pos (isObject_of_kind? (kind?_of_isKind isDeclarator))
  · rfl

theorem readFault?_of_lawful : readFault? value = none := by
  unfold readFault?
  split
  · rename_i reads
    obtain ⟨_, isIdentifier⟩ := Bool.and_eq_true_iff.1 reads
    exact keyFault?_of_isText ((lawful.attr "object").name isIdentifier)
  · rfl

theorem lawful_statementsOf : ∀ statement ∈ statementsOf value, statement.Lawful := by
  intro statement member
  unfold statementsOf at member
  dsimp only at member
  split at member
  · exact ((lawful.attr "body").attr "body").item member
  · cases member

theorem lawful_storedBy : ∀ stored ∈ storedBy value, stored.Lawful := by
  intro stored member
  unfold storedBy at member
  dsimp only at member
  split at member
  · split at member
    · cases List.mem_singleton.1 member
      exact (lawful.attr "expression").attr "right"
    · cases member
  · split at member
    · obtain ⟨declarator, isItem, rfl⟩ := List.mem_map.1 member
      exact ((lawful.attr "declarations").item isItem).attr "init"
    · cases member

theorem lawful_candidatesOf : ∀ candidate ∈ candidatesOf value, candidate.Lawful := by
  intro candidate member
  unfold candidatesOf at member
  dsimp only at member
  split at member
  · obtain ⟨statement, isStatement, reads⟩ := List.mem_flatMap.1 member
    have lawfulStatement := lawful_statementsOf lawful statement isStatement
    unfold readsOf at reads
    split at reads
    · cases List.mem_singleton.1 reads
      exact lawfulStatement.attr "argument"
    · exact lawful_storedBy lawfulStatement candidate reads
  · cases List.mem_singleton.1 member
    exact lawful.attr "body"

theorem analysisFault?_of_lawful (isObject : value.isObject) : analysisFault? value = none := by
  have statements : (statementsOf value).findSome? statementFault? = none :=
    List.findSome?_eq_none_iff.2 fun statement member =>
      statementFault?_of_lawful (lawful_statementsOf lawful statement member)
  have candidates : (candidatesOf value).findSome? readFault? = none :=
    List.findSome?_eq_none_iff.2 fun candidate member =>
      readFault?_of_lawful (lawful_candidatesOf lawful candidate member)
  unfold analysisFault?
  dsimp only
  rw [statements, candidates, attrFault?, if_pos isObject]
  split
  · rename_i isBlock
    rw [iterationFault?_of_isList ((lawful.attr "body").statements isBlock)]
    rfl
  · rfl

end Analysis

/-! ## Resolution -/

theorem isObject_current {recorded : Value} (isObject : recorded.isObject) :
    (session.current recorded).isObject := by
  rcases current_cases session recorded with is | ⟨label, _, is, _⟩
  · rwa [is]
  · exact Option.isSome_iff_exists.2 ⟨label, is⟩

theorem numberCallFault?_of_lawful (lawful : value.Lawful)
    (is : value.kind? = some "CallExpression") : numberCallFault? value = none := by
  unfold numberCallFault?
  rw [anyLengthFault?, lengthFault?, isSequence_of_isList (lawful.arguments is)]
  simp

theorem not_hinders (settled : Settled Fit session)
    (is : (cursor.nodeIn session).kind? = some "CallExpression") (fault : SortFault) :
    ¬ Hinders session (cursor.nodeIn session) fault := by
  have lawful := settled.lawful_nodeIn cursor
  rintro (isFault | ⟨calls, isFault⟩ | isFault | ⟨found, isFault⟩)
  · cases (numberCallFault?_of_lawful lawful is).symm.trans isFault
  · obtain ⟨rfl, isIdentifier⟩ := isIdentifier_of_numberCall? calls
    cases ((lawful.attr "callee").nameFault? isIdentifier).symm.trans isFault
  · have fine := aliasFault?_of_texts (fun _ _ _ _ is held => settled.fit.tables.aliases is held)
    cases (fine _ _ _).symm.trans isFault
  · obtain ⟨_, table, isTable, held⟩ := exists_entry_of_visibleAlong? found
    obtain ⟨lawful, isObject⟩ := settled.fit.tables.functions isTable held
    cases (analysisFault?_of_lawful (settled.lawful_current lawful)
      (isObject_current isObject)).symm.trans isFault

theorem safe_resolveCall (settled : Settled Fit session)
    (is : (cursor.nodeIn session).kind? = some "CallExpression") :
    Safe Fit (fun moved => moved.address = cursor.address) (resolveCall cursor session) := by
  have kept {after : Session State} (leaves : Leaves cursor session cursor after) :
      Settled Fit after := by
    constructor
    · rw [Session.document, leaves.tree, leaves.next]
      exact settled.proper
    · exact ⟨leaves.remembers.options ▸ settled.fit.rotates,
        leaves.remembers.tables ▸ settled.fit.tables⟩
  have resolves := resolveCall_resolves cursor session
  generalize resolveCall cursor session = outcome at resolves ⊢
  cases resolves with
  | fails hinders => exact absurd hinders (not_hinders settled is _)
  | leaves _ leaves => exact ⟨rfl, kept leaves⟩
  | puts _ leaves placing =>
    rw [Cursor.nodeIn, ← leaves.tree] at is
    exact placing.safe_of_unpinned (kept leaves) (fun _ fit => ⟨fit.rotates, fit.tables⟩)
      (fun _ => rfl) (builds_stringNode _) (draws_stringNode _) is (by decide) (by decide)

theorem harmless_visitor (limit : Nat) : Harmless Fit (visitor limit) :=
  acts_onEnter (fun _ _ settled is => safe_collect limit settled (isNode_of_kind? is)) <|
    acts_onEnter (fun _ _ settled is => safe_resolveCall settled is) acts_nil

end Unravel.Pass.Strings
