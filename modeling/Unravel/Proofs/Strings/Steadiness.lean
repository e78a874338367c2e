import Unravel.Proofs.Strings.Analysis
import Unravel.Proofs.Strings.Gathering

/-!
Contract: what calls stand for does not change while calls are resolved.

`judged?` is the string that a call stands for in the program as it was read: the
tables are those that were collected, and the shape of a decoder is read off the
decoder as it was collected. In every session that differs from the start by
strings in the place of calls and by remembered shapes (`Steady`), a call stands
for what it is judged to stand for (`Steady.recovery?`), and resolving it keeps
the session so (`Steady.exists_resolveCall`).
-/

namespace Unravel.Pass.Strings

open Value Walk

/-- The string that a node stands for, if it is a call that has one: the call,
the tables and the decoder are those of the program as it was read. -/
def judged? (index : ScopeIndex) (tables : Tables) (scope : Nat) (node : Value) : Option String :=
  if node.isKind "CallExpression" then
    (namedCall? node).bind fun call =>
      (decoderOf? index tables scope call.1).bind fun decoder =>
        (analyze decoder).bind fun shape => stringAt? index tables scope decoder shape call.2
  else none

/-! ## Sessions in which nothing has changed but strings -/

/-- The session has strings in the place of some calls of a program; its scopes
and tables are given, and the shapes that it remembers are those of the decoders
as they were. -/
structure Steady (document : Document) (tables : Tables) (session : Session State) : Prop where
  index : session.index = .build document.tree
  tables : session.state.tables = tables
  tree : Abridged document.next document.tree session.tree
  next : document.next ≤ session.next
  shapes : ∀ decoder ∈ document.tree.nodes, decoder.isFunction = true → ∀ shape,
    session.state.shapes.lookup (decoder.label?.getD 0) = some shape → shape = analyze decoder

variable {tables : Tables}

theorem exists_entry_of_visibleAlong? {α : Type} {index : ScopeIndex} {entry : ScopeTable → Option
    α} {name : Name} {chain : List Nat} {found : α} (is : visibleAlong? index tables entry name
    chain = some found) : ∃ scope table, tables.at? scope = some table ∧ entry table = some found
    := by
  induction chain with
  | nil => cases is
  | cons scope rest ih =>
    rw [visibleAlong?] at is
    split at is
    · rename_i held
      cases is
      obtain ⟨table, isTable, entered⟩ := Option.bind_eq_some_iff.1 held
      exact ⟨scope, table, isTable, entered⟩
    · split at is
      · cases is
      · exact ih is

theorem aliasFault?_of_texts (texts : ∀ ⦃scope table name target⦄, tables.at? scope = some table →
    Names.get? table.aliases name = some target → target.text?.isSome) (index : ScopeIndex) (scope :
    Nat) (name : Name) : aliasFault? index tables scope name = none := by
  unfold aliasFault? visibleTarget?
  cases found : visibleAlong? index tables (fun table => Names.get? table.aliases (resolveAlias
      index tables scope name)) (resolveAlias index tables scope name) (index.chain scope) with
  | none => rfl
  | some target =>
    obtain ⟨_, table, isTable, held⟩ := exists_entry_of_visibleAlong? found
    have isText := texts isTable held
    cases target <;> first | rfl | cases isText

section

variable {document : Document} {tables : Tables} {session after : Session State}
  {cursor moved : Cursor} {decoder node : Value} {scope : Nat} {name : Name}
  (wellFormed : document.WellFormed) (drawn : Drawn document.tree tables)
  (steady : Steady document tables session)

include drawn in
theorem Drawn.findDecoder? {index : ScopeIndex}
    (found : Strings.findDecoder? index tables scope name = some decoder) :
    decoder ∈ document.tree.nodes ∧ decoder.isFunction := by
  obtain ⟨_, table, isTable, held⟩ := exists_entry_of_visibleAlong? found
  exact drawn.functions isTable held

include wellFormed

theorem eq_of_label (member : decoder ∈ document.tree.nodes) (other : node ∈ document.tree.nodes)
    (decoderNode : decoder.isFunction) (isNode : node.isFunction)
    (same : decoder.label?.getD 0 = node.label?.getD 0) : decoder = node := by
  have isObject {value : Value} (isFunction : value.isFunction) : value.isObject := by
    obtain ⟨kind, _, isKind⟩ := exists_kind?_of_isFunction isFunction
    exact isObject_of_kind? isKind
  obtain ⟨label, isLabel⟩ := Option.isSome_iff_exists.1 (isObject decoderNode)
  obtain ⟨otherLabel, isOther⟩ := Option.isSome_iff_exists.1 (isObject isNode)
  rw [isLabel, isOther] at same
  refine eq_of_label? wellFormed.distinct
    (mem_objects_of_node member (mem_objects_self (isObject decoderNode)))
    (mem_objects_of_node other (mem_objects_self (isObject isNode))) ?_
  rw [isLabel, isOther]
  exact congrArg some same

include steady

theorem Steady.current (member : decoder ∈ document.tree.nodes) :
    Kept document.next decoder (session.current decoder) := by
  refine ⟨?_, wellFormed.tree.sound member⟩
  rcases current_cases session decoder with is | ⟨label, isLabel, same, isObject⟩
  · rw [is]
    exact abridged_refl _ _
  · have original := mem_objects_of_node member (mem_objects_self (by simp [Value.isObject, isLabel]))
    obtain ⟨object, among, isObject, abridged⟩ := steady.tree.exists_object
      (wellFormed.used label (mem_labels.2 ⟨decoder, original, isLabel⟩)) isObject same
    rwa [eq_of_label? wellFormed.distinct among original (isObject.trans isLabel.symm)] at abridged

theorem Steady.shapeIn? (member : decoder ∈ document.tree.nodes)
    (isFunction : decoder.isFunction) : shapeIn? session decoder = analyze decoder := by
  unfold Strings.shapeIn?
  cases remembered : session.state.shapes.lookup (decoder.label?.getD 0) with
  | some shape => exact steady.shapes decoder member isFunction shape remembered
  | none => exact analyze_abridged (steady.current wellFormed member) isFunction

include drawn

theorem Steady.recovery? (isCall : node.isKind "CallExpression") :
    recovery? session scope node = judged? (.build document.tree) tables scope node := by
  unfold Strings.recovery? judged? recoveryOf?
  rw [if_pos isCall, steady.index, steady.tables]
  cases namedCall? node with
  | none => rfl
  | some call =>
    rw [Option.bind_some, Option.bind_some]
    cases found : decoderOf? (.build document.tree) tables scope call.1 with
    | none => rfl
    | some decoder =>
      obtain ⟨member, isFunction⟩ := drawn.findDecoder? found
      rw [Option.bind_some, Option.bind_some, steady.shapeIn? wellFormed member isFunction]

theorem Steady.remembers (remembers : Remembers session after)
    (tree : Abridged document.next document.tree after.tree) (next : document.next ≤ after.next) :
    Steady document tables after := by
  refine ⟨remembers.index.trans steady.index, remembers.tables.trans steady.tables, tree, next, ?_⟩
  intro function member isFunction shape known
  rcases remembers.shapes with same | ⟨scope, name, decoder, found, added⟩
  · rw [same] at known
    exact steady.shapes function member isFunction shape known
  · rw [steady.tables] at found
    obtain ⟨isIn, decoderFunction⟩ := drawn.findDecoder? found
    rw [added, lookup_cons_ite] at known
    split at known
    · rename_i same
      cases known
      rw [eq_of_label wellFormed member isIn isFunction decoderFunction same]
      exact analyze_abridged (steady.current wellFormed isIn) decoderFunction
    · exact steady.shapes function member isFunction shape known

/-! ## Resolving a call succeeds -/

omit drawn in
theorem Steady.analysisFault? (member : decoder ∈ document.tree.nodes)
    (isFunction : decoder.isFunction) : Strings.analysisFault? (session.current decoder) = none := by
  apply analysisFault?_abridged (steady.current wellFormed member) isFunction
  intro isBlock
  obtain ⟨kind, listed, isKind⟩ := exists_kind?_of_isFunction isFunction
  have body := mem_children_of_attr (body_mem_childFields isKind (List.mem_cons_of_mem _ listed))
    (isNode_of_kind? (kind?_of_isKind isBlock))
  exact (wellFormed.listed _ (mem_nodes_trans member
    (mem_nodes_of_child body (mem_nodes_self _)))).statements isBlock

theorem Steady.not_hinders (member : node ∈ document.tree.nodes)
    (isCall : node.isKind "CallExpression") (fault : SortFault) : ¬ Hinders session node fault := by
  rintro (isFault | ⟨calls, isFault⟩ | isFault | ⟨found, isFault⟩)
  · have isList := (wellFormed.listed node member).arguments isCall
    unfold numberCallFault? at isFault
    split at isFault
    · cases held : node.attr "arguments" with
      | list items => rw [held] at isFault; cases items <;> cases isFault
      | _ => rw [held] at isList; cases isList
    · cases isFault
  · obtain ⟨rfl, isIdentifier⟩ := isIdentifier_of_numberCall? calls
    have fine := ((wellFormed.tree.sound member).attr isCall rfl (by decide)).nameFault?
      isIdentifier
    cases fine.symm.trans isFault
  · rw [steady.tables] at isFault
    have fine := aliasFault?_of_texts (fun _ _ _ _ is held => drawn.aliases is held)
    cases (fine _ _ _).symm.trans isFault
  · rw [steady.tables] at found
    obtain ⟨isIn, isFunction⟩ := drawn.findDecoder? found
    cases (steady.analysisFault? wellFormed isIn isFunction).symm.trans isFault

theorem Steady.resolveCall_ok (below : cursor.address ≠ [])
    (member : node ∈ document.tree.nodes) (isCall : node.isKind "CallExpression")
    (here : cursor.nodeIn session = node) :
    ∃ moved after, resolveCall cursor session = .ok moved after := by
  have resolves := resolveCall_resolves cursor session
  generalize resolveCall cursor session = outcome at resolves ⊢
  cases resolves with
  | fails hinders =>
    exact absurd (here ▸ hinders) (steady.not_hinders wellFormed drawn member isCall _)
  | leaves => exact ⟨_, _, rfl⟩
  | puts _ leaves placing =>
    obtain ⟨moved, after, is, _⟩ := placing.exists_puts rfl below
    exact ⟨moved, after, is⟩

/-- A call of the program becomes the string that it is judged to stand for, if
any, and the session stays as steady as it was. -/
theorem Steady.exists_resolveCall (below : cursor.address ≠ [])
    (member : node ∈ document.tree.nodes) (isCall : node.isKind "CallExpression")
    (here : session.tree.at? cursor.address = some node) :
    ∃ moved after, resolveCall cursor session = .ok moved after ∧ Steady document tables after ∧
      match cursor.scope.bind fun scope =>
          judged? (.build document.tree) tables scope node with
      | none => Leaves cursor session moved after
      | some string => Recovers string cursor session moved after := by
  have isHere : cursor.nodeIn session = node := by rw [Cursor.nodeIn, here, Option.getD_some]
  obtain ⟨moved, after, ran⟩ := steady.resolveCall_ok wellFormed drawn below member isCall isHere
  have done := resolveCall_eq_ok ran
  have judgement : (cursor.scope.bind fun scope => Strings.recovery? session scope node) =
      cursor.scope.bind fun scope => judged? (.build document.tree) tables scope node := by
    cases cursor.scope with
    | none => rfl
    | some scope => exact steady.recovery? wellFormed drawn isCall
  rw [isHere, judgement] at done
  refine ⟨moved, after, ran, ?_, done⟩
  split at done
  · exact steady.remembers wellFormed drawn done.remembers (done.tree ▸ steady.tree)
      (done.next ▸ steady.next)
  · refine steady.remembers wellFormed drawn done.remembers ?_ ?_
    · rw [done.tree]
      exact steady.tree.putAt here isCall steady.next _
    · rw [done.next]
      exact Nat.le_trans steady.next (Nat.le_succ _)

end

end Unravel.Pass.Strings
