import Unravel.Proofs.Inlining.Faults
import Unravel.Proofs.Simplification.Safety

/-!
Contract: the pass that replaces calls of helpers does not fail.

What is put in the place of a call is made of new objects and of such as a function
had when it was collected, and it may be that these are no longer in the tree. So
labels have to tell objects apart in the tree and all functions together (`Fit`).
A function is then a helper as it is now, too, whatever has been replaced in it since.
-/

namespace Unravel.Pass.Inlining

open Walk Value

/-- The objects of the tree and of the functions that were collected. -/
def stock (document : Document) (state : State) : Document where
  tree := .list (document.tree :: state.functions.map Prod.snd)
  next := document.next

/-- The functions are helpers, and labels tell the objects of the stock apart. -/
structure Fit (document : Document) (state : State) : Prop where
  helpers : ∀ entry ∈ state.functions, Helper entry.2
  labelled : (stock document state).Labelled

variable {document : Document} {state : State} {object : Value}

theorem mem_stock : object ∈ (stock document state).tree.objects ↔
    object ∈ document.tree.objects ∨ ∃ entry ∈ state.functions, object ∈ entry.2.objects := by
  simp only [stock, objects_list, List.flatMap_cons, List.mem_append, List.flatMap_map,
    List.mem_flatMap]

variable {cursor : Cursor} {session : Session State} {function : Value} {target : Name}

theorem mem_stock_current (member : (target, function) ∈ session.state.functions)
    (inside : object ∈ (session.current function).objects) :
    object ∈ (stock session.document session.state).tree.objects := by
  rw [mem_stock]
  rcases current_cases session function with now | ⟨_, _, _, inTree⟩
  · exact .inr ⟨_, member, now ▸ inside⟩
  · exact .inl (mem_objects_trans inTree inside)

theorem helper_current (settled : Settled Fit session)
    (member : (target, function) ∈ session.state.functions) :
    Helper (session.current function) := by
  have helper := settled.fit.helpers _ member
  refine ⟨settled.lawful_current helper.lawful, ?_⟩
  rcases current_cases session function with now | ⟨label, own, now, inTree⟩
  · rw [now]
    exact helper.kind
  · have same := settled.fit.labelled.told _ (mem_stock.2 (.inl inTree)) _
      (mem_stock.2 (.inr ⟨_, member, mem_objects_self helper.isObject⟩)) (now.trans own.symm)
    simpa only [isKind, same] using helper.kind

/-! ## Collection -/

/-- A node of a lawful tree that gives a function has a name to give it. -/
theorem Offers.helper {node : Value} {kind : String} (offers : Offers node kind function)
    (lawful : node.Lawful) (is : node.kind? = some kind) :
    Helper function ∧ (node.attr "id").isIdentifier ∧ function ∈ node.objects := by
  cases offers with
  | declaration named =>
    exact ⟨⟨lawful, .inl (beq_iff_eq.2 is)⟩, lawful.isIdentifier_id is named,
      mem_objects_self (isObject_of_kind? is)⟩
  | declarator named isFunction =>
    have helper : Helper (node.attr "init") := ⟨lawful.attr "init", .inr isFunction⟩
    exact ⟨helper, named, mem_objects_of_attr (mem_objects_self helper.isObject)⟩

theorem harmless_collector : Harmless Fit collector := by
  intro phase kind handler member cursor session settled is
  have lawful := settled.lawful_nodeIn cursor
  have gathers := gathers_of_handler member cursor session
  generalize handler cursor session = outcome at gathers ⊢
  cases gathers with
  | fails offers isFault =>
    have isIdentifier := (offers.helper lawful is).2.1
    cases ((lawful.attr "id").nameFault? isIdentifier).symm.trans isFault
  | leaves => exact ⟨rfl, settled⟩
  | adds target offers =>
    obtain ⟨helper, _, within⟩ := offers.helper lawful is
    refine ⟨rfl, settled.proper, fun entry member => ?_, ?_⟩
    · rcases Names.mem_put member with was | isNew
      · exact settled.fit.helpers entry was
      · exact isNew ▸ helper
    · refine settled.fit.labelled.mono fun object inside => ?_
      rw [mem_stock]
      rcases mem_stock.1 inside with inTree | ⟨entry, member, inEntry⟩
      · exact .inl inTree
      · rcases Names.mem_put member with was | isNew
        · exact .inr ⟨entry, was, inEntry⟩
        · exact .inl (mem_objects_nodeIn (mem_objects_trans within (isNew ▸ inEntry)))

/-! ## Replacements -/

theorem mem_objects_of_returned (inside : object ∈ (returned function).objects) :
    object ∈ function.objects := by
  unfold returned at inside
  split at inside
  · rename_i statement rest found
    have isItem : statement ∈ ((function.attr "body").attr "body").items := by
      rw [found]
      exact List.mem_cons_self
    exact mem_objects_of_attr (mem_objects_of_attr (mem_objects_of_item isItem
      (mem_objects_of_attr inside)))
  · cases inside

/-- What is remade of objects of a document is supplied for it. -/
theorem supplies_of_remade {source new : Value} {last : Nat} (lawful : new.Lawful)
    (remade : source.Remade new document.next last)
    (within : ∀ object ∈ source.objects, object ∈ document.tree.objects) :
    document.Supplies new last where
  most := remade.most
  lawful := lawful
  objects object member :=
    (remade.objects object member).imp_left fun shared => Document.has_of_mem (within object shared)
  told first isFirst second isSecond label is same drawn := by
    rw [eq_of_count_labels (remade.once label drawn) isFirst isSecond is same]

/-- Labels tell the objects of the stock apart after something has been written that was
made of it. -/
theorem Fit.put {new : Value} {last : Nat} (fit : Fit document state)
    (supplies : (stock document state).Supplies new last) (address : Address) :
    Fit ⟨document.tree.putAt address new, last⟩ state where
  helpers := fit.helpers
  labelled := by
    refine supplies.labelled fit.labelled fun object member => ?_
    rcases mem_stock.1 member with inTree | inFunction
    · exact supplies.objects_putAt (fun _ inside => mem_stock.2 (.inl inside)) inTree
    · exact .inl (Document.has_of_mem (mem_stock.2 (.inr inFunction)))

section Calls

variable (settled : Settled Fit session)

include settled

theorem safe_collect (limit : Nat) (isNode : (cursor.nodeIn session).isNode) :
    Safe Fit (fun moved => moved.address = cursor.address) (collect limit cursor session) := by
  refine safe_bind (safe_below harmless_collector limit isNode settled) ?_
  intro _ after _ settled
  rw [WalkM.getState_bind]
  exact safe_log _ _ _ settled fun _ _ settled => safe_pure settled rfl

/-! ## Calls -/

theorem settled_of_learns {after : Session State} (learns : Learns session after) :
    Settled Fit after := by
  have same : after.document = session.document := by
    rw [Session.document, learns.tree, learns.next]
    rfl
  refine ⟨same ▸ settled.proper, learns.functions ▸ settled.fit.helpers, ?_⟩
  rw [same, stock, learns.functions]
  exact settled.fit.labelled

theorem exists_verdictOn (target : Name) : ∃ verdict, verdictOn session target = .ok verdict := by
  have fine : recursionFault? (bodyNow session) session.state.tracked target = none := by
    refine recursionFault?_of_lawful (fun name body held => ?_) _ _
    obtain ⟨function, collected, rfl⟩ := Option.map_eq_some_iff.1 held
    obtain ⟨spelling, member⟩ := Names.mem_of_get? collected
    have helper := helper_current settled member
    exact ⟨helper.lawful.attr "body", helper.body⟩
  unfold verdictOn
  rw [fine]
  cases Names.get? session.state.recursive target with
  | some verdict => exact ⟨verdict, rfl⟩
  | none => exact ⟨_, rfl⟩

theorem lawful_argument (is : (cursor.nodeIn session).kind? = some "CallExpression")
    {argument : Value} (member : argument ∈ ((cursor.nodeIn session).attr "arguments").elements) :
    argument.Lawful := by
  have lawful := settled.lawful_nodeIn cursor
  rw [elements_of_isList (lawful.arguments is)] at member
  exact (lawful.attr "arguments").item member

theorem exists_judgement (cursor : Cursor) :
    ∃ decision, judgement session cursor.scope (cursor.nodeIn session) = .ok decision := by
  have lawful := settled.lawful_nodeIn cursor
  unfold judgement
  cases calls : callee? (cursor.nodeIn session) with
  | none => exact ⟨_, rfl⟩
  | some callee =>
    obtain ⟨isCall, rfl, isIdentifier⟩ := isKind_of_callee? calls
    dsimp only
    rw [(lawful.attr "callee").nameFault? isIdentifier]
    generalize ((cursor.nodeIn session).attr "callee").name?.getD .absent = target
    unfold orElseFault
    dsimp only
    split
    · exact ⟨_, rfl⟩
    · cases collected : Names.get? session.state.functions target with
      | none => exact ⟨_, rfl⟩
      | some function =>
        cases cursor.scope.bind fun scope => session.index.lookup scope target with
        | none => exact ⟨_, rfl⟩
        | some bound =>
          obtain ⟨spelling, member⟩ := Names.mem_of_get? collected
          have helper := helper_current settled member
          obtain ⟨verdict, judged⟩ := exists_verdictOn settled target
          have is := kind?_of_isKind isCall
          dsimp only
          split
          · exact ⟨_, rfl⟩
          · rw [judged]
            cases verdict with
            | true => exact ⟨_, rfl⟩
            | false =>
              unfold replacement
              dsimp only
              rw [anyIterationFault?_of_isList (lawful.arguments is),
                inlineFault?_of_helper _ helper fun _ => lawful_argument settled is]
              exact ⟨_, rfl⟩

theorem safe_tryInline (cursor : Cursor) :
    Safe Fit (fun tried => tried.2.address = cursor.address) (tryInline cursor session) := by
  refine tryInline_outcome cursor session ?_
    (fun _ _ learns => ⟨rfl, settled_of_learns settled learns⟩) ?_
  · intro fault after isJudgement _
    obtain ⟨decision, is⟩ := exists_judgement settled cursor
    cases is.symm.trans isJudgement
  · intro build middle outcome isJudgement learns placing
    obtain ⟨target, function, judged⟩ := judged_of_judgement isJudgement
    obtain ⟨spelling, member⟩ := Names.mem_of_get? judged.collected
    obtain ⟨parameters, result, inlined, remakes⟩ := inline?_eq_some judged.inlined
    have is := kind?_of_calledName? judged.calls
    have resultLawful := compositional_lawful.inlined inlined
      ((helper_current settled member).lawful.attr "body") fun _ => lawful_argument settled is
    have shared : ∀ object ∈ (returned (session.current function)).objects,
        object ∈ (stock middle.document middle.state).tree.objects := by
      intro object inside
      have inStock := mem_stock_current member (mem_objects_of_returned inside)
      rw [mem_stock] at inStock ⊢
      rwa [learns.functions, Session.document, learns.tree]
    have settled := settled_of_learns settled learns
    have remade := remakes.remade middle.next fun label among => by
      obtain ⟨object, inside, own⟩ := mem_labels.1 among
      exact settled.fit.labelled.lt_of_has (Document.has_of_mem (shared object inside)) own
    have twins := remakes.twins middle.next
    have lawful := twins.lawful resultLawful
    have fit := settled.fit.put (supplies_of_remade lawful remade shared) cursor.address
    have labelled := fit.labelled.mono fun _ inside => mem_stock.2 (.inl inside)
    rw [Cursor.nodeIn, ← learns.tree] at is
    have below := settled.below is (by decide)
    have isNode : (build.run middle.next).1.isNode := twins.isNode.trans inlined.isNode
    refine placing.safe_of_put below isNode lawful ⟨⟨labelled, ?_, ?_⟩,
      fit.helpers, fit.labelled⟩ fun _ => rfl
    · exact (kind?_putAt below _ _).trans settled.proper.program
    · refine settled.proper.lawful.putAt (fun old found => ?_) lawful
      have fits := fits_of_unpinned is (by decide) isNode
      rwa [show middle.tree.at? cursor.address = some old from found] at fits

end Calls

theorem harmless_visitor (limit : Nat) : Harmless Fit (visitor limit) :=
  acts_onEnter (fun _ _ settled is => safe_collect settled limit (isNode_of_kind? is)) <|
    acts_onEnter (fun cursor _ settled _ => ends_inlineRounds governed_settled
      (fun cursor _ settled => safe_tryInline settled cursor) maxRounds cursor settled) acts_nil

end Unravel.Pass.Inlining
