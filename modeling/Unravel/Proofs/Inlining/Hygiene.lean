import Unravel.Proofs.Inlining.Origins
import Unravel.Proofs.Inlining.Collection
import Unravel.Proofs.Tree.Programs
import Unravel.Proofs.Walk.Placement

/-!
Contract: inlining captures no names.
-/

namespace Unravel.Pass.Inlining

open Value Lexical Walk

variable {expression : Value} {index : ScopeIndex} {functionScope callScope : Option Nat}

variable {session before after : Session State} {cursor moved : Cursor} {scope : Option Nat}
  {call function : Value} {target : Name} {build : Fresh Value}

/-! ## The search for references -/

theorem fault?_of_faultWhile {fault? : Value → Option SortFault} {goesOn : Value × Bool → Bool}
    {places : List (Value × Bool)} (fine : faultWhile fault? goesOn places = none) (goes : ∀ place ∈
    places, fault? place.1 = none → goesOn place) : ∀ place ∈ places, fault? place.1 = none := by
  induction places with
  | nil => exact fun _ impossible => nomatch impossible
  | cons first rest ih =>
    obtain ⟨here, further⟩ := Option.or_eq_none_iff.1 fine
    rw [goes first List.mem_cons_self here] at further
    have later := ih further fun place member =>
      goes place (List.mem_cons_of_mem _ member)
    exact List.forall_mem_cons.2 ⟨here, later⟩

/-- The search ends at identifiers and at values that are no objects. -/
theorem isIdentifier_of_mem_searchEnds {value : Value} {conditional : Bool}
    {place : Value × Bool} (member : place ∈ value.searchEnds conditional) :
    place.1.isIdentifier ∨ place.1.isObject = false := by
  rw [searchEnds_eq] at member
  split at member
  · rename_i isEnd
    cases List.mem_singleton.1 member
    simpa using isEnd
  · obtain ⟨part, isPart, inside⟩ := List.mem_flatMap.1 member
    exact isIdentifier_of_mem_searchEnds inside
termination_by sizeOf value
decreasing_by exact sizeOf_lt_of_mem_referenceParts isPart

variable {arguments : Substitution} {reference node : Value}

theorem searchable_of_safetyFault? (safe : isSafe index expression arguments functionScope
    callScope) (fine : safetyFault? index expression arguments functionScope callScope = none) :
    expression.Searchable := by
  simp only [isSafe, Bool.and_eq_true, Bool.not_eq_true'] at safe
  obtain ⟨⟨⟨contextFree, moves⟩, _⟩, _⟩ := safe
  simp only [safetyFault?, contextFree, Bool.false_eq_true, ↓reduceIte] at fine
  have searched := (Option.or_eq_none_iff.1 (Option.or_eq_none_iff.1 fine).1).2
  intro found member
  obtain ⟨place, isPlace, rfl⟩ := List.mem_map.1 member
  have every := fault?_of_faultWhile searched (fun place isPlace readable => ?_) place isPlace
  · exact (Option.or_eq_none_iff.1 every).1
  · have searchFine := (Option.or_eq_none_iff.1 readable).1
    rcases isIdentifier_of_mem_searchEnds isPlace with is | isNot
    · exact List.all_eq_true.1 moves place (List.mem_filter.2 ⟨isPlace, is⟩)
    · have notIdentifier : place.1.isIdentifier = false := by
        rw [Bool.eq_false_iff]
        intro is
        rw [isObject_of_kind? (kind?_of_isKind is)] at isNot
        cases isNot
      rw [searchFault?, notIdentifier, fieldsFault?, isNot] at searchFine
      cases searchFine

theorem areIdentifiers_of_mapM {values : List Value} {names : List Name}
    (named : values.mapM Value.identifier? = some names) :
    values.length = names.length ∧ values.all Value.isIdentifier := by
  induction values generalizing names with
  | nil =>
    cases named
    exact ⟨rfl, rfl⟩
  | cons value rest ih =>
    rw [List.mapM_cons] at named
    obtain ⟨name, isName, further⟩ := Option.bind_eq_some_iff.1 named
    obtain ⟨others, areOthers, same⟩ := Option.bind_eq_some_iff.1 further
    cases same
    obtain ⟨length, all⟩ := ih areOthers
    have is : value.isIdentifier := by
      unfold identifier? at isName
      split at isName
      · assumption
      · cases isName
    rw [List.length_cons, List.all_cons, length, all, is]
    exact ⟨rfl, rfl⟩

theorem safetyFault?_of_inlined {function : Value} {arguments : List Value} {parameters : List Name}
    {result : Value} (inlined : Inlined index function arguments functionScope callScope parameters
    result) (fine : inlineFault? index function arguments functionScope callScope = none) :
    safetyFault? index (returned function) (Names.ofList (parameters.zip arguments)) functionScope
    callScope = none := by
  obtain ⟨length, all⟩ := areIdentifiers_of_mapM inlined.named
  have present : (returned function).isNull = false := by
    rw [Bool.eq_false_iff]
    intro isNull
    apply inlined.present
    cases held : returned function <;> rw [held] at isNull <;> first | rfl | cases isNull
  unfold inlineFault? at fine
  split at fine
  · cases fine
  · rw [inlined.simple, inlined.expressions] at fine
    simp only [Bool.not_true, Bool.or_self, Bool.false_eq_true, ↓reduceIte] at fine
    split at fine
    · cases fine
    · rw [length, inlined.length, present, all, inlined.named] at fine
      simp only [bne_self_eq_false, Bool.not_true, Bool.or_self, Bool.false_eq_true,
        ↓reduceIte] at fine
      exact (Option.or_eq_none_iff.1 (Option.or_eq_none_iff.1 fine).2).1

/-! ## References of a replacement -/

theorem kind?_of_calledName? (calls : calledName? call = some target) :
    call.kind? = some "CallExpression" := by
  unfold calledName? callee? at calls
  split at calls
  · rename_i is
    exact kind?_of_isKind (Bool.and_eq_true_iff.1 is).1
  · cases calls

theorem getElem?_items_of_mem_elements {value item : Value} (member : item ∈ value.elements)
    (isNode : item.isNode) : ∃ position : Nat, value.items[position]? = some item := by
  cases value with
  | list items => exact List.mem_iff_getElem?.1 member
  | text word =>
    obtain ⟨_, _, rfl⟩ := List.mem_map.1 member
    cases isNode
  | _ => cases member

/-- A reference of a replacement that stands in the copy of an argument. -/
structure FromArgument (call new : Value) (position : Nat) (way rest : Address)
    (original reference : Value) : Prop where
  refers : Refers call (⟨"arguments", some position⟩ :: rest) original
  twins : original.Twins reference
  copied : ∃ argument copy, call.slot? ⟨"arguments", some position⟩ = some argument ∧
    new.at? way = some copy ∧ argument.Twins copy
  plain : Plain new way

/-- A reference of a replacement that stands at its place in the return
expression of the helper. -/
structure FromHelper (index : ScopeIndex) (functionScope callScope : Option Nat)
    (expression : Value) (address : Address) (original reference : Value) : Prop where
  refers : Refers expression address original
  twins : original.Twins reference
  same : ∀ name, original.name? = some name →
    binder? index functionScope name = binder? index callScope name

theorem binder?_of_isSafe {name : Name} (safe : isSafe index expression arguments functionScope
    callScope) (member : reference ∈ expression.referenced) (named : reference.name? = some name)
    (free : Names.get? arguments name = none) : binder? index functionScope name = binder? index
    callScope name := by
  simp only [isSafe, Bool.and_eq_true] at safe
  obtain ⟨place, isPlace, rfl⟩ := List.mem_map.1 member
  have moves := List.all_eq_true.1 safe.1.1.2 place isPlace
  simp only [mayMove, named, free] at moves
  exact beq_iff_eq.1 moves

/-- Every reference of a replacement stems from an argument of the call or from
the return expression of the helper. -/
theorem Judged.origin (judged : Judged session scope call target function build) {next : Nat}
    {address : Address} (refers : Refers (build.run next).1 address reference) :
    (∃ position way rest original, address = way ++ rest ∧
      FromArgument call (build.run next).1 position way rest original reference) ∨
    ∃ original, FromHelper session.index (session.index.known? function) scope
      (returned (session.current function)) address original reference := by
  obtain ⟨parameters, result, inlined, remakes⟩ := inline?_eq_some judged.inlined
  have searchable := searchable_of_safetyFault? inlined.safe
    (safetyFault?_of_inlined inlined judged.readable)
  have remade := remakes.twins next
  have back : (build.run next).1.Twins result := Eq.symm remade
  obtain ⟨source, refersThere, sourceTwins⟩ := back.refers refers
  have twins : source.Twins reference := Eq.symm sourceTwins
  cases stems_of_refers inlined.areNodes searchable inlined.substituted refersThere with
  | @argument name argument way rest split given placed plain refersInside =>
    obtain ⟨spelling, member⟩ := Names.mem_of_get? given
    have isNode : argument.isNode := inlined.areNodes _ member
    obtain ⟨position, found⟩ := getElem?_items_of_mem_elements (Inlined.mem_arguments member) isNode
    obtain ⟨copy, foundCopy, isCopy⟩ := remade.exists_at? placed
    have isCall := kind?_of_calledName? judged.calls
    have isPart : call.IsPart ⟨"arguments", some position⟩ argument := by
      refine ⟨mem_childSlots_of_slot? ?_ found isNode, ?_, found, isNode⟩
      · simp [childFields_of_kind isCall rfl]
      · simp [isNameSlot, isKind, isCall]
    exact .inl ⟨position, way, rest, source, split, .inside isPart refersInside, twins,
      ⟨argument, copy, isPart.held, foundCopy, isCopy⟩, plain.congr remade⟩
  | helper refersInside free =>
    exact .inr ⟨source, refersInside, twins, fun name named =>
      binder?_of_isSafe inlined.safe (refersInside.mem_referenced searchable) named
        (free name named)⟩

/-! ## Bindings -/

/-- Where a name is bound, seen from a place inside an expression: at a place
inside it, or else in a scope around it, if at all. -/
inductive Bound where
  | inside (place : Address)
  | outside (scope : Option Nat)
deriving DecidableEq, Repr

/-- What is bound inside a part is bound there as a part of the whole. -/
def Bound.below (address : Address) : Bound → Bound
  | .inside place => .inside (address ++ place)
  | .outside scope => .outside scope

/-- Where a name is bound, seen from a place inside an expression that stands in
a scope. -/
def boundFrom (index : ScopeIndex) (scope : Option Nat) (expression : Value) (address : Address)
    (name : Name) : Bound :=
  match boundAt? name false expression address with
  | some place => .inside place
  | none => .outside (binder? index scope name)

theorem boundFrom_append {inner : Value} {way : Address} (plain : Plain expression way)
    (found : expression.at? way = some inner) (index : ScopeIndex) (scope : Option Nat)
    (rest : Address) (name : Name) : boundFrom index scope expression (way ++ rest) name =
      (boundFrom index scope inner rest name).below way := by
  unfold boundFrom
  rw [boundAt?_append plain found]
  cases boundAt? name false inner rest <;> rfl

theorem boundFrom_congr {twin : Value} (twins : expression.Twins twin) (index : ScopeIndex)
    (scope : Option Nat) (address : Address) (name : Name) :
    boundFrom index scope twin address name = boundFrom index scope expression address name := by
  unfold boundFrom
  rw [boundAt?_congr twins]

/-- In the copy of an argument names are bound as in the argument. -/
theorem FromArgument.bound {new original reference : Value} {position : Nat} {way rest : Address}
    (stems : FromArgument call new position way rest original reference)
    (isCall : call.kind? = some "CallExpression") (index : ScopeIndex) (scope : Option Nat)
    (name : Name) : ∃ bound : Bound,
      boundFrom index scope call (⟨"arguments", some position⟩ :: rest) name =
        bound.below [⟨"arguments", some position⟩] ∧
      boundFrom index scope new (way ++ rest) name = bound.below way := by
  obtain ⟨argument, copy, held, found, twins⟩ := stems.copied
  have plain : Plain call [⟨"arguments", some position⟩] := by
    refine .cons (createsScope_of_openKind isCall (by decide)) held ?_
    intro front back split notAll
    exact absurd (List.append_eq_nil_iff.1 split.symm).2 notAll
  refine ⟨boundFrom index scope argument rest name, ?_, ?_⟩
  · exact boundFrom_append plain (by rw [at?, held]; rfl) index scope rest name
  · rw [boundFrom_append stems.plain found, boundFrom_congr twins]

theorem isFunction_of_not_needsContext (free : needsContext node = false) :
    node.isFunction = false := by
  rw [Bool.eq_false_iff]
  intro is
  obtain ⟨kind, listed, isKind⟩ := exists_kind?_of_isFunction is
  have among : kind ∈ contextKinds := List.mem_append_left _ listed
  simp [needsContext, isKind, among] at free

theorem Judged.isFunction_eq_false (judged : Judged session scope call target function build)
    (member : node ∈ (returned (session.current function)).nodes) : node.isFunction = false := by
  obtain ⟨parameters, _, inlined, _⟩ := inline?_eq_some judged.inlined
  have safe := inlined.safe
  simp only [isSafe, Bool.and_eq_true, Bool.not_eq_true'] at safe
  have free := List.any_eq_false.1 safe.1.1.1 node member
  exact isFunction_of_not_needsContext (Bool.eq_false_iff.2 free)

/-- Inlining captures no names. A reference of what takes the place of a call has been
copied from an argument, in which its name is bound as it was, inside the argument or in a
scope around the call; or it stands where it stood in the return expression of the helper,
which holds no functions, and the scope of the call binds its name where that of the helper
does. -/
theorem captures_no_name (ran : tryInline cursor before = .ok (true, moved) after) :
    ∃ call target function new,
      cursor.nodeIn before = call ∧
      calledName? call = some target ∧
      Names.get? before.state.functions target = some function ∧
      after.tree = before.tree.putAt cursor.address new ∧
      (∀ node ∈ (returned (before.current function)).nodes, node.isFunction = false) ∧
      ∀ address reference, Refers new address reference →
        (∃ position way rest original,
          address = way ++ rest ∧
          FromArgument call new position way rest original reference ∧
          ∀ name, ∃ bound : Bound,
            boundFrom before.index cursor.scope call (⟨"arguments", some position⟩ :: rest) name =
              bound.below [⟨"arguments", some position⟩] ∧
            boundFrom before.index cursor.scope new address name = bound.below way) ∨
        ∃ original, FromHelper before.index (before.index.known? function) cursor.scope
          (returned (before.current function)) address original reference := by
  obtain ⟨target, function, _, _, judged, places⟩ := judged_of_tryInline ran
  refine ⟨_, target, function, _, rfl, judged.calls, judged.collected, places.tree,
    fun node => judged.isFunction_eq_false, ?_⟩
  intro address reference refers
  rcases judged.origin refers with ⟨position, way, rest, original, rfl, stems⟩ | stems
  · exact .inl ⟨position, way, rest, original, rfl, stems,
      stems.bound (kind?_of_calledName? judged.calls) before.index cursor.scope⟩
  · exact .inr stems

/-- `function f(x) { return x == y }` `f(function (y) { return y + z }); var y;` -/
def foreignName : Value :=
  .program [
    .function 1 (.identifier 2 "f") [.identifier 3 "x"] (.block 4 [
      .returns 5 (.binary 6 "==" (.identifier 7 "x") (.identifier 8 "y"))]),
    .statement 9 (.call 10 (.identifier 11 "f") [
      .node 12 "FunctionExpression" [("id", .null), ("params", .list [.identifier 13 "y"]),
        ("body", .block 14 [
          .returns 15 (.binary 16 "+" (.identifier 17 "y") (.identifier 18 "z"))])]]),
    .declaration 19 [.declarator 20 (.identifier 21 "y") .null]]

/-- The places, with the scopes they are in, at which a run tries to replace a
call, and what the session is by then. A place is tried when the walk comes to
it, and again after a replacement there. -/
inductive Attempted (limit : Nat) (start : Session State) : Cursor → Session State → Prop where
  | entered {owner : Cursor} {slot : Slot} {rest : List Frame} {session reached : Session State}
      {value : Value} {scope : Option Nat} (comes : Reached (visitor limit) start (.entering owner
      slot :: rest) session) (found : session.tree.at? (owner.address ++ [slot]) = some value)
      (inScope : WalkM.scopeOf value owner.scope session = .ok scope reached) : Attempted limit
      start ⟨owner.address ++ [slot], scope, owner.scope, false⟩ reached
  | again {cursor moved : Cursor} {before after : Session State} (attempted : Attempted limit start
      cursor before) (ran : tryInline cursor before = .ok (true, moved) after) : Attempted limit
      start moved after

/-- Whether the next visit replaces a call. -/
def replacesNext : List Frame → Session State → Bool
  | .entering owner slot :: _, session =>
    match session.tree.at? (owner.address ++ [slot]) with
    | none => false
    | some value =>
      match WalkM.scopeOf value owner.scope session with
      | .error _ _ => false
      | .ok scope reached =>
        match tryInline ⟨owner.address ++ [slot], scope, owner.scope, false⟩ reached with
        | .ok (true, _) _ => true
        | _ => false
  | _, _ => false

theorem exists_attempted {limit visits : Nat} {start : Session State} (passes : passesAfter (visitor
    limit) start visits replacesNext) : ∃ cursor before moved after, Attempted limit start cursor
    before ∧ tryInline cursor before = .ok (true, moved) after := by
  obtain ⟨frames, session, comes, replaces⟩ := exists_reached passes
  unfold replacesNext at replaces
  split at replaces
  · split at replaces
    · cases replaces
    · rename_i value found
      split at replaces
      · cases replaces
      · rename_i scope reached inScope
        split at replaces
        · rename_i moved after ran
          exact ⟨_, reached, moved, after, .entered comes found inScope, ran⟩
        · cases replaces
  · cases replaces

theorem captures_no_name_foreignName :
    ∃ cursor before moved after,
      Attempted 80 (initialSession ⟨foreignName, 22⟩ (startState [.text "f"])) cursor before ∧
      tryInline cursor before = .ok (true, moved) after ∧
      ∃ call target function new,
        cursor.nodeIn before = call ∧
        calledName? call = some target ∧
        Names.get? before.state.functions target = some function ∧
        after.tree = before.tree.putAt cursor.address new ∧
        ∀ address reference, Refers new address reference →
          (∃ position way rest original, address = way ++ rest ∧
            FromArgument call new position way rest original reference) ∨
          ∃ original, FromHelper before.index (before.index.known? function) cursor.scope
            (returned (before.current function)) address original reference := by
  have passes : passesAfter (visitor 80) (initialSession ⟨foreignName, 22⟩ (startState [.text "f"]))
      17 replacesNext = true := by decide +kernel
  obtain ⟨cursor, before, moved, after, attempted, ran⟩ := exists_attempted passes
  obtain ⟨call, target, function, new, isCall, calls, collected, replaced, _, origins⟩ :=
    captures_no_name ran
  refine ⟨cursor, before, moved, after, attempted, ran, call, target, function, new, isCall, calls,
    collected, replaced, fun address reference refers => (origins address reference refers).imp_left ?_⟩
  rintro ⟨position, way, rest, original, split, stems, _⟩
  exact ⟨position, way, rest, original, split, stems⟩

end Unravel.Pass.Inlining
