import Unravel.Proofs.Inlining.Places
import Unravel.Proofs.Inlining.Reachability
import Unravel.Proofs.Tree.Programs

/-!
Contract: what becomes of arguments with side effects.

The arguments that are not pure stand in the replacement of a call in the order
of the call, and none of them depends on a condition of the helper's
(`inline?_keeps_order`). An argument is lost exactly if a later parameter has the
name of its own (`inline?_keeps_iff`).
-/

namespace Unravel.Value

/-! ## Unconditional places -/

/-- A slot that is evaluated only under a condition. -/
def isBranch (value : Value) (slot : Slot) : Bool := value.isKind "LogicalExpression" && slot.field
  == "right" || value.isKind "ConditionalExpression" && (slot.field == "consequent" || slot.field ==
  "alternate")

/-- An address that leads through no branch. -/
def Unconditional (value : Value) : Address → Prop
  | [] => True
  | slot :: rest => value.isBranch slot = false ∧
      ∀ inner, value.slot? slot = some inner → inner.Unconditional rest

theorem flag_of_mem_referenceEntries {value : Value} {entry : Slot × Value × Bool}
    (member : entry ∈ value.referenceEntries) : entry.2.2 = value.isBranch entry.1 := by
  have held {name : String} {conditional : Bool} (inside : entry ∈ value.heldIn name conditional) :
      entry.1.field = name ∧ entry.2.2 = conditional := by
    obtain ⟨inner, _, rfl⟩ := List.mem_map.1 inside
    exact ⟨rfl, rfl⟩
  unfold referenceEntries at member
  split at member
  · rename_i isMember
    have is := kind?_of_isKind (Bool.and_eq_true_iff.1 isMember).1
    simp [held member, isBranch, isKind, is]
  · split at member
    · rename_i isProperty
      have is := kind?_of_isKind (Bool.and_eq_true_iff.1 isProperty).1
      simp [held member, isBranch, isKind, is]
    · split at member
      · rename_i isLogical
        rcases List.mem_append.1 member with inside | inside <;>
          simp [held inside, isBranch, isKind, kind?_of_isKind isLogical]
      · rename_i notLogical
        split at member
        · rename_i isConditional
          simp only [List.mem_append] at member
          rcases member with inside | inside | inside <;>
            simp [held inside, isBranch, isKind, kind?_of_isKind isConditional]
        · rename_i notConditional
          obtain ⟨child, _, rfl⟩ := List.mem_map.1 member
          simp [isBranch, notLogical, notConditional]

theorem unconditional_of_mem_places {value : Value} {conditional : Bool} {place : Reference}
    (member : place ∈ value.places conditional) (always : place.conditional = false) :
    conditional = false ∧ value.Unconditional place.address := by
  cases is : value.isIdentifier with
  | true =>
    rw [places, if_pos is] at member
    cases List.mem_singleton.1 member
    exact ⟨always, trivial⟩
  | false =>
    rw [places_eq is] at member
    obtain ⟨entry, isEntry, inside⟩ := List.mem_flatMap.1 member
    obtain ⟨inner, isInner, rfl⟩ := List.mem_map.1 inside
    obtain ⟨both, within⟩ := unconditional_of_mem_places isInner always
    obtain ⟨outer, own⟩ := Bool.or_eq_false_iff.1 both
    refine ⟨outer, flag_of_mem_referenceEntries isEntry ▸ own, fun held found => ?_⟩
    rw [slot?_of_mem_referenceEntries isEntry] at found
    exact Option.some.inj found ▸ within
termination_by sizeOf value
decreasing_by exact sizeOf_lt_of_slot? (slot?_of_mem_referenceEntries isEntry)

end Unravel.Value

namespace Unravel.Pass.Inlining

open Value

variable {index : ScopeIndex} {function result expression argument : Value}
  {substitution : Substitution} {arguments : List Value} {functionScope callScope : Option Nat}
  {parameters : List Name} {name : Name} {build : Fresh Value}

/-! ## References to impure arguments -/

/-- The references for which an impure argument is put in place. -/
def impurePlaces (substitution : Substitution) (expression : Value) : List Reference :=
  (expression.places false).filter fun place =>
    (place.argument? substitution).any fun argument => !isPure argument

theorem isIn_impureNames (distinct : substitution.Distinct) (given : Names.get? substitution name =
    some argument) : name.isIn (impureNames substitution) = !isPure argument := by
  rw [Bool.eq_iff_iff, Name.isIn_iff]
  constructor
  · rintro ⟨other, member, same⟩
    obtain ⟨entry, isEntry, chosen⟩ := List.mem_filterMap.1 member
    cases pure : isPure entry.2 <;> rw [pure] at chosen <;> cases chosen
    rw [Names.get?_congr _ same, Names.get?_of_mem distinct isEntry] at given
    rw [← Option.some.inj given, pure]
    rfl
  · intro impure
    obtain ⟨spelling, member, same⟩ := Names.exists_entry_of_get? given
    refine ⟨spelling, List.mem_filterMap.2 ⟨_, member, ?_⟩, same.symm⟩
    simp at impure
    simp [impure]

/-- The impure arguments at the references of an expression are those of the
parameters that it uses. -/
theorem filterMap_impurePlaces (distinct : substitution.Distinct) (expression : Value) :
    (impurePlaces substitution expression).filterMap (Reference.argument? substitution) =
      (impureUses substitution (expression.references false)).filterMap
        (Names.get? substitution) := by
  rw [impurePlaces, impureUses, ← map_places, List.filterMap_map, List.filterMap_filterMap,
    List.filterMap_filter]
  refine List.filterMap_congr fun place _ => ?_
  simp only [Reference.argument?, Function.comp_apply]
  rcases Option.eq_none_or_eq_some place.identifier.name? with nameless | ⟨name, named⟩
  · simp [nameless]
  · simp only [named, Option.bind_some, Option.filter_some]
    cases given : Names.get? substitution name with
    | none => cases name.isIn (impureNames substitution) <;> simp [given]
    | some argument =>
      rw [isIn_impureNames distinct given, Option.any_some]
      cases isPure argument <;> simp [given]

theorem filterMap_get?_congr (substitution : Substitution) {first second : List Name}
    (same : first.map Name.key = second.map Name.key) :
    first.filterMap (Names.get? substitution) = second.filterMap (Names.get? substitution) := by
  induction first generalizing second with
  | nil =>
    rw [List.map_eq_nil_iff.1 same.symm]
  | cons name rest ih =>
    obtain ⟨other, later, rfl, here, further⟩ := List.map_eq_cons_iff.1 same.symm
    rw [List.filterMap_cons, List.filterMap_cons, ih further.symm,
      Names.get?_congr substitution here]

theorem filterMap_impureNames (distinct : substitution.Distinct) :
    (impureNames substitution).filterMap (Names.get? substitution) =
      (substitution.map Prod.snd).filter fun argument => !isPure argument := by
  rw [impureNames, List.filterMap_filterMap, List.filter_map, ← List.filterMap_eq_filter,
    List.map_filterMap]
  refine List.filterMap_congr fun entry member => ?_
  have found := Names.get?_of_mem distinct member
  cases pure : isPure entry.2 <;> simp [pure, found, Option.guard]

section Safe

variable (safe : isSafe index expression substitution functionScope callScope)

include safe

/-- A safe expression uses every impure argument once, in the order of the
parameters. -/
theorem impurePlaces_of_isSafe (distinct : substitution.Distinct) :
    (impurePlaces substitution expression).filterMap (Reference.argument? substitution) =
      (substitution.map Prod.snd).filter fun argument => !isPure argument := by
  simp only [isSafe, Bool.and_eq_true, beq_iff_eq] at safe
  rw [filterMap_impurePlaces distinct, filterMap_get?_congr _ safe.2,
    filterMap_impureNames distinct]

theorem unconditional_of_isSafe {place : Reference} (member : place ∈ impurePlaces substitution
    expression) : expression.Unconditional place.address := by
  obtain ⟨isPlace, impure⟩ := List.mem_filter.1 member
  obtain ⟨argument, given, notPure⟩ := (Option.any_eq_true _ _).1 impure
  obtain ⟨name, named, found⟩ := Option.bind_eq_some_iff.1 given
  simp only [isSafe, Bool.and_eq_true, List.all_eq_true] at safe
  have isReference : (place.identifier, place.conditional) ∈ expression.references false :=
    map_places expression false ▸ List.mem_map_of_mem isPlace
  have moves := safe.1.1.2 _ isReference
  refine (unconditional_of_mem_places isPlace ?_).2
  simpa [mayMove, named, found, Bool.not_eq_true' _ ▸ notPure] using moves

/-- Beside an impure argument the expression has no effects of its own. -/
theorem effectless_of_isSafe {entry : Name × Value} (member : entry ∈ substitution)
    (impure : isPure entry.2 = false) : ∀ node ∈ expression.nodes, isEffect node = false := by
  have isImpure : entry.1 ∈ impureNames substitution :=
    List.mem_filterMap.2 ⟨entry, member, by rw [impure]; rfl⟩
  simp only [isSafe, Bool.and_eq_true, Bool.or_eq_true, List.isEmpty_iff] at safe
  rcases safe.1.2 with none | effectless
  · rw [none] at isImpure
    cases isImpure
  · simpa [hasEffects] using effectless

end Safe

theorem callsListed_of_effectless (effectless : ∀ node ∈ expression.nodes, isEffect node = false) :
    expression.CallsListed := by
  intro inner member isCall
  have effect := effectless inner member
  simp [isEffect, kind?_of_isKind isCall, effectKinds] at effect

/-- A walk of a replacement comes to the impure arguments in the order of the
references to them. -/
theorem impureVisits_of_inlined (inlined : Inlined index function arguments functionScope callScope
    parameters result) : (argumentVisits (Names.ofList (parameters.zip arguments)) [] (impurePlaces
    (Names.ofList (parameters.zip arguments)) (returned function))).Sublist (result.tour []) := by
  cases isPlaces : impurePlaces (Names.ofList (parameters.zip arguments)) (returned function) with
  | nil => exact List.nil_sublist _
  | cons place rest =>
    have member : place ∈ impurePlaces (Names.ofList (parameters.zip arguments))
        (returned function) := isPlaces ▸ List.mem_cons_self
    obtain ⟨argument, given, impure⟩ := (Option.any_eq_true _ _).1 (List.mem_filter.1 member).2
    obtain ⟨name, _, found⟩ := Option.bind_eq_some_iff.1 given
    obtain ⟨spelling, isEntry⟩ := Names.mem_of_get? found
    have calls := callsListed_of_effectless
      (effectless_of_isSafe inlined.safe isEntry (Bool.not_eq_true' _ ▸ impure))
    rw [← isPlaces]
    exact (List.filter_sublist.filterMap _).trans
      (inlined.substituted.visits inlined.areNodes calls false [])

/-- The impure arguments of a call keep their order and stay unconditional. With
distinct parameters, the replacement is like the return expression with all arguments put
in place, of which a walk comes to each of them once and in the order of the call, at the
references to their parameters. None of these lies in a branch of the return expression, which has no
effects of its own beside them. -/
theorem inline?_keeps_order (named : parameterNames? function = some parameters)
    (distinct : (parameters.map Name.key).Nodup)
    (found : inline? index function arguments functionScope callScope = some build) :
    let substitution := parameters.zip arguments
    let result := (returned function).fill substitution true
    let places := impurePlaces substitution (returned function)
    let visits := argumentVisits substitution [] places
    (∀ next, result.Twins (build.run next).1) ∧
    visits.map Visit.node = arguments.filter (fun argument => !isPure argument) ∧
    visits.Sublist (result.tour []) ∧
    (∀ place ∈ places, (returned function).Unconditional place.address) ∧
    ((∃ argument ∈ arguments, isPure argument = false) →
      ∀ node ∈ (returned function).nodes, isEffect node = false) := by
  obtain ⟨others, result, inlined, remakes⟩ := inline?_eq_some found
  cases inlined.named.symm.trans named
  have firsts : (parameters.zip arguments).map Prod.fst = parameters :=
    List.map_fst_zip (Nat.le_of_eq inlined.length)
  have seconds : (parameters.zip arguments).map Prod.snd = arguments :=
    List.map_snd_zip (Nat.le_of_eq inlined.length.symm)
  have isDistinct : Names.Distinct (parameters.zip arguments) := by
    rw [← firsts, List.map_map] at distinct
    exact distinct
  have same := Names.ofList_of_distinct isDistinct
  have safe := same ▸ inlined.safe
  have filled : result = (returned function).fill (parameters.zip arguments) true :=
    same ▸ inlined.substituted.eq_fill inlined.areNodes
  refine ⟨filled ▸ remakes.twins, ?_, filled ▸ same ▸ impureVisits_of_inlined inlined,
    fun place => unconditional_of_isSafe safe, fun ⟨argument, member, impure⟩ => ?_⟩
  · have used := impurePlaces_of_isSafe safe isDistinct
    rw [seconds] at used
    rw [← used, argumentVisits, List.map_filterMap]
    simp [Function.comp_def]
  · obtain ⟨entry, isEntry, rfl⟩ := List.mem_map.1 (seconds ▸ member)
    exact effectless_of_isSafe safe isEntry impure

/-- A function that returns an expression. -/
def helperOf (parameters : List String) (expression : Value) : Value :=
  .function 2 .null (parameters.map (.identifier 3)) (.block 4 [.returns 5 expression])

/-- A call of a function, without arguments. -/
def callOf (label : Nat) (name : String) : Value :=
  .call label (.identifier (label + 1) name) []

/-- In the replacement of `f(g(), h())`, where `f` returns the sum of its
parameters, `g` is called before `h`. -/
theorem inline?_keeps_order_sum :
    ∃ (build : Fresh Value) (result : Value),
      inline? .empty (helperOf ["a", "b"] (sumOf "a" "b")) [callOf 6 "g", callOf 8 "h"] none none =
        some build ∧
      (∀ next, result.Twins (build.run next).1) ∧
      ∃ visits : List Visit, visits.map Visit.node = [callOf 6 "g", callOf 8 "h"] ∧
        visits.Sublist (result.tour []) := by
  obtain ⟨build, found⟩ : ∃ build, inline? .empty (helperOf ["a", "b"] (sumOf "a" "b"))
      [callOf 6 "g", callOf 8 "h"] none none = some build := ⟨_, by with_unfolding_all rfl⟩
  have named : parameterNames? (helperOf ["a", "b"] (sumOf "a" "b")) =
      some [.text "a", .text "b"] := by with_unfolding_all rfl
  obtain ⟨twins, nodes, visits, _⟩ := inline?_keeps_order named (by decide) found
  exact ⟨build, _, found, twins, _, nodes, visits⟩

/-! ## Repeated parameters -/

/-- With distinct parameters or not, an impure argument that is the last one for
its name is copied. -/
theorem mem_nodes_of_get?
    (inlined : Inlined index function arguments functionScope callScope parameters result)
    (given : Names.get? (Names.ofList (parameters.zip arguments)) name = some argument)
    (impure : isPure argument = false) : argument ∈ result.nodes := by
  obtain ⟨spelling, member⟩ := Names.mem_of_get? given
  have used : argument ∈ (impurePlaces (Names.ofList (parameters.zip arguments))
      (returned function)).filterMap (Reference.argument? (Names.ofList (parameters.zip arguments))) := by
    rw [impurePlaces_of_isSafe inlined.safe (Names.distinct_ofList _)]
    exact List.mem_filter.2 ⟨List.mem_map_of_mem member, by rw [impure]; rfl⟩
  obtain ⟨place, isPlace, put⟩ := List.mem_filterMap.1 used
  have visited := (impureVisits_of_inlined inlined).subset
    (List.mem_filterMap.2 ⟨place, isPlace, by rw [put, Option.map_some]⟩)
  rw [← map_node_tour []]
  exact List.mem_map.2 ⟨_, List.mem_filter.2 ⟨visited, rfl⟩, rfl⟩

/-- A label that neither the return expression nor an argument in use has does not
stand in the replacement. -/
theorem not_mem_nodes_of_labels {label : Nat}
    (inlined : Inlined index function arguments functionScope callScope parameters result)
    (is : argument.label? = some label) (notInside : label ∉ (returned function).labels)
    (notGiven : ∀ entry ∈ Names.ofList (parameters.zip arguments), label ∉ entry.2.labels) :
    argument ∉ result.nodes := by
  have without {value : Value} (absent : label ∉ value.labels) : value.Everywhere (Without label) :=
    everywhere_iff_labels.2 fun own member same => absent (same ▸ member)
  have all := (compositional_everywhere fun _ _ _ _ _ differs => differs).substituted
    inlined.areNodes (fun entry member => without (notGiven entry member)) inlined.substituted
    (without notInside)
  intro member
  rw [← map_node_tour []] at member
  obtain ⟨visit, visited, rfl⟩ := List.mem_map.1 member
  have atRoot : result.at? [] = some result := rfl
  have found := at?_of_mem_tour atRoot (List.mem_filter.1 visited).1
  exact ((everywhere_object is).1 (everywhere_at? all found)).1 rfl

/-- Arguments are lost to later parameters of the same name, and to nothing else.
The replacement of a call is like the return expression with all arguments put in place.
An impure argument stands there if no later parameter has the name of its own; otherwise
it does not, where no two of the objects involved share a label. -/
theorem inline?_keeps_iff (named : parameterNames? function = some parameters)
    (found : inline? index function arguments functionScope callScope = some build)
    {before after : List (Name × Value)}
    (pairs : parameters.zip arguments = before ++ (name, argument) :: after)
    (impure : isPure argument = false) :
    let result := (returned function).fill (Names.ofList (parameters.zip arguments)) true
    (∀ next, result.Twins (build.run next).1) ∧
    ((∀ pair ∈ after, pair.1.same name = false) → argument ∈ result.nodes) ∧
    ((labelsItems (returned function :: arguments)).Nodup → argument ∈ result.nodes →
      ∀ pair ∈ after, pair.1.same name = false) := by
  obtain ⟨others, result, inlined, remakes⟩ := inline?_eq_some found
  cases inlined.named.symm.trans named
  have filled := inlined.substituted.eq_fill inlined.areNodes
  have seconds : (parameters.zip arguments).map Prod.snd = arguments :=
    List.map_snd_zip (Nat.le_of_eq inlined.length.symm)
  have lookup (other : Name) : Names.get? (Names.ofList (parameters.zip arguments)) other =
      (((after.reverse.find? fun pair => pair.1.same other).or (((name, argument) ::
      before.reverse).find? fun pair => pair.1.same other)).map Prod.snd) := by
    rw [Names.get?_ofList, pairs, List.reverse_append, List.reverse_cons, List.append_assoc,
      List.find?_append]
    rfl
  refine ⟨filled ▸ remakes.twins, ?_, ?_⟩
  · intro last
    rw [← filled]
    have later : after.reverse.find? (fun pair => pair.1.same name) = none := by
      simpa using last
    have read := lookup name
    rw [later, List.find?_cons_of_pos (by simp)] at read
    exact mem_nodes_of_get? inlined read impure
  · intro apart kept pair isLater
    rw [← filled] at kept
    rw [Bool.eq_false_iff]
    intro same
    have given : arguments = before.map Prod.snd ++ argument :: after.map Prod.snd := by
      rw [← seconds, pairs, List.map_append]
      rfl
    have checked := List.all_eq_true.1 inlined.expressions argument (by rw [given]; simp)
    obtain ⟨label, is⟩ := exists_label?_of_isNode (Bool.and_eq_true_iff.1 checked).1
    have own : label ∈ argument.labels := labels_of_label? is ▸ List.mem_cons_self
    rw [labelsItems_eq, List.nodup_flatMap, given, List.pairwise_cons, List.pairwise_append,
      List.pairwise_cons] at apart
    obtain ⟨_, inside, _, ⟨earlier, _⟩, later⟩ := apart
    refine not_mem_nodes_of_labels inlined is
      (fun member => inside argument (by simp) member own) (fun entry isEntry member => ?_) kept
    have read := Names.get?_of_mem (Names.distinct_ofList _) isEntry
    rw [lookup] at read
    obtain ⟨chosen, isChosen, eq⟩ := Option.map_eq_some_iff.1 read
    rw [← eq] at member
    rcases Option.or_eq_some_iff.1 isChosen with among | ⟨none, among⟩
    · exact earlier _ (List.mem_map_of_mem (List.mem_reverse.1 (List.mem_of_find?_eq_some among)))
        own member
    · rw [List.find?_cons_of_neg] at among
      · exact later _ (List.mem_map_of_mem (List.mem_reverse.1 (List.mem_of_find?_eq_some among)))
          argument List.mem_cons_self member own
      · intro sameToo
        refine List.find?_eq_none.1 none pair (List.mem_reverse.2 isLater) ?_
        exact Name.same_iff.2 ((Name.same_iff.1 same).trans (Name.same_iff.1 sameToo))

/-- A function that returns the last of two parameters of one name. -/
def repeatedName : Value :=
  helperOf ["a", "a"] (.identifier 1 "a")

def callAndNumber : List Value :=
  [callOf 6 "g", .integer 8 1]

/-- The call of `g` in `f(g(), 1)` is lost where both parameters of `f` are `a`. -/
theorem inline?_keeps_iff_repeatedName :
    ∃ (build : Fresh Value) (result : Value),
      inline? .empty repeatedName callAndNumber none none = some build ∧
      (∀ next, result.Twins (build.run next).1) ∧ callOf 6 "g" ∉ result.nodes := by
  obtain ⟨build, found⟩ : ∃ build, inline? .empty repeatedName callAndNumber none none = some
      build := ⟨_, by with_unfolding_all rfl⟩
  have named : parameterNames? repeatedName = some [.text "a", .text "a"] := by
    with_unfolding_all rfl
  have pairs : [Name.text "a", .text "a"].zip callAndNumber = [] ++ (.text "a", callOf 6 "g") ::
        [(.text "a", .integer 8 1)] := rfl
  obtain ⟨twins, _, lost⟩ := inline?_keeps_iff named found pairs (by decide)
  refine ⟨build, _, found, twins, fun kept => ?_⟩
  cases lost (by decide +kernel) kept _ List.mem_cons_self

end Unravel.Pass.Inlining
