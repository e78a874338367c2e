import Mathlib.Data.List.Flatten
import Unravel.Proofs.Inlining.Filling
import Unravel.Proofs.Tree.Programs
import Unravel.Proofs.Walk.Touring

/-!
Contract: where the references of an expression stand, and what stands there
after a substitution.

`places` are the references in document order, each with its address. A walk of
the result comes to the arguments at these addresses, in this order
(`Substituted.visits`).
-/

namespace Unravel.Value

variable {arguments : Substitution} {value result : Value} {kind : String}

/-! ## Places of references -/

/-- A reference, where it stands, and whether it is evaluated conditionally. -/
structure Reference where
  address : Address
  identifier : Value
  conditional : Bool

/-- The argument for a reference. -/
def Reference.argument? (arguments : Substitution) (place : Reference) : Option Value :=
  place.identifier.name?.bind (Names.get? arguments)

/-- A place, seen from an object that has the tree in one of its slots. -/
def Reference.below (slot : Slot) (place : Reference) : Reference :=
  { place with address := slot :: place.address }

/-- The references of an expression in document order. -/
def places (conditional : Bool) (value : Value) : List Reference :=
  if value.isIdentifier then [⟨[], value, conditional⟩]
  else value.referenceEntries.attach.flatMap fun entry =>
    (places (conditional || entry.val.2.2) entry.val.2.1).map (.below entry.val.1)
termination_by sizeOf value
decreasing_by exact sizeOf_lt_of_slot? (slot?_of_mem_referenceEntries entry.property)

theorem places_eq (other : value.isIdentifier = false) (conditional : Bool) :
    value.places conditional = value.referenceEntries.flatMap fun entry =>
      (places (conditional || entry.2.2) entry.2.1).map (.below entry.1) := by
  rw [places, other, List.flatMap_subtype (g := fun entry =>
    (places (conditional || entry.2.2) entry.2.1).map (.below entry.1)) fun _ _ => rfl,
    List.unattach_attach]
  rfl

theorem map_places (value : Value) (conditional : Bool) : (value.places conditional).map (fun place
    => (place.identifier, place.conditional)) = value.references conditional := by
  cases is : value.isIdentifier with
  | true => simp [places, references, searchEnds_eq, is]
  | false =>
    rw [places_eq is, references_eq is, List.map_flatMap]
    refine List.flatMap_congr fun entry member => ?_
    rw [List.map_map, ← map_places]
    rfl
termination_by sizeOf value
decreasing_by exact sizeOf_lt_of_slot? (slot?_of_mem_referenceEntries member)

/-! ## Walks of a result -/

/-- Every call lists its arguments. -/
def CallsListed (value : Value) : Prop :=
  ∀ inner ∈ value.nodes, inner.isKind "CallExpression" = true →
    ∃ items, inner.attr "arguments" = .list items

theorem CallsListed.listed_eq (calls : value.CallsListed) : value.listed true = value := by
  unfold listed
  split
  · rename_i isCall
    obtain ⟨items, isList⟩ := calls value value.mem_nodes_self isCall
    exact setAttr_attr (isList.trans (by rw [isList]; rfl)) (by simp)
  · rfl

/-- The visits to the arguments at some places of a tree at an address. -/
def argumentVisits (arguments : Substitution) (address : Address) (places : List Reference) : List
    Visit := places.filterMap fun place => (place.argument? arguments).map fun argument =>
    ⟨.entering, address ++ place.address, argument⟩

/-- A walk of a result comes to the arguments in the order of the references. -/
theorem Substituted.visits {value result : Value} (nodes : arguments.AreNodes)
    (substituted : Substituted arguments value result) (calls : value.CallsListed)
    (conditional : Bool) (address : Address) :
    (argumentVisits arguments address (value.places conditional)).Sublist
      (result.tour address) := by
  obtain ⟨kind, is⟩ := isNode_iff_kind?.1 substituted.isNode_source
  by_cases isIdentifier : kind = "Identifier"
  · have reference : value.isIdentifier := beq_iff_eq.2 (isIdentifier ▸ is)
    rw [places, if_pos reference, argumentVisits, List.filterMap_cons]
    cases given : Reference.argument? arguments ⟨[], value, conditional⟩ with
    | none => simp
    | some argument =>
      obtain ⟨name, named, found⟩ := Option.bind_eq_some_iff.1 given
      have isResult : result = argument := by
        have identifier : value.identifier? = some name := by
          rw [identifier?, if_pos reference]
          exact named
        rw [substituted.eq_fill nodes, fill, identifier]
        simp [found]
      rw [isResult, tour_eq]
      simp
  have other : value.isIdentifier = false := isKind_eq_false is isIdentifier
  by_cases isOpen : kind ∈ openKinds
  · obtain ⟨become, assembled⟩ := substituted.assembled is isOpen isIdentifier
    rw [calls.listed_eq] at assembled
    have parts : argumentVisits arguments address (value.places conditional) =
        value.referenceEntries.flatMap fun entry => argumentVisits arguments
          (address ++ [entry.1]) (entry.2.1.places (conditional || entry.2.2)) := by
      rw [places_eq other, argumentVisits, List.filterMap_flatMap]
      simp [argumentVisits, List.filterMap_map, Function.comp_def, Reference.argument?, Reference.below]
    rw [parts, tour_eq]
    refine .trans ?_ ((((assembled.entries nodes).flatMap fun entry =>
      entry.2.tour (address ++ [entry.1])).cons _).trans (List.sublist_append_left _ _))
    rw [List.flatMap_map]
    refine .flatMap_right _ fun entry member => ?_
    have isChild : entry.2.1 ∈ value.children := by
      have isSlot := (assembled.slots ▸ List.filter_sublist).subset (List.mem_map_of_mem member)
      exact mem_children_of_childSlot isSlot (slot?_of_mem_referenceEntries member)
        (assembled.parts entry member).isNode_source
    exact (assembled.parts entry member).visits nodes
      (fun inner inside => calls inner (mem_nodes_of_child isChild inside)) _ _
  · have nothing : argumentVisits arguments address (value.places conditional) = [] := by
      refine List.filterMap_eq_nil_iff.2 fun place member => ?_
      have reference : place.identifier ∈ value.referenced := by
        rw [referenced_eq_filter value conditional, List.filter_map]
        exact List.mem_map.2 ⟨_, map_places value conditional ▸ List.mem_map_of_mem member, rfl⟩
      cases named : place.identifier.name? with
      | none => simp [Reference.argument?, named]
      | some name =>
        simp [Reference.argument?, named, substituted.free_of_not_open is isOpen _ reference name named]
    rw [nothing]
    exact List.nil_sublist _
termination_by sizeOf value
decreasing_by exact sizeOf_lt_of_slot? (slot?_of_mem_referenceEntries member)

/-! ## Substitution -/

/-- A substitution is simultaneous. What it builds is like the expression with all
arguments put in place at once, so that each reference with an argument becomes a copy of
that argument, as it was; and it is made for its place, so that no node of it is a node of
the expression or reached twice. There is nothing to build exactly when an expression that
is looked at is refused. -/
theorem substitute_simultaneous (nodes : arguments.AreNodes) (value : Value) :
    (∀ build, value.substitute arguments = some build → ∀ next,
      (value.fill arguments true).Twins (build.run next).1 ∧
      (value.CallsListed → ∀ place ∈ value.places false, ∀ argument,
        place.argument? arguments = some argument →
          ∃ copy, (build.run next).1.at? place.address = some copy ∧ argument.Twins copy) ∧
      ((∀ label ∈ value.labels, label < next) →
        value.Remade (build.run next).1 next (build.run next).2)) ∧
    (value.places false).map (fun place => (place.identifier, place.conditional)) =
      value.references false ∧
    (value.substitute arguments = none ↔
      ∃ inner, value.LooksAt inner ∧ Refuses arguments inner) := by
  refine ⟨fun build found next => ?_, map_places value false, substitute_eq_none_iff_looksAt⟩
  obtain ⟨result, substituted, remakes⟩ := exists_substituted value found
  have twins := remakes.twins next
  refine ⟨substituted.eq_fill nodes ▸ twins, fun calls place isPlace argument given => ?_,
    remakes.remade next⟩
  have visited := (substituted.visits nodes calls false []).subset
    (List.mem_filterMap.2 ⟨place, isPlace, by rw [given, Option.map_some]⟩)
  have atRoot : result.at? [] = some result := rfl
  exact twins.exists_at? (at?_of_mem_tour atRoot visited)

/-- A sum of two variables. -/
def sumOf (left right : String) : Value :=
  .binary 0 "+" (.identifier 1 left) (.identifier 2 right)

def exchanged : Substitution :=
  [(.text "a", .identifier 3 "b"), (.text "b", .identifier 4 "a")]

/-- `b + a` -/
def exchangedSum : Value :=
  .binary 7 "+" (.identifier 5 "b") (.identifier 6 "a")

/-- `a()` -/
def parameterCall : Value :=
  .call 0 (.identifier 1 "a") []

/-- In `a + b` with `b` for `a` and `a` for `b`, nothing is replaced twice; and a call of
a parameter is refused. -/
theorem substitute_simultaneous_exchanged :
    exchanged.AreNodes ∧
    (∃ build,
      (sumOf "a" "b").substitute exchanged = some build ∧
      (build.run 5).1 = exchangedSum ∧
      ((sumOf "a" "b").fill exchanged true).Twins exchangedSum ∧
      (∃ copy, exchangedSum.at? [⟨"left", none⟩] = some copy ∧
        Value.Twins (.identifier 3 "b") copy) ∧
      (sumOf "a" "b").Remade exchangedSum 5 8) ∧
    parameterCall.substitute exchanged = none := by
  have nodes : exchanged.AreNodes := by
    intro entry member
    simp only [exchanged, List.mem_cons, List.not_mem_nil, or_false] at member
    rcases member with rfl | rfl <;> rfl
  have builds : ((sumOf "a" "b").substitute exchanged).map (fun build => build.run 5) =
      some (exchangedSum, 8) := by
    with_unfolding_all rfl
  obtain ⟨build, found, isSum⟩ := Option.map_eq_some_iff.1 builds
  obtain ⟨twins, copied, remade⟩ := (substitute_simultaneous nodes (sumOf "a" "b")).1 build found 5
  have listed : (sumOf "a" "b").CallsListed := by
    have none_ : ∀ inner ∈ (sumOf "a" "b").nodes, inner.isKind "CallExpression" = false := by
      decide +kernel
    intro inner member isCall
    cases (none_ inner member).symm.trans isCall
  have places_ : (sumOf "a" "b").places false =
      [⟨[⟨"left", none⟩], .identifier 1 "a", false⟩,
        ⟨[⟨"right", none⟩], .identifier 2 "b", false⟩] := by
    with_unfolding_all rfl
  rw [isSum] at twins copied remade
  refine ⟨nodes, ⟨build, found, congrArg Prod.fst isSum, twins, ?_, remade ?_⟩, ?_⟩
  · exact copied listed _ (places_ ▸ List.mem_cons_self) _ rfl
  · decide
  · exact (substitute_simultaneous nodes parameterCall).2.2.2 ⟨_, .self _, rfl⟩

end Unravel.Value
