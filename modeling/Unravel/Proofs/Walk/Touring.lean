import Mathlib.Data.List.Nodup
import Unravel.Proofs.Tree.Nodes
import Unravel.Proofs.Walk.Tracing

/-!
Contract: the order in which a walk comes to the nodes of a tree.

The tour of a tree enters each node, tours its children from left to right and
leaves it. It enters the nodes in document order, its visits are properly nested,
and it comes to no place twice. A walk whose actions only record makes the tour
of its tree.
-/

namespace Unravel

variable {σ : Type}

/-- A node that is entered or left. -/
structure Visit where
  phase : Phase
  address : Address
  node : Value

namespace Value

/-! ## Tours -/

/-- The visits that enter a node at an address, tour its children and leave
it. -/
def tour (address : Address) (value : Value) : List Visit := ⟨.entering, address, value⟩ ::
  (value.childEntries.attach.flatMap fun entry =>
      tour (address ++ [entry.val.1]) entry.val.2) ++ [⟨.leaving, address, value⟩]
termination_by sizeOf value
decreasing_by exact sizeOf_lt_of_mem_childEntries entry.property

theorem tour_eq (address : Address) (value : Value) : value.tour address = ⟨.entering, address,
    value⟩ :: (value.childEntries.flatMap fun entry => entry.2.tour (address ++ [entry.1])) ++
    [⟨.leaving, address, value⟩] := by
  rw [tour, List.flatMap_subtype (g := fun entry => entry.2.tour (address ++ [entry.1]))
    fun _ _ => rfl, List.unattach_attach]

theorem tour_induction {motive : Address → Value → Prop} (step : ∀ address value,
      (∀ entry ∈ value.childEntries, motive (address ++ [entry.1]) entry.2) → motive address value)
    (address : Address) (value : Value) : motive address value :=
  step address value fun entry _ => tour_induction step (address ++ [entry.1]) entry.2
termination_by sizeOf value
decreasing_by exact sizeOf_lt_of_mem_childEntries (by assumption)

end Value

/-- Each visit that enters a node is followed by properly nested visits and the
one that leaves the node. -/
inductive Visit.Nested : List Visit → Prop where
  | nil : Nested []
  | within (address : Address) (node : Value) {inner : List Visit} (nested : Nested inner) :
      Nested (⟨.entering, address, node⟩ :: inner ++ [⟨.leaving, address, node⟩])
  | append {first second : List Visit} (left : Nested first) (right : Nested second) :
      Nested (first ++ second)

namespace Value

theorem nested_flatMap {α : Type} {items : List α} {visits : α → List Visit}
    (each : ∀ item ∈ items, Visit.Nested (visits item)) : Visit.Nested (items.flatMap visits) := by
  induction items with
  | nil => exact .nil
  | cons item rest ih =>
    exact .append (each item List.mem_cons_self)
      (ih fun other member => each other (List.mem_cons_of_mem _ member))

theorem nested_tour (address : Address) (value : Value) : Visit.Nested (value.tour address) := by
  induction address, value using tour_induction with
  | step address value ih =>
    rw [tour_eq]
    exact .within address value (nested_flatMap ih)

/-- The visits of one phase. -/
def inPhase (phase : Phase) (visits : List Visit) : List Visit :=
  visits.filter fun visit => visit.phase = phase

theorem map_node_tour (address : Address) (value : Value) :
    (inPhase .entering (value.tour address)).map Visit.node = value.nodes := by
  induction address, value using tour_induction with
  | step address value ih =>
    rw [tour_eq, nodes_eq, inPhase, ← map_snd_childEntries, List.flatMap_map]
    rw [List.cons_append, List.filter_cons_of_pos rfl, List.filter_append, List.map_cons,
      List.filter_flatMap, List.map_append, List.map_flatMap]
    have each : ∀ entry ∈ value.childEntries,
        ((entry.2.tour (address ++ [entry.1])).filter fun visit => visit.phase = .entering).map
          Visit.node = entry.2.nodes := ih
    rw [List.flatMap_congr each]
    simp

variable {visit : Visit} {address : Address} {value : Value}

theorem at?_of_mem_tour {tree : Value} (found : tree.at? address = some value)
    (member : visit ∈ value.tour address) : tree.at? visit.address = some visit.node := by
  induction address, value using tour_induction with
  | step address value ih =>
    rw [tour_eq] at member
    rcases List.mem_append.1 member with before | last
    · rcases List.mem_cons.1 before with rfl | inside
      · exact found
      · obtain ⟨entry, isEntry, further⟩ := List.mem_flatMap.1 inside
        apply ih entry isEntry _ further
        have held := (mem_childEntries.1 isEntry).2.1
        rw [at?_append_of_at? found, at?, held]
        rfl
    · rw [List.mem_singleton.1 last]
      exact found

theorem exists_append_of_mem_tour (member : visit ∈ value.tour address) :
    ∃ below, visit.address = address ++ below := by
  induction address, value using tour_induction with
  | step address value ih =>
    rw [tour_eq] at member
    rcases List.mem_append.1 member with before | last
    · rcases List.mem_cons.1 before with rfl | inside
      · exact ⟨[], (List.append_nil _).symm⟩
      · obtain ⟨entry, isEntry, further⟩ := List.mem_flatMap.1 inside
        obtain ⟨below, is⟩ := ih entry isEntry further
        exact ⟨entry.1 :: below, by rw [is, List.append_assoc]; rfl⟩
    · rw [List.mem_singleton.1 last]
      exact ⟨[], (List.append_nil _).symm⟩

/-- The addresses that the visits of one phase are at. -/
def placesIn (phase : Phase) (visits : List Visit) : List Address :=
  (inPhase phase visits).map Visit.address

theorem placesIn_tour (phase : Phase) (address : Address) (value : Value) : (placesIn phase
    (value.tour address)).Perm (address :: value.childEntries.flatMap fun entry =>
        placesIn phase (entry.2.tour (address ++ [entry.1]))) := by
  rw [tour_eq, placesIn, inPhase, List.cons_append]
  cases phase with
  | entering =>
    rw [List.filter_cons_of_pos rfl, List.filter_append, List.filter_flatMap, List.map_cons,
      List.map_append, List.map_flatMap]
    simp [placesIn, inPhase]
  | leaving =>
    rw [List.filter_cons_of_neg (by simp), List.filter_append, List.filter_flatMap,
      List.map_append, List.map_flatMap]
    simp [placesIn, inPhase]

/-- In a tree whose objects do not repeat attribute names, a tour enters no
place twice and leaves no place twice. -/
theorem nodup_placesIn_tour (phase : Phase) (address : Address) (value : Value)
    (distinct : ∀ node ∈ value.nodes, (Members.names node.fields).Nodup) :
    (placesIn phase (value.tour address)).Nodup := by
  induction address, value using tour_induction with
  | step address value ih =>
    rw [(placesIn_tour phase address value).nodup_iff, List.nodup_cons, List.nodup_flatMap]
    have comesTo {entry : Slot × Value} {place : Address} (member : place ∈ placesIn phase
        (entry.2.tour (address ++ [entry.1]))) : ∃ below, place = address ++ entry.1 :: below := by
      obtain ⟨visit, isVisit, rfl⟩ := List.mem_map.1 member
      obtain ⟨below, is⟩ := exists_append_of_mem_tour (List.mem_filter.1 isVisit).1
      exact ⟨below, by rw [is, List.append_assoc]; rfl⟩
    refine ⟨?_, ?_, ?_⟩
    · intro member
      obtain ⟨entry, _, inside⟩ := List.mem_flatMap.1 member
      obtain ⟨below, is⟩ := comesTo inside
      have lengths := congrArg List.length is
      rw [List.length_append, List.length_cons] at lengths
      omega
    · intro entry member
      apply ih entry member
      intro node isNode
      apply distinct
      rw [nodes_eq, ← map_snd_childEntries, List.flatMap_map]
      exact List.mem_cons_of_mem _ (List.mem_flatMap.2 ⟨entry, member, isNode⟩)
    · refine (childEntries_pairwise (distinct value (mem_nodes_self value))).imp ?_
      intro left right differ place inLeft inRight
      obtain ⟨first, isFirst⟩ := comesTo inLeft
      obtain ⟨second, isSecond⟩ := comesTo inRight
      have same := List.append_cancel_left (isFirst.symm.trans isSecond)
      exact differ (List.cons.inj same).1

end Value

end Unravel
