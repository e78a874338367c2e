import Mathlib.Data.List.Nodup
import Mathlib.Data.List.Perm.Subperm
import Unravel.Pass.Inlining.Recursion
import Unravel.Proofs.Tree.Names

/-!
Contract: chains of calls through tracked helpers, and the search for them.

`CallsThrough` is the relation that `callsBack` searches. Owns: the search misses
no chain (`callsBack_of_callsThrough`), although it looks at every name once and
is given only as many steps as there are names.
-/

namespace Unravel

variable {name target caller : Name} {seen names called : List Name}

namespace Name

theorem mem_of_mem_distinct (member : name ∈ distinct names) : name ∈ names := by
  induction names with
  | nil => cases member
  | cons head rest ih =>
    rcases List.mem_cons.1 member with rfl | later
    · exact List.mem_cons_self
    · exact List.mem_cons_of_mem _ (ih (List.mem_filter.1 later).1)

theorem isIn_distinct (member : name ∈ names) : name.isIn (distinct names) := by
  induction names with
  | nil => cases member
  | cons head rest ih =>
    rw [isIn_iff]
    by_cases here : name.key = head.key
    · exact ⟨head, List.mem_cons_self, here⟩
    · rcases List.mem_cons.1 member with rfl | later
      · exact absurd rfl here
      · obtain ⟨other, among, same⟩ := isIn_iff.1 (ih later)
        refine ⟨other, List.mem_cons_of_mem _ (List.mem_filter.2 ⟨among, ?_⟩), same⟩
        simpa [Name.same, ← same] using here

theorem nodup_keys_distinct (names : List Name) : ((distinct names).map key).Nodup := by
  induction names with
  | nil => exact .nil
  | cons head rest ih =>
    refine List.nodup_cons.2 ⟨fun member => ?_, ih.sublist (List.filter_sublist.map key)⟩
    obtain ⟨other, among, same⟩ := List.mem_map.1 member
    simpa [Name.same, same] using (List.mem_filter.1 among).2

end Name

namespace Pass.Inlining

variable {callees : Name → Option (List Name)} {tracked : List Name}

/-- One name calls another, directly or through tracked names. -/
inductive CallsThrough (callees : Name → Option (List Name)) (tracked : List Name) :
    Name → Name → Prop where
  | direct {caller target : Name} {called : List Name} (has : callees caller = some called)
      (calls : target.isIn called = true) : CallsThrough callees tracked caller target
  | through {caller middle target : Name} {called : List Name} (has : callees caller = some called)
      (calls : middle ∈ called) (isTracked : middle.isIn tracked = true) (further : CallsThrough
      callees tracked middle target) : CallsThrough callees tracked caller target

/-! ## The search misses no chain -/

variable {found pending : List Name} {next : Name}

/-- Nothing that a name calls is left to look at: not the name searched for, nor
a tracked name that has not been seen. -/
def Explored (callees : Name → Option (List Name)) (tracked : List Name) (target : Name) (seen :
    List Name) (name : Name) : Prop := ∀ called, callees name = some called → target.isIn called =
    false ∧ ∀ other ∈ called, other.isIn tracked = true → other.isIn seen = true

theorem Explored.mono {more : List Name} (explored : Explored callees tracked target seen name)
    (within : ∀ other : Name, other.isIn seen → other.isIn more) :
    Explored callees tracked target more name := by
  intro called has
  obtain ⟨absent, known⟩ := explored called has
  exact ⟨absent, fun other member isTracked => within other (known other member isTracked)⟩

theorem of_mem_unseen (member : name ∈ unseen tracked seen called) :
    name.isIn tracked ∧ name.isIn seen = false := by
  have kept := (List.mem_filter.1 (Name.mem_of_mem_distinct member)).2
  simpa using kept

theorem explored_unseen (has : callees next = some called) (absent : target.isIn called = false) :
    Explored callees tracked target (unseen tracked seen called ++ seen) next := by
  intro given hasGiven
  rw [has, Option.some.injEq] at hasGiven
  subst hasGiven
  refine ⟨absent, fun other among isTracked => ?_⟩
  rw [Name.isIn_append]
  by_cases isSeen : other.isIn seen
  · rw [isSeen, Bool.or_true]
  · rw [unseen, Name.isIn_distinct (List.mem_filter.2 ⟨among, by simp [isTracked, isSeen]⟩),
      Bool.true_or]

section Search

variable (respects : ∀ name other : Name, name.key = other.key → callees name = callees other)

include respects

/-- What waits or has been explored, after the next name has been looked at. -/
theorem waits_after (next_ : Explored callees tracked target (found ++ seen) next) (waits : ∀ name ∈
    seen, name.isIn (next :: pending) ∨ Explored callees tracked target seen name) : ∀ name ∈ found
    ++ seen, name.isIn (found ++ pending) ∨ Explored callees tracked target (found ++ seen) name :=
    by
  intro name member
  rw [Name.isIn_append]
  rcases List.mem_append.1 member with isFound | wasSeen
  · left
    rw [Name.isIn_of_mem isFound, Bool.true_or]
  · rcases waits name wasSeen with isPending | explored
    · by_cases isNext : name.key = next.key
      · right
        intro called has
        exact next_ called (respects name next isNext ▸ has)
      · left
        have later : name.isIn pending := by
          simpa [Name.isIn, Name.same, isNext] using isPending
        rw [later, Bool.or_true]
    · right
      apply explored.mono
      intro other isSeen
      rw [Name.isIn_append, isSeen, Bool.or_true]

/-- A search that finds nothing ends with names whose calls lead nowhere else. It has steps
enough, as it sees no name twice. -/
theorem exists_explored_of_reaches_eq_false {root : Name} (fuel : Nat)
    (enough : tracked.length + 1 + pending.length ≤ fuel + seen.length)
    (distinct : (seen.map Name.key).Nodup)
    (within : seen.map Name.key ⊆ (root :: tracked).map Name.key) (waits : ∀ name ∈ seen, name.isIn
    pending ∨ Explored callees tracked target seen name) (nothing : reaches callees tracked target
    fuel seen pending = false) : ∃ final : List Name, (∀ name : Name, name.isIn seen → name.isIn
    final) ∧ ∀ name ∈ final, Explored callees tracked target final name := by
  induction fuel generalizing seen pending with
  | zero =>
    have most := (List.subperm_of_subset distinct within).length_le
    simp only [List.length_map, List.length_cons] at most
    have done : pending = [] := List.eq_nil_of_length_eq_zero (by omega)
    subst done
    exact ⟨seen, fun _ isIn => isIn, fun name member =>
      (waits name member).resolve_left (by simp [Name.isIn])⟩
  | succ fuel ih =>
    cases pending with
    | nil =>
      exact ⟨seen, fun _ isIn => isIn, fun name member =>
        (waits name member).resolve_left (by simp [Name.isIn])⟩
    | cons next pending =>
      rw [reaches] at nothing
      simp only [List.length_cons] at enough
      cases has : callees next with
      | none =>
        rw [has] at nothing
        have noCalls : Explored callees tracked target ([] ++ seen) next := by
          intro called hasCalled
          rw [has] at hasCalled
          cases hasCalled
        have waiting : ∀ name ∈ seen,
            name.isIn pending ∨ Explored callees tracked target seen name :=
          waits_after respects noCalls waits
        exact ih (by omega) distinct within waiting nothing
      | some called =>
        simp only [has] at nothing
        split at nothing
        · cases nothing
        · rename_i absent
          have once : ((unseen tracked seen called ++ seen).map Name.key).Nodup := by
            rw [List.map_append]
            refine (Name.nodup_keys_distinct _).append distinct fun key isNew wasSeen => ?_
            obtain ⟨name, member, rfl⟩ := List.mem_map.1 isNew
            exact Name.not_mem_keys_iff.2 (of_mem_unseen member).2 wasSeen
          have among : (unseen tracked seen called ++ seen).map Name.key ⊆
              (root :: tracked).map Name.key := by
            rw [List.map_append, List.append_subset]
            refine ⟨fun key isNew => ?_, within⟩
            obtain ⟨name, member, rfl⟩ := List.mem_map.1 isNew
            exact List.mem_cons_of_mem _ (Name.mem_keys_iff.2 (of_mem_unseen member).1)
          obtain ⟨final, contains, closed⟩ := ih (by simp only [List.length_append]; omega) once
            among (waits_after respects (explored_unseen has (Bool.eq_false_iff.2 absent)) waits)
            nothing
          refine ⟨final, fun name isIn => contains name ?_, closed⟩
          rw [Name.isIn_append, isIn, Bool.or_true]

theorem callsBack_of_callsThrough (chain : CallsThrough callees tracked name name) :
    callsBack callees tracked name := by
  by_contra missed
  have once : ([name].map Name.key).Nodup := List.nodup_singleton _
  have among : [name].map Name.key ⊆ (name :: tracked).map Name.key := by simp
  obtain ⟨final, contains, closed⟩ := exists_explored_of_reaches_eq_false respects (tracked.length +
    1) (Nat.le_refl _) once among (fun other member => .inl (Name.isIn_of_mem member))
    (Bool.eq_false_iff.2 missed)
  -- Every name of the chain is among those whose calls lead nowhere else.
  have impossible {caller target : Name} (chain : CallsThrough callees tracked caller target)
      (isTarget : target = name) (isIn : caller.isIn final) : False := by
    induction chain with
    | @direct caller target called has calls =>
      obtain ⟨spelling, member, same⟩ := Name.isIn_iff.1 isIn
      have explored := (closed spelling member called (respects _ _ same ▸ has)).1
      rw [← isTarget, calls] at explored
      cases explored
    | @through caller middle target called has calls isTracked further ih =>
      obtain ⟨spelling, member, same⟩ := Name.isIn_iff.1 isIn
      have explored := (closed spelling member called (respects _ _ same ▸ has)).2
      exact ih isTarget (explored middle calls isTracked)
  exact impossible chain rfl (contains name (Name.isIn_of_mem List.mem_cons_self))

end Search

end Pass.Inlining

end Unravel
