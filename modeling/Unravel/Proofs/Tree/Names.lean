import Mathlib.Algebra.BigOperators.Group.List.Basic
import Mathlib.Algebra.GroupWithZero.Nat
import Unravel.Tree.Name

/-!
Contract: maps by name in which no name has two entries.

Maps that are made by writing are of this kind, so that reading a name gives
the value of its only entry. `ofList_induction` proves a property of a made map
from what one write keeps.
-/

namespace Unravel.Name

variable {name : Name} {names : List Name}

theorem isIn_iff : name.isIn names ↔ ∃ other ∈ names, name.key = other.key := by
  simp [isIn, same_iff]

theorem mem_keys_iff : name.key ∈ names.map key ↔ name.isIn names := by
  rw [isIn_iff, List.mem_map]
  exact exists_congr fun _ => and_congr_right' eq_comm

theorem not_mem_keys_iff : name.key ∉ names.map key ↔ name.isIn names = false := by
  rw [mem_keys_iff, Bool.not_eq_true]

theorem isIn_of_mem (member : name ∈ names) : name.isIn names := isIn_iff.2 ⟨name, member, rfl⟩

theorem isIn_congr {other : Name} (same : name.key = other.key) (names : List Name) :
    name.isIn names = other.isIn names := by
  rw [Bool.eq_iff_iff, isIn_iff, isIn_iff, same]

theorem isIn_append {first second : List Name} :
    name.isIn (first ++ second) = (name.isIn first || name.isIn second) := by
  simp [isIn]

end Unravel.Name

namespace Unravel.Names

variable {α : Type}

variable {name : Name} {names : Names α} {value : α} {pairs : List (Name × α)}

/-- No name has two entries. -/
def Distinct (names : Names α) : Prop := (names.map fun entry => entry.1.key).Nodup

theorem get?_eq (names : Names α) (name : Name) :
    get? names name = (names.find? fun entry => entry.1.same name).map Prod.snd := by
  induction names with
  | nil => rfl
  | cons entry rest ih =>
    rw [get?, List.find?_cons, ih]
    cases entry.1.same name <;> rfl

theorem get?_congr (names : Names α) {other : Name} (same : name.key = other.key) :
    get? names name = get? names other := by
  simp only [get?_eq, Name.same, same]

theorem get?_isSome (names : Names α) (name : Name) :
    (get? names name).isSome = name.isIn (keys names) := by
  rw [get?_eq, Option.isSome_map, Bool.eq_iff_iff, List.find?_isSome, ← Name.mem_keys_iff]
  simp [keys, Name.same_iff]

theorem get?_erase (names : Names α) (name other : Name) :
    get? (erase names name) other = if name.same other then none else get? names other := by
  rw [get?_eq, erase, List.find?_filter, get?_eq]
  split
  · rename_i same
    rw [List.find?_eq_none.2, Option.map_none]
    intro entry _
    simp [Name.same, Name.same_iff.1 same]
  · rename_i differs
    congr 2
    funext entry
    rw [Name.same_iff] at differs
    by_cases is : entry.1.key = other.key <;> simp [Name.same, is, Ne.symm differs]

theorem exists_entry_of_get? (found : get? names name = some value) :
    ∃ spelling, (spelling, value) ∈ names ∧ spelling.key = name.key := by
  rw [get?_eq] at found
  obtain ⟨entry, isEntry, rfl⟩ := Option.map_eq_some_iff.1 found
  have same := List.find?_some isEntry
  exact ⟨entry.1, List.mem_of_find?_eq_some isEntry, Name.same_iff.1 same⟩

theorem mem_of_get? (found : get? names name = some value) :
    ∃ spelling, (spelling, value) ∈ names :=
  (exists_entry_of_get? found).imp fun _ entry => entry.1

theorem get?_of_mem (distinct : names.Distinct) (member : (name, value) ∈ names) :
    get? names name = some value := by
  induction names with
  | nil => cases member
  | cons entry rest ih =>
    obtain ⟨spelling, held⟩ := entry
    obtain ⟨absent, later⟩ := List.nodup_cons.1 distinct
    rcases List.mem_cons.1 member with first | inRest
    · cases first
      simp [get?]
    · have differs : spelling.same name = false := by
        rw [Bool.eq_false_iff]
        intro same
        exact absent (List.mem_map.2 ⟨_, inRest, (Name.same_iff.1 same).symm⟩)
      rw [get?, differs]
      exact ih later inRest

theorem keys_put (names : Names α) (name : Name) (value : α) :
    (put names name value).map (fun entry => entry.1.key) =
      if name.key ∈ names.map (fun entry => entry.1.key) then names.map fun entry => entry.1.key
      else names.map (fun entry => entry.1.key) ++ [name.key] := by
  induction names with
  | nil => rfl
  | cons entry rest ih =>
    obtain ⟨spelling, held⟩ := entry
    by_cases here : spelling.same name
    · simp [put, here, Name.same_iff.1 here]
    · have differs : ¬ name.key = spelling.key := fun same => here (Name.same_iff.2 same.symm)
      by_cases later : name.key ∈ rest.map fun entry => entry.1.key
      · simp only [put, here, Bool.false_eq_true, ↓reduceIte, List.map_cons, ih,
          later, List.mem_cons, or_true]
      · simp only [put, here, Bool.false_eq_true, ↓reduceIte, List.map_cons, ih,
          later, List.mem_cons, differs, or_self, List.cons_append]

theorem distinct_put (distinct : names.Distinct) (name : Name) (value : α) :
    (put names name value).Distinct := by
  unfold Distinct at *
  rw [keys_put]
  split
  · exact distinct
  · rename_i absent
    exact List.nodup_append.2 ⟨distinct, by simp, by
      intro key member other last same
      rw [List.mem_singleton.1 last] at same
      exact absent (same ▸ member)⟩

variable {entry : Name × α}

theorem mem_put (member : entry ∈ put names name value) : entry ∈ names ∨ entry.2 = value := by
  induction names with
  | nil =>
    rw [List.mem_singleton.1 member]
    exact .inr rfl
  | cons head rest ih =>
    unfold put at member
    split at member
    · rcases List.mem_cons.1 member with rfl | later
      · exact .inr rfl
      · exact .inl (List.mem_cons_of_mem _ later)
    · rcases List.mem_cons.1 member with rfl | later
      · exact .inl List.mem_cons_self
      · exact (ih later).imp_left (List.mem_cons_of_mem _)

/-- What holds of a map and is kept by every write holds after many. -/
theorem ofList_induction {motive : Names α → Prop} (empty : motive []) (step : ∀ names pair, pair ∈
    pairs → motive names → motive (put names pair.1 pair.2)) : motive (ofList pairs) := by
  have general (names : Names α) (start : motive names) (rest : List (Name × α))
      (among : ∀ pair ∈ rest, pair ∈ pairs) :
      motive (rest.foldl (fun names pair => put names pair.1 pair.2) names) := by
    induction rest generalizing names with
    | nil => exact start
    | cons pair rest ih =>
      exact ih _ (step names pair (among pair List.mem_cons_self) start)
        fun other member => among other (List.mem_cons_of_mem _ member)
  exact general [] empty pairs fun _ member => member

theorem distinct_ofList (pairs : List (Name × α)) : (ofList pairs).Distinct :=
  ofList_induction List.nodup_nil fun _ pair _ distinct => distinct_put distinct pair.1 pair.2

theorem put_of_absent (absent : name.key ∉ names.map fun entry => entry.1.key) (value : α) :
    put names name value = names ++ [(name, value)] := by
  induction names with
  | nil => rfl
  | cons entry rest ih =>
    obtain ⟨spelling, held⟩ := entry
    have differs : spelling.same name = false := by
      rw [Bool.eq_false_iff]
      intro same
      exact absent (List.mem_map.2 ⟨_, List.mem_cons_self, Name.same_iff.1 same⟩)
    have later := ih fun member => absent (List.mem_cons_of_mem _ member)
    simp only [put, differs, Bool.false_eq_true, ↓reduceIte, later, List.cons_append]

theorem ofList_of_distinct (distinct : Distinct pairs) : ofList pairs = pairs := by
  have general (names : Names α) (rest : List (Name × α)) (distinct : Distinct (names ++ rest)) :
      rest.foldl (fun names pair => put names pair.1 pair.2) names = names ++ rest := by
    induction rest generalizing names with
    | nil => exact (List.append_nil names).symm
    | cons pair rest ih =>
      have absent : pair.1.key ∉ names.map fun entry => entry.1.key := by
        unfold Distinct at distinct
        rw [List.map_append, List.nodup_append] at distinct
        exact fun member => distinct.2.2 _ member _ List.mem_cons_self rfl
      rw [List.foldl_cons, put_of_absent absent, ih]
      · rw [List.append_assoc]
        rfl
      · rwa [List.append_assoc]
  exact general [] pairs distinct

/-- The last write of a name is the one that is read. -/
theorem get?_ofList (pairs : List (Name × α)) (name : Name) :
    get? (ofList pairs) name = (pairs.reverse.find? fun pair => pair.1.same name).map Prod.snd := by
  rw [ofList, List.foldl_eq_foldr_reverse]
  induction pairs.reverse with
  | nil => rfl
  | cons pair rest ih =>
    rw [List.foldr_cons, get?_put, List.find?_cons, ih]
    cases pair.1.same name <;> rfl

theorem mem_ofList (member : entry ∈ ofList pairs) : ∃ pair ∈ pairs, pair.2 = entry.2 := by
  have all : ∀ entry ∈ ofList pairs, ∃ pair ∈ pairs, pair.2 = entry.2 := by
    apply ofList_induction (motive := fun names => ∀ entry ∈ names, ∃ pair ∈ pairs, pair.2 = entry.2)
    · simp
    · intro names pair among known entry written
      rcases mem_put written with old | new
      · exact known entry old
      · exact ⟨pair, among, new.symm⟩
  exact all entry member

end Unravel.Names
