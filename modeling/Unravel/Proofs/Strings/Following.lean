import Mathlib.Data.List.Chain
import Mathlib.Data.List.Infix
import Mathlib.Data.List.Perm.Subperm
import Mathlib.Logic.Relation
import Unravel.Proofs.Strings.Routes
import Unravel.Proofs.Tree.Names

/-!
Contract: where following aliases ends.

The alias of a name is settled by the first scope outwards that records one or binds the
name (`visibleAlias?_eq_some_iff`). Aliases are followed to the end of the longest chain
in which no name is met twice. That chain is unique, and no longer than there are records,
so the bound on the steps is never met. The last name has no alias if no name comes again
further on, and otherwise its alias is in the chain.
-/

namespace Unravel.Pass.Strings

/-! ## Chains of names -/

/-- Names from a first one on that each lead to the next, none of them met twice. -/
structure Chain (next : Name → Name → Prop) (name : Name) (names : List Name) : Prop where
  first : names.head? = some name
  linked : names.IsChain next
  distinct : (names.map Name.key).Nodup

/-- A chain that cannot be continued, as its last name leads nowhere or back. -/
structure Longest (next : Name → Name → Prop) (name final : Name) (names : List Name) : Prop
    extends Chain next name names where
  last : names.getLast? = some final
  stops : ∀ other, next final other → other.isIn names

/-- From a name others are come to, of which one is met again further on. -/
def Cyclic (next : Name → Name → Prop) (name : Name) : Prop := ∃ met again, Relation.ReflTransGen
  next name met ∧ Relation.TransGen next met again ∧ met.key = again.key

variable {next : Name → Name → Prop} {name final : Name} {names other : List Name}

section Determined

variable (determined : ∀ name left right, next name left → next name right → left = right)

include determined

/-- Of two chains from one name, one begins like the other. -/
theorem begins_or_begins (left : (name :: names).IsChain next)
    (right : (name :: other).IsChain next) : names <+: other ∨ other <+: names := by
  induction names generalizing name other with
  | nil => exact .inl ⟨other, rfl⟩
  | cons second names ih =>
    cases other with
    | nil => exact .inr ⟨second :: names, rfl⟩
    | cons third other =>
      obtain ⟨leads, left⟩ := List.isChain_cons_cons.1 left
      obtain ⟨alsoLeads, right⟩ := List.isChain_cons_cons.1 right
      cases determined name second third leads alsoLeads
      rw [List.cons_prefix_cons, List.cons_prefix_cons]
      exact (ih left right).imp (fun begins => ⟨rfl, begins⟩) fun begins => ⟨rfl, begins⟩

theorem Chain.begins_or_begins (left : Chain next name names) (right : Chain next name other) :
    names <+: other ∨ other <+: names := by
  obtain ⟨names, rfl⟩ := List.head?_eq_some_iff.1 left.first
  obtain ⟨other, rfl⟩ := List.head?_eq_some_iff.1 right.first
  rw [List.cons_prefix_cons, List.cons_prefix_cons]
  exact (Strings.begins_or_begins determined left.linked right.linked).imp
    (fun begins => ⟨rfl, begins⟩) fun begins => ⟨rfl, begins⟩

/-- All chains from a name are beginnings of the longest. -/
theorem Longest.begins (longest : Longest next name final names) (chain : Chain next name other) :
    other <+: names := by
  rcases chain.begins_or_begins determined longest.toChain with begins | ⟨further, rfl⟩
  · exact begins
  · cases further with
    | nil => rw [List.append_nil]
    | cons beyond further =>
      -- What follows the last name is in the chain already, so it would be met twice.
      have leads : next final beyond :=
        (List.isChain_append.1 chain.linked).2.2 final longest.last beyond rfl
      have met := longest.stops beyond leads
      have distinct := chain.distinct
      rw [List.map_append] at distinct
      have absent : beyond.key ∉ names.map Name.key := fun member =>
        (List.nodup_append.1 distinct).2.2 _ member _ List.mem_cons_self rfl
      rw [Name.not_mem_keys_iff, met] at absent
      cases absent

/-- The longest chain and its last name are unique. -/
theorem Longest.unique {last : Name} (longest : Longest next name final names)
    (also : Longest next name last other) : other = names ∧ last = final := by
  have same : other = names := (longest.begins determined also.toChain).eq_of_length_le
    (also.begins determined longest.toChain).length_le
  subst same
  exact ⟨rfl, Option.some.inj (also.last.symm.trans longest.last)⟩

/-- Where the last name leads nowhere, what a name of the chain leads to follows it. -/
theorem Longest.follows {near far : Name} (inner : List Name) {outer : List Name} (longest : Longest
    next name final (inner ++ near :: outer)) (ends : ∀ other, ¬ next final other) (leads : next
    near far) : ∃ rest, outer = far :: rest := by
  cases outer with
  | nil =>
    have last := longest.last
    rw [List.getLast?_concat] at last
    cases last
    exact absurd leads (ends far)
  | cons follower rest =>
    have alsoLeads := (List.isChain_append_cons_cons.1 longest.linked).2.1
    rw [determined near far follower leads alsoLeads]
    exact ⟨rest, rfl⟩

theorem Longest.mem_of_transGen {met again : Name} (before : List Name) {after : List Name} (longest
    : Longest next name final (before ++ met :: after)) (ends : ∀ other, ¬ next final other) (leads
    : Relation.TransGen next met again) : again ∈ after := by
  induction leads with
  | single leads =>
    obtain ⟨rest, rfl⟩ := longest.follows determined before ends leads
    exact List.mem_cons_self
  | tail _ leads ih =>
    obtain ⟨inner, outer, rfl⟩ := List.append_of_mem ih
    rw [← List.cons_append, ← List.append_assoc] at longest
    obtain ⟨rest, rfl⟩ := longest.follows determined (before ++ _ :: inner) ends leads
    simp

theorem Longest.mem_of_reflTransGen {met : Name} (longest : Longest next name final names) (ends : ∀
    other, ¬ next final other) (leads : Relation.ReflTransGen next name met) : met ∈ names := by
  obtain ⟨after, rfl⟩ := List.head?_eq_some_iff.1 longest.first
  rcases Relation.reflTransGen_iff_eq_or_transGen.1 leads with rfl | leads
  · exact List.mem_cons_self
  · exact List.mem_cons_of_mem _ (longest.mem_of_transGen determined [] ends leads)

omit determined in
theorem Longest.reaches {met : Name} (longest : Longest next name final names) (member : met ∈
    names) : Relation.ReflTransGen next name met ∧ Relation.ReflTransGen next met final := by
  obtain ⟨after, rfl⟩ := List.head?_eq_some_iff.1 longest.first
  constructor
  · refine longest.linked.induction (Relation.ReflTransGen next name) _ ?_ ?_ met member
    · exact fun near far leads reached => reached.tail leads
    · exact fun _ => .refl
  · refine longest.linked.backwards_induction (Relation.ReflTransGen next · final) _ ?_ ?_ met
      member
    · exact fun near far leads reached => reached.head leads
    · intro filled
      rw [Option.some.inj ((List.getLast?_eq_some_getLast filled).symm.trans longest.last)]

/-- The last name leads back exactly if a cycle can be come to. -/
theorem Longest.cyclic_iff (longest : Longest next name final names) :
    Cyclic next name ↔ ∃ back, next final back := by
  constructor
  · rintro ⟨met, again, reached, leads, same⟩
    by_contra ends
    push Not at ends
    obtain ⟨before, after, rfl⟩ := List.append_of_mem
      (longest.mem_of_reflTransGen determined ends reached)
    have later := longest.mem_of_transGen determined before ends leads
    have distinct := longest.distinct
    rw [List.map_append, List.map_cons, List.nodup_append, List.nodup_cons] at distinct
    exact distinct.2.1.1 (same ▸ List.mem_map_of_mem later)
  · rintro ⟨back, leads⟩
    obtain ⟨met, member, same⟩ := Name.isIn_iff.1 (longest.stops back leads)
    obtain ⟨reached, onward⟩ := longest.reaches member
    exact ⟨met, back, reached, .tail' onward leads, same.symm⟩

end Determined

/-! ## Following to the end -/

section Follow

variable {visible? : Name → Option Name} {targets : List Name}

theorem exists_near_of_mem (linked : (name :: names).IsChain next) :
    ∀ far ∈ names, ∃ near, next near far := by
  induction names generalizing name with
  | nil => exact fun _ member => absurd member List.not_mem_nil
  | cons second names ih =>
    obtain ⟨leads, linked⟩ := List.isChain_cons_cons.1 linked
    exact List.forall_mem_cons.2 ⟨⟨name, leads⟩, ih linked⟩

/-- A chain has one name more at most than there are names to lead to. -/
theorem Chain.length_le (within : ∀ near far, next near far → far ∈ targets)
    (chain : Chain next name names) : names.length ≤ targets.length + 1 := by
  obtain ⟨onward, rfl⟩ := List.head?_eq_some_iff.1 chain.first
  have distinct : (onward.map Name.key).Nodup := (List.nodup_cons.1 chain.distinct).2
  have reached : onward.map Name.key ⊆ targets.map Name.key := by
    apply List.map_subset
    intro far member
    obtain ⟨near, leads⟩ := exists_near_of_mem chain.linked far member
    exact within near far leads
  have bound := (List.subperm_of_subset distinct reached).length_le
  rw [List.length_map, List.length_map] at bound
  rw [List.length_cons]
  omega

theorem Chain.append {current target : Name} {before : List Name} (chain : Chain next name (before
    ++ [current])) (leads : next current target) (new : target.isIn (before ++ [current]) = false) :
    Chain next name (before ++ [current] ++ [target]) where
  first := by
    rw [List.head?_append, chain.first]
    rfl
  linked := by
    refine List.isChain_append.2 ⟨chain.linked, List.isChain_singleton target, ?_⟩
    simpa using leads
  distinct := by
    have absent := Name.not_mem_keys_iff.2 new
    rw [List.map_append]
    refine List.nodup_append.2 ⟨chain.distinct, by simp, ?_⟩
    intro key member other last same
    rw [List.mem_singleton.1 last] at same
    exact absent (same ▸ member)

theorem longest_of_followAliases (within : ∀ near far, visible? near = some far → far ∈ targets)
    (fuel : Nat) (before : List Name) (current : Name) (chain : Chain (fun near far => visible? near
    = some far) name (before ++ [current])) (enough : targets.length < fuel + before.length) : ∃
    names, Longest (fun near far => visible? near = some far) name (followAliases visible? fuel
    (before ++ [current]).reverse current) names := by
  induction fuel generalizing before current with
  | zero =>
    have bound := chain.length_le within
    rw [List.length_append, List.length_singleton] at bound
    omega
  | succ fuel ih =>
    rw [followAliases]
    cases visible : visible? current with
    | none =>
      refine ⟨before ++ [current], chain, List.getLast?_concat, ?_⟩
      intro other leads
      rw [visible] at leads
      cases leads
    | some target =>
      have seen : target.isIn (before ++ [current]).reverse =
          target.isIn (before ++ [current]) := by
        simp only [Name.isIn, List.any_reverse]
      dsimp only
      rw [seen]
      split
      · rename_i met
        refine ⟨before ++ [current], chain, List.getLast?_concat, ?_⟩
        intro other leads
        rw [visible] at leads
        cases leads
        exact met
      · rename_i new
        have longer := chain.append visible (Bool.eq_false_iff.2 new)
        rw [← List.reverse_concat]
        apply ih (before ++ [current]) target longer
        rw [List.length_append, List.length_singleton]
        omega

end Follow

/-! ## Aliases seen from a scope -/

/-- The first of a chain of scopes that records an alias for a name or binds it records
this one. -/
def Sees (index : ScopeIndex) (tables : Tables) (chain : List Nat) (name : Name)
    (target : Value) : Prop :=
  ∃ inner scope outer, chain = inner ++ scope :: outer ∧
    (∀ nearer ∈ inner, aliasIn? tables nearer name = none ∧ index.own? nearer name = none) ∧
    aliasIn? tables scope name = some target

/-- From a scope, a name is seen to be an alias of another. -/
def Aliased (index : ScopeIndex) (tables : Tables) (scope : Nat) (name next : Name) : Prop :=
  ∃ target, Sees index tables (index.chain scope) name target ∧ targetName? target = some next

variable {index : ScopeIndex} {tables : Tables} {scope : Nat} {target : Value}

theorem sees_of_aliasAlong? {chain place : List Nat} (is : aliasAlong? index tables chain name =
    some (place, target)) : Sees index tables chain name target := by
  induction chain with
  | nil => cases is
  | cons scope rest ih =>
    rcases recordAlong?_cases is with ⟨recorded, rfl⟩ | ⟨unrecorded, unbound, later⟩
    · exact ⟨[], scope, rest, rfl, by simp, recorded⟩
    · obtain ⟨inner, owner, outer, rfl, passed, recorded⟩ := ih later
      refine ⟨scope :: inner, owner, outer, rfl, ?_, recorded⟩
      exact List.forall_mem_cons.2 ⟨⟨unrecorded, unbound⟩, passed⟩

theorem visibleTarget?_eq_some_iff : visibleTarget? index tables scope name = some target ↔ Sees
    index tables (index.chain scope) name target := by
  rw [visibleTarget?, visibleAlong?_eq]
  constructor
  · intro visible
    obtain ⟨⟨place, found⟩, is, rfl⟩ := Option.map_eq_some_iff.1 visible
    exact sees_of_aliasAlong? is
  · rintro ⟨inner, owner, outer, split, passed, recorded⟩
    rw [split, recordAlong?_append _ passed, recordAlong?_of_recorded outer recorded]
    rfl

variable {next : Name}

theorem visibleAlias?_eq_some_iff : visibleAlias? index tables scope name = some next ↔ Aliased
    index tables scope name next := by
  simp only [visibleAlias?, Option.bind_eq_some_iff, visibleTarget?_eq_some_iff, Aliased]

/-- The names that alias records lead to. -/
def aliasTargets (tables : Tables) : List Name :=
  tables.flatMap fun entry => entry.2.aliases.filterMap fun record => targetName? record.2

theorem length_aliasTargets_le (tables : Tables) :
    (aliasTargets tables).length ≤ tables.total fun table => table.aliases.length := by
  induction tables with
  | nil => exact Nat.le_refl 0
  | cons entry tables ih =>
    have own := List.length_filterMap_le (fun record => targetName? record.2) entry.2.aliases
    rw [aliasTargets, List.flatMap_cons, List.length_append]
    exact Nat.add_le_add own ih

theorem mem_aliasTargets (aliased : Aliased index tables scope name next) : next ∈ aliasTargets
    tables := by
  obtain ⟨target, ⟨_, owner, _, _, _, recorded⟩, isName⟩ := aliased
  obtain ⟨table, isTable, held⟩ := Option.bind_eq_some_iff.1 recorded
  obtain ⟨spelling, isRecord⟩ := Names.mem_of_get? held
  obtain ⟨before, after, rfl, _⟩ := List.lookup_eq_some_iff.1 isTable
  apply List.mem_flatMap.2 ⟨(owner, table), by simp, ?_⟩
  exact List.mem_filterMap.2 ⟨(spelling, target), isRecord, isName⟩

theorem aliased_unique (near left right : Name) (toLeft : Aliased index tables scope near left)
    (toRight : Aliased index tables scope near right) : left = right := by
  rw [← visibleAlias?_eq_some_iff] at toLeft toRight
  exact Option.some.inj (toLeft.symm.trans toRight)

/-- As many steps as there are alias records lead to the end. -/
theorem exists_longest (index : ScopeIndex) (tables : Tables) (scope : Nat) (name : Name)
    {steps : Nat} (enough : tables.total (fun table => table.aliases.length) < steps) :
    ∃ names, Longest (Aliased index tables scope) name
      (followAliases (visibleAlias? index tables scope) steps [name] name) names := by
  have bound := length_aliasTargets_le tables
  have start : Chain (fun near far => visibleAlias? index tables scope near = some far) name
      [name] := ⟨rfl, List.isChain_singleton name, by simp⟩
  have found := longest_of_followAliases (fun _ _ leads => mem_aliasTargets
    (visibleAlias?_eq_some_iff.1 leads)) steps [] name start (by omega)
  simpa only [visibleAlias?_eq_some_iff, List.nil_append, List.reverse_singleton] using found

theorem resolveAlias_of_unaliased (ends : ∀ next, ¬ Aliased index tables scope name next) :
    resolveAlias index tables scope name = name := by
  have none : visibleAlias? index tables scope name = none := by
    apply Option.eq_none_iff_forall_ne_some.2
    intro next visible
    exact ends next (visibleAlias?_eq_some_iff.1 visible)
  rw [resolveAlias, followAliases, none]

theorem keyFault?_eq_none_iff {value : Value} :
    value.keyFault? = none ↔ ∀ items, value ≠ .list items := by
  cases value <;> simp [Value.keyFault?]

theorem aliasFault?_eq_none_iff : aliasFault? index tables scope name = none ↔ ∀ items, ¬ Sees index
    tables (index.chain scope) (resolveAlias index tables scope name) (.list items) := by
  simp only [aliasFault?, Option.bind_eq_none_iff, keyFault?_eq_none_iff,
    visibleTarget?_eq_some_iff]
  exact ⟨fun all items sees => all _ sees items rfl,
    fun none target sees items is => none items (is ▸ sees)⟩

/-- An alias resolves to the last name of the longest chain of aliases from it in which no
name is met twice. That name has no alias if no cycle can be come to, and otherwise its
alias is in the chain. -/
theorem resolveAlias_eq_last (index : ScopeIndex) (tables : Tables) (scope : Nat) (name : Name) : ∃
    names, Chain (Aliased index tables scope) name names ∧ names.getLast? = some (resolveAlias index
    tables scope name) ∧ (∀ other, Chain (Aliased index tables scope) name other → other <+: names)
    ∧ (∀ steps, tables.total (fun table => table.aliases.length) < steps → followAliases
    (visibleAlias? index tables scope) steps [name] name = resolveAlias index tables scope name) ∧
    (¬ Cyclic (Aliased index tables scope) name → (∀ next, ¬ Aliased index tables scope
    (resolveAlias index tables scope name) next) ∧ resolveAlias index tables scope (resolveAlias
    index tables scope name) = resolveAlias index tables scope name) ∧ (Cyclic (Aliased index tables
    scope) name → ∃ next, Aliased index tables scope (resolveAlias index tables scope name) next ∧
    next.isIn names) ∧ (aliasFault? index tables scope name = none ↔ ∀ items, ¬ Sees index tables
    (index.chain scope) (resolveAlias index tables scope name) (.list items)) := by
  obtain ⟨names, longest⟩ := exists_longest index tables scope name (Nat.lt_succ_self _)
  have cyclic := longest.cyclic_iff aliased_unique
  refine ⟨names, longest.toChain, longest.last, ?_, ?_, ?_, ?_, aliasFault?_eq_none_iff⟩
  · exact fun other chain => longest.begins aliased_unique chain
  · intro steps enough
    obtain ⟨also, alsoLongest⟩ := exists_longest index tables scope name enough
    exact (longest.unique aliased_unique alsoLongest).2
  · intro acyclic
    have ends : ∀ next, ¬ Aliased index tables scope (resolveAlias index tables scope name) next :=
      fun next leads => acyclic (cyclic.2 ⟨next, leads⟩)
    exact ⟨ends, resolveAlias_of_unaliased ends⟩
  · intro isCyclic
    obtain ⟨next, leads⟩ := cyclic.1 isCyclic
    exact ⟨next, leads, longest.stops next leads⟩

example :
    let names := [("a", "b"), ("b", "c"), ("c", "b")]
    let aliases := names.map fun pair => (Name.text pair.1, Value.text pair.2)
    resolveAlias .empty [(0, { ScopeTable.empty with aliases })] 0 (.text "a") = .text "c" := by
  decide

end Unravel.Pass.Strings
