import Unravel.Pass.Strings.Recovery
import Unravel.Proofs.Strings.Routes
import Unravel.Proofs.Tree.Names
import Unravel.Proofs.Walk.Placement

/-!
Contract: what the collected tables record.

A name is recorded in the scope that binds it, or in the outermost scope, and as
one thing only: a table holds an alias or a decoder for a name only while its
first claim for the name says so.
-/

namespace Unravel

namespace Pass.Strings

/-! ## One table -/

/-- What has come of the claims for a name, if there are any: the one that stands,
or none. -/
def ScopeTable.verdict? (table : ScopeTable) (name : Name) : Option (Option Claim) :=
  if name.isIn table.ambiguous then some none else (Names.get? table.claims name).map some

/-- The first claim stands until there is one that it does not agree with. -/
def Claim.after (claim : Claim) : Option (Option Claim) → Option Claim
  | none => some claim
  | some held => held.filter fun held => held.agrees claim

def ScopeTable.standing? (table : ScopeTable) (name : Name) : Option Claim :=
  (table.verdict? name).join

def Claim.values? : Claim → Option (List String)
  | .array values => some values
  | _ => none

def Claim.node? : Claim → Option Value
  | .function node => some node
  | _ => none

def Claim.target? : Claim → Option Value
  | .alias target => some target
  | _ => none

variable {table : ScopeTable} {name other : Name} {claim held : Claim} {scope : Nat}

theorem ScopeTable.hold_eq (table : ScopeTable) (name : Name) (claim : Claim) :
    (table.hold name claim).claims = Names.put table.claims name claim ∧
      (table.hold name claim).ambiguous = table.ambiguous := by
  cases claim <;> exact ⟨rfl, rfl⟩

theorem ScopeTable.isIn_drop (table : ScopeTable) (name other : Name) : other.isIn (table.drop
    name).ambiguous = (other.isIn table.ambiguous || other.same name) := by
  simp [drop, Name.isIn]

theorem ScopeTable.verdict?_record (table : ScopeTable) (name : Name) (claim : Claim) (other : Name)
    : (table.record name claim).verdict? other =
      if name.same other then some (claim.after (table.verdict? other))
      else table.verdict? other := by
  obtain ⟨claims, ambiguous⟩ := table.hold_eq name claim
  unfold record
  cases same : name.same other with
  | true =>
    have key := Name.same_iff.1 same
    have dropped : other.same name := Name.same_iff.2 key.symm
    rw [Name.isIn_congr key, Names.get?_congr _ key]
    cases isIn : other.isIn table.ambiguous with
    | true => simp [verdict?, Claim.after, isIn]
    | false =>
      cases known : Names.get? table.claims other with
      | none => simp [verdict?, Claim.after, claims, ambiguous, Names.get?_put, isIn, known, same]
      | some held =>
        cases agrees : held.agrees claim <;>
          simp [verdict?, Claim.after, Option.filter, isIn_drop, isIn, known, agrees, dropped]
  | false =>
    have differs : other.same name = false := by
      rw [Bool.eq_false_iff] at same ⊢
      exact fun alike => same (Name.same_iff.2 (Name.same_iff.1 alike).symm)
    repeat' split
    all_goals simp_all [verdict?, isIn_drop, Names.get?_put]
    rfl

theorem ScopeTable.standing_of_record (is : (table.record name claim).standing? other = some held) :
    table.standing? other = some held ∨ name.same other ∧ held = claim := by
  rw [standing?, verdict?_record] at is
  split at is
  · rename_i same
    unfold standing?
    cases verdict : table.verdict? other with
    | none =>
      rw [verdict] at is
      cases is
      exact .inr ⟨same, rfl⟩
    | some stood =>
      rw [verdict] at is
      exact .inl (Option.filter_eq_some_iff.1 is).1
  · exact .inl is

/-- A table has entries for the claims that stand. -/
structure ScopeTable.Sound (table : ScopeTable) : Prop where
  arrays : ∀ name, Names.get? table.arrays name = (table.standing? name).bind Claim.values?
  functions : ∀ name, Names.get? table.functions name = (table.standing? name).bind Claim.node?
  aliases : ∀ name, Names.get? table.aliases name = (table.standing? name).bind Claim.target?

theorem ScopeTable.sound_empty : ScopeTable.empty.Sound :=
  ⟨fun _ => rfl, fun _ => rfl, fun _ => rfl⟩

/-- Entries are made for claims that stand, and dropped with them. -/
theorem ScopeTable.entries_record {α : Type} {entries : ScopeTable → Names α} {pick : Claim → Option
    α} (holds : ∀ other, Names.get? (entries (table.hold name claim)) other =
      if name.same other then (pick claim).or (Names.get? (entries table) other)
      else Names.get? (entries table) other)
    (drops : entries (table.drop name) = Names.erase (entries table) name)
    (sound : ∀ other, Names.get? (entries table) other = (table.standing? other).bind pick)
    (other : Name) :
    Names.get? (entries (table.record name claim)) other =
      ((table.record name claim).standing? other).bind pick := by
  have before := sound other
  rw [standing?, verdict?_record]
  unfold standing? verdict? at *
  cases same : name.same other with
  | true =>
    have key := Name.same_iff.1 same
    rw [record, Name.isIn_congr key, Names.get?_congr _ key]
    cases isIn : other.isIn table.ambiguous with
    | true => simpa [Claim.after, isIn] using before
    | false =>
      cases known : Names.get? table.claims other with
      | none => simp [Claim.after, holds, same, before, isIn, known]
      | some held =>
        cases agrees : held.agrees claim <;> simp [Claim.after, Option.filter, drops,
          Names.get?_erase, same, before, isIn, known, agrees]
  | false =>
    rw [if_neg (by simp), ← before, record]
    repeat' split
    all_goals simp [holds, drops, Names.get?_erase, same]

theorem ScopeTable.Sound.record (sound : table.Sound) (name : Name) (claim : Claim) :
    (table.record name claim).Sound where
  arrays := entries_record (fun _ => by cases claim <;> simp [hold, Names.get?_put, Claim.values?])
    rfl sound.arrays
  functions := entries_record (fun _ => by cases claim <;> simp [hold, Names.get?_put, Claim.node?])
    rfl sound.functions
  aliases := entries_record (fun _ => by cases claim <;> simp [hold, Names.get?_put, Claim.target?])
    rfl sound.aliases

/-! ## Tables of all scopes -/

theorem Tables.at?_update (tables : Tables) (scope other : Nat) (change : ScopeTable → ScopeTable) :
    (Tables.update scope change tables).at? other =
      if other = scope then some (change ((tables.at? scope).getD .empty))
      else tables.at? other := by
  unfold Tables.at?
  induction tables with
  | nil => exact lookup_cons_ite scope other (change .empty) []
  | cons entry rest ih =>
    obtain ⟨number, table⟩ := entry
    rw [Tables.update]
    by_cases here : number = scope
    · subst here
      rw [if_pos rfl, lookup_cons_ite, lookup_cons_ite, lookup_cons_ite, if_pos rfl]
      split <;> rfl
    · rw [if_neg here, lookup_cons_ite, lookup_cons_ite number scope, lookup_cons_ite number other,
        ih, if_neg (Ne.symm here)]
      by_cases isScope : other = scope
      · subst isScope
        rw [if_neg (Ne.symm here), if_pos rfl, if_pos rfl]
      · rw [if_neg isScope, if_neg isScope]

/-- All claims that stand in the tables, of whatever scope, are as is asked. -/
structure Tables.Hold (asks : Nat → Name → Claim → Prop) (tables : Tables) : Prop where
  sound : ∀ ⦃scope table⦄, tables.at? scope = some table → table.Sound
  each : ∀ ⦃scope table name claim⦄, tables.at? scope = some table →
    table.standing? name = some claim → asks scope name claim

namespace Tables.Hold

variable {asks : Nat → Name → Claim → Prop} {tables : Tables} {node target : Value}

theorem empty : Hold asks [] where
  sound _ _ is := by cases is
  each _ _ _ _ is := by cases is

theorem functions (hold : tables.Hold asks) (is : tables.at? scope = some table)
    (held : Names.get? table.functions name = some node) : asks scope name (.function node) := by
  rw [(hold.sound is).functions] at held
  obtain ⟨claim, standing, isNode⟩ := Option.bind_eq_some_iff.1 held
  cases claim <;> cases isNode
  exact hold.each is standing

theorem aliases (hold : tables.Hold asks) (is : tables.at? scope = some table)
    (held : Names.get? table.aliases name = some target) : asks scope name (.alias target) := by
  rw [(hold.sound is).aliases] at held
  obtain ⟨claim, standing, isTarget⟩ := Option.bind_eq_some_iff.1 held
  cases claim <;> cases isTarget
  exact hold.each is standing

theorem update (hold : tables.Hold asks) (new : ∀ other : Name, name.same other → asks scope other
    claim) : (tables.update scope fun table => table.record name claim).Hold asks := by
  have before : ((tables.at? scope).getD .empty).Sound ∧ ∀ other held,
      ((tables.at? scope).getD .empty).standing? other = some held → asks scope other held := by
    cases found : tables.at? scope with
    | none => exact ⟨ScopeTable.sound_empty, nofun⟩
    | some table => exact ⟨hold.sound found, fun _ _ => hold.each found⟩
  refine ⟨fun other table is => ?_, fun other table key held is standing => ?_⟩ <;>
    rw [Tables.at?_update] at is <;> split at is
  · cases is
    exact before.1.record name claim
  · exact hold.sound is
  · rename_i here
    cases is
    rw [here]
    rcases ScopeTable.standing_of_record standing with stood | ⟨same, rfl⟩
    · exact before.2 key held stood
    · exact new key same
  · exact hold.each is standing

end Tables.Hold

/-- The tables record names in scopes of the index that bind them or are
outermost. -/
abbrev Recorded (index : ScopeIndex) (tables : Tables) : Prop :=
  tables.Hold fun scope name _ => scope < index.scopes.length ∧
    ((index.own? scope name).isSome = true ∨ index.chain scope = [scope])

variable {index later : ScopeIndex} {tables : Tables}

theorem Recorded.grows (recorded : Recorded index tables) (grows : index.Grows later) :
    Recorded later tables where
  sound := recorded.sound
  each scope table name claim is standing := by
    obtain ⟨within, bound | outermost⟩ := recorded.each is standing
    · exact ⟨Nat.lt_of_lt_of_le within grows.length_le, .inl (grows.bound bound)⟩
    · exact ⟨Nat.lt_of_lt_of_le within grows.length_le, .inr ((grows.chain within).trans outermost)⟩

theorem exists_suffix_of_mem_dropLast {chain : List Nat} (member : scope ∈ chain.dropLast) :
    ∃ rest, rest ≠ [] ∧ scope :: rest <:+ chain := by
  have filled : chain ≠ [] := by
    rintro rfl
    cases member
  obtain ⟨inner, outer, split⟩ := List.append_of_mem member
  refine ⟨outer ++ [chain.getLast filled], by simp, inner, ?_⟩
  rw [← List.cons_append, ← List.append_assoc, ← split, List.dropLast_append_getLast]

/-- An inner scope of a chain has others around it, so it binds what it
records. -/
theorem Recorded.bound (recorded : Recorded index tables) (nested : index.Nested) {outer : Nat}
    (member : scope ∈ (index.chain outer).dropLast) (is : tables.at? scope = some table)
    (standing : table.standing? name = some claim) : (index.own? scope name).isSome := by
  obtain ⟨_, bound | outermost⟩ := recorded.each is standing
  · exact bound
  · obtain ⟨rest, filled, suffix⟩ := exists_suffix_of_mem_dropLast member
    rw [nested.chain_of_suffix suffix] at outermost
    cases outermost
    exact absurd rfl filled

theorem Recorded.grounded (recorded : Recorded index tables) (nested : index.Nested)
    (scope : Nat) : Grounded index tables (index.chain scope) where
  bound inner member name is := by
    unfold aliasIn? decoderIn? at is
    cases found : tables.at? inner with
    | none => simp [found] at is
    | some table =>
      have sound := recorded.sound found
      cases standing : table.standing? name with
      | none => simp [found, sound.aliases, sound.functions, standing] at is
      | some claim => exact recorded.bound nested member found standing
  exclusive scope name := by
    unfold aliasIn? decoderIn?
    cases found : tables.at? scope with
    | none => exact .inl rfl
    | some table =>
      have sound := recorded.sound found
      simp only [Option.bind_some, sound.aliases, sound.functions]
      rcases table.standing? name with none | claim
      · exact .inl rfl
      · cases claim <;> simp [Claim.target?, Claim.node?]

end Pass.Strings

end Unravel
