import Unravel.Proofs.Strings.Recording

/-!
Contract: a table does not depend on the order in which its claims are recorded.

Claims agree exactly if they have one sense: a kind, with a list of strings, the identity
of a function, or a value whatever its spelling. So what comes of the claims for a name
depends on the senses that are recorded for it, and not on which of them is first. No
claims leave no trace, claims of one sense are held as that, and others make the name
ambiguous (`reflects_ofRecords`).
-/

namespace Unravel

/-! ## What the spellings of a value share -/

/-- A value as a name, or as a list of such. -/
inductive Essence where
  | name (key : Name)
  | list (items : List Essence)

namespace Value

mutual

def essence : Value → Essence
  | .list items => .list (essences items)
  | value => .name ((Name.ofValue? value).getD .absent).key

def essences : List Value → List Essence
  | [] => []
  | item :: rest => item.essence :: essences rest

end

variable {name : Name}

theorem essence_of_name {value : Value} (is : Name.ofValue? value = some name) : value.essence =
    .name name.key := by
  cases value <;> cases is <;> rfl

theorem same_iff_of_name {left : Value} (is : Name.ofValue? left = some name) (right : Value) :
    left.same right ↔ left.essence = right.essence := by
  have named : left.same right = (Name.ofValue? right).any name.same := by
    cases left <;> cases is <;> cases right <;> rfl
  rw [named, essence_of_name is]
  cases right with
  | list items => simp [Name.ofValue?, essence]
  | _ => simp [Name.ofValue?, essence, Name.same_iff]

theorem sameAll_iff_essences {lefts : List Value}
    (each : ∀ left ∈ lefts, ∀ right : Value, left.same right ↔ left.essence = right.essence)
    (rights : List Value) : sameAll lefts rights ↔ essences lefts = essences rights := by
  induction lefts generalizing rights with
  | nil => cases rights <;> simp [sameAll, essences]
  | cons left lefts ih =>
    cases rights with
    | nil => simp [sameAll, essences]
    | cons right rights =>
      have first := each left List.mem_cons_self right
      have later := ih (fun item member => each item (List.mem_cons_of_mem left member)) rights
      rw [sameAll, essences, essences, List.cons.injEq, ← first, ← later, Bool.and_eq_true]

/-- Two values are one exactly if they have one essence. -/
theorem same_iff_essence (left right : Value) : left.same right ↔ left.essence = right.essence := by
  cases left with
  | list lefts =>
    cases right with
    | list rights =>
      rw [essence, essence, Essence.list.injEq]
      exact sameAll_iff_essences (fun item _ other => same_iff_essence item other) rights
    | _ => simp [same, essence, Name.ofValue?]
  | _ => exact same_iff_of_name rfl right
termination_by sizeOf left
decreasing_by
  have smaller := List.sizeOf_lt_of_mem ‹item ∈ lefts›
  simp only [Value.list.sizeOf_spec]
  omega

end Value

namespace Pass.Strings

/-! ## What claims say -/

/-- The kind of a claim, with what it says in that kind. Functions are told apart by
their labels alone. -/
inductive Sense where
  | array (values : List String)
  | function (label : Option Nat)
  | alias (target : Essence)
  | unknown (value : Essence)

def Claim.sense : Claim → Sense
  | .array values => .array values
  | .function node => .function node.label?
  | .alias target => .alias target.essence
  | .unknown value => .unknown value.essence

theorem Claim.agrees_iff {left right : Claim} : left.agrees right ↔ left.sense = right.sense := by
  cases left <;> cases right <;> simp [agrees, sense, Value.same_iff_essence]

/-! ## What comes of records -/

/-- The table that records are written to, one after another. -/
def ScopeTable.ofRecords (records : List (Name × Claim)) : ScopeTable :=
  records.foldl (fun table record => table.record record.1 record.2) .empty

/-- What is recorded for a name, in order. -/
def claimsFor (records : List (Name × Claim)) (name : Name) : List Claim :=
  (records.filter fun record => record.1.same name).map Prod.snd

/-- What has come of claims in order. -/
def Claim.afterAll (claims : List Claim) (verdict : Option (Option Claim)) :
    Option (Option Claim) :=
  claims.foldl (fun verdict claim => some (claim.after verdict)) verdict

variable {records reordered : List (Name × Claim)} {table : ScopeTable} {name : Name}
  {claim first : Claim} {rest : List Claim}

theorem claimsFor_cons (record : Name × Claim) (records : List (Name × Claim)) (name : Name) :
    claimsFor (record :: records) name =
      if record.1.same name then record.2 :: claimsFor records name
      else claimsFor records name := by
  rw [claimsFor, List.filter_cons]
  split <;> rfl

theorem Claim.afterAll_cons (claim : Claim) (claims : List Claim) (verdict : Option (Option Claim))
    : afterAll (claim :: claims) verdict = afterAll claims (some (claim.after verdict)) := rfl

theorem verdict?_records (records : List (Name × Claim)) (table : ScopeTable) (name : Name) :
    (records.foldl (fun table record => table.record record.1 record.2) table).verdict? name =
      Claim.afterAll (claimsFor records name) (table.verdict? name) := by
  induction records generalizing table with
  | nil => rfl
  | cons record records ih =>
    rw [List.foldl_cons, ih, ScopeTable.verdict?_record, claimsFor_cons]
    split
    · rw [Claim.afterAll_cons]
    · rfl

theorem Claim.afterAll_dropped (claims : List Claim) :
    Claim.afterAll claims (some none) = some none := by
  induction claims with
  | nil => rfl
  | cons claim claims ih => exact ih

/-- The first claim stands as long as all later ones agree with it. -/
theorem Claim.afterAll_held (first : Claim) (rest : List Claim) : Claim.afterAll rest (some (some
    first)) = some (if rest.all first.agrees then some first else none) := by
  induction rest with
  | nil => rfl
  | cons claim rest ih =>
    rw [afterAll_cons, after, Option.filter_some, List.all_cons]
    cases agrees : first.agrees claim with
    | true => exact ih
    | false => exact afterAll_dropped rest

/-! ## The claim that stands -/

/-- All of the claims have one sense. -/
def Agreed (claims : List Claim) : Prop :=
  ∀ first ∈ claims, ∀ second ∈ claims, first.sense = second.sense

theorem agreed_cons_iff : Agreed (first :: rest) ↔ rest.all first.agrees := by
  rw [List.all_eq_true]
  constructor
  · intro agreed other member
    exact Claim.agrees_iff.2 (agreed first List.mem_cons_self other (List.mem_cons_of_mem _ member))
  · intro agrees
    have one (other : Claim) (member : other ∈ first :: rest) : other.sense = first.sense := by
      rcases List.mem_cons.1 member with rfl | later
      · rfl
      · exact (Claim.agrees_iff.1 (agrees other later)).symm
    exact fun left isLeft right isRight => (one left isLeft).trans (one right isRight).symm

theorem verdict?_of_unclaimed (unclaimed : claimsFor records name = []) :
    (ScopeTable.ofRecords records).verdict? name = none := by
  rw [ScopeTable.ofRecords, verdict?_records, unclaimed]
  rfl

/-- The three things that can come of the claims for a name. -/
theorem verdict?_ofRecords (records : List (Name × Claim)) (name : Name) : claimsFor records name =
    [] ∧ (ScopeTable.ofRecords records).verdict? name = none ∨ (∃ held ∈ claimsFor records name,
    Agreed (claimsFor records name) ∧ (ScopeTable.ofRecords records).verdict? name = some (some
    held)) ∨ ¬ Agreed (claimsFor records name) ∧ (ScopeTable.ofRecords records).verdict? name = some
    none := by
  rw [ScopeTable.ofRecords, verdict?_records]
  cases claims : claimsFor records name with
  | nil => exact .inl ⟨rfl, rfl⟩
  | cons first rest =>
    have verdict := Claim.afterAll_held first rest
    rw [agreed_cons_iff]
    by_cases agreed : rest.all first.agrees
    · rw [if_pos agreed] at verdict
      exact .inr (.inl ⟨first, List.mem_cons_self, agreed, verdict⟩)
    · rw [if_neg agreed] at verdict
      exact .inr (.inr ⟨agreed, verdict⟩)

theorem isIn_ambiguous_iff_verdict? :
    name.isIn table.ambiguous ↔ table.verdict? name = some none := by
  unfold ScopeTable.verdict?
  split <;> simp_all

theorem isIn_ambiguous_ofRecords :
    name.isIn (ScopeTable.ofRecords records).ambiguous ↔ ¬ Agreed (claimsFor records name) := by
  rw [isIn_ambiguous_iff_verdict?]
  rcases verdict?_ofRecords records name with
    ⟨unclaimed, verdict⟩ | ⟨held, _, agreed, verdict⟩ | ⟨conflict, verdict⟩
  · simp [verdict, unclaimed, Agreed]
  · simp [verdict, agreed]
  · simp [verdict, conflict]

/-- A claim stands exactly if there are claims, all of one sense. -/
theorem standing_sense_iff {sense : Sense} :
    ((ScopeTable.ofRecords records).standing? name).map Claim.sense = some sense ↔
      Agreed (claimsFor records name) ∧ ∃ claim ∈ claimsFor records name, claim.sense = sense := by
  unfold ScopeTable.standing?
  rcases verdict?_ofRecords records name with
    ⟨unclaimed, verdict⟩ | ⟨held, member, agreed, verdict⟩ | ⟨conflict, verdict⟩
  · simp [verdict, unclaimed]
  · simp only [verdict, Option.join_some, Option.map_some, Option.some.injEq, agreed, true_and]
    constructor
    · exact fun is => ⟨held, member, is⟩
    · rintro ⟨claim, isClaim, rfl⟩
      exact agreed held member claim isClaim
  · simp [verdict, conflict]

theorem mem_claimsFor_of_perm (permuted : records.Perm reordered) : claim ∈ claimsFor records name ↔
    claim ∈ claimsFor reordered name := ((permuted.filter _).map _).mem_iff

theorem agreed_of_perm (permuted : records.Perm reordered) :
    Agreed (claimsFor records name) ↔ Agreed (claimsFor reordered name) := by
  simp only [Agreed, mem_claimsFor_of_perm permuted]

/-! ## The tables as mappings -/

/-- A table has one entry for a name that it has entries for. -/
structure ScopeTable.Mapping (table : ScopeTable) : Prop where
  arrays : table.arrays.Distinct
  functions : table.functions.Distinct
  aliases : table.aliases.Distinct
  ambiguous : (table.ambiguous.map Name.key).Nodup

theorem ScopeTable.mapping_empty : ScopeTable.empty.Mapping :=
  ⟨List.nodup_nil, List.nodup_nil, List.nodup_nil, List.nodup_nil⟩

theorem ScopeTable.Mapping.hold (mapping : table.Mapping) (name : Name) (claim : Claim) :
    (table.hold name claim).Mapping := by
  obtain ⟨arrays, functions, aliases, ambiguous⟩ := mapping
  rcases claim with values | node | target | value
  · exact ⟨Names.distinct_put arrays name values, functions, aliases, ambiguous⟩
  · exact ⟨arrays, Names.distinct_put functions name node, aliases, ambiguous⟩
  · exact ⟨arrays, functions, Names.distinct_put aliases name target, ambiguous⟩
  · exact ⟨arrays, functions, aliases, ambiguous⟩

theorem ScopeTable.Mapping.drop (mapping : table.Mapping) (new : ¬ name.isIn table.ambiguous) :
    (table.drop name).Mapping where
  arrays := mapping.arrays.sublist (List.filter_sublist.map _)
  functions := mapping.functions.sublist (List.filter_sublist.map _)
  aliases := mapping.aliases.sublist (List.filter_sublist.map _)
  ambiguous := by
    have absent : name.key ∉ table.ambiguous.map Name.key := by
      intro member
      obtain ⟨other, isOther, same⟩ := List.mem_map.1 member
      exact new (Name.isIn_iff.2 ⟨other, isOther, same.symm⟩)
    rw [ScopeTable.drop, List.map_append]
    exact List.nodup_append.2 ⟨mapping.ambiguous, by simp, by simpa using absent⟩

theorem ScopeTable.Mapping.record (mapping : table.Mapping) (name : Name) (claim : Claim) :
    (table.record name claim).Mapping := by
  unfold ScopeTable.record
  split
  · exact mapping
  · rename_i new
    split
    · exact mapping.hold name claim
    · split
      · exact mapping
      · exact mapping.drop new

theorem ofRecords_induction {motive : ScopeTable → Prop} (empty : motive .empty)
    (step : ∀ table name claim, motive table → motive (table.record name claim))
    (records : List (Name × Claim)) : motive (ScopeTable.ofRecords records) := by
  unfold ScopeTable.ofRecords
  generalize ScopeTable.empty = table at empty ⊢
  induction records generalizing table with
  | nil => exact empty
  | cons record records ih => exact ih _ (step table record.1 record.2 empty)

theorem sound_ofRecords (records : List (Name × Claim)) : (ScopeTable.ofRecords records).Sound :=
  ofRecords_induction ScopeTable.sound_empty (fun _ name claim sound => sound.record name claim)
    records

theorem mapping_ofRecords (records : List (Name × Claim)) :
    (ScopeTable.ofRecords records).Mapping :=
  ofRecords_induction ScopeTable.mapping_empty
    (fun _ name claim mapping => mapping.record name claim) records

/-! ## What the tables say of a name -/

/-- In how many tables a name is. -/
def ScopeTable.places (table : ScopeTable) (name : Name) : Nat :=
  [(Names.get? table.arrays name).isSome, (Names.get? table.functions name).isSome,
    (Names.get? table.aliases name).isSome, name.isIn table.ambiguous].count true

/-- The tables hold for a name what a claim says, which is nothing if it is not known. -/
structure ScopeTable.Holds (table : ScopeTable) (name : Name) (claim : Claim) : Prop where
  arrays : Names.get? table.arrays name = claim.values?
  functions : Names.get? table.functions name = claim.node?
  aliases : Names.get? table.aliases name = claim.target?

theorem ScopeTable.Sound.holds (sound : table.Sound)
    (stands : table.verdict? name = some (some claim)) : table.Holds name claim := by
  have standing : table.standing? name = some claim := by rw [standing?, stands, Option.join_some]
  exact ⟨by rw [sound.arrays, standing, Option.bind_some], by rw [sound.functions, standing,
    Option.bind_some], by rw [sound.aliases, standing, Option.bind_some]⟩

theorem ScopeTable.Sound.places_le (sound : table.Sound) (name : Name) : table.places name ≤ 1 := by
  rw [places, sound.arrays, sound.functions, sound.aliases]
  cases ambiguous : name.isIn table.ambiguous with
  | true =>
    have dropped : table.standing? name = none := by
      rw [standing?, isIn_ambiguous_iff_verdict?.1 ambiguous, Option.join_some]
    simp [dropped]
  | false =>
    cases table.standing? name with
    | none => simp
    | some claim => cases claim <;> simp [Claim.values?, Claim.node?, Claim.target?]

theorem ScopeTable.Sound.places_of_unclaimed (sound : table.Sound)
    (unclaimed : table.verdict? name = none) : table.places name = 0 := by
  have fell : table.standing? name = none := by rw [standing?, unclaimed, Option.join_none]
  have unambiguous : name.isIn table.ambiguous = false := by
    rw [Bool.eq_false_iff, ne_eq, isIn_ambiguous_iff_verdict?, unclaimed]
    simp
  simp [places, sound.arrays, sound.functions, sound.aliases, fell, unambiguous]

/-- What a name stands for after claims: nothing without claims, what they all say if they
agree, and otherwise it is ambiguous. -/
structure ScopeTable.Reflects (table : ScopeTable) (name : Name) (claims : List Claim) : Prop where
  disjoint : table.places name ≤ 1
  ambiguous : name.isIn table.ambiguous ↔
    ∃ first ∈ claims, ∃ second ∈ claims, first.sense ≠ second.sense
  unclaimed : claims = [] → table.places name = 0
  held : claims ≠ [] → ¬ name.isIn table.ambiguous →
    ∃ claim ∈ claims, table.Holds name claim ∧ ∀ other ∈ claims, other.sense = claim.sense

/-- Two tables are the same mappings, with functions that are one object and targets that
are one value, and the same set of ambiguous names. -/
structure ScopeTable.Alike (left right : ScopeTable) : Prop where
  arrays : ∀ name, Names.get? left.arrays name = Names.get? right.arrays name
  functions : ∀ name, (Names.get? left.functions name).map Value.label? =
    (Names.get? right.functions name).map Value.label?
  aliases : ∀ name, (Names.get? left.aliases name).map Value.essence =
    (Names.get? right.aliases name).map Value.essence
  ambiguous : ∀ name : Name, name.isIn left.ambiguous = name.isIn right.ambiguous

theorem reflects_ofRecords (records : List (Name × Claim)) (name : Name) :
    (ScopeTable.ofRecords records).Reflects name (claimsFor records name) where
  disjoint := (sound_ofRecords records).places_le name
  ambiguous := by
    rw [isIn_ambiguous_ofRecords, Agreed]
    push Not
    rfl
  unclaimed := by
    intro unclaimed
    exact (sound_ofRecords records).places_of_unclaimed (verdict?_of_unclaimed unclaimed)
  held := by
    intro claimed unambiguous
    rw [isIn_ambiguous_iff_verdict?] at unambiguous
    rcases verdict?_ofRecords records name with
      ⟨unclaimed, _⟩ | ⟨held, member, agreed, verdict⟩ | ⟨_, verdict⟩
    · exact absurd unclaimed claimed
    · exact ⟨held, member, (sound_ofRecords records).holds verdict,
        fun other isOther => agreed other isOther held member⟩
    · exact absurd verdict unambiguous

/-- What is read off claims by their sense is the same for claims that stand in one
sense. -/
theorem bind_standing_of_perm {α : Type} {pick : Claim → Option α} (bySense : ∀ left right : Claim,
    left.sense = right.sense → pick left = pick right) (permuted : records.Perm reordered) (name :
    Name) : ((ScopeTable.ofRecords records).standing? name).bind pick = ((ScopeTable.ofRecords
    reordered).standing? name).bind pick := by
  have senses : ((ScopeTable.ofRecords records).standing? name).map Claim.sense =
      ((ScopeTable.ofRecords reordered).standing? name).map Claim.sense := by
    apply Option.ext
    intro sense
    simp only [standing_sense_iff, agreed_of_perm permuted, mem_claimsFor_of_perm permuted]
  cases before : (ScopeTable.ofRecords records).standing? name <;>
    cases after : (ScopeTable.ofRecords reordered).standing? name <;>
      rw [before, after] at senses <;> simp at senses ⊢
  exact bySense _ _ senses

theorem alike_of_perm (permuted : records.Perm reordered) :
    (ScopeTable.ofRecords records).Alike (ScopeTable.ofRecords reordered) where
  arrays name := by
    rw [(sound_ofRecords records).arrays, (sound_ofRecords reordered).arrays]
    apply bind_standing_of_perm _ permuted
    intro left right one
    cases left <;> cases right <;> simp_all [Claim.sense, Claim.values?]
  functions name := by
    rw [(sound_ofRecords records).functions, (sound_ofRecords reordered).functions,
      Option.map_bind, Option.map_bind]
    apply bind_standing_of_perm _ permuted
    intro left right one
    cases left <;> cases right <;> simp_all [Claim.sense, Claim.node?]
  aliases name := by
    rw [(sound_ofRecords records).aliases, (sound_ofRecords reordered).aliases,
      Option.map_bind, Option.map_bind]
    apply bind_standing_of_perm _ permuted
    intro left right one
    cases left <;> cases right <;> simp_all [Claim.sense, Claim.target?]
  ambiguous name := by
    rw [Bool.eq_iff_iff, isIn_ambiguous_ofRecords, isIn_ambiguous_ofRecords,
      agreed_of_perm permuted]

/-- Whatever is recorded in a table, and in whatever order, a name is in one table at most
and as all its claims say, or ambiguous if two of them differ. -/
theorem ofRecords_in_any_order {records reordered : List (Name × Claim)} (permuted : records.Perm
    reordered) : (ScopeTable.ofRecords records).Mapping ∧ (∀ name, (ScopeTable.ofRecords
    records).Reflects name (claimsFor records name)) ∧ (ScopeTable.ofRecords records).Alike
    (ScopeTable.ofRecords reordered) := ⟨mapping_ofRecords records, reflects_ofRecords records,
    alike_of_perm permuted⟩

/-- Claims that repeat, that differ at last, and that differ in the object alone. -/
def mixedClaims : List (Name × Claim) :=
  let decoder (label : Nat) : Claim := .function (.node label "FunctionExpression" [])
  [(.text "words", .array ["a", "b"]), (.text "decode", decoder 1), (.text "twice", decoder 2),
    (.text "other", .alias (.text "decode")), (.flag true, .alias (.bool true)), (.text "words",
    .array ["a", "b"]), (.text "late", .unknown .null), (.text "twice", decoder 3), (.number
    (.integer 1), .alias (.number (.integer 1))), (.text "late", .alias (.text "words"))]

theorem mixedClaims_in_any_order : ((ScopeTable.ofRecords mixedClaims).Mapping ∧ (∀ name,
    (ScopeTable.ofRecords mixedClaims).Reflects name (claimsFor mixedClaims name)) ∧
    (ScopeTable.ofRecords mixedClaims).Alike (ScopeTable.ofRecords mixedClaims.reverse)) ∧
    (ScopeTable.ofRecords mixedClaims).ambiguous = [.text "twice", .text "late"] ∧
    (ScopeTable.ofRecords mixedClaims.reverse).ambiguous = [.text "twice", .text "late"].reverse ∧
    (ScopeTable.ofRecords mixedClaims).aliases.keys = [.text "other", .flag true] :=
    ⟨ofRecords_in_any_order (List.reverse_perm mixedClaims).symm, by decide, by decide, by decide⟩

end Pass.Strings

end Unravel
