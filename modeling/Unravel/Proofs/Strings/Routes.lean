import Mathlib.Data.List.Infix
import Unravel.Pass.Strings.Resolution

/-!
Contract: the records that a name is followed through to a decoder.

A route lists the names that are come by, each with the scopes from the one that
records it outwards. Where the target of an alias is looked up is a parameter of
`Leads`: from the scope of the record for what the alias denotes, from the scope
of the call for what the pass does. `leads_iff_unshadowed` says when a route of
the second kind is one of the first.
-/

namespace Unravel.Pass.Strings

/-! ## Records -/

/-- The first table entry along a chain of scopes, unless it is shadowed, with
the scopes from its own outwards. -/
def recordAlong? {α : Type} (index : ScopeIndex) (tables : Tables)
    (entry : ScopeTable → Option α) (name : Name) : List Nat → Option (List Nat × α)
  | [] => none
  | scope :: rest =>
    match (tables.at? scope).bind entry with
    | some found => some (scope :: rest, found)
    | none =>
      if (index.own? scope name).isSome then none
      else recordAlong? index tables entry name rest

def aliasAlong? (index : ScopeIndex) (tables : Tables) (chain : List Nat) (name : Name) :
    Option (List Nat × Value) :=
  recordAlong? index tables (fun table => Names.get? table.aliases name) name chain

def decoderAlong? (index : ScopeIndex) (tables : Tables) (chain : List Nat) (name : Name) :
    Option (List Nat × Value) :=
  recordAlong? index tables (fun table => Names.get? table.functions name) name chain

variable {index : ScopeIndex} {tables : Tables} {chain place : List Nat} {scope : Nat} {name : Name}
  {node : Value}

section Along

variable {α : Type} {entry : ScopeTable → Option α} {found : α} {inner : List Nat}

theorem recordAlong?_of_recorded (rest : List Nat)
    (recorded : (tables.at? scope).bind entry = some found) :
    recordAlong? index tables entry name (scope :: rest) = some (scope :: rest, found) := by
  rw [recordAlong?, recorded]

theorem recordAlong?_of_bound (rest : List Nat) (unrecorded : (tables.at? scope).bind entry = none)
    (bound : (index.own? scope name).isSome) :
    recordAlong? index tables entry name (scope :: rest) = none := by
  rw [recordAlong?, unrecorded]
  exact if_pos bound

theorem recordAlong?_of_passed (rest : List Nat) (unrecorded : (tables.at? scope).bind entry = none)
    (unbound : index.own? scope name = none) : recordAlong? index tables entry name (scope :: rest)
    = recordAlong? index tables entry name rest := by
  rw [recordAlong?, unrecorded, unbound]
  rfl

theorem visibleAlong?_eq (chain : List Nat) : visibleAlong? index tables entry name chain =
      (recordAlong? index tables entry name chain).map Prod.snd := by
  induction chain with
  | nil => rfl
  | cons scope rest ih =>
    unfold visibleAlong? recordAlong?
    cases (tables.at? scope).bind entry with
    | some found => rfl
    | none =>
      dsimp only
      split
      · rfl
      · exact ih

/-- Where a lookup along a chain is settled: at its first scope or further out. -/
theorem recordAlong?_cases {rest : List Nat} (is : recordAlong? index tables entry name (scope ::
    rest) = some (place, found)) : ((tables.at? scope).bind entry = some found ∧ place = scope ::
    rest) ∨ ((tables.at? scope).bind entry = none ∧ index.own? scope name = none ∧ recordAlong?
    index tables entry name rest = some (place, found)) := by
  cases held : (tables.at? scope).bind entry with
  | some here =>
    rw [recordAlong?_of_recorded rest held] at is
    cases is
    exact .inl ⟨rfl, rfl⟩
  | none =>
    cases binding : index.own? scope name with
    | some bound =>
      rw [recordAlong?_of_bound rest held (by rw [binding]; rfl)] at is
      cases is
    | none =>
      rw [recordAlong?_of_passed rest held binding] at is
      exact .inr ⟨rfl, rfl, is⟩

theorem suffix_of_recordAlong? (is : recordAlong? index tables entry name chain = some (place,
    found)) : place <:+ chain ∧ place ≠ [] := by
  induction chain with
  | nil => cases is
  | cons scope rest ih =>
    rcases recordAlong?_cases is with ⟨_, rfl⟩ | ⟨_, _, later⟩
    · exact ⟨List.suffix_rfl, List.cons_ne_nil _ _⟩
    · obtain ⟨suffix, filled⟩ := ih later
      exact ⟨suffix.trans (List.suffix_cons _ _), filled⟩

/-- Scopes that neither record nor bind a name are passed by. -/
theorem recordAlong?_append (chain : List Nat) (passed : ∀ scope ∈ inner, (tables.at? scope).bind
    entry = none ∧ index.own? scope name = none) : recordAlong? index tables entry name (inner ++
    chain) = recordAlong? index tables entry name chain := by
  induction inner with
  | nil => rfl
  | cons scope rest ih =>
    obtain ⟨unrecorded, unbound⟩ := passed scope List.mem_cons_self
    rw [List.cons_append, recordAlong?_of_passed _ unrecorded unbound]
    exact ih fun other member => passed other (List.mem_cons_of_mem _ member)

/-- A record further out is seen only past scopes that do not bind the name. -/
theorem unbound_of_recordAlong?
    (is : recordAlong? index tables entry name (inner ++ chain) = some (place, found))
    (outside : place <:+ chain) : ∀ scope ∈ inner, index.own? scope name = none := by
  induction inner with
  | nil => exact fun _ member => absurd member List.not_mem_nil
  | cons scope rest ih =>
    rw [List.cons_append] at is
    rcases recordAlong?_cases is with ⟨_, rfl⟩ | ⟨_, unbound, later⟩
    · have lengths := outside.length_le
      rw [List.length_cons, List.length_append] at lengths
      omega
    · intro other member
      rcases List.mem_cons.1 member with rfl | further
      · exact unbound
      · exact ih later other further

end Along

/-! ## Tables that record what is bound -/

/-- What a scope records a name as an alias of. -/
def aliasIn? (tables : Tables) (scope : Nat) (name : Name) : Option Value :=
  (tables.at? scope).bind fun table => Names.get? table.aliases name

/-- The decoder that a scope records for a name. -/
def decoderIn? (tables : Tables) (scope : Nat) (name : Name) : Option Value :=
  (tables.at? scope).bind fun table => Names.get? table.functions name

/-- Along a chain of scopes a name is recorded in one way, and only where it is
bound or in the outermost scope. -/
structure Grounded (index : ScopeIndex) (tables : Tables) (chain : List Nat) : Prop where
  bound : ∀ scope ∈ chain.dropLast, ∀ name, (aliasIn? tables scope name).isSome = true ∨ (decoderIn?
    tables scope name).isSome = true → (index.own? scope name).isSome = true
  exclusive : ∀ scope name, aliasIn? tables scope name = none ∨ decoderIn? tables scope name = none

theorem Grounded.suffix {chain outer : List Nat} (grounded : Grounded index tables chain)
    (suffix : outer <:+ chain) : Grounded index tables outer where
  bound scope member := by
    obtain ⟨inner, rfl⟩ := suffix
    apply grounded.bound
    have filled : outer ≠ [] := by
      rintro rfl
      cases member
    rw [List.dropLast_append_of_ne_nil filled]
    exact List.mem_append_right _ member
  exclusive := grounded.exclusive

variable {route : List Stop}

theorem Grounded.unrecorded (grounded : Grounded index tables chain)
    (member : scope ∈ chain.dropLast) (unbound : index.own? scope name = none) :
    aliasIn? tables scope name = none ∧ decoderIn? tables scope name = none := by
  have bound := grounded.bound scope member name
  rw [unbound] at bound
  refine ⟨?_, ?_⟩
  · apply Option.not_isSome_iff_eq_none.1
    exact fun recorded => Bool.false_ne_true (bound (.inl recorded))
  · apply Option.not_isSome_iff_eq_none.1
    exact fun recorded => Bool.false_ne_true (bound (.inr recorded))

theorem Grounded.aliasAlong?_eq_none (grounded : Grounded index tables chain) (is : decoderAlong?
    index tables chain name = some (place, node)) : aliasAlong? index tables chain name = none := by
  induction chain with
  | nil => rfl
  | cons scope rest ih =>
    rcases recordAlong?_cases is with ⟨isDecoder, rfl⟩ | ⟨noDecoder, unbound, later⟩
    · have noAlias : aliasIn? tables scope name = none :=
        (grounded.exclusive scope name).resolve_right (by rw [decoderIn?, isDecoder]; simp)
      cases binding : index.own? scope name with
      | some bound => exact recordAlong?_of_bound rest noAlias (by rw [binding]; rfl)
      | none =>
        -- A name that is recorded but not bound is recorded in the last scope.
        have last : rest = [] := by
          by_contra filled
          have member : scope ∈ (scope :: rest).dropLast := by
            rw [List.dropLast_cons_of_ne_nil filled]
            exact List.mem_cons_self
          have unrecorded := (grounded.unrecorded member binding).2
          rw [decoderIn?, isDecoder] at unrecorded
          cases unrecorded
        subst last
        exact recordAlong?_of_passed [] noAlias binding
    · have filled : rest ≠ [] := by
        rintro rfl
        cases later
      have member : scope ∈ (scope :: rest).dropLast := by
        rw [List.dropLast_cons_of_ne_nil filled]
        exact List.mem_cons_self
      have noAlias := (grounded.unrecorded member unbound).1
      rw [aliasAlong?, recordAlong?_of_passed rest noAlias unbound]
      exact ih (grounded.suffix (List.suffix_cons _ _)) later

/-! ## Routes -/

/-- A name on a route, and the scopes from the one that records it outwards. -/
structure Stop where
  name : Name
  place : List Nat

/-- Following the name of a call to a decoder. The target of an alias is looked
up, as an alias and then as a decoder, along the scopes that `resume` makes of
those from the record outwards. -/
inductive Leads (index : ScopeIndex) (tables : Tables) (resume : List Nat → List Nat) :
    List Nat → Name → List Stop → Value → Prop where
  | ends {chain place : List Nat} {name : Name} {node : Value} (unaliased : aliasAlong? index tables
      chain name = none) (found : decoderAlong? index tables chain name = some (place, node)) :
      Leads index tables resume chain name [⟨name, place⟩] node
  | follows {chain place : List Nat} {name next : Name} {target node : Value} {route : List Stop}
      (found : aliasAlong? index tables chain name = some (place, target)) (isName : targetName?
      target = some next) (onward : Leads index tables resume (resume place) next route node) :
      Leads index tables resume chain name (⟨name, place⟩ :: route) node

variable {resume : List Nat → List Nat}

theorem Leads.exists_head (leads : Leads index tables resume chain name route node) :
    ∃ place rest, route = ⟨name, place⟩ :: rest := by
  cases leads with
  | ends _ _ => exact ⟨_, _, rfl⟩
  | follows _ _ _ => exact ⟨_, _, rfl⟩

theorem Leads.unique {other : List Stop} {found : Value}
    (first : Leads index tables resume chain name route node)
    (second : Leads index tables resume chain name other found) : other = route ∧ found = node := by
  induction first generalizing other found with
  | ends unaliased isDecoder =>
    cases second with
    | ends _ alsoDecoder =>
      cases isDecoder.symm.trans alsoDecoder
      exact ⟨rfl, rfl⟩
    | follows isAlias _ _ => cases unaliased.symm.trans isAlias
  | follows isAlias isName _ ih =>
    cases second with
    | ends unaliased _ => cases unaliased.symm.trans isAlias
    | follows alsoAlias alsoName onward =>
      cases isAlias.symm.trans alsoAlias
      cases isName.symm.trans alsoName
      obtain ⟨rfl, rfl⟩ := ih onward
      exact ⟨rfl, rfl⟩

/-- The scopes of a chain that are nested inside the first of some outer ones. -/
def nestedIn (chain place : List Nat) : List Nat := chain.take (chain.length - place.length)

/-- No scope of the chain that is nested inside the one where an alias is
recorded binds the name of its target. -/
def Unshadowed (index : ScopeIndex) (chain : List Nat) : List Nat → List Stop → Prop
  | _, [] => True
  | place, stop :: rest =>
    (∀ scope ∈ nestedIn chain place, index.own? scope stop.name = none) ∧
      Unshadowed index chain stop.place rest

theorem nestedIn_append (inner place : List Nat) : nestedIn (inner ++ place) place = inner := by
  rw [nestedIn, List.length_append, Nat.add_sub_cancel, List.take_left]

/-- Where no scope in between binds a name, it is looked up alike. -/
theorem Grounded.alike {inner : List Nat} (grounded : Grounded index tables (inner ++ place))
    (filled : place ≠ []) (unbound : ∀ scope ∈ inner, index.own? scope name = none) :
    aliasAlong? index tables (inner ++ place) name = aliasAlong? index tables place name ∧
      decoderAlong? index tables (inner ++ place) name = decoderAlong? index tables place name := by
  have unrecorded : ∀ scope ∈ inner,
      aliasIn? tables scope name = none ∧ decoderIn? tables scope name = none := by
    intro scope member
    refine grounded.unrecorded ?_ (unbound scope member)
    rw [List.dropLast_append_of_ne_nil filled]
    exact List.mem_append_left _ member
  exact ⟨recordAlong?_append place fun scope member =>
      ⟨(unrecorded scope member).1, unbound scope member⟩,
    recordAlong?_append place fun scope member =>
      ⟨(unrecorded scope member).2, unbound scope member⟩⟩

/-- The records that the pass goes through are those that the aliases denote,
exactly when no target is shadowed between the call and the record. -/
theorem leads_iff_unshadowed (grounded : Grounded index tables chain) (suffix : place <:+ chain)
    (filled : place ≠ []) (called : Leads index tables (fun _ => chain) chain name route node) :
    Leads index tables id place name route node ↔ Unshadowed index chain place route := by
  induction route generalizing name place with
  | nil =>
    obtain ⟨_, _, impossible⟩ := called.exists_head
    cases impossible
  | cons stop rest ih =>
    obtain ⟨inner, rfl⟩ := suffix
    rw [Unshadowed, nestedIn_append]
    cases called with
    | ends unaliased isDecoder =>
      constructor
      · intro denoted
        cases denoted with
        | ends _ alsoDecoder =>
          exact ⟨unbound_of_recordAlong? isDecoder (suffix_of_recordAlong? alsoDecoder).1, trivial⟩
        | follows _ _ onward =>
          obtain ⟨_, _, impossible⟩ := onward.exists_head
          cases impossible
      · rintro ⟨unbound, _⟩
        obtain ⟨sameAlias, sameDecoder⟩ := grounded.alike filled unbound
        exact .ends (sameAlias ▸ unaliased) (sameDecoder ▸ isDecoder)
    | follows isAlias isName onward =>
      obtain ⟨found, isFilled⟩ := suffix_of_recordAlong? isAlias
      have rest := ih found isFilled onward
      constructor
      · intro denoted
        cases denoted with
        | ends _ _ =>
          obtain ⟨_, _, impossible⟩ := onward.exists_head
          cases impossible
        | follows alsoAlias _ further =>
          obtain ⟨_, _, first⟩ := onward.exists_head
          obtain ⟨_, _, second⟩ := further.exists_head
          cases first.symm.trans second
          exact ⟨unbound_of_recordAlong? isAlias (suffix_of_recordAlong? alsoAlias).1,
            rest.1 further⟩
      · rintro ⟨unbound, unshadowed⟩
        have sameAlias := (grounded.alike filled unbound).1
        exact .follows (sameAlias ▸ isAlias) isName (rest.2 unshadowed)

/-! ## The route of a call -/

theorem exists_alias_of_visibleAlias? {next : Name} (is : visibleAlias? index tables scope name =
    some next) : ∃ place target, aliasAlong? index tables (index.chain scope) name = some (place,
    target) ∧ targetName? target = some next := by
  rw [visibleAlias?, visibleTarget?, visibleAlong?_eq] at is
  obtain ⟨target, seen, isName⟩ := Option.bind_eq_some_iff.1 is
  obtain ⟨⟨place, value⟩, found, rfl⟩ := Option.map_eq_some_iff.1 seen
  exact ⟨place, value, found, isName⟩

/-- What the last name that aliases are followed to leads to, the first does. -/
theorem exists_leads_of_followAliases (fuel : Nat) (seen : List Name) (name : Name)
    (leads : Leads index tables (fun _ => index.chain scope) (index.chain scope)
      (followAliases (visibleAlias? index tables scope) fuel seen name) route node) :
    ∃ route, Leads index tables (fun _ => index.chain scope) (index.chain scope) name route
      node := by
  induction fuel generalizing seen name with
  | zero => exact ⟨route, leads⟩
  | succ fuel ih =>
    unfold followAliases at leads
    split at leads
    · exact ⟨route, leads⟩
    · rename_i next visible
      split at leads
      · exact ⟨route, leads⟩
      · obtain ⟨onward, further⟩ := ih _ _ leads
        obtain ⟨place, target, found, isName⟩ := exists_alias_of_visibleAlias? visible
        exact ⟨_, .follows found isName further⟩

section Resolved

variable (grounded : Grounded index tables (index.chain scope))
  (resolved : findDecoder? index tables scope name = some node)

include grounded resolved

theorem leads_of_findDecoder? : ∃ place, Leads index tables (fun _ => index.chain scope)
    (index.chain scope) name [⟨name, place⟩] node := by
  rw [findDecoder?, visibleAlong?_eq] at resolved
  obtain ⟨⟨place, found⟩, isDecoder, rfl⟩ := Option.map_eq_some_iff.1 resolved
  exact ⟨place, .ends (grounded.aliasAlong?_eq_none isDecoder) isDecoder⟩

end Resolved

end Unravel.Pass.Strings
