import Unravel.Proofs.Inlining.Faults
import Unravel.Proofs.Inlining.Judgement
import Unravel.Proofs.Tree.Programs

/-!
Contract: the search for recursive helpers finds the cycles of calls and nothing else.

A cycle is written out as a chain of names: each has a body that calls the next, all but the
two ends are tracked, and it closes. The search goes along `CallsThrough`; it misses no chain
(`callsBack_of_callsThrough`), and what it finds is one (`callsThrough_of_callsBack`). So a
verdict that is not kept yet is made, and says whether there is a cycle
(`isRecursive_iff_cycle`).
-/

namespace Unravel.Pass.Inlining

open Value

variable {name target caller : Name} {tracked seen pending called : List Name}

/-! ## The search finds chains only -/

section Search

variable {callees : Name → Option (List Name)}

theorem mem_called_of_mem_unseen (member : name ∈ unseen tracked seen called) : name ∈ called :=
  (List.mem_filter.1 (Name.mem_of_mem_distinct member)).1

theorem exists_callsThrough_of_reaches (fuel : Nat)
    (found : reaches callees tracked target fuel seen pending = true) :
    ∃ start ∈ pending, CallsThrough callees tracked start target := by
  induction fuel generalizing seen pending with
  | zero => cases found
  | succ fuel ih =>
    cases pending with
    | nil => cases found
    | cons next pending =>
      rw [reaches] at found
      cases has : callees next with
      | none =>
        rw [has] at found
        obtain ⟨start, waits, chain⟩ := ih found
        exact ⟨start, List.mem_cons_of_mem _ waits, chain⟩
      | some called =>
        simp only [has] at found
        split at found
        · rename_i calls
          exact ⟨next, List.mem_cons_self, .direct has calls⟩
        · obtain ⟨start, waits, chain⟩ := ih found
          rcases List.mem_append.1 waits with isNew | waited
          · exact ⟨next, List.mem_cons_self,
              .through has (mem_called_of_mem_unseen isNew) (of_mem_unseen isNew).1 chain⟩
          · exact ⟨start, List.mem_cons_of_mem _ waited, chain⟩

theorem callsThrough_of_callsBack (found : callsBack callees tracked name) :
    CallsThrough callees tracked name name := by
  obtain ⟨start, waits, chain⟩ := exists_callsThrough_of_reaches _ found
  rwa [List.mem_singleton.1 waits] at chain

end Search

/-! ## Chains written out -/

variable {body? : Name → Option Value}

/-- Somewhere in the body of a name there is a call whose callee is an identifier of another. -/
def Calls (body? : Name → Option Value) (caller callee : Name) : Prop :=
  ∃ body, body? caller = some body ∧ ∃ call ∈ body.nodes, call.isKind "CallExpression" ∧
    (call.attr "callee").isIdentifier ∧
      ∃ spelled, (call.attr "callee").name? = some spelled ∧ spelled.same callee

/-- A chain of calls from one name to another, through tracked names. -/
structure Chain (body? : Name → Option Value) (tracked : List Name) (first last : Name)
    (length : Nat) (chain : Nat → Name) : Prop where
  positive : 0 < length
  starts : chain 0 = first
  ends : chain length = last
  tracked : ∀ position, 0 < position → position < length → (chain position).isIn tracked
  calls : ∀ position < length, Calls body? (chain position) (chain (position + 1))

/-- A name that calls itself through tracked names. -/
def Cycle (body? : Name → Option Value) (tracked : List Name) (name : Name) : Prop :=
  ∃ length chain, Chain body? tracked name name length chain

theorem calls_iff : Calls body? caller target ↔
    ∃ called, (body? caller).map calledNames = some called ∧ target.isIn called := by
  constructor
  · rintro ⟨body, has, call, within, isCall, isIdentifier, spelled, isSpelled, same⟩
    have names : calledName? call = some spelled := by
      rw [calledName?, callee?, isCall, isIdentifier]
      exact isSpelled
    exact ⟨calledNames body, by rw [has]; rfl, Name.isIn_iff.2
      ⟨spelled, List.mem_filterMap.2 ⟨call, within, names⟩, (Name.same_iff.1 same).symm⟩⟩
  · rintro ⟨called, has, isIn⟩
    obtain ⟨body, hasBody, rfl⟩ := Option.map_eq_some_iff.1 has
    obtain ⟨spelled, listed, same⟩ := Name.isIn_iff.1 isIn
    obtain ⟨call, within, names⟩ := List.mem_filterMap.1 listed
    obtain ⟨callee, isCallee, isSpelled⟩ := Option.bind_eq_some_iff.1 names
    obtain ⟨isCall, rfl, isIdentifier⟩ := isKind_of_callee? isCallee
    exact ⟨body, hasBody, call, within, isCall, isIdentifier, spelled, isSpelled,
      Name.same_iff.2 same.symm⟩

theorem exists_chain_of_callsThrough
    (through : CallsThrough (fun name => (body? name).map calledNames) tracked caller target) :
    ∃ length chain, Chain body? tracked caller target length chain := by
  induction through with
  | @direct caller target called has calls =>
    refine ⟨1, Nat.rec caller fun _ _ => target, Nat.one_pos, rfl, rfl, ?_, ?_⟩
    · intro position after before
      omega
    · intro position before
      obtain rfl : position = 0 := by omega
      exact calls_iff.2 ⟨called, has, calls⟩
  | @through caller middle target called has calls isTracked _ ih =>
    obtain ⟨length, chain, isChain⟩ := ih
    obtain rfl := isChain.starts
    refine ⟨length + 1, Nat.rec caller fun position _ => chain position, Nat.succ_pos _, rfl,
      isChain.ends, ?_, ?_⟩
    · rintro (_ | _ | position) after before
      · exact absurd after (Nat.lt_irrefl 0)
      · exact isTracked
      · exact isChain.tracked (position + 1) (Nat.succ_pos _) (Nat.lt_of_succ_lt_succ before)
    · rintro (_ | position) before
      · exact calls_iff.2 ⟨called, has, Name.isIn_of_mem calls⟩
      · exact isChain.calls position (Nat.lt_of_succ_lt_succ before)

section Spelling

variable (respects : ∀ name other : Name, name.key = other.key → body? name = body? other)

include respects

theorem CallsThrough.congr_caller {other : Name} (same : caller.key = other.key)
    (through : CallsThrough (fun name => (body? name).map calledNames) tracked caller target) :
    CallsThrough (fun name => (body? name).map calledNames) tracked other target := by
  have one := respects caller other same
  cases through with
  | direct has calls => exact .direct (one ▸ has) calls
  | through has calls isTracked further => exact .through (one ▸ has) calls isTracked further

/-- The names of a chain may be spelled otherwise than in the bodies that call them. -/
theorem callsThrough_of_chain {length : Nat} {chain : Nat → Name}
    (isChain : Chain body? tracked caller target length chain) :
    CallsThrough (fun name => (body? name).map calledNames) tracked caller target := by
  induction length generalizing caller chain with
  | zero => exact absurd isChain.positive (Nat.lt_irrefl 0)
  | succ length ih =>
    have first := isChain.calls 0 isChain.positive
    rw [isChain.starts] at first
    obtain ⟨called, has, isIn⟩ := calls_iff.1 first
    cases length with
    | zero => exact .direct has (isChain.ends ▸ isIn)
    | succ length =>
      have rest : Chain body? tracked (chain 1) target (length + 1) fun position =>
          chain (position + 1) :=
        ⟨Nat.succ_pos _, rfl, isChain.ends,
          fun position _ before => isChain.tracked _ (Nat.succ_pos _) (Nat.succ_lt_succ before),
          fun position before => isChain.calls _ (Nat.succ_lt_succ before)⟩
      obtain ⟨spelled, listed, same⟩ := Name.isIn_iff.1 isIn
      have isTracked : spelled.isIn tracked := by
        rw [← Name.isIn_congr same]
        exact isChain.tracked 1 Nat.one_pos (Nat.succ_lt_succ (Nat.succ_pos _))
      exact .through has listed isTracked ((ih rest).congr_caller respects same)

theorem callsBack_iff_cycle :
    callsBack (fun name => (body? name).map calledNames) tracked name ↔
      Cycle body? tracked name := by
  constructor
  · exact fun found => exists_chain_of_callsThrough (callsThrough_of_callsBack found)
  · rintro ⟨length, chain, isChain⟩
    exact callsBack_of_callsThrough (fun name other same => by rw [respects name other same])
      (callsThrough_of_chain respects isChain)

end Spelling

/-! ## The verdict -/

variable {session : Session State}

theorem isRecursive_apply (uncached : Names.get? session.state.recursive target = none)
    (fine : recursionFault? (bodyNow session) session.state.tracked target = none) :
    isRecursive target session = .ok (callsItself session target)
      { session with state := { session.state with
          recursive := Names.put session.state.recursive target (callsItself session target) } } := by
  unfold isRecursive
  rw [WalkM.get_bind]
  dsimp only
  rw [uncached]
  dsimp only
  rw [fine]
  rfl

/-- A verdict that is not kept yet is made, kept, and says whether the name calls itself through
tracked names. The bodies of the functions have to be proper nodes. -/
theorem isRecursive_iff_cycle (uncached : Names.get? session.state.recursive target = none)
    (bodies : ∀ entry ∈ session.state.functions,
      ((session.current entry.2).attr "body").Lawful ∧
        ((session.current entry.2).attr "body").isNode) :
    ∃ verdict, isRecursive target session = .ok verdict
        { session with state := { session.state with
            recursive := Names.put session.state.recursive target verdict } } ∧
      (verdict = true ↔ Cycle (bodyNow session) session.state.tracked target) := by
  have fine : recursionFault? (bodyNow session) session.state.tracked target = none := by
    refine recursionFault?_of_lawful (fun name body held => ?_) _ _
    obtain ⟨function, collected, rfl⟩ := Option.map_eq_some_iff.1 held
    obtain ⟨spelling, member⟩ := Names.mem_of_get? collected
    exact bodies _ member
  exact ⟨callsItself session target, isRecursive_apply uncached fine,
    callsBack_iff_cycle (bodyNow_respects session)⟩

/-- `function f() { return g(1) }` and `function g() { return [f()] }`, collected under their
names, with both names tracked and nothing kept. -/
def mutualCalls : Session State :=
  let first := .function 1 (.identifier 2 "f") []
    (.block 3 [.returns 4 (.call 5 (.identifier 6 "g") [.integer 7 1])])
  let second := .function 8 (.identifier 9 "g") []
    (.block 10 [.returns 11 (.array 12 [.call 13 (.identifier 14 "f") []])])
  { tree := .program [first, second]
    next := 15
    index := .empty
    log := []
    state := ⟨.empty, [(.text "f", first), (.text "g", second)], [.text "f", .text "g"], [], 0⟩ }

theorem isRecursive_iff_cycle_mutualCalls :
    Names.get? mutualCalls.state.recursive (.text "f") = none ∧
      Cycle (bodyNow mutualCalls) mutualCalls.state.tracked (.text "f") := by
  have uncached : Names.get? mutualCalls.state.recursive (.text "f") = none := rfl
  obtain ⟨verdict, ran, is⟩ := isRecursive_iff_cycle uncached (by decide +kernel)
  have finds : (isRecursive (.text "f")).run' mutualCalls = some true := by decide +kernel
  have returns : (isRecursive (.text "f")).run' mutualCalls = some verdict := by
    delta EStateM.run' EStateM.run
    rw [ran]
  exact ⟨uncached, is.1 (Option.some.inj (returns.symm.trans finds))⟩

end Unravel.Pass.Inlining
