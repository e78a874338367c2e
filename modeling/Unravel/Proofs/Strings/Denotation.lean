import Unravel.Proofs.Strings.Upkeep
import Unravel.Proofs.Tree.Programs

/-!
Contract: which decoder a call is resolved through.

The target of an alias is looked up anew from the scope of the call, and not
from the scope that records the alias. Both lookups go the same way exactly when
no scope between the call and the record binds the name of the target
(`recovered_as_denoted_iff`).
-/

namespace Unravel.Pass.Strings

open Walk

variable {session after : Session State}

/-- The pass follows aliases from the scope of the call at every step. -/
theorem exists_leads_of_decoderOf? {index : ScopeIndex} {tables : Tables} {scope : Nat}
    {name : Name} {decoder : Value} (nested : index.Nested) (recorded : Recorded index tables)
    (found : decoderOf? index tables scope name = some decoder) :
    ∃ route, Leads index tables (fun _ => index.chain scope) (index.chain scope) name route
      decoder := by
  obtain ⟨place, ends⟩ := leads_of_findDecoder? (recorded.grounded nested scope) found
  exact exists_leads_of_followAliases _ _ _ ends

variable {limit : Nat}

theorem exists_recovers_of_step {owner : Cursor} {slot : Slot} {following : List Frame} {call :
    Value} (found : session.tree.at? (owner.address ++ [slot]) = some call) (isCall : call.isKind
    "CallExpression") (visits : step (visitor limit) (.entering owner slot) session = .ok following
    after) (resolved : session.state.recovered < after.state.recovered) : ∃ scope string moved,
    (session.index.known? call).or owner.scope = some scope ∧ recovery? session scope call = some
    string ∧ Recovers string ⟨owner.address ++ [slot], some scope, owner.scope, false⟩ session moved
    after := by
  have kind := Value.kind?_of_isKind isCall
  have plain : call.createsScope = false := by
    rw [Value.createsScope, Value.scopeKind?, kind]
    rfl
  rw [step_entering_of_isNode found (Value.isNode_of_kind? kind)] at visits
  obtain ⟨scope, reached, moved, inScope, acts, _⟩ := enterNode_eq_ok visits
  rw [WalkM.scopeOf_of_plain plain] at inScope
  cases inScope
  have here : ∀ scope, (⟨owner.address ++ [slot], scope, owner.scope, false⟩ : Cursor).nodeIn
      session = call := by
    intro scope
    rw [Cursor.nodeIn, found]
    rfl
  have handlers : (visitor limit).handlersFor .entering "CallExpression" = [resolveCall] := rfl
  rw [Visitor.dispatch_apply (by rw [here, kind]), handlers, Visitor.runHandlers_singleton] at acts
  have done := resolveCall_eq_ok acts
  rw [here] at done
  split at done
  · rw [done.recovered] at resolved
    exact absurd resolved (Nat.lt_irrefl _)
  · rename_i string isString
    obtain ⟨scope, inScope, recovers⟩ := Option.bind_eq_some_iff.1 isString
    dsimp only at inScope
    rw [inScope] at done
    exact ⟨scope, string, moved, inScope, recovers, done⟩

/-- A call that the pass resolves is replaced by the string of a decoder that
its name leads to when every target is looked up from the call. These are the
records and the decoder that the aliases denote exactly when no target is bound
again between the call and the record of its alias. -/
theorem recovered_as_denoted_iff {limit : Nat} {document : Document} {options : Options}
    {owner : Cursor} {slot : Slot} {rest following : List Frame} {call : Value}
    (reached : Reached (visitor limit) (initialSession document (State.initial options))
      (.entering owner slot :: rest) session)
    (found : session.tree.at? (owner.address ++ [slot]) = some call)
    (isCall : call.isKind "CallExpression" = true)
    (visits : step (visitor limit) (.entering owner slot) session = .ok following after)
    (resolved : session.state.recovered < after.state.recovered) :
    ∃ scope name argument decoder shape string route,
      (session.index.known? call).or owner.scope = some scope ∧
      namedCall? call = some (name, argument) ∧
      shapeIn? session decoder = some shape ∧
      stringAt? session.index session.state.tables scope decoder shape argument = some string ∧
      after.tree = session.tree.putAt (owner.address ++ [slot])
        ((Value.stringNode string).run session.next).1 ∧
      Leads session.index session.state.tables (fun _ => session.index.chain scope)
        (session.index.chain scope) name route decoder ∧
      (Leads session.index session.state.tables id (session.index.chain scope) name route decoder ↔
        Unshadowed session.index (session.index.chain scope) (session.index.chain scope) route) ∧
      (Unshadowed session.index (session.index.chain scope) (session.index.chain scope) route →
        ∀ other denoted, Leads session.index session.state.tables id (session.index.chain scope)
          name other denoted → denoted = decoder) := by
  obtain ⟨placed, recorded⟩ := inOrder_of_reached reached
  obtain ⟨scope, string, moved, inScope, recovers, done⟩ :=
    exists_recovers_of_step found isCall visits resolved
  obtain ⟨⟨name, argument⟩, isNamed, isString⟩ := Option.bind_eq_some_iff.1 recovers
  obtain ⟨decoder, isDecoder, shapes⟩ := Option.bind_eq_some_iff.1 isString
  obtain ⟨shape, isShape, reads⟩ := Option.bind_eq_some_iff.1 shapes
  obtain ⟨route, leads⟩ := exists_leads_of_decoderOf? placed.nested recorded isDecoder
  have asDenoted := leads_iff_unshadowed (recorded.grounded placed.nested scope) List.suffix_rfl
    (session.index.chain_ne_nil scope) leads
  refine ⟨scope, name, argument, decoder, shape, string, route, inScope, isNamed, isShape, reads,
    done.tree, leads, asDenoted, ?_⟩
  intro unshadowed other denoted isDenoted
  exact ((asDenoted.2 unshadowed).unique isDenoted).2

/-- `function g() { return a(0); function d(n) { return u[n] } }`
`function d(n) { return t[n] } var a = d, t = ["right"], u = ["wrong"];`

The alias `a` is recorded where `d` reads `t`, and called where `d` reads `u`. -/
def reusedName : Document where
  tree := .program [
    .function 1 (.identifier 2 "g") [] (.block 3 [
      .returns 4 (.call 5 (.identifier 6 "a") [.integer 7 0]),
      .function 8 (.identifier 9 "d") [.identifier 10 "n"] (.block 11 [
        .returns 12 (.member 13 true (.identifier 14 "u") (.identifier 15 "n"))])]),
    .function 16 (.identifier 17 "d") [.identifier 18 "n"] (.block 19 [
      .returns 20 (.member 21 true (.identifier 22 "t") (.identifier 23 "n"))]),
    .declaration 24 [
      .declarator 25 (.identifier 26 "a") (.identifier 27 "d"),
      .declarator 28 (.identifier 29 "t") (.array 30 [.string 31 "right"]),
      .declarator 32 (.identifier 33 "u") (.array 34 [.string 35 "wrong"])]]
  next := 36

/-- Whether the next visit resolves a call. -/
def resolvesNext (limit : Nat) : List Frame → Session State → Bool
  | .entering owner slot :: _, session =>
    match session.tree.at? (owner.address ++ [slot]),
      step (visitor limit) (.entering owner slot) session with
    | some call, .ok _ after =>
      call.isKind "CallExpression" && session.state.recovered < after.state.recovered
    | _, _ => false
  | _, _ => false

theorem exists_of_resolvesNext {frames : List Frame} (resolves : resolvesNext limit frames session)
    : ∃ owner slot rest call following after, frames = .entering owner slot :: rest ∧
    session.tree.at? (owner.address ++ [slot]) = some call ∧ call.isKind "CallExpression" ∧ step
    (visitor limit) (.entering owner slot) session = .ok following after ∧ session.state.recovered <
    after.state.recovered := by
  unfold resolvesNext at resolves
  split at resolves
  · split at resolves
    · rename_i found visits
      obtain ⟨isCall, resolved⟩ := Bool.and_eq_true_iff.1 resolves
      exact ⟨_, _, _, _, _, _, rfl, found, isCall, visits, of_decide_eq_true resolved⟩
    · cases resolves
  · cases resolves

theorem recovered_as_denoted_iff_reusedName :
    ∃ owner slot rest session call following after,
      Reached (visitor 80) (initialSession reusedName (State.initial []))
        (.entering owner slot :: rest) session ∧
      session.tree.at? (owner.address ++ [slot]) = some call ∧
      call.isKind "CallExpression" = true ∧
      step (visitor 80) (.entering owner slot) session = .ok following after ∧
      session.state.recovered < after.state.recovered ∧
      ∃ scope name argument decoder string route,
        namedCall? call = some (name, argument) ∧
        after.tree = session.tree.putAt (owner.address ++ [slot])
          ((Value.stringNode string).run session.next).1 ∧
        Leads session.index session.state.tables (fun _ => session.index.chain scope)
          (session.index.chain scope) name route decoder ∧
        (Leads session.index session.state.tables id (session.index.chain scope) name route decoder ↔
          Unshadowed session.index (session.index.chain scope) (session.index.chain scope) route) := by
  have passes : passesAfter (visitor 80) (initialSession reusedName (State.initial [])) 5
      (resolvesNext 80) = true := by decide +kernel
  obtain ⟨frames, session, reached, resolves⟩ := exists_reached passes
  obtain ⟨owner, slot, rest, call, following, after, rfl, found, isCall, visits, resolved⟩ :=
    exists_of_resolvesNext resolves
  obtain ⟨scope, name, argument, decoder, _, string, route, _, isNamed, _, _, replaced, leads,
    asDenoted, _⟩ := recovered_as_denoted_iff reached found isCall visits resolved
  exact ⟨owner, slot, rest, session, call, following, after, reached, found, isCall, visits,
    resolved, scope, name, argument, decoder, string, route, isNamed, replaced, leads, asDenoted⟩

end Unravel.Pass.Strings
