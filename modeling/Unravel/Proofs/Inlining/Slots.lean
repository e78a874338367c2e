import Unravel.Proofs.Inlining.Hygiene
import Unravel.Proofs.Tree.Programs

/-!
Contract: a call is replaced without regard to the slot that it stands in.

What takes its place is of the kind of the expression that the helper exposes: what
it returns, or the argument for the parameter that it returns. Neither the parent of
the call is looked at nor anything of the helper but its parameters and its body.
-/

namespace Unravel.Pass.Inlining

open Value Walk

variable {index : ScopeIndex} {function result : Value} {arguments : List Value}
  {functionScope callScope : Option Nat} {parameters : List Name}

/-- The expression that a call of a function brings to its place: what the function
returns, or the argument for a parameter that it returns. -/
def exposed (function : Value) (arguments : List Value) : Value :=
  match parameterNames? function, (returned function).identifier? with
  | some parameters, some name =>
    (Names.get? (Names.ofList (parameters.zip arguments)) name).getD (returned function)
  | _, _ => returned function

theorem kind?_of_inlined (inlined : Inlined index function arguments functionScope callScope
    parameters result) : result.kind? = (exposed function arguments).kind? := by
  unfold exposed
  rw [inlined.named]
  have substituted := inlined.substituted
  by_cases is : (returned function).kind? = some "Identifier"
  · have named : (returned function).identifier? = (returned function).name? :=
      if_pos (beq_iff_eq.2 is)
    rw [named]
    rcases substituted.of_identifier is with ⟨name, isName, given, _⟩ | ⟨same, free⟩
    · rw [isName]
      dsimp only
      rw [given]
      rfl
    · cases isName : (returned function).name? with
      | none => rw [same]
      | some name =>
        dsimp only
        cases given : Names.get? (Names.ofList (parameters.zip arguments)) name with
        | none => rw [same]; rfl
        | some argument =>
          obtain ⟨spelling, member⟩ := Names.mem_of_get? given
          have isNode := inlined.areNodes _ member
          rw [free name argument isName given] at isNode
          cases isNode
  · have unnamed : (returned function).identifier? = none := if_neg (mt beq_iff_eq.1 is)
    rw [unnamed]
    cases substituted with
    | argument isIdentifier => exact absurd isIdentifier is
    | _ => simp

/-- Only the parameters and the body of a function are looked at. -/
theorem inline?_congr {flagged : Value} (params : flagged.attr "params" = function.attr "params")
    (body : flagged.attr "body" = function.attr "body") : inline? index flagged arguments
    functionScope callScope = inline? index function arguments functionScope callScope := by
  have simple : isSimple flagged = isSimple function := by rw [isSimple, body]; rfl
  have returns : returned flagged = returned function := by rw [returned, body]; rfl
  have named : parameterNames? flagged = parameterNames? function := by
    rw [parameterNames?, params]
    rfl
  unfold inline?
  rw [simple, returns, named]

variable {before after : Session State} {cursor moved : Cursor}

/-- Whenever a call is replaced, the replacement is of the kind of the expression that
its helper exposes: a member expression, for one, if the helper returns one or returns
a parameter whose argument is one. It is the same whatever the helper has besides its
parameters and body, as the marks of an asynchronous function or of a generator, and
the same in every slot in which the call can stand: also as the callee of a call, to
which a member expression gives a receiver, and under a delete operator. -/
theorem replaced_in_every_slot (ran : tryInline cursor before = .ok (true, moved) after) :
    ∃ target function build new,
      calledName? (cursor.nodeIn before) = some target ∧
      Names.get? before.state.functions target = some function ∧
      new = (build.run before.next).1 ∧
      after.tree = before.tree.putAt cursor.address new ∧
      new.kind? = (exposed (before.current function)
        ((cursor.nodeIn before).attr "arguments").elements).kind? ∧
      (∀ flagged : Value, flagged.attr "params" = (before.current function).attr "params" →
        flagged.attr "body" = (before.current function).attr "body" →
          inline? before.index flagged ((cursor.nodeIn before).attr "arguments").elements
            (before.index.known? function) cursor.scope = some build) ∧
      ∀ other answer final, other.scope = cursor.scope →
        other.nodeIn before = cursor.nodeIn before →
        tryInline other before = .ok answer final →
          answer.1 = true ∧ final.tree = before.tree.putAt other.address new := by
  obtain ⟨target, function, build, isJudgement, judged, places⟩ := judged_of_tryInline ran
  obtain ⟨parameters, result, inlined, remakes⟩ := inline?_eq_some judged.inlined
  refine ⟨target, function, build, _, judged.calls, judged.collected, rfl, places.tree, ?_, ?_, ?_⟩
  · rw [(remakes.twins before.next).kind?, kind?_of_inlined inlined]
  · intro flagged params body
    rw [inline?_congr params body]
    exact judged.inlined
  · intro other answer final scope node again
    have tried := tryInline_cases again
    rw [scope, node, isJudgement] at tried
    rcases tried with ⟨impossible, _⟩ | ⟨_, same, replaced, there⟩
    · cases impossible
    · cases same
      exact ⟨replaced, there.tree⟩

/-- `async function f() { return o.m }` `f()();` -/
def calledMember : Value :=
  .program [
    .node 1 "FunctionDeclaration" [("id", .identifier 2 "f"), ("params", .list []),
      ("async", .bool true),
      ("body", .block 3 [
        .returns 4 (.node 5 "MemberExpression" [("object", .identifier 6 "o"),
          ("property", .identifier 7 "m")])])],
    .statement 8 (.call 9 (.call 10 (.identifier 11 "f") []) [])]

theorem replaced_in_every_slot_calledMember : ∃ cursor before moved after, Attempted 80
    (initialSession ⟨calledMember, 12⟩ (startState [.text "f"])) cursor before ∧ tryInline cursor
    before = .ok (true, moved) after ∧ ∃ target function new,
        calledName? (cursor.nodeIn before) = some target ∧
        Names.get? before.state.functions target = some function ∧
        after.tree = before.tree.putAt cursor.address new ∧
        new.kind? = (exposed (before.current function)
          ((cursor.nodeIn before).attr "arguments").elements).kind? := by
  have passes : passesAfter (visitor 80) (initialSession ⟨calledMember, 12⟩ (startState [.text "f"]))
      16 replacesNext = true := by decide +kernel
  obtain ⟨cursor, before, moved, after, attempted, ran⟩ := exists_attempted passes
  obtain ⟨target, function, _, new, calls, collected, _, replaced, kind, _⟩ :=
    replaced_in_every_slot ran
  exact ⟨cursor, before, moved, after, attempted, ran, target, function, new, calls, collected,
    replaced, kind⟩

end Unravel.Pass.Inlining
