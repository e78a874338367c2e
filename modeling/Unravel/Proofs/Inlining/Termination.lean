import Unravel.Proofs.Inlining.Hygiene
import Unravel.Proofs.Pass.Counting
import Unravel.Proofs.Tree.Programs
import Unravel.Proofs.Walk.Exhaustion

/-!
Contract: when the pass ends.

A verdict on a name is kept once it is made, while the bodies it was made from go
on changing. So a call may be replaced although its name calls itself by then,
and a pass that keeps doing so does not end. It ends just when it replaces
finitely many calls (`ends_iff`).
-/

namespace Unravel.Pass.Inlining

open Value Walk

variable {session : Session State} {cursor : Cursor} {document : Document}

theorem reads_collector : collector.Reads := by
  constructor
  · intro phase kind handler member cursor session
    have gathers := gathers_of_handler member cursor session
    generalize handler cursor session = outcome at gathers ⊢
    cases gathers with
    | fails | leaves | adds => exact ⟨rfl, nofun⟩
  · intro phase kind handler member cursor session moved after ran
    rw [(added_of_handler member ran).1]

/-- The pass after the collection. -/
def replacer : Visitor State := [.onEnter "CallExpression" (inlineRounds maxRounds)]

theorem remains_replacer : replacer.Remains := by
  refine acts_onEnter (fun cursor session _ _ => ends_inlineRounds governed_remains
    (fun cursor session _ => ?_) maxRounds cursor trivial) acts_nil
  refine tryInline_outcome cursor session (fun _ _ _ _ => nofun) (fun _ _ _ => rfl) ?_
  rintro result middle outcome _ _ placing
  cases placing with
  | refused => exact nofun
  | put => exact rfl
  | @unread drawn after new fault _ _ _ ran =>
    rintro rfl
    exact (fixes_scopeOf (fun _ _ _ => rfl : Blind Session.tree) _ _ _).2 after ran

/-- The root is the only program, and none is in a collected function. -/
structure Sole (session : Session State) : Prop where
  program : session.tree.kind? = some "Program"
  single : session.tree.Within notProgram
  functions : ∀ entry ∈ session.state.functions, entry.2.Everywhere notProgram

theorem suited_sole : Suited Sole fun _ => True := by
  refine ⟨fun before after same sole => ?_, fun _ _ => trivial⟩
  simp only [standing, Prod.mk.injEq] at same
  exact ⟨same.1 ▸ sole.program, same.1 ▸ sole.single, same.2.2 ▸ sole.functions⟩

variable {kind : String}

theorem Sole.nodeIn (sole : Sole session) (is : (cursor.nodeIn session).kind? = some kind) (other :
    kind ≠ "Program") : (cursor.nodeIn session).Everywhere notProgram := by
  unfold Cursor.nodeIn at is ⊢
  cases found : session.tree.at? cursor.address with
  | none => exact everywhere_null
  | some node =>
    rw [found] at is
    refine within_at? sole.single (fun atRoot => other ?_) found
    rw [atRoot] at found
    obtain rfl : session.tree = node := Option.some.inj found
    cases sole.program.symm.trans is
    rfl

variable {function : Value}

theorem Sole.current (sole : Sole session) (ordinary : function.Everywhere notProgram) :
    (session.current function).Within notProgram := by
  rcases current_cases session function with is | ⟨_, _, _, member⟩
  · rw [is]
    exact within_of_everywhere ordinary
  · obtain ⟨own, is⟩ := exists_label?_of_isNode (isNode_of_kind? sole.program)
    exact within_of_mem sole.single is member

theorem Offers.ne_program {node : Value} (offers : Offers node kind function) : kind ≠ "Program"
    := by
  cases offers <;> decide

theorem actions_sole (limit : Nat) : Actions (visitor limit) Sole fun _ => True := by
  refine actions_visitor suited_sole ?_ (fun cursor session sole => ?_) limit
  · refine fun phase kind handler member cursor session sole is => ends_of_ok fun moved after ran => ?_
    obtain ⟨_, functions, rfl, from_⟩ := added_of_handler member ran
    refine ⟨sole.program, sole.single, fun entry member => ?_⟩
    rcases from_ entry member with was | offers
    · exact sole.functions entry was
    · exact offers.everywhere (sole.nodeIn is offers.ne_program)
  · refine ends_of_ok fun tried after ran => ?_
    rcases tryInline_cases ran with ⟨_, _, _, learns⟩ | ⟨build, isJudgement, _, places⟩
    · exact ⟨learns.tree ▸ sole.program, learns.tree ▸ sole.single,
        learns.functions ▸ sole.functions⟩
    · obtain ⟨target, function, judged⟩ := judged_of_judgement isJudgement
      obtain ⟨spelling, member⟩ := Names.mem_of_get? judged.collected
      obtain ⟨parameters, result, inlined, remakes⟩ := inline?_eq_some judged.inlined
      have inCall := sole.nodeIn (kind?_of_calledName? judged.calls) (by decide)
      have inResult := inlined.everywhere (fun _ _ _ _ _ other => other)
        (sole.current (sole.functions _ member)) fun argument isArgument =>
          everywhere_elements (everywhere_attr inCall "arguments") isArgument
      refine ⟨?_, ?_, places.functions ▸ sole.functions⟩
      · rw [places.tree, kind?_putAt places.below]
        exact sole.program
      · rw [places.tree]
        refine within_putAt sole.single places.below ?_
        exact (remakes.twins session.next).everywhere inResult

/-- The pass over a program ends, whatever names are tracked, just when it replaces finitely
many calls. -/
theorem ends_iff (tracked : List Name) (program : document.tree.kind? = some "Program")
    (single : document.tree.Within notProgram) :
    (∃ bound, ∀ limit, bound ≤ limit →
      (start limit (visitor limit) document (startState tracked)).1 ≠ .error .stepLimit) ↔
    BddAbove (Set.range fun limit =>
      (start limit (visitor limit) document (startState tracked)).2.state.inlined) :=
  @exists_start_iff State account collector replacer _ Sole document _ rfl suited_sole actions_sole
    (fun _ sole => sole.single) program ⟨program, single, List.forall_mem_nil _⟩ reads_collector
    (fun _ => fixes_bind fixes_getState fun _ =>
      fixes_bind (fixes_log (fun _ _ _ => rfl) _ _ _) fun _ => fixes_pure _) remains_replacer
    books_visitor

/-- `A(); function A(){return I(A)()+1} function I(x){return x} A();` -/
def selfPassing : Document where
  tree := .program [
    .statement 1 (.call 2 (.identifier 3 "A") []),
    .function 4 (.identifier 5 "A") [] (.block 6 [
      .returns 7 (.binary 8 "+"
        (.call 9 (.call 10 (.identifier 11 "I") [.identifier 12 "A"]) []) (.integer 13 1))]),
    .function 14 (.identifier 15 "I") [.identifier 16 "x"] (.block 17 [
      .returns 18 (.identifier 19 "x")]),
    .statement 20 (.call 21 (.identifier 22 "A") [])]
  next := 23

theorem single_selfPassing : selfPassing.tree.Within notProgram := by
  simp [Within, selfPassing, Everywhere, EverywhereItems, EverywhereFields, notProgram, fields]

/-- If only `I` is tracked, the pass ends, and so it replaces finitely many calls. -/
theorem ends_iff_selfPassing : selfPassing.tree.kind? = some "Program" ∧
    ((∃ bound, ∀ limit, bound ≤ limit → (start limit (visitor limit) selfPassing
      (startState [.text "A", .text "I"])).1 ≠ .error .stepLimit) ↔
    BddAbove (Set.range fun limit => (start limit (visitor limit) selfPassing
      (startState [.text "A", .text "I"])).2.state.inlined)) ∧
    BddAbove (Set.range fun limit => (start limit (visitor limit) selfPassing
      (startState [.text "I"])).2.state.inlined) := by
  have uncut : (start 44 (visitor 44) selfPassing (startState [.text "I"])).1 ≠ .error .stepLimit :=
    fun cut => absurd (congrArg Except.toBool cut) (by decide +kernel)
  exact ⟨rfl, ends_iff [.text "A", .text "I"] rfl single_selfPassing,
    (ends_iff [.text "I"] rfl single_selfPassing).1 ⟨44, fun limit most =>
      @uncut_of_le State collector replacer _ Sole selfPassing _ rfl suited_sole actions_sole
        (fun _ sole => sole.single) rfl ⟨rfl, single_selfPassing, List.forall_mem_nil _⟩ 44 limit
        most uncut⟩⟩

end Unravel.Pass.Inlining
