import Mathlib.Algebra.Ring.Int.Defs
import Unravel.Proofs.Pass.Counting

/-!
Contract: passes one after the other.

A run is its passes one after the other (`stages`), each on the document that the one
before has left, up to the first that fails or whose warnings cannot be gone through.
Those before it are booked in turn (`runScheduled_books`): their metadata stand under
names of their own, and the report has gained their counters (`Report.Adds`).
-/

namespace Unravel

/-- A pass of a run: the document it was given and what came of it. -/
structure Stage where
  name : String
  before : Document
  outcome : PassOutcome

/-- Scheduled passes one after the other, each on what the one before has left. -/
def stages (limit : Nat) (options : Options) : List (String × Registration) → Document → List Stage
  | [], _ => []
  | (name, registration) :: rest, document =>
    let outcome := registration.plugin.apply limit options document
    ⟨name, document, outcome⟩ :: stages limit options rest outcome.document

/-- The document that passes leave. -/
def leftBy (passes : List Stage) (document : Document) : Document :=
  passes.foldl (fun _ pass => pass.outcome.document) document

/-- The passes have succeeded, each with its metadata. -/
def Succeed (passes : List Stage) (metadata : Members Metadata) : Prop :=
  passes.map (fun pass => (pass.name, pass.outcome.result)) =
    metadata.map fun entry => (entry.1, .ok entry.2)

theorem Succeed.names {passes : List Stage} {metadata : Members Metadata}
    (succeed : Succeed passes metadata) : Members.names metadata = passes.map Stage.name := by
  have same := congrArg (List.map Prod.fst) succeed
  rw [List.map_map, List.map_map] at same
  exact same.symm

/-! ## Records -/

theorem Members.put_of_absent {α : Type} {members : Members α} {name : String}
    (absent : name ∉ Members.names members) (value : α) :
    Members.put members name value = members ++ [(name, value)] := by
  induction members with
  | nil => rfl
  | cons entry rest ih =>
    simp only [Members.names, List.map_cons, List.mem_cons, not_or] at absent
    rw [Members.put, if_neg fun same => absent.1 same.symm, ih absent.2]
    rfl

namespace Report

variable {report recorded : Report} {name : String} {metadata : Metadata} {duration : Double}

/-- What is on record of a pass, but for its warnings, are its counters. -/
theorem recordPass_eq_ok (records : report.recordPass name metadata duration = .ok recorded) :
    ∃ warnings, recorded = { report.recordCounts name metadata duration with
      warnings := warnings } := by
  unfold recordPass at records
  cases gone : warningsOf metadata with
  | error fault =>
    rw [gone] at records
    cases records
  | ok warnings =>
    rw [gone] at records
    cases records
    exact ⟨_, rfl⟩

theorem recordPass_eq_error {fault : SortFault}
    (refused : report.recordPass name metadata duration = .error fault) :
    warningsOf metadata = .error fault := by
  unfold recordPass at refused
  cases gone : warningsOf metadata with
  | error other =>
    rw [gone] at refused
    cases refused
    rfl
  | ok warnings =>
    rw [gone] at refused
    cases refused

/-- The report after the passes of some metadata, if their warnings can all be gone
through. -/
def recordAll (report : Report) (metadata : Members Metadata) : Except SortFault Report :=
  metadata.foldlM (fun report entry => report.recordPass entry.1 entry.2 Clock.interval) report

theorem recordAll_cons (records : report.recordPass name metadata Clock.interval = .ok recorded)
    (rest : Members Metadata) :
    report.recordAll ((name, metadata) :: rest) = recorded.recordAll rest := by
  rw [recordAll, List.foldlM_cons, records]
  rfl

/-- The counters of passes have been added to a report. -/
structure Adds (added : Members Metadata) (before after : Report) : Prop where
  passes : after.passesRun = before.passesRun ++ Members.names added
  errors : after.errors = before.errors
  changes : after.totalChanges =
    before.totalChanges + (added.map fun entry => rewrites entry.2).sum
  refusals : after.refusals =
    before.refusals + (added.map fun entry => count entry.2 "skipped").sum

theorem recordAll_eq_ok {added : Members Metadata} (records : report.recordAll added = .ok recorded) :
    Adds added report recorded := by
  induction added generalizing report with
  | nil =>
    cases records
    exact ⟨(List.append_nil _).symm, rfl, (Int.add_zero _).symm, (Int.add_zero _).symm⟩
  | cons entry rest ih =>
    cases first : report.recordPass entry.1 entry.2 Clock.interval with
    | error fault =>
      rw [recordAll, List.foldlM_cons, first] at records
      cases records
    | ok middle =>
      obtain ⟨passes, errors, changes, refusals⟩ :=
        ih ((recordAll_cons first rest).symm.trans records)
      obtain ⟨warnings, rfl⟩ := recordPass_eq_ok first
      refine ⟨passes.trans (List.append_assoc _ _ _), errors, ?_, ?_⟩
      · rw [changes, List.map_cons, List.sum_cons]
        simp only [totalChanges, recordCounts, rewrites]
        omega
      · rw [refusals, List.map_cons, List.sum_cons, ← Int.add_assoc]
        rfl

end Report

/-! ## Passes one after the other -/

/-- What is logged when a pass is run: its own remarks and how it has ended. -/
def Stage.remarks (pass : Stage) : List Remark :=
  pass.outcome.log ++
    match pass.outcome.result with
    | .ok metadata =>
      [⟨pipelineLogger, .info, [.text ("pass " ++ pass.name ++ " completed in " ++
        Clock.interval.fixed 3 ++ "s" ++ summary metadata)]⟩]
    | .error fault =>
      [⟨pipelineLogger, .error, [.text ("pass " ++ pass.name ++ " failed after " ++
        Clock.interval.fixed 3 ++ "s: " ++ fault.message)]⟩]

/-- What a run knows after passes with the given metadata have left a report and a
document. -/
def Context.book (context : Context) (metadata : Members Metadata) (report : Report)
    (document : Document) : Context :=
  { context with
    document := document
    report := report
    metadata := context.metadata ++ metadata }

/-- The failure of a pass after others have been completed. -/
def Progress.failure (progress : Progress) (metadata : Members Metadata) (report : Report)
    (failing : Stage) (fault : Fault) : PassFailure where
  pass := failing.name
  fault := fault
  timings := progress.timings ++ metadata.map fun entry => (entry.1, Clock.interval)
  duration := Clock.interval
  context := progress.context.book metadata
    { report with errors := report.errors ++ [failing.name ++ ": " ++ fault.message] }
    failing.outcome.document

/-- The halt at a pass whose metadata cannot be put on record: its counters are, and its
warnings are not. -/
def Progress.halt (progress : Progress) (metadata : Members Metadata) (report : Report)
    (pass : Stage) (reported : Metadata) (fault : SortFault) : Halt :=
  .unrecorded pass.name fault (progress.context.book (metadata ++ [(pass.name, reported)])
    (report.recordCounts pass.name reported Clock.interval) pass.outcome.document)

theorem Context.book_book (context : Context) (first second : Members Metadata)
    (middle last : Report) (between after : Document) :
    (context.book first middle between).book second last after =
      context.book (first ++ second) last after := by
  simp [Context.book, List.append_assoc]

theorem Context.book_nil (context : Context) :
    context.book [] context.report context.document = context := by
  simp [Context.book]

/-- A pass under a name that is not on record is booked after those that are. -/
theorem leave_eq_book {progress : Progress} {name : String}
    (absent : name ∉ Members.names progress.context.metadata) (outcome : PassOutcome)
    (metadata : Metadata) (report : Report) :
    progress.leave name outcome metadata report =
      progress.context.book [(name, metadata)] report outcome.document := by
  have onRecord := Members.put_of_absent absent metadata
  simp only [Progress.leave, Context.book, onRecord]

/-- How a run of passes ends, given those that have been completed, their metadata and
the report of them, and those that have not. -/
inductive Concludes (before : Progress) (completed : List Stage) (metadata : Members Metadata)
    (report : Report) : List Stage → Except Halt Progress × List Remark → Prop where
  | succeeds {after : Progress}
      (context : after.context =
        before.context.book metadata report (leftBy completed before.context.document))
      (timings : after.timings =
        before.timings ++ metadata.map fun entry => (entry.1, Clock.interval)) :
      Concludes before completed metadata report []
        (.ok after, before.log ++ completed.flatMap Stage.remarks)
  | fails {failing : Stage} {later : List Stage} {fault : Fault}
      (result : failing.outcome.result = .error fault) :
      Concludes before completed metadata report (failing :: later)
        (.error (.failed (before.failure metadata report failing fault)),
          before.log ++ (completed ++ [failing]).flatMap Stage.remarks)
  | halts {pass : Stage} {later : List Stage} {reported : Metadata} {fault : SortFault}
      (result : pass.outcome.result = .ok reported)
      (warnings : Report.warningsOf reported = .error fault) :
      Concludes before completed metadata report (pass :: later)
        (.error (before.halt metadata report pass reported fault),
          before.log ++ completed.flatMap Stage.remarks ++ pass.outcome.log)

/-- The ending after one more pass that has been completed first. -/
theorem Concludes.cons {before : Progress} {pass : Stage} {reported : Metadata}
    {first report : Report} {completed rest : List Stage} {metadata : Members Metadata}
    {outcome : Except Halt Progress × List Remark}
    (absent : pass.name ∉ Members.names before.context.metadata)
    (result : pass.outcome.result = .ok reported)
    (ends : Concludes (before.complete pass.name pass.outcome reported first)
      completed metadata report rest outcome) :
    Concludes before (pass :: completed) ((pass.name, reported) :: metadata)
      report rest outcome := by
  have isContext : (before.complete pass.name pass.outcome reported first).context =
      before.context.book [(pass.name, reported)] first pass.outcome.document :=
    leave_eq_book absent pass.outcome reported first
  have logged : (before.complete pass.name pass.outcome reported first).log =
      before.log ++ pass.remarks := by
    simp [Progress.complete, Stage.remarks, result]
  have timed : (before.complete pass.name pass.outcome reported first).timings =
      before.timings ++ [(pass.name, Clock.interval)] := rfl
  cases ends with
  | @succeeds after context timings =>
    rw [logged, List.append_assoc]
    refine .succeeds ?_ ?_
    · rw [context, isContext, Context.book_book]
      rfl
    · rw [timings, timed, List.append_assoc]
      rfl
  | @fails failing later fault fails =>
    rw [logged, List.append_assoc, show Progress.failure _ metadata report failing fault =
      before.failure ((pass.name, reported) :: metadata) report failing fault by
        simp [Progress.failure, isContext, Context.book_book, timed]]
    exact .fails fails
  | @halts stage later told fault succeeds warnings =>
    rw [logged, List.append_assoc before.log,
      show Progress.halt _ metadata report stage told fault =
        before.halt ((pass.name, reported) :: metadata) report stage told fault by
          simp [Progress.halt, isContext, Context.book_book]]
    exact .halts succeeds warnings

/-- Scheduled passes run up to the first that fails or cannot be put on record: those
before it are booked in turn. -/
theorem runScheduled_books {schedule : List (String × Registration)} (limit : Nat)
    (before : Progress) (distinct : (schedule.map Prod.fst).Nodup)
    (fresh : ∀ name ∈ schedule.map Prod.fst, name ∉ Members.names before.context.metadata) :
    ∃ completed rest metadata report,
      stages limit before.context.options schedule before.context.document = completed ++ rest ∧
      Succeed completed metadata ∧ before.context.report.recordAll metadata = .ok report ∧
      Concludes before completed metadata report rest (runScheduled limit schedule before) := by
  induction schedule generalizing before with
  | nil =>
    refine ⟨[], [], [], before.context.report, rfl, rfl, rfl, ?_⟩
    have ends : Concludes before [] [] before.context.report [] (.ok before, before.log ++ []) :=
      .succeeds before.context.book_nil.symm (List.append_nil _).symm
    rwa [List.append_nil] at ends
  | cons entry rest ih =>
    obtain ⟨name, registration⟩ := entry
    obtain ⟨notLater, distinctRest⟩ := List.nodup_cons.1 distinct
    have absent := fresh name List.mem_cons_self
    unfold runScheduled stages
    dsimp only
    generalize registration.plugin.apply limit before.context.options
      before.context.document = outcome
    cases applied : outcome.result with
    | error fault =>
      refine ⟨[], _, [], before.context.report, rfl, rfl, rfl, ?_⟩
      have ends : Concludes before [] [] before.context.report
          (⟨name, before.context.document, outcome⟩ :: stages limit before.context.options rest
            outcome.document) _ := .fails applied
      simpa [Progress.failure, Context.book, Progress.fail, Stage.remarks, applied] using ends
    | ok metadata =>
      dsimp only
      cases records : before.context.report.recordPass name metadata Clock.interval with
      | error fault =>
        refine ⟨[], _, [], before.context.report, rfl, rfl, rfl, ?_⟩
        have ends : Concludes before [] [] before.context.report
            (⟨name, before.context.document, outcome⟩ :: stages limit before.context.options rest
              outcome.document) _ := .halts applied (Report.recordPass_eq_error records)
        simpa [Progress.halt, leave_eq_book absent] using ends
      | ok first =>
        have freshRest : ∀ other ∈ rest.map Prod.fst, other ∉
            Members.names (before.complete name outcome metadata first).context.metadata := by
          intro other later
          rw [show Context.metadata _ = _ from Members.put_of_absent absent metadata,
            Members.names, List.map_append, List.mem_append, not_or]
          refine ⟨fresh other (List.mem_cons_of_mem _ later), fun same => ?_⟩
          rw [List.mem_singleton.1 same] at later
          exact notLater later
        obtain ⟨completed, others, further, report, isStages, succeeded, recorded, ends⟩ :=
          ih (before.complete name outcome metadata first) distinctRest freshRest
        refine ⟨⟨name, before.context.document, outcome⟩ :: completed, others,
          (name, metadata) :: further, report, congrArg _ isStages, ?_,
          (Report.recordAll_cons records further).trans recorded, .cons absent applied ends⟩
        exact congrArg₂ List.cons (congrArg (Prod.mk name) applied) succeeded

/-! ## Runs of a registry -/

namespace Registry

variable {registry : Registry} {skip only : List (Option String)}

theorem mem_schedule {entry : String × Registration} : entry ∈ registry.schedule skip only ↔
    entry ∈ registry ∧ takesPart (selectedNames skip) (selectedNames only) entry.1 := by
  rw [schedule, List.mem_mergeSort, List.mem_filter]

theorem nodup_schedule (distinct : (Members.names registry).Nodup)
    (skip only : List (Option String)) : ((registry.schedule skip only).map Prod.fst).Nodup := by
  refine (((List.mergeSort_perm _ _).map _).nodup_iff).2 ?_
  exact distinct.sublist (List.filter_sublist.map _)

/-- In a run that succeeds each pass has succeeded, and what it reports has been added. -/
theorem run_eq_ok (distinct : (Members.names registry).Nodup) {limit : Nat}
    {context after : Context} {log : List Remark} (fresh : context.metadata = [])
    (ran : registry.run limit context skip only = (.ok after, log)) :
    let passes := stages limit context.options (registry.schedule skip only) context.document
    Succeed passes after.metadata ∧
      Report.Adds after.metadata context.report after.report ∧
      after.document = leftBy passes context.document := by
  have unrecorded : ∀ name ∈ (registry.schedule skip only).map Prod.fst,
      name ∉ Members.names context.metadata := by
    rw [fresh]
    exact fun _ _ => List.not_mem_nil
  obtain ⟨completed, rest, added, report, isStages, succeeded, recorded, ends⟩ :=
    runScheduled_books limit ⟨context, [], []⟩ (nodup_schedule distinct skip only) unrecorded
  unfold Registry.run at ran
  generalize runScheduled limit (registry.schedule skip only) ⟨context, [], []⟩ = outcome
    at ends ran
  cases ends with
  | succeeds isContext =>
    cases ran
    dsimp only at isStages isContext ⊢
    rw [List.append_nil] at isStages
    rw [isStages, isContext]
    dsimp only [Context.book]
    rw [fresh, List.nil_append]
    exact ⟨succeeded, Report.recordAll_eq_ok recorded, rfl⟩
  | fails => cases ran
  | halts => cases ran

end Registry

end Unravel
