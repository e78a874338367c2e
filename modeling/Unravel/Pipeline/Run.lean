import Unravel.Pipeline.Options
import Unravel.Pipeline.Registry
import Unravel.Pipeline.Report

/-!
Contract: running the passes of a registry over a document.

A run keeps timings, metadata, a report and a log. It ends at the first pass
that fails: the failure carries the timings of the passes before it, and the
report gains one error and nothing else of that pass. It also ends at a pass
whose metadata the report refuses.

Time is read from a steady clock that advances by one interval a reading, so a
pass takes one interval.
-/

namespace Unravel

namespace Clock

def interval : Double :=
  .round false 1 8

end Clock

structure Context where
  source : String
  document : Document
  options : Options
  report : Report
  metadata : Members Metadata
  timings : List (String × Double)
  output : String

/-- A pass that failed, and the run as it stood then. -/
structure PassFailure where
  pass : String
  fault : Fault
  timings : List (String × Double)
  duration : Double
  context : Context

namespace PassFailure

def message (failure : PassFailure) : String :=
  "pass " ++ failure.pass ++ " failed: " ++ failure.fault.message

end PassFailure

/-- Why a run of passes ends early: a pass has failed, or what it reports cannot be
put on record. -/
inductive Halt where
  | failed (failure : PassFailure)
  | unrecorded (pass : String) (fault : SortFault) (context : Context)

structure Progress where
  context : Context
  timings : List (String × Double)
  log : List Remark

def pipelineLogger : String := "jsdeob.pipeline"

namespace Progress

/-- The context after a pass that has succeeded, with the report of it. -/
def leave (progress : Progress) (name : String) (outcome : PassOutcome) (metadata : Metadata)
    (report : Report) : Context :=
  { progress.context with
    document := outcome.document
    report := report
    metadata := Members.put progress.context.metadata name metadata }

def complete (progress : Progress) (name : String) (outcome : PassOutcome)
    (metadata : Metadata) (report : Report) : Progress :=
  { context := progress.leave name outcome metadata report
    timings := progress.timings ++ [(name, Clock.interval)]
    log := progress.log ++ outcome.log ++
      [⟨pipelineLogger, .info,
        [.text ("pass " ++ name ++ " completed in " ++ Clock.interval.fixed 3 ++ "s" ++
          summary metadata)]⟩] }

def fail (progress : Progress) (name : String) (outcome : PassOutcome) (fault : Fault) :
    PassFailure × List Remark :=
  let context := progress.context
  let report := context.report
  (⟨name, fault, progress.timings, Clock.interval,
      { context with
        document := outcome.document
        report := { report with errors := report.errors ++ [name ++ ": " ++ fault.message] } }⟩,
    progress.log ++ outcome.log ++
      [⟨pipelineLogger, .error,
        [.text ("pass " ++ name ++ " failed after " ++ Clock.interval.fixed 3 ++ "s: " ++
          fault.message)]⟩])

end Progress

def runScheduled (limit : Nat) :
    List (String × Registration) → Progress → Except Halt Progress × List Remark
  | [], progress => (.ok progress, progress.log)
  | (name, registration) :: rest, progress =>
    let report := progress.context.report
    let outcome :=
      registration.plugin.apply limit progress.context.options progress.context.document
    match outcome.result with
    | .ok metadata =>
      match report.recordPass name metadata Clock.interval with
      | .ok report => runScheduled limit rest (progress.complete name outcome metadata report)
      | .error fault =>
        let counted := report.recordCounts name metadata Clock.interval
        (.error (.unrecorded name fault (progress.leave name outcome metadata counted)),
          progress.log ++ outcome.log)
    | .error fault =>
      let (failure, log) := progress.fail name outcome fault
      (.error (.failed failure), log)

/-- Runs the passes of a registry over the document of a context. -/
def Registry.run (registry : Registry) (limit : Nat) (context : Context)
    (skip only : List (Option String)) : Except Halt Context × List Remark :=
  match runScheduled limit (registry.schedule skip only) ⟨context, [], []⟩ with
  | (.ok progress, log) =>
    (.ok { progress.context with timings := progress.context.timings ++ progress.timings }, log)
  | (.error halt, log) => (.error halt, log)

end Unravel
