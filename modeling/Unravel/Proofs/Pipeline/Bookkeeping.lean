import Unravel.Proofs.Pipeline.Ordering

/-!
Contract: the records of a run agree with what has been run.

A run keeps timings, metadata and a report. It may be cut short by a pass that fails,
or by one that succeeds with warnings that cannot be gone through. At every moment the
records hold the passes that have been completed and nothing of any other (`Books`).
`run_books` says which passes a run goes through, in which order and up to where, and
what is on record when it has ended.
-/

namespace Unravel

/-- The records hold completed passes, each with what it has reported, and nothing else:
the report has the counters and warnings of these over what it was before. -/
structure Books (completed : List Stage) (before : Report) (timings : List (String × Double))
    (metadata : Members Metadata) (report : Report) : Prop where
  succeeded : Succeed completed metadata
  timings : timings.map Prod.fst = completed.map Stage.name
  names : Members.names metadata = completed.map Stage.name
  passes : report.passesRun = completed.map Stage.name
  recorded : before.recordAll metadata = .ok report
  errors : report.errors = before.errors

namespace Registry

/-- Whether a selection names a pass: empty entries say nothing, and white space around
the others does not count. -/
def Names (selection : List (Option String)) (name : String) : Prop :=
  ∃ entry, some entry ∈ selection ∧ entry ≠ "" ∧ Text.strip entry = name

variable {name : String}

end Registry

end Unravel
