import Unravel.Json.Printer
import Unravel.Pass.Plugin

/-!
Contract: the report of a run.

Counters of the passes' metadata are added up under the report's own names.
Only integers count; a metadata entry of another sort is passed over. Warnings
that cannot be gone through keep a pass from being put on record.
-/

namespace Unravel

structure Report where
  passesRun : List String
  passTimings : Members Double
  stringsRecovered : Int
  callsInlined : Int
  concatsCollapsed : Int
  membersConverted : Int
  literalsNormalized : Int
  expressionsFolded : Int
  identifiersRenamed : Int
  refusals : Int
  inputLength : Int
  outputLength : Int
  warnings : List String
  errors : List String
deriving DecidableEq, Repr

namespace Report

def empty : Report :=
  ⟨[], [], 0, 0, 0, 0, 0, 0, 0, 0, 0, 0, [], []⟩

def count (metadata : Metadata) (name : String) : Int :=
  ((Members.get? metadata name).bind Json.integer?).getD 0

/-- What the warnings of a pass's metadata are; whatever counts as false stands
for none. -/
def warningsOf (metadata : Metadata) : Except SortFault (List Json) :=
  ((Members.get? metadata "warnings").getD .null).iterateAny

/-- Adds the counters of a pass that has run. -/
def recordCounts (report : Report) (name : String) (metadata : Metadata) (duration : Double) :
    Report :=
  { report with
    passesRun := report.passesRun ++ [name]
    passTimings := Members.put report.passTimings name duration
    stringsRecovered := report.stringsRecovered + count metadata "strings_recovered"
    callsInlined := report.callsInlined + count metadata "calls_inlined"
    concatsCollapsed := report.concatsCollapsed + count metadata "collapsed_concats"
    membersConverted := report.membersConverted + count metadata "members_converted"
    literalsNormalized := report.literalsNormalized + count metadata "literals_normalized"
    expressionsFolded := report.expressionsFolded + count metadata "expressions_folded"
    identifiersRenamed := report.identifiersRenamed + count metadata "identifiers_renamed"
    refusals := report.refusals + count metadata "skipped" }

/-- Adds the counters and the warnings of a pass that has run. -/
def recordPass (report : Report) (name : String) (metadata : Metadata) (duration : Double) :
    Except SortFault Report := do
  let warnings ← warningsOf metadata
  let counted := report.recordCounts name metadata duration
  return { counted with
    warnings := counted.warnings ++ warnings.map fun warning => name ++ ": " ++ warning.display }

def totalChanges (report : Report) : Int :=
  report.stringsRecovered + report.callsInlined + report.concatsCollapsed +
    report.membersConverted + report.literalsNormalized + report.expressionsFolded +
    report.identifiersRenamed

/-- A heading and its lines, when there are any. -/
def titled (heading : String) (lines : List String) : List String :=
  if lines.isEmpty then [] else heading :: lines

def orNone (text : String) : String :=
  if text = "" then "none" else text

def lines (report : Report) : List String :=
  ["Passes run: " ++ orNone (Text.joinWith ", " report.passesRun),
    "Strings recovered: " ++ toString report.stringsRecovered,
    "Calls inlined: " ++ toString report.callsInlined,
    "Concatenations collapsed: " ++ toString report.concatsCollapsed,
    "Member accesses converted: " ++ toString report.membersConverted,
    "Numeric literals normalised: " ++ toString report.literalsNormalized,
    "Expressions folded: " ++ toString report.expressionsFolded,
    "Identifiers renamed: " ++ toString report.identifiersRenamed,
    "Rewrites skipped: " ++ toString report.refusals,
    "Input length: " ++ toString report.inputLength ++ " chars, output length: " ++
      toString report.outputLength ++ " chars"] ++
    titled "Pass timings:"
      (report.passTimings.map fun entry => "  " ++ entry.1 ++ ": " ++ entry.2.fixed 3 ++ "s") ++
    titled "Warnings:" (report.warnings.map ("  - " ++ ·)) ++
    titled "Errors:" (report.errors.map ("  - " ++ ·))

def toText (report : Report) : String :=
  Text.joinWith "\n" report.lines

def toJson (report : Report) : Json :=
  .object
    [("passes_run", .list (report.passesRun.map .text)),
      ("pass_timings", .object (report.passTimings.map fun entry => (entry.1, .ofDouble entry.2))),
      ("strings_recovered", .ofInt report.stringsRecovered),
      ("calls_inlined", .ofInt report.callsInlined),
      ("concats_collapsed", .ofInt report.concatsCollapsed),
      ("members_converted", .ofInt report.membersConverted),
      ("literals_normalized", .ofInt report.literalsNormalized),
      ("expressions_folded", .ofInt report.expressionsFolded),
      ("identifiers_renamed", .ofInt report.identifiersRenamed),
      ("rewrites_skipped", .ofInt report.refusals),
      ("input_length", .ofInt report.inputLength),
      ("output_length", .ofInt report.outputLength),
      ("warnings", .list (report.warnings.map .text)),
      ("errors", .list (report.errors.map .text)),
      ("total_changes", .ofInt report.totalChanges)]

end Report

/-- The counts of a pass's metadata that a log line shows after its name. -/
def summaryParts (metadata : Metadata) : List String :=
  (["changes", "skipped"].filterMap fun name =>
    match Members.get? metadata name with
    | some (.number (.integer value)) =>
      if value = 0 then none else some (name ++ "=" ++ toString value)
    | some (.bool true) => some (name ++ "=" ++ Json.display (.bool true))
    | _ => none) ++
    match Members.get? metadata "warnings" with
    | some (.list (first :: rest)) => ["warnings=" ++ toString (first :: rest).length]
    | _ => []

def summary (metadata : Metadata) : String :=
  let parts := summaryParts metadata
  if parts.isEmpty then "" else " (" ++ Text.joinWith ", " parts ++ ")"

end Unravel
