import Unravel.Command.Arguments
import Unravel.Files.Source
import Unravel.Log.Logbook
import Unravel.Pipeline.Deobfuscator

/-!
Contract: a call of the program, over a disk.

The program reads its settings and its input, runs the standard passes and
stores what comes out of them. It keeps a log, and a trace when asked for one.
Input that cannot be read and passes that fail end it with code 1 and without
output; a report is written also of a failed pass.
-/

namespace Unravel.Command

/-- The disk and the log, and what has been printed. -/
structure Station where
  book : Logbook
  printed : String

/-- Why a call ends before its output is stored. -/
inductive Abort where
  | source (error : SourceError)
  | run (fault : RunFault)
  | disk (fault : DiskFault)
  | path (fault : PathFault)

abbrev CommandM := EStateM Abort Station

/-! ## Steps -/

def logPath : String := "jsdeob.log"

/-- The logger above all others of the program. -/
def programLogger : String := "jsdeob"

def mainLogger : String := "jsdeob.main"

def filesLogger : String := "jsdeob.utils"

def onBook (change : Logbook → Logbook) : CommandM Unit :=
  modify fun station => { station with book := change station.book }

def withBook (change : LogbookM Unit) : CommandM Unit := fun station =>
  match change.run station.book with
  | .ok _ book => .ok () { station with book := book }
  | .error fault book => .error (.disk fault) { station with book := book }

def log (logger : String) (level : Level) (message : String) : CommandM Unit :=
  onBook fun book => book.emit ⟨logger, level, message⟩

def print (line : String) : CommandM Unit :=
  modify fun station => { station with printed := station.printed ++ line ++ "\n" }

/-- Goes on with a result, or ends for its fault. -/
def orAbort {ε α : Type} (abort : ε → Abort) : Except ε α → CommandM α
  | .ok value => pure value
  | .error fault => throw (abort fault)

/-- Runs steps and goes on when they end early. -/
def attempt {α : Type} (steps : CommandM α) : CommandM (Except Abort α) := fun station =>
  match steps.run station with
  | .ok value station => .ok (.ok value) station
  | .error abort station => .ok (.error abort) station

def charCount (text : String) : String :=
  " (" ++ toString text.length ++ " chars)"

def readFile (path : String) : CommandM String := do
  let text ← orAbort .source ((← get).book.disk.readText path .utf8)
  log filesLogger .debug ("Read file '" ++ path ++ "'" ++ charCount text)
  return text

def readSettings (path : String) : CommandM (Members Json) := do
  orAbort .source (readMapping path (← readFile path))

def writeFile (path text : String) : CommandM Unit := do
  withBook (Logbook.onDisk (Disk.store (Path.ofText path) .utf8 text))
  log filesLogger .debug ("Wrote '" ++ path ++ "'" ++ charCount text)

/-! ## The call -/

/-- A value that is there and not empty. -/
def given : Option String → Option String
  | some "" => none
  | value => value

def listed (value : Option String) : List String :=
  Text.splitList (value.getD "")

/-- Starts the log in a fresh file, and on the terminal when asked for. -/
def startLog (stamp : String) (verbose : Bool) : CommandM Unit := do
  onBook fun book =>
    book.putLogger Hierarchy.rootName ⟨if verbose then .debug else .info, []⟩
  withBook do
    let handle ← Logbook.onDisk (Disk.openFresh (Path.ofText logPath))
    modify fun book => book.addSink Hierarchy.rootName ⟨.file handle, .dated stamp, none⟩
  if verbose then
    onBook fun book => book.addSink Hierarchy.rootName ⟨.terminal, .coloured, none⟩

def Invocation.flags (invocation : Invocation) : Options :=
  [("rotated_array_name", (invocation.rotatedName.map Json.text).getD .null),
    ("array_rotation", (invocation.rotation.map Json.ofInt).getD .null),
    ("rot13_strings", if invocation.rot13 then .bool true else .null),
    ("beautify", if invocation.plain then .bool false else .null)] ++
    match given invocation.inline with
    | some names => [("inline_functions", .list ((listed (some names)).map .text))]
    | none => []

/-- The settings of a call: the arguments over the settings file. -/
def readOptions (invocation : Invocation) : CommandM Options := do
  let config ←
    match given invocation.config with
    | some path => readSettings path
    | none => pure []
  let renames ←
    match given invocation.renameMap with
    | some path => do
        let names ← readSettings path
        pure [("rename_map",
          Json.object (names.map fun entry => (entry.1, .text entry.2.display)))]
    | none => pure []
  return Options.merge [config, invocation.flags ++ renames]

def chooseOutput (invocation : Invocation) : CommandM String := do
  match given invocation.output with
  | some path => return path
  | none =>
    let path ← orAbort .path (outputPath invocation.input outputSuffix)
    log filesLogger .debug
      ("Created output path '" ++ path ++ "' from input '" ++ invocation.input ++ "'")
    return path

def produce (tools : Toolkit) (limit : Nat) (invocation : Invocation) :
    CommandM (String × Context) := do
  let options ← readOptions invocation
  let source ← readFile invocation.input
  let (result, records) := (Deobfuscator.standard options).run tools limit source
    ((listed invocation.skipPasses).map some) ((listed invocation.onlyPasses).map some)
  onBook fun book => book.emitAll records
  let context ← orAbort .run result
  let path ← chooseOutput invocation
  writeFile path context.output
  return (path, context)

/-- A name with blanks behind it up to a width of twenty. -/
def padName (name : String) : String :=
  String.ofList (name.toList ++ List.replicate (20 - name.length) ' ')

def timingLine (name : String) (duration : Double) : String :=
  "  " ++ padName name ++ " " ++ duration.fixed 3 ++ "s"

def printTimings (timings : List (String × Double)) : CommandM Unit := do
  print "Pass timings:"
  timings.forM fun entry => print (timingLine entry.1 entry.2)
  print (timingLine "total" ((timings.map Prod.snd).foldl Double.add (.zero false)))

def tellReport (invocation : Invocation) (report : Report) : CommandM Unit := do
  if invocation.report then
    print "\n=== Deobfuscation Report ==="
    print report.toText
  match given invocation.reportFile with
  | some path => writeFile path report.toJson.indented
  | none => pure ()

def tellFailure (invocation : Invocation) (failure : PassFailure) : CommandM Unit := do
  log mainLogger .error ("pass " ++ failure.pass ++ " failed on " ++ invocation.input ++ ": " ++
    failure.message)
  if invocation.profile && !failure.timings.isEmpty then printTimings failure.timings
  tellReport invocation failure.context.report

def tellUnreadable (invocation : Invocation) (message : String) : CommandM Unit :=
  log mainLogger .error ("failed processing " ++ invocation.input ++ ": " ++ message)

def tellSuccess (invocation : Invocation) (path : String) (context : Context) :
    CommandM Unit := do
  log mainLogger .info ("wrote " ++ path ++ " (" ++ toString context.report.totalChanges ++
    " change(s))")
  if invocation.profile then printTimings context.timings
  tellReport invocation context.report

/-- Runs a call; the result is its exit code. -/
def execute (tools : Toolkit) (limit : Nat) (stamp : String) (invocation : Invocation) :
    CommandM Nat := do
  startLog stamp invocation.verbose
  match given invocation.trace with
  | some path => withBook (Logbook.openTrace programLogger (Path.ofText path) .debug .trace)
  | none => pure ()
  let endTrace := onBook fun book => book.closeTrace programLogger
  match ← attempt (produce tools limit invocation) with
  | .ok (path, context) =>
    endTrace
    tellSuccess invocation path context
    return 0
  | .error (.run (.halted (.failed failure))) =>
    let told ← attempt (tellFailure invocation failure)
    endTrace
    orAbort id told
    return 1
  | .error (.run (.unreadable message)) =>
    tellUnreadable invocation message
    endTrace
    return 1
  | .error (.source (.input fault)) =>
    tellUnreadable invocation fault.message
    endTrace
    return 1
  | .error abort =>
    endTrace
    throw abort

/-! ## The program -/

inductive Ending where
  | usage (usage : Usage)
  | finished (code : Nat)
  | aborted (abort : Abort)

structure Outcome where
  ending : Ending
  printed : String
  terminal : String
  disk : Disk

/-- The program over a disk. Log lines open with the stamp. -/
def run (tools : Toolkit) (limit : Nat) (stamp : String) (disk : Disk)
    (arguments : List String) : Outcome :=
  match parse arguments with
  | .error usage => ⟨.usage usage, "", "", disk⟩
  | .ok invocation =>
    match (execute tools limit stamp invocation).run ⟨.initial disk, ""⟩ with
    | .ok code station =>
      ⟨.finished code, station.printed, station.book.terminal, station.book.disk⟩
    | .error abort station =>
      ⟨.aborted abort, station.printed, station.book.terminal, station.book.disk⟩

end Unravel.Command
