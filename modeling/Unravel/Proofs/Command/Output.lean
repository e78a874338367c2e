import Unravel.Command.Run
import Unravel.Proofs.Log.Steadiness

/-!
Contract: what a call leaves on the disk.

A call writes its log, its trace and its report, and its output. A call that ends with code 1
has left every file as it was but the log and the trace, and the report of a pass that failed:
only storing the output touches it, and a fault of that is not one that a call ends with code
1 for. A call that ends with code 0 has stored what the passes made of its input
(`run_output`).
-/

namespace Unravel

/-! ## Texts on a disk -/

namespace Disk

variable {disk : Disk} {path text : String}

/-- The text that a file in a place is read as. -/
def text? (disk : Disk) (place : Place) : Option String :=
  (disk.content? place).bind fun content =>
    (Encoding.utf8.decode content).toOption.map fun text =>
      String.ofList (Text.unifyBreaks text.toList)

end Disk

/-! ## Settings -/

namespace Options

/-- What a layer says about a setting: its last value for it that is not null. -/
def said? (layer : Options) (name : String) : Option Json :=
  layer.reverse.findSome? fun entry =>
    if entry.1 = name ∧ entry.2.isNull = false then some entry.2 else none

end Options

namespace Command

variable {α β : Type} {spared : List Place} {start : Disk} {station : Station}
  {invocation : Invocation} {tools : Toolkit} {limit : Nat} {path text : String}

def placeOf (path : String) : Place :=
  (Path.ofText path).place

/-! ## Steps that spare files -/

/-- However the steps end, the logbook is steady. -/
def Stays (spared : List Place) (start : Disk) (steps : CommandM α) : Prop :=
  ∀ station : Station, station.book.Steady spared start →
    Leads steps station (fun _ after => after.book.Steady spared start)
      fun _ after => after.book.Steady spared start

variable {admitted : Abort → Station → Prop}

namespace Invocation

/-- The files that a call keeps its log and its trace in. -/
def journals (invocation : Invocation) : List Place :=
  placeOf logPath :: ((given invocation.trace).map placeOf).toList

def reports (invocation : Invocation) : List Place :=
  ((given invocation.reportFile).map placeOf).toList

/-- The path that the output goes to, given or made of that of the input. -/
def target? (invocation : Invocation) : Option String :=
  (given invocation.output).or (outputPath invocation.input outputSuffix).toOption

/-- The input, the output, the log, the trace and the report are different files. -/
def Apart (invocation : Invocation) : Prop :=
  (placeOf invocation.input :: (invocation.target?.map placeOf).toList ++
    (invocation.journals ++ invocation.reports)).Nodup

instance (invocation : Invocation) : Decidable invocation.Apart :=
  inferInstanceAs (Decidable (List.Nodup _))

theorem Apart.target_not_mem (apart : invocation.Apart) (is : invocation.target? = some path) :
    placeOf path ∉ invocation.journals ++ invocation.reports := by
  intro listed
  have outer := (List.nodup_cons.1 apart).2
  rw [is] at outer
  exact (List.nodup_append.1 outer).2.2 _ (List.mem_singleton_self _) _ listed rfl

/-- The settings in a file that a call names, which is as it was unless it is the log or the
trace. -/
def Settles (invocation : Invocation) (start : Disk) (file : Option String)
    (members : Members Json) : Prop :=
  match given file with
  | none => members = []
  | some path => ∃ text, (placeOf path ∉ invocation.journals →
      start.text? (placeOf path) = some text) ∧ readMapping path text = .ok members

/-- The layer of a map of names. -/
def renames (invocation : Invocation) (names : Members Json) : Options :=
  match given invocation.renameMap with
  | none => []
  | some _ =>
    [("rename_map", .object (names.map fun entry => (entry.1, .text entry.2.display)))]

/-- The settings are those that the arguments say, or else the settings file, or else the
defaults. -/
def Chooses (invocation : Invocation) (start : Disk) (options : Options) : Prop :=
  ∃ config names,
    invocation.Settles start invocation.config config ∧
    invocation.Settles start invocation.renameMap names ∧
    ∀ name, Members.get? options name =
      ((Options.said? (invocation.flags ++ invocation.renames names) name).or
        (Options.said? config name)).or (Members.get? Options.standard name)

/-- What the passes of a call work on: the text of its input, under the chosen settings. -/
structure Job (invocation : Invocation) (start : Disk) (options : Options) (source : String) :
    Prop where
  source : start.text? (placeOf invocation.input) = some source
  options : invocation.Chooses start options

/-- What the passes of a call make of a text. -/
def process (invocation : Invocation) (tools : Toolkit) (limit : Nat) (options : Options)
    (source : String) : Except RunFault Context :=
  ((Deobfuscator.standard options).run tools limit source
    ((listed invocation.skipPasses).map some) ((listed invocation.onlyPasses).map some)).1

/-- What the passes of a call make of its job. -/
def Gives (invocation : Invocation) (tools : Toolkit) (limit : Nat) (start : Disk)
    (result : Except RunFault Context) : Prop :=
  ∃ options source, invocation.Job start options source ∧
    invocation.process tools limit options source = result

end Invocation

/-- A source has been refused, and the logbook is steady. -/
def Unread (spared : List Place) (start : Disk) (abort : Abort) (after : Station) : Prop :=
  after.book.Steady spared start ∧ ∃ error, abort = .source error

/-- A call that refuses its input has left the files, and a fault of the passes is that of
its job. -/
def Refused (tools : Toolkit) (limit : Nat) (start : Disk) (invocation : Invocation) (abort : Abort)
    (after : Station) : Prop :=
  match abort with
  | .source _ => after.book.Steady invocation.journals start
  | .run fault => after.book.Steady invocation.journals start ∧
      invocation.Gives tools limit start (.error fault)
  | .disk _ | .path _ => True

theorem Unread.refused {abort : Abort} {after : Station}
    (unread : Unread invocation.journals start abort after) :
    Refused tools limit start invocation abort after := by
  obtain ⟨steady, _, rfl⟩ := unread
  exact steady

/-- The files of a failed call are as they were: all but the log and the trace, or all but
these and the report if a pass has failed. -/
def Invocation.Spares (invocation : Invocation) (tools : Toolkit) (limit : Nat)
    (start after : Disk) : Prop :=
  start.Same invocation.journals after ∨
    (∃ failure, invocation.Gives tools limit start (.error (.halted (.failed failure)))) ∧
      start.Same (invocation.journals ++ invocation.reports) after

/-- The output is what the passes have made of the input. -/
def Invocation.Stores (invocation : Invocation) (tools : Toolkit) (limit : Nat)
    (start after : Disk) : Prop :=
  ∃ context path, invocation.Gives tools limit start (.ok context) ∧
    invocation.target? = some path ∧
    after.content? (placeOf path) = some context.output.toUTF8

/-- A call that ends with code 1 has spared the files, and one that ends with code 0 has
stored its output. -/
def Invocation.Ends (invocation : Invocation) (tools : Toolkit) (limit : Nat) (start : Disk)
    (code : Nat) (after : Station) : Prop :=
  code = 1 ∧ invocation.Spares tools limit start after.book.disk ∨
    code = 0 ∧ invocation.Stores tools limit start after.book.disk

theorem Invocation.Spares.target {after : Disk} (spares : invocation.Spares tools limit start after)
    (apart : invocation.Apart) (isTarget : invocation.target? = some path) :
    after.content? (placeOf path) = start.content? (placeOf path) := by
  have outside := apart.target_not_mem isTarget
  rcases spares with same | ⟨_, same⟩
  · exact same _ fun listed => outside (List.mem_append_left _ listed)
  · exact same _ outside

end Command

end Unravel
