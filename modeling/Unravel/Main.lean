import Unravel.Command.Clock
import Unravel.Command.Run

/-!
Contract: the program on real files.

The files that a call reads are put on a disk, the call runs over it, and the
files that it has changed are written back.
-/

namespace Unravel.Command

def Invocation.sources (invocation : Invocation) : List String :=
  invocation.input ::
    ([invocation.config, invocation.renameMap].filterMap given)

def loadFiles (paths : List String) : IO Disk :=
  paths.foldlM
    (fun disk (path : String) => do
      match ← (IO.FS.readBinFile path).toBaseIO with
      | .ok content =>
        match (Disk.install (Path.ofText path) content).run disk with
        | .ok _ disk => return disk
        | .error _ _ => return disk
      | .error _ => return disk)
    .empty

/-- Writes the files that differ from those of an earlier disk. -/
def storeFiles (before after : Disk) : IO Unit :=
  after.files.forM fun file => do
    if before.files.lookup file.1 != some file.2 then
      IO.FS.createDirAll (Path.ofText file.1).parent.toText
      IO.FS.writeBinFile file.1 file.2

def usageText : String :=
  "usage: unravel [options] input\n\noptions:\n" ++
    String.join (Setting.spellings.map fun entry =>
      "  " ++ entry.1 ++ (if entry.2.takesValue then " VALUE\n" else "\n"))

/-- Runs a call on real files; the result is the exit code. -/
def runProgram (tools : Toolkit) (arguments : List String) : IO UInt32 := do
  let sources :=
    match parse arguments with
    | .ok invocation => invocation.sources
    | .error _ => []
  let disk ← loadFiles sources
  let outcome := run tools stepLimit (← localStamp) disk arguments
  storeFiles disk outcome.disk
  IO.print outcome.printed
  IO.eprint outcome.terminal
  match outcome.ending with
  | .usage .help =>
    IO.print usageText
    return 0
  | .usage .mistake =>
    IO.eprint usageText
    return 2
  | .finished code => return UInt32.ofNat code
  | .aborted _ => return 1

end Unravel.Command
