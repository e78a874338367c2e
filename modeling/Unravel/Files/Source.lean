import Unravel.Files.Disk
import Unravel.Json.Parser

/-!
Contract: reading texts and settings from a disk.

A file that is not there, is no text or holds no object gives no input. What
keeps a path from being followed at all, and integers that are too long, are
faults of another kind.
-/

namespace Unravel

inductive InputFault where
  | missing (path : String)
  | undecodable (path : String) (fault : DecodeFault)
  | notJson (path : String) (problem : Json.Problem) (location : Text.Location)
  | notObject (path : String)
deriving DecidableEq, Repr

namespace InputFault

/-- What went wrong, without what was found in the file. -/
def summary : InputFault → String
  | .missing path => "File does not exist or is not a file: '" ++ path ++ "'"
  | .undecodable path _ => "Failed to read file '" ++ path ++ "'"
  | .notJson path _ _ => "Invalid JSON in '" ++ path ++ "'"
  | .notObject path => "Expected a JSON object in '" ++ path ++ "'"

def message (fault : InputFault) : String :=
  match fault with
  | .undecodable _ cause => fault.summary ++ ": " ++ cause.message
  | .notJson _ problem location =>
    fault.summary ++ ": " ++ Json.ReadFault.message (.malformed problem location)
  | _ => fault.summary

end InputFault

inductive SourceError where
  | input (fault : InputFault)
  | disk (fault : DiskFault)
  | integer (fault : Text.IntegerFault)
deriving DecidableEq, Repr

namespace Disk

def readBytes (disk : Disk) (path : String) : Except SourceError ByteArray :=
  match disk.lookup (Path.ofText path) with
  | .ok (.file _ content) => .ok content
  | .error .nameTooLong => .error (.disk .nameTooLong)
  | _ => .error (.input (.missing path))

def readText (disk : Disk) (path : String) (encoding : Encoding) : Except SourceError String := do
  let content ← disk.readBytes path
  match encoding.decode content with
  | .error fault => .error (.input (.undecodable path fault))
  | .ok text => return String.ofList (Text.unifyBreaks text.toList)

end Disk

/-- The members of the object that a file's text holds. -/
def readMapping (path text : String) : Except SourceError (Members Json) :=
  match Json.read text with
  | .ok (.object members) => .ok members
  | .ok _ => .error (.input (.notObject path))
  | .error (.malformed problem location) => .error (.input (.notJson path problem location))
  | .error (.integer fault) => .error (.integer fault)

end Unravel
