import Unravel.Log.Colour
import Unravel.Log.Template

/-!
Contract: how a record is written as a line.

A record that is being written also has what its message was made of, and notes
that earlier lines left on it: a trace line notes the origin it shows. A layout
given as a template has at least one directive with a key; the keys name the
parts of the record.
-/

namespace Unravel

/-- A record on its way to the sinks. -/
structure Notice where
  record : LogRecord
  template : String
  values : List Json
  origin : Option String

namespace Notice

def ofRecord (record : LogRecord) : Notice :=
  ⟨record, record.message, [], none⟩

/-- The values of the message: an object alone stands for its members. -/
def arguments (notice : Notice) : Template.Argument :=
  match notice.values with
  | [.object (first :: rest)] => .value (.object (first :: rest))
  | values => .row values

def members (notice : Notice) : Members Template.Argument :=
  let texts := fun (pairs : List (String × String)) =>
    pairs.map fun pair => (pair.1, Template.Argument.value (.text pair.2))
  texts
      [("name", notice.record.logger), ("msg", notice.template),
        ("levelname", notice.record.level.name), ("message", notice.record.message),
        ("threadName", "MainThread"), ("processName", "MainProcess")] ++
    [("args", notice.arguments), ("levelno", .value (.ofInt notice.record.level.number)),
      ("exc_info", .value .null), ("exc_text", .value .null), ("stack_info", .value .null)] ++
    texts (notice.origin.toList.map fun origin => ("origin", origin))

end Notice

inductive Layout where
  | trace
  /-- A time stamp, the logger, the level and the message. -/
  | dated (stamp : String)
  /-- The level and the message, in the level's colour. -/
  | coloured
  | template (text : String)
deriving DecidableEq, Repr

namespace Layout

/-- Characters of a key: letters, digits, underscores, and whatever is visible
beyond ASCII. -/
def isKeyChar (char : Char) : Bool :=
  char.isAlphanum || char = '_' || (0x80 ≤ char.toNat && Text.isVisible char)

def dropCount : List Char → List Char
  | '*' :: rest => rest
  | chars => chars.dropWhile Char.isDigit

def dropPlaces : List Char → List Char
  | '.' :: char :: rest =>
    if char = '*' || char.isDigit then dropCount (char :: rest) else '.' :: char :: rest
  | chars => chars

/-- Whether a text goes on with a directive that has a key. -/
def opensField : List Char → Bool
  | '%' :: '(' :: rest =>
    match rest.takeWhile isKeyChar, rest.dropWhile isKeyChar with
    | _ :: _, ')' :: after =>
      match dropPlaces (dropCount (after.dropWhile Template.isFlag)) with
      | form :: _ => "diouxefgcrsa%".toList.contains form.toLower
      | [] => false
    | _, _ => false
  | _ => false

def hasField : List Char → Bool
  | [] => false
  | char :: rest => opensField (char :: rest) || hasField rest

/-- The layout of a template; the empty one shows the message. -/
def ofTemplate? (text : String) : Option Layout :=
  if text = "" then some (.template "%(message)s")
  else if hasField text.toList then some (.template text)
  else none

def refusal (text : String) : String :=
  "Invalid format '" ++ text ++ "' for '%' style"

/-- What a layout notes on a record before it writes it. -/
def note : Layout → Notice → Notice
  | .trace, notice => { notice with origin := some (originOf notice.record.logger) }
  | _, notice => notice

/-- The line of a record; none when a template cannot be filled. -/
def line? : Layout → Notice → Option String
  | .trace, notice => some notice.record.traceLine
  | .dated stamp, notice =>
    some (stamp ++ notice.record.logger ++ " - " ++ notice.record.level.name ++ " - " ++
      notice.record.message)
  | .coloured, notice =>
    some (Colour.paint notice.record.level.colour false
      (notice.record.level.name ++ ": " ++ notice.record.message))
  | .template text, notice => Template.fillText text ⟨some notice.members, []⟩

end Layout

end Unravel
