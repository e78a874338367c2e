import Unravel.Files.Disk
import Unravel.Log.Hierarchy
import Unravel.Log.Layout

/-!
Contract: loggers, what they let through and where they write.

Loggers form a hierarchy under one root, and come into it when they are first
used. A logger without a level of its own takes that of the nearest one above
it that has. A record that its logger lets through is written by the sinks of
that logger and of all above it, each in a layout of its own.

A trace is a file sink that also sets its logger's level, and gives the old
level back when it is closed. A logger has one trace at a time.
-/

namespace Unravel

inductive Target where
  | nowhere
  | terminal
  | file (handle : Handle)
deriving DecidableEq, Repr

structure Sink where
  target : Target
  layout : Layout
  /-- The level that a trace gives back. -/
  restored : Option Level
deriving DecidableEq, Repr

structure Logger where
  level : Level
  sinks : List Sink
deriving DecidableEq, Repr

structure Logbook where
  disk : Disk
  terminal : String
  hierarchy : Hierarchy
  loggers : Members Logger

abbrev LogbookM := EStateM DiskFault Logbook

namespace Logbook

/-- The root lets warnings through; other loggers say nothing. -/
def initial (disk : Disk) : Logbook :=
  ⟨disk, "", .initial, [(Hierarchy.rootName, ⟨.warning, []⟩)]⟩

def logger (book : Logbook) (name : String) : Logger :=
  (Members.get? book.loggers name).getD ⟨.unset, []⟩

def register (book : Logbook) (name : String) : Logbook :=
  { book with hierarchy := book.hierarchy.register name }

def putLogger (book : Logbook) (name : String) (logger : Logger) : Logbook :=
  { book.register name with loggers := Members.put book.loggers name logger }

/-- A logger and those above it, the root last. -/
def chain (book : Logbook) (name : String) : List String :=
  book.hierarchy.chain name

def effectiveLevel (book : Logbook) (name : String) : Level :=
  (((book.chain name).map fun name => (book.logger name).level).find? (· != .unset)).getD .unset

def letsThrough (book : Logbook) (name : String) (level : Level) : Bool :=
  0 < level.number && (book.effectiveLevel name).number ≤ level.number

def writeLine (book : Logbook) (line : String) : Target → Logbook × Target
  | .nowhere => (book, .nowhere)
  | .terminal => ({ book with terminal := book.terminal ++ line ++ "\n" }, .terminal)
  | .file handle =>
    let (disk, moved) := book.disk.write handle (line ++ "\n").toUTF8
    ({ book with disk := disk }, .file moved)

def writeSinks (notice : Notice) (book : Logbook) :
    List Sink → Notice × Logbook × List Sink
  | [] => (notice, book, [])
  | sink :: rest =>
    let notice := if sink.target = .nowhere then notice else sink.layout.note notice
    let (book, target) :=
      match sink.layout.line? notice with
      | some line => book.writeLine line sink.target
      | none => (book, sink.target)
    let (notice, book, rest) := writeSinks notice book rest
    (notice, book, { sink with target := target } :: rest)

/-- Writes a record to the sinks of loggers one after the other. -/
def deliver (notice : Notice) (book : Logbook) : List String → Logbook
  | [] => book
  | name :: rest =>
    let logger := book.logger name
    let (notice, book, sinks) := writeSinks notice book logger.sinks
    deliver notice (book.putLogger name { logger with sinks := sinks }) rest

/-- Writes a record wherever its logger's chain says. -/
def write (book : Logbook) (notice : Notice) : Logbook :=
  let book := book.register notice.record.logger
  if book.letsThrough notice.record.logger notice.record.level then
    deliver notice book (book.chain notice.record.logger)
  else book

/-- Writes a record whose message is made of a template and values; one that
cannot be made is not written. -/
def log (book : Logbook) (name : String) (level : Level) (template : String)
    (values : List Json) : Logbook :=
  match Template.message template values with
  | some message => book.write ⟨⟨name, level, message⟩, template, values, none⟩
  | none => book.register name

def emit (book : Logbook) (record : LogRecord) : Logbook :=
  book.write (.ofRecord record)

def emitAll (book : Logbook) (records : List LogRecord) : Logbook :=
  records.foldl emit book

def setLevel (book : Logbook) (name : String) (level : Level) : Logbook :=
  book.putLogger name { book.logger name with level := level }

def addSink (book : Logbook) (name : String) (sink : Sink) : Logbook :=
  let logger := book.logger name
  book.putLogger name { logger with sinks := logger.sinks ++ [sink] }

/-- Drops a logger's traces and gives back the level from before them. -/
def closeTrace (book : Logbook) (name : String) : Logbook :=
  let logger := book.logger name
  let level := (logger.sinks.filterMap Sink.restored).getLast?.getD logger.level
  book.putLogger name ⟨level, logger.sinks.filter fun sink => sink.restored.isNone⟩

def onDisk {α : Type} (change : DiskM α) : LogbookM α := fun book =>
  match change.run book.disk with
  | .ok result disk => .ok result { book with disk := disk }
  | .error fault disk => .error fault { book with disk := disk }

/-- Starts a trace in a fresh file, after closing an earlier one. -/
def openTrace (name : String) (path : Path) (level : Level) (layout : Layout) :
    LogbookM Unit := do
  modify fun book => book.closeTrace name
  let handle ← onDisk (Disk.openFresh path)
  modify fun book =>
    (book.addSink name ⟨.file handle, layout, some (book.logger name).level⟩).setLevel name level

end Logbook

end Unravel
