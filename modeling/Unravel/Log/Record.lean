import Unravel.Tree.Value

/-!
Contract: log records and the two texts they are written as.

A record names the logger it was given to, its level and its message. A trace
line shows a pass by its bare name and any other logger in full. A pass makes
remarks, whose nodes are printed when they become records.
-/

namespace Unravel

/-- How much a record matters. Zero says nothing. -/
structure Level where
  number : Int
deriving DecidableEq, Repr

namespace Level

def unset : Level := ⟨0⟩
def debug : Level := ⟨10⟩
def info : Level := ⟨20⟩
def warning : Level := ⟨30⟩
def error : Level := ⟨40⟩
def critical : Level := ⟨50⟩

def name (level : Level) : String :=
  if level = unset then "NOTSET"
  else if level = debug then "DEBUG"
  else if level = info then "INFO"
  else if level = warning then "WARNING"
  else if level = error then "ERROR"
  else if level = critical then "CRITICAL"
  else "Level " ++ toString level.number

end Level

structure LogRecord where
  logger : String
  level : Level
  message : String
deriving DecidableEq, Repr

/-- A part of what a pass remarks: text, or a node to be printed. -/
inductive Piece where
  | text (words : String)
  | node (value : Value)

structure Remark where
  logger : String
  level : Level
  message : List Piece

def Piece.print (describe : Value → String) : Piece → String
  | .text words => words
  | .node value => describe value

def Remark.record (describe : Value → String) (remark : Remark) : LogRecord :=
  ⟨remark.logger, remark.level, String.join (remark.message.map (Piece.print describe))⟩

/-- Loggers of passes are named below this one. -/
def passLoggers : String := "jsdeob.passes."

def passLogger (pass : String) : String :=
  passLoggers ++ pass

/-- A text without an opening part, when it opens with that. -/
def dropOpening (opening text : List Char) : List Char :=
  if opening.isPrefixOf text then text.drop opening.length else text

def originOf (logger : String) : String :=
  String.ofList (dropOpening passLoggers.toList logger.toList)

namespace LogRecord

def traceLine (record : LogRecord) : String :=
  originOf record.logger ++ ": " ++ record.message

end LogRecord

end Unravel
