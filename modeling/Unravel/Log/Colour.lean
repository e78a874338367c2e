import Unravel.Log.Record

/-!
Contract: coloured text for terminals.

A coloured text stands between the escape sequence of its colour and the one
that ends all colours. A name that is no colour gives the terminal's own.
-/

namespace Unravel

namespace Colour

def codes : List (String × String) :=
  [("red", "31"), ("green", "32"), ("yellow", "33"), ("blue", "34"), ("magenta", "35"),
    ("cyan", "36")]

def code (colour : String) : String :=
  (codes.lookup colour).getD "0"

/-- The character that opens an escape sequence, and its bracket. -/
def escape : String := "\x1b["

def paint (colour : String) (bold : Bool) (text : String) : String :=
  escape ++ (if bold then "1;" else "") ++ code colour ++ "m" ++ text ++ escape ++ "0m"

end Colour

/-- The colour that records of a level are shown in. -/
def Level.colour (level : Level) : String :=
  if level = .debug then "blue"
  else if level = .warning then "yellow"
  else if level = .error then "red"
  else if level = .critical then "magenta"
  else "green"

end Unravel
