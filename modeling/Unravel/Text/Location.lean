/-!
Contract: places in a text, as messages name them.

Lines and columns count from one, characters from zero. A line ends with a line
feed.
-/

namespace Unravel.Text

structure Location where
  line : Nat
  column : Nat
  offset : Nat
deriving DecidableEq, Repr

namespace Location

/-- The place in front of the character of a number. -/
def ofOffset (chars : List Char) (offset : Nat) : Location :=
  let before := chars.take offset
  ⟨before.count '\n' + 1, (before.reverse.takeWhile (· != '\n')).length + 1, offset⟩

def describe (location : Location) : String :=
  "line " ++ toString location.line ++ " column " ++ toString location.column ++
    " (char " ++ toString location.offset ++ ")"

end Location

end Unravel.Text
