import Std.Time.Format

/-!
Contract: the time stamps that lines of a log open with.
-/

namespace Unravel.Command

/-- A time to the second, and what divides it from the rest of the line. -/
def stampOf (time : Std.Time.PlainDateTime) : String :=
  time.format "uuuu-MM-dd HH:mm:ss" ++ " - "

def localStamp : IO String := do
  return stampOf (← Std.Time.PlainDateTime.now)

def universalStamp : IO String := do
  return stampOf (Std.Time.DateTime.ofTimestampWithZone (← Std.Time.Timestamp.now) .UTC).date.get

end Unravel.Command
