import Unravel.Json.Sort
import Unravel.Text.Integer

/-!
Contract: the causes a pass can end with instead of a result, and their texts.

`stepLimit` is no failure of a pass: it says that the walk was cut off before
it had ended.
-/

namespace Unravel

inductive Fault where
  /-- The root of a tree has no slot to put a replacement into. -/
  | rootReplaced
  | stepLimit
  | tableBounds
  | arithmetic (fault : ArithmeticFault)
  | integer (fault : Text.IntegerFault)
  /-- A value of a sort that no integer is made from. -/
  | notIntegral (sort : String)
  /-- A double without an integer part. -/
  | noIntegerPart (infinite : Bool)
  /-- A value of a sort that does not admit what was done with it. -/
  | sort (fault : SortFault)
  | notText (sort : String)
  | raised (message : String)
deriving DecidableEq, Repr

namespace ArithmeticFault

def message : ArithmeticFault → String
  | .zeroDivision => "float division by zero"
  | .domain => "math domain error"
  | .overflow => "int too large to convert to float"

end ArithmeticFault

namespace Fault

def message : Fault → String
  | .rootReplaced => "cannot replace the root node"
  | .stepLimit => "step limit reached"
  | .tableBounds => "list index out of range"
  | .arithmetic fault => fault.message
  | .integer fault => fault.message
  | .notIntegral given =>
    "int() argument must be a string, a bytes-like object or a real number, not '" ++ given ++ "'"
  | .noIntegerPart infinite =>
    if infinite then "cannot convert float infinity to integer"
    else "cannot convert float NaN to integer"
  | .sort fault => fault.message
  | .notText given => "expected string or bytes-like object, got '" ++ given ++ "'"
  | .raised message => if message = "" then "RuntimeError" else message

end Fault

end Unravel
