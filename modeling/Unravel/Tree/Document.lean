import Unravel.Tree.Children

/-!
Contract: programs, and the tools that read and print them.

The parser, the printer and the beautifier are tools from outside, of which
nothing is assumed; each may fail with a message. A program is read as a script
first and as a module when that fails; when both fail it is the first failure
that is reported.
-/

namespace Unravel

/-- A tree and the first label it does not use. -/
structure Document where
  tree : Value
  next : Nat
deriving Inhabited, Repr

inductive Goal where
  | script
  | modular
deriving DecidableEq, Repr

structure Toolkit where
  parse : Goal → String → Except String Document
  generate : Value → Except String String
  beautify : Nat → String → Except String String

namespace Toolkit

def read (tools : Toolkit) (text : String) : Except String Document :=
  match tools.parse .script text with
  | .ok document => .ok document
  | .error message =>
    match tools.parse .modular text with
    | .ok document => .ok document
    | .error _ => .error message

/-- Columns that the beautifier indents by. -/
def indentation : Nat := 2

def print (tools : Toolkit) (beautified : Bool) (tree : Value) : Except String String := do
  let code ← tools.generate tree
  if beautified then tools.beautify indentation code else return code

/-- The text of a node in a log; one that cannot be printed is told by its kind. -/
def describe (tools : Toolkit) (value : Value) : String :=
  match tools.generate value with
  | .ok text => text
  | .error _ => "<" ++ value.kind?.getD "None" ++ ">"

end Toolkit

end Unravel
