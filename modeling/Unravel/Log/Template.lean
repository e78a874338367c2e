import Unravel.Json.Printer
import Unravel.Log.Directive
import Unravel.Number.Precision

/-!
Contract: message templates filled with values.

The values of a template are listed, or members of an object. Listed values are
taken in order, each by one directive, star or form, and all of them have to be
taken. Of members, a key names the one that its directive is about; until a key
is named the object as a whole counts as the only listed value.

A template is filled as a whole: a directive without a value, or one whose form
cannot show its value, leaves it unfilled.
-/

namespace Unravel.Template

/-- What a directive can show: a value, or a row of values. -/
inductive Argument where
  | value (json : Json)
  | row (items : List Json)

namespace Argument

/-- The text of a row; a comma follows a single item. -/
def inspectRow : List Json → String
  | [item] => "(" ++ item.inspect ++ ",)"
  | items => Json.enclose "(" ")" ", " (items.map Json.inspect)

def inspect : Argument → String
  | .value json => json.inspect
  | .row items => inspectRow items

def display : Argument → String
  | .value json => json.display
  | .row items => inspectRow items

/-- The integer that a number or a truth value stands for. -/
def integer? : Argument → Option Int
  | .value (.bool truth) => some (if truth then 1 else 0)
  | .value (.number (.integer integer)) => some integer
  | _ => none

def whole? : Argument → Option Int
  | .value (.number (.double double)) => double.truncate?
  | argument => argument.integer?

def double? : Argument → Option Double
  | .value (.bool truth) => some (Numeral.toDouble (.integer (if truth then 1 else 0)))
  | .value (.number numeral) => numeral.toDouble?.toOption
  | _ => none

/-- The character that a text of one character or a code point stands for. -/
def char? : Argument → Option Char
  | .value (.text text) =>
    match text.toList with
    | [char] => some char
    | _ => none
  | argument => argument.integer?.bind fun code =>
    if 0 ≤ code && Nat.isValidChar code.toNat then some (Char.ofNat code.toNat) else none

end Argument

/-! ## Forms -/

/-- How a directive lays out its value, once its numbers are known. -/
structure Field where
  left : Bool
  signed : Bool
  blank : Bool
  zero : Bool
  alternate : Bool
  width : Nat
  precision : Option Nat
deriving DecidableEq, Repr

/-- Blanks in front of a text, or behind it, up to a width. -/
def Field.pad (field : Field) (text : List Char) : List Char :=
  let blanks := List.replicate (field.width - text.length) ' '
  if field.left then text ++ blanks else blanks ++ text

def Field.sign (field : Field) (negative : Bool) : List Char :=
  if negative then ['-']
  else if field.signed then ['+']
  else if field.blank then [' ']
  else []

/-- A sign, a mark of the base and digits, with zeros in front of the digits up
to a width when asked for. -/
def Field.padNumber (field : Field) (negative : Bool) (mark digits : List Char) : List Char :=
  let opening := field.sign negative ++ mark
  if field.zero && !field.left then
    opening ++ List.replicate (field.width - opening.length - digits.length) '0' ++ digits
  else field.pad (opening ++ digits)

def Field.cut (field : Field) (text : String) : List Char :=
  match field.precision with
  | some length => text.toList.take length
  | none => text.toList

/-- An integer in a base; the precision is the least number of digits. -/
def Field.integer (field : Field) (base : Nat) (mark : List Char) (value : Int) : List Char :=
  let digits := Nat.toDigits base value.natAbs
  let digits := List.replicate (field.precision.getD 0 - digits.length) '0' ++ digits
  field.padNumber (value < 0) (if field.alternate then mark else []) digits

def Field.double (field : Field) (style : Double.Style) (value : Double) : List Char :=
  field.padNumber value.isNegative []
    (value.magnitude style field.alternate (field.precision.getD 6))

/-- Shows an argument in the form that a letter stands for. -/
def Field.render (field : Field) (form : Char) (argument : Argument) : Option (List Char) :=
  let upper := List.map Char.toUpper
  match form with
  | 's' => some (field.pad (field.cut argument.display))
  | 'r' => some (field.pad (field.cut argument.inspect))
  | 'a' => some (field.pad (field.cut (Text.asciiOnly argument.inspect)))
  | 'd' | 'i' | 'u' => argument.whole?.map (field.integer 10 [])
  | 'o' => argument.integer?.map (field.integer 8 ['0', 'o'])
  | 'x' => argument.integer?.map (field.integer 16 ['0', 'x'])
  | 'X' => argument.integer?.map fun value => upper (field.integer 16 ['0', 'x'] value)
  | 'e' => argument.double?.map (field.double .exponent)
  | 'E' => argument.double?.map fun value => upper (field.double .exponent value)
  | 'f' => argument.double?.map (field.double .places)
  | 'F' => argument.double?.map fun value => upper (field.double .places value)
  | 'g' => argument.double?.map (field.double .general)
  | 'G' => argument.double?.map fun value => upper (field.double .general value)
  | 'c' => argument.char?.map fun char => field.pad [char]
  | _ => none

/-! ## Filling -/

/-- The values a template is filled with: the members that keys name, when
there are any, and the arguments still to be taken. -/
structure Supply where
  members : Option (Members Argument)
  pending : List Argument

namespace Supply

def listed (values : List Json) : Supply :=
  ⟨none, values.map .value⟩

/-- Members by name; `whole` is what they are together. -/
def named (whole : Json) (members : Members Argument) : Supply :=
  ⟨some members, [.value whole]⟩

def take (supply : Supply) : Option (Argument × Supply) :=
  match supply.pending with
  | [] => none
  | argument :: rest => some (argument, { supply with pending := rest })

/-- Makes the member that a key names the only argument to be taken. -/
def select (supply : Supply) : Option String → Option Supply
  | none => some supply
  | some key =>
    (supply.members.bind fun members => Members.get? members key).map fun argument =>
      { supply with pending := [argument] }

/-- The number a directive asks for, when it does. -/
def count (supply : Supply) : Option Count → Option (Option Int × Supply)
  | none => some (none, supply)
  | some (.written value) => some (some value, supply)
  | some .taken => do
      let (argument, supply) ← supply.take
      let value ← argument.integer?
      if value.natAbs ≤ largestCount then some (some value, supply) else none

/-- A template with named values may leave some of them out. -/
def isSpent (supply : Supply) : Bool :=
  supply.members.isSome || supply.pending.isEmpty

end Supply

/-- Fills one directive. A width below zero counts from the right, and a
precision below zero is zero. -/
def fillDirective (directive : Directive) (supply : Supply) : Option (List Char × Supply) := do
  let supply ← supply.select directive.key
  let (width, supply) ← supply.count directive.width
  let (precision, supply) ← supply.count directive.precision
  let (argument, supply) ← supply.take
  let width := width.getD 0
  let field : Field :=
    { left := directive.flags.contains '-' || width < 0
      signed := directive.flags.contains '+'
      blank := directive.flags.contains ' '
      zero := directive.flags.contains '0'
      alternate := directive.flags.contains '#'
      width := width.natAbs
      precision := precision.map Int.toNat }
  let shown ← field.render directive.form argument
  return (shown, supply)

def fill : List Piece → Supply → Option (List Char)
  | [], supply => if supply.isSpent then some [] else none
  | .plain char :: rest, supply => (fill rest supply).map (char :: ·)
  | .value directive :: rest, supply => do
      let (shown, supply) ← fillDirective directive supply
      let filled ← fill rest supply
      return shown ++ filled

def fillText (template : String) (supply : Supply) : Option String := do
  let found ← parse template
  let filled ← fill found supply
  return String.ofList filled

/-- The text of a message. Without values it is the message itself; a single
object that is not empty gives its members by name. -/
def message (template : String) (values : List Json) : Option String :=
  match values with
  | [] => some template
  | [.object (first :: rest)] =>
    fillText template
      (.named (.object (first :: rest)) ((first :: rest).map fun member =>
        (member.1, .value member.2)))
  | _ => fillText template (.listed values)

end Unravel.Template
