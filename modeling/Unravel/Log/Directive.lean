/-!
Contract: the directives of message templates and how they are read.

A directive is a percent sign, a key in parentheses when its value is found by
name, flags, a width, a precision, at most one size letter that says nothing,
and a letter for the form of the value. Parentheses inside a key are balanced.
A width or a precision is a number, or a star when it is one of the values; a
point alone is the precision zero. Two percent signs next to each other stand
for one.
-/

namespace Unravel.Template

/-- A number in a directive: written out, or taken from the values. -/
inductive Count where
  | written (value : Nat)
  | taken
deriving DecidableEq, Repr

structure Directive where
  key : Option String
  flags : List Char
  width : Option Count
  precision : Option Count
  form : Char
deriving DecidableEq, Repr

inductive Piece where
  | plain (char : Char)
  | value (directive : Directive)
deriving DecidableEq, Repr

/-- Numbers in a directive go up to this one. -/
def largestCount : Nat := Nat.pow 2 31 - 1

def isFlag (char : Char) : Bool :=
  ['#', '0', '-', ' ', '+'].contains char

def isSize (char : Char) : Bool :=
  ['h', 'l', 'L'].contains char

def digitsValue (digits : List Char) : Nat :=
  digits.foldl (fun value char => value * 10 + (char.toNat - 48)) 0

/-- A key up to the parenthesis that closes it, inside a number of others, and
what follows it. -/
def readKeyText : Nat → List Char → Option (List Char × List Char)
  | _, [] => none
  | depth, char :: rest =>
    if char = ')' then
      match depth with
      | 0 => some ([], rest)
      | inner + 1 => (readKeyText inner rest).map fun read => (char :: read.1, read.2)
    else
      (readKeyText (if char = '(' then depth + 1 else depth) rest).map fun read =>
        (char :: read.1, read.2)

def readKey : List Char → Option (Option String × List Char)
  | '(' :: rest => (readKeyText 0 rest).map fun read => (some (String.ofList read.1), read.2)
  | chars => some (none, chars)

def readCount : List Char → Option (Option Count × List Char)
  | '*' :: rest => some (some .taken, rest)
  | chars =>
    match chars.takeWhile Char.isDigit with
    | [] => some (none, chars)
    | digits =>
      if digitsValue digits ≤ largestCount then
        some (some (.written (digitsValue digits)), chars.dropWhile Char.isDigit)
      else none

def readPrecision : List Char → Option (Option Count × List Char)
  | '.' :: rest => (readCount rest).map fun read => (some (read.1.getD (.written 0)), read.2)
  | chars => some (none, chars)

def dropSize : List Char → List Char
  | [] => []
  | char :: rest => if isSize char then rest else char :: rest

/-- A directive after its percent sign, and what follows it. -/
def readDirective (chars : List Char) : Option (Directive × List Char) := do
  let (key, chars) ← readKey chars
  let flags := chars.takeWhile isFlag
  let (width, chars) ← readCount (chars.dropWhile isFlag)
  let (precision, chars) ← readPrecision chars
  match dropSize chars with
  | form :: rest => some (⟨key, flags, width, precision, form⟩, rest)
  | [] => none

/-- The pieces of a template; the fuel is the number of its characters. -/
def pieces : Nat → List Char → Option (List Piece)
  | _, [] => some []
  | 0, _ :: _ => none
  | fuel + 1, '%' :: '%' :: rest => (pieces fuel rest).map (.plain '%' :: ·)
  | fuel + 1, '%' :: rest =>
    match readDirective rest with
    | some (directive, after) => (pieces fuel after).map (.value directive :: ·)
    | none => none
  | fuel + 1, char :: rest => (pieces fuel rest).map (.plain char :: ·)

/-- Reads a template; none when a directive in it is not finished. -/
def parse (template : String) : Option (List Piece) :=
  pieces template.toList.length template.toList

end Unravel.Template
