import Unravel.Tree.Value

/-!
Contract: places in a tree.

A slot is an attribute, or one item of an attribute that is a list. An address
is the slots from the root down to a place. An address stays meaningful while
other places change, so it is how a walk refers to the node it is at.
-/

namespace Unravel

structure Slot where
  field : String
  index : Option Nat
deriving DecidableEq, Repr

/-- Slots from the root down. -/
abbrev Address := List Slot

namespace Value

def slot? (value : Value) (slot : Slot) : Option Value :=
  match slot.index with
  | none => Members.get? value.fields slot.field
  | some index => (value.attr slot.field).items[index]?

def putSlot (value : Value) (slot : Slot) (new : Value) : Value :=
  match slot.index with
  | none => value.setAttr slot.field new
  | some index =>
    match value.attr slot.field with
    | .list items => value.setAttr slot.field (.list (items.set index new))
    | _ => value

/-- What stands at an address. -/
def at? (value : Value) : Address → Option Value
  | [] => some value
  | slot :: rest => (value.slot? slot).bind fun inner => at? inner rest

/-- Writes at an address that leads somewhere. -/
def putAt (value : Value) (address : Address) (new : Value) : Value :=
  match address with
  | [] => new
  | slot :: rest =>
    match value.slot? slot with
    | some inner => value.putSlot slot (putAt inner rest new)
    | none => value

end Value

end Unravel
