import Unravel.Tree.Name

/-!
Contract: which uses the values of a tree admit.

The functions of this library read trees as if they were well-formed: an
attribute of a value without attributes reads as null, and a value that is no
list has no items. Where a malformed tree must not pass for a well-formed one,
the first of the faults below is found before the tree is read.
-/

namespace Unravel.Value

def sortName : Value → String
  | .null => "NoneType"
  | .bool _ => "bool"
  | .number (.integer _) => "int"
  | .number (.double _) => "float"
  | .text _ => "str"
  | .list _ => "list"
  | .record _ _ => "Node"
  | .node _ _ _ => "Node"

def isObject (value : Value) : Bool :=
  value.label?.isSome

/-- Lists and texts have a first item, a next one and a last. -/
def isSequence : Value → Bool
  | .list _ => true
  | .text _ => true
  | _ => false

def elements : Value → List Value
  | .list items => items
  | .text value => (Text.singletons value).map .text
  | _ => []

/-- Reading an attribute takes an object. -/
def attrFault? (value : Value) (name : String) : Option SortFault :=
  if value.isObject then none else some (.noAttribute value.sortName name)

/-- Looking something up by a value takes one that is no list. -/
def keyFault? : Value → Option SortFault
  | .list _ => some (.notHashable "list")
  | _ => none

def iterationFault? (value : Value) : Option SortFault :=
  if value.isSequence then none else some (.notIterable value.sortName)

/-- Going through a value for which whatever counts as false is empty. -/
def anyIterationFault? (value : Value) : Option SortFault :=
  if value.truthy then value.iterationFault? else none

/-- Going through such a value from its end. -/
def anyReversalFault? (value : Value) : Option SortFault :=
  if value.truthy && !value.isSequence then some (.notReversible value.sortName) else none

def lengthFault? (value : Value) : Option SortFault :=
  if value.isSequence then none else some (.noLength value.sortName)

/-- The length of a value for which whatever counts as false is empty. -/
def anyLengthFault? (value : Value) : Option SortFault :=
  if value.truthy then value.lengthFault? else none

/-- Reading the name of a value and looking something up by it. -/
def nameFault? (value : Value) : Option SortFault :=
  (value.attrFault? "name").or (value.attr "name").keyFault?

/-- Looking at all attributes of a value. -/
def fieldsFault? (value : Value) : Option SortFault :=
  if value.isObject then none else some .noFields

end Unravel.Value
