import Unravel.Json.Basic

/-!
Contract: syntax trees as labelled, ordered data.

A tree is made of attribute values. A *node* is an object with a kind, a
*record* is an object without one; both carry a label that tells one object
from another of the same shape, and attributes in a fixed order. The set of
kinds is open: a tree may hold kinds that no table of this library lists.

An attribute that is missing reads as null (`attr`), while `fields` still tells
the two apart.
-/

namespace Unravel

inductive Value where
  | null
  | bool (value : Bool)
  | number (value : Numeral)
  | text (value : String)
  | list (items : List Value)
  | record (label : Nat) (fields : List (String × Value))
  | node (label : Nat) (kind : String) (fields : List (String × Value))
deriving Inhabited, Repr

namespace Value

def label? : Value → Option Nat
  | .record label _ => some label
  | .node label _ _ => some label
  | _ => none

def kind? : Value → Option String
  | .node _ kind _ => some kind
  | _ => none

def isNode : Value → Bool
  | .node _ _ _ => true
  | _ => false

def isKind (value : Value) (kind : String) : Bool :=
  value.kind? == some kind

def fields : Value → Members Value
  | .record _ fields => fields
  | .node _ _ fields => fields
  | _ => []

/-- An attribute; null when it is missing. -/
def attr (value : Value) (name : String) : Value :=
  (Members.get? value.fields name).getD .null

/-- Writes an attribute of an object, which keeps its label. -/
def setAttr (value : Value) (name : String) (new : Value) : Value :=
  match value with
  | .record label fields => .record label (Members.put fields name new)
  | .node label kind fields => .node label kind (Members.put fields name new)
  | other => other

def isNull : Value → Bool
  | .null => true
  | _ => false

def text? : Value → Option String
  | .text value => some value
  | _ => none

def items : Value → List Value
  | .list items => items
  | _ => []

/-- Null, false, zeros and empty texts and lists count as false. -/
def truthy : Value → Bool
  | .null => false
  | .bool value => value
  | .number value => !value.isZero
  | .text value => value != ""
  | .list items => !items.isEmpty
  | .record _ _ => true
  | .node _ _ _ => true

def hasText (value : Value) (name text : String) : Bool :=
  (value.attr name).text? == some text

theorem kind?_of_isKind {value : Value} {kind : String} (is : value.isKind kind = true) :
    value.kind? = some kind := by
  simpa [isKind] using is

/-! ## Size -/

theorem sizeOf_get?_lt {fields : Members Value} {name : String} {value : Value}
    (found : Members.get? fields name = some value) :
    sizeOf value < sizeOf fields := by
  induction fields with
  | nil => simp [Members.get?] at found
  | cons head tail ih =>
    obtain ⟨key, other⟩ := head
    simp only [Members.get?] at found
    split at found
    · cases found
      simp
      omega
    · have := ih found
      simp
      omega

/-- An attribute is smaller than the object that carries it. -/
theorem sizeOf_attr_lt {value : Value} {name : String} (present : value.attr name ≠ .null) :
    sizeOf (value.attr name) < sizeOf value := by
  unfold attr at *
  cases found : Members.get? value.fields name with
  | none => simp [found] at present
  | some inner =>
    have smaller := sizeOf_get?_lt found
    simp only [Option.getD_some]
    cases value <;> simp [fields] at smaller ⊢ <;> omega

/-- The attributes of a node are smaller than the node, missing ones too. -/
theorem sizeOf_attr_lt_of_kind? {value : Value} {kind : String} (name : String)
    (isNode : value.kind? = some kind) :
    sizeOf (value.attr name) < sizeOf value := by
  by_cases missing : value.attr name = .null
  · rw [missing]
    cases value with
    | node label kind fields =>
      have filled : 0 < sizeOf fields := by
        cases fields with
        | nil => decide
        | cons head tail =>
          rw [List.cons.sizeOf_spec]
          omega
      rw [null.sizeOf_spec, node.sizeOf_spec]
      omega
    | _ => simp [kind?] at isNode
  · exact sizeOf_attr_lt missing

/-- An item of a list attribute is smaller than the object that carries it. -/
theorem sizeOf_item_lt {value item : Value} {name : String}
    (member : item ∈ (value.attr name).items) :
    sizeOf item < sizeOf value := by
  cases found : value.attr name with
  | list items =>
    have present : value.attr name ≠ .null := by simp [found]
    have smaller := sizeOf_attr_lt present
    rw [found] at member smaller
    have within := List.sizeOf_lt_of_mem (show item ∈ items from member)
    simp at smaller
    omega
  | _ => simp [found, items] at member

/-! ## Labels and copies -/

/-- Computations that draw unused labels from a counter. -/
abbrev Fresh := StateM Nat

def fresh : Fresh Nat :=
  modifyGet fun next => (next, next + 1)

mutual

/-- A copy in which every object has a new label. -/
def copy : Value → Fresh Value
  | .list items => do return .list (← copyItems items)
  | .record _ fields => do
      let label ← fresh
      return .record label (← copyFields fields)
  | .node _ kind fields => do
      let label ← fresh
      return .node label kind (← copyFields fields)
  | value => pure value

def copyItems : List Value → Fresh (List Value)
  | [] => pure []
  | item :: rest => do
      let item ← copy item
      return item :: (← copyItems rest)

def copyFields : List (String × Value) → Fresh (List (String × Value))
  | [] => pure []
  | (name, value) :: rest => do
      let value ← copy value
      return (name, value) :: (← copyFields rest)

end

/-- A copy of the object alone: its attributes are the same objects. -/
def copyShallow : Value → Fresh Value
  | .record _ fields => do return .record (← fresh) fields
  | .node _ kind fields => do return .node (← fresh) kind fields
  | value => pure value

mutual

/-- The object with a label, searched through all attributes. -/
def find? (label : Nat) : Value → Option Value
  | .list items => findItems? label items
  | .record own fields =>
    if own = label then some (.record own fields) else findFields? label fields
  | .node own kind fields =>
    if own = label then some (.node own kind fields) else findFields? label fields
  | _ => none

def findItems? (label : Nat) : List Value → Option Value
  | [] => none
  | item :: rest =>
    match find? label item with
    | some found => some found
    | none => findItems? label rest

def findFields? (label : Nat) : List (String × Value) → Option Value
  | [] => none
  | (_, value) :: rest =>
    match find? label value with
    | some found => some found
    | none => findFields? label rest

end

end Value

end Unravel
