import Unravel.Tree.Shape

/-!
Contract: which identifiers of an expression refer to variables.

Names of properties and keys that are not computed are no references. The right
operand of a logical expression and the branches of a conditional expression
are evaluated conditionally, and a reference below them is marked so.

The search for references ends at identifiers and, in a malformed expression,
at values that are no objects; a search that meets one of those fails there.
-/

namespace Unravel.Value

/-- The parts of an expression that hold references, in document order, each
with whether it is evaluated conditionally. -/
def referenceParts (value : Value) : List (Value × Bool) :=
  if value.isKind "MemberExpression" && !(value.attr "computed").truthy then
    [(value.attr "object", false)]
  else if value.isKind "Property" && !(value.attr "computed").truthy then
    [(value.attr "value", false)]
  else if value.isKind "LogicalExpression" then
    [(value.attr "left", false), (value.attr "right", true)]
  else if value.isKind "ConditionalExpression" then
    [(value.attr "test", false), (value.attr "consequent", true), (value.attr "alternate", true)]
  else value.children.map fun child => (child, false)

theorem sizeOf_lt_of_mem_referenceParts {value : Value} {part : Value × Bool}
    (member : part ∈ value.referenceParts) :
    sizeOf part.1 < sizeOf value := by
  have smaller {kind : String} (name : String) (is : value.isKind kind = true) :
      sizeOf (value.attr name) < sizeOf value :=
    sizeOf_attr_lt_of_kind? name (kind?_of_isKind is)
  unfold referenceParts at member
  split at member
  · rename_i is
    rw [List.mem_singleton.1 member]
    exact smaller _ (Bool.and_eq_true_iff.1 is).1
  · split at member
    · rename_i is
      rw [List.mem_singleton.1 member]
      exact smaller _ (Bool.and_eq_true_iff.1 is).1
    · split at member
      · rename_i is
        simp only [List.mem_cons, List.not_mem_nil, or_false] at member
        rcases member with rfl | rfl <;> exact smaller _ is
      · split at member
        · rename_i is
          simp only [List.mem_cons, List.not_mem_nil, or_false] at member
          rcases member with rfl | rfl | rfl <;> exact smaller _ is
        · obtain ⟨child, isChild, rfl⟩ := List.mem_map.1 member
          exact sizeOf_lt_of_mem_children isChild

/-- Where the search for references ends, in document order, each place with
whether it is evaluated conditionally. -/
def searchEnds (value : Value) (conditional : Bool) : List (Value × Bool) :=
  if value.isIdentifier || !value.isObject then [(value, conditional)]
  else
    value.referenceParts.attach.flatMap fun part =>
      searchEnds part.val.1 (conditional || part.val.2)
termination_by sizeOf value
decreasing_by exact sizeOf_lt_of_mem_referenceParts part.property

/-- The references of an expression in document order, each with whether it is
evaluated conditionally. -/
def references (value : Value) (conditional : Bool) : List (Value × Bool) :=
  (value.searchEnds conditional).filter fun reference => reference.1.isIdentifier

/-- Why the search fails at one of its ends, or the name found there cannot be
looked up. -/
def searchFault? (value : Value) : Option SortFault :=
  if value.isIdentifier then value.nameFault? else value.fieldsFault?

/-- Whether an identifier is of one of some names. -/
def isOneOf (value : Value) (names : List Name) : Bool :=
  match value.identifier? with
  | some name => name.isIn names
  | none => false

/-- Whether an expression refers to one of some names. -/
def mentions (value : Value) (names : List Name) : Bool :=
  (value.references false).any fun reference => reference.1.isOneOf names

/-- The first fault of a search that goes on while a test holds of what it
meets. -/
def faultWhile (fault? : Value → Option SortFault) (goesOn : Value × Bool → Bool) :
    List (Value × Bool) → Option SortFault
  | [] => none
  | reference :: rest =>
    (fault? reference.1).or
      (if goesOn reference then faultWhile fault? goesOn rest else none)

/-- What keeps an expression from being searched for names; the search ends
where it has found one. -/
def mentionFault? (value : Value) (names : List Name) : Option SortFault :=
  faultWhile searchFault? (fun reference => !reference.1.isOneOf names) (value.searchEnds false)

end Unravel.Value
