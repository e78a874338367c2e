import Unravel.Tree.Shape

/-!
Contract: the identifiers that a declaration or assignment target binds.

Defaults, rest elements and nested array and object patterns are looked
through; members and other expressions bind nothing. Patterns whose elements or
properties are no sequence cannot be looked through.
-/

namespace Unravel.Value

/-- The target inside one property of an object pattern. -/
def propertyTarget? (property : Value) : Option Value :=
  if property.isKind "RestElement" then some (property.attr "argument")
  else if property.isKind "Property" then some (property.attr "value")
  else none

/-- The targets one level inside a pattern, in document order. -/
def patternParts (pattern : Value) : List Value :=
  if pattern.isKind "AssignmentPattern" then [pattern.attr "left"]
  else if pattern.isKind "RestElement" then [pattern.attr "argument"]
  else if pattern.isKind "ArrayPattern" then (pattern.attr "elements").items
  else if pattern.isKind "ObjectPattern" then
    (pattern.attr "properties").items.filterMap propertyTarget?
  else []

theorem sizeOf_lt_of_propertyTarget? {property target : Value}
    (found : property.propertyTarget? = some target) :
    sizeOf target < sizeOf property := by
  unfold propertyTarget? at found
  split at found
  · rename_i is
    cases found
    exact sizeOf_attr_lt_of_kind? _ (kind?_of_isKind is)
  · split at found
    · rename_i is
      cases found
      exact sizeOf_attr_lt_of_kind? _ (kind?_of_isKind is)
    · cases found

theorem sizeOf_lt_of_mem_patternParts {pattern part : Value}
    (member : part ∈ pattern.patternParts) :
    sizeOf part < sizeOf pattern := by
  unfold patternParts at member
  split at member
  · rename_i is
    rw [List.mem_singleton.1 member]
    exact sizeOf_attr_lt_of_kind? _ (kind?_of_isKind is)
  · split at member
    · rename_i is
      rw [List.mem_singleton.1 member]
      exact sizeOf_attr_lt_of_kind? _ (kind?_of_isKind is)
    · split at member
      · exact sizeOf_item_lt member
      · split at member
        · obtain ⟨property, inList, found⟩ := List.mem_filterMap.1 member
          exact Nat.lt_trans (sizeOf_lt_of_propertyTarget? found) (sizeOf_item_lt inList)
        · cases member

/-- The identifiers a pattern binds, in document order. -/
def patternIdentifiers (pattern : Value) : List Value :=
  if pattern.isIdentifier then [pattern]
  else pattern.patternParts.attach.flatMap fun part => patternIdentifiers part.val
termination_by sizeOf pattern
decreasing_by exact sizeOf_lt_of_mem_patternParts part.property

/-- What keeps the parts of a pattern from being looked at. -/
def partsFault? (pattern : Value) : Option SortFault :=
  if pattern.isKind "ArrayPattern" then (pattern.attr "elements").anyReversalFault?
  else if pattern.isKind "ObjectPattern" then (pattern.attr "properties").anyReversalFault?
  else none

/-- What keeps a pattern from being looked through. -/
def patternFault? (pattern : Value) : Option SortFault :=
  pattern.partsFault?.or
    (pattern.patternParts.attach.findSome? fun part => patternFault? part.val)
termination_by sizeOf pattern
decreasing_by exact sizeOf_lt_of_mem_patternParts part.property

end Unravel.Value
