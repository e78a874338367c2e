import Unravel.Tree.Shape

/-!
Contract: whether a helper calls itself through tracked helpers.

`calledNames` are the names a body calls, at any depth. `reaches` searches from
a name along calls, passing through tracked names that have a body, for a call
of the name itself.

`recursionFault?` finds what keeps malformed bodies from being searched. Whether
the search meets it depends on its order: of the names that wait the latest
comes first, and of the children of a node the last.
-/

namespace Unravel

/-- Names without those that have come before. -/
def Name.distinct : List Name → List Name
  | [] => []
  | name :: rest => name :: (distinct rest).filter fun other => !other.same name

namespace Pass.Inlining

def callee? (value : Value) : Option Value :=
  if value.isKind "CallExpression" && (value.attr "callee").isIdentifier then
    some (value.attr "callee")
  else none

def calledName? (value : Value) : Option Name :=
  (callee? value).bind Value.name?

def calledNames (body : Value) : List Name :=
  body.nodes.filterMap calledName?

/-- The tracked names among some calls that have not been seen, each once. -/
def unseen (tracked seen called : List Name) : List Name :=
  Name.distinct (called.filter fun name => name.isIn tracked && !name.isIn seen)

/-- Searches for a call of a name from the pending names. Every name is pending
at most once, so the search makes no more steps than there are tracked names
and the name itself. -/
def reaches (callees : Name → Option (List Name)) (tracked : List Name) (name : Name) :
    Nat → List Name → List Name → Bool
  | 0, _, _ => false
  | _ + 1, _, [] => false
  | fuel + 1, seen, next :: pending =>
    match callees next with
    | none => reaches callees tracked name fuel seen pending
    | some called =>
      if name.isIn called then true
      else
        let found := unseen tracked seen called
        reaches callees tracked name fuel (found ++ seen) (found ++ pending)

def callsBack (callees : Name → Option (List Name)) (tracked : List Name) (name : Name) :
    Bool :=
  reaches callees tracked name (tracked.length + 1) [name] [name]

/-! ## Malformed bodies -/

/-- A value and the nodes below it, the last children first. -/
def nodesFromEnd (value : Value) : List Value :=
  value :: value.children.attach.reverse.flatMap fun child => nodesFromEnd child.val
termination_by sizeOf value
decreasing_by exact Value.sizeOf_lt_of_mem_children child.property

inductive BodySearch where
  /-- At a call of the name that is searched for. -/
  | found
  | failed (fault : SortFault)
  /-- With the names that have been seen and those to be searched next. -/
  | passed (seen pending : List Name)
deriving DecidableEq, Repr

def searchNodes (tracked : List Name) (name : Name) :
    List Value → List Name → List Name → BodySearch
  | [], seen, pending => .passed seen pending
  | node :: rest, seen, pending =>
    match callee? node with
    | none => searchNodes tracked name rest seen pending
    | some callee =>
      match callee.name? with
      | none => .failed (.notHashable (callee.attr "name").sortName)
      | some called =>
        if called.same name then .found
        else if called.isIn tracked && !called.isIn seen then
          searchNodes tracked name rest (called :: seen) (called :: pending)
        else searchNodes tracked name rest seen pending

def searchBody (tracked : List Name) (name : Name) (body : Value) (seen pending : List Name) :
    BodySearch :=
  match body.fieldsFault? with
  | some fault => .failed fault
  | none => searchNodes tracked name (nodesFromEnd body) seen pending

/-- The fault that a search from the pending names meets. -/
def searchFailure? (body? : Name → Option Value) (tracked : List Name) (name : Name) :
    Nat → List Name → List Name → Option SortFault
  | 0, _, _ => none
  | _ + 1, _, [] => none
  | fuel + 1, seen, next :: pending =>
    match body? next with
    | none => searchFailure? body? tracked name fuel seen pending
    | some body =>
      match searchBody tracked name body seen pending with
      | .found => none
      | .failed fault => some fault
      | .passed seen pending => searchFailure? body? tracked name fuel seen pending

/-- What keeps the verdict on a name from being made. -/
def recursionFault? (body? : Name → Option Value) (tracked : List Name) (name : Name) :
    Option SortFault :=
  searchFailure? body? tracked name (tracked.length + 1) [name] [name]

end Pass.Inlining

end Unravel
