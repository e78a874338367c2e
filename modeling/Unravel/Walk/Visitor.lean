import Unravel.Walk.Session

/-!
Contract: visitors, and what they do at one node.

A visitor is a list of rules. A rule names the kinds it is for and has an action
for entering and one for leaving a node of those kinds. At a node, the actions
of its kind run in the order of the rules, until one of them has changed the
kind of the node.
-/

namespace Unravel

/-- An action at a cursor. It gives back the cursor, which it may have moved to
another scope by a replacement, or marked to be skipped. -/
abbrev Handler (σ : Type) := Cursor → WalkM σ Cursor

inductive Phase where
  | entering
  | leaving
deriving DecidableEq, Repr

structure Rule (σ : Type) where
  kinds : List String
  enter : Option (Handler σ)
  leave : Option (Handler σ)

abbrev Visitor (σ : Type) := List (Rule σ)

namespace Rule

variable {σ : Type}

def onEnter (kind : String) (handler : Handler σ) : Rule σ :=
  ⟨[kind], some handler, none⟩

def onLeave (kind : String) (handler : Handler σ) : Rule σ :=
  ⟨[kind], none, some handler⟩

def handler? (rule : Rule σ) : Phase → Option (Handler σ)
  | .entering => rule.enter
  | .leaving => rule.leave

/-- The action of a rule, once for each time the rule names the kind. -/
def handlersFor (rule : Rule σ) (phase : Phase) (kind : String) : List (Handler σ) :=
  match rule.handler? phase with
  | some handler => List.replicate (rule.kinds.count kind) handler
  | none => []

end Rule

namespace Visitor

variable {σ : Type}

def handlersFor (visitor : Visitor σ) (phase : Phase) (kind : String) : List (Handler σ) :=
  visitor.flatMap fun rule => rule.handlersFor phase kind

/-- Runs actions in turn while the node keeps its kind. -/
def runHandlers (kind : String) : List (Handler σ) → Cursor → WalkM σ Cursor
  | [], cursor => pure cursor
  | handler :: rest, cursor => do
      let cursor ← handler cursor
      if (← cursor.node).kind? = some kind then runHandlers kind rest cursor
      else return cursor

def dispatch (visitor : Visitor σ) (phase : Phase) (cursor : Cursor) : WalkM σ Cursor := do
  match (← cursor.node).kind? with
  | some kind => runHandlers kind (visitor.handlersFor phase kind) cursor
  | none => return cursor

end Visitor

end Unravel
