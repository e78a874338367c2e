import Unravel.Walk.Machine

/-!
Contract: passes as the pipeline sees them.

A plugin has a name and, for given options, changes a document and reports
metadata, or fails; it may have changed the document before it failed. Most
plugins are visitors with a state of their own, which starts afresh in every
run.
-/

namespace Unravel

abbrev Options := Members Json

/-- What a pass reports about its run, by name. -/
abbrev Metadata := Members Json

structure PassOutcome where
  document : Document
  log : List Remark
  result : Except Fault Metadata

structure Plugin where
  name : String
  apply : Nat → Options → Document → PassOutcome

structure Tally where
  changes : Nat
  skipped : Nat
  warnings : List String
deriving DecidableEq, Repr

namespace Tally

def empty : Tally :=
  ⟨0, 0, []⟩

def change (tally : Tally) : Tally :=
  { tally with changes := tally.changes + 1 }

def skip (tally : Tally) : Tally :=
  { tally with skipped := tally.skipped + 1 }

def warn (tally : Tally) (warning : String) : Tally :=
  { tally with warnings := tally.warnings ++ [warning] }

def metadata (tally : Tally) : Metadata :=
  [("changes", .ofNat tally.changes), ("skipped", .ofNat tally.skipped),
    ("warnings", .list (tally.warnings.map .text))]

end Tally

namespace Plugin

/-- The plugin of a visitor: an initial state from the options, the visitor for
a step limit, and the metadata of a final state. -/
def ofVisitor {σ : Type} (name : String) (initial : Options → Except Fault σ)
    (visitor : Nat → Visitor σ) (metadata : σ → Metadata) : Plugin where
  name := name
  apply limit options document :=
    match initial options with
    | .error fault => ⟨document, [], .error fault⟩
    | .ok state =>
      let (outcome, session) := Walk.start limit (visitor limit) document state
      ⟨session.document, session.log, outcome.map fun _ => metadata session.state⟩

end Plugin

end Unravel
