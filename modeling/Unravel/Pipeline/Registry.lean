import Unravel.Pass.Plugin

/-!
Contract: the passes of a pipeline and the order they run in.

Passes are registered by name with an order. Registering a name again changes
its pass and order in place. `names` lists by order alone, so that passes of one
order come as they were registered; a run goes by order and then by name.
-/

namespace Unravel

structure Registration where
  order : Int
  plugin : Plugin

abbrev Registry := Members Registration

namespace Registry

def register (registry : Registry) (plugin : Plugin) (order : Int) : Registry :=
  Members.put registry plugin.name ⟨order, plugin⟩

/-- The largest order in use, zero when there is none. -/
def lastOrder (registry : Registry) : Int :=
  match registry.map fun entry => entry.2.order with
  | [] => 0
  | first :: rest => rest.foldl max first

def add (registry : Registry) (plugin : Plugin) : Registry :=
  registry.register plugin (registry.lastOrder + 10)

def passNames (registry : Registry) : List String :=
  (registry.mergeSort fun left right => left.2.order ≤ right.2.order).map
    fun entry => entry.2.plugin.name

/-- The names a selection holds: entries without a name say nothing. -/
def selectedNames (selection : List (Option String)) : List String :=
  selection.filterMap fun entry =>
    entry.bind fun name => if name = "" then none else some (Text.strip name)

def takesPart (skip only : List String) (name : String) : Bool :=
  !skip.contains name && (only.isEmpty || only.contains name)

/-- Order of execution: by order, then by name. -/
def runsBefore (left right : String × Registration) : Bool :=
  left.2.order < right.2.order || (left.2.order = right.2.order && left.1 ≤ right.1)

/-- The passes of a run, in the order they run in. -/
def schedule (registry : Registry) (skip only : List (Option String)) :
    List (String × Registration) :=
  (registry.filter fun entry =>
    takesPart (selectedNames skip) (selectedNames only) entry.1).mergeSort runsBefore

end Registry

end Unravel
