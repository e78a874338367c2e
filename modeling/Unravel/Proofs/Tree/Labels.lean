import Mathlib.Data.List.Count
import Mathlib.Data.List.Nodup
import Unravel.Proofs.Tree.Search

/-!
Contract: trees in which no two objects share a label.

In such a tree a label says which object is meant (`eq_of_label?`).
`Told` values are those in which objects with one label are of one kind.
-/

namespace Unravel.Value

variable {label own : Nat} {value object : Value}

mutual

/-- The labels of all objects of a value, in whatever attribute they stand. -/
def labels : Value → List Nat
  | .list items => labelsItems items
  | .record label fields => label :: labelsFields fields
  | .node label _ fields => label :: labelsFields fields
  | _ => []

def labelsItems : List Value → List Nat
  | [] => []
  | item :: rest => labels item ++ labelsItems rest

def labelsFields : List (String × Value) → List Nat
  | [] => []
  | (_, value) :: rest => labels value ++ labelsFields rest

end

theorem labels_of_label? (is : value.label? = some own) :
    value.labels = own :: labelsFields value.fields := by
  cases value <;> cases is <;> rw [labels] <;> rfl

theorem labelsItems_eq (items : List Value) : labelsItems items = items.flatMap labels := by
  induction items with
  | nil => rfl
  | cons item rest ih => rw [labelsItems, ih, List.flatMap_cons]

theorem labelsFields_eq (fields : List (String × Value)) :
    labelsFields fields = fields.flatMap fun field => field.2.labels := by
  induction fields with
  | nil => rfl
  | cons field rest ih => rw [labelsFields, ih, List.flatMap_cons]

theorem labels_of_plain (plain : value.Plain) : value.labels = [] := by
  cases plain <;> rfl

theorem map_label?_objects (value : Value) : value.objects.map label? = value.labels.map some := by
  induction value using treeInduction with
  | list items ih =>
    rw [objects_list, labels, labelsItems_eq, List.map_flatMap, List.map_flatMap]
    exact List.flatMap_congr ih
  | object value own is ih =>
    rw [objects_of_label? is, labels_of_label? is, labelsFields_eq, List.map_cons, List.map_cons, is,
      innerObjects, List.map_flatMap, List.map_flatMap]
    exact congrArg (some own :: ·) (List.flatMap_congr ih)
  | leaf value plain =>
    rw [objects_of_leaf plain, labels_of_plain plain]
    rfl

theorem mem_labels : label ∈ value.labels ↔ ∃ object ∈ value.objects, object.label? = some label := by
  rw [← List.mem_map_of_injective fun _ _ => Option.some.inj, ← map_label?_objects, List.mem_map]

theorem everywhere_iff_labels {holds : Nat → Prop} :
    value.Everywhere (fun label _ _ => holds label) ↔ ∀ label ∈ value.labels, holds label := by
  simp only [everywhere_iff, Mark.Of, mem_labels]
  constructor
  · rintro all label ⟨object, member, is⟩
    exact all object member label is
  · intro all object member label is
    exact all label ⟨object, member, is⟩

/-! ## Labels that do not repeat -/

variable {other : Value}

/-- A label that stands once tells its object from all others. -/
theorem eq_of_count_labels (once : value.labels.count label ≤ 1) (member : object ∈ value.objects)
    (isOther : other ∈ value.objects) (is : object.label? = some label)
    (same : other.label? = some label) : object = other := by
  obtain ⟨before, after, isAll⟩ := List.append_of_mem member
  rw [← List.count_map_of_injective _ some fun _ _ => Option.some.inj, ← map_label?_objects, isAll,
    List.map_append, List.map_cons, is, List.count_append, List.count_cons_self] at once
  have absent {values : List Value} (none_ : (values.map label?).count (some label) = 0) :
      other ∉ values :=
    fun among => List.count_eq_zero.1 none_ (same ▸ List.mem_map_of_mem among)
  rw [isAll, List.mem_append, List.mem_cons] at isOther
  rcases isOther with earlier | rfl | later
  · exact absurd earlier (absent (by omega))
  · rfl
  · exact absurd later (absent (by omega))

theorem eq_of_label? (distinct : value.labels.Nodup) (member : object ∈ value.objects)
    (isOther : other ∈ value.objects) (same : object.label? = other.label?) : object = other := by
  obtain ⟨label, is⟩ := Option.isSome_iff_exists.1 (isObject_of_mem_objects member)
  exact eq_of_count_labels (List.nodup_iff_count_le_one.1 distinct label) member isOther is
    (same ▸ is)

/-- Objects that share a label are of one kind. -/
def Told (value : Value) : Prop := ∀ first ∈ value.objects, ∀ second ∈ value.objects, first.label? =
  second.label? → first.kind? = second.kind?

theorem told_of_nodup (distinct : value.labels.Nodup) : value.Told := by
  intro first isFirst second isSecond same
  rw [eq_of_label? distinct isFirst isSecond same]

end Unravel.Value
