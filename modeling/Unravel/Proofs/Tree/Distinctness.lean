import Mathlib.Algebra.GroupWithZero.Nat
import Mathlib.Algebra.Order.BigOperators.Group.List
import Mathlib.Algebra.Order.Group.Nat
import Mathlib.Data.List.Count
import Unravel.Proofs.Tree.Copies

/-!
Contract: trees in which no two of the nodes that are reached share a label.

The weight of a label in a value is how often it occurs among the nodes that are
reached from the value. A write changes weights by what it takes out and what it
puts in (`weight_putAt_le`), so a tree without a repeated label stays one when
the labels of what is put in were in its place before, or are drawn for it.
Nothing is asked of objects that are not reached, but that no attribute name of
theirs occurs twice.
-/

namespace Unravel

variable {value old : Value} {last first : Nat} {name kind : String} {address : Address}
  {fields : Members Value}

namespace Value

/-! ## Labels among the nodes that are reached -/

/-- How often a label occurs among the nodes that an attribute with the value
would lead to. -/
def weight (label : Nat) (value : Value) : Nat :=
  ((value.slotNodes.flatMap nodes).map label?).count (some label)

/-- No attribute name occurs twice. -/
def NamedOnce : Mark := fun _ _ names => names.Nodup

/-- Whether an attribute of a node of a kind is one that may hold children. -/
def mayHold (kind name : String) : Bool :=
  match Members.get? childTable kind with
  | some names => names.contains name
  | none => !descriptiveFields.contains name

variable {label : Nat}

theorem weight_of_isNode (isNode : value.isNode) :
    value.weight label = (value.nodes.map label?).count (some label) := by
  rw [weight, slotNodes_of_isNode isNode, List.flatMap_singleton]

theorem weight_of_no_nodes (none_ : value.slotNodes = []) : value.weight label = 0 := by
  rw [weight, none_]
  rfl

@[simp] theorem weight_null : Value.null.weight label = 0 := weight_of_no_nodes rfl

theorem count_flatMap_nodes (values : List Value) (isNode : ∀ value ∈ values, value.isNode) :
    ((values.flatMap nodes).map label?).count (some label) = (values.map (weight label)).sum := by
  induction values with
  | nil => rfl
  | cons value rest ih =>
    rw [List.flatMap_cons, List.map_append, List.count_append, List.map_cons, List.sum_cons,
      ih fun other member => isNode other (List.mem_cons_of_mem _ member),
      weight_of_isNode (isNode value List.mem_cons_self)]

theorem weight_list (items : List Value) : (Value.list items).weight label =
      (items.map fun item => if item.isNode then item.weight label else 0).sum := by
  rw [weight, slotNodes, count_flatMap_nodes _ fun value member => (List.mem_filter.1 member).2]
  induction items with
  | nil => rfl
  | cons item rest ih =>
    cases isNode : item.isNode <;> simp [isNode, ih]

/-! ### Sums over attributes -/

variable {names : List String}

theorem sum_map_ite_eq (distinct : names.Nodup) (key : String) (amount : Nat) : (names.map fun name
    => if key = name then amount else 0).sum = if key ∈ names then amount else 0 := by
  induction names with
  | nil => rfl
  | cons name rest ih =>
    obtain ⟨absent, restDistinct⟩ := List.nodup_cons.1 distinct
    rw [List.map_cons, List.sum_cons, ih restDistinct]
    by_cases here : key = name
    · subst here
      simp [absent]
    · simp [here]

/-- Reading attributes by name adds up to what the attributes with those names
have. -/
theorem sum_map_get? (distinct : names.Nodup) (once : (Members.names fields).Nodup) {amount : Value
    → Nat} (nothing : amount .null = 0) : (names.map fun name => amount ((Members.get? fields
    name).getD .null)).sum = (fields.map fun field => if field.1 ∈ names then amount field.2 else
    0).sum := by
  induction fields with
  | nil => simp [Members.get?, nothing]
  | cons field rest ih =>
    obtain ⟨key, held⟩ := field
    obtain ⟨absent, restOnce⟩ := List.nodup_cons.1 (show (key :: Members.names rest).Nodup from once)
    have missing : Members.get? rest key = none := by
      cases found : Members.get? rest key with
      | none => rfl
      | some other => exact absurd (Members.mem_names_of_get? found) absent
    have split (name : String) : amount ((Members.get? ((key, held) :: rest) name).getD .null) = (if
        key = name then amount held else 0) + amount ((Members.get? rest name).getD .null) := by
      by_cases here : key = name
      · subst here
        simp [Members.get?, missing, nothing]
      · simp [Members.get?, here]
    simp only [split, List.sum_map_add, sum_map_ite_eq distinct,
      ih restOnce, List.map_cons, List.sum_cons]

theorem mem_openFields {field : String × Value} (member : field ∈ value.fields) : field.2.slotNodes
    ≠ [] → descriptiveFields.contains field.1 = false → field.1 ∈ value.openFields := by
  intro filled plain
  refine List.mem_filterMap.2 ⟨field, member, ?_⟩
  have notEmpty : field.2.slotNodes.isEmpty = false := by simpa using filled
  rw [plain, notEmpty]
  rfl

theorem descriptive_of_mem_openFields (member : name ∈ value.openFields) :
    descriptiveFields.contains name = false := by
  obtain ⟨field, _, chosen⟩ := List.mem_filterMap.1 member
  split at chosen
  · cases chosen
  · rename_i plain
    cases chosen
    simpa using fun described => plain (by simp [described])

/-- The label of a node and those in its attributes that may hold children. -/
theorem weight_node (is : value.kind? = some kind) (once : (Members.names value.fields).Nodup) :
    value.weight label = (if value.label? = some label then 1 else 0) +
      (value.fields.map fun field =>
        if mayHold kind field.1 then field.2.weight label else 0).sum := by
  have isNode : value.isNode := by
    cases value <;> first | rfl | cases is
  have own : (value.nodes.map label?).count (some label) =
      (if value.label? = some label then 1 else 0) +
        ((value.children.flatMap nodes).map label?).count (some label) := by
    rw [nodes_eq, List.map_cons, List.count_cons, Nat.add_comm]
    simp
  have below : ((value.children.flatMap nodes).map label?).count (some label) =
      (value.childFields.map fun name => (value.attr name).weight label).sum := by
    unfold children
    induction value.childFields with
    | nil => rfl
    | cons name rest ih =>
      rw [List.flatMap_cons, List.flatMap_append, List.map_append, List.count_append, ih]
      rfl
  rw [weight_of_isNode isNode, own, below]
  unfold attr
  rw [sum_map_get? (childFields_nodup once) once weight_null]
  congr 2
  apply List.map_congr_left
  intro field member
  by_cases empty : field.2.slotNodes = []
  · simp [weight_of_no_nodes empty]
  · have same : field.1 ∈ value.childFields ↔ mayHold kind field.1 := by
      unfold childFields mayHold
      rw [is, Option.bind_some]
      cases Members.get? childTable kind with
      | some names => simp
      | none =>
        constructor
        · intro listed
          rw [descriptive_of_mem_openFields listed]
          rfl
        · intro plain
          exact mem_openFields member empty (by simpa using plain)
    by_cases holds : mayHold kind field.1 = true <;> simp [same, holds]

theorem weight_attr_le (label : Nat) (is : value.kind? = some kind)
    (once : (Members.names value.fields).Nodup) (holds : mayHold kind name) :
    (value.attr name).weight label ≤ value.weight label := by
  cases held : Members.get? value.fields name with
  | none =>
    rw [attr, held]
    exact Nat.zero_le _
  | some inner =>
    have member := Members.mem_of_get? held
    have within := List.single_le_sum (fun _ _ => Nat.zero_le _) _
      (List.mem_map.2 ⟨_, member, rfl⟩ : (if mayHold kind name then inner.weight label else 0) ∈
        value.fields.map fun field => if mayHold kind field.1 then field.2.weight label else 0)
    rw [if_pos holds] at within
    rw [attr, held, Option.getD_some, weight_node is once]
    omega

/-! ### Weights and labels -/

theorem sum_weights_le (chosen : String → Bool) {fields : List (String × Value)} (each : ∀ field ∈
    fields, field.2.weight label ≤ field.2.labels.count label) : (fields.map fun field => if chosen
    field.1 then field.2.weight label else 0).sum ≤ (labelsFields fields).count label := by
  induction fields with
  | nil => exact Nat.zero_le _
  | cons field rest ih =>
    have first := each field List.mem_cons_self
    have others := ih fun other member => each other (List.mem_cons_of_mem _ member)
    simp only [labelsFields, List.count_append, List.map_cons, List.sum_cons]
    split <;> omega

theorem weight_le_count_labels (label : Nat) (value : Value) (once : value.Everywhere NamedOnce) :
    value.weight label ≤ value.labels.count label := by
  induction value using treeInduction with
  | list items ih =>
    have each := everywhere_list.1 once
    rw [weight_list]
    clear once
    induction items with
    | nil => exact Nat.zero_le _
    | cons item rest further =>
      have first := ih item List.mem_cons_self (each item List.mem_cons_self)
      have others := further
        (fun other member => ih other (List.mem_cons_of_mem _ member))
        (fun other member => each other (List.mem_cons_of_mem _ member))
      simp only [labels, labelsItems, List.count_append, List.map_cons, List.sum_cons] at others ⊢
      split <;> omega
  | object value own is ih =>
    obtain ⟨named, inside⟩ := (everywhere_object is).1 once
    rw [labels_of_label? is, List.count_cons]
    cases value with
    | node own kind fields =>
      have below := sum_weights_le (mayHold kind) fun field member =>
        ih field member (inside field member)
      rw [weight_node rfl named, is]
      simp only [Option.some.injEq, beq_iff_eq]
      omega
    | record own fields =>
      exact Nat.zero_le _
    | _ => cases is
  | leaf value plain =>
    rw [weight_of_no_nodes (by cases plain <;> rfl)]
    exact Nat.zero_le _

/-! ### Labels that are drawn -/

/-- The value has no label twice, and its labels lie between the bounds. -/
structure Drawn (value : Value) (first last : Nat) : Prop where
  named : value.Everywhere NamedOnce
  once : value.labels.Nodup
  within : ∀ label ∈ value.labels, first ≤ label ∧ label < last

/-- Building draws labels for all that is built. -/
def Draws (build : Fresh Value) : Prop :=
  ∀ next, next ≤ (build.run next).2 ∧ (build.run next).1.Drawn next (build.run next).2

variable {inner : Value}

/-- A node with a label of its own, of which one attribute has been built before
and the others hold no objects. -/
theorem drawn_node {next : Nat} (most : first ≤ next) (built : inner.Drawn first next) (named :
    (Members.names fields).Nodup) (each : ∀ field ∈ fields, field.2.Everywhere NamedOnce) (are :
    labelsFields fields = inner.labels) : (Value.node next kind fields).Drawn first (next + 1) := by
  have labels_ : (Value.node next kind fields).labels = next :: inner.labels := by
    rw [labels, are]
  refine ⟨(everywhere_object rfl).2 ⟨named, each⟩, ?_, ?_⟩
  · rw [labels_, List.nodup_cons]
    refine ⟨fun member => ?_, built.once⟩
    have bound := (built.within next member).2
    omega
  · intro label member
    rw [labels_] at member
    rcases List.mem_cons.1 member with rfl | inside
    · omega
    · have bound := built.within label inside
      omega

theorem drawn_of_plain (plain : value.Plain) (next : Nat) : value.Drawn next next := by
  have none_ := labels_of_plain plain
  exact ⟨everywhere_leaf plain, by simp [none_], by simp [none_]⟩

theorem draws_literalNode (isPlain : value.Plain) (raw : String) :
    Draws (literalNode value raw) := by
  intro next
  have plain := drawn_of_plain isPlain next
  refine ⟨Nat.le_succ next, drawn_node (Nat.le_refl _) plain
    (show ["value", "raw"].Nodup by decide) ?_ ?_⟩
  · simp only [List.mem_cons, List.not_mem_nil, or_false, forall_eq_or_imp, forall_eq]
    exact ⟨plain.named, everywhere_leaf (.text _)⟩
  · simp [labelsFields, labels]

theorem draws_identifierNode (name : String) : Draws (identifierNode name) := by
  intro next
  have plain := drawn_of_plain (.text name) next
  refine ⟨Nat.le_succ next, drawn_node (Nat.le_refl _) plain (show ["name"].Nodup by decide) ?_ ?_⟩
  · simpa using plain.named
  · simp [labelsFields]

theorem draws_minusNode {build : Fresh Value} (draws : Draws build) :
    Draws (build >>= minusNode) := by
  intro next
  obtain ⟨most, built⟩ := draws next
  refine ⟨Nat.le_succ_of_le most, drawn_node most built
    (show ["operator", "argument", "prefix"].Nodup by decide) ?_ ?_⟩
  · simp only [List.mem_cons, List.not_mem_nil, or_false, forall_eq_or_imp, forall_eq]
    exact ⟨everywhere_leaf (.text _), built.named, everywhere_leaf (.bool _)⟩
  · simp only [labelsFields, labels, List.nil_append, List.append_nil]
    rfl

theorem draws_stringNode (text : String) : Draws (stringNode text) := draws_literalNode (.text _) _

theorem draws_magnitudeNode (magnitude : Double) : Draws (magnitudeNode magnitude) := by
  unfold magnitudeNode
  split
  · exact draws_identifierNode _
  · exact draws_literalNode (.number _) _

theorem draws_numberNode (value : Double) : Draws (numberNode value) := by
  unfold numberNode
  split
  · exact draws_identifierNode _
  · split
    · exact draws_minusNode (draws_magnitudeNode _)
    · exact draws_magnitudeNode _

theorem Drawn.weight_le_one (drawn : value.Drawn first last) (label : Nat) :
    value.weight label ≤ 1 :=
  Nat.le_trans (weight_le_count_labels label value drawn.named)
    (List.nodup_iff_count_le_one.1 drawn.once label)

theorem Drawn.weight_eq_zero (drawn : value.Drawn first last) {label : Nat}
    (outside : label < first ∨ last ≤ label) : value.weight label = 0 := by
  have atMost := weight_le_count_labels label value drawn.named
  have absent : label ∉ value.labels := fun member => by
    have bound := drawn.within label member
    omega
  rw [List.count_eq_zero_of_not_mem absent] at atMost
  omega

/-! ## Writes -/

/-- The weight of a value as an item of a list. -/
def itemWeight (label : Nat) (value : Value) : Nat :=
  if value.isNode then value.weight label else 0

theorem itemWeight_le (label : Nat) (value : Value) : value.itemWeight label ≤ value.weight label := by
  unfold itemWeight
  split <;> omega

theorem itemWeight_of_label? {own : Nat} (is : value.label? = some own) (label : Nat) :
    value.itemWeight label = value.weight label := by
  cases value with
  | node own kind fields => rfl
  | record own fields => rfl
  | _ => cases is

variable {held : Value}

theorem sum_put (label : Nat) (found : Members.get? fields name = some held) (chosen : String →
    Bool) (new : Value) : ((Members.put fields name new).map fun field => if chosen field.1 then
    field.2.weight label else 0).sum + (if chosen name then held.weight label else 0) = (fields.map
    fun field => if chosen field.1 then field.2.weight label else 0).sum + (if chosen name then
    new.weight label else 0) := by
  obtain ⟨before, after, rfl, puts⟩ := Members.exists_split found
  simp only [puts, List.map_append, List.map_cons, List.sum_append, List.sum_cons]
  omega

theorem sum_set (label : Nat) {items : List Value} {position : Nat} (found : items[position]? = some
    old) (new : Value) : ((items.set position new).map (itemWeight label)).sum + old.itemWeight
    label = (items.map (itemWeight label)).sum + new.itemWeight label := by
  induction items generalizing position with
  | nil => cases found
  | cons item rest ih =>
    cases position with
    | zero =>
      cases found
      simp only [List.set_cons_zero, List.map_cons, List.sum_cons]
      omega
    | succ position =>
      have further := ih found
      simp only [List.set_cons_succ, List.map_cons, List.sum_cons]
      omega

/-- Writing an attribute exchanges the weight of what it held for that of what is
written, or changes no weight. -/
theorem weight_setAttr (once : (Members.names value.fields).Nodup) (found : Members.get?
    value.fields name = some held) : ∃ times ≤ 1, ∀ new label, (value.setAttr name new).weight label
    + times * held.weight label = value.weight label + times * new.weight label := by
  have inSlot : value.slot? ⟨name, none⟩ = some held := found
  have isObject := isObject_of_slot? inSlot
  cases is : value.kind? with
  | some kind =>
    refine ⟨if mayHold kind name then 1 else 0, by split <;> omega, fun new label => ?_⟩
    have stays : (value.setAttr name new).kind? = some kind := by rw [kind?_setAttr, is]
    have names_ : (Members.names (value.setAttr name new).fields).Nodup := by
      rw [fields_setAttr isObject]
      exact Members.nodup_names_put once name new
    have sums := sum_put label found (mayHold kind) new
    rw [weight_node stays names_, weight_node is once, label?_setAttr, fields_setAttr isObject]
    by_cases holds : mayHold kind name
    · simp only [holds, ↓reduceIte] at sums ⊢
      omega
    · simp only [holds, Bool.false_eq_true, ↓reduceIte] at sums ⊢
      omega
  | none =>
    have noNodes (other : Value) (isObject : other.isObject) (none_ : other.kind? = none) :
        other.slotNodes = [] := by
      cases other with
      | node own kind fields => cases none_
      | record own fields => rfl
      | _ => cases isObject
    refine ⟨0, by omega, fun new label => ?_⟩
    rw [weight_of_no_nodes (noNodes value isObject is), weight_of_no_nodes (noNodes _ _ _)]
    · omega
    · cases value <;> first | rfl | cases isObject
    · rw [kind?_setAttr, is]

theorem weight_putSlot_le {slot : Slot} (once : (Members.names value.fields).Nodup)
    (found : value.slot? slot = some old) : ∃ times ≤ 1, ∀ new label,
      (value.putSlot slot new).weight label + times * old.itemWeight label ≤
        value.weight label + times * new.weight label := by
  rcases attr_of_slot? found with ⟨index, held⟩ | ⟨position, items, index, item, held⟩
  · obtain ⟨times, most, exchanges⟩ := weight_setAttr once held
    refine ⟨times, most, fun new label => ?_⟩
    have exchanged := exchanges new label
    have less := Nat.mul_le_mul_left times (itemWeight_le label old)
    rw [putSlot, index]
    dsimp only
    omega
  · obtain ⟨times, most, exchanges⟩ := weight_setAttr once held
    refine ⟨times, most, fun new label => ?_⟩
    have exchanged := exchanges (.list (items.set position new)) label
    have isList : value.attr slot.field = .list items := by rw [attr, held]; rfl
    have sums := sum_set label item new
    have less := itemWeight_le label new
    rw [weight_list, weight_list] at exchanged
    change _ + times * (items.map (itemWeight label)).sum =
      _ + times * ((items.set position new).map (itemWeight label)).sum at exchanged
    rw [putSlot, index, isList]
    dsimp only
    obtain rfl | rfl : times = 0 ∨ times = 1 := by omega
    · omega
    · omega

/-- A write at an address takes out at least the weight of the node that stood
there and puts in at most the weight of what is written. -/
theorem weight_putAt_le (named : value.Everywhere NamedOnce) (found : value.at? address = some old)
    : ∃ times ≤ 1, ∀ new label, (value.putAt address new).weight label + times * old.itemWeight
    label ≤ value.weight label + times * new.weight label := by
  induction address generalizing value with
  | nil =>
    cases found
    refine ⟨1, Nat.le_refl _, fun new label => ?_⟩
    have less := itemWeight_le label old
    rw [putAt]
    omega
  | cons slot rest ih =>
    obtain ⟨inner, inSlot, below⟩ := Option.bind_eq_some_iff.1 found
    obtain ⟨own, is⟩ : ∃ own, value.label? = some own := by
      have isObject := isObject_of_slot? inSlot
      cases value <;> first | exact ⟨_, rfl⟩ | cases isObject
    have inside : inner.Everywhere NamedOnce := within_slot? (within_of_everywhere named) inSlot
    obtain ⟨outer, most, exchanges⟩ := weight_putSlot_le ((everywhere_object is).1 named).1 inSlot
    cases rest with
    | nil =>
      cases below
      refine ⟨outer, most, fun new label => ?_⟩
      rw [putAt, inSlot]
      exact exchanges new label
    | cons next further =>
      obtain ⟨times, fewer, deeper⟩ := ih inside below
      obtain ⟨innerLabel, isInner⟩ : ∃ own, inner.label? = some own := by
        obtain ⟨_, held, _⟩ := Option.bind_eq_some_iff.1 below
        have isObject := isObject_of_slot? held
        cases inner <;> first | exact ⟨_, rfl⟩ | cases isObject
      -- Both writes count, or neither does.
      refine ⟨outer * times, Nat.mul_le_mul most fewer, fun new label => ?_⟩
      have above := exchanges (inner.putAt (next :: further) new) label
      have under := deeper new label
      rw [itemWeight_of_label? isInner] at above
      rw [putAt, inSlot]
      dsimp only
      obtain rfl | rfl : outer = 0 ∨ outer = 1 := by omega
      · omega
      · simp only [Nat.one_mul] at above ⊢
        omega

theorem putAt_of_absent (absent : value.at? address = none) (new : Value) :
    value.putAt address new = value := by
  induction address generalizing value with
  | nil => cases absent
  | cons slot rest ih =>
    rw [putAt]
    cases held : value.slot? slot with
    | none => rfl
    | some inner =>
      rw [at?, held] at absent
      dsimp only
      rw [ih absent, putSlot_self held]

/-- What may be written in the place of a value: a label is there no more often
than before, or it is drawn for the write. -/
structure Grafts (old new : Value) (first last : Nat) : Prop where
  named : new.Everywhere NamedOnce
  used : ∀ label ∈ new.labels, label < last
  drawn : ∀ label, new.weight label ≤ old.itemWeight label ∨
    (new.weight label ≤ 1 ∧ first ≤ label ∧ label < last)

theorem Drawn.grafts {new : Value} (drawn : new.Drawn first last) (old : Value) :
    old.Grafts new first last := by
  refine ⟨drawn.named, fun label member => (drawn.within label member).2, fun label => ?_⟩
  by_cases inside : first ≤ label ∧ label < last
  · exact .inr ⟨drawn.weight_le_one label, inside⟩
  · left
    rw [drawn.weight_eq_zero (by omega)]
    exact Nat.zero_le _

end Value

namespace Document

/-- No two of the nodes that are reached from the root share a label. The labels
of the document have been drawn, and no object has an attribute name twice. -/
structure Distinct (document : Document) : Prop where
  root : document.tree.isNode = true
  named : document.tree.Everywhere Value.NamedOnce
  once : (document.tree.nodes.map Value.label?).Nodup
  used : ∀ label ∈ document.tree.labels, label < document.next

variable {document : Document}

theorem Distinct.mono (distinct : document.Distinct) (most : document.next ≤ last) : Distinct
    ⟨document.tree, last⟩ := ⟨distinct.root, distinct.named, distinct.once, fun label member =>
    Nat.lt_of_lt_of_le (distinct.used label member) most⟩

theorem Distinct.weight_eq_zero (distinct : document.Distinct) {inner : Value}
    (found : document.tree.at? address = some inner) {label : Nat} (fresh : document.next ≤ label) :
    inner.weight label = 0 := by
  have below := Value.everywhere_at? (Value.everywhere_iff_labels.2 distinct.used) found
  have absent : label ∉ inner.labels := fun member =>
    Nat.not_lt_of_le fresh (Value.everywhere_iff_labels.1 below label member)
  have atMost := Value.weight_le_count_labels label inner
    (Value.everywhere_at? distinct.named found)
  rw [List.count_eq_zero_of_not_mem absent] at atMost
  omega

theorem nodup_of_weights {tree : Value} (root : tree.isNode)
    (weights : ∀ label, tree.weight label ≤ 1) : (tree.nodes.map Value.label?).Nodup := by
  refine List.nodup_iff_count_le_one.2 fun entry => ?_
  cases entry with
  | some label => exact Value.weight_of_isNode root ▸ weights label
  | none =>
    have absent : none ∉ tree.nodes.map Value.label? := fun member => by
      obtain ⟨node, inside, noLabel⟩ := List.mem_map.1 member
      obtain ⟨label, is⟩ := Value.exists_label?_of_isNode (Value.isNode_of_mem_nodes root inside)
      rw [is] at noLabel
      cases noLabel
    rw [List.count_eq_zero_of_not_mem absent]
    exact Nat.zero_le 1

theorem Distinct.graft (distinct : document.Distinct) {new : Value} (most : document.next ≤ last)
    (rooted : address = [] → new.isNode) (grafts : Value.Grafts ((document.tree.at? address).getD
    .null) new document.next last) : Distinct ⟨document.tree.putAt address new, last⟩ := by
  cases found : document.tree.at? address with
  | none =>
    rw [Value.putAt_of_absent found]
    exact distinct.mono most
  | some old =>
    rw [found, Option.getD_some] at grafts
    have rootNow : (document.tree.putAt address new).isNode := by
      cases address with
      | nil => exact rooted rfl
      | cons slot rest =>
        obtain ⟨kind, is⟩ := Value.isNode_iff_kind?.1 distinct.root
        refine Value.isNode_iff_kind?.2 ⟨kind, ?_⟩
        rw [Value.kind?_putAt (List.cons_ne_nil _ _), is]
    refine ⟨rootNow, Value.everywhere_putAt distinct.named grafts.named address, ?_, ?_⟩
    · obtain ⟨times, atMost, exchanges⟩ := Value.weight_putAt_le distinct.named found
      refine nodup_of_weights rootNow fun label => ?_
      have exchanged := exchanges new label
      have before : document.tree.weight label ≤ 1 :=
        Value.weight_of_isNode distinct.root ▸ List.nodup_iff_count_le_one.1 distinct.once _
      rcases grafts.drawn label with fewer | ⟨single, notBefore, _⟩
      · have less := Nat.mul_le_mul_left times fewer
        dsimp only
        omega
      · have found : document.tree.at? [] = some document.tree := rfl
        have absent := distinct.weight_eq_zero found notBefore
        have less := Nat.mul_le_mul atMost single
        dsimp only
        omega
    · refine Value.everywhere_iff_labels.1 (Value.everywhere_putAt ?_ ?_ address)
      · exact Value.everywhere_iff_labels.2 fun label member =>
          Nat.lt_of_lt_of_le (distinct.used label member) most
      · exact Value.everywhere_iff_labels.2 grafts.used

end Document

end Unravel
