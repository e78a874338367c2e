import Mathlib.Data.List.Count
import Unravel.Pass.Inlining.Substitution
import Unravel.Proofs.Tree.Copies

/-!
Contract: values that are made for a place.

What a substitution builds is like the expression with its arguments put in place,
and shares with the expression at most objects that are not reached from child to
child. The nodes that are reached have labels that were drawn for them, each of them
one of its own (`Remade`). Copies are remade throughout (`remakes_copy`); of a node
that is rebuilt it is enough that the parts that are built for it are all its children
(`Remakes.rebuild`).
-/

namespace Unravel.Value

variable {value result source : Value} {first last label : Nat}

/-- The value has been made for a place, of objects with labels drawn for them and of
objects of the source that are not reached. -/
structure Remade (source value : Value) (first last : Nat) : Prop where
  most : first ≤ last
  reached : ∀ child ∈ value.slotNodes, ∀ node ∈ child.nodes,
    ∃ label, node.label? = some label ∧ first ≤ label
  once : ∀ label, first ≤ label → value.labels.count label ≤ 1
  objects : ∀ object ∈ value.objects, object ∈ source.objects ∨
    ∃ label, object.label? = some label ∧ first ≤ label ∧ label < last

/-- Building gives the result, made for its place if the labels of the source are not
those that are drawn. -/
structure Remakes (source result : Value) (build : Fresh Value) : Prop where
  twins : ∀ next, result.Twins (build.run next).1
  remade : ∀ next, (∀ label ∈ source.labels, label < next) →
    source.Remade (build.run next).1 next (build.run next).2

theorem mem_labels_mono {larger : Value} (within : ∀ object ∈ source.objects,
    object ∈ larger.objects) (member : label ∈ source.labels) : label ∈ larger.labels := by
  obtain ⟨object, inside, is⟩ := mem_labels.1 member
  exact mem_labels.2 ⟨object, within object inside, is⟩

theorem Remakes.mono {larger : Value} {build : Fresh Value} (remakes : Remakes source result build)
    (within : ∀ object ∈ source.objects, object ∈ larger.objects) :
    Remakes larger result build where
  twins := remakes.twins
  remade next old := by
    have remade := remakes.remade next fun label member => old label (mem_labels_mono within member)
    exact ⟨remade.most, remade.reached, remade.once,
      fun object member => (remade.objects object member).imp_left (within object)⟩

/-- The labels of a remade value are old ones, or lie between the bounds. -/
theorem Remade.label_cases (remade : source.Remade value first last)
    (member : label ∈ value.labels) : label ∈ source.labels ∨ first ≤ label ∧ label < last := by
  obtain ⟨object, inside, is⟩ := mem_labels.1 member
  rcases remade.objects object inside with shared | ⟨own, isOwn, drawn⟩
  · exact .inl (mem_labels.2 ⟨object, shared, is⟩)
  · exact .inr (Option.some.inj (isOwn.symm.trans is) ▸ drawn)

/-! ## Copies -/

theorem mem_objects_of_slotNodes {child : Value} (isChild : child ∈ value.slotNodes) :
    ∀ node ∈ child.nodes, node ∈ value.objects := by
  have isNode : child.isNode := by
    cases value <;> simp_all [slotNodes, Value.isNode]
  have within : ∀ object ∈ child.objects, object ∈ value.objects := by
    intro object member
    cases value with
    | list items => exact mem_objects_of_item (List.mem_filter.1 isChild).1 member
    | node _ _ _ => exact List.mem_singleton.1 isChild ▸ member
    | null | bool _ | number _ | text _ | record _ _ => cases isChild
  intro node member
  obtain ⟨label, is⟩ := exists_label?_of_isNode (isNode_of_mem_nodes isNode member)
  exact within node (mem_objects_of_node member (mem_objects_self (by rw [isObject, is]; rfl)))

theorem remakes_copy (source value : Value) : Remakes source value value.copy where
  twins := twins_copy value
  remade next old := by
    obtain ⟨most, inTurn⟩ := inTurn_copy value next
    have drawn {object : Value} (member : object ∈ (value.copy.run next).1.objects) :
        ∃ label, object.label? = some label ∧ next ≤ label ∧ label < (value.copy.run next).2 := by
      obtain ⟨label, is⟩ := Option.isSome_iff_exists.1 (isObject_of_mem_objects member)
      have among : label ∈ (value.copy.run next).1.labels := mem_labels.2 ⟨object, member, is⟩
      rw [inTurn, List.mem_range'_1] at among
      exact ⟨label, is, by omega⟩
    refine ⟨most, fun child isChild node member => ?_, fun label _ => ?_,
      fun object member => .inr (drawn member)⟩
    · obtain ⟨label, is, notBefore, _⟩ := drawn (mem_objects_of_slotNodes isChild node member)
      exact ⟨label, is, notBefore⟩
    · rw [inTurn]
      exact List.nodup_iff_count_le_one.1 List.nodup_range' label

/-! ## Parts built one after the other -/

section Parts

variable {one other : Value} {middle : Nat} (old : ∀ label ∈ source.labels, label < first)

include old

theorem Remade.count_eq_zero {start : Nat} (remade : source.Remade value start last)
    (notOld : first ≤ label) (outside : label < start ∨ last ≤ label) :
    value.labels.count label = 0 := by
  refine List.count_eq_zero_of_not_mem fun member => ?_
  rcases remade.label_cases member with shared | drawn
  · have := old label shared
    omega
  · omega

/-- No label is drawn for both of two parts. -/
theorem Remade.count_add_le (inOne : source.Remade one first middle)
    (inOther : source.Remade other middle last) (notOld : first ≤ label) :
    one.labels.count label + other.labels.count label ≤ if label < last then 1 else 0 := by
  have most := inOther.most
  by_cases before : label < middle
  · rw [inOther.count_eq_zero old notOld (.inl before), if_pos (by omega)]
    exact inOne.once label notOld
  · rw [inOne.count_eq_zero old notOld (.inr (by omega)), Nat.zero_add]
    split
    · exact inOther.once label (by omega)
    · exact Nat.le_of_eq (inOther.count_eq_zero old notOld (.inr (by omega)))

end Parts

variable {one other : Value} {middle : Nat} {build : Fresh Value}

/-- What is reached through two parts has labels that were drawn. -/
theorem Remade.reached_of_parts (inOne : source.Remade one first middle)
    (inOther : source.Remade other middle last) {child : Value}
    (isChild : child ∈ one.slotNodes ∨ child ∈ other.slotNodes) {node : Value}
    (member : node ∈ child.nodes) : ∃ label, node.label? = some label ∧ first ≤ label := by
  rcases isChild with isChild | isChild
  · exact inOne.reached child isChild node member
  · obtain ⟨label, is, drawn⟩ := inOther.reached child isChild node member
    exact ⟨label, is, Nat.le_trans inOne.most drawn⟩

/-- So have the other objects of the parts, but for those of the source. -/
theorem Remade.objects_of_parts (inOne : source.Remade one first middle)
    (inOther : source.Remade other middle last) {bound : Nat} (least : last ≤ bound)
    {object : Value} (member : object ∈ one.objects ∨ object ∈ other.objects) :
    object ∈ source.objects ∨
      ∃ label, object.label? = some label ∧ first ≤ label ∧ label < bound := by
  have most := inOne.most
  have further := inOther.most
  rcases member with inside | inside
  · refine (inOne.objects object inside).imp_right ?_
    rintro ⟨label, is, drawn⟩
    exact ⟨label, is, by omega⟩
  · refine (inOther.objects object inside).imp_right ?_
    rintro ⟨label, is, drawn⟩
    exact ⟨label, is, by omega⟩

/-! ## Lists -/

theorem remakes_nil (source : Value) : Remakes source (.list []) (.list <$> pure []) where
  twins _ := rfl
  remade next _ := by
    refine ⟨Nat.le_refl next, fun child isChild => ?_, fun label _ => Nat.zero_le 1,
      fun object member => ?_⟩
    · cases isChild
    · cases member

theorem Remakes.cons {item : Value} {items : List Value} {others : Fresh (List Value)}
    (inItem : Remakes source item build)
    (inItems : Remakes source (.list items) (.list <$> others)) :
    Remakes source (.list (item :: items)) (.list <$> do
      let item ← build
      return item :: (← others)) where
  twins next := by
    have one : item.unlabelled = (build.run next).1.unlabelled := inItem.twins next
    have rest : (Value.list items).unlabelled =
      (Value.list (others.run (build.run next).2).1).unlabelled := inItems.twins (build.run next).2
    change (Value.list (item :: items)).unlabelled =
      (Value.list ((build.run next).1 :: (others.run (build.run next).2).1)).unlabelled
    simp only [unlabelled, unlabelledItems, list.injEq] at rest ⊢
    rw [one, rest]
  remade next old := by
    have inOne := inItem.remade next old
    have inOther := inItems.remade (build.run next).2 fun label member =>
      Nat.lt_of_lt_of_le (old label member) inOne.most
    refine ⟨Nat.le_trans inOne.most inOther.most, fun child isChild node member => ?_,
      fun label notOld => ?_, fun object member => ?_⟩
    · refine inOne.reached_of_parts inOther ?_ member
      obtain ⟨among, isNode⟩ := List.mem_filter.1 isChild
      rcases List.mem_cons.1 among with rfl | later
      · exact .inl (slotNodes_of_isNode isNode ▸ List.mem_singleton.2 rfl)
      · exact .inr (List.mem_filter.2 ⟨later, isNode⟩)
    · have atMost := inOne.count_add_le old inOther notOld
      change List.count label (labels _ ++ labels (.list _)) ≤ 1
      rw [List.count_append]
      refine Nat.le_trans atMost ?_
      split <;> omega
    · exact inOne.objects_of_parts inOther (Nat.le_refl _) (List.mem_append.1 member)

/-! ## Nodes -/

theorem count_labelsFields_put (label : Nat) (fields : Members Value) (name : String) (new : Value) :
    (labelsFields (Members.put fields name new)).count label ≤
      (labelsFields fields).count label + new.labels.count label := by
  induction fields with
  | nil => simp [Members.put, labelsFields]
  | cons field rest ih =>
    obtain ⟨key, held⟩ := field
    rw [Members.put]
    split
    · simp only [labelsFields, List.count_append]
      omega
    · simp only [labelsFields, List.count_append]
      omega

section Nodes

variable {own : Nat} {kind firstName secondName : String} {fields : Members Value}
  (children : Members.get? childTable kind = some [firstName, secondName])
  (differ : firstName ≠ secondName)

include children differ

/-- A node with a label of its own is remade if its children are. -/
theorem Remade.node (old : ∀ label ∈ (Value.node own kind fields).labels, label < first)
    (inOne : (Value.node own kind fields).Remade one first middle)
    (inOther : (Value.node own kind fields).Remade other middle last) :
    (Value.node own kind fields).Remade (((Value.node last kind fields).setAttr firstName
      one).setAttr secondName other) first (last + 1) := by
  have most := Nat.le_trans inOne.most inOther.most
  refine ⟨Nat.le_succ_of_le most, fun child isChild node member => ?_, fun label notOld => ?_,
    fun object member => ?_⟩
  · rw [slotNodes_of_isNode rfl, List.mem_singleton] at isChild
    rw [isChild, nodes_eq] at member
    rcases List.mem_cons.1 member with rfl | below
    · exact ⟨last, rfl, most⟩
    · obtain ⟨part, isPart, inside⟩ := List.mem_flatMap.1 below
      refine inOne.reached_of_parts inOther ?_ inside
      rw [children_of_kind rfl children] at isPart
      have isOther (name : String) : (((Value.node last kind fields).setAttr firstName one).setAttr
          secondName other).attr name = if secondName = name then other
            else ((Value.node last kind fields).setAttr firstName one).attr name :=
        attr_setAttr rfl _ _ _
      have isOne : ((Value.node last kind fields).setAttr firstName one).attr firstName = one := by
        rw [attr_setAttr rfl, if_pos rfl]
      simpa [isOther, isOne, differ.symm] using isPart
  · have atMost := inOne.count_add_le old inOther notOld
    have absent : (labelsFields fields).count label = 0 :=
      List.count_eq_zero_of_not_mem fun member =>
        Nat.not_lt_of_le notOld (old label (List.mem_cons_of_mem _ member))
    have firstPut := count_labelsFields_put label fields firstName one
    have secondPut := count_labelsFields_put label (Members.put fields firstName one) secondName other
    change (last :: labelsFields (Members.put (Members.put fields firstName one) secondName
      other)).count label ≤ 1
    rw [List.count_cons]
    by_cases isOwn : last = label
    · rw [isOwn, if_neg (Nat.lt_irrefl label)] at atMost
      rw [isOwn, beq_self_eq_true, if_pos rfl]
      omega
    · simp only [beq_eq_false_iff_ne.2 isOwn, Bool.false_eq_true, ↓reduceIte]
      split at atMost <;> omega
  · rw [objects_of_label? rfl] at member
    rcases List.mem_cons.1 member with rfl | below
    · exact .inr ⟨last, rfl, by omega⟩
    · rcases mem_innerObjects_setAttr below with before | inside
      · rcases mem_innerObjects_setAttr before with shared | inside
        · exact .inl (mem_objects_of_inner shared)
        · exact inOne.objects_of_parts inOther (Nat.le_succ last) (.inl inside)
      · exact inOne.objects_of_parts inOther (Nat.le_succ last) (.inr inside)

/-- A node of which all children are built is remade. -/
theorem Remakes.rebuild {inOne inOther : Fresh Value} (is : value.kind? = some kind)
    (remakesOne : Remakes value one inOne) (remakesOther : Remakes value other inOther) :
    Remakes value ((value.setAttr firstName one).setAttr secondName other)
      (value.rebuild firstName secondName inOne inOther) := by
  cases value with
  | node own _ fields =>
    cases is
    constructor
    · intro next
      have isOne := remakesOne.twins next
      have isOther := remakesOther.twins (inOne.run next).2
      change _ = (((Value.node _ kind fields).setAttr firstName _).setAttr secondName _).unlabelled
      rw [setAttr_unlabelled, setAttr_unlabelled, isOne, isOther, setAttr_unlabelled,
        setAttr_unlabelled]
      rfl
    · intro next old
      have isOne := remakesOne.remade next old
      exact .node children differ old isOne (remakesOther.remade (inOne.run next).2
        fun label member => Nat.lt_of_lt_of_le (old label member) isOne.most)
  | null | bool _ | number _ | text _ | list _ | record _ _ => cases is

end Nodes

end Unravel.Value
