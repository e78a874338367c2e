import Mathlib.Data.List.Forall2
import Unravel.Pass.Strings.Decoder
import Unravel.Proofs.Scope.WellFormed
import Unravel.Proofs.Tree.Labels

/-!
Contract: trees in which some calls have become strings.

`Abridged` relates a value to what it is once string literals stand in the place
of some of its calls. It passes to attributes and items (`Abridged.attr`,
`Abridged.items`), is kept by a further replacement (`Abridged.putAt`), and objects
are abridged ones with the same labels (`Abridged.exists_object`).
-/

namespace Unravel.Value

variable {new held : Value} {slot : Slot}

mutual

/-- The second value is the first with string literals in the place of some
calls; the labels of the literals start at a bound. -/
def Abridged (bound : Nat) : Value → Value → Prop
  | .list items, other => ∃ others, other = .list others ∧ AbridgedItems bound items others
  | .record label fields, other =>
    ∃ others, other = .record label others ∧ AbridgedFields bound fields others
  | .node label kind fields, other =>
    (∃ others, other = .node label kind others ∧ AbridgedFields bound fields others) ∨
      kind = "CallExpression" ∧ ∃ own text, bound ≤ own ∧ other = ((stringNode text).run own).1
  | value, other => other = value

def AbridgedItems (bound : Nat) : List Value → List Value → Prop
  | [], [] => True
  | item :: rest, other :: others => Abridged bound item other ∧ AbridgedItems bound rest others
  | _, _ => False

def AbridgedFields (bound : Nat) : List (String × Value) → List (String × Value) → Prop
  | [], [] => True
  | (name, value) :: rest, (otherName, other) :: others =>
    otherName = name ∧ Abridged bound value other ∧ AbridgedFields bound rest others
  | _, _ => False

end

variable {bound : Nat} {value other : Value}

theorem abridgedItems_iff {items others : List Value} :
    AbridgedItems bound items others ↔ List.Forall₂ (Abridged bound) items others := by
  induction items generalizing others with
  | nil => cases others <;> simp [AbridgedItems]
  | cons item rest ih =>
    cases others <;> simp [AbridgedItems, ih]

/-- A field under the same name, with an abridged value. -/
def AbridgedField (bound : Nat) (field other : String × Value) : Prop :=
  other.1 = field.1 ∧ Abridged bound field.2 other.2

theorem abridgedFields_iff {fields others : List (String × Value)} :
    AbridgedFields bound fields others ↔ List.Forall₂ (AbridgedField bound) fields others := by
  induction fields generalizing others with
  | nil => cases others <;> simp [AbridgedFields]
  | cons field rest ih =>
    cases others <;> simp [AbridgedFields, AbridgedField, ih, and_assoc]

/-- A string literal in the place of a call. -/
structure Replaces (bound : Nat) (value other : Value) : Prop where
  isCall : value.isKind "CallExpression" = true
  isString : ∃ own text, bound ≤ own ∧ other = ((stringNode text).run own).1

/-- The same object, list or leaf, with parts that are abridged. -/
structure Resembles (bound : Nat) (value other : Value) : Prop where
  label : other.label? = value.label?
  kind : other.kind? = value.kind?
  fields : List.Forall₂ (AbridgedField bound) value.fields other.fields
  items : List.Forall₂ (Abridged bound) value.items other.items
  isList : other.isList = value.isList
  leaf : value.label? = none → value.isList = false → other = value

theorem Abridged.shape (abridged : Abridged bound value other) :
    Replaces bound value other ∨ Resembles bound value other := by
  cases value with
  | list items =>
    obtain ⟨others, rfl, parts⟩ := abridged
    exact .inr ⟨rfl, rfl, .nil, abridgedItems_iff.1 parts, rfl, fun _ isNot => nomatch isNot⟩
  | record label fields =>
    obtain ⟨others, rfl, parts⟩ := abridged
    exact .inr ⟨rfl, rfl, abridgedFields_iff.1 parts, .nil, rfl, fun isNone => nomatch isNone⟩
  | node label kind fields =>
    rcases abridged with ⟨others, rfl, parts⟩ | ⟨rfl, isString⟩
    · exact .inr ⟨rfl, rfl, abridgedFields_iff.1 parts, .nil, rfl, fun isNone => nomatch isNone⟩
    · exact .inl ⟨rfl, isString⟩
  | null | bool _ | number _ | text _ =>
    subst abridged
    exact .inr ⟨rfl, rfl, .nil, .nil, rfl, fun _ _ => rfl⟩

theorem Resembles.abridged (resembles : Resembles bound value other) :
    Abridged bound value other := by
  obtain ⟨sameLabel, sameKind, fields, items, isList, leaf⟩ := resembles
  cases value with
  | list items =>
    cases other with
    | list others =>
      exact ⟨others, rfl, abridgedItems_iff.2 items⟩
    | null | bool _ | number _ | text _ | record _ _ | node _ _ _ => cases isList
  | record label _ =>
    cases other with
    | record _ others =>
      cases sameLabel
      exact ⟨others, rfl, abridgedFields_iff.2 fields⟩
    | node _ _ _ => cases sameKind
    | null | bool _ | number _ | text _ | list _ => cases sameLabel
  | node label kind _ =>
    cases other with
    | node _ _ others =>
      cases sameLabel
      cases sameKind
      exact .inl ⟨others, rfl, abridgedFields_iff.2 fields⟩
    | null | bool _ | number _ | text _ | list _ | record _ _ => cases sameKind
  | null | bool _ | number _ | text _ =>
    exact leaf rfl rfl

theorem Replaces.abridged (replaces : Replaces bound value other) : Abridged bound value other := by
  obtain ⟨isCall, isString⟩ := replaces
  cases value with
  | node label kind fields =>
    exact .inr ⟨Option.some.inj (kind?_of_isKind isCall), isString⟩
  | null | bool _ | number _ | text _ | list _ | record _ _ => cases isCall

theorem Resembles.of_fields
    (sameFields : List.Forall₂ (AbridgedField bound) value.fields other.fields)
    (isObject : value.isObject) (label : other.label? = value.label?)
    (kind : other.kind? = value.kind?) : Resembles bound value other := by
  have noItems {object : Value} (is : object.isObject) :
      object.items = [] ∧ object.isList = false := by
    cases object <;> first | exact ⟨rfl, rfl⟩ | cases is
  have otherObject : other.isObject := by rw [Value.isObject, label]; exact isObject
  obtain ⟨items, isList⟩ := noItems isObject
  obtain ⟨otherItems, otherIsList⟩ := noItems otherObject
  refine ⟨label, kind, sameFields, ?_, otherIsList.trans isList.symm, fun isNone => ?_⟩
  · rw [items, otherItems]
    exact .nil
  · rw [Value.isObject, isNone] at isObject
    cases isObject

theorem abridged_refl (bound : Nat) (value : Value) : Abridged bound value value := by
  induction value using treeInduction with
  | list items ih =>
    exact ⟨items, rfl, abridgedItems_iff.2 (List.forall₂_same.2 ih)⟩
  | object value own is ih =>
    apply Resembles.abridged
    apply Resembles.of_fields _ (by rw [isObject, is]; rfl) rfl rfl
    exact List.forall₂_same.2 fun field member => ⟨rfl, ih field member⟩
  | leaf value plain => cases plain <;> simp only [Abridged]

/-! ## Attributes, items and slots -/

section Fields

variable {fields others : List (String × Value)} {name : String}

theorem abridged_get? (parts : List.Forall₂ (AbridgedField bound) fields others) : (Members.get?
    fields name = none ∧ Members.get? others name = none) ∨ ∃ held new, Members.get? fields name =
    some held ∧ Members.get? others name = some new ∧ Abridged bound held new := by
  induction parts with
  | nil => exact .inl ⟨rfl, rfl⟩
  | @cons field new _ _ first _ ih =>
    rw [Members.get?, Members.get?, first.1]
    by_cases here : field.1 = name
    · rw [if_pos here, if_pos here]
      exact .inr ⟨_, _, rfl, rfl, first.2⟩
    · rw [if_neg here, if_neg here]
      exact ih

theorem abridged_put (parts : List.Forall₂ (AbridgedField bound) fields others)
    (found : Members.get? fields name = some held) (abridged : Abridged bound held new) :
    List.Forall₂ (AbridgedField bound) fields (Members.put others name new) := by
  induction parts with
  | nil => cases found
  | @cons field other _ _ first rest ih =>
    rw [Members.get?] at found
    rw [Members.put, first.1]
    by_cases here : field.1 = name
    · rw [if_pos here] at found ⊢
      cases found
      exact .cons ⟨rfl, abridged⟩ rest
    · rw [if_neg here] at found ⊢
      exact .cons ⟨rfl, first.2⟩ (ih found)

end Fields

theorem abridged_set {items others : List Value} {position : Nat} (parts : List.Forall₂ (Abridged
    bound) items others) (found : items[position]? = some held) (abridged : Abridged bound held new)
    : List.Forall₂ (Abridged bound) items (others.set position new) := by
  induction parts generalizing position with
  | nil => cases found
  | @cons item other _ _ first rest ih =>
    cases position with
    | zero =>
      cases found
      exact .cons abridged rest
    | succ position => exact .cons first (ih found)

theorem Resembles.attr (resembles : Resembles bound value other) (name : String) :
    Abridged bound (value.attr name) (other.attr name) := by
  unfold Value.attr
  rcases abridged_get? resembles.fields with
    ⟨isNone, otherNone⟩ | ⟨held, new, isHeld, isNew, abridged⟩
  · rw [isNone, otherNone]
    exact abridged_refl bound _
  · rw [isHeld, isNew]
    exact abridged

theorem Abridged.items (abridged : Abridged bound value other) :
    List.Forall₂ (Abridged bound) value.items other.items := by
  rcases abridged.shape with replaces | resembles
  · obtain ⟨isCall, own, text, _, rfl⟩ := replaces
    cases value with
    | node _ _ _ => exact .nil
    | null | bool _ | number _ | text _ | list _ | record _ _ => cases isCall
  · exact resembles.items

theorem Resembles.slot? (resembles : Resembles bound value other) (found : other.slot? slot = some
    new) : ∃ held, value.slot? slot = some held ∧ Abridged bound held new := by
  obtain ⟨name, index⟩ := slot
  cases index with
  | none =>
    have isField : Members.get? other.fields name = some new := found
    rcases abridged_get? resembles.fields with ⟨_, isNone⟩ | ⟨held, _, isHeld, isNew, abridged⟩
    · cases isNone.symm.trans isField
    · cases isNew.symm.trans isField
      exact ⟨held, isHeld, abridged⟩
  | some position =>
    have isItem : (other.attr name).items[position]? = some new := found
    have parts := (resembles.attr name).items
    obtain ⟨within, is⟩ := List.getElem?_eq_some_iff.1 isItem
    have withinHeld : position < (value.attr name).items.length := parts.length_eq ▸ within
    refine ⟨(value.attr name).items[position], List.getElem?_eq_getElem withinHeld, ?_⟩
    rw [← is]
    exact parts.get withinHeld within

theorem Resembles.putSlot (resembles : Resembles bound value other)
    (found : value.slot? slot = some held) (abridged : Abridged bound held new) :
    Resembles bound value (other.putSlot slot new) := by
  have isObject := isObject_of_slot? found
  have otherObject : other.isObject := by
    rw [Value.isObject, resembles.label]
    exact isObject
  apply Resembles.of_fields _ isObject ((label?_putSlot _ _ _).trans resembles.label)
    ((kind?_putSlot _ _ _).trans resembles.kind)
  rcases attr_of_slot? found with ⟨index, isField⟩ | ⟨position, items, index, isItem, isField⟩
  · simp only [Value.putSlot, index]
    rw [fields_setAttr otherObject]
    exact abridged_put resembles.fields isField abridged
  · rcases abridged_get? resembles.fields with ⟨isNone, _⟩ | ⟨whole, written, isWhole, isNew, parts⟩
    · cases isNone.symm.trans isField
    · cases isWhole.symm.trans isField
      obtain ⟨others, rfl, each⟩ := parts
      have isAttr : other.attr slot.field = .list others := by rw [Value.attr, isNew]; rfl
      simp only [Value.putSlot, index, isAttr]
      rw [fields_setAttr otherObject]
      apply abridged_put resembles.fields isField
      exact ⟨_, rfl, abridgedItems_iff.2 (abridged_set (abridgedItems_iff.1 each) isItem abridged)⟩

/-! ## Kinds -/

theorem Abridged.isKind (abridged : Abridged bound value other) {kind : String} (notCall : kind ≠
    "CallExpression") (notLiteral : kind ≠ "Literal") : other.isKind kind = value.isKind kind := by
  rcases abridged.shape with replaces | resembles
  · obtain ⟨isCall, own, text, _, rfl⟩ := replaces
    rw [isKind_eq_false (kind?_of_isKind isCall) (Ne.symm notCall)]
    exact isKind_eq_false (show _ = some "Literal" from rfl) (Ne.symm notLiteral)
  · rw [Value.isKind, Value.isKind, resembles.kind]

theorem Abridged.resembles (abridged : Abridged bound value other) {kind : String}
    (is : value.isKind kind) (notCall : kind ≠ "CallExpression") : Resembles bound value other := by
  rcases abridged.shape with replaces | resembles
  · have isCall := replaces.isCall
    rw [isKind_eq_false (kind?_of_isKind is) notCall] at isCall
    cases isCall
  · exact resembles

theorem Abridged.attr (abridged : Abridged bound value other) {kind : String} (is : value.isKind
    kind) (notCall : kind ≠ "CallExpression") (name : String) : Abridged bound (value.attr name)
    (other.attr name) := (abridged.resembles is notCall).attr name

/-! ## A further replacement -/

/-- Nothing below a string literal is a node. -/
theorem not_at?_stringNode {rest : Address} {own : Nat} {text : String} {inner : Value}
    (isNode : inner.isNode)
    (found : ((stringNode text).run own).1.at? (slot :: rest) = some inner) : False := by
  obtain ⟨held, inSlot, below⟩ := Option.bind_eq_some_iff.1 found
  have inside := mem_innerObjects_of_slot? inSlot
    (mem_objects_of_at? below (mem_objects_self (isObject_of_isNode isNode)))
  cases (show inner ∈ [] from inside)

theorem Abridged.putAt (abridged : Abridged bound value other) {address : Address} {call : Value}
    (found : other.at? address = some call) (isCall : call.isKind "CallExpression")
    {own : Nat} (fresh : bound ≤ own) (text : String) :
    Abridged bound value (other.putAt address ((stringNode text).run own).1) := by
  induction address generalizing value other with
  | nil =>
    cases found
    refine Replaces.abridged ⟨?_, own, text, fresh, rfl⟩
    rcases abridged.shape with replaces | resembles
    · exact replaces.isCall
    · rw [Value.isKind, ← resembles.kind]
      exact isCall
  | cons slot rest ih =>
    rcases abridged.shape with ⟨_, _, _, _, rfl⟩ | resembles
    · exact (not_at?_stringNode (isNode_of_kind? (kind?_of_isKind isCall)) found).elim
    · obtain ⟨new, inSlot, below⟩ := Option.bind_eq_some_iff.1 found
      obtain ⟨held, isHeld, inner⟩ := resembles.slot? inSlot
      simp only [Value.putAt, inSlot]
      exact (resembles.putSlot isHeld (ih inner below)).abridged

/-! ## Objects -/

theorem exists_mem_of_forall₂ {α β : Type} {relation : α → β → Prop} {left : List α}
    {right : List β} (parts : List.Forall₂ relation left right) {second : β}
    (member : second ∈ right) : ∃ first ∈ left, relation first second := by
  induction parts with
  | nil => cases member
  | @cons head other _ _ first _ ih =>
    rcases List.mem_cons.1 member with rfl | later
    · exact ⟨head, List.mem_cons_self, first⟩
    · obtain ⟨found, isFound, related⟩ := ih later
      exact ⟨found, List.mem_cons_of_mem _ isFound, related⟩

/-- The objects of an abridged tree with old labels are those of the tree itself,
abridged. -/
theorem Abridged.exists_object {label : Nat} {found : Value} (abridged : Abridged bound value other)
    (old : label < bound) (member : found ∈ other.objects) (isLabel : found.label? = some label) :
    ∃ object ∈ value.objects, object.label? = some label ∧ Abridged bound object found := by
  induction value using treeInduction generalizing other with
  | list items ih =>
    obtain ⟨others, rfl, parts⟩ := abridged
    rw [objects_list] at member
    obtain ⟨second, isSecond, inside⟩ := List.mem_flatMap.1 member
    obtain ⟨item, isItem, related⟩ := exists_mem_of_forall₂ (abridgedItems_iff.1 parts) isSecond
    obtain ⟨object, among, result⟩ := ih item isItem related inside
    exact ⟨object, mem_objects_of_item isItem among, result⟩
  | object value own is ih =>
    rcases abridged.shape with ⟨_, newLabel, text, fresh, rfl⟩ | resembles
    · cases List.mem_singleton.1 (show found ∈ [_] from member)
      cases isLabel
      omega
    · rw [objects_of_label? (resembles.label.trans is)] at member
      rcases List.mem_cons.1 member with rfl | below
      · exact ⟨value, mem_objects_self (by simp [isObject, is]),
          resembles.label.symm.trans isLabel, abridged⟩
      · obtain ⟨second, isSecond, inside⟩ := List.mem_flatMap.1 below
        obtain ⟨field, isField, related⟩ := exists_mem_of_forall₂ resembles.fields isSecond
        obtain ⟨object, among, result⟩ := ih field isField related.2 inside
        exact ⟨object, mem_objects_of_inner (List.mem_flatMap.2 ⟨field, isField, among⟩), result⟩
  | leaf value plain =>
    obtain rfl : other = value := by cases plain <;> exact abridged
    rw [objects_of_leaf plain] at member
    cases member

end Unravel.Value
