import Unravel.Proofs.Scope.Lexical
import Unravel.Proofs.Tree.Copies

/-!
Contract: where a name is bound, seen from a place inside a value.

Owns: the names that the scope of a node binds (`binds`), and the place inside a
value of the scope that a name is bound in (`boundAt?`). Neither depends on
labels, so that a copy binds what the value binds, at the same places; and what
lies around a value plays no part as long as it opens no scope.
-/

namespace Unravel

variable {value other inner : Value}

namespace Value

mutual

theorem copy_unlabelled : (value : Value) → copy value.unlabelled = copy value
  | .list items => by
      rw [unlabelled, copy, copy, copyItems_unlabelled items]
  | .record label fields => by
      rw [unlabelled, copy, copy, copyFields_unlabelled fields]
  | .node label kind fields => by
      rw [unlabelled, copy, copy, copyFields_unlabelled fields]
  | .null => rfl
  | .bool _ => rfl
  | .number _ => rfl
  | .text _ => rfl

theorem copyItems_unlabelled : (items : List Value) →
    copyItems (unlabelledItems items) = copyItems items
  | [] => rfl
  | item :: rest => by
      rw [unlabelledItems, copyItems, copyItems, copy_unlabelled item, copyItems_unlabelled rest]

theorem copyFields_unlabelled : (fields : List (String × Value)) →
    copyFields (unlabelledFields fields) = copyFields fields
  | [] => rfl
  | (name, value) :: rest => by
      rw [unlabelledFields, copyFields, copyFields, copy_unlabelled value,
        copyFields_unlabelled rest]

end

theorem Twins.copy_eq (twins : value.Twins other) : copy other = copy value := by
  rw [← copy_unlabelled other, ← twins, copy_unlabelled]

end Value

namespace Lexical

open Value

/-- Whether the scope that a node opens binds a name. The nodes below it are told
apart by the labels of a copy of their own. -/
def binds (opener : Value) (name : Name) : Bool :=
  (declarations (opener.copy.run 0).1).any (Declaration.isOf 0 name)

/-- A block in a slot where it shares the scope of the node around it. -/
def isSharedSlot (value : Value) (slot : Slot) (inner : Value) : Bool := (value.isFunction ||
  value.isKind "CatchClause") && slot == ⟨"body", none⟩ && inner.isKind "BlockStatement"

/-- The place of the innermost scope that binds a name, among the nodes from a
value down to an address. The value itself may share the scope around it. -/
def boundAt? (name : Name) (shared : Bool) (value : Value) : Address → Option Address
  | [] => if !shared && value.createsScope && binds value name then some [] else none
  | slot :: rest =>
    match (value.slot? slot).bind fun inner =>
      boundAt? name (isSharedSlot value slot inner) inner rest with
    | some place => some (slot :: place)
    | none => if !shared && value.createsScope && binds value name then some [] else none

theorem binds_congr (twins : value.Twins other) (name : Name) :
    binds other name = binds value name := by
  unfold binds
  rw [twins.copy_eq]

theorem createsScope_congr (twins : value.Twins other) :
    other.createsScope = value.createsScope := by
  unfold createsScope scopeKind?
  rw [twins.kind?]

theorem isSharedSlot_congr {twin : Value} (twins : value.Twins other) (below : inner.Twins twin)
    (slot : Slot) : isSharedSlot other slot twin = isSharedSlot value slot inner := by
  unfold isSharedSlot isFunction isKind
  rw [twins.kind?, below.kind?]

theorem boundAt?_congr (twins : value.Twins other) (name : Name) (shared : Bool) (address : Address)
    : boundAt? name shared other address = boundAt? name shared value address := by
  induction address generalizing value other shared with
  | nil => rw [boundAt?, boundAt?, createsScope_congr twins, binds_congr twins]
  | cons slot rest ih =>
    rw [boundAt?, boundAt?, createsScope_congr twins, binds_congr twins]
    cases held : value.slot? slot with
    | some inner =>
      obtain ⟨twin, heldToo, below⟩ := twins.exists_slot? held
      rw [heldToo, Option.bind_some, Option.bind_some, isSharedSlot_congr twins below, ih below]
    | none =>
      cases heldToo : other.slot? slot with
      | none => rfl
      | some twin =>
        have back : other.Twins value := Eq.symm twins
        obtain ⟨inner, isHeld, _⟩ := back.exists_slot? heldToo
        rw [held] at isHeld
        cases isHeld

/-- A node that opens no scope shares none with its body. -/
theorem isSharedSlot_of_plain (plain : value.createsScope = false) (slot : Slot) (inner : Value) :
    isSharedSlot value slot inner = false := by
  have opens (kind : String) (is : value.kind? = some kind)
      (listed : kind ∈ "CatchClause" :: functionKinds) : value.createsScope := by
    unfold createsScope scopeKind?
    rw [is]
    simp only [functionKinds, List.mem_cons, List.not_mem_nil, or_false] at listed
    rcases listed with rfl | rfl | rfl | rfl <;> decide
  unfold isSharedSlot
  cases isFunction : value.isFunction with
  | true =>
    obtain ⟨kind, listed, is⟩ := exists_kind?_of_isFunction isFunction
    rw [opens kind is (List.mem_cons_of_mem _ listed)] at plain
    cases plain
  | false =>
    cases isCatch : value.isKind "CatchClause" with
    | true =>
      rw [opens _ (kind?_of_isKind isCatch) List.mem_cons_self] at plain
      cases plain
    | false => rfl

variable {slot : Slot}

theorem boundAt?_cons_of_plain (plain : value.createsScope = false) (held : value.slot? slot = some
    inner) (name : Name) (shared : Bool) (rest : Address) : boundAt? name shared value (slot ::
    rest) = (boundAt? name false inner rest).map (slot :: ·) := by
  rw [boundAt?, held, Option.bind_some, isSharedSlot_of_plain plain, plain]
  cases boundAt? name false inner rest <;> simp

/-- Nothing from a value down to an address, what stands there apart, opens a
scope. -/
def Plain (value : Value) (address : Address) : Prop := ∀ front back, address = front ++ back → back
  ≠ [] → ∃ node, value.at? front = some node ∧ node.createsScope = false

variable {rest : Address}

theorem Plain.cons {value inner : Value} (here : value.createsScope = false) (held : value.slot?
    slot = some inner) (below : Plain inner rest) : Plain value (slot :: rest) := by
  intro front back split notAll
  cases front with
  | nil => exact ⟨value, rfl, here⟩
  | cons first front =>
    obtain ⟨rfl, isRest⟩ := List.cons.inj split
    obtain ⟨node, found, plain⟩ := below front back isRest notAll
    exact ⟨node, by rw [at?, held, Option.bind_some, found], plain⟩

theorem Plain.of_cons (plain : Plain value (slot :: rest)) (held : value.slot? slot = some inner) :
    value.createsScope = false ∧ Plain inner rest := by
  constructor
  · obtain ⟨node, found, here⟩ := plain [] (slot :: rest) rfl (List.cons_ne_nil _ _)
    cases found
    exact here
  · intro front back split notAll
    obtain ⟨node, found, here⟩ := plain (slot :: front) back (by rw [split]; rfl) notAll
    rw [at?, held] at found
    exact ⟨node, found, here⟩

theorem Plain.congr {address : Address} (plain : Plain value address) (twins : value.Twins other) :
    Plain other address := by
  intro front back split notAll
  obtain ⟨node, found, here⟩ := plain front back split notAll
  obtain ⟨twin, foundToo, areTwins⟩ := twins.exists_at? found
  exact ⟨twin, foundToo, (createsScope_congr areTwins).trans here⟩

/-- From below a way that opens no scope, a name is bound as it is without what
stands on the way. -/
theorem boundAt?_append {way : Address} (plain : Plain value way)
    (found : value.at? way = some inner) (name : Name) (rest : Address) :
    boundAt? name false value (way ++ rest) = (boundAt? name false inner rest).map (way ++ ·) := by
  induction way generalizing value with
  | nil =>
    cases found
    simp
  | cons slot way ih =>
    obtain ⟨held, inSlot, below⟩ := Option.bind_eq_some_iff.1 found
    obtain ⟨here, further⟩ := plain.of_cons inSlot
    rw [List.cons_append, boundAt?_cons_of_plain here inSlot, ih further below, Option.map_map]
    rfl

end Lexical

end Unravel
