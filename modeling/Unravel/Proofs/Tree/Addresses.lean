import Unravel.Proofs.Tree.Attributes

/-!
Contract: laws of reading and writing at addresses.

Owns: what a written address reads afterwards; the addresses that lead from
child slot to child slot, which are the ones a walk takes; and slots that part ways.
-/

namespace Unravel

variable {value inner new : Value} {address first : Address}

namespace Value

theorem at?_append (value : Value) (first second : Address) :
    value.at? (first ++ second) = (value.at? first).bind fun inner => inner.at? second := by
  induction first generalizing value with
  | nil => rfl
  | cons slot rest ih =>
    cases found : value.slot? slot <;> simp [at?, found, ih]

theorem at?_append_of_at? (found : value.at? first = some inner) (second : Address) :
    value.at? (first ++ second) = inner.at? second := by
  rw [at?_append, found, Option.bind_some]

theorem at?_putAt (found : value.at? address = some inner) (new : Value) :
    (value.putAt address new).at? address = some new := by
  induction address generalizing value with
  | nil => rfl
  | cons slot rest ih =>
    obtain ⟨held, inSlot, below⟩ := Option.bind_eq_some_iff.1 found
    simp [putAt, inSlot, at?, slot?_putSlot_self inSlot, ih below]

theorem at?_putAt_append (found : value.at? address = some inner) (new : Value) (below : Address) :
    (value.putAt address new).at? (address ++ below) = new.at? below := by
  exact at?_append_of_at? (at?_putAt found new) below

theorem putAt_append (found : value.at? first = some inner) (second : Address) (new : Value) :
    value.putAt (first ++ second) new = value.putAt first (inner.putAt second new) := by
  induction first generalizing value with
  | nil => cases found; rfl
  | cons slot rest ih =>
    obtain ⟨held, inSlot, below⟩ := Option.bind_eq_some_iff.1 found
    simp [putAt, inSlot, ih below]

/-- At an address there is a node, or nothing that is one. -/
theorem node_or_absent (value : Value) (address : Address) : (∃ node, value.at? address = some node
    ∧ node.isNode) ∨ ∀ other, value.at? address = some other → other.isNode = false := by
  cases found : value.at? address with
  | none => exact .inr fun _ impossible => nomatch impossible
  | some held =>
    cases isNode : held.isNode with
    | true => exact .inl ⟨held, rfl, isNode⟩
    | false =>
      right
      intro other same
      cases same
      exact isNode

/-! ## Addresses from child slot to child slot -/

/-- Every step of the address is from a node to a node in one of its child
slots. -/
def Leads : Value → Address → Prop
  | _, [] => True
  | value, slot :: rest =>
    slot ∈ value.childSlots ∧
      ∃ inner, value.slot? slot = some inner ∧ inner.isNode = true ∧ inner.Leads rest

theorem leads_append {second : Address} (found : value.at? first = some inner) :
    value.Leads (first ++ second) ↔ value.Leads first ∧ inner.Leads second := by
  induction first generalizing value with
  | nil =>
    cases found
    simp [Leads]
  | cons slot rest ih =>
    obtain ⟨held, inSlot, below⟩ := Option.bind_eq_some_iff.1 found
    simp [Leads, inSlot, ih below, and_assoc]

theorem kind?_putAt (below : address ≠ []) (value new : Value) :
    (value.putAt address new).kind? = value.kind? := by
  unfold putAt
  split
  · exact absurd rfl below
  · split
    · exact kind?_putSlot _ _ _
    · rfl

theorem isNode_putAt (wasNode : value.isNode) (isNode : new.isNode)
    (address : Address) : (value.putAt address new).isNode := by
  unfold putAt
  split
  · exact isNode
  · split
    · rw [isNode_iff_kind?] at wasNode ⊢
      simpa using wasNode
    · exact wasNode

theorem mem_children_of_childSlot {slot : Slot} (isChild : slot ∈ value.childSlots)
    (found : value.slot? slot = some inner) (isNode : inner.isNode) : inner ∈ value.children := by
  apply List.mem_flatMap.2
  refine ⟨slot.field, (mem_childSlots.1 isChild).1, ?_⟩
  rcases attr_of_slot? found with ⟨_, held⟩ | ⟨position, items, _, item, held⟩
  · simp [attr, held, slotNodes_of_isNode isNode]
  · simp only [attr, held, Option.getD_some, slotNodes]
    exact List.mem_filter.2 ⟨List.mem_of_getElem? item, isNode⟩

theorem mem_nodes_of_leads (leads : value.Leads address) (found : value.at? address = some inner) :
    inner ∈ value.nodes := by
  induction address generalizing value with
  | nil =>
    cases found
    rw [nodes_eq]
    exact List.mem_cons_self
  | cons slot rest ih =>
    obtain ⟨isChild, held, inSlot, isNode, below⟩ := leads
    have further : held.at? rest = some inner := by simpa [at?, inSlot] using found
    rw [nodes_eq]
    apply List.mem_cons_of_mem
    exact List.mem_flatMap.2
      ⟨held, mem_children_of_childSlot isChild inSlot isNode, ih below further⟩

end Value

/-! ## Slots that part ways -/

theorem Slot.Apart.symm {left right : Slot} (apart : left.Apart right) : right.Apart left := by
  rcases apart with differ | ⟨first, second, isFirst, isSecond, differ⟩
  · exact .inl differ.symm
  · exact .inr ⟨second, first, isSecond, isFirst, differ.symm⟩

end Unravel
