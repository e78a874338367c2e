import Unravel.Proofs.Inlining.Substituted
import Unravel.Proofs.Tree.Distinctness
import Unravel.Proofs.Tree.Writes

/-!
Contract: how a substitution puts its results together.

Where a substitution looks into an expression, its result has, in the slots of
references, results for what stands there (`Assembled`). That is all that later
proofs use of the shapes of expressions.
-/

namespace Unravel.Value

variable {arguments : Substitution} {value result : Value} {kind : String}

/-! ## Slots of references -/

/-- A slot for the name of a member or a property that is not computed. -/
def isNameSlot (value : Value) (slot : Slot) : Bool := !(value.attr "computed").truthy &&
  ((value.isKind "MemberExpression" && slot.field == "property") || (value.isKind "Property" &&
  slot.field == "key"))

theorem isNameSlot_setAttr {name : String} (differ : name ≠ "computed") (value new : Value) :
    (value.setAttr name new).isNameSlot = value.isNameSlot := by
  have same : (value.setAttr name new).attr "computed" = value.attr "computed" := by
    cases value <;> simp [setAttr, attr, fields, Members.get?_put, differ]
  funext slot
  rw [isNameSlot, same, isKind, isKind, kind?_setAttr]
  rfl

/-- What an attribute holds, if there is one. -/
def heldIn (value : Value) (name : String) (conditional : Bool) : List (Slot × Value × Bool) :=
  (value.slot? ⟨name, none⟩).toList.map fun inner => (⟨name, none⟩, inner, conditional)

/-- The parts of an expression that hold references, each with the slot that it
stands in. -/
def referenceEntries (value : Value) : List (Slot × Value × Bool) :=
  if value.isKind "MemberExpression" && !(value.attr "computed").truthy then
    value.heldIn "object" false
  else if value.isKind "Property" && !(value.attr "computed").truthy then
    value.heldIn "value" false
  else if value.isKind "LogicalExpression" then
    value.heldIn "left" false ++ value.heldIn "right" true
  else if value.isKind "ConditionalExpression" then
    value.heldIn "test" false ++ (value.heldIn "consequent" true ++ value.heldIn "alternate" true)
  else value.childEntries.map fun entry => (entry.1, entry.2, false)

variable {entry : Slot × Value × Bool} {first second : String}

theorem slot?_of_mem_referenceEntries (member : entry ∈ value.referenceEntries) :
    value.slot? entry.1 = some entry.2.1 := by
  have held {name : String} {conditional : Bool} (inside : entry ∈ value.heldIn name conditional) :
      value.slot? entry.1 = some entry.2.1 := by
    obtain ⟨inner, found, rfl⟩ := List.mem_map.1 inside
    exact Option.mem_toList.1 found
  unfold referenceEntries at member
  split at member
  · exact held member
  · split at member
    · exact held member
    · split at member
      · exact (List.mem_append.1 member).elim held held
      · split at member
        · exact (List.mem_append.1 member).elim held fun later =>
            (List.mem_append.1 later).elim held held
        · obtain ⟨child, isChild, rfl⟩ := List.mem_map.1 member
          exact (mem_childEntries.1 isChild).2.1

theorem flatMap_referenceEntries {β : Type} (found : Value → Bool → List β)
    (nowhere : ∀ conditional, found .null conditional = []) (value : Value) :
    (value.referenceEntries.flatMap fun entry => found entry.2.1 entry.2.2) =
      value.referenceParts.flatMap fun part => found part.1 part.2 := by
  have held (name : String) (conditional : Bool) : ((value.heldIn name conditional).flatMap fun
      entry => found entry.2.1 entry.2.2) = found (value.attr name) conditional := by
    unfold heldIn slot? attr
    cases Members.get? value.fields name with
    | none => exact (nowhere conditional).symm
    | some inner => simp
  unfold referenceEntries referenceParts
  repeat' split
  all_goals simp only [List.flatMap_append, held, List.flatMap_cons, List.flatMap_nil,
    List.append_nil, List.flatMap_map, ← map_snd_childEntries]

theorem sizeOf_lt_of_slot? {inner : Value} {slot : Slot} (held : value.slot? slot = some inner) :
    sizeOf inner < sizeOf value := by
  rcases attr_of_slot? held with ⟨_, found⟩ | ⟨_, items, _, item, found⟩
  · have smaller := sizeOf_get?_lt found
    cases value <;> simp [fields] at smaller ⊢ <;> omega
  · refine @sizeOf_item_lt _ _ slot.field ?_
    rw [attr, found]
    exact List.mem_of_getElem? item

/-- A call that is looked at, with a list for its arguments; one without has no
arguments. -/
def listed (looked : Bool) (value : Value) : Value :=
  if looked && value.isKind "CallExpression" then
    value.setAttr "arguments" (.list (value.attr "arguments").items)
  else value

theorem listed_of_not_call (looked : Bool) (is : value.kind? = some kind)
    (other : kind ≠ "CallExpression") : value.listed looked = value := by
  simp [listed, isKind, is, other]

theorem kind?_listed (looked : Bool) (value : Value) :
    (value.listed looked).kind? = value.kind? := by
  unfold listed
  split
  · exact kind?_setAttr _ _ _
  · rfl

theorem referenceEntries_of_call (is : value.kind? = some "CallExpression") :
    value.referenceEntries = value.childEntries.map fun entry => (entry.1, entry.2, false) := by
  simp [referenceEntries, isKind, is]

theorem slot?_of_mem_listed {looked : Bool} (member : entry ∈ (value.listed
    looked).referenceEntries) : value.slot? entry.1 = some entry.2.1 := by
  have held := slot?_of_mem_referenceEntries member
  by_cases call : (looked && value.isKind "CallExpression")
  · have is := kind?_of_isKind (Bool.and_eq_true_iff.1 call).2
    have isObject := isObject_of_kind? is
    rw [referenceEntries_of_call ((kind?_listed looked value).trans is)] at member
    obtain ⟨child, isChild, rfl⟩ := List.mem_map.1 member
    have isNode := (mem_childEntries.1 isChild).2.2
    unfold listed at held
    rw [if_pos call] at held
    by_cases same : "arguments" = child.1.field
    · simp only [slot?, attr, fields_setAttr isObject, Members.get?_put, same] at held ⊢
      cases index : child.1.index <;> simp [index, items] at held ⊢
      · rw [← held] at isNode
        cases isNode
      · exact held
    · simpa [slot?, attr, fields_setAttr isObject, Members.get?_put, same] using held
  · rwa [listed, if_neg call] at held

theorem substituted_of_free {value : Value} (isNamed : value.identifier? = some name)
    (free : Names.get? arguments name = none) : Substituted arguments value value := by
  unfold identifier? at isNamed
  split at isNamed
  · rename_i is
    refine .other (kind?_of_isKind is) fun other argument isOther given => ?_
    cases isNamed.symm.trans isOther
    rw [free] at given
    cases given
  · cases isNamed

/-! ## Results from results for the parts -/

/-- The result has, in the slots of references, results for what stands there. -/
structure Assembled (arguments : Substitution) (base result : Value) (become : Slot → Value) :
    Prop where
  slots : base.referenceEntries.map Prod.fst =
    base.childSlots.filter fun slot => !base.isNameSlot slot
  distinct : base.childFields.Nodup
  parts : ∀ entry ∈ base.referenceEntries, Substituted arguments entry.2.1 (become entry.1)
  eq : result = base.putSlots (base.referenceEntries.map fun entry => (entry.1, become entry.1))

theorem childSlots_pair (is : value.kind? = some kind) (listed : Members.get? childTable kind = some
    [first, second]) (isNode : (value.attr first).isNode) : value.childSlots = ⟨first, none⟩ ::
      match value.attr second with
      | .list items => (List.range items.length).map fun index => ⟨second, some index⟩
      | .null => []
      | _ => [⟨second, none⟩] := by
  rw [childSlots, childFields_of_kind is listed]
  cases held : value.attr first <;> rw [held] at isNode <;> cases isNode
  rw [List.flatMap_cons, List.flatMap_cons, List.flatMap_nil, List.append_nil, held]
  rfl

theorem map_fst_childEntries (all : ∀ slot ∈ value.childSlots, ∃ inner, value.slot? slot = some
      inner ∧ inner.isNode) : value.childEntries.map Prod.fst = value.childSlots := by
  unfold childEntries
  generalize value.childSlots = slots at all
  induction slots with
  | nil => rfl
  | cons slot rest ih =>
    obtain ⟨inner, held, isNode⟩ := all slot List.mem_cons_self
    rw [List.filterMap_cons, held]
    simp [isNode, ih fun other member => all other (List.mem_cons_of_mem _ member)]

theorem Assembled.of_slots {base : Value} (slots : List Slot) {become : Slot → Value}
    (known : base.referenceEntries.map Prod.fst = slots)
    (chosen : base.childSlots.filter (fun slot => !base.isNameSlot slot) = slots)
    (distinct : base.childFields.Nodup)
    (each : ∀ slot ∈ slots, ∀ inner, base.slot? slot = some inner →
      Substituted arguments inner (become slot))
    (eq : result = base.putSlots (slots.map fun slot => (slot, become slot))) :
    Assembled arguments base result become := by
  refine ⟨known.trans chosen.symm, distinct, fun entry member => ?_, ?_⟩
  · exact each entry.1 (known ▸ List.mem_map_of_mem member) _ (slot?_of_mem_referenceEntries member)
  · rw [eq, ← known, List.map_map]
    rfl

theorem assembled_pair {left right : Value} (is : value.kind? = some kind)
    (listed : Members.get? childTable kind = some [first, second]) (differ : first ≠ second)
    (unnamed : ∀ slot, value.isNameSlot slot = false) (slots : value.childEntries.map Prod.fst = [⟨first, none⟩, ⟨second, none⟩] →
      value.referenceEntries.map Prod.fst = [⟨first, none⟩, ⟨second, none⟩])
    (inFirst : Substituted arguments (value.attr first) left)
    (inSecond : Substituted arguments (value.attr second) right) :
    ∃ become, Assembled arguments value ((value.setAttr first left).setAttr second right)
      become := by
  have atFirst := slot?_attr_of_isNode inFirst.isNode_source
  have atSecond := slot?_attr_of_isNode inSecond.isNode_source
  have children : value.childSlots = [⟨first, none⟩, ⟨second, none⟩] := by
    rw [childSlots_pair is listed inFirst.isNode_source]
    have isNode := inSecond.isNode_source
    cases held : value.attr second <;> rw [held] at isNode <;> first | rfl | cases isNode
  have nodes : ∀ slot ∈ value.childSlots, ∃ inner,
      value.slot? slot = some inner ∧ inner.isNode := by
    rw [children]
    simp only [List.forall_mem_cons, List.not_mem_nil, false_imp_iff, implies_true, and_true]
    exact ⟨⟨_, atFirst, inFirst.isNode_source⟩, ⟨_, atSecond, inSecond.isNode_source⟩⟩
  have known := slots ((map_fst_childEntries nodes).trans children)
  refine ⟨fun slot => if slot.field = first then left else right,
    .of_slots _ known (by simp [unnamed, children]) ?_ ?_ ?_⟩
  · rw [childFields_of_kind is listed]
    simpa using differ
  · simp only [List.forall_mem_cons, List.not_mem_nil, false_imp_iff, implies_true, and_true]
    refine ⟨fun inner held => ?_, fun inner held => ?_⟩
    · rw [Option.some.inj (held.symm.trans atFirst)]
      simpa using inFirst
    · rw [Option.some.inj (held.symm.trans atSecond)]
      simpa [differ.symm] using inSecond
  · simp [putSlots, putSlot, differ.symm]

theorem assembled_call {callee : Value} {replaced : List Value} (is : value.kind? = some
    "CallExpression") (inCallee : Substituted arguments (value.attr "callee") callee) (length :
    replaced.length = (value.attr "arguments").items.length) (inArguments : ∀ pair ∈ (value.attr
    "arguments").items.zip replaced, Substituted arguments pair.1 pair.2) : ∃ become, Assembled
    arguments (value.listed true) ((value.setAttr "callee" callee).setAttr "arguments" (.list
    replaced)) become := by
  have isObject := isObject_of_kind? is
  generalize isItems : (value.attr "arguments").items = items at length inArguments
  have base : value.listed true = value.setAttr "arguments" (.list items) := by
    simp [listed, isKind, is, isItems]
  have isCall : (value.listed true).kind? = some "CallExpression" := (kind?_listed _ _).trans is
  have atArguments : (value.listed true).attr "arguments" = .list items := by
    rw [base, attr_setAttr isObject, if_pos rfl]
  have sameCallee : (value.listed true).attr "callee" = value.attr "callee" := by
    rw [base, attr_setAttr isObject, if_neg (by decide)]
  have isNode : ((value.listed true).attr "callee").isNode := sameCallee ▸ inCallee.isNode_source
  have children := childSlots_pair isCall rfl isNode
  simp only [atArguments] at children
  have item (index : Nat) (within : index < items.length) :
      (value.listed true).slot? ⟨"arguments", some index⟩ = some items[index] ∧
        Substituted arguments items[index] (replaced[index]?.getD .null) := by
    refine ⟨by simp [slot?, atArguments, Value.items, within], inArguments (_, _) ?_⟩
    rw [List.getElem?_eq_getElem (length ▸ within)]
    exact List.mem_of_getElem? (List.getElem?_zip_eq_some.2
      ⟨List.getElem?_eq_getElem within, List.getElem?_eq_getElem (length ▸ within)⟩)
  have nodes : ∀ slot ∈ (value.listed true).childSlots, ∃ inner,
      (value.listed true).slot? slot = some inner ∧ inner.isNode := by
    rw [children]
    refine List.forall_mem_cons.2 ⟨⟨_, slot?_attr_of_isNode isNode, isNode⟩, fun slot member => ?_⟩
    obtain ⟨index, within, rfl⟩ := List.mem_map.1 member
    obtain ⟨held, substituted⟩ := item index (List.mem_range.1 within)
    exact ⟨_, held, substituted.isNode_source⟩
  refine ⟨fun slot => slot.index.elim callee fun index => replaced[index]?.getD .null,
    .of_slots (value.listed true).childSlots ?_ (by simp [isNameSlot, isKind, isCall]) ?_ ?_ ?_⟩
  · rw [← map_fst_childEntries nodes, referenceEntries_of_call isCall, List.map_map]
    rfl
  · rw [childFields_of_kind isCall rfl]
    decide
  · rw [children]
    refine List.forall_mem_cons.2 ⟨fun inner held => ?_, fun slot member inner held => ?_⟩
    · rw [Option.some.inj (held.symm.trans (slot?_attr_of_isNode isNode)), sameCallee]
      exact inCallee
    · obtain ⟨index, within, rfl⟩ := List.mem_map.1 member
      obtain ⟨found, substituted⟩ := item index (List.mem_range.1 within)
      rw [Option.some.inj (held.symm.trans found)]
      exact substituted
  · -- The callee is there already, so that it may be written last.
    have found : Members.get? value.fields "callee" = some (value.attr "callee") :=
      slot?_attr_of_isNode inCallee.isNode_source
    have all : (List.range items.length).map (fun index => replaced[index]?.getD .null) =
        replaced := by
      apply List.ext_getElem
      · simp [length]
      · intro index _ within
        simp [within]
    have listedToo : ((value.setAttr "callee" callee).setAttr "arguments" (.list items)).attr
        "arguments" = .list items := by
      rw [attr_setAttr (isObject_of_kind? (by rw [kind?_setAttr, is])), if_pos rfl]
    rw [children, List.map_cons, List.map_map, putSlots_cons, base]
    simp only [putSlot, Function.comp_def, Option.elim_none, Option.elim_some]
    rw [← setAttr_comm found (by decide), putSlots_items listedToo
      (isObject_of_kind? (by rw [kind?_setAttr, kind?_setAttr, is])), all, setAttr_setAttr]

/-- Where a substitution looks into an expression, its result is assembled from
results for the parts. -/
theorem Substituted.assembled (substituted : Substituted arguments value result)
    (is : value.kind? = some kind) (isOpen : kind ∈ openKinds) (compound : kind ≠ "Identifier") :
    ∃ become, Assembled arguments (value.listed true) result become := by
  cases substituted with
  | argument isKnown => exact absurd (eq_of_kinds is isKnown) compound
  | other isKnown => exact absurd (eq_of_kinds is isKnown) compound
  | kept isKnown closed => exact absurd isOpen (eq_of_kinds is isKnown ▸ closed)
  | operands isOperation inLeft inRight =>
    rcases isOperation with isBinary | isLogical
    · rw [listed_of_not_call true isBinary (by decide)]
      refine assembled_pair isBinary rfl (by decide) (by simp [isNameSlot, isKind, isBinary])
        (fun children => ?_) inLeft inRight
      rw [← children]
      simp [referenceEntries, isKind, isBinary]
    · rw [listed_of_not_call true isLogical (by decide)]
      refine assembled_pair isLogical rfl (by decide) (by simp [isNameSlot, isKind, isLogical])
        (fun _ => ?_) inLeft inRight
      simp [referenceEntries, isKind, isLogical, heldIn, slot?_attr_of_isNode inLeft.isNode_source,
        slot?_attr_of_isNode inRight.isNode_source]
  | namedCall isCall calls free length inArguments =>
    exact assembled_call isCall (substituted_of_free calls free) length inArguments
  | call isCall _ inCallee length inArguments =>
    exact assembled_call isCall inCallee length inArguments
  | computedMember isMember computed inObject inProperty =>
    rw [listed_of_not_call true isMember (by decide)]
    refine assembled_pair isMember rfl (by decide) (by simp [isNameSlot, computed])
      (fun children => ?_) inObject inProperty
    rw [← children]
    simp [referenceEntries, isKind, isMember, computed]
  | @member _ object isMember named present inObject =>
    rw [listed_of_not_call true isMember (by decide)]
    have atObject := slot?_attr_of_isNode inObject.isNode_source
    refine ⟨fun _ => object, .of_slots [⟨"object", none⟩] ?_ ?_ ?_ ?_ ?_⟩
    · simp [referenceEntries, isKind, isMember, named, heldIn, atObject]
    · rw [childSlots_pair isMember rfl inObject.isNode_source]
      cases value.attr "property" <;> simp [isNameSlot, isKind, isMember, named]
    · rw [childFields_of_kind isMember rfl]
      decide
    · intro slot member inner held
      rw [List.mem_singleton.1 member, atObject] at held
      rwa [← Option.some.inj held]
    · have unchanged : (value.setAttr "object" object).attr "property" = value.attr "property" := by
        rw [attr_setAttr (isObject_of_kind? isMember), if_neg (by decide)]
      exact setAttr_attr unchanged present

namespace Assembled

variable {base : Value} {become : Slot → Value}

section Parts

variable (assembled : Assembled arguments base result become)

include assembled

theorem separate :
    base.Separate ((base.referenceEntries.map fun entry => (entry.1, become entry.1)).map Prod.fst) := by
  rw [List.map_map]
  refine ⟨fun slot member => ?_, ?_⟩
  · obtain ⟨entry, isEntry, rfl⟩ := List.mem_map.1 member
    exact ⟨_, slot?_of_mem_referenceEntries isEntry, (assembled.parts entry isEntry).isNode_source⟩
  · change (base.referenceEntries.map Prod.fst).Pairwise _
    rw [assembled.slots]
    exact (childSlots_pairwise_of_nodup assembled.distinct).filter _

theorem slot?_result (member : entry ∈ base.referenceEntries) :
    result.slot? entry.1 = some (become entry.1) := by
  rw [assembled.eq]
  exact slot?_putSlots assembled.separate (List.mem_map_of_mem member)

theorem childSlots_result (nodes : arguments.AreNodes) : result.childSlots = base.childSlots := by
  rw [assembled.eq]
  refine childSlots_putSlots assembled.separate fun write member => ?_
  obtain ⟨entry, isEntry, rfl⟩ := List.mem_map.1 member
  exact (assembled.parts entry isEntry).isNode_result nodes

theorem entries (nodes : arguments.AreNodes) : (base.referenceEntries.map fun entry => (entry.1,
    become entry.1)).Sublist result.childEntries := by
  have chosen := (assembled.slots ▸ List.filter_sublist).filterMap fun slot =>
    (result.slot? slot).bind fun child => if child.isNode then some (slot, child) else none
  rw [← assembled.childSlots_result nodes, List.filterMap_map] at chosen
  have kept : (base.referenceEntries.map fun entry => (entry.1, become entry.1)) =
      base.referenceEntries.filterMap fun entry => (result.slot? entry.1).bind fun child =>
        if child.isNode then some (entry.1, child) else none := by
    rw [List.filterMap_congr (g := fun entry => some (entry.1, become entry.1)),
      List.filterMap_eq_map']
    intro entry member
    simp [assembled.slot?_result member, (assembled.parts entry member).isNode_result nodes]
  rw [kept]
  exact chosen

end Parts

end Assembled

end Unravel.Value
