import Mathlib.Data.List.Pairwise
import Unravel.Proofs.Scope.Patterns
import Unravel.Proofs.Scope.Surveying

/-!
Contract: a survey of a whole tree.

The induction is on the tree. Before a subtree is surveyed none of its nodes has
an owner, except that its root may be a shared body (`Ready`). Since no two
nodes carry one label, surveying one child keeps the others ready.
-/

namespace Unravel

open Lexical

namespace Value

/-- Trees in which no label occurs twice and clauses have blocks as bodies. -/
structure Regular (value : Value) : Prop where
  distinct : (value.nodes.map Value.label?).Nodup
  bodies : ∀ node ∈ value.nodes, node.isKind "CatchClause" = true →
    (node.attr "body").isKind "BlockStatement" = true

theorem labels_nodes_eq (value : Value) : value.nodes.map label? =
      value.label? :: value.children.flatMap fun child => child.nodes.map label? := by
  rw [nodes_eq, List.map_cons, List.map_flatMap]

variable {value : Value}

theorem Regular.nodes_apart (regular : value.Regular) :
    value.label? ∉ (value.children.flatMap fun child => child.nodes.map label?) ∧
      (value.children.flatMap fun child => child.nodes.map label?).Nodup := by
  rw [← List.nodup_cons, ← labels_nodes_eq]
  exact regular.distinct

theorem Regular.child {child : Value} (regular : value.Regular) (member : child ∈ value.children) :
    child.Regular where
  distinct := (List.nodup_flatMap.1 regular.nodes_apart.2).1 child member
  bodies inner inside := by
    exact regular.bodies inner (mem_nodes_of_child member inside)

theorem Regular.child_unique {child other : Value} (regular : value.Regular) (left : child ∈ value.children)
    (right : other ∈ value.children) {label : Option Nat}
    (inLeft : label ∈ child.nodes.map label?) (inRight : label ∈ other.nodes.map label?) :
    child = other := by
  by_contra differ
  have apart := (List.nodup_flatMap.1 regular.nodes_apart.2).2
  have symmetric : Std.Symm (Function.onFun List.Disjoint fun child : Value =>
      child.nodes.map label?) := ⟨fun _ _ disjoint _ right left => disjoint left right⟩
  exact apart.forall left right differ inLeft inRight

theorem Regular.ne_own_label {child node : Value} (regular : value.Regular)
    (member : child ∈ value.children) (inside : node ∈ child.nodes) : node.label? ≠ value.label? := by
  intro same
  apply regular.nodes_apart.1
  rw [← same]
  exact List.mem_flatMap.2 ⟨child, member, List.mem_map_of_mem inside⟩

theorem body_mem_childFields {kind : String} (is : value.kind? = some kind)
    (listed : kind ∈ "CatchClause" :: functionKinds) : "body" ∈ value.childFields := by
  have table : ∀ kind ∈ "CatchClause" :: functionKinds,
      ∃ fields, Members.get? childTable kind = some fields ∧ "body" ∈ fields := by
    simp only [functionKinds, List.forall_mem_cons]
    refine ⟨⟨_, rfl, ?_⟩, ⟨_, rfl, ?_⟩, ⟨_, rfl, ?_⟩, ⟨_, rfl, ?_⟩, List.forall_mem_nil _⟩ <;>
      decide
  obtain ⟨fields, found, member⟩ := table kind listed
  rw [childFields_of_kind is found]
  exact member

theorem Regular.sharedBody (regular : value.Regular) {label : Nat} (is : value.sharedBody? = some
    label) : value.attr "body" ∈ value.children ∧ (value.attr "body").isKind "BlockStatement" ∧
    (value.attr "body").label? = some label ∧ (value.isFunction || value.isKind "CatchClause") := by
  unfold sharedBody? at is
  dsimp only at is
  split at is
  · rename_i isFunction
    obtain ⟨kind, listed, isKind⟩ := exists_kind?_of_isFunction isFunction
    have field := body_mem_childFields isKind (List.mem_cons_of_mem _ listed)
    split at is
    · rename_i isBlock
      exact ⟨mem_children_of_attr field (isNode_of_kind? (kind?_of_isKind isBlock)), isBlock, is,
        Bool.or_eq_true_iff.2 (.inl isFunction)⟩
    · cases is
  · split at is
    · rename_i isCatch
      have field := body_mem_childFields (kind?_of_isKind isCatch) List.mem_cons_self
      have isBlock := regular.bodies value value.mem_nodes_self isCatch
      exact ⟨mem_children_of_attr field (isNode_of_kind? (kind?_of_isKind isBlock)), isBlock, is,
        Bool.or_eq_true_iff.2 (.inr isCatch)⟩
    · cases is

theorem Regular.mem_labels (regular : value.Regular) {label : Nat}
    (member : some label ∈ [value.label?, value.sharedBody?] ++
      value.children.flatMap fun child => child.nodes.map label?) :
    some label ∈ value.nodes.map label? := by
  rw [labels_nodes_eq]
  rcases List.mem_append.1 member with own | below
  · rcases List.mem_cons.1 own with here | shared
    · exact here ▸ List.mem_cons_self
    · have isShared := (List.mem_singleton.1 shared).symm
      obtain ⟨inChildren, _, bodyLabel, _⟩ := regular.sharedBody isShared
      refine List.mem_cons_of_mem _ (List.mem_flatMap.2 ⟨value.attr "body", inChildren, ?_⟩)
      exact bodyLabel ▸ List.mem_map_of_mem (value.attr "body").mem_nodes_self
  · exact List.mem_cons_of_mem _ below

end Value

namespace Survey

/-- The index is ready for a tree that stands below the nodes of a path. -/
structure Ready (index : ScopeIndex) (value : Value) (above : List Value) (outer : Option Nat) :
    Prop where
  stands : index.Stands outer (inForce above)
  housed : ∃ wide ∈ inForce (value :: above), isWide wide = true
  known : Known index value above outer
  fresh : ∀ child ∈ value.children, ∀ node ∈ child.nodes, node.label?.bind index.owner? = none

variable {survey : Survey} {index later : ScopeIndex} {value : Value} {above : List Value}
  {outer : Option Nat}

theorem Ready.extends (ready : Ready index value above outer) (grows : index.Extends later)
    (owners : ∀ node ∈ value.nodes, node.label?.bind later.owner? = node.label?.bind index.owner?) :
    Ready later value above outer where
  stands := ready.stands.extends grows
  housed := ready.housed
  known := by
    have own := owners value value.mem_nodes_self
    cases ready.known with
    | shared number is isOuter found => exact .shared number is isOuter (own.trans found)
    | fresh isNot missing => exact .fresh isNot (own.trans missing)
  fresh child member node inside := by
    rw [owners node]
    · exact ready.fresh child member node inside
    · exact Value.mem_nodes_of_child member inside

theorem Ready.exists_wide (ready : Ready index value above outer) :
    ∃ wide, (inForce (value :: above)).find? isWide = some wide :=
  Option.isSome_iff_exists.1 (List.find?_isSome.2 ready.housed)

theorem Ready.exists_inner (ready : Ready index value above outer) {inner : Option Nat}
    {before after : Survey} (entered : before.Enters after value above inner) :
    ∃ number, inner = some number := by
  cases inner with
  | some number => exact ⟨number, rfl⟩
  | none =>
    obtain ⟨wide, inside, _⟩ := ready.housed
    have nowhere : inForce (value :: above) = [] := List.forall₂_nil_left_iff.1 entered.stands
    rw [nowhere] at inside
    cases inside

theorem paths_eq (value : Value) (above : List Value) : paths value above =
      (value :: above) :: value.children.flatMap fun child => paths child (value :: above) := by
  rw [paths, List.flatMap_subtype (g := fun child => paths child (value :: above))
    fun _ _ => rfl, List.unattach_attach]

/-- What surveying a tree below a path adds. -/
def AddsTree (survey after : Survey) (value : Value) (above : List Value) : Prop :=
  survey.Adds after ((paths value above).flatMap openingAt)
    ((paths value above).flatMap declarationsAt) ((paths value above).flatMap writesAt)
    (value.nodes.map Value.label?)

theorem adds_children {scope : Nat} {children : List Value}
    (each : ∀ child ∈ children, ∀ {survey : Survey}, Ready survey.index child above (some scope) →
        survey.AddsTree (visit child (some scope) survey) child above)
    (distinct : (children.flatMap fun child => child.nodes.map Value.label?).Nodup)
    (ready : ∀ child ∈ children, Ready survey.index child above (some scope)) :
    survey.Adds (children.foldl (fun survey child => visit child (some scope) survey) survey)
      (children.flatMap fun child => (paths child above).flatMap openingAt)
      (children.flatMap fun child => (paths child above).flatMap declarationsAt)
      (children.flatMap fun child => (paths child above).flatMap writesAt)
      (children.flatMap fun child => child.nodes.map Value.label?) := by
  induction children generalizing survey with
  | nil => exact Adds.refl survey
  | cons child rest ih =>
    have first := each child List.mem_cons_self (ready child List.mem_cons_self)
    rw [List.flatMap_cons, List.nodup_append'] at distinct
    have restReady : ∀ other ∈ rest,
        Ready (visit child (some scope) survey).index other above (some scope) := by
      intro other member
      refine (ready other (List.mem_cons_of_mem _ member)).extends first.extends' ?_
      intro node inside
      cases isLabel : node.label? with
      | none => rfl
      | some label =>
        refine first.owners label fun inFirst => distinct.2.2 inFirst ?_
        exact List.mem_flatMap.2 ⟨other, member, isLabel ▸ List.mem_map_of_mem inside⟩
    exact first.trans (ih
      (fun other member => each other (List.mem_cons_of_mem _ member)) distinct.2.1 restReady)

/-! ## From a node to its children -/

theorem isSharedBody_iff {child : Value} : isSharedBody child (value :: above) ↔
      (value.isFunction || value.isKind "CatchClause") ∧ child.isKind "BlockStatement" ∧
        (value.attr "body").isKind "BlockStatement" ∧
        (value.attr "body").label? = child.label? := by
  simp only [isSharedBody, Bool.and_eq_true, beq_iff_eq, and_assoc]

theorem sharedBody?_of_isSharedBody {child : Value}
    (is : isSharedBody child (value :: above)) : value.sharedBody? = child.label? := by
  obtain ⟨sharing, _, isBlock, same⟩ := isSharedBody_iff.1 is
  unfold Value.sharedBody?
  dsimp only
  rw [isBlock, same]
  cases isFunction : value.isFunction with
  | true => rfl
  | false =>
    rw [isFunction, Bool.false_or] at sharing
    rw [sharing]
    rfl

theorem scopeKind?_of_sharing (sharing : (value.isFunction || value.isKind "CatchClause")) :
    value.scopeKind?.isSome ∧ value.isKind "BlockStatement" = false := by
  have listed : ∃ kind ∈ "CatchClause" :: functionKinds, value.kind? = some kind := by
    rcases Bool.or_eq_true_iff.1 sharing with isFunction | isCatch
    · obtain ⟨kind, listed, isKind⟩ := Value.exists_kind?_of_isFunction isFunction
      exact ⟨kind, List.mem_cons_of_mem _ listed, isKind⟩
    · exact ⟨_, List.mem_cons_self, Value.kind?_of_isKind isCatch⟩
  obtain ⟨kind, listed, isKind⟩ := listed
  unfold Value.scopeKind? Value.isKind
  rw [isKind]
  simp only [functionKinds, List.mem_cons, List.not_mem_nil, or_false] at listed
  rcases listed with rfl | rfl | rfl | rfl <;> decide

/-- A node that shares its scope with its body opens that scope itself. -/
theorem opens_of_sharing (sharing : (value.isFunction || value.isKind "CatchClause")) :
    opens value above := by
  obtain ⟨creates, isNot⟩ := scopeKind?_of_sharing sharing
  have plain : isSharedBody value above = false := by
    cases above with
    | nil => rfl
    | cons parent rest => simp only [isSharedBody, isNot, Bool.and_false, Bool.false_and]
  rw [opens, Value.createsScope, creates, plain]
  rfl

/-- Only a shared body carries the label of the body that a scope is shared
with. -/
theorem isSharedBody_of_label? {child node : Value} {label : Nat} (regular : value.Regular)
    (above : List Value) (member : child ∈ value.children) (inside : node ∈ child.nodes)
    (isLabel : node.label? = some label) (shared : value.sharedBody? = some label) :
    isSharedBody child (value :: above) ∧ child.label? = some label := by
  obtain ⟨inChildren, isBlock, bodyLabel, sharing⟩ := regular.sharedBody shared
  have inBody : some label ∈ (value.attr "body").nodes.map Value.label? :=
    bodyLabel ▸ List.mem_map_of_mem (value.attr "body").mem_nodes_self
  have inChild : some label ∈ child.nodes.map Value.label? := isLabel ▸ List.mem_map_of_mem inside
  have is := regular.child_unique inChildren member inBody inChild
  rw [isSharedBody_iff, ← is]
  exact ⟨⟨sharing, isBlock, isBlock, rfl⟩, bodyLabel⟩

section Entered

variable {before after : Survey} {inner : Nat} {child : Value}
  (entered : before.Enters after value above (some inner)) (regular : value.Regular)
  (ready : Ready before.index value above outer) (member : child ∈ value.children)

include entered regular ready member

theorem owner?_of_entered {node : Value} (inside : node ∈ child.nodes) :
    node.label?.bind after.index.owner? =
      if opens value above ∧ node.label? = value.sharedBody? then node.label?.map fun _ => inner
      else none := by
  have differs := regular.ne_own_label member inside
  have missing := ready.fresh child member node inside
  cases isLabel : node.label? with
  | none => simp
  | some label =>
    rw [isLabel] at differs missing
    rw [Option.bind_some] at missing ⊢
    simp only [entered.owners, missing, List.mem_cons, List.not_mem_nil, or_false,
      or_iff_right differs, Option.map_some]

theorem known_of_entered : Known after.index child (value :: above) (some inner) := by
  have owner := owner?_of_entered entered regular ready member child.mem_nodes_self
  obtain ⟨label, isLabel⟩ : ∃ label, child.label? = some label :=
    Value.exists_label?_of_isNode (Value.isNode_of_mem_children member)
  cases isShared : isSharedBody child (value :: above) with
  | true =>
    have same := sharedBody?_of_isSharedBody isShared
    rw [if_pos ⟨opens_of_sharing (isSharedBody_iff.1 isShared).1, same.symm⟩] at owner
    exact .shared inner isShared rfl (isLabel ▸ owner)
  | false =>
    refine .fresh isShared ?_
    rw [owner, if_neg]
    rintro ⟨_, same⟩
    have is := (isSharedBody_of_label? regular above member child.mem_nodes_self
      isLabel (same ▸ isLabel)).1
    rw [isShared] at is
    cases is

theorem ready_of_entered : Ready after.index child (value :: above) (some inner) where
  stands := entered.stands
  housed := by
    obtain ⟨wide, inside, isWide⟩ := ready.housed
    refine ⟨wide, ?_, isWide⟩
    rw [inForce]
    split
    · exact List.mem_cons_of_mem _ inside
    · exact inside
  known := known_of_entered entered regular ready member
  fresh grandchild below node inside := by
    have within : node ∈ child.nodes := Value.mem_nodes_of_child below inside
    rw [owner?_of_entered entered regular ready member within]
    split
    · rename_i both
      cases isLabel : node.label? with
      | none => rfl
      | some label =>
        have own := (isSharedBody_of_label? regular above member within isLabel
          (both.2 ▸ isLabel)).2
        exact absurd (isLabel.trans own.symm) ((regular.child member).ne_own_label below inside)
    · rfl

end Entered

/-! ## Trees -/

theorem Adds.owner?_bind {before after : Survey} {opened : List Opening} {declared : List
    Declaration} {written : List Write} (adds : before.Adds after opened declared written []) (node
    : Value) : node.label?.bind after.index.owner? = node.label?.bind before.index.owner? := by
  cases node.label? with
  | none => rfl
  | some label => exact adds.owners label List.not_mem_nil

/-- A survey that is ready for a tree goes into its root, and is then ready for the
children. -/
theorem exists_opened (regular : value.Regular) (ready : Ready survey.index value above outer) : ∃
    opened inner, (survey.hoist value outer).openScope value outer = (opened, some inner) ∧
    (survey.hoist value outer).Enters opened value above (some inner) ∧ opened.Adds (opened.declare
    value inner) [] (declaredInside value (inForce (value :: above))) (writesAt (value :: above)) []
    ∧ ∀ child ∈ value.children, Ready (opened.declare value inner).index child (value :: above)
    (some inner) := by
  have hoisted := adds_hoist ready.stands value
  have readyHoisted : Ready (survey.hoist value outer).index value above outer :=
    ready.extends hoisted.extends' fun node _ => hoisted.owner?_bind node
  have entered := enters_openScope readyHoisted.stands readyHoisted.known
  cases isOpened : (survey.hoist value outer).openScope value outer with
  | mk opened inside =>
    rw [isOpened] at entered
    obtain ⟨inner, rfl⟩ := ready.exists_inner entered
    obtain ⟨wide, isWide⟩ := ready.exists_wide
    have declared := adds_declare entered.stands isWide value
    rw [value.writtenIdentifiers_eq] at declared
    refine ⟨opened, inner, rfl, entered, declared, fun child member => ?_⟩
    exact (ready_of_entered entered regular readyHoisted member).extends declared.extends'
      fun node _ => declared.owner?_bind node

/-- A survey of a tree finds its scopes, declarations and writes in document
order. -/
theorem adds_visit (value : Value) {above : List Value} {outer : Option Nat} {survey : Survey}
    (regular : value.Regular) (ready : Ready survey.index value above outer) :
    survey.AddsTree (visit value outer survey) value above := by
  have hoisted := adds_hoist ready.stands value
  obtain ⟨opened, inner, isOpened, entered, declared, readyChildren⟩ := exists_opened regular ready
  have each : ∀ child ∈ value.children, ∀ {survey : Survey},
      Ready survey.index child (value :: above) (some inner) →
        survey.AddsTree (visit child (some inner) survey) child (value :: above) :=
    fun child member _ ready => adds_visit child (regular.child member) ready
  have children := adds_children each regular.nodes_apart.2 readyChildren
  have whole := hoisted.trans (entered.adds.trans (declared.trans children))
  rw [visit_eq isOpened, AddsTree, paths_eq]
  simp only [List.flatMap_cons, List.flatMap_assoc, declarationsAt, writesAt]
  simp only [List.nil_append, ← List.append_assoc] at whole
  exact whole.mono fun _ => regular.mem_labels
termination_by sizeOf value
decreasing_by exact Value.sizeOf_lt_of_mem_children member

end Survey

end Unravel
