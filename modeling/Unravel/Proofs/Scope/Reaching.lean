import Unravel.Proofs.Scope.Building
import Unravel.Proofs.Scope.Growth

/-!
Contract: the scopes that a survey has in force as it comes to the nodes of a tree.

`Reaches` follows the recursion of a survey to one node. The scope that the survey goes on
in is that of the nearest node at or above it that opens one, and it can be read off the
index afterwards: it is the scope that the node is known to have, or else the scope around
it (`Reaches.sound`).
-/

namespace Unravel

open Lexical

namespace Survey

/-- Surveying a tree, the survey comes to the first node of a path, from the scope around
it, and goes on in the scope inside. -/
inductive Reaches : Survey → Value → List Value → Option Nat → List Value → Option Nat →
    Option Nat → Prop where
  | here (survey : Survey) (value : Value) (above : List Value) (outer : Option Nat) :
      Reaches survey value above outer (value :: above) outer
        ((survey.hoist value outer).openScope value outer).2
  | inside {survey opened : Survey} {value child : Value} {above before after path : List Value}
      {outer around inner : Option Nat} {scope : Nat} (enters : (survey.hoist value outer).openScope
      value outer = (opened, some scope)) (split : value.children = before ++ child :: after)
      (further : Reaches (before.foldl (fun survey child => visit child (some scope) survey)
      (opened.declare value scope)) child (value :: above) (some scope) path around inner) : Reaches
      survey value above outer path around inner

variable {survey opened : Survey} {value child node : Value} {above path : List Value}
  {outer around inner : Option Nat} {scope : Nat} {later : ScopeIndex}

/-- From a node that it goes on in, a survey comes to the children. -/
theorem Reaches.onward (reaches : Reaches survey value above outer (node :: path) around
    (some scope)) (member : child ∈ node.children) :
    ∃ inside, Reaches survey value above outer (child :: node :: path) (some scope) inside := by
  generalize isPath : node :: path = whole at reaches
  generalize isInner : some scope = inside at reaches
  induction reaches with
  | here survey value above outer =>
    cases isPath
    obtain ⟨before, after, split⟩ := List.append_of_mem member
    cases enters : (survey.hoist node outer).openScope node outer with
    | mk opened inner =>
      rw [enters] at isInner
      cases isInner
      exact ⟨_, .inside enters split (.here _ _ _ _)⟩
  | inside enters split _ ih =>
    obtain ⟨inside, further⟩ := ih isPath isInner
    exact ⟨inside, .inside enters split further⟩

/-! ## From a node to what comes after it -/

/-- The scope that a survey goes on in is the one that the node is known to have then, or
else the one around it. -/
theorem openScope_eq (survey : Survey) (value : Value) (outer : Option Nat) : (survey.openScope
    value outer).2 = ((survey.openScope value outer).1.index.known? value).or outer := by
  cases known : value.label?.bind survey.index.owner? with
  | some number =>
    rw [openScope_of_known known, ScopeIndex.known?, known, Option.some_or]
  | none =>
    cases isKind : value.scopeKind? with
    | none => rw [openScope_of_plain known isKind, ScopeIndex.known?, known, Option.none_or]
    | some kind =>
      obtain ⟨label, opener, isLabel, isOpener⟩ := exists_of_scopeKind? isKind
      rw [openScope_of_fresh known isKind isLabel isOpener, ScopeIndex.known?, isLabel,
        Option.bind_some, owner?_opened, if_pos List.mem_cons_self, Option.some_or]

/-- A later index goes on from an earlier one, and knows the nodes of a tree as that
does. -/
structure Continues (index later : ScopeIndex) (value : Value) : Prop where
  grows : index.Extends later
  known : ∀ node ∈ value.nodes, later.known? node = index.known? node

theorem Continues.trans {index middle : ScopeIndex} (first : Continues index middle value)
    (second : Continues middle later value) : Continues index later value where
  grows := first.grows.trans second.grows
  known node member := (second.known node member).trans (first.known node member)

theorem Continues.below {index : ScopeIndex} (continues : Continues index later value)
    (member : child ∈ value.children) : Continues index later child where
  grows := continues.grows
  known node inside := continues.known node (Value.mem_nodes_of_child member inside)

theorem Adds.known? {before after : Survey} {opened : List Opening} {declared : List Declaration}
    {written : List Write} {touched : List (Option Nat)}
    (adds : before.Adds after opened declared written touched) (untouched : node.label? ∉ touched) :
    after.index.known? node = before.index.known? node := by
  unfold ScopeIndex.known?
  cases isLabel : node.label? with
  | none => rfl
  | some label => exact adds.owners label (isLabel ▸ untouched)

section Children

variable {before after : List Value}

theorem ready_after (regular : ∀ child ∈ before, child.Regular)
    (distinct : ((before ++ after).flatMap fun child => child.nodes.map Value.label?).Nodup)
    (ready : ∀ child ∈ before ++ after, Ready survey.index child above (some scope)) :
    ∀ child ∈ after, Ready (before.foldl (fun survey child => visit child (some scope) survey)
      survey).index child above (some scope) := by
  induction before generalizing survey with
  | nil => exact ready
  | cons child before ih =>
    have first := adds_visit child (regular child List.mem_cons_self)
      (ready child List.mem_cons_self)
    rw [List.cons_append, List.flatMap_cons, List.nodup_append'] at distinct
    refine ih (fun other member => regular other (List.mem_cons_of_mem _ member)) distinct.2.1 ?_
    intro other member
    refine (ready other (List.mem_cons_of_mem _ member)).extends first.extends' ?_
    intro node inside
    refine first.known? fun inFirst => distinct.2.2 inFirst ?_
    exact List.mem_flatMap.2 ⟨other, member, List.mem_map_of_mem inside⟩

/-- What comes after a child leaves what is known of it. -/
theorem continues_children (regular : ∀ child ∈ after, child.Regular)
    (distinct : (after.flatMap fun child => child.nodes.map Value.label?).Nodup)
    (ready : ∀ child ∈ after, Ready survey.index child above (some scope))
    (apart : ∀ node ∈ value.nodes,
      node.label? ∉ after.flatMap fun child => child.nodes.map Value.label?) :
    Continues survey.index (after.foldl
      (fun survey child => visit child (some scope) survey) survey).index value := by
  have adds := adds_children
    (fun child member _ ready => adds_visit child (regular child member) ready) distinct ready
  exact ⟨adds.extends', fun node inside => adds.known? (apart node inside)⟩

end Children

/-- Past the node itself, its survey leaves what is known of it. -/
theorem known?_visit (regular : value.Regular) (ready : Ready survey.index value above outer)
    (isOpened : (survey.hoist value outer).openScope value outer = (opened, some scope)) :
    opened.index.Extends (visit value outer survey).index ∧
      (visit value outer survey).index.known? value = opened.index.known? value := by
  obtain ⟨_, _, same, _, declared, readyChildren⟩ := exists_opened regular ready
  cases isOpened.symm.trans same
  have children := adds_children
    (fun child member _ ready => adds_visit child (regular.child member) ready)
    regular.nodes_apart.2 readyChildren
  have whole := declared.trans children
  rw [visit_eq isOpened]
  exact ⟨whole.extends', whole.known? (by simpa using regular.nodes_apart.1)⟩

/-- When a child has been surveyed, the rest of the survey leaves what is known of it. -/
theorem continues_visit {before after : List Value} (regular : value.Regular) (ready : Ready
    survey.index value above outer) (isOpened : (survey.hoist value outer).openScope value outer =
    (opened, some scope)) (split : value.children = before ++ child :: after) :
    let reached := before.foldl (fun survey child => visit child (some scope) survey)
      (opened.declare value scope)
    Ready reached.index child (value :: above) (some scope) ∧
      Continues (visit child (some scope) reached).index (visit value outer survey).index
        child := by
  obtain ⟨_, _, same, _, _, readyChildren⟩ := exists_opened regular ready
  cases isOpened.symm.trans same
  have distinct := regular.nodes_apart.2
  have regularChild (other : Value) (member : other ∈ before ++ child :: after) : other.Regular :=
    regular.child (split ▸ member)
  rw [split] at distinct readyChildren
  intro reached
  have readyRest := ready_after
    (fun other member => regularChild other (List.mem_append_left _ member)) distinct readyChildren
  have distinctRest := (List.nodup_append'.1 (List.flatMap_append ▸ distinct)).2.1
  obtain ⟨_, distinctAfter, apart⟩ := List.nodup_append'.1 (List.flatMap_cons ▸ distinctRest)
  refine ⟨readyRest child List.mem_cons_self, ?_⟩
  have readyAfter : ∀ other ∈ after,
      Ready (visit child (some scope) reached).index other (value :: above) (some scope) :=
    ready_after (List.forall_mem_singleton.2 (regularChild child (by simp))) distinctRest readyRest
  rw [visit_eq isOpened, split, List.foldl_append]
  apply continues_children _ distinctAfter readyAfter
  · exact fun node inside inAfter => apart (List.mem_map_of_mem inside) inAfter
  · exact fun other member =>
      regularChild other (List.mem_append_right _ (List.mem_cons_of_mem _ member))

/-- The scope that a survey goes on in is that of the nearest node that opens one, and can
be read off the index when the survey is done. -/
theorem Reaches.sound (reaches : Reaches survey value above outer path around inner)
    (regular : value.Regular) (ready : Ready survey.index value above outer)
    (continues : Continues (visit value outer survey).index later value) :
    later.Stands inner (inForce path) ∧ inner.isSome ∧
      ∀ node ∈ path.head?, inner = (later.known? node).or around := by
  induction reaches with
  | here survey value above outer =>
    obtain ⟨opened, scope, isOpened, entered, _⟩ := exists_opened regular ready
    obtain ⟨grows, known⟩ := known?_visit regular ready isOpened
    have inside := openScope_eq (survey.hoist value outer) value outer
    rw [isOpened] at inside ⊢
    refine ⟨entered.stands.extends (grows.trans continues.grows), rfl, ?_⟩
    rintro _ ⟨⟩
    rw [continues.known value value.mem_nodes_self, known]
    exact inside
  | inside isOpened split _ ih =>
    obtain ⟨readyChild, further⟩ := continues_visit regular ready isOpened split
    have member := split ▸ List.mem_append_right _ List.mem_cons_self
    exact ih (regular.child member) readyChild (further.trans (continues.below member))

end Survey

namespace ScopeIndex

variable {root : Value} {path : List Value} {around inner : Option Nat}

/-- The survey that builds an index comes to a node in this way. -/
def Reaches (root : Value) (path : List Value) (around inner : Option Nat) : Prop :=
  Survey.Reaches ⟨.empty, []⟩ root [] none path around inner

theorem amends_build (root : Value) : (Survey.visit root none ⟨.empty, []⟩).index.Amends (build
    root) := Survey.amends_settled _ _

/-- What building an index has in force at a node, the index says afterwards. -/
theorem Reaches.sound (wellFormed : root.WellFormed) (reaches : Reaches root path around inner) :
    (build root).Stands inner (inForce path) ∧ inner.isSome ∧
      ∀ node ∈ path.head?, inner = ((build root).known? node).or around := by
  have amends := amends_build root
  refine Survey.Reaches.sound reaches wellFormed.regular
    (Survey.ready_program wellFormed.program) ⟨.of_headings amends.headings, ?_⟩
  intro node _
  unfold known? owner?
  rw [amends.owners]

/-- At a node building an index has one scope in force. -/
theorem Reaches.unique {other inside : Option Nat} (wellFormed : root.WellFormed) (reaches : Reaches
    root path around inner) (also : Reaches root path other inside) : inside = inner := by
  obtain ⟨stands, isSome, _⟩ := reaches.sound wellFormed
  obtain ⟨alsoStands, alsoSome, _⟩ := also.sound wellFormed
  obtain ⟨number, rfl⟩ := Option.isSome_iff_exists.1 isSome
  obtain ⟨second, rfl⟩ := Option.isSome_iff_exists.1 alsoSome
  have distinct : ((build root).headings.map Scope.label).Nodup := by
    rw [(amends_build root).headings]
    exact (Survey.renders_program wellFormed).distinct
  obtain ⟨opener, isHead, scope, found, isLabel, _⟩ := stands.head
  obtain ⟨_, alsoHead, scopeThere, foundThere, isLabelThere, _⟩ := alsoStands.head
  cases isHead.symm.trans alsoHead
  have same : scopeThere.label = scope.label := Option.some.inj (isLabelThere.symm.trans isLabel)
  rw [eq_of_label distinct foundThere found same]

end ScopeIndex

end Unravel
