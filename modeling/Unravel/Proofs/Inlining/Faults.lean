import Unravel.Proofs.Inlining.Hygiene
import Unravel.Proofs.Tree.Holdings

/-!
Contract: helpers of a well-formed program are judged without a fault.

In a lawful node the search for references ends at identifiers only, and their
names are texts. So nothing keeps a helper from being judged (`inlineFault?`) or
searched for calls of itself (`recursionFault?`), and an expression with lawful
arguments in it is lawful (`compositional_lawful`).
-/

namespace Unravel

namespace Value

variable {value : Value}

/-! ## The search for references -/

theorem Lawful.referencePart (lawful : value.Lawful) {part : Value × Bool}
    (isPart : part ∈ value.referenceParts) : part.1.Lawful ∧ part.1.isNode := by
  have held {kind field : String} (is : value.isKind kind)
      (listed : (⟨kind, field, .node⟩ : GrammarRule) ∈ grammar) :
      (value.attr field).Lawful ∧ (value.attr field).isNode :=
    ⟨lawful.attr field, lawful.holds kind field .node listed is⟩
  unfold referenceParts at isPart
  split at isPart
  · rename_i is
    cases List.mem_singleton.1 isPart
    exact held (Bool.and_eq_true_iff.1 is).1 (by decide)
  · split at isPart
    · rename_i is
      cases List.mem_singleton.1 isPart
      exact held (Bool.and_eq_true_iff.1 is).1 (by decide)
    · split at isPart
      · rename_i is
        simp only [List.mem_cons, List.not_mem_nil, or_false] at isPart
        rcases isPart with rfl | rfl <;> exact held is (by decide)
      · split at isPart
        · rename_i is
          simp only [List.mem_cons, List.not_mem_nil, or_false] at isPart
          rcases isPart with rfl | rfl | rfl <;> exact held is (by decide)
        · obtain ⟨child, isChild, rfl⟩ := List.mem_map.1 isPart
          exact ⟨lawful.child isChild, isNode_of_mem_children isChild⟩

theorem Lawful.searchEnd {value : Value} (lawful : value.Lawful) (isNode : value.isNode)
    {conditional : Bool} {place : Value × Bool} (member : place ∈ value.searchEnds conditional) :
    place.1.Lawful ∧ place.1.isIdentifier := by
  rw [searchEnds_eq] at member
  split at member
  · rename_i isEnd
    cases List.mem_singleton.1 member
    rw [isObject_of_isNode isNode, Bool.not_true, Bool.or_false] at isEnd
    exact ⟨lawful, isEnd⟩
  · obtain ⟨part, isPart, inside⟩ := List.mem_flatMap.1 member
    obtain ⟨partLawful, partNode⟩ := lawful.referencePart isPart
    exact partLawful.searchEnd partNode inside
termination_by sizeOf value
decreasing_by exact sizeOf_lt_of_mem_referenceParts isPart

theorem Lawful.searchFault? (lawful : value.Lawful) (is : value.isIdentifier) :
    value.searchFault? = none := by
  rw [Value.searchFault?, if_pos is]
  exact lawful.nameFault? is

theorem faultWhile_eq_none {fault? : Value → Option SortFault} {goesOn : Value × Bool → Bool}
    {places : List (Value × Bool)} (each : ∀ place ∈ places, fault? place.1 = none) :
    faultWhile fault? goesOn places = none := by
  induction places with
  | nil => rfl
  | cons place rest ih =>
    rw [faultWhile, each place List.mem_cons_self, Option.none_or,
      ih fun other member => each other (List.mem_cons_of_mem _ member), ite_self]

theorem Lawful.mentionFault? (lawful : value.Lawful) (isNode : value.isNode)
    (names : List Name) : value.mentionFault? names = none :=
  faultWhile_eq_none fun _ member =>
    (lawful.searchEnd isNode member).1.searchFault? (lawful.searchEnd isNode member).2

/-! ## Substitution -/

theorem anyIterationFault?_of_isList (isList : value.isList) : value.anyIterationFault? = none := by
  rw [anyIterationFault?, iterationFault?, isSequence_of_isList isList]
  exact ite_self _

theorem substitutionFaultAll?_eq_none {arguments : Substitution} {values : List Value}
    (each : ∀ value ∈ values, value.substitutionFault? arguments = none) :
    substitutionFaultAll? arguments values = none := by
  induction values with
  | nil => rw [substitutionFaultAll?]
  | cons value rest ih =>
    rw [substitutionFaultAll?, each value List.mem_cons_self, Option.none_or,
      ih fun other member => each other (List.mem_cons_of_mem _ member), ite_self]

theorem Lawful.substitutionFault? {value : Value} (lawful : value.Lawful)
    (arguments : Substitution) : value.substitutionFault? arguments = none := by
  rw [Value.substitutionFault?]
  split
  · rfl
  · rename_i kind is
    split
    · rename_i isIdentifier
      exact lawful.nameFault? (by rw [Value.isIdentifier, isKind, is, isIdentifier]; rfl)
    · split
      · rfl
      · split
        · rw [(lawful.attr "left").substitutionFault?, (lawful.attr "right").substitutionFault?]
          rfl
        · split
          · rename_i isCall
            have inArguments := substitutionFaultAll?_eq_none fun item isItem =>
              ((lawful.attr "arguments").item isItem).substitutionFault? arguments
            dsimp only
            rw [anyIterationFault?_of_isList (lawful.arguments (isCall ▸ is)), inArguments]
            split
            · rename_i isIdentifier
              rw [(lawful.attr "callee").nameFault? isIdentifier]
              simp
            · rw [(lawful.attr "callee").substitutionFault?]
              simp
          · split
            · rw [(lawful.attr "object").substitutionFault?,
                (lawful.attr "property").substitutionFault?]
              simp
            · exact lawful.mentionFault? (isNode_of_kind? is) _
termination_by sizeOf value
decreasing_by
  all_goals first
    | exact sizeOf_attr_lt_of_kind? _ ‹value.kind? = some _›
    | exact Nat.lt_trans (List.sizeOf_lt_of_mem ‹_ ∈ _›) (sizeOf_items_lt _ ‹value.kind? = some _›)

theorem compositional_lawful : Compositional Lawful where
  null := lawful_of_leaf .null
  attr _ lawful := lawful.attr
  item _ lawful _ := lawful.item
  list _ := lawful_list
  set _ name part lawful newLawful isPart := by
    -- No rule is about callees or properties.
    have table : ∀ rule ∈ grammar, rule.field ∉ ["callee", "property"] ∧
        (rule.field ∈ ["left", "right", "object"] → rule.holding = .node) ∧
        (rule.field = "arguments" → rule.holding = .list) := by decide
    refine lawful.setPart (fun rule listed isField => ?_) newLawful
    obtain ⟨free, nodes, lists⟩ := table rule listed
    subst isField
    rcases isPart with inFree | ⟨inNodes, isNode⟩ | ⟨isArguments, items, rfl⟩
    · exact absurd inFree free
    · rwa [nodes inNodes]
    · rw [lists isArguments]
      rfl

end Value

namespace Pass.Inlining

open Value

variable {value function : Value}

/-! ## Helpers -/

/-- A lawful function with a body of its own and a list of parameters. -/
structure Helper (function : Value) : Prop where
  lawful : function.Lawful
  kind : function.isKind "FunctionDeclaration" = true ∨ function.isKind "FunctionExpression" = true

namespace Helper

theorem isObject (helper : Helper function) : function.isObject :=
  helper.kind.elim (fun is => isObject_of_kind? (kind?_of_isKind is))
    fun is => isObject_of_kind? (kind?_of_isKind is)

theorem params (helper : Helper function) : (function.attr "params").isList := by
  rcases helper.kind with is | is
  · exact helper.lawful.holds "FunctionDeclaration" "params" .list (by decide) is
  · exact helper.lawful.holds "FunctionExpression" "params" .list (by decide) is

theorem body (helper : Helper function) : (function.attr "body").isNode := by
  rcases helper.kind with is | is
  · exact helper.lawful.holds "FunctionDeclaration" "body" .node (by decide) is
  · exact helper.lawful.holds "FunctionExpression" "body" .node (by decide) is

end Helper

theorem lawful_returned (lawful : function.Lawful) : (returned function).Lawful :=
  compositional_lawful.returned (lawful.attr "body")

theorem isNode_returned (lawful : function.Lawful) (simple : isSimple function)
    (present : (returned function).isNull = false) : (returned function).isNode := by
  obtain ⟨_, single⟩ := Bool.and_eq_true_iff.1 simple
  split at single
  · rename_i statement only
    have isReturned : returned function = statement.attr "argument" := by simp [returned, only]
    have isStatement : statement ∈ ((function.attr "body").attr "body").items := by simp [only]
    have admits := (((lawful.attr "body").attr "body").item isStatement).holds "ReturnStatement"
      "argument" .maybeNode (by decide) single
    rwa [← isReturned, Holding.admits, present] at admits
  · cases single

theorem simplicityFault?_of_lawful (lawful : function.Lawful) :
    simplicityFault? function = none := by
  unfold simplicityFault?
  dsimp only
  split
  · rename_i is
    rw [lengthFault?, if_pos (isSequence_of_isList ((lawful.attr "body").statements is))]
  · rfl

theorem purityFault?_of_lawful (lawful : value.Lawful) : purityFault? value = none := by
  unfold purityFault?
  split
  · rename_i is
    exact keyFault?_of_isText (lawful.holds "UnaryExpression" "operator" .text (by decide) is)
  · rfl

theorem safetyFault?_of_lawful (index : ScopeIndex) {expression : Value}
    (lawful : expression.Lawful) (isNode : expression.isNode) {arguments : Substitution}
    (given : ∀ entry ∈ arguments, entry.2.Lawful) (functionScope callScope : Option Nat) :
    safetyFault? index expression arguments functionScope callScope = none := by
  have searched : faultWhile (referenceFault? arguments)
      (mayMove index arguments functionScope callScope) (expression.searchEnds false) = none := by
    refine faultWhile_eq_none fun place member => ?_
    obtain ⟨placeLawful, isIdentifier⟩ := lawful.searchEnd isNode member
    rw [referenceFault?, placeLawful.searchFault? isIdentifier]
    cases found : place.1.name?.bind (Names.get? arguments) with
    | none => rfl
    | some argument =>
      obtain ⟨name, _, isArgument⟩ := Option.bind_eq_some_iff.1 found
      obtain ⟨spelling, among⟩ := Names.mem_of_get? isArgument
      exact purityFault?_of_lawful (given _ among)
  have purity : (arguments.findSome? fun entry => purityFault? entry.2) = none :=
    List.findSome?_eq_none_iff.2 fun entry member => purityFault?_of_lawful (given entry member)
  unfold safetyFault?
  dsimp only
  rw [searched, purity, fieldsFault?_of_isNode isNode]
  simp

theorem inlineFault?_of_helper (index : ScopeIndex) (helper : Helper function) {arguments : List
    Value} (given : ∀ argument ∈ arguments, argument.Lawful) (functionScope callScope : Option Nat)
    : inlineFault? index function arguments functionScope callScope = none := by
  have params := helper.params
  unfold inlineFault?
  rw [simplicityFault?_of_lawful helper.lawful]
  dsimp only
  split
  · rfl
  · rename_i judged
    rw [anyLengthFault?, lengthFault?, if_pos (isSequence_of_isList params), ite_self]
    dsimp only
    split
    · rfl
    · rename_i fits
      simp only [Bool.or_eq_true, not_or, Bool.not_eq_true, Bool.not_eq_false'] at judged fits
      obtain ⟨⟨_, present⟩, identifiers⟩ := fits
      have names : (function.attr "params").elements.findSome? nameFault? = none := by
        refine List.findSome?_eq_none_iff.2 fun parameter member => ?_
        have isItem := member
        rw [elements_of_isList params] at isItem
        exact ((helper.lawful.attr "params").item isItem).nameFault?
          (List.all_eq_true.1 identifiers parameter member)
      rw [names]
      split
      · rfl
      · rename_i parameters _
        have among (entry : Name × Value) (member : entry ∈ Names.ofList (parameters.zip arguments))
            : entry.2.Lawful := given _ (Inlined.mem_arguments member)
        have lawful := lawful_returned helper.lawful
        rw [safetyFault?_of_lawful index lawful (isNode_returned helper.lawful judged.1 present) among,
          lawful.substitutionFault?, ite_self]
        rfl

/-! ## Calls of itself -/

theorem lawful_of_mem_nodesFromEnd {value : Value} (lawful : value.Lawful) :
    ∀ node ∈ nodesFromEnd value, node.Lawful := by
  intro node member
  rw [nodesFromEnd] at member
  rcases List.mem_cons.1 member with rfl | below
  · exact lawful
  · obtain ⟨child, _, inside⟩ := List.mem_flatMap.1 below
    exact lawful_of_mem_nodesFromEnd (lawful.child child.property) node inside
termination_by sizeOf value
decreasing_by exact sizeOf_lt_of_mem_children child.property

theorem isKind_of_callee? {value callee : Value} (calls : callee? value = some callee) :
    value.isKind "CallExpression" ∧ callee = value.attr "callee" ∧ callee.isIdentifier := by
  unfold callee? at calls
  split at calls
  · rename_i is
    cases calls
    obtain ⟨isCall, isIdentifier⟩ := Bool.and_eq_true_iff.1 is
    exact ⟨isCall, rfl, isIdentifier⟩
  · cases calls

theorem exists_name_of_callee? (lawful : value.Lawful) {callee : Value}
    (calls : callee? value = some callee) : ∃ name, callee.name? = some name := by
  obtain ⟨_, rfl, isIdentifier⟩ := isKind_of_callee? calls
  have isText := (lawful.attr "callee").name isIdentifier
  rw [name?]
  cases held : (value.attr "callee").attr "name" with
  | text spelling => exact ⟨.text spelling, rfl⟩
  | null | bool _ | number _ | list _ | record _ _ | node _ _ _ =>
    rw [held] at isText
    cases isText

theorem searchNodes_ne_failed (tracked : List Name) (name : Name) {nodes : List Value}
    (lawful : ∀ node ∈ nodes, node.Lawful) (seen pending : List Name) (fault : SortFault) :
    searchNodes tracked name nodes seen pending ≠ .failed fault := by
  induction nodes generalizing seen pending with
  | nil =>
    intro failed
    cases failed
  | cons node rest ih =>
    have further := ih fun other member =>
      lawful other (List.mem_cons_of_mem _ member)
    rw [searchNodes]
    cases calls : callee? node with
    | none => exact further seen pending
    | some callee =>
      obtain ⟨called, isName⟩ := exists_name_of_callee? (lawful node List.mem_cons_self) calls
      dsimp only
      rw [isName]
      dsimp only
      split
      · intro failed
        cases failed
      · split <;> exact further _ _

theorem recursionFault?_of_lawful {body? : Name → Option Value}
    (bodies : ∀ name body, body? name = some body → body.Lawful ∧ body.isNode)
    (tracked : List Name) (name : Name) : recursionFault? body? tracked name = none := by
  have search (fuel : Nat) (seen pending : List Name) :
      searchFailure? body? tracked name fuel seen pending = none := by
    induction fuel generalizing seen pending with
    | zero => rfl
    | succ fuel ih =>
      cases pending with
      | nil => rfl
      | cons next pending =>
        rw [searchFailure?]
        cases held : body? next with
        | none => exact ih seen pending
        | some body =>
          obtain ⟨lawful, isNode⟩ := bodies next body held
          dsimp only
          rw [searchBody, fieldsFault?_of_isNode isNode]
          cases searched : searchNodes tracked name (nodesFromEnd body) seen pending with
          | found => rfl
          | failed fault =>
            exact absurd searched (searchNodes_ne_failed tracked name
              (lawful_of_mem_nodesFromEnd lawful) seen pending fault)
          | passed seen pending => exact ih seen pending
  exact search _ _ _

end Pass.Inlining

end Unravel
