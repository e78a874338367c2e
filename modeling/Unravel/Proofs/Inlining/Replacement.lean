import Unravel.Proofs.Inlining.Substituted

/-!
Contract: what is known of a replacement that `inline?` gives.

`inline?_eq_some` says what was checked, and that the replacement is remade. From it: a
replacement is a node, and its objects are like those of the function and the arguments.
-/

namespace Unravel

open Pass.Inlining Value

variable {value function result : Value} {mark : Mark} {index : ScopeIndex} {arguments : List Value}
  {functionScope callScope : Option Nat} {parameters : List Name}

/-- What `inline?` has checked when it gives a replacement. -/
structure Inlined (index : ScopeIndex) (function : Value) (arguments : List Value)
    (functionScope callScope : Option Nat) (parameters : List Name) (result : Value) : Prop where
  simple : isSimple function = true
  expressions : areExpressions arguments = true
  named : parameterNames? function = some parameters
  length : parameters.length = arguments.length
  present : returned function ≠ .null
  safe : isSafe index (returned function) (Names.ofList (parameters.zip arguments)) functionScope
    callScope = true
  substituted : Substituted (Names.ofList (parameters.zip arguments)) (returned function) result

theorem inline?_eq_some {build : Fresh Value}
    (found : inline? index function arguments functionScope callScope = some build) :
    ∃ parameters result,
      Inlined index function arguments functionScope callScope parameters result ∧
        Remakes (returned function) result build := by
  unfold inline? at found
  split at found
  · cases found
  · rename_i simple
    split at found
    · cases found
    · rename_i expressions
      split at found
      · cases found
      · rename_i parameters named
        split at found
        · cases found
        · rename_i length
          dsimp only at found
          split at found
          · cases found
          · rename_i present
            split at found
            · rename_i safe
              obtain ⟨result, substituted, remakes⟩ := exists_substituted _ found
              refine ⟨parameters, result, ⟨by simpa using simple, by simpa using expressions, named,
                by simpa using length, ?_, safe, substituted⟩, remakes⟩
              intro null
              rw [null] at present
              exact present rfl
            · cases found

namespace Inlined

theorem mem_arguments {entry : Name × Value}
    (member : entry ∈ Names.ofList (parameters.zip arguments)) : entry.2 ∈ arguments := by
  obtain ⟨pair, inPairs, same⟩ := Names.mem_ofList member
  rw [← same]
  exact (List.of_mem_zip inPairs).2

variable (inlined : Inlined index function arguments functionScope callScope parameters result)

include inlined

theorem areNodes : Substitution.AreNodes (Names.ofList (parameters.zip arguments)) := by
  intro entry member
  have checked := List.all_eq_true.1 inlined.expressions _ (mem_arguments member)
  exact (Bool.and_eq_true_iff.1 checked).1

theorem isNode : result.isNode := inlined.substituted.isNode_result inlined.areNodes

end Inlined

/-! ## Parts -/

/-- The part may be put into the attribute in the course of a substitution. -/
def IsPart (name : String) (part : Value) : Prop :=
  name ∈ ["callee", "property"] ∨ name ∈ ["left", "right", "object"] ∧ part.isNode = true ∨
    name = "arguments" ∧ ∃ items, part = .list items

/-- What holds of a value holds of its parts, and stays so when parts are exchanged for
others of which it holds. -/
structure Compositional (holds : Value → Prop) : Prop where
  null : holds .null
  attr : ∀ ⦃value⦄, holds value → ∀ name, holds (value.attr name)
  item : ∀ ⦃value⦄, holds value → ∀ item ∈ value.items, holds item
  list : ∀ ⦃items⦄, (∀ item ∈ items, holds item) → holds (.list items)
  set : ∀ ⦃value name part⦄, holds value → holds part → IsPart name part →
    holds (value.setAttr name part)

section

variable {holds : Value → Prop} (compositional : Compositional holds)

include compositional

theorem Compositional.substituted {arguments : Substitution} (nodes : arguments.AreNodes) (given :
    ∀ entry ∈ arguments, holds entry.2) (substituted : Substituted arguments value result) (all :
    holds value) : holds result := by
  obtain ⟨_, attr, item, list, set⟩ := compositional
  have setItems {call : Value} {items replaced : List Value} (inCall : holds call) (among : ∀ item ∈
      items, holds item) (length : replaced.length = items.length) (each : ∀ pair ∈ items.zip
      replaced, holds pair.1 → holds pair.2) : holds (call.setAttr "arguments" (.list replaced)) := by
    refine set inCall (list fun item member => ?_) (.inr (.inr ⟨rfl, _, rfl⟩))
    have seconds : (items.zip replaced).map Prod.snd = replaced :=
      List.map_snd_zip (Nat.le_of_eq length)
    rw [← seconds] at member
    obtain ⟨pair, inPairs, rfl⟩ := List.mem_map.1 member
    exact each pair inPairs (among _ (List.of_mem_zip inPairs).1)
  have setNode {value part : Value} {name : String} (all : holds value) (inPart : holds part)
      (isNode : part.isNode) (listed : name ∈ ["left", "right", "object"]) :
      holds (value.setAttr name part) := set all inPart (.inr (.inl ⟨listed, isNode⟩))
  induction substituted with
  | argument is named found present =>
    obtain ⟨spelling, member⟩ := Names.mem_of_get? found
    exact given _ member
  | other => exact all
  | kept => exact all
  | operands is inLeft inRight left right =>
    refine setNode ?_ (right (attr all _)) (inRight.isNode_result nodes) (by decide)
    exact setNode all (left (attr all _)) (inLeft.isNode_result nodes) (by decide)
  | namedCall is calls free length inArguments each =>
    refine setItems ?_ (item (attr all _)) length each
    exact set all (attr all _) (.inl (by decide))
  | call is unnamed inCallee length inArguments callee each =>
    refine setItems ?_ (item (attr all _)) length each
    exact set all (callee (attr all _)) (.inl (by decide))
  | computedMember is computed inObject inProperty object property =>
    refine set ?_ (property (attr all _)) (.inl (by decide))
    exact setNode all (object (attr all _)) (inObject.isNode_result nodes) (by decide)
  | member is named present inObject object =>
    refine set ?_ (attr all _) (.inl (by decide))
    exact setNode all (object (attr all _)) (inObject.isNode_result nodes) (by decide)

theorem Compositional.returned (inBody : holds (function.attr "body")) :
    holds (returned function) := by
  unfold Pass.Inlining.returned
  split
  · rename_i statement rest found
    refine compositional.attr (compositional.item (compositional.attr inBody "body") _ ?_) _
    rw [found]
    exact List.mem_cons_self
  · exact compositional.null

theorem Compositional.inlined (inlined : Inlined index function arguments functionScope callScope
    parameters result) (inBody : holds (function.attr "body")) (inArguments : ∀ argument ∈
    arguments, holds argument) : holds result :=
  compositional.substituted inlined.areNodes (fun _ member => inArguments _
    (Inlined.mem_arguments member)) inlined.substituted (compositional.returned inBody)

end

/-- The property of an object survives one more attribute. -/
def Value.Mark.Grows (mark : Mark) : Prop :=
  ∀ label kind names name, name ∉ names → mark label kind names → mark label kind (names ++ [name])

theorem compositional_everywhere (grows : mark.Grows) :
    Compositional fun value => value.Everywhere mark where
  null := everywhere_null
  attr _ all := everywhere_attr all
  item _ all _ := everywhere_items all
  list _ := everywhere_list.2
  set _ name _ all inPart _ :=
    everywhere_setAttr all inPart fun label absent here => grows label _ _ name absent here

/-- The objects of a replacement are like those of the function and the
arguments. -/
theorem Inlined.everywhere (grows : mark.Grows) (inlined : Inlined index function arguments
    functionScope callScope parameters result) (inFunction : function.Within mark) (inArguments
    : ∀ argument ∈ arguments, argument.Everywhere mark) : result.Everywhere mark :=
  (compositional_everywhere grows).inlined inlined (within_attr inFunction "body") inArguments

end Unravel
