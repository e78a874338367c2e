import Mathlib.Algebra.Order.BigOperators.Group.List
import Mathlib.Algebra.Order.Group.Nat
import Mathlib.Data.List.Forall2
import Unravel.Proofs.Inlining.Meaning
import Unravel.Proofs.Inlining.Replacement
import Unravel.Proofs.Tree.Programs

/-!
Contract: when a replacement computes what the call computed.

Owns: `expression?`, which reads literals, variables, binary operators and
assignments off a syntax tree. A replacement of such a call always leaves the
store that the call leaves. It need not have its value: `inline?` looks at the
order of side effects among the arguments, but not at variables that are read
on the other side of an assignment. `inline?_preserves_iff` says exactly when
it has.
-/

namespace Unravel

open Pass.Inlining

namespace Value

/-! ## Reading expressions -/

/-- The name of an identifier that is spelled by a text. -/
def spelling? (value : Value) : Option String :=
  if value.isIdentifier then (value.attr "name").text? else none

/-- The expression that a node is, unless it has parts of other kinds. Literals are as
they are written, labels aside. -/
def expression? (value : Value) : Option Expression :=
  match _isNode : value.kind? with
  | none => none
  | some kind =>
    if kind = "Literal" then some (.literal value.unlabelled)
    else if kind = "Identifier" then value.spelling?.map .read
    else if kind = "BinaryExpression" then do
      let operator ← (value.attr "operator").text?
      let left ← expression? (value.attr "left")
      let right ← expression? (value.attr "right")
      return .binary operator left right
    else if kind = "AssignmentExpression" && value.hasText "operator" "=" then do
      let target ← (value.attr "left").spelling?
      let assigned ← expression? (value.attr "right")
      return .assign target assigned
    else none
termination_by sizeOf value
decreasing_by all_goals exact sizeOf_attr_lt_of_kind? _ _isNode

/-- How a node spells an expression, one level deep. -/
def Spells (value : Value) : Expression → Prop
  | .literal held => value.kind? = some "Literal" ∧ held = value.unlabelled
  | .read name => value.kind? = some "Identifier" ∧ value.attr "name" = .text name
  | .binary operator left right =>
    value.kind? = some "BinaryExpression" ∧ value.attr "operator" = .text operator ∧ (value.attr
      "left").expression? = some left ∧ (value.attr "right").expression? = some right
  | .assign target assigned =>
    value.kind? = some "AssignmentExpression" ∧ value.attr "operator" = .text "=" ∧ (value.attr
      "left").kind? = some "Identifier" ∧ (value.attr "left").attr "name" = .text target ∧
      (value.attr "right").expression? = some assigned

variable {value : Value} {expression : Expression}

theorem spelling?_eq_some {name : String} : value.spelling? = some name ↔
      value.kind? = some "Identifier" ∧ value.attr "name" = .text name := by
  simp [spelling?, isIdentifier, isKind, text?_eq_some]

theorem expression?_eq_some : value.expression? = some expression ↔ value.Spells expression := by
  rw [expression?]
  split
  · rename_i none
    cases expression <;> simp [Spells, none]
  · rename_i kind is
    split_ifs with literal read binary assign
    · subst literal
      cases expression <;> simp [Spells, is, eq_comm]
    · subst read
      cases expression <;> simp [Spells, is, spelling?_eq_some]
    · subst binary
      cases expression <;> simp [Spells, is, Option.bind_eq_some_iff, text?_eq_some]
    · obtain ⟨isAssign, operator⟩ := Bool.and_eq_true_iff.1 assign
      rw [decide_eq_true_iff] at isAssign
      subst isAssign
      have isPlain : value.attr "operator" = .text "=" := text?_eq_some.1 (eq_of_beq operator)
      cases expression <;>
        simp [Spells, is, isPlain, Option.bind_eq_some_iff, spelling?_eq_some, and_assoc]
    · cases expression <;> simp [Spells, is, literal, read, binary]
      rintro rfl isPlain
      exact absurd (by simp [hasText, isPlain, text?]) assign

theorem Twins.attr {other : Value} (twins : value.Twins other) (name : String) :
    (value.attr name).Twins (other.attr name) := by
  have same := congrArg (fun whole => whole.attr name) twins
  rwa [attr_unlabelled, attr_unlabelled] at same

theorem Twins.eq_text {other : Value} {text : String} (twins : value.Twins other)
    (is : value = .text text) : other = .text text := by
  subst is
  cases other <;> first | exact twins.symm | cases twins

/-- Values that differ in labels only are the same expression. -/
theorem Twins.expression? {value other : Value} (twins : value.Twins other)
    (spelled : value.expression? = some expression) : other.expression? = some expression := by
  rw [expression?_eq_some] at spelled ⊢
  induction expression generalizing value other with
  | literal held => exact ⟨twins.kind?.trans spelled.1, spelled.2.trans twins⟩
  | read name => exact ⟨twins.kind?.trans spelled.1, (twins.attr "name").eq_text spelled.2⟩
  | binary operator left right inLeft inRight =>
    obtain ⟨is, isOperator, isLeft, isRight⟩ := spelled
    refine ⟨twins.kind?.trans is, (twins.attr _).eq_text isOperator, ?_, ?_⟩
    · exact expression?_eq_some.2 (inLeft (twins.attr "left") (expression?_eq_some.1 isLeft))
    · exact expression?_eq_some.2 (inRight (twins.attr "right") (expression?_eq_some.1 isRight))
  | assign target assigned inAssigned =>
    obtain ⟨is, isOperator, isTarget, isNamed, isAssigned⟩ := spelled
    refine ⟨twins.kind?.trans is, (twins.attr _).eq_text isOperator,
      (twins.attr "left").kind?.trans isTarget, ((twins.attr "left").attr "name").eq_text isNamed, ?_⟩
    exact expression?_eq_some.2 (inAssigned (twins.attr "right") (expression?_eq_some.1 isAssigned))

theorem isNode_of_expression? (spelled : value.expression? = some expression) : value.isNode := by
  rw [expression?_eq_some] at spelled
  cases expression <;> exact isNode_iff_kind?.2 ⟨_, spelled.1⟩

theorem isPure_of_expression? (spelled : value.expression? = some expression) :
    isPure value = expression.isAtom := by
  rw [expression?_eq_some] at spelled
  cases expression <;> simp [isPure, isKind, spelled.1, Expression.isAtom]

/-! ## Parts of expressions -/

variable {kind : String}

theorem children_of_operands (is : value.kind? = some kind) (listed : Members.get? childTable kind =
    some ["left", "right"]) (leftNode : (value.attr "left").isNode) (rightNode : (value.attr
    "right").isNode) : value.children = [value.attr "left", value.attr "right"] := by
  rw [children_of_kind is listed]
  simp [slotNodes_of_isNode leftNode, slotNodes_of_isNode rightNode]

theorem referenced_of_operands (is : value.kind? = some kind) (listed : kind = "BinaryExpression" ∨
    kind = "AssignmentExpression") (leftNode : (value.attr "left").isNode) (rightNode : (value.attr
    "right").isNode) : value.referenced = (value.attr "left").referenced ++ (value.attr
    "right").referenced := by
  have operands : value.children = [value.attr "left", value.attr "right"] := by
    apply children_of_operands is _ leftNode rightNode
    rcases listed with rfl | rfl <;> rfl
  have others : kind ≠ "Identifier" ∧ kind ≠ "MemberExpression" ∧ kind ≠ "Property" ∧
      kind ≠ "LogicalExpression" ∧ kind ≠ "ConditionalExpression" := by
    rcases listed with rfl | rfl <;> decide
  rw [referenced_of_parts is others.1, referenceParts_of_children is (fun isMember => absurd
    isMember others.2.1) others.2.2.1 others.2.2.2.1 others.2.2.2.2, operands]
  simp

/-- The references of an expression are to its variables, in order. -/
theorem names_referenced (spelled : value.expression? = some expression) :
    value.referenced.map name? = expression.names.map fun name => some (Name.text name) := by
  have named {held : Value} {name : String} (is : held.kind? = some "Identifier") (text : held.attr
      "name" = .text name) : held.referenced.map name? = [some (Name.text name)] := by
    rw [referenced_of_isIdentifier (by simp [isIdentifier, isKind, is])]
    simp [name?, text, Name.ofValue?]
  induction expression generalizing value with
  | literal held =>
    obtain ⟨is, _⟩ := expression?_eq_some.1 spelled
    rw [referenced_of_parts is (by decide), referenceParts_of_children is (fun isMember => absurd
      isMember (by decide)) (by decide) (by decide) (by decide), children_of_kind is rfl]
    rfl
  | read name =>
    obtain ⟨is, text⟩ := expression?_eq_some.1 spelled
    exact named is text
  | binary operator left right inLeft inRight =>
    obtain ⟨is, _, spelledLeft, spelledRight⟩ := expression?_eq_some.1 spelled
    rw [referenced_of_operands is (.inl rfl) (isNode_of_expression? spelledLeft)
      (isNode_of_expression? spelledRight), List.map_append, inLeft spelledLeft,
      inRight spelledRight, Expression.names, List.map_append]
  | assign target assigned inAssigned =>
    obtain ⟨is, _, isTarget, text, spelledRight⟩ := expression?_eq_some.1 spelled
    rw [referenced_of_operands is (.inr rfl) (isNode_iff_kind?.2 ⟨_, isTarget⟩)
      (isNode_of_expression? spelledRight), List.map_append, named isTarget text,
      inAssigned spelledRight]
    rfl

theorem hasEffects_of_assigns (spelled : value.expression? = some expression)
    (assigns : expression.assigns) : hasEffects value := by
  induction expression generalizing value with
  | literal held => cases assigns
  | read name => cases assigns
  | assign target assigned =>
    obtain ⟨is, _⟩ := expression?_eq_some.1 spelled
    unfold hasEffects
    rw [nodes_eq]
    simp [isEffect, is, effectKinds]
  | binary operator left right inLeft inRight =>
    obtain ⟨is, _, spelledLeft, spelledRight⟩ := expression?_eq_some.1 spelled
    unfold hasEffects at inLeft inRight ⊢
    rw [nodes_eq, children_of_operands is rfl (isNode_of_expression? spelledLeft)
      (isNode_of_expression? spelledRight)]
    rw [Expression.assigns, Bool.or_eq_true] at assigns
    rcases assigns with inFirst | inSecond
    · simp [inLeft spelledLeft inFirst]
    · simp [inRight spelledRight inSecond]

end Value

/-! ## Arguments -/

/-- Arguments by parameter, as nodes and as expressions. -/
structure Given (parameters : List String) (nodes : List Value) (arguments : List Expression) :
    Prop where
  distinct : parameters.Nodup
  length : parameters.length = arguments.length
  spelled : List.Forall₂ (fun node argument => node.expression? = some argument) nodes arguments

namespace Given

open Value

variable {parameters : List String} {nodes : List Value} {arguments : List Expression}

/-- The substitution of the arguments. -/
def substitution (parameters : List String) (nodes : List Value) : Substitution :=
  Names.ofList ((parameters.map Name.text).zip nodes)

theorem isIn_map_text (name : String) (names : List String) :
    (Name.text name).isIn (names.map Name.text) = decide (name ∈ names) := by
  rw [Bool.eq_iff_iff]
  simp [Name.isIn, Name.same_text_iff]

variable (given : Given parameters nodes arguments)

include given

theorem substitution_eq : substitution parameters nodes = (parameters.map Name.text).zip nodes := by
  apply Names.ofList_of_distinct
  have length : (parameters.map Name.text).length ≤ nodes.length := by
    rw [List.length_map, given.length, given.spelled.length_eq]
  have keys : ((parameters.map Name.text).zip nodes).map (fun entry => entry.1.key) =
      parameters.map Name.text := by
    change ((parameters.map Name.text).zip nodes).map (Name.key ∘ Prod.fst) = _
    rw [← List.map_map, List.map_fst_zip length, List.map_map]
    rfl
  unfold Names.Distinct
  rw [keys]
  exact List.Nodup.map (fun _ _ same => Name.text.inj same) given.distinct

theorem get?_substitution (name : String) : (Names.get? (substitution parameters nodes) (.text
    name)).map expression? = ((parameters.zip arguments).lookup name).map some := by
  rw [given.substitution_eq]
  have spelled := given.spelled
  clear given
  induction spelled generalizing parameters with
  | nil => cases parameters <;> rfl
  | @cons node argument others later first _ ih =>
    cases parameters with
    | nil => rfl
    | cons parameter rest =>
      have same : (Name.text parameter).same (.text name) = (name == parameter) := by
        rw [Bool.eq_iff_iff, Name.same_text_iff, beq_iff_eq]
        exact eq_comm
      rw [List.map_cons, List.zip_cons_cons, List.zip_cons_cons, Names.get?, List.lookup_cons, same]
      cases name == parameter with
      | true => exact congrArg some first
      | false => exact ih

theorem impureNames_substitution : impureNames (substitution parameters nodes) = (Meaning.impure
    (parameters.zip arguments)).map Name.text := by
  rw [given.substitution_eq]
  have spelled := given.spelled
  clear given
  unfold impureNames Meaning.impure
  induction spelled generalizing parameters with
  | nil => cases parameters <;> rfl
  | @cons node argument others later first _ ih =>
    cases parameters with
    | nil => rfl
    | cons parameter rest =>
      have pure := isPure_of_expression? first
      cases isAtom : argument.isAtom with
      | true => simp [pure, isAtom, ih]
      | false => simp [pure, isAtom, ih]

/-! ## Substitution -/

variable {value result : Value} {body : Expression} (spelled : value.expression? = some body)

include spelled

theorem not_mem_of_mentions (unmentioned : value.mentions (Names.keys (substitution parameters
    nodes)) = false) (name : String) (member : name ∈ body.names) : name ∉ parameters := by
  intro isParameter
  have keys : Names.keys (substitution parameters nodes) = parameters.map Name.text := by
    rw [given.substitution_eq, Names.keys, List.map_fst_zip]
    rw [List.length_map, given.length, given.spelled.length_eq]
  have among : some (Name.text name) ∈ value.referenced.map name? := by
    rw [names_referenced spelled]
    exact List.mem_map_of_mem member
  obtain ⟨reference, isReference, named⟩ := List.mem_map.1 among
  have isOne : reference.isOneOf (Names.keys (substitution parameters nodes)) := by
    simp only [isOneOf, identifier?, isIdentifier_of_mem_referenced isReference, ↓reduceIte, named,
      keys]
    exact List.any_eq_true.2 ⟨_, List.mem_map_of_mem isParameter, Name.same_self _⟩
  obtain ⟨entry, isEntry, rfl⟩ := List.mem_map.1 isReference
  rw [mentions, List.any_eq_false] at unmentioned
  exact unmentioned entry isEntry isOne

/-- A substitution puts arguments in the place of parameters, and refuses bodies
in which an assignment mentions one. -/
theorem expression?_of_substituted
    (substituted : Substituted (substitution parameters nodes) value result) :
    result.expression? = some (body.put (parameters.zip arguments)) ∧ body.Spares parameters := by
  induction body generalizing value result with
  | literal held =>
    obtain ⟨is, _⟩ := expression?_eq_some.1 spelled
    obtain ⟨rfl, _⟩ := substituted.eq_of_not_open is (by decide)
    exact ⟨spelled, trivial⟩
  | read name =>
    obtain ⟨is, text⟩ := expression?_eq_some.1 spelled
    have named : value.name? = some (.text name) := by simp [name?, text, Name.ofValue?]
    refine ⟨?_, trivial⟩
    have found := given.get?_substitution name
    rcases substituted.eq_of_identifier is named with ⟨isGiven, _⟩ | ⟨rfl, free⟩
    · rw [isGiven] at found
      cases held : (parameters.zip arguments).lookup name with
      | none =>
        rw [held] at found
        cases found
      | some argument =>
        simpa [Expression.put, held] using found
    · cases held : (parameters.zip arguments).lookup name with
      | none => simpa [Expression.put, held] using spelled
      | some argument =>
        rw [held] at found
        obtain ⟨node, isGiven, isNode⟩ := Option.map_eq_some_iff.1 found
        rw [free node isGiven, expression?_eq_some] at isNode
        cases argument <;> cases isNode.1
  | binary operator left right inLeft inRight =>
    obtain ⟨is, isOperator, spelledLeft, spelledRight⟩ := expression?_eq_some.1 spelled
    obtain ⟨newLeft, newRight, rfl, substitutedLeft, substitutedRight⟩ := substituted.of_binary is
    obtain ⟨leftResult, sparesLeft⟩ := inLeft spelledLeft substitutedLeft
    obtain ⟨rightResult, sparesRight⟩ := inRight spelledRight substitutedRight
    have isObject := isObject_of_kind? is
    have stays : (value.setAttr "left" newLeft).isObject :=
      isObject_of_kind? (by rw [kind?_setAttr, is])
    refine ⟨expression?_eq_some.2 ⟨?_, ?_, ?_, ?_⟩, sparesLeft, sparesRight⟩
    · rw [kind?_setAttr, kind?_setAttr, is]
    · simpa [attr_setAttr stays, attr_setAttr isObject] using isOperator
    · simpa [attr_setAttr stays, attr_setAttr isObject] using leftResult
    · simpa [attr_setAttr stays] using rightResult
  | assign target assigned =>
    obtain ⟨is, _⟩ := expression?_eq_some.1 spelled
    obtain ⟨rfl, isLiteral | unmentioned⟩ := substituted.eq_of_not_open is (by decide)
    · exact absurd isLiteral (by decide)
    · have apart := given.not_mem_of_mentions spelled unmentioned
      exact ⟨spelled, apart target List.mem_cons_self,
        fun name member => apart name (List.mem_cons_of_mem _ member)⟩

theorem impureUses_eq : impureUses (substitution parameters nodes) (value.references false) =
    (body.names.filter (· ∈ Meaning.impure (parameters.zip arguments))).map Name.text := by
  have byName : impureUses (substitution parameters nodes) (value.references false) =
      (value.referenced.map name?).filterMap (Option.filter fun name =>
        name.isIn (impureNames (substitution parameters nodes))) := by
    unfold impureUses referenced
    rw [List.map_map, List.filterMap_map]
    rfl
  rw [byName, names_referenced spelled, given.impureNames_substitution]
  induction body.names with
  | nil => rfl
  | cons name rest ih =>
    rw [List.map_cons, List.filterMap_cons, ih, Option.filter_some, isIn_map_text]
    by_cases among : name ∈ Meaning.impure (parameters.zip arguments)
    · simp [among]
    · simp [among]

/-- What the check of side effects says about the expressions. -/
theorem orderly_of_isSafe {index : ScopeIndex} {functionScope callScope : Option Nat}
    (safe : isSafe index value (substitution parameters nodes) functionScope callScope) :
    Meaning.Orderly (parameters.zip arguments) body := by
  have keys (names : List String) : (names.map Name.text).map Name.key = names.map Name.text := by
    rw [List.map_map]
    rfl
  unfold isSafe at safe
  simp only [Bool.and_eq_true, Bool.or_eq_true, Bool.not_eq_true', beq_iff_eq] at safe
  obtain ⟨⟨_, effects⟩, uses⟩ := safe
  rw [given.impureUses_eq spelled, given.impureNames_substitution, keys, keys] at uses
  rw [given.impureNames_substitution, List.isEmpty_iff, List.map_eq_nil_iff] at effects
  rcases effects with pure | none
  · exact .inl pure
  · refine .inr ⟨?_, List.map_injective_iff.2 (fun _ _ same => Name.text.inj same) uses⟩
    rw [Bool.eq_false_iff]
    intro assigns
    rw [hasEffects_of_assigns spelled assigns] at none
    cases none

end Given

/-! ## Calls -/

open Value

theorem parameterNames?_of_spelling? {function : Value} {parameters : List String}
    (named : (function.attr "params").elements.map spelling? = parameters.map some) :
    parameterNames? function = some (parameters.map Name.text) := by
  unfold parameterNames?
  generalize (function.attr "params").elements = nodes at named
  induction nodes generalizing parameters with
  | nil =>
    cases parameters with
    | nil => rfl
    | cons parameter rest => cases named
  | cons node others ih =>
    cases parameters with
    | nil => cases named
    | cons parameter rest =>
      obtain ⟨first, remaining⟩ := List.cons.inj named
      obtain ⟨is, text⟩ := spelling?_eq_some.1 first
      have isName : node.identifier? = some (.text parameter) := by
        simp [identifier?, isIdentifier, isKind, is, name?, text, Name.ofValue?]
      rw [List.mapM_cons, isName, ih remaining]
      rfl

/-- When a call of a function with distinct parameters is replaced, and function
and arguments are made of literals, variables, binary operators and assignments,
then the replacement leaves the store that the call leaves; and it has the value
of the call, whatever literals and operators mean, just when the return
expression reads its variables in place as it does in the call. -/
theorem inline?_preserves_iff {index : ScopeIndex} {function : Value} {nodes : List Value}
    {functionScope callScope : Option Nat} {build : Value.Fresh Value} {parameters : List String}
    {arguments : List Expression} {body : Expression}
    (found : inline? index function nodes functionScope callScope = some build)
    (named : (function.attr "params").elements.map spelling? = parameters.map some)
    (distinct : parameters.Nodup)
    (returns : (returned function).expression? = some body)
    (spelled : nodes.map expression? = arguments.map some) :
    ∃ result,
      (∀ next, (build.run next).1.expression? = some result) ∧
      (∀ (V : Type) (meaning : Meaning V) (store : Store V),
        (meaning.eval result store).2 = (meaning.call parameters arguments body store).2) ∧
      ((∀ (V : Type) (meaning : Meaning V) (store : Store V),
          meaning.eval result store = meaning.call parameters arguments body store) ↔
        Meaning.Undisturbed parameters arguments body) := by
  obtain ⟨names, replacement, inlined, remakes⟩ := inline?_eq_some found
  have isNames := inlined.named
  rw [parameterNames?_of_spelling? named] at isNames
  cases isNames
  have each : List.Forall₂ (fun node argument => node.expression? = some argument) nodes
      arguments := by
    have same : List.Forall₂ (· = ·) (nodes.map expression?) (arguments.map some) := by
      rw [List.forall₂_eq_eq_eq]
      exact spelled
    rwa [List.forall₂_map_left_iff, List.forall₂_map_right_iff] at same
  have length : parameters.length = arguments.length := by
    rw [← each.length_eq, ← inlined.length, List.length_map]
  have given : Given parameters nodes arguments := ⟨distinct, length, each⟩
  obtain ⟨isResult, spares⟩ := given.expression?_of_substituted returns inlined.substituted
  exact ⟨_, fun next => (remakes.twins next).expression? isResult,
    Meaning.eval_put_iff length distinct spares (given.orderly_of_isSafe returns inlined.safe)⟩

/-- `function f(a, b) { return b + a }` -/
def swapping : Value :=
  .function 0 (.identifier 1 "f") [.identifier 2 "a", .identifier 3 "b"] (.block 4 [
    .returns 5 (.binary 6 "+" (.identifier 7 "b") (.identifier 8 "a"))])

/-- The arguments of `f(x, x = y)`. -/
def swapped : List Value :=
  [.identifier 9 "x", .assignment 10 (.identifier 11 "x") (.identifier 12 "y")]

/-- `(x = y) + x` -/
def swap : Value :=
  .binary 17 "+" (.assignment 13 (.identifier 14 "x") (.identifier 15 "y")) (.identifier 16 "x")

theorem inline?_swapping : (inline? .empty swapping swapped none none).map
    (fun build => (build.run 13).1) = some swap := by
  with_unfolding_all rfl

theorem not_undisturbed_swapping : ¬ Meaning.Undisturbed ["a", "b"] [.read "x", .assign "x" (.read
    "y")] (.binary "+" (.read "b") (.read "a")) := by
  simp [Meaning.Undisturbed, Meaning.readsWith, Meaning.placeReader, Meaning.valueReader,
    Meaning.evalAll, Meaning.evalWith, Meaning.eval, Meaning.plain, Meaning.bind, List.lookup_cons]

/-- The replacement of `f(x, x = y)` reads `x` after the assignment, which the
call reads before. -/
theorem inline?_preserves_iff_swapping :
    ∃ build result,
      inline? .empty swapping swapped none none = some build ∧
      (build.run 13).1 = swap ∧
      swap.expression? = some result ∧
      (∀ (V : Type) (meaning : Meaning V) (store : Store V),
        (meaning.eval result store).2 = (meaning.call ["a", "b"]
          [.read "x", .assign "x" (.read "y")] (.binary "+" (.read "b") (.read "a")) store).2) ∧
      ¬ ∀ (V : Type) (meaning : Meaning V) (store : Store V),
        meaning.eval result store = meaning.call ["a", "b"]
          [.read "x", .assign "x" (.read "y")] (.binary "+" (.read "b") (.read "a")) store := by
  obtain ⟨build, found, isSwap⟩ := Option.map_eq_some_iff.1 inline?_swapping
  obtain ⟨result, isResult, stores, values⟩ := inline?_preserves_iff found
    (by with_unfolding_all rfl : _ = ["a", "b"].map some) (by decide)
    (by with_unfolding_all rfl : _ = some (.binary "+" (.read "b") (.read "a")))
    (by with_unfolding_all rfl : _ = [.read "x", .assign "x" (.read "y")].map some)
  exact ⟨build, result, found, isSwap, isSwap ▸ isResult 13, stores,
    fun same => not_undisturbed_swapping (values.1 same)⟩

end Unravel
