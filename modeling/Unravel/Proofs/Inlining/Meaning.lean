import Mathlib.Data.List.Basic
import Mathlib.Logic.Function.Basic
import Unravel.Tree.Value

/-!
Contract: what small expressions and calls compute.

Owns: `Expression`, expressions of literals, variables, binary operators and
assignments; their evaluation from left to right over a store of variables; and
the calls of functions that return one. Literals and operators may mean
anything. `Term` is the meaning in which nothing is computed: two evaluations
that agree there agree in every meaning (`reads_map`).
-/

namespace Unravel

/-- Expressions of literals, variables, binary operators and assignments. -/
inductive Expression where
  | literal (node : Value)
  | read (name : String)
  | binary (operator : String) (left right : Expression)
  | assign (target : String) (value : Expression)

/-- What literals and binary operators mean. -/
structure Meaning (V : Type) where
  literal : Value → V
  operator : String → V → V → V

/-- The values of variables. -/
abbrev Store (V : Type) := String → V

/-- How a variable is read: its value, and the store after that. -/
abbrev Reader (V : Type) := String → Store V → V × Store V

namespace Expression

/-- The variables that an expression reads or assigns, in document order. -/
def names : Expression → List String
  | .literal _ => []
  | .read name => [name]
  | .binary _ left right => left.names ++ right.names
  | .assign target value => target :: value.names

def assigns : Expression → Bool
  | .literal _ => false
  | .read _ => false
  | .binary _ left right => left.assigns || right.assigns
  | .assign _ _ => true

/-- A literal or a variable. -/
def isAtom : Expression → Bool
  | .literal _ => true
  | .read _ => true
  | _ => false

/-- No assignment mentions one of the names. -/
def Spares (names : List String) : Expression → Prop
  | .literal _ => True
  | .read _ => True
  | .binary _ left right => left.Spares names ∧ right.Spares names
  | .assign target value => target ∉ names ∧ ∀ name ∈ value.names, name ∉ names

/-- Puts expressions in the place of variables, outside assignments. -/
def put (given : List (String × Expression)) : Expression → Expression
  | .literal node => .literal node
  | .read name => (given.lookup name).getD (.read name)
  | .binary operator left right => .binary operator (left.put given) (right.put given)
  | .assign target value => .assign target value

end Expression

namespace Meaning

open Expression

variable {V W : Type}

/-! ## Evaluation -/

/-- The value of an expression and the store after it, with operands evaluated
from left to right. -/
def evalWith (meaning : Meaning V) (reader : Reader V) : Expression → Store V → V × Store V
  | .literal node, store => (meaning.literal node, store)
  | .read name, store => reader name store
  | .binary operator left right, store =>
    let first := meaning.evalWith reader left store
    let second := meaning.evalWith reader right first.2
    (meaning.operator operator first.1 second.1, second.2)
  | .assign target value, store =>
    let assigned := meaning.evalWith reader value store
    (assigned.1, Function.update assigned.2 target assigned.1)

/-- What the variables of an expression are read as, one after the other. -/
def readsWith (meaning : Meaning V) (reader : Reader V) : Expression → Store V → List V
  | .literal _, _ => []
  | .read name, store => [(reader name store).1]
  | .binary _ left right, store =>
    meaning.readsWith reader left store ++
      meaning.readsWith reader right (meaning.evalWith reader left store).2
  | .assign _ value, store => meaning.readsWith reader value store

def plain : Reader V := fun name store => (store name, store)

def eval (meaning : Meaning V) : Expression → Store V → V × Store V := meaning.evalWith plain

/-- The values of expressions that are evaluated one after the other. -/
def evalAll (meaning : Meaning V) : List Expression → Store V → List V × Store V
  | [], store => ([], store)
  | expression :: rest, store =>
    let first := meaning.eval expression store
    let others := meaning.evalAll rest first.2
    (first.1 :: others.1, others.2)

/-- A store in which some variables have other values. -/
def bind (values : List (String × V)) (store : Store V) : Store V :=
  fun name => (values.lookup name).getD (store name)

/-- A call of a function: its arguments are evaluated, its parameters have their
values while the body is evaluated, and are no variables of the caller. -/
def call (meaning : Meaning V) (parameters : List String) (arguments : List Expression)
    (body : Expression) (store : Store V) : V × Store V :=
  let given := meaning.evalAll arguments store
  let result := meaning.eval body (bind (parameters.zip given.1) given.2)
  (result.1, fun name => if name ∈ parameters then given.2 name else result.2 name)

/-- Reads parameters as their values. -/
def valueReader (values : List (String × V)) : Reader V :=
  fun name store => (bind values store name, store)

/-- Evaluates an argument wherever its parameter is read. -/
def placeReader (meaning : Meaning V) (given : List (String × Expression)) : Reader V :=
  fun name store => meaning.eval ((given.lookup name).getD (.read name)) store

variable (meaning : Meaning V) {name : String} {given : List (String × Expression)}
  {expression body : Expression} {parameters : List String} {arguments : List Expression}
  {values : List (String × V)} {α : Type} {first second : Reader V} {names : List String}

theorem evalWith_congr (agree : ∀ name ∈ expression.names, first name = second name) (store : Store
    V) : meaning.evalWith first expression store = meaning.evalWith second expression store := by
  induction expression generalizing store with
  | literal node => rfl
  | read name => exact congrFun (agree name List.mem_cons_self) store
  | binary operator left right inLeft inRight =>
    have agreeLeft := inLeft fun name member => agree name (List.mem_append_left _ member)
    have agreeRight := inRight fun name member => agree name (List.mem_append_right _ member)
    simp only [evalWith, agreeLeft, agreeRight]
  | assign target value inValue =>
    have agreeValue := inValue fun name member => agree name (List.mem_cons_of_mem _ member)
    simp only [evalWith, agreeValue]

theorem lookup_eq_none {values : List (String × α)} (absent : name ∉ values.map Prod.fst) :
    values.lookup name = none := by
  rw [List.lookup_eq_none_iff]
  intro entry member
  rw [bne_iff_ne]
  rintro rfl
  exact absent (List.mem_map_of_mem member)

theorem placeReader_eq_plain (absent : name ∉ given.map Prod.fst) :
    meaning.placeReader given name = plain name := by
  funext store
  simp [placeReader, lookup_eq_none absent, eval, evalWith]

theorem valueReader_eq_plain (absent : name ∉ values.map Prod.fst) :
    valueReader values name = plain name := by
  funext store
  simp [valueReader, bind, lookup_eq_none absent, plain]

/-! ## Arguments in the place of parameters -/

theorem eval_put (spares : body.Spares (given.map Prod.fst)) (store : Store V) : meaning.eval
    (body.put given) store = meaning.evalWith (meaning.placeReader given) body store := by
  induction body generalizing store with
  | literal node => rfl
  | read name => rfl
  | binary operator left right inLeft inRight =>
    have eqLeft := inLeft spares.1
    have eqRight := inRight spares.2
    unfold eval at eqLeft eqRight ⊢
    simp only [put, evalWith, eqLeft, eqRight]
  | assign target value =>
    apply evalWith_congr
    intro name member
    refine (meaning.placeReader_eq_plain ?_).symm
    rcases List.mem_cons.1 member with rfl | inValue
    · exact spares.1
    · exact spares.2 name inValue

theorem spares_of_names (absent : ∀ name ∈ expression.names, name ∉ names) :
    expression.Spares names := by
  induction expression with
  | literal node => trivial
  | read name => trivial
  | binary operator left right inLeft inRight =>
    exact ⟨inLeft fun name member => absent name (List.mem_append_left _ member),
      inRight fun name member => absent name (List.mem_append_right _ member)⟩
  | assign target value =>
    exact ⟨absent target List.mem_cons_self,
      fun name member => absent name (List.mem_cons_of_mem _ member)⟩

theorem update_bind {target : String} (absent : target ∉ values.map Prod.fst) (store : Store V)
    (value : V) : Function.update (bind values store) target value =
      bind values (Function.update store target value) := by
  funext name
  by_cases is : name = target
  · rw [is]
    simp [bind, lookup_eq_none absent]
  · simp [bind, Function.update_of_ne is]

/-- A body whose assignments spare the parameters sees them as values, and leaves
the variables of those names alone. -/
theorem eval_bind (spares : body.Spares (values.map Prod.fst)) (store : Store V) : meaning.eval body
    (bind values store) = ((meaning.evalWith (valueReader values) body store).1, bind values
    (meaning.evalWith (valueReader values) body store).2) ∧ ∀ name ∈ values.map Prod.fst,
    (meaning.evalWith (valueReader values) body store).2 name = store name := by
  induction body generalizing store with
  | literal node => exact ⟨rfl, fun _ _ => rfl⟩
  | read name => exact ⟨rfl, fun _ _ => rfl⟩
  | binary operator left right inLeft inRight =>
    obtain ⟨eqLeft, keptLeft⟩ := inLeft spares.1 store
    obtain ⟨eqRight, keptRight⟩ :=
      inRight spares.2 (meaning.evalWith (valueReader values) left store).2
    unfold eval at eqLeft eqRight ⊢
    refine ⟨by simp only [evalWith, eqLeft, eqRight], ?_⟩
    intro name member
    exact (keptRight name member).trans (keptLeft name member)
  | assign target value inValue =>
    obtain ⟨absent, inside⟩ := spares
    obtain ⟨eqValue, keptValue⟩ := inValue (spares_of_names inside) store
    unfold eval at eqValue ⊢
    refine ⟨by simp only [evalWith, eqValue, update_bind absent], ?_⟩
    intro name member
    have other : name ≠ target := fun is => absent (is ▸ member)
    exact (Function.update_of_ne other _ _).trans (keptValue name member)

theorem length_evalAll (arguments : List Expression) (store : Store V) :
    (meaning.evalAll arguments store).1.length = arguments.length := by
  induction arguments generalizing store with
  | nil => rfl
  | cons argument rest ih =>
    exact congrArg Nat.succ (ih _)

/-- What a call comes to when the assignments of its body spare the parameters. -/
theorem call_eq (length : parameters.length = arguments.length) (spares : body.Spares parameters)
    (store : Store V) :
    meaning.call parameters arguments body store =
      meaning.evalWith (valueReader (parameters.zip (meaning.evalAll arguments store).1)) body
        (meaning.evalAll arguments store).2 := by
  have isNames : (parameters.zip (meaning.evalAll arguments store).1).map Prod.fst = parameters :=
    List.map_fst_zip (Nat.le_of_eq (length.trans (meaning.length_evalAll arguments store).symm))
  rw [← isNames] at spares
  obtain ⟨result, kept⟩ := meaning.eval_bind spares (meaning.evalAll arguments store).2
  rw [isNames] at kept
  unfold call
  dsimp only
  rw [result]
  refine Prod.ext rfl ?_
  funext name
  dsimp only
  split
  · rename_i isParameter
    exact (kept name isParameter).symm
  · rw [bind, lookup_eq_none (by rwa [isNames])]
    rfl

/-! ## The store after a call -/

/-- Reading a variable leaves the store as it is. -/
def Still (reader : Reader V) : Prop := ∀ name store, (reader name store).2 = store

theorem still_valueReader (values : List (String × V)) : Still (valueReader values) :=
  fun _ _ => rfl

theorem eval_atom (isAtom : expression.isAtom) (store : Store V) :
    (meaning.eval expression store).2 = store := by
  cases expression with
  | literal node => rfl
  | read name => rfl
  | binary operator left right => cases isAtom
  | assign target value => cases isAtom

theorem placeReader_of_atom (isAtom : ∀ argument, given.lookup name = some argument →
    argument.isAtom) (store : Store V) : (meaning.placeReader given name store).2 = store := by
  unfold placeReader
  cases found : given.lookup name with
  | none => rfl
  | some argument => exact meaning.eval_atom (isAtom argument found) store

theorem store_eq_of_still (firstStill : Still first) (secondStill : Still second) (agree : ∀ name,
    name ∉ names → first name = second name) (spares : body.Spares names) (store : Store V) :
    (meaning.evalWith first body store).2 = (meaning.evalWith second body store).2 := by
  induction body generalizing store with
  | literal node => rfl
  | read name => exact (firstStill name store).trans (secondStill name store).symm
  | binary operator left right inLeft inRight =>
    simp only [evalWith, inLeft spares.1, inRight spares.2]
  | assign target value =>
    have same := meaning.evalWith_congr (fun name member => agree name (spares.2 name member)) store
    simp only [evalWith, same]

/-- Without assignments of its own, an expression changes the store only by
reading its variables, one after the other. -/
theorem store_eq_foldl (reader : Reader V) (none : body.assigns = false) (store : Store V) :
    (meaning.evalWith reader body store).2 =
      body.names.foldl (fun store name => (reader name store).2) store := by
  induction body generalizing store with
  | literal node => rfl
  | read name => rfl
  | binary operator left right inLeft inRight =>
    obtain ⟨noneLeft, noneRight⟩ := Bool.or_eq_false_iff.1 none
    simp only [evalWith, names, List.foldl_append, inLeft noneLeft, inRight noneRight]
  | assign target value => cases none

theorem store_evalAll (arguments : List Expression) (store : Store V) : (meaning.evalAll arguments
    store).2 = arguments.foldl (fun store argument => (meaning.eval argument store).2) store := by
  induction arguments generalizing store with
  | nil => rfl
  | cons argument rest ih => exact ih _

/-- The parameters with arguments that are more than a literal or a variable. -/
def impure (given : List (String × Expression)) : List String :=
  (given.filter fun entry => !entry.2.isAtom).map Prod.fst

theorem lookup_of_mem {values : List (String × α)} (distinct : (values.map Prod.fst).Nodup)
    {entry : String × α} (member : entry ∈ values) : values.lookup entry.1 = some entry.2 := by
  induction values with
  | nil => cases member
  | cons head rest ih =>
    obtain ⟨absent, later⟩ := List.nodup_cons.1 distinct
    rcases List.mem_cons.1 member with rfl | inRest
    · exact List.lookup_cons_self
    · have differs : (entry.1 == head.1) = false := by
        rw [beq_eq_false_iff_ne]
        intro same
        exact absent (same ▸ List.mem_map_of_mem inRest)
      rw [List.lookup_cons, differs]
      exact ih later inRest

theorem mem_of_lookup {values : List (String × α)} {value : α}
    (found : values.lookup name = some value) : (name, value) ∈ values := by
  obtain ⟨before, after, rfl, _⟩ := List.lookup_eq_some_iff.1 found
  exact List.mem_append_right _ List.mem_cons_self

theorem isAtom_of_not_impure {argument : Expression} (pure : name ∉ impure given)
    (found : given.lookup name = some argument) : argument.isAtom := by
  by_contra notAtom
  apply pure
  refine List.mem_map.2 ⟨(name, argument), List.mem_filter.2 ⟨mem_of_lookup found, ?_⟩, rfl⟩
  simpa using notAtom

theorem foldl_placeReader (given : List (String × Expression)) (names : List String) (store : Store
    V) : names.foldl (fun store name => (meaning.placeReader given name store).2) store =
    (names.filter (· ∈ impure given)).foldl (fun store name => (meaning.placeReader given name
    store).2) store := by
  rw [List.foldl_filter]
  apply List.foldl_ext
  intro store name _
  split
  · rfl
  · rename_i pure
    exact meaning.placeReader_of_atom
      (fun argument => isAtom_of_not_impure (by simpa using pure)) store

/-- Evaluating all arguments changes the store as their parameters, read one
after the other, do. -/
theorem store_evalAll_eq (distinct : (given.map Prod.fst).Nodup) (store : Store V) :
    (meaning.evalAll (given.map Prod.snd) store).2 =
      (impure given).foldl (fun store name => (meaning.placeReader given name store).2) store := by
  have isImpure : (given.map Prod.fst).filter (· ∈ impure given) = impure given := by
    rw [List.filter_map]
    apply congrArg
    apply List.filter_congr
    intro entry member
    rw [Bool.eq_iff_iff]
    constructor
    · intro among
      obtain ⟨other, isOther, same⟩ := List.mem_map.1 (of_decide_eq_true among)
      obtain ⟨inGiven, notAtom⟩ := List.mem_filter.1 isOther
      have held := lookup_of_mem distinct inGiven
      rw [same, lookup_of_mem distinct member] at held
      rw [Option.some.inj held]
      exact notAtom
    · intro notAtom
      exact decide_eq_true (List.mem_map.2 ⟨entry, List.mem_filter.2 ⟨member, notAtom⟩, rfl⟩)
  rw [store_evalAll, ← isImpure, ← foldl_placeReader, List.foldl_map, List.foldl_map]
  apply List.foldl_ext
  intro store entry member
  simp [placeReader, lookup_of_mem distinct member]

/-- The effects of the arguments come in their order: there are none, or the body
reads each impure parameter once, in the order of the call, and assigns nothing. -/
def Orderly (given : List (String × Expression)) (body : Expression) : Prop := impure given = [] ∨
  body.assigns = false ∧ body.names.filter (· ∈ impure given) = impure given

/-- Arguments in the place of parameters leave the store of the call. -/
theorem store_eq_of_orderly (distinct : (given.map Prod.fst).Nodup) (spares : body.Spares (given.map
    Prod.fst)) (orderly : Orderly given body) (named : values.map Prod.fst = given.map Prod.fst)
    (store : Store V) : (meaning.evalWith (meaning.placeReader given) body store).2 =
    (meaning.evalWith (valueReader values) body (meaning.evalAll (given.map Prod.snd) store).2).2 :=
    by
  rw [store_evalAll_eq meaning distinct]
  rcases orderly with pure | ⟨none, inOrder⟩
  · rw [pure]
    apply meaning.store_eq_of_still _ (still_valueReader values) _ spares
    · intro name store
      exact meaning.placeReader_of_atom (fun _ => isAtom_of_not_impure (by simp [pure])) store
    · intro name absent
      rw [meaning.placeReader_eq_plain absent, valueReader_eq_plain (named ▸ absent)]
  · rw [store_eq_foldl meaning _ none, store_eq_foldl meaning _ none, foldl_placeReader, inOrder]
    have still (names : List String) (store : Store V) :
        names.foldl (fun store name => (valueReader values name store).2) store = store := by
      induction names with
      | nil => rfl
      | cons name rest ih => exact ih
    rw [still]

/-! ## Values and what is read -/

theorem length_readsWith (first second : Meaning V) (one other : Reader V) (expression : Expression)
    (store away : Store V) : (first.readsWith one expression store).length = (second.readsWith other
    expression away).length := by
  induction expression generalizing store away with
  | literal node => rfl
  | read name => rfl
  | binary operator left right inLeft inRight =>
    rw [readsWith, readsWith, List.length_append, List.length_append, inLeft, inRight]
  | assign target value inValue => exact inValue _ _

theorem value_of_reads {one other : Reader V} {store away : Store V}
    (same : meaning.readsWith one expression store = meaning.readsWith other expression away) :
    (meaning.evalWith one expression store).1 = (meaning.evalWith other expression away).1 := by
  induction expression generalizing store away with
  | literal node => rfl
  | read name => exact (List.cons.inj same).1
  | binary operator left right inLeft inRight =>
    obtain ⟨sameLeft, sameRight⟩ := List.append_inj same (length_readsWith _ _ _ _ _ _ _)
    simp only [evalWith, inLeft sameLeft, inRight sameRight]
  | assign target value inValue => exact inValue same

/-! ## Terms -/

/-- Values that show how they were computed. -/
inductive Term where
  | literal (node : Value)
  | initial (name : String)
  | binary (operator : String) (left right : Term)

/-- The meaning in which nothing is computed. -/
def terms : Meaning Term := ⟨.literal, .binary⟩

/-- What a term comes to, from the values of the variables at the start. -/
def interpret (meaning : Meaning V) (store : Store V) : Term → V
  | .literal node => meaning.literal node
  | .initial name => store name
  | .binary operator left right =>
    meaning.operator operator (meaning.interpret store left) (meaning.interpret store right)

/-- Among terms, different readings give different values. -/
theorem reads_of_value {one other : Reader Term} {store away : Store Term}
    (same : (terms.evalWith one expression store).1 = (terms.evalWith other expression away).1) :
    terms.readsWith one expression store = terms.readsWith other expression away := by
  induction expression generalizing store away with
  | literal node => rfl
  | read name => exact congrArg (fun value => [value]) same
  | binary operator left right inLeft inRight =>
    obtain ⟨_, sameLeft, sameRight⟩ := Term.binary.inj same
    rw [readsWith, readsWith, inLeft sameLeft, inRight sameRight]
  | assign target value inValue => exact inValue same

section Interpretation

variable (start : Store V)

/-- A reader does to values what another one does to terms. -/
def Follows (reader : Reader V) (symbolic : Reader Term) : Prop := ∀ name store, reader name
  (meaning.interpret start ∘ store) = (meaning.interpret start (symbolic name store).1,
  meaning.interpret start ∘ (symbolic name store).2)

variable {meaning start} {reader : Reader V} {symbolic : Reader Term}

theorem evalWith_interpret (follows : meaning.Follows start reader symbolic) (expression :
    Expression) (store : Store Term) : meaning.evalWith reader expression (meaning.interpret start ∘
    store) = (meaning.interpret start (terms.evalWith symbolic expression store).1,
    meaning.interpret start ∘ (terms.evalWith symbolic expression store).2) := by
  induction expression generalizing store with
  | literal node => rfl
  | read name => exact follows name store
  | binary operator left right inLeft inRight =>
    simp only [evalWith, inLeft, inRight]
    rfl
  | assign target value inValue =>
    simp only [evalWith, inValue, Function.comp_update]

theorem readsWith_interpret (follows : meaning.Follows start reader symbolic) (expression :
    Expression) (store : Store Term) : meaning.readsWith reader expression (meaning.interpret start
    ∘ store) = (terms.readsWith symbolic expression store).map (meaning.interpret start) := by
  induction expression generalizing store with
  | literal node => rfl
  | read name =>
    simp only [readsWith, follows name store, List.map_cons, List.map_nil]
  | binary operator left right inLeft inRight =>
    simp only [readsWith, evalWith_interpret follows, inLeft, inRight, List.map_append]
  | assign target value inValue => exact inValue store

theorem follows_plain : meaning.Follows start plain plain := fun _ _ => rfl

theorem follows_placeReader (given : List (String × Expression)) :
    meaning.Follows start (meaning.placeReader given) (terms.placeReader given) :=
  fun _ store => evalWith_interpret follows_plain _ store

theorem evalAll_interpret (arguments : List Expression) (store : Store Term) : meaning.evalAll
    arguments (meaning.interpret start ∘ store) = ((terms.evalAll arguments store).1.map
    (meaning.interpret start), meaning.interpret start ∘ (terms.evalAll arguments store).2) := by
  induction arguments generalizing store with
  | nil => rfl
  | cons argument rest ih =>
    have first : meaning.eval argument (meaning.interpret start ∘ store) = (meaning.interpret start
        (terms.eval argument store).1, meaning.interpret start ∘ (terms.eval argument store).2) :=
        evalWith_interpret follows_plain argument store
    simp only [evalAll, first, ih, List.map_cons]

theorem follows_valueReader (names : List String) (values : List Term) :
    meaning.Follows start (valueReader (names.zip (values.map (meaning.interpret start))))
      (valueReader (names.zip values)) := by
  intro name store
  refine Prod.ext ?_ rfl
  change bind _ _ name = meaning.interpret start (bind _ _ name)
  unfold bind
  induction names generalizing values with
  | nil => rfl
  | cons head rest ih =>
    cases values with
    | nil => rfl
    | cons value others =>
      rw [List.map_cons, List.zip_cons_cons, List.zip_cons_cons, List.lookup_cons, List.lookup_cons]
      cases name == head with
      | true => rfl
      | false => exact ih others

end Interpretation

/-! ## Calls -/

/-- The body reads its variables in place as it does in the call, where all
arguments have been evaluated before. -/
def Undisturbed (parameters : List String) (arguments : List Expression) (body : Expression) :
    Prop :=
  let given := terms.evalAll arguments .initial
  terms.readsWith (terms.placeReader (parameters.zip arguments)) body .initial =
    terms.readsWith (valueReader (parameters.zip given.1)) body given.2

section Put

variable (length : parameters.length = arguments.length) (distinct : parameters.Nodup)
    (spares : body.Spares parameters) (orderly : Orderly (parameters.zip arguments) body)

include length spares

theorem value_eq_of_undisturbed (undisturbed : Undisturbed parameters arguments body) (meaning :
    Meaning V) (store : Store V) : (meaning.eval (body.put (parameters.zip arguments)) store).1 =
    (meaning.call parameters arguments body store).1 := by
  have named : (parameters.zip arguments).map Prod.fst = parameters :=
    List.map_fst_zip (Nat.le_of_eq length)
  have isStart : store = meaning.interpret store ∘ .initial := rfl
  rw [meaning.call_eq length spares, meaning.eval_put (by rwa [named])]
  apply meaning.value_of_reads
  rw [isStart, evalAll_interpret, readsWith_interpret (follows_placeReader _),
    readsWith_interpret (follows_valueReader _ _)]
  exact congrArg _ undisturbed

theorem undisturbed_of_value_eq (same : (terms.eval (body.put (parameters.zip arguments))
    .initial).1 = (terms.call parameters arguments body .initial).1) : Undisturbed parameters
    arguments body := by
  have named : (parameters.zip arguments).map Prod.fst = parameters :=
    List.map_fst_zip (Nat.le_of_eq length)
  rw [terms.call_eq length spares, terms.eval_put (by rwa [named])] at same
  exact reads_of_value same

include distinct orderly

theorem store_eval_put (meaning : Meaning V) (store : Store V) : (meaning.eval (body.put
    (parameters.zip arguments)) store).2 = (meaning.call parameters arguments body store).2 := by
  have named : (parameters.zip arguments).map Prod.fst = parameters :=
    List.map_fst_zip (Nat.le_of_eq length)
  have held : (parameters.zip arguments).map Prod.snd = arguments :=
    List.map_snd_zip (Nat.le_of_eq length.symm)
  have namedValues :
      (parameters.zip (meaning.evalAll arguments store).1).map Prod.fst = parameters :=
    List.map_fst_zip (Nat.le_of_eq (length.trans (meaning.length_evalAll arguments store).symm))
  rw [meaning.call_eq length spares, meaning.eval_put (by rwa [named])]
  rw [meaning.store_eq_of_orderly (by rwa [named]) (by rwa [named]) orderly
    (namedValues.trans named.symm), held]

/-- A body with arguments in the place of parameters always leaves the store that
the call leaves. It has the value of the call, whatever literals and operators
mean, just when it is undisturbed. -/
theorem eval_put_iff : (∀ (V : Type) (meaning : Meaning V) (store : Store V), (meaning.eval
      (body.put (parameters.zip arguments)) store).2 = (meaning.call parameters arguments body
      store).2) ∧ ((∀ (V : Type) (meaning : Meaning V) (store : Store V), meaning.eval (body.put
      (parameters.zip arguments)) store = meaning.call parameters arguments body store) ↔
      Undisturbed parameters arguments body) := by
  refine ⟨fun _ => store_eval_put length distinct spares orderly, ?_, ?_⟩
  · intro same
    exact undisturbed_of_value_eq length spares (congrArg Prod.fst (same Term terms .initial))
  · intro undisturbed V meaning store
    exact Prod.ext (value_eq_of_undisturbed length spares undisturbed meaning store)
      (store_eval_put length distinct spares orderly meaning store)

end Put

end Meaning

end Unravel
