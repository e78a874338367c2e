import Unravel.Proofs.Inlining.Judgement
import Unravel.Proofs.Walk.Reading

/-!
Contract: what the collection of functions does.

It reads the tree and adds functions of it to those that are known: each new entry is a
function that the tree offers under the name.
-/

namespace Unravel

namespace Pass.Inlining

open Value Walk

variable {session after : Session State} {cursor moved : Cursor}

/-- The state of the pass before it has seen anything. -/
def startState (tracked : List Name) : State := ⟨.empty, [], tracked, [], 0⟩

theorem initial_eq_ok {options : Options} {state : State}
    (starts : State.initial options = .ok state) : ∃ tracked, state = startState tracked := by
  unfold State.initial at starts
  cases named : trackedNames ((Members.get? options "inline_functions").getD .null) with
  | error fault =>
    rw [named] at starts
    cases starts
  | ok tracked =>
    rw [named] at starts
    exact ⟨tracked, (Except.ok.inj starts).symm⟩

theorem everywhere_elements {mark : Mark} {value item : Value} (all : value.Everywhere mark)
    (member : item ∈ value.elements) : item.Everywhere mark := by
  cases value with
  | list items => exact everywhere_list.1 all item member
  | text word =>
    obtain ⟨_, _, rfl⟩ := List.mem_map.1 member
    simp [Everywhere]
  | _ => cases member

/-- The function that a node of a kind gives a name to: a declaration itself, or
the initial value of a declarator. -/
inductive Offers (node : Value) : String → Value → Prop where
  | declaration (named : (!(node.attr "id").isNull) = true) : Offers node "FunctionDeclaration" node
  | declarator (named : (node.attr "id").isIdentifier = true)
      (isFunction : (node.attr "init").isKind "FunctionExpression" = true) :
      Offers node "VariableDeclarator" (node.attr "init")

variable {function : Value}

theorem Offers.everywhere {node : Value} {kind : String} {allowed : Mark} (offers : Offers node kind
    function) (everywhere : node.Everywhere allowed) : function.Everywhere allowed := by
  cases offers with
  | declaration => exact everywhere
  | declarator => exact everywhere_attr everywhere "init"

/-- What comes of collecting at a node of a kind: its name cannot be read, or at
most the function that it gives is added. -/
inductive Gathers (kind : String) (cursor : Cursor) (session : Session State) :
    EStateM.Result Fault (Session State) Cursor → Prop where
  | fails {function : Value} {fault : SortFault}
      (offers : Offers (cursor.nodeIn session) kind function)
      (isFault : ((cursor.nodeIn session).attr "id").nameFault? = some fault) :
      Gathers kind cursor session (.error (.sort fault) session)
  | leaves : Gathers kind cursor session (.ok cursor session)
  | adds {function : Value} (target : Name)
      (offers : Offers (cursor.nodeIn session) kind function) :
      Gathers kind cursor session (.ok cursor { session with state := { session.state with
        functions := Names.put session.state.functions target function } })

variable {result : Unit} {phase : Phase} {kind : String} {handler : Handler State}

theorem gathers_collectFunction (offers : Offers (cursor.nodeIn session) kind function) : Gathers
    kind cursor session ((collectFunction ((cursor.nodeIn session).attr "id") function >>= fun _ =>
    pure cursor) session) := by
  unfold collectFunction
  cases isFault : ((cursor.nodeIn session).attr "id").nameFault? with
  | some fault => exact .fails offers isFault
  | none =>
    cases ((cursor.nodeIn session).attr "id").name? with
    | none => exact .leaves
    | some target => exact .adds target offers

theorem gathers_of_handler (member : handler ∈ collector.handlersFor phase kind) (cursor : Cursor)
    (session : Session State) : Gathers kind cursor session (handler cursor session) := by
  simp only [collector, Visitor.mem_handlersFor_onEnter] at member
  rcases member with ⟨_, rfl, rfl⟩ | ⟨_, rfl, rfl⟩ | none
  · unfold collectDeclaration
    rw [Cursor.node_bind]
    split
    · exact gathers_collectFunction (.declaration ‹_›)
    · exact .leaves
  · unfold collectDeclarator
    rw [Cursor.node_bind]
    split
    · obtain ⟨named, isFunction⟩ := Bool.and_eq_true_iff.1 ‹_›
      exact gathers_collectFunction (.declarator named isFunction)
    · exact .leaves
  · cases none

/-- Where the collection goes on, only functions were added. -/
theorem added_of_handler (member : handler ∈ collector.handlersFor phase kind) (ran : handler cursor
    session = .ok moved after) : moved = cursor ∧ ∃ functions,
      after = { session with state := { session.state with functions := functions } } ∧
        ∀ entry ∈ functions,
          entry ∈ session.state.functions ∨ Offers (cursor.nodeIn session) kind entry.2 := by
  have gathers := gathers_of_handler member cursor session
  rw [ran] at gathers
  cases gathers with
  | leaves => exact ⟨rfl, _, rfl, fun _ member => .inl member⟩
  | adds target offers =>
    refine ⟨rfl, _, rfl, fun entry member => ?_⟩
    rcases Names.mem_put member with was | isNew
    · exact .inl was
    · exact .inr (isNew ▸ offers)

/-! ## All actions of the pass -/

section

variable {settled fair : Session State → Prop} {admitted : Fault → Session State → Prop}
  {ready : Cursor → Session State → Prop} {fits : Frame → Prop}
  {arrived : Cursor → Session State → Cursor → Session State → Prop}

/-- What comes of every try comes of the rounds at a call. -/
theorem ends_inlineRounds (governed : Governed ready fits admitted arrived)
    (tries : ∀ cursor session, ready cursor session →
      Ends (fun tried => arrived cursor session tried.2) admitted (tryInline cursor session))
    (rounds : Nat) (cursor : Cursor) (holds : ready cursor session) :
    Ends (arrived cursor session) admitted (inlineRounds rounds cursor session) := by
  induction rounds generalizing cursor session with
  | zero => exact governed.rests holds
  | succ rounds ih =>
    refine ends_bind (tries cursor session holds) fun tried after _ arrives => ?_
    obtain ⟨replaced, moved⟩ := tried
    dsimp only
    rw [Cursor.node_bind]
    split
    · exact (ih moved (governed.settles arrives).1).imp fun _ _ => governed.moves arrives
    · exact arrives

theorem actions_visitor (suited : Suited settled fair) (collects : Actions collector settled fair)
    (tries : ∀ cursor session, settled session → Meets settled fair (tryInline cursor session))
    (limit : Nat) : Actions (visitor limit) settled fair := by
  refine acts_onEnter (fun cursor session holds _ => ?_) <|
    acts_onEnter (fun cursor session holds _ =>
      ends_inlineRounds suited.governed tries maxRounds cursor holds) acts_nil
  refine meets_bind (meets_below suited collects limit cursor holds) fun _ _ _ holds => ?_
  exact suited.meets (fixes_bind fixes_getState fun _ =>
    fixes_bind (fixes_log (fun _ _ _ => rfl) _ _ _) fun _ => fixes_pure _) holds

end

end Pass.Inlining

end Unravel
