import Unravel.Pipeline.Deobfuscator
import Unravel.Proofs.Inlining.Collection
import Unravel.Proofs.Renaming.Entering
import Unravel.Proofs.Simplification.Edits
import Unravel.Proofs.Strings.Asides
import Unravel.Proofs.Strings.Recovering
import Unravel.Proofs.Tree.Programs
import Unravel.Proofs.Walk.Grafting

/-!
Contract: passes leave a tree a tree.

Every node that a pass puts into the tree is built for its place, with labels of
its own: a literal, an identifier, a number, a member whose object moves along
with it, or the copy of a helper's expression and a call's arguments. So no two
places come to hold one node (`distinct_after_passes`), also where a pass fails
half way.
-/

namespace Unravel.Pass

open Walk

/-! ## Simplification -/

namespace Concatenation

variable {session : Session State}

theorem unshared_collapse (cursor : Cursor) (unshared : Unshared free session) :
    Meets (Unshared free) (Unshared free) (collapse cursor session) := by
  have placing := collapse_placing cursor session
  split at placing
  · rw [placing]
    exact unshared
  · exact placing.unshared_of_draws unshared (Value.draws_stringNode _)

theorem actions_visitor : Actions visitor (Unshared free) (Unshared free) :=
  acts_onLeave (fun cursor _ unshared _ => unshared_collapse cursor unshared) acts_nil

end Concatenation

namespace Folding

variable {session : Session State}

theorem unshared_of_folds {room : Option Nat} {cursor : Cursor}
    {outcome : EStateM.Result Fault (Session State) Cursor} (unshared : Unshared free session)
    (folds : Folds room cursor session outcome) : Meets (Unshared free) (Unshared free) outcome := by
  cases folds with
  | fails | stops | keeps => exact unshared
  | places _ _ placing =>
    exact placing.unshared_of_draws unshared (Value.draws_numberNode _)
  | @assigns number _ _ folds =>
    -- the number takes the place of the right side alone
    obtain ⟨most, own⟩ := Value.draws_numberNode number session.next
    refine ⟨?_, trivial⟩
    rw [(putAt_right folds _).2]
    exact unshared.distinct.graft most (fun atRoot => absurd atRoot (by simp)) (own.grafts _)

theorem actions_visitor : Actions (visitorWithin none) (Unshared free) (Unshared free) :=
  acts_visitor fun _ _ _ unshared folds => unshared_of_folds unshared folds

end Folding

/-! ## Member names -/

namespace Member

variable {session : Session State}

theorem weight_member (label own : Nat) (object property : Value) :
    (Value.node own "MemberExpression" [("computed", .bool false), ("object", object),
      ("property", property)]).weight label =
      (if own = label then 1 else 0) + (object.weight label + property.weight label) := by
  have names : ["computed", "object", "property"].Nodup := by decide
  have isMember : (Value.node own "MemberExpression" [("computed", .bool false),
    ("object", object), ("property", property)]).kind? = some "MemberExpression" := rfl
  refine (Value.weight_node isMember names).trans ?_
  simp [Value.label?, Value.fields, show Value.mayHold "MemberExpression" "computed" = false by decide,
    show Value.mayHold "MemberExpression" "object" = true by decide,
    show Value.mayHold "MemberExpression" "property" = true by decide]

/-- The object of a member may stay where the member is. -/
theorem grafts_byName {node : Value} {first : Nat} (is : node.kind? = some "MemberExpression")
    (named : node.Everywhere Value.NamedOnce) (used : ∀ label ∈ node.labels, label < first)
    (key : String) : node.Grafts ((byName (node.attr "object") key).run first).1 first
      ((byName (node.attr "object") key).run first).2 := by
  obtain ⟨own, isOwn⟩ := Value.exists_label?_of_isNode (Value.isNode_of_kind? is)
  have once := ((Value.everywhere_object isOwn).1 named).1
  have object := Value.everywhere_attr named "object"
  have objectUsed := Value.everywhere_iff_labels.1
    (Value.everywhere_attr (Value.everywhere_iff_labels.2 used) "object")
  obtain ⟨_, identifier⟩ := Value.draws_identifierNode key first
  change node.Grafts (.node (first + 1) "MemberExpression" [("computed", .bool false),
    ("object", node.attr "object"),
    ("property", ((Value.identifierNode key).run first).1)]) first (first + 2)
  have fields (field : String × Value) (member : field ∈ [("computed", Value.bool false),
      ("object", node.attr "object"), ("property", ((Value.identifierNode key).run first).1)]) :
      field.2.Everywhere Value.NamedOnce := by
    simp only [List.mem_cons, List.not_mem_nil, or_false] at member
    rcases member with rfl | rfl | rfl
    · exact Value.everywhere_leaf (.bool _)
    · exact object
    · exact identifier.named
  have names : ["computed", "object", "property"].Nodup := by decide
  refine ⟨(Value.everywhere_object rfl).2 ⟨names, fields⟩, ?_, ?_⟩
  · intro label member
    simp only [Value.labels, Value.labelsFields, List.nil_append, List.append_nil, List.mem_cons,
      List.mem_append] at member
    rcases member with rfl | inObject | inIdentifier
    · omega
    · have below := objectUsed label inObject
      omega
    · have below : label < first + 1 := (identifier.within label inIdentifier).2
      omega
  · intro label
    have kept := Value.weight_attr_le label is once
      (show Value.mayHold "MemberExpression" "object" = true by decide)
    have single := identifier.weight_le_one label
    have elsewhere (outside : label < first ∨ first + 1 ≤ label) :=
      identifier.weight_eq_zero outside
    have absent (fresh : first ≤ label) : (node.attr "object").weight label = 0 := by
      have atMost := Value.weight_le_count_labels label _ object
      rw [List.count_eq_zero_of_not_mem fun member =>
        Nat.not_lt_of_le fresh (objectUsed label member)] at atMost
      omega
    rw [Value.itemWeight_of_label? isOwn, weight_member]
    by_cases fresh : first ≤ label
    · by_cases outer : first + 1 ≤ label
      · split <;> omega
      · split <;> omega
    · split <;> omega

theorem unshared_convert (cursor : Cursor)
    (unshared : Unshared free session)
    (is : (cursor.nodeIn session).kind? = some "MemberExpression") :
    Meets (Unshared free) (Unshared free) (convert cursor session) := by
  have converts := converts_convert cursor session
  generalize convert cursor session = outcome at converts ⊢
  cases converts with
  | keeps => exact ⟨unshared.distinct, trivial⟩
  | places placing =>
    obtain ⟨named, used⟩ := unshared.nodeIn cursor
    exact placing.unshared unshared (Nat.le_add_right session.next 2)
      (grafts_byName is named used _) trivial trivial

theorem actions_visitor : Actions visitor (Unshared free) (Unshared free) :=
  acts_onEnter (fun cursor _ unshared is => unshared_convert cursor unshared is) acts_nil

end Member

/-! ## Names of variables -/

namespace Renaming

variable {session : Session State}

theorem unshared_logSummary (cursor : Cursor) (unshared : Unshared free session) :
    Meets (Unshared free) (Unshared free) (logSummary cursor session) := by
  refine meets_after spares_getState unshared fun state _ _ _ unshared => ?_
  dsimp only
  split
  · exact (spares_bind (spares_log _ _ _) fun _ => spares_pure _).meets unshared
  · exact (spares_pure _).meets unshared

/-- A property that is no longer shorthand holds the nodes it held. -/
theorem grafts_shorthand {parent : Value} {next : Nat} (isNode : parent.isNode)
    (named : parent.Everywhere Value.NamedOnce) (used : ∀ label ∈ parent.labels, label < next)
    (set : (parent.attr "shorthand").truthy) :
    parent.Grafts (parent.setAttr "shorthand" (.bool false)) next next := by
  obtain ⟨own, isOwn⟩ := Value.exists_label?_of_isNode isNode
  have once := ((Value.everywhere_object isOwn).1 named).1
  have filled : parent.attr "shorthand" ≠ .null := by
    intro missing
    rw [missing] at set
    cases set
  have held := Value.get?_of_attr rfl filled
  have present := Members.mem_names_of_get? held
  refine ⟨?_, ?_, fun label => .inl ?_⟩
  · exact Value.everywhere_setAttr named (Value.everywhere_leaf (.bool _))
      fun _ absent _ => absurd present absent
  · exact Value.everywhere_iff_labels.1 (Value.everywhere_setAttr (Value.everywhere_iff_labels.2
      used) (Value.everywhere_leaf (.bool _)) fun _ absent _ => absurd present absent)
  · obtain ⟨times, _, exchanges⟩ := Value.weight_setAttr once held
    have exchanged := exchanges (.bool false) label
    rw [show (Value.bool false).weight label = 0 from Value.weight_of_no_nodes rfl] at exchanged
    rw [Value.itemWeight_of_label? isOwn]
    omega

theorem unshared_putParent {cursor : Cursor} {parent : Value} (unshared : Unshared free session)
    (found : session.tree.at? cursor.address.dropLast = some parent) (isNode : parent.isNode)
    (set : (parent.attr "shorthand").truthy) : Unshared free { session with
      tree := session.tree.putAt cursor.address.dropLast
        (parent.setAttr "shorthand" (.bool false)) } := by
  refine ⟨unshared.distinct.graft (Nat.le_refl _) (fun _ => ?_) ?_, unshared.fit⟩
  · obtain ⟨kind, is⟩ := Value.isNode_iff_kind?.1 isNode
    exact Value.isNode_iff_kind?.2 ⟨kind, by rw [Value.kind?_setAttr, is]⟩
  · rw [show session.document.tree.at? cursor.address.dropLast = some parent from found]
    exact grafts_shorthand isNode (Value.everywhere_at? unshared.distinct.named found)
      (Value.everywhere_iff_labels.1 (Value.everywhere_at?
        (Value.everywhere_iff_labels.2 unshared.distinct.used) found)) set

theorem unshared_rename (cursor : Cursor) (unshared : Unshared free
    session) : Meets (Unshared free) (Unshared free) (rename cursor session) := by
  have renames := renames_rename cursor session
  generalize rename cursor session = outcome at renames ⊢
  cases renames with
  | fails => exact unshared
  | keeps => exact unshared
  | places _ _ placing =>
    exact placing.unshared_of_draws unshared (Value.draws_identifierNode _)
  | spells _ _ isProperty marked found placing =>
    exact placing.unshared_of_draws (unshared_putParent unshared found (Value.isNode_of_kind?
      (Value.kind?_of_isKind isProperty)) marked) (Value.draws_identifierNode _)

theorem actions_visitor : Actions visitor (Unshared free) (Unshared free) :=
  acts_onEnter (fun cursor _ unshared _ => unshared_rename cursor unshared) <|
    acts_onLeave (fun cursor _ unshared _ => unshared_logSummary cursor unshared) acts_nil

end Renaming

/-! ## Strings -/

namespace Strings

variable {session : Session State}

theorem aside_document : Aside (Session.document (σ := State)) := ⟨fun _ _ _ => rfl, fun _ _ => rfl⟩

theorem spares_log (message : String) : Spares free (log message) := Walk.spares_log _ _ _

theorem unshared_collect (limit : Nat) (cursor : Cursor) (unshared :
    Unshared free session) : Meets (Unshared free) (Unshared free) (collect limit cursor session) := by
  have actions : Actions collector (Unshared free) (Unshared free) :=
    fun _ _ _ member cursor _ kept _ =>
      (spares_of_document (fixes_collector aside_document member cursor)).meets kept
  refine meets_bind (meets_below suited_unshared actions limit cursor unshared)
    fun _ _ _ unshared => ?_
  refine Spares.meets ?_ unshared
  exact spares_bind spares_getState fun _ => spares_bind (spares_log _) fun _ => spares_pure _

theorem unshared_resolveCall (cursor : Cursor) (unshared : Unshared free
    session) : Meets (Unshared free) (Unshared free) (resolveCall cursor session) := by
  have kept {after : Session State} (leaves : Leaves cursor session cursor after) :
      Unshared free after := by
    refine ⟨?_, trivial⟩
    rw [Session.document, leaves.tree, leaves.next]
    exact unshared.distinct
  have resolves := resolveCall_resolves cursor session
  generalize resolveCall cursor session = outcome at resolves ⊢
  cases resolves with
  | fails _ => exact unshared
  | leaves _ leaves => exact kept leaves
  | puts _ leaves placing =>
    exact placing.unshared_of_draws (kept leaves) (Value.draws_stringNode _)

theorem actions_visitor (limit : Nat) :
    Actions (visitor limit) (Unshared free) (Unshared free) :=
  acts_onEnter (fun cursor _ unshared _ => unshared_collect limit cursor unshared) <|
    acts_onEnter (fun cursor _ unshared _ => unshared_resolveCall cursor unshared) acts_nil

end Strings

/-! ## Calls of helpers -/

namespace Inlining

variable {session : Session State}

/-- No collected function has an attribute name twice in an object, or a label that has not
been drawn. -/
def Collected (next : Nat) (state : State) : Prop :=
  ∀ entry ∈ state.functions,
    entry.2.Everywhere Value.NamedOnce ∧ ∀ label ∈ entry.2.labels, label < next

theorem grows_namedOnce : Value.Mark.Grows Value.NamedOnce := by
  intro _ _ names name absent once
  refine List.nodup_append.2 ⟨once, List.nodup_singleton name, ?_⟩
  intro first member second isName same
  rw [List.mem_singleton.1 isName] at same
  exact absent (same ▸ member)

/-- What is remade for a place may be put into any. -/
theorem grafts_of_remade {source new : Value} {first last : Nat}
    (old : ∀ label ∈ source.labels, label < first) (remade : source.Remade new first last)
    (named : new.Everywhere Value.NamedOnce) (place : Value) : place.Grafts new first last := by
  refine ⟨named, fun label member => ?_, fun label => ?_⟩
  · rcases remade.label_cases member with shared | drawn
    · exact Nat.lt_of_lt_of_le (old label shared) remade.most
    · exact drawn.2
  · by_cases before : label < first
    · -- labels of the source are not reached
      have absent : new.weight label = 0 := by
        refine List.count_eq_zero_of_not_mem fun member => ?_
        obtain ⟨node, reached, isLabel⟩ := List.mem_map.1 member
        obtain ⟨child, isChild, inside⟩ := List.mem_flatMap.1 reached
        obtain ⟨own, is, drawn⟩ := remade.reached child isChild node inside
        cases is.symm.trans isLabel
        omega
      exact .inl (absent ▸ Nat.zero_le _)
    · have atMost := Value.weight_le_count_labels label new named
      by_cases within : label < last
      · exact .inr ⟨Nat.le_trans atMost (remade.once label (by omega)), by omega, within⟩
      · rw [remade.count_eq_zero old (by omega) (.inr (by omega))] at atMost
        exact .inl (Nat.le_trans atMost (Nat.zero_le _))

theorem everywhere_current {function : Value} {mark : Value.Mark}
    (inTree : session.tree.Everywhere mark) (inFunction : function.Everywhere mark) :
    (session.current function).Everywhere mark := by
  rcases Value.current_cases session function with is | ⟨_, _, _, member⟩
  · rwa [is]
  · exact Value.everywhere_of_mem inTree member

section Inlining

variable (unshared : Unshared Collected session)

include unshared

theorem unshared_collector {phase : Phase} {kind : String} {handler : Handler State}
    (member : handler ∈ collector.handlersFor phase kind) (cursor : Cursor) :
    Meets (Unshared Collected) (Unshared Collected) (handler cursor session) := by
  have gathers := gathers_of_handler member cursor session
  generalize handler cursor session = outcome at gathers ⊢
  cases gathers with
  | fails | leaves => exact unshared
  | adds target offers =>
    refine ⟨unshared.distinct, fun entry member => ?_⟩
    rcases Names.mem_put member with was | isNew
    · exact unshared.fit entry was
    · obtain ⟨named, used⟩ := unshared.nodeIn cursor
      rw [← Value.everywhere_iff_labels] at used
      rw [isNew, ← Value.everywhere_iff_labels]
      exact ⟨offers.everywhere named, offers.everywhere used⟩

theorem unshared_of_learns {after : Session State} (learns : Learns session after) :
    Unshared Collected after := by
  constructor
  · rw [Session.document, learns.tree, learns.next]
    exact unshared.distinct
  · rw [Collected, learns.functions, learns.next]
    exact unshared.fit

/-- What takes the place of a call has labels of its own for all that is reached,
however often a parameter occurs. -/
theorem unshared_tryInline (cursor : Cursor) :
    Meets (Unshared Collected) (Unshared Collected) (tryInline cursor session) := by
  refine tryInline_outcome cursor session (fun _ _ _ => unshared_of_learns unshared)
    (fun _ _ => unshared_of_learns unshared) ?_
  intro build middle outcome isJudgement learns placing
  obtain ⟨target, function, judged⟩ := judged_of_judgement isJudgement
  obtain ⟨spelling, member⟩ := Names.mem_of_get? judged.collected
  obtain ⟨parameters, result, inlined, remakes⟩ := inline?_eq_some judged.inlined
  obtain ⟨named, used⟩ := unshared.fit _ member
  have inFunction := everywhere_current unshared.distinct.named named
  have inResult := inlined.everywhere grows_namedOnce (Value.within_of_everywhere inFunction)
    fun argument isArgument =>
      everywhere_elements (Value.everywhere_attr (unshared.nodeIn cursor).1 "arguments") isArgument
  have usedNow := everywhere_current (Value.everywhere_iff_labels.2 unshared.distinct.used)
    (Value.everywhere_iff_labels.2 used)
  have old : ∀ label ∈ (returned (session.current function)).labels, label < middle.next := by
    rw [learns.next, ← Value.everywhere_iff_labels]
    exact (compositional_everywhere fun _ _ _ _ _ below => below).returned
      (Value.everywhere_attr usedNow "body")
  have remade := remakes.remade middle.next old
  have learned := unshared_of_learns unshared learns
  have grown : Collected (build.run middle.next).2 middle.state := fun entry member =>
    ⟨(learned.fit entry member).1, fun label among =>
      Nat.lt_of_lt_of_le ((learned.fit entry member).2 label among) remade.most⟩
  exact placing.unshared learned remade.most (grafts_of_remade old remade
    ((remakes.twins middle.next).everywhere inResult) _) grown grown

end Inlining

theorem actions_unshared (limit : Nat) : Actions (visitor limit) (Unshared Collected)
    (Unshared Collected) :=
  actions_visitor suited_unshared
    (fun _ _ _ member cursor _ unshared _ => unshared_collector unshared member cursor)
    (fun cursor _ unshared => unshared_tryInline unshared cursor) limit

theorem collected_initial {options : Options} {state : State}
    (starts : State.initial options = .ok state) (next : Nat) : Collected next state := by
  obtain ⟨tracked, rfl⟩ := initial_eq_ok starts
  exact fun _ member => absurd member List.not_mem_nil

end Inlining

/-! ## All passes -/

/-- The six passes. -/
def all : List Plugin := [Strings.plugin, Inlining.plugin, Concatenation.plugin, Member.plugin,
  Folding.plugin, Renaming.plugin]

/-- The document after passes, each with options of its own, one after the other
and whether or not they succeed. -/
def applied (limit : Nat) (runs : List (Plugin × Options)) (document : Document) : Document :=
  runs.foldl (fun document run => (run.1.apply limit run.2 document).document) document

variable {document : Document}

theorem distinct_ofVisitor {σ : Type} {name : String} {initial : Options → Except Fault σ} {visitor
    : Nat → Visitor σ} {metadata : σ → Metadata} {fit : Nat → σ → Prop} (starts : ∀ options state, initial
    options = .ok state → ∀ next, fit next state) (actions : ∀ limit, Actions (visitor limit) (Unshared fit)
    (Unshared fit)) (limit : Nat) (options : Options) (distinct : document.Distinct) :
    ((Plugin.ofVisitor name initial visitor metadata).apply limit options
    document).document.Distinct := by
  unfold Plugin.ofVisitor
  dsimp only
  cases started : initial options with
  | error fault => exact distinct
  | ok state => exact distinct_start (actions limit) limit distinct (starts options state started _)

theorem distinct_apply {plugin : Plugin} (known : plugin ∈ all) (limit : Nat) (options : Options)
    (distinct : document.Distinct) : (plugin.apply limit options document).document.Distinct := by
  simp only [all, List.mem_cons, List.not_mem_nil, or_false] at known
  rcases known with rfl | rfl | rfl | rfl | rfl | rfl
  · exact distinct_ofVisitor (fun _ _ _ _ => trivial) Strings.actions_visitor limit options distinct
  · exact distinct_ofVisitor (fun _ _ starts => Inlining.collected_initial starts)
      Inlining.actions_unshared limit options distinct
  · exact distinct_ofVisitor (fun _ _ _ _ => trivial) (fun _ => Concatenation.actions_visitor) limit options
      distinct
  · exact distinct_ofVisitor (fun _ _ _ _ => trivial) (fun _ => Member.actions_visitor) limit options
      distinct
  · exact distinct_ofVisitor (fun _ _ _ _ => trivial) (fun _ => Folding.actions_visitor) limit options
      distinct
  · exact distinct_ofVisitor (fun _ _ _ _ => trivial) (fun _ => Renaming.actions_visitor) limit options
      distinct

/-- A tree in which no node is reached twice is one after every pass and after
any sequence of passes, whatever their options are and also where one fails. -/
theorem distinct_after_passes (limit : Nat) {runs : List (Plugin × Options)} (known : ∀ run ∈ runs,
    run.1 ∈ all) (distinct : document.Distinct) : (applied limit runs document).Distinct := by
  unfold applied
  induction runs generalizing document with
  | nil => exact distinct
  | cons run rest ih =>
    exact ih (fun other member => known other (List.mem_cons_of_mem _ member))
      (distinct_apply (known run List.mem_cons_self) limit run.2 distinct)

/-- `function Qc(a) { return a + a } Qc(0x1);` -/
def usedTwice : Document where
  tree := .program [
    .function 1 (.identifier 2 "Qc") [.identifier 3 "a"] (.block 4 [
      .returns 5 (.binary 6 "+" (.identifier 7 "a") (.identifier 8 "a"))]),
    .statement 9 (.call 10 (.identifier 11 "Qc") [.spelled 12 1 "0x1"])]
  next := 13

/-- The argument comes to stand twice in the place of the call, as two nodes that
are both rewritten in the next pass. -/
theorem distinct_after_passes_usedTwice : usedTwice.Distinct ∧
      ((applied 60 [(Inlining.plugin, [])] usedTwice).tree.nodes.filterMap
        fun node => if node.isNonDecimal then node.label? else none) = [13, 14] ∧
      (applied 60 [(Inlining.plugin, []), (Folding.plugin, [])] usedTwice).Distinct := by
  have distinct : usedTwice.Distinct := by
    refine ⟨rfl, ?_, by decide +kernel, by decide +kernel⟩
    simp [usedTwice, Value.Everywhere, Value.EverywhereItems, Value.EverywhereFields,
      Value.NamedOnce, Members.names]
  exact ⟨distinct, by decide +kernel, distinct_after_passes 60 (by simp [all]) distinct⟩

end Unravel.Pass
