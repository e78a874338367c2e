import Mathlib.Data.List.Basic
import Mathlib.Data.List.Induction
import Unravel.Proofs.Pipeline.Execution

/-!
Contract: the order in which passes are listed and in which they run.

A registry comes about step by step. Its names stay distinct, each stands for the pass
that was registered last under it, and a pass that is added runs after all others
(`schedule_add`). A run goes by order and name. The listing goes by order alone, so the
two agree exactly when passes of one order were first registered in the order of their
names (`passNames_eq_passesRun_iff`).
-/

namespace Unravel

variable {entry : String × Registration}

theorem Members.put_perm {α : Type} {members : Members α} (distinct : (names members).Nodup)
    (name : String) (value : α) :
    (put members name value).Perm (erase members name ++ [(name, value)]) := by
  induction members with
  | nil => exact .refl _
  | cons head rest ih =>
    obtain ⟨notLater, distinctRest⟩ := List.nodup_cons.1 distinct
    unfold put erase
    split
    · rename_i same
      have others : rest.filter (fun member => member.1 != name) = rest := by
        refine List.filter_eq_self.2 fun member inRest => bne_iff_ne.2 fun isName => ?_
        exact notLater (List.mem_map.2 ⟨member, inRest, isName.trans same.symm⟩)
      rw [List.filter_cons_of_neg (by simp [same]), others, same]
      exact (List.perm_append_singleton _ _).symm
    · rename_i differs
      rw [List.filter_cons_of_pos (by simpa using differs)]
      exact (ih distinctRest).cons _

/-! ## Histories -/

/-- A pass that is registered, with an order or after all others. -/
inductive RegistryStep where
  | register (plugin : Plugin) (order : Int)
  | add (plugin : Plugin)

def RegistryStep.plugin : RegistryStep → Plugin
  | .register plugin _ => plugin
  | .add plugin => plugin

namespace Registry

def take (registry : Registry) : RegistryStep → Registry
  | .register plugin order => registry.register plugin order
  | .add plugin => registry.add plugin

/-- The registry that steps lead to. -/
def ofSteps (steps : List RegistryStep) : Registry := steps.foldl take []

/-- The order that a step gives its pass. -/
def orderOf (registry : Registry) : RegistryStep → Int
  | .register _ order => order
  | .add _ => registry.lastOrder + 10

theorem take_eq (registry : Registry) (step : RegistryStep) :
    registry.take step = registry.register step.plugin (registry.orderOf step) := by
  cases step <;> rfl

theorem ofSteps_concat (steps : List RegistryStep) (step : RegistryStep) :
    ofSteps (steps ++ [step]) = (ofSteps steps).take step := by
  rw [ofSteps, List.foldl_append]
  rfl

/-- Names are distinct, and every pass is registered under its own. -/
structure Sound (registry : Registry) : Prop where
  distinct : (Members.names registry).Nodup
  named : ∀ entry ∈ registry, entry.2.plugin.name = entry.1

variable {registry : Registry}

theorem Sound.register (sound : registry.Sound) (plugin : Plugin) (order : Int) : (registry.register
    plugin order).Sound := by
  refine ⟨Members.nodup_names_put sound.distinct _ _, fun entry member => ?_⟩
  have written := (Members.put_perm sound.distinct plugin.name ⟨order, plugin⟩).mem_iff.1 member
  rcases List.mem_append.1 written with was | isNew
  · exact sound.named entry (List.mem_filter.1 was).1
  · rw [List.mem_singleton.1 isNew]

theorem sound_ofSteps (steps : List RegistryStep) : (ofSteps steps).Sound := by
  induction steps using List.reverseRecOn with
  | nil => exact ⟨List.nodup_nil, fun _ member => absurd member List.not_mem_nil⟩
  | append_singleton steps step ih =>
    rw [ofSteps_concat, take_eq]
    exact ih.register _ _

variable {steps : List RegistryStep} {left right : String × Registration}

/-- Whether a registration comes before another in a run. -/
def Precedes (left right : String × Registration) : Prop :=
  left.2.order < right.2.order ∨ left.2.order = right.2.order ∧ left.1 < right.1

theorem runsBefore_iff : runsBefore left right ↔
      left.2.order < right.2.order ∨ left.2.order = right.2.order ∧ left.1 ≤ right.1 := by
  simp [runsBefore]

theorem runsBefore_trans (first second third : String × Registration) (left : runsBefore first
    second) (right : runsBefore second third) : runsBefore first third := by
  rw [runsBefore_iff] at left right ⊢
  rcases left with below | ⟨same, earlier⟩
  · rcases right with further | ⟨also, _⟩
    · exact .inl (Int.lt_trans below further)
    · exact .inl (also ▸ below)
  · rcases right with further | ⟨also, later⟩
    · exact .inl (same ▸ further)
    · exact .inr ⟨same.trans also, String.le_trans earlier later⟩

theorem runsBefore_total (left right : String × Registration) :
    (runsBefore left right || runsBefore right left) := by
  rw [Bool.or_eq_true, runsBefore_iff, runsBefore_iff]
  rcases Int.lt_trichotomy left.2.order right.2.order with below | same | above
  · exact .inl (.inl below)
  · exact (String.le_total left.1 right.1).imp (.inr ⟨same, ·⟩) (.inr ⟨same.symm, ·⟩)
  · exact .inr (.inl above)

theorem Precedes.asymm (before : Precedes left right) (after : Precedes right left) : False := by
  rcases before with below | ⟨same, earlier⟩ <;> rcases after with above | ⟨also, later⟩
  · omega
  · omega
  · omega
  · exact String.lt_asymm earlier later

/-- A run goes by order and, among passes of one order, by name. -/
theorem Sound.pairwise_schedule (sound : registry.Sound) (skip only : List (Option String)) :
    (registry.schedule skip only).Pairwise Precedes := by
  have sorted : (registry.schedule skip only).Pairwise fun left right =>
      runsBefore left right :=
    List.pairwise_mergeSort runsBefore_trans runsBefore_total _
  have differ := List.pairwise_map.1 (nodup_schedule sound.distinct skip only)
  refine (sorted.and differ).imp fun {left right} both => ?_
  obtain ⟨before, differs⟩ := both
  refine (runsBefore_iff.1 before).imp_right fun ⟨same, earlier⟩ => ⟨same, ?_⟩
  exact String.not_le.1 fun later => differs (String.le_antisymm earlier later)

theorem eq_of_perm {left right : List (String × Registration)} (perm : left.Perm right)
    (sorted : left.Pairwise Precedes) (also : right.Pairwise Precedes) : left = right :=
  perm.eq_of_pairwise (fun _ _ _ _ before after => (before.asymm after).elim) sorted also

/-- The registrations as they are listed. -/
def listing (registry : Registry) : List (String × Registration) :=
  registry.mergeSort fun left right => left.2.order ≤ right.2.order

/-- Passes of one order were first registered in the order of their names. -/
def TiedByName (registry : Registry) : Prop := registry.Pairwise fun earlier later =>
    earlier.2.order = later.2.order → earlier.1 ≤ later.1

theorem Sound.passNames_eq (sound : registry.Sound) :
    registry.passNames = registry.listing.map Prod.fst := by
  refine List.map_congr_left fun entry member => ?_
  exact sound.named entry (List.mem_mergeSort.1 member)

theorem Sound.filterMap_names (sound : registry.Sound) {entries : List (String × Registration)}
    (among : ∀ entry ∈ entries, entry ∈ registry) : (entries.map Prod.fst).filterMap
      (fun name => (Members.get? registry name).map fun found => (name, found)) = entries := by
  rw [List.filterMap_map]
  refine (List.filterMap_congr fun entry member => ?_).trans List.filterMap_some
  rw [Function.comp_apply, Members.get?_of_mem sound.distinct (among entry member)]
  rfl

theorem schedule_all (registry : Registry) :
    registry.schedule [] [] = registry.mergeSort runsBefore := by
  have all : (registry.filter fun entry =>
      takesPart (selectedNames []) (selectedNames []) entry.1) = registry :=
    List.filter_eq_self.2 fun _ _ => rfl
  rw [schedule, all]

theorem listing_perm_schedule (registry : Registry) :
    registry.listing.Perm (registry.schedule [] []) := by
  rw [schedule_all]
  exact (List.mergeSort_perm _ _).trans (List.mergeSort_perm _ _).symm

theorem order_trans (first second third : String × Registration)
    (left : decide (first.2.order ≤ second.2.order))
    (right : decide (second.2.order ≤ third.2.order)) : decide (first.2.order ≤ third.2.order) := by
  rw [decide_eq_true_eq] at left right ⊢
  exact Int.le_trans left right

theorem order_total (left right : String × Registration) :
    (decide (left.2.order ≤ right.2.order) || decide (right.2.order ≤ left.2.order)) := by
  rw [Bool.or_eq_true, decide_eq_true_eq, decide_eq_true_eq]
  exact Int.le_total _ _

/-- If passes of one order were registered by name, the listing is sorted as a run is. -/
theorem TiedByName.pairwise_listing (tied : registry.TiedByName) :
    registry.listing.Pairwise fun left right => runsBefore left right := by
  induction registry with
  | nil =>
    rw [listing, List.mergeSort_nil]
    exact .nil
  | cons head rest ih =>
    obtain ⟨tiedHead, tiedRest⟩ := List.pairwise_cons.1 tied
    -- the first registration stands before all that do not have a smaller order
    obtain ⟨smaller, others, isListing, isRest, refused⟩ :=
      List.mergeSort_cons order_trans order_total head rest
    have sorted := List.pairwise_mergeSort order_trans order_total (head :: rest)
    have sortedRest := ih tiedRest
    rw [isListing, List.pairwise_append, List.pairwise_cons] at sorted
    rw [listing, isRest, List.pairwise_append] at sortedRest
    obtain ⟨_, ⟨least, _⟩, _⟩ := sorted
    obtain ⟨sortedSmaller, sortedOthers, across⟩ := sortedRest
    have headFirst : ∀ other ∈ others, runsBefore head other := by
      intro other member
      rw [runsBefore_iff]
      refine (Int.lt_or_eq_of_le (of_decide_eq_true (least other member))).imp_right
        fun same => ⟨same, tiedHead other ?_ same⟩
      rw [← List.mem_mergeSort, isRest]
      exact List.mem_append_right _ member
    have headLast : ∀ other ∈ smaller, runsBefore other head := by
      intro other member
      rw [runsBefore_iff]
      have notLess := refused other member
      simp only [Bool.not_eq_true', decide_eq_false_iff_not] at notLess
      exact .inl (Int.not_le.1 notLess)
    rw [listing, isListing, List.pairwise_append, List.pairwise_cons]
    refine ⟨sortedSmaller, ⟨headFirst, sortedOthers⟩, fun first isFirst second isSecond => ?_⟩
    rcases List.mem_cons.1 isSecond with rfl | later
    · exact headLast first isFirst
    · exact across first isFirst second later

/-- Passes are listed in the order they run in exactly when passes of one order were
first registered in the order of their names. -/
theorem Sound.passNames_eq_iff (sound : registry.Sound) :
    registry.passNames = (registry.schedule [] []).map Prod.fst ↔ registry.TiedByName := by
  have perm := listing_perm_schedule registry
  have inListing {entry : String × Registration} (member : entry ∈ registry.listing) :
      entry ∈ registry := List.mem_mergeSort.1 member
  have inSchedule {entry : String × Registration} (member : entry ∈ registry.schedule [] []) :
      entry ∈ registry := (mem_schedule.1 member).1
  rw [sound.passNames_eq]
  constructor
  · intro same
    have equal : registry.listing = registry.schedule [] [] := by
      rw [← sound.filterMap_names fun _ => inListing, same,
        sound.filterMap_names fun _ => inSchedule]
    refine List.pairwise_iff_forall_sublist.2 fun {earlier later} sublist tie => ?_
    have listed : [earlier, later].Sublist registry.listing := List.pair_sublist_mergeSort
      order_trans order_total (decide_eq_true (Int.le_of_eq tie)) sublist
    rw [equal] at listed
    rcases List.pairwise_iff_forall_sublist.1 (sound.pairwise_schedule [] []) listed with
      below | ⟨_, before⟩
    · omega
    · exact String.not_lt.1 (String.lt_asymm before)
  · intro tied
    have sorted : (registry.schedule [] []).Pairwise fun left right =>
        runsBefore left right := by
      exact List.pairwise_mergeSort runsBefore_trans runsBefore_total _
    refine congrArg (List.map Prod.fst) (perm.eq_of_pairwise ?_ tied.pairwise_listing sorted)
    intro one other isOne isOther before after
    refine List.inj_on_of_nodup_map sound.distinct (inListing isOne) (inSchedule isOther) ?_
    rw [runsBefore_iff] at before after
    rcases before with below | ⟨_, earlier⟩ <;> rcases after with above | ⟨_, later⟩ <;>
      first | omega | exact String.le_antisymm earlier later

end Registry

/-! ## Runs -/

theorem map_name_stages (limit : Nat) (options : Options) (schedule : List (String × Registration))
    (document : Document) :
    (stages limit options schedule document).map Stage.name = schedule.map Prod.fst := by
  induction schedule generalizing document with
  | nil => rfl
  | cons entry rest ih =>
    rw [stages, List.map_cons, List.map_cons, ih]

/-- Whether no pass is on record yet. -/
structure Context.Fresh (context : Context) : Prop where
  timings : context.timings = []
  metadata : context.metadata = []
  passes : context.report.passesRun = []

namespace Registry

theorem passesRun_of_run {registry : Registry} (sound : registry.Sound) {limit : Nat}
    {context after : Context} (fresh : context.Fresh) {skip only : List (Option String)}
    {log : List Remark} (ran : registry.run limit context skip only = (.ok after, log)) :
    after.report.passesRun = (registry.schedule skip only).map Prod.fst := by
  obtain ⟨results, adds, _⟩ := run_eq_ok sound.distinct fresh.metadata ran
  rw [adds.passes, fresh.passes, List.nil_append, results.names, map_name_stages]

/-- For every history of registrations, and every run over all passes that succeeds: the
passes that are listed are those that have run, and they are listed in the order they
have run in exactly when passes of one order were first registered in the order of their
names. -/
theorem passNames_eq_passesRun_iff
    (steps : List RegistryStep)
    {limit : Nat}
    {context after : Context}
    (fresh : context.Fresh)
    {log : List Remark}
    (ran : (ofSteps steps).run limit context [] [] = (.ok after, log)) :
    (ofSteps steps).passNames.Perm after.report.passesRun ∧
    ((ofSteps steps).passNames = after.report.passesRun ↔ (ofSteps steps).TiedByName) := by
  have sound := sound_ofSteps steps
  rw [passesRun_of_run sound fresh ran]
  refine ⟨?_, sound.passNames_eq_iff⟩
  rw [sound.passNames_eq]
  exact (listing_perm_schedule _).map _

/-- A pass that leaves every document as it is. -/
def idlePass (name : String) : Plugin := ⟨name, fun _ _ document => ⟨document, [], .ok []⟩⟩

/-- Two passes of one order, the later name first. -/
def tiedSteps : List RegistryStep := [.register (idlePass "b") 10, .register (idlePass "a") 10]

theorem schedule_tiedSteps : (ofSteps tiedSteps).schedule [] [] =
      [("a", ⟨10, idlePass "a"⟩), ("b", ⟨10, idlePass "b"⟩)] := by
  refine eq_of_perm ?_ ((sound_ofSteps tiedSteps).pairwise_schedule [] []) ?_
  · exact (List.mergeSort_perm _ _).trans (.swap _ _ _)
  · refine List.pairwise_pair.2 (.inr ⟨rfl, ?_⟩)
    decide

/-- A context over an empty program. -/
def emptyContext : Context :=
  ⟨"", ⟨.node 0 "Program" [("body", .list [])], 1⟩, [], Report.empty, [], [], ""⟩

theorem fresh_emptyContext : emptyContext.Fresh := ⟨rfl, rfl, rfl⟩

theorem exists_run_tiedSteps :
    ∃ after log, (ofSteps tiedSteps).run 1 emptyContext [] [] = (.ok after, log) := by
  unfold Registry.run
  rw [schedule_tiedSteps]
  exact ⟨_, _, rfl⟩

theorem passNames_eq_passesRun_iff_tiedSteps :
    emptyContext.Fresh ∧
    ∃ after log,
      (ofSteps tiedSteps).run 1 emptyContext [] [] = (.ok after, log) ∧
      after.report.passesRun = ["a", "b"] ∧
      (ofSteps tiedSteps).passNames = ["b", "a"] ∧
      ¬ (ofSteps tiedSteps).TiedByName := by
  obtain ⟨after, log, ran⟩ := exists_run_tiedSteps
  have sound := sound_ofSteps tiedSteps
  have executed : after.report.passesRun = ["a", "b"] := by
    rw [passesRun_of_run sound fresh_emptyContext ran, schedule_tiedSteps]
    rfl
  have listed : (ofSteps tiedSteps).passNames = ["b", "a"] := by
    rw [sound.passNames_eq, listing, List.mergeSort_of_pairwise (by decide)]
    rfl
  refine ⟨fresh_emptyContext, after, log, ran, executed, listed, fun tied => ?_⟩
  have same := (passNames_eq_passesRun_iff tiedSteps fresh_emptyContext ran).2.2 tied
  rw [executed, listed] at same
  exact absurd same (by decide)

end Registry

end Unravel
