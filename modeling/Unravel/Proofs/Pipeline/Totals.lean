import Unravel.Proofs.Pipeline.Execution
import Unravel.Proofs.Tree.Programs

/-!
Contract: the report of a run counts every rewrite.

A run that succeeds has added the counters of its passes to the report. Every standard
pass is accounted for, so the report tallies with the passes (`totalChanges_eq_sum`).
-/

namespace Unravel

variable {limit : Nat} {document : Document} {registry : Registry}

/-! ## The passes of a run -/

/-- The passes of a deobfuscator over a document. -/
def Deobfuscator.stages (deobfuscator : Deobfuscator) (limit : Nat) (skip only : List (Option String))
    (document : Document) : List Stage :=
  Unravel.stages limit deobfuscator.options (deobfuscator.registry.schedule skip only) document

variable {options : Options} {pass : Stage} {skip only : List (Option String)}

theorem exists_registration {schedule : List (String × Registration)}
    (member : pass ∈ stages limit options schedule document) :
    ∃ entry ∈ schedule, pass.outcome = entry.2.plugin.apply limit options pass.before := by
  induction schedule generalizing document with
  | nil => cases member
  | cons entry rest ih =>
    rcases List.mem_cons.1 member with rfl | later
    · exact ⟨_, List.mem_cons_self, rfl⟩
    · obtain ⟨found, isIn, applied⟩ := ih later
      exact ⟨found, List.mem_cons_of_mem _ isIn, applied⟩

/-! ## Runs -/

theorem Deobfuscator.finish_eq_ok {tools : Toolkit} {before after : Context}
    (finishes : finish tools before = .ok after) :
    ∃ output, after = { before with
      output := output
      report := { before.report with outputLength := output.length } } := by
  unfold finish at finishes
  dsimp only at finishes
  cases prints : tools.print (Options.setting before.options "beautify").truthy
      before.document.tree with
  | error message =>
    rw [prints] at finishes
    cases finishes
  | ok output =>
    rw [prints] at finishes
    cases finishes
    exact ⟨output, rfl⟩

/-- A run that succeeds has read the program, run the passes over it and printed the
result. -/
theorem Deobfuscator.run_eq_ok {deobfuscator : Deobfuscator} {tools : Toolkit} {source : String}
    {context : Context} {written : List LogRecord}
    (ran : deobfuscator.run tools limit source skip only = (.ok context, written)) :
    ∃ document after remarks, tools.read source = .ok document ∧
      deobfuscator.registry.run limit (deobfuscator.context source document) skip only =
        (.ok after, remarks) ∧
      finish tools after = .ok context := by
  unfold Deobfuscator.run at ran
  cases reads : tools.read source with
  | error message =>
    rw [reads] at ran
    cases ran
  | ok document =>
    rw [reads] at ran
    dsimp only at ran
    cases runs : deobfuscator.registry.run limit (deobfuscator.context source document) skip
        only with
    | mk outcome remarks =>
      rw [runs] at ran
      cases outcome with
      | error halt => cases ran
      | ok after =>
        dsimp only at ran
        cases finishes : finish tools after with
        | error message =>
          rw [finishes] at ran
          cases ran
        | ok last =>
          rw [finishes] at ran
          cases ran
          exact ⟨document, after, remarks, rfl, runs, finishes⟩

/-! ## The standard passes -/

/-- Every pass that is registered is accounted for, and under a name of its own. -/
structure Registry.Accounted (registry : Registry) : Prop where
  distinct : (Members.names registry).Nodup
  plugins : ∀ entry ∈ registry, entry.2.plugin.Accounted

theorem Registry.Accounted.register (accounted : registry.Accounted) {plugin : Plugin} (isAccounted
    : plugin.Accounted) (order : Int) : (registry.register plugin order).Accounted := by
  refine ⟨Members.nodup_names_put accounted.distinct _ _, fun entry member => ?_⟩
  rcases Members.mem_put member with was | isNew
  · exact accounted.plugins entry was
  · rw [isNew]
    exact isAccounted

theorem accounted_standard (options : Options) :
    (Deobfuscator.standard options).registry.Accounted := by
  have empty : Registry.Accounted [] :=
    ⟨List.nodup_nil, fun _ member => absurd member List.not_mem_nil⟩
  have base := ((((empty.register Pass.Strings.accounted_plugin 10).register
    Pass.Inlining.accounted_plugin 20).register Pass.Concatenation.accounted_plugin 30).register
    Pass.Member.accounted_plugin 40).register (Pass.Folding.accounted_pluginWithin none) 50
  unfold Deobfuscator.standard
  dsimp only
  split
  · exact base.register Pass.Renaming.accounted_plugin 60
  · exact base

/-- The passes of a run are accounted for: those that report no changes have
changed nothing, and the rewrites that are counted are the changes. -/
theorem accounted_stages (accounted : registry.Accounted) (member : pass ∈ stages limit options
    (registry.schedule skip only) document) {metadata : Metadata} (succeeds : pass.outcome.result =
    .ok metadata) : Report.rewrites metadata = Report.count metadata "changes" ∧ (Report.count
    metadata "changes" = 0 → pass.outcome.document.tree = pass.before.tree) := by
  obtain ⟨entry, isIn, applied⟩ := exists_registration member
  rw [applied] at succeeds ⊢
  exact accounted.plugins entry (Registry.mem_schedule.1 isIn).1 _ _ _ _ succeeds

/-- The rewrites of passes that are accounted for come to their changes. -/
theorem sum_rewrites_eq {passes : List Stage} {added : Members Metadata}
    (results : Succeed passes added)
    (each : ∀ pass ∈ passes, ∀ metadata, pass.outcome.result = .ok metadata →
      Report.rewrites metadata = Report.count metadata "changes") :
    (added.map fun entry => Report.rewrites entry.2).sum =
      (added.map fun entry => Report.count entry.2 "changes").sum := by
  refine congrArg List.sum (List.map_congr_left fun entry member => ?_)
  have listed : (entry.1, Except.ok entry.2) ∈
      passes.map fun pass => (pass.name, pass.outcome.result) :=
    results ▸ List.mem_map.2 ⟨entry, member, rfl⟩
  obtain ⟨pass, isPass, same⟩ := List.mem_map.1 listed
  exact each pass isPass entry.2 (congrArg Prod.snd same)

/-- What a run has on record agrees with the passes it has gone through: each has given
metadata, the changes and refusals of all are added up, and one without changes has left
the tree as it found it. -/
structure Context.Tallies (context : Context) (passes : List Stage) (document : Document) :
    Prop where
  results : Succeed passes context.metadata
  leaves : context.document = leftBy passes document
  listed : context.report.passesRun = Members.names context.metadata
  changes : context.report.totalChanges =
    (context.metadata.map fun entry => Report.count entry.2 "changes").sum
  refusals : context.report.refusals =
    (context.metadata.map fun entry => Report.count entry.2 "skipped").sum
  unchanged : ∀ pass ∈ passes, ∀ metadata, pass.outcome.result = .ok metadata →
    Report.count metadata "changes" = 0 → pass.outcome.document.tree = pass.before.tree

/-- For every run of the standard passes that succeeds, with any tools and any selection
of the passes, the report counts the changes and the refusals of the passes. -/
theorem totalChanges_eq_sum
    (options : Options)
    (tools : Toolkit)
    (limit : Nat)
    (source : String)
    (skip only : List (Option String))
    {context : Context}
    {written : List LogRecord}
    (ran : (Deobfuscator.standard options).run tools limit source skip only =
      (.ok context, written)) :
    ∃ document,
      tools.read source = .ok document ∧
      context.Tallies ((Deobfuscator.standard options).stages limit skip only document) document := by
  have accounted := accounted_standard options
  obtain ⟨document, after, remarks, reads, runs, finishes⟩ := Deobfuscator.run_eq_ok ran
  obtain ⟨results, adds, leaves⟩ := Registry.run_eq_ok accounted.distinct rfl runs
  obtain ⟨output, rfl⟩ := Deobfuscator.finish_eq_ok finishes
  have sums := sum_rewrites_eq results fun pass member metadata succeeds =>
    (accounted_stages accounted member succeeds).1
  refine ⟨document, reads, results, leaves, adds.passes, ?_, ?_,
    fun pass member metadata succeeds => (accounted_stages accounted member succeeds).2⟩
  · dsimp only
    rw [← sums]
    exact adds.changes.trans (Int.zero_add _)
  · exact adds.refusals.trans (Int.zero_add _)

/-- A program that joins two texts. -/
def joinedTexts : Document :=
  ⟨.program [.binary 1 "+" (.string 2 "a") (.string 3 "b")], 4⟩

/-- Tools for which every text stands for one program. -/
def readingAs (document : Document) : Toolkit where
  parse _ _ := .ok document
  generate _ := .ok ""
  beautify _ code := .ok code

theorem print_readingAs (document : Document) (beautified : Bool) (tree : Value) :
    (readingAs document).print beautified tree = .ok "" := by
  cases beautified <;> rfl

theorem schedule_joinedTexts : (Deobfuscator.standard []).registry.schedule [] [] =
    (Deobfuscator.standard []).registry := List.mergeSort_of_pairwise (by decide)

theorem exists_run_joinedTexts : ∃ context written, (Deobfuscator.standard []).run
    (readingAs joinedTexts) 100 "" [] [] = (.ok context, written) ∧
      context.report.totalChanges = 1 := by
  have total : ((runScheduled 100 (Deobfuscator.standard []).registry
      ⟨(Deobfuscator.standard []).context "" joinedTexts, [], []⟩).1.toOption.map
        fun progress => progress.context.report.totalChanges) = some 1 := by
    decide +kernel
  cases runs : runScheduled 100 (Deobfuscator.standard []).registry
      ⟨(Deobfuscator.standard []).context "" joinedTexts, [], []⟩ with
  | mk outcome remarks =>
    rw [runs] at total
    cases outcome with
    | error halt => cases total
    | ok progress =>
      have reads : (readingAs joinedTexts).read "" = .ok joinedTexts := rfl
      unfold Deobfuscator.run Registry.run
      rw [reads]
      dsimp only
      rw [schedule_joinedTexts, runs]
      dsimp only [Deobfuscator.finish]
      rw [print_readingAs]
      exact ⟨_, _, rfl, Option.some.inj total⟩

theorem totalChanges_eq_sum_joinedTexts :
    ∃ context written,
      (Deobfuscator.standard []).run (readingAs joinedTexts) 100 "" [] [] =
        (.ok context, written) ∧
      context.report.totalChanges = 1 ∧
      ∃ document,
        (readingAs joinedTexts).read "" = .ok document ∧
        context.Tallies ((Deobfuscator.standard []).stages 100 [] [] document) document := by
  obtain ⟨context, written, ran, total⟩ := exists_run_joinedTexts
  exact ⟨context, written, ran, total,
    totalChanges_eq_sum [] (readingAs joinedTexts) 100 "" [] [] ran⟩

end Unravel
