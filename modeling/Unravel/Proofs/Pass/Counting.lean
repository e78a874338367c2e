import Unravel.Pipeline.Deobfuscator
import Unravel.Proofs.Inlining.Collection
import Unravel.Proofs.Renaming.Entering
import Unravel.Proofs.Simplification.Edits
import Unravel.Proofs.Strings.Asides
import Unravel.Proofs.Strings.Recovering

/-!
Contract: passes count what they rewrite.

Every rewrite of a pass is counted twice, among all changes and among the rewrites
of its own sort, and nothing else changes the tree. So the counters that a report
adds up come to the changes of a pass, and a pass without changes has left the
tree as it was (`Plugin.Accounted`).
-/

namespace Unravel

/-- The counters of a pass's metadata that count as changes in a report. -/
def Report.rewrites (metadata : Metadata) : Int := Report.count metadata "strings_recovered" +
  Report.count metadata "calls_inlined" + Report.count metadata "collapsed_concats" + Report.count
  metadata "members_converted" + Report.count metadata "literals_normalized" + Report.count metadata
  "expressions_folded" + Report.count metadata "identifiers_renamed"

/-- A pass that succeeds has counted its changes among the counters of the
report, and has left the tree as it was if there are none. -/
def Plugin.Accounted (plugin : Plugin) : Prop := ∀ limit options document metadata, (plugin.apply
  limit options document).result = .ok metadata → Report.rewrites metadata = Report.count metadata
  "changes" ∧ (Report.count metadata "changes" = 0 → (plugin.apply limit options
  document).document.tree = document.tree)

namespace Pass

open Walk

/-- A visitor that books its rewrites, with counters that start at zero. -/
theorem accounted_ofVisitor {σ : Type} (account : Account σ) {name : String}
    {initial : Options → Except Fault σ} {visitor : Nat → Visitor σ} {metadata : σ → Metadata}
    (books : ∀ limit, Bookkeeping account (visitor limit))
    (starts : ∀ options state, initial options = .ok state →
      account.changes state = 0 ∧ account.rewrites state = 0)
    (changes : ∀ state, Report.count (metadata state) "changes" = account.changes state)
    (rewrites : ∀ limit options state document after, initial options = .ok state →
      start limit (visitor limit) document state = (.ok (), after) →
        Report.rewrites (metadata after.state) = account.rewrites after.state) :
    (Plugin.ofVisitor name initial visitor metadata).Accounted := by
  intro limit options document found ran
  unfold Plugin.ofVisitor at ran ⊢
  dsimp only at ran ⊢
  cases begins : initial options with
  | error fault =>
    rw [begins] at ran
    cases ran
  | ok state =>
    rw [begins] at ran
    dsimp only at ran ⊢
    cases walked : start limit (visitor limit) document state with
    | mk outcome after =>
      rw [walked] at ran
      cases outcome with
      | error fault => cases ran
      | ok done =>
        cases ran
        obtain ⟨count, gained, same⟩ := booked_start (books limit) walked
        obtain ⟨noChanges, noRewrites⟩ := starts options state begins
        have isChanges : account.changes after.state = count := by
          rw [gained.changes]
          exact (congrArg (· + count) noChanges).trans (Nat.zero_add count)
        have isRewrites : account.rewrites after.state = count := by
          rw [gained.rewrites]
          exact (congrArg (· + count) noRewrites).trans (Nat.zero_add count)
        rw [changes, isChanges, rewrites limit options state document after begins walked, isRewrites]
        exact ⟨rfl, fun none_ => same (Int.natCast_eq_zero.1 none_)⟩

/-! ## Simplification -/

namespace Concatenation

/-- Joints are counted apart, so the changes stand for both counters. -/
def account : Account State := ⟨fun state => state.tally.changes, fun state => state.tally.changes⟩

theorem books_collapse (cursor : Cursor) : account.Books (collapse cursor) := by
  intro session moved after ran
  have placing := collapse_placing cursor session
  rw [ran] at placing
  split at placing
  · cases placing
    exact .of_sheet rfl
  · exact placing.booked rfl rfl

theorem accounted_plugin : plugin.Accounted := by
  refine accounted_ofVisitor account (fun _ _ => ?_) ?_ (fun _ => rfl) ?_
  · exact acts_onLeave (fun cursor _ booked _ => (books_collapse cursor).meets booked) acts_nil
  · rintro _ _ ⟨⟩
    exact ⟨rfl, rfl⟩
  · rintro limit options _ document after ⟨⟩ walked
    have even : after.state.collapsed = after.state.tally.changes := even_start rfl walked
    change (0 : Int) + 0 + after.state.collapsed + 0 + 0 + 0 + 0 = after.state.tally.changes
    omega

end Concatenation

namespace Folding

def account : Account State :=
  ⟨fun state => state.tally.changes, fun state => state.normalized + state.folded⟩

theorem booked_of_folds {room : Option Nat} {cursor moved : Cursor} {session after : Session State}
    (folds : Folds room cursor session (.ok moved after)) : account.Booked session after := by
  have counted (event : Event) : account.changes (session.state.count event) =
        account.changes session.state + 1 ∧
      account.rewrites (session.state.count event) = account.rewrites session.state + 1 := by
    cases event with
    | normalized => exact ⟨rfl, Nat.add_right_comm session.state.normalized 1 session.state.folded⟩
    | folded => exact ⟨rfl, rfl⟩
  cases folds with
  | stops | keeps => exact .of_sheet rfl
  | places _ _ placing => exact placing.booked (counted _).1 (counted _).2
  | assigns => exact ⟨1, ⟨rfl, rfl⟩, fun none => absurd none Nat.one_ne_zero⟩

theorem accounted_pluginWithin (room : Option Nat) : (pluginWithin room).Accounted := by
  refine accounted_ofVisitor account (fun _ first => acts_visitor ?_) ?_ (fun _ => rfl) ?_
  · intro cursor session outcome booked folds
    cases outcome with
    | error => trivial
    | ok moved after => exact booked.trans (booked_of_folds folds)
  · rintro _ _ ⟨⟩
    exact ⟨rfl, rfl⟩
  · intro limit options state document after _ _
    change (0 : Int) + 0 + 0 + 0 + after.state.normalized + after.state.folded + 0 =
      (after.state.normalized + after.state.folded : Nat)
    omega

end Folding

/-! ## Names -/

namespace Member

def account : Account State := ⟨fun state => state.tally.changes, fun state => state.converted⟩

theorem books_convert (cursor : Cursor) : account.Books (convert cursor) := by
  intro session moved after ran
  have converts := converts_convert cursor session
  rw [ran] at converts
  cases converts with
  | keeps changes converted => exact ⟨0, ⟨changes, converted⟩, fun _ => rfl⟩
  | places placing => exact placing.booked rfl rfl

theorem accounted_plugin : plugin.Accounted := by
  refine accounted_ofVisitor account (fun _ _ => ?_) ?_ (fun _ => rfl) ?_
  · exact acts_onEnter (fun cursor _ booked _ => (books_convert cursor).meets booked) acts_nil
  · rintro _ _ ⟨⟩
    exact ⟨rfl, rfl⟩
  · intro limit options state document after _ _
    change (0 : Int) + 0 + 0 + after.state.converted + 0 + 0 + 0 = after.state.converted
    omega

end Member

namespace Renaming

def account : Account State := ⟨fun state => state.tally.changes, fun state => state.renamed⟩

theorem books_rename (cursor : Cursor) : account.Books (rename cursor) := by
  intro session moved after ran
  have renames := renames_rename cursor session
  rw [ran] at renames
  cases renames with
  | keeps => exact .of_sheet rfl
  | places _ _ placing => exact placing.booked rfl rfl
  | spells _ _ _ _ _ placing =>
    refine ⟨1, ⟨?_, ?_⟩, fun none => absurd none Nat.one_ne_zero⟩
    · rw [placing.state]
      rfl
    · rw [placing.state]
      rfl

theorem books_logSummary (cursor : Cursor) : account.Books (logSummary cursor) := by
  refine books_bind (books_of_fixes fixes_getState) fun state => ?_
  dsimp only
  split
  · exact books_of_fixes (fixes_bind (fixes_log (fun _ _ _ => rfl) _ _ _) fun _ => fixes_pure _)
  · exact books_pure _

theorem counters_addRename {before state : State} {old : String} {new : Json}
    (adds : before.addRename old new = .ok state) :
    state.tally.changes = before.tally.changes ∧ state.renamed = before.renamed := by
  unfold State.addRename at adds
  split at adds
  · split at adds <;> cases adds <;> exact ⟨rfl, rfl⟩
  · cases adds

theorem counters_initial {options : Options} {state : State}
    (reads : State.initial options = .ok state) : state.tally.changes = 0 ∧ state.renamed = 0 := by
  have folds (entries : Members Json) (before : State)
      (added : entries.foldlM (fun state entry => state.addRename entry.1 entry.2) before =
        .ok state) :
      state.tally.changes = before.tally.changes ∧ state.renamed = before.renamed := by
    induction entries generalizing before with
    | nil =>
      cases added
      exact ⟨rfl, rfl⟩
    | cons entry rest ih =>
      rw [List.foldlM_cons] at added
      cases adds : before.addRename entry.1 entry.2 with
      | error fault =>
        rw [adds] at added
        cases added
      | ok between =>
        rw [adds] at added
        obtain ⟨changes, renamed⟩ := counters_addRename adds
        obtain ⟨changesThen, renamedThen⟩ := ih between added
        exact ⟨changesThen.trans changes, renamedThen.trans renamed⟩
  unfold State.initial at reads
  cases found : renameEntries options with
  | error fault =>
    rw [found] at reads
    cases reads
  | ok entries =>
    rw [found] at reads
    exact folds entries _ reads

theorem accounted_plugin : plugin.Accounted := by
  refine accounted_ofVisitor account (fun _ _ => ?_) (fun _ _ reads => counters_initial reads)
    (fun _ => rfl) ?_
  · exact acts_onEnter (fun cursor _ booked _ => (books_rename cursor).meets booked) <|
      acts_onLeave (fun cursor _ booked _ => (books_logSummary cursor).meets booked) acts_nil
  · intro limit options state document after _ _
    change (0 : Int) + 0 + 0 + 0 + 0 + 0 + after.state.renamed = after.state.renamed
    omega

end Renaming

/-! ## Strings -/

namespace Strings

def account : Account State := ⟨fun state => state.tally.changes, fun state => state.recovered⟩

theorem aside_sheet : Aside account.sheet := ⟨fun _ _ _ => rfl, fun _ _ => rfl⟩

theorem books_message (message : String) : account.Books (log message) :=
  books_of_fixes (fixes_message aside_sheet message)

theorem books_collect (limit : Nat) (cursor : Cursor) : account.Books (collect limit cursor) := by
  have books : Bookkeeping account collector := fun _ =>
    fun _ _ _ member cursor _ booked _ =>
      (books_of_fixes (fixes_collector aside_sheet member cursor)).meets booked
  refine books_bind (books_below books limit cursor) fun _ => ?_
  refine books_bind (books_of_fixes fixes_getState) fun state => ?_
  exact books_bind (books_message _) fun _ => books_pure _

theorem books_resolveCall (cursor : Cursor) : account.Books (resolveCall cursor) := by
  intro session moved after ran
  have done := resolveCall_eq_ok ran
  split at done
  · exact ⟨0, ⟨done.changes, done.recovered⟩, fun _ => done.tree⟩
  · exact ⟨1, ⟨done.changes, done.recovered⟩, fun none => absurd none Nat.one_ne_zero⟩

theorem accounted_plugin : plugin.Accounted := by
  refine accounted_ofVisitor account (fun limit _ => ?_) ?_ (fun _ => rfl) ?_
  · exact acts_onEnter (fun cursor _ booked _ => (books_collect limit cursor).meets booked) <|
      acts_onEnter (fun cursor _ booked _ => (books_resolveCall cursor).meets booked) acts_nil
  · rintro _ _ ⟨⟩
    exact ⟨rfl, rfl⟩
  · intro limit options state document after _ _
    change (after.state.recovered : Int) + 0 + 0 + 0 + 0 + 0 + 0 = after.state.recovered
    omega

end Strings

/-! ## Calls of helpers -/

namespace Inlining

def account : Account State := ⟨fun state => state.tally.changes, fun state => state.inlined⟩

theorem books_visitor (limit : Nat) : Bookkeeping account (visitor limit) := by
  intro first
  refine actions_visitor suited_booked ?_ ?_ limit
  · intro phase kind handler member cursor session booked _
    refine Account.Books.meets (fun session moved after ran => ?_) booked
    obtain ⟨_, _, rfl, _⟩ := added_of_handler member ran
    exact ⟨0, ⟨rfl, rfl⟩, fun _ => rfl⟩
  · intro cursor session booked
    refine Account.Books.meets (fun session tried after ran => ?_) booked
    rcases tryInline_cases ran with ⟨_, _, _, learns⟩ | ⟨_, _, _, places⟩
    · exact ⟨0, ⟨learns.changes, learns.inlined⟩, fun _ => learns.tree⟩
    · exact ⟨1, ⟨places.changes, places.inlined⟩, fun none => absurd none Nat.one_ne_zero⟩

theorem accounted_plugin : plugin.Accounted := by
  refine accounted_ofVisitor account books_visitor ?_ (fun _ => rfl) ?_
  · intro options state starts
    obtain ⟨tracked, rfl⟩ := initial_eq_ok starts
    exact ⟨rfl, rfl⟩
  · intro limit options state document after _ _
    change (0 : Int) + after.state.inlined + 0 + 0 + 0 + 0 + 0 = after.state.inlined
    omega

end Inlining

end Pass

end Unravel
