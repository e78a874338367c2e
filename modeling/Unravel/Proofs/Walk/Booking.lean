import Unravel.Proofs.Walk.Outcomes

/-!
Contract: walks that keep count of what they rewrite.

An `Account` names two counters of a visitor's state: all changes, and the
rewrites of the visitor's own sort. An action `Books` its rewrites if both go up
by one number and the tree is as it was where that number is zero. What the
actions of a visitor book, a walk books as a whole (`booked_start`).
-/

namespace Unravel.Walk

variable {σ α β : Type}

/-- The counters of a visitor's state. -/
structure Account (σ : Type) where
  changes : σ → Nat
  rewrites : σ → Nat

namespace Account

/-- What the counters stand at. -/
def balance (account : Account σ) (session : Session σ) : Nat × Nat :=
  (account.changes session.state, account.rewrites session.state)

/-- The tree and what the counters stand at. -/
def sheet (account : Account σ) (session : Session σ) : Value × Nat × Nat :=
  (session.tree, account.balance session)

/-- Both counters have gone up by a number. -/
structure Gained (account : Account σ) (count : Nat) (before after : Session σ) : Prop where
  changes : account.changes after.state = account.changes before.state + count
  rewrites : account.rewrites after.state = account.rewrites before.state + count

/-- Both counters have gone up by one number, and the tree is the same if it is
zero. -/
def Booked (account : Account σ) (before after : Session σ) : Prop :=
  ∃ count, account.Gained count before after ∧ (count = 0 → after.tree = before.tree)

/-- A result of the action is booked. -/
def Books (account : Account σ) (action : WalkM σ α) : Prop :=
  ∀ ⦃session value after⦄, action session = .ok value after → account.Booked session after

variable {account : Account σ} {first second third : Session σ}

theorem Gained.trans {earlier later : Nat} (left : account.Gained earlier first second)
    (right : account.Gained later second third) : account.Gained (earlier + later) first third :=
  ⟨by rw [right.changes, left.changes, Nat.add_assoc],
    by rw [right.rewrites, left.rewrites, Nat.add_assoc]⟩

theorem Booked.of_sheet (same : account.sheet second = account.sheet first) : account.Booked first
    second := ⟨0, ⟨congrArg (fun sheet => sheet.2.1) same, congrArg (fun sheet => sheet.2.2) same⟩,
    fun _ => congrArg Prod.fst same⟩

theorem Booked.trans (left : account.Booked first second) (right : account.Booked second third) :
    account.Booked first third := by
  obtain ⟨earlier, gained, same⟩ := left
  obtain ⟨later, gainedThen, sameThen⟩ := right
  refine ⟨earlier + later, gained.trans gainedThen, fun nothing => ?_⟩
  obtain ⟨noEarlier, noLater⟩ := Nat.add_eq_zero_iff.1 nothing
  exact (sameThen noLater).trans (same noEarlier)

end Account

open Account

variable {account : Account σ} {action : WalkM σ α} {next : α → WalkM σ β}

theorem books_of_fixes (fixes : Fixes account.sheet action) : account.Books action := by
  intro session value after ran
  have same := (fixes session).1
  rw [ran] at same
  exact .of_sheet same

theorem books_pure (value : α) : account.Books (pure value : WalkM σ α) :=
  books_of_fixes (fixes_pure value)

theorem books_bind (earlier : account.Books action) (later : ∀ value, account.Books (next value)) :
    account.Books (action >>= next) := by
  intro session value after ran
  obtain ⟨middle, between, start, rest⟩ := WalkM.bind_eq_ok.1 ran
  exact (earlier start).trans (later middle rest)

theorem Placing.booked {answer : Cursor → α} {build : Value.Fresh Value} {change : σ → σ} {cursor :
    Cursor} {session after : Session σ} {value : α} (placing : Placing answer build change cursor
    session (.ok value after)) (changes : account.changes (change session.state) = account.changes
    session.state + 1) (rewrites : account.rewrites (change session.state) = account.rewrites
    session.state + 1) : account.Booked session after := by
  refine ⟨1, ⟨?_, ?_⟩, fun none => absurd none Nat.one_ne_zero⟩
  · rw [placing.state, changes]
  · rw [placing.state, rewrites]

/-! ## Visitors -/

variable {visitor : Visitor σ}

/-- Every action of the visitor books its rewrites. -/
def Bookkeeping (account : Account σ) (visitor : Visitor σ) : Prop :=
  ∀ first, Actions visitor (account.Booked first) fun _ => True

variable {first session after : Session σ}

theorem Account.Books.meets (books : account.Books action) (booked : account.Booked first session) :
    Meets (account.Booked first) (fun _ => True) (action session) :=
  ends_of_ok fun _ _ acted => booked.trans (books acted)

theorem suited_booked : Suited (account.Booked first) fun _ => True := by
  refine ⟨fun before after same booked => booked.trans (.of_sheet ?_), fun _ _ => trivial⟩
  simp only [standing, Prod.mk.injEq] at same
  simp only [sheet, balance, same.1, same.2.2]

theorem books_below (books : Bookkeeping account visitor) (limit : Nat) (cursor : Cursor) :
    account.Books (below limit visitor cursor) := by
  intro session value after ran
  have ends := meets_below suited_booked (books session) limit cursor (.of_sheet rfl)
  rw [ran] at ends
  exact ends

/-- What the actions of a visitor book is booked by a walk that gives a result. -/
theorem booked_start (books : Bookkeeping account visitor) {limit : Nat} {document : Document}
    {state : σ} (ran : start limit visitor document state = (.ok (), after)) :
    account.Booked (initialSession document state) after := by
  have ends := meets_start suited_booked (books (initialSession document state)) limit
    (.of_sheet rfl)
  rw [ran] at ends
  rcases ends with ⟨_, _, booked⟩ | ⟨_, failed, _⟩
  · exact booked
  · cases failed

end Unravel.Walk
