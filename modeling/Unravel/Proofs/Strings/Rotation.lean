import Mathlib.Data.List.Rotate
import Unravel.Pass.Strings.Rotation

/-!
Contract: a rotated table against the loop that rotates it one step at a time.

The loop takes the first element off the front and pushes it onto the end, `count` times
over. Rotating does the same at once, whatever the count (`rotateLeft_as_steps`), and
rotations add up, also backwards.
-/

namespace Unravel.Pass.Strings

variable {α : Type}

/-- One step of the loop: the first element goes to the end. -/
def moveFirst : List α → List α
  | [] => []
  | first :: rest => rest ++ [first]

theorem moveFirst_eq_rotate (values : List α) : moveFirst values = values.rotate 1 := by
  cases values with
  | nil => rfl
  | cons first rest => simp [moveFirst]

theorem iterate_moveFirst (values : List α) (count : Nat) :
    moveFirst^[count] values = values.rotate count := by
  induction count with
  | zero => simp
  | succ count ih =>
    rw [Function.iterate_succ_apply', ih, moveFirst_eq_rotate, List.rotate_rotate]

theorem rotateLeft_eq_rotate (values : List α) (count : Int) :
    rotateLeft values count = values.rotate (count % values.length).toNat := by
  rw [List.rotate_eq_drop_append_take_mod]
  cases values with
  | nil => simp [rotateLeft]
  | cons first rest =>
    have positive : (0 : Int) < (first :: rest).length := Int.natCast_pos.2 (Nat.succ_pos _)
    have least := Int.emod_nonneg count (Int.ne_of_gt positive)
    have most := Int.emod_lt_of_pos count positive
    rw [Nat.mod_eq_of_lt (by omega)]
    rfl

theorem rotateLeft_natCast (values : List α) (count : Nat) :
    rotateLeft values count = values.rotate count := by
  rw [rotateLeft_eq_rotate, ← Int.natCast_emod, Int.toNat_natCast, List.rotate_mod]

theorem rotateLeft_rotateLeft (values : List α) (first second : Int) :
    rotateLeft (rotateLeft values first) second = rotateLeft values (first + second) := by
  have same : (rotateLeft values first).length = values.length := by
    rw [rotateLeft_eq_rotate, List.length_rotate]
  rw [rotateLeft_eq_rotate _ second, same, rotateLeft_eq_rotate values first, List.rotate_rotate,
    rotateLeft_eq_rotate, ← List.rotate_mod]
  cases values with
  | nil => simp
  | cons head rest =>
    congr 1
    have positive : (0 : Int) < (head :: rest).length := Int.natCast_pos.2 (Nat.succ_pos _)
    generalize (head :: rest).length = length at positive
    -- The shifts are the residues of the counts, and the residue of their sum is that of the
    -- sum of the counts.
    have least := Int.emod_nonneg first (Int.ne_of_gt positive)
    have leastToo := Int.emod_nonneg second (Int.ne_of_gt positive)
    have sum : (((first % length).toNat + (second % length).toNat : Nat) : Int) =
        first % length + second % length := by
      omega
    rw [Int.add_emod, ← sum, ← Int.natCast_emod, Int.toNat_natCast]

/-- Rotating by a count is making as many steps of the loop, and rotations by any counts add up,
so that one by the opposite count undoes one. -/
theorem rotateLeft_as_steps (values : List α) :
    (∀ count : Nat, rotateLeft values count = moveFirst^[count] values) ∧
      (∀ first second : Int,
        rotateLeft (rotateLeft values first) second = rotateLeft values (first + second)) ∧
      ∀ count : Int, rotateLeft (rotateLeft values count) (-count) = values := by
  refine ⟨fun count => ?_, rotateLeft_rotateLeft values, fun count => ?_⟩
  · rw [rotateLeft_natCast, iterate_moveFirst]
  · rw [rotateLeft_rotateLeft, Int.add_right_neg]
    exact (rotateLeft_natCast values 0).trans values.rotate_zero

end Unravel.Pass.Strings
