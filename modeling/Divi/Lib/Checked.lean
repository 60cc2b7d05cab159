/-
Signed arithmetic of a given width in which an overflow has no result.

This is how a language that leaves signed overflow undefined is read: either every
intermediate result fits, and then the computation is the exact one, or nothing can be
said about it.
-/
import Mathlib.Algebra.Order.Ring.Int

namespace Checked

/-- The values of a signed type. -/
def Fits (bits : Nat) (x : Int) : Prop :=
  -(2 ^ (bits - 1)) ≤ x ∧ x < 2 ^ (bits - 1)
  deriving Decidable

/-- An exact result, if it fits. -/
def check (bits : Nat) (x : Int) : Option Int :=
  if Fits bits x then some x else none

theorem check_eq_some_iff {bits : Nat} {x y : Int} :
    check bits x = some y ↔ Fits bits x ∧ x = y := by
  unfold check
  by_cases h : Fits bits x
  · simp [h]
  · simp [h]

theorem check_of_fits {bits : Nat} {x : Int} (h : Fits bits x) : check bits x = some x := if_pos h

/-- An accumulated sum that never overflows is the exact one. -/
theorem eq_add_sum_of_foldlM_check {bits : Nat} {l : List Int} {start total : Int}
    (h : l.foldlM (fun sum x => check bits (sum + x)) start = some total) :
    total = start + l.sum := by
  induction l generalizing start with
  | nil =>
    have heq : start = total := by simpa using h
    simp [heq]
  | cons x xs ih =>
    obtain ⟨sum, hsum, hr⟩ := Option.bind_eq_some_iff.mp (by simpa using h)
    obtain ⟨-, rfl⟩ := check_eq_some_iff.mp hsum
    rw [ih hr, List.sum_cons, add_assoc]

end Checked
