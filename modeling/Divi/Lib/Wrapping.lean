/-
Signed 64-bit arithmetic that wraps around.

An accumulator that wraps at every step ends at the wrapped exact sum.  What is lost is
how often it wrapped: two wrapped values compare like the exact ones exactly when the
larger has not wrapped less often than the smaller.
-/
import Mathlib.Algebra.Order.Ring.Int

namespace Wrapping

/-- The value that 64 bits hold after an exact result. -/
def wrap (x : Int) : Int :=
  x.bmod (2 ^ 64)

/-- How often an exact result wrapped around. -/
def wraps (x : Int) : Int :=
  x.bdiv (2 ^ 64)

/-- A signed 64-bit integer. -/
def InRange (x : Int) : Prop :=
  -(2 ^ 63) ≤ x ∧ x < 2 ^ 63
  deriving Decidable

theorem wrap_inRange (x : Int) : InRange (wrap x) := by
  have hlow := Int.le_bmod (x := x) (show 0 < 2 ^ 64 by decide)
  have hhigh := Int.bmod_lt (x := x) (show 0 < 2 ^ 64 by decide)
  unfold InRange wrap
  omega

theorem wrap_eq_self_iff {x : Int} : wrap x = x ↔ InRange x := by
  constructor
  · intro h
    rw [← h]
    exact wrap_inRange x
  · intro ⟨hlow, hhigh⟩
    exact Int.bmod_eq_of_le (by omega) (by omega)

theorem wrap_wrap_add (x y : Int) : wrap (wrap x + y) = wrap (x + y) := Int.bmod_add_bmod

theorem wrap_add_wrap (x y : Int) : wrap (x + wrap y) = wrap (x + y) := Int.add_bmod_bmod

theorem wrap_sub_wrap (x y : Int) : wrap (x - wrap y) = wrap (x - y) := Int.sub_bmod_bmod

theorem wrap_wrap_sub (x y : Int) : wrap (wrap x - y) = wrap (x - y) := Int.bmod_sub_bmod

theorem wrap_eq (x : Int) : wrap x = x - 2 ^ 64 * wraps x :=
  Int.bmod_eq_self_sub_mul_bdiv x (2 ^ 64)

theorem wraps_eq_zero {x : Int} (h : InRange x) : wraps x = 0 := by
  have hself := wrap_eq_self_iff.mpr h
  have heq := wrap_eq x
  omega

theorem wraps_nonneg {x : Int} (h : -(2 ^ 63) ≤ x) : 0 ≤ wraps x := by
  have heq := wrap_eq x
  have hhigh := (wrap_inRange x).2
  omega

/-- **Comparing what is left of two results.** -/
theorem le_iff_wraps_le {x y : Int} (h : wrap x ≤ wrap y) : x ≤ y ↔ wraps x ≤ wraps y := by
  have hx := wrap_eq x
  have hy := wrap_eq y
  have hlow := (wrap_inRange x).1
  have hhigh := (wrap_inRange y).2
  constructor
  · intro hle
    omega
  · intro hle
    omega

end Wrapping
