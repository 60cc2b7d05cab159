/-
Sums of functions that are constant on the periods of a fixed length.

A stretch that ends in period `q` and starts no earlier than the period before it is made
of at most two pieces, so two values and the two lengths determine the sum.  The lengths
may be taken as signed: where the stretch starts in period `q` as well, the two values
agree and only the total length counts.
-/
import Mathlib.Algebra.BigOperators.Intervals
import Mathlib.Algebra.BigOperators.Ring.Finset
import Mathlib.Data.Int.ConditionallyCompleteOrder
import Mathlib.Data.Int.Interval
import Mathlib.Tactic.Ring

namespace Piecewise

variable {period first last : Int} {f : Int → Int}

theorem sum_Ico_const {a b c : Int} (hab : a ≤ b) (h : ∀ x, a ≤ x → x < b → f x = c) :
    ∑ x ∈ Finset.Ico a b, f x = c * (b - a) := by
  have hc : ∑ x ∈ Finset.Ico a b, f x = ∑ _x ∈ Finset.Ico a b, c := by
    refine Finset.sum_congr rfl fun x hx => ?_
    obtain ⟨hax, hxb⟩ := Finset.mem_Ico.mp hx
    exact h x hax hxb
  rw [hc, Finset.sum_const, nsmul_eq_mul, Int.card_Ico_of_le a b hab, Int.mul_comm]

theorem sum_Ico_split {a b c : Int} (hab : a ≤ b) (hbc : b ≤ c) :
    ∑ x ∈ Finset.Ico a c, f x = ∑ x ∈ Finset.Ico a b, f x + ∑ x ∈ Finset.Ico b c, f x := by
  rw [← Finset.sum_union (Finset.Ico_disjoint_Ico_consecutive a b c),
    Finset.Ico_union_Ico_eq_Ico hab hbc]

/-- The signed weights of the two periods give the sum. -/
theorem sum_Ico_eq_weights (hper : 0 < period) (hle : first ≤ last)
    (hp : (last / period - 1) * period ≤ first)
    (hf : ∀ x, first ≤ x → x ≤ last → ∀ y, first ≤ y → y ≤ last →
      x / period = y / period → f x = f y) :
    ∑ x ∈ Finset.Ico first last, f x
      = f first * (last / period * period - first) + f last * (last - last / period * period) := by
  have hlow : last / period * period ≤ last := Int.ediv_mul_le last (by omega)
  have hhigh : last < (last / period + 1) * period := Int.lt_ediv_add_one_mul_self last hper
  have hs : ∀ x q, q * period ≤ x → x < (q + 1) * period → x / period = q := by
    intro x q hqx hxq
    have hge : q ≤ x / period := (Int.le_ediv_iff_mul_le hper).mpr hqx
    have hlt : x / period < q + 1 := (Int.ediv_lt_iff_lt_mul hper).mpr hxq
    omega
  by_cases hb : last / period * period ≤ first
  · -- one period throughout: the weights add up to the length
    have hc : ∀ x, first ≤ x → x < last → f x = f last := by
      intro x hx hxl
      refine hf x hx (by omega) last hle (le_refl last) ?_
      exact hs x (last / period) (by omega) (by omega)
    have hends : f first = f last := by
      refine hf first (le_refl first) hle last hle (le_refl last) ?_
      exact hs first (last / period) hb (by omega)
    rw [sum_Ico_const hle hc, hends]
    ring
  · have hbe : ∀ x, first ≤ x → x < last / period * period → f x = f first := by
      intro x hx hxq
      have hq : (last / period - 1 + 1) * period = last / period * period := by
        rw [Int.sub_add_cancel]
      have hfst : first / period = last / period - 1 := hs first _ hp (by omega)
      have hx' : x / period = last / period - 1 := hs x _ (by omega) (by omega)
      exact hf x hx (by omega) first (le_refl first) hle (by omega)
    have ha : ∀ x, last / period * period ≤ x → x < last → f x = f last := by
      intro x hxq hxl
      exact hf x (by omega) (by omega) last hle (le_refl last) (hs x _ hxq (by omega))
    rw [sum_Ico_split (by omega : first ≤ last / period * period) hlow,
      sum_Ico_const (by omega) hbe, sum_Ico_const hlow ha]

end Piecewise
