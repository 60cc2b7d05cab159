/-
Consecutive members of a set of integers.

A schedule is a predicate on heights, and its gaps are read off pairs of members
with nothing in between.  What such a pair looks like is settled by exhibiting the
next member: if `a + d` is in the set and nothing strictly between is, then every
pair that starts at `a` ends at `a + d`.
-/
import Mathlib.Tactic.Ring
import Mathlib.Data.Int.GCD

namespace Consecutive

/-- `a` and `b` are members of `p` with no member strictly between them. -/
structure Pair (p : Int → Prop) (a b : Int) : Prop where
  left : p a
  right : p b
  lt : a < b
  none : ∀ x, a < x → x < b → ¬ p x

/-- A later member bounds the gap from above. -/
theorem Pair.le_of_mem {p : Int → Prop} {a b x : Int} (h : Pair p a b)
    (hx : p x) (hax : a < x) : b ≤ x := by
  by_contra hc
  exact h.none x hax (by omega) hx

theorem add_le_of_dvd {c a b : Int} (ha : c ∣ a) (hb : c ∣ b) (hlt : a < b) : a + c ≤ b := by
  have hdvd : c ∣ b - a := Int.dvd_sub hb ha
  have hle : c ≤ b - a := Int.le_of_dvd (by omega) hdvd
  omega

/--
Two consecutive members that are both multiples of `c` are exactly `c` apart, as
soon as the multiple after the first is a member whenever it comes early enough.
-/
theorem Pair.eq_add_of_dvd {p : Int → Prop} {c a b : Int} (h : Pair p a b) (hc : 0 < c)
    (ha : c ∣ a) (hb : c ∣ b) (hnext : a + c ≤ b → p (a + c)) : b = a + c := by
  have hle : a + c ≤ b := add_le_of_dvd ha hb h.lt
  have hge : b ≤ a + c := h.le_of_mem (hnext hle) (by omega)
  omega

end Consecutive
