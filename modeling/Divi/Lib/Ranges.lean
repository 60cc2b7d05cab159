/-
Loops over an initial part of the numbers.

A loop that does nothing from some number on can stop there: `flatMap_range_of_le` for what it
gives and `countP_range_of_le` for what it counts.  `lastUsed` is the loop that finds this number.
-/
import Mathlib.Data.List.Basic

namespace Ranges

open List

theorem flatMap_range_of_le {α : Type*} {f : Nat → List α} {k n : Nat} (hle : k ≤ n)
    (h : ∀ i, k ≤ i → i < n → f i = []) : (List.range n).flatMap f = (List.range k).flatMap f := by
  obtain ⟨m, rfl⟩ := Nat.exists_eq_add_of_le hle
  rw [range_add, flatMap_append, flatMap_map]
  have hn : ((List.range m).flatMap fun i => f (k + i)) = [] := by
    refine flatMap_eq_nil_iff.mpr fun i hi => ?_
    exact h (k + i) (by omega) (by have := mem_range.mp hi; omega)
  rw [hn, append_nil]

theorem countP_range_of_le {p : Nat → Bool} {k n : Nat} (hle : k ≤ n)
    (h : ∀ i, k ≤ i → i < n → p i = false) : (List.range n).countP p = (List.range k).countP p := by
  obtain ⟨m, rfl⟩ := Nat.exists_eq_add_of_le hle
  rw [range_add, countP_append, countP_map]
  have hn : (List.range m).countP (p ∘ fun i => k + i) = 0 := by
    refine countP_eq_zero.mpr fun i hi => ?_
    have hlt := mem_range.mp hi
    simp [h (k + i) (by omega) (by omega)]
  rw [hn, Nat.add_zero]

theorem flatMap_filter_eq {α β : Type*} (p : α → Bool) (f : α → List β) (l : List α) :
    (l.filter p).flatMap f = l.flatMap fun x => if p x then f x else [] := by
  induction l with
  | nil => rfl
  | cons x l ih =>
    rw [filter_cons, flatMap_cons, ← ih]
    split
    · exact flatMap_cons
    · exact (nil_append _).symm

/-- Numbers from `start` on, in blocks of the same size. -/
theorem map_range_blocks {α : Type*} (f : Nat → α) (start width size : Nat) :
    (List.range start).map f ++
        (List.range size).flatMap
          (fun b => (List.range width).map fun i => f (start + b * width + i)) =
      (List.range (start + width * size)).map f := by
  induction size with
  | zero => simp
  | succ size ih =>
    rw [@List.range_succ size, flatMap_append, ← append_assoc, ih, Nat.mul_succ, ← Nat.add_assoc,
      @List.range_add (start + width * size) width, map_append, map_map, flatMap_singleton]
    congr 1
    refine map_congr_left fun i _ => ?_
    rw [Function.comp_apply, Nat.mul_comm size width]

/-! ### The last number in use -/

section

variable (zero : Nat → Bool)

/-- One more than the last number that is in use, and how many are in use. -/
def lastUsed (n : Nat) : Nat × Nat :=
  (List.range n).foldl (fun sizes b => if zero b then sizes else (b + 1, sizes.2 + 1)) (0, 0)

theorem lastUsed_succ (n : Nat) :
    lastUsed zero (n + 1) =
      if zero n then lastUsed zero n else (n + 1, (lastUsed zero n).2 + 1) := by
  simp [lastUsed, range_succ]

/-- The last one is in use, and nothing after it is. -/
theorem lastUsed_spec (n : Nat) :
    (lastUsed zero n).1 ≤ n ∧ (∀ b, (lastUsed zero n).1 ≤ b → b < n → zero b = true) ∧
      ∀ b, (lastUsed zero n).1 = b + 1 → zero b = false := by
  induction n with
  | zero => simp [lastUsed]
  | succ n ih =>
    obtain ⟨hle, hzero, hl⟩ := ih
    rw [lastUsed_succ]
    cases hn : zero n with
    | true =>
      simp only [if_true]
      refine ⟨by omega, ?_, hl⟩
      intro b hb hlt
      rcases Nat.lt_succ_iff_lt_or_eq.mp hlt with hlt | rfl
      · exact hzero b hb hlt
      · exact hn
    | false =>
      simp only [Bool.false_eq_true, if_false]
      refine ⟨Nat.le_refl _, by omega, ?_⟩
      intro b hb
      obtain rfl : n = b := by omega
      exact hn

/-- All that are in use come before the last one. -/
theorem lastUsed_count (n : Nat) :
    (lastUsed zero n).2 = (List.range (lastUsed zero n).1).countP fun b => !zero b := by
  have hall : (lastUsed zero n).2 = (List.range n).countP fun b => !zero b := by
    induction n with
    | zero => rfl
    | succ n ih =>
      rw [lastUsed_succ, range_succ, countP_append, countP_singleton, ← ih]
      cases zero n with
      | true => simp
      | false => simp
  obtain ⟨hle, hzero, -⟩ := lastUsed_spec zero n
  rw [hall]
  refine countP_range_of_le hle fun b hb hlt => ?_
  rw [hzero b hb hlt]
  rfl

end

end Ranges
