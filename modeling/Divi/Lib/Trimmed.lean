/-
Lists in which a blank entry stands for a missing one.

Such a list is read with a default beyond its end, and kept without blanks at its end.
Then it is determined by what is read at each position: `Trimmed.ext`.
-/
import Mathlib.Data.List.DropRight
import Mathlib.Data.List.GetD
import Mathlib.Algebra.BigOperators.Group.List.Basic
import Mathlib.Tactic.Ring

namespace Trimmed

open List

variable {α : Type*} {blank : α → Bool} {d : α}

/-- Entries that are the default do not change what is read. -/
theorem getD_append_default (l : List α) {rest : List α} (h : ∀ x ∈ rest, x = d) (i : Nat) :
    (l ++ rest).getD i d = l.getD i d := by
  by_cases hi : i < l.length
  · exact getD_append l rest d i hi
  · rw [getD_append_right l rest d i (by omega), getD_eq_default l d (by omega)]
    by_cases hr : i - l.length < rest.length
    · rw [getD_eq_getElem rest d hr]
      exact h _ (getElem_mem hr)
    · exact getD_eq_default rest d (by omega)

/-- Dropping blanks at the end does not change what is read, if blanks read as the default. -/
theorem getD_rdropWhile {l : List α} (hb : ∀ x ∈ l, blank x = true → x = d) (i : Nat) :
    (l.rdropWhile blank).getD i d = l.getD i d := by
  have hd : ∀ x ∈ l.rtakeWhile blank, x = d := fun x hx =>
    hb x ((rtakeWhile_suffix blank l).subset hx) (mem_rtakeWhile_imp hx)
  have hr := getD_append_default (l.rdropWhile blank) hd i
  rw [rdropWhile_append_rtakeWhile] at hr
  exact hr.symm

theorem getD_last {l : List α} (h : l.rdropWhile blank = l) (hne : l ≠ []) :
    blank (l.getD (l.length - 1) d) = false := by
  have hl := rdropWhile_eq_self_iff.mp h hne
  have hpos := length_pos_iff.mpr hne
  rw [getLast_eq_getElem] at hl
  rw [getD_eq_getElem _ _ (by omega)]
  simpa using hl

private theorem length_le {a b : List α} (hd : blank d = true) (hb : b.rdropWhile blank = b)
    (h : ∀ i, a.getD i d = b.getD i d) : b.length ≤ a.length := by
  by_contra hlt
  have hne : b ≠ [] := by
    intro hnil
    rw [hnil] at hlt
    exact hlt (Nat.zero_le _)
  have hl := getD_last (d := d) hb hne
  rw [← h, getD_eq_default _ _ (by omega), hd] at hl
  cases hl

theorem ext {a b : List α} (hd : blank d = true) (ha : a.rdropWhile blank = a)
    (hb : b.rdropWhile blank = b) (h : ∀ i, a.getD i d = b.getD i d) : a = b := by
  have hle := length_le hd ha fun i => (h i).symm
  have hge := length_le hd hb h
  refine ext_getElem (by omega) ?_
  intro i hi hi'
  have hget := h i
  rwa [getD_eq_getElem _ _ hi, getD_eq_getElem _ _ hi'] at hget

/-- Nothing is left of a list exactly when every position reads as the default. -/
theorem rdropWhile_eq_nil_iff {l : List α} (hd : blank d = true)
    (hb : ∀ x ∈ l, blank x = true → x = d) :
    l.rdropWhile blank = [] ↔ ∀ i, l.getD i d = d := by
  constructor
  · intro h i
    rw [← getD_rdropWhile hb i, h]
    rfl
  · intro h
    refine ext hd (rdropWhile_idempotent blank l) rfl ?_
    intro i
    rw [getD_rdropWhile hb i, h i]
    rfl

theorem getD_set (l : List α) (n : Nat) (x : α) (i : Nat) :
    (l.set n x).getD i d = if i = n ∧ n < l.length then x else l.getD i d := by
  by_cases heq : n = i
  · by_cases hlt : n < l.length
    · simp [heq ▸ hlt, heq]
    · simp [heq ▸ hlt, heq]
  · simp [heq, Ne.symm heq]

theorem getD_append_replicate (l : List α) (k i : Nat) :
    (l ++ List.replicate k d).getD i d = l.getD i d :=
  getD_append_default l (fun _ hx => eq_of_mem_replicate hx) i

/-! ### Weights -/

section

variable {weight : α → Int}

theorem sum_eq_zero_of_blank (hb : ∀ x, blank x = true → weight x = 0) {l : List α}
    (h : l.all blank = true) : (l.map weight).sum = 0 := by
  refine sum_eq_zero ?_
  intro w hw
  obtain ⟨x, hx, rfl⟩ := mem_map.mp hw
  exact hb x (all_eq_true.mp h x hx)

theorem sum_rdropWhile (hb : ∀ x, blank x = true → weight x = 0) (l : List α) :
    ((l.rdropWhile blank).map weight).sum = (l.map weight).sum := by
  have hd : (l.rtakeWhile blank).all blank = true :=
    all_eq_true.mpr fun _ hx => mem_rtakeWhile_imp hx
  have hs : l.rdropWhile blank ++ l.rtakeWhile blank = l := rdropWhile_append_rtakeWhile
  conv_rhs => rw [← hs, map_append, sum_append]
  rw [sum_eq_zero_of_blank hb hd, Int.add_zero]

theorem sum_set (weight : α → Int) {l : List α} {n : Nat} {x : α} (h : l[n]? = some x) (y : α) :
    ((l.set n y).map weight).sum + weight x = (l.map weight).sum + weight y := by
  induction l generalizing n with
  | nil => cases h
  | cons z rest ih =>
    cases n with
    | zero =>
      rw [List.getElem?_cons_zero, Option.some.injEq] at h
      simp only [set_cons_zero, map_cons, sum_cons, h]
      ring
    | succ n =>
      have hr := ih h
      simp only [set_cons_succ, map_cons, sum_cons]
      omega

end

end Trimmed
