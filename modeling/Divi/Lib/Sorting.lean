/-
Sorting by an integer key, where the order of elements with equal keys is left open.
-/
import Mathlib.Data.List.Sort

/-- A sorting procedure: it returns the elements it was given, in the order of their keys. -/
structure SortBy {α : Type*} (key : α → Int) where
  sort : List α → List α
  perm : ∀ l, (sort l).Perm l
  sorted : ∀ l, (sort l).Pairwise fun a b => key a ≤ key b

namespace SortBy

variable {α : Type*} {key : α → Int}

theorem mem_sort (s : SortBy key) {l : List α} {a : α} : a ∈ s.sort l ↔ a ∈ l := (s.perm l).mem_iff

/-- The stable one. -/
def insertion (key : α → Int) : SortBy key where
  sort := List.insertionSort fun a b => key a ≤ key b
  perm := List.perm_insertionSort _
  sorted := by
    have htot : Std.Total fun a b : α => key a ≤ key b := ⟨fun a b => le_total (key a) (key b)⟩
    have ht : IsTrans α fun a b => key a ≤ key b := ⟨fun _ _ _ => le_trans⟩
    exact List.pairwise_insertionSort _

end SortBy

/-! ### Cutting a sorted list -/

section

variable {α κ : Type*} [LinearOrder κ] {key : α → κ} {l : List α}
  (hsort : l.Pairwise fun a b => key a ≤ key b)

include hsort

theorem takeWhile_lt_of_sorted (bound : κ) :
    l.takeWhile (fun a => key a < bound) = l.filter fun a => key a < bound := by
  induction l with
  | nil => rfl
  | cons a l ih =>
    obtain ⟨hle, hsort⟩ := List.pairwise_cons.mp hsort
    by_cases ha : key a < bound
    · simp [ha, ih hsort]
    · have hn : l.filter (fun b => key b < bound) = [] := by
        rw [List.filter_eq_nil_iff]
        intro b hb
        rw [decide_eq_true_eq]
        exact fun hlt => ha ((hle b hb).trans_lt hlt)
      simp [ha, hn]

theorem dropWhile_lt_of_sorted (bound : κ) :
    l.dropWhile (fun a => key a < bound) = l.filter fun a => bound ≤ key a := by
  induction l with
  | nil => rfl
  | cons a l ih =>
    obtain ⟨hle, hsort⟩ := List.pairwise_cons.mp hsort
    by_cases ha : key a < bound
    · simp [ha, ih hsort, not_le.mpr ha]
    · have hall : l.filter (fun b => bound ≤ key b) = l := by
        rw [List.filter_eq_self]
        intro b hb
        rw [decide_eq_true_eq]
        exact (not_lt.mp ha).trans (hle b hb)
      simp [ha, hall, not_lt.mp ha]

/-- The search for a key that is there passes the smaller ones. -/
theorem dropWhile_ne_of_sorted {bound : κ} (h : ∃ a ∈ l, key a = bound) :
    l.dropWhile (fun a => key a ≠ bound) = l.filter fun a => bound ≤ key a := by
  rw [← dropWhile_lt_of_sorted hsort]
  induction l with
  | nil => rfl
  | cons a l ih =>
    obtain ⟨hle, hsort⟩ := List.pairwise_cons.mp hsort
    obtain ⟨b, hb, hbd⟩ := h
    by_cases ha : key a = bound
    · simp [ha]
    · have hmem : b ∈ l := (List.mem_cons.mp hb).resolve_left fun heq => ha (heq ▸ hbd)
      have hlt : key a < bound := lt_of_le_of_ne (hbd ▸ hle b hmem) ha
      simp only [List.dropWhile_cons, ne_eq, ha, not_false_eq_true, decide_true, if_true, hlt]
      exact ih hsort ⟨b, hmem, hbd⟩

end

/-- The element at a position reaches a bound when no more than that many are below it. -/
theorem le_getElem_iff_countP_le {α : Type*} [LinearOrder α] {l : List α}
    (hsort : l.Pairwise (· ≤ ·)) {i : Nat} (hi : i < l.length) (bound : α) :
    bound ≤ l[i] ↔ l.countP (· < bound) ≤ i := by
  induction l generalizing i with
  | nil => cases hi
  | cons a l ih =>
    obtain ⟨hle, hsort⟩ := List.pairwise_cons.mp hsort
    rw [List.countP_cons]
    by_cases ha : a < bound
    · cases i with
      | zero => simp [ha]
      | succ i => simpa [ha] using ih hsort (Nat.lt_of_succ_lt_succ hi)
    · -- nothing is below the bound
      have hbd : ∀ b ∈ a :: l, bound ≤ b := by
        simpa [not_lt.mp ha] using fun b hb => (not_lt.mp ha).trans (hle b hb)
      have hn : l.countP (· < bound) = 0 := by
        rw [List.countP_eq_zero]
        intro b hb
        simpa using hbd b (List.mem_cons_of_mem _ hb)
      simp [ha, hn, hbd _ (List.getElem_mem hi)]
