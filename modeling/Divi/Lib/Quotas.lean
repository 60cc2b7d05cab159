/-
Taking items as long as the quota of their kind lasts.

The items are gone through in order, and each one that is taken uses up one of the quota of its
kind.  Of every kind as many are taken as there are, up to the quota: `countP_takeWithin`.
Items that are not taken do not matter for the others: `takeWithin_filter`.  An item is taken
exactly if fewer items of its kind than the quota come before it: `forall_not_taken_iff`.
-/
import Mathlib.Data.List.Basic

namespace Quotas

open List Option

variable {ι κ : Type*} {l : List ι} [DecidableEq κ] (kind : ι → κ)

/-- What is left of the quotas after an item of a kind. -/
def use (quota : κ → Nat) (k : κ) : κ → Nat :=
  Function.update quota k (quota k - 1)

/-- The elements up to the quota of their kind. -/
def takeWithin (quota : κ → Nat) : List ι → List ι
  | [] => []
  | x :: rest =>
    if 0 < quota (kind x) then x :: takeWithin (use quota (kind x)) rest
    else takeWithin quota rest

variable {kind} {quota : κ → Nat} {x : ι}

theorem takeWithin_cons_of_pos (h : 0 < quota (kind x)) (rest : List ι) :
    takeWithin kind quota (x :: rest) = x :: takeWithin kind (use quota (kind x)) rest :=
  if_pos h

theorem takeWithin_cons_of_not_pos (h : ¬ 0 < quota (kind x)) (rest : List ι) :
    takeWithin kind quota (x :: rest) = takeWithin kind quota rest :=
  if_neg h

theorem takeWithin_sublist (quota : κ → Nat) (l : List ι) :
    (takeWithin kind quota l).Sublist l := by
  induction l generalizing quota with
  | nil => exact List.Sublist.refl _
  | cons x rest ih =>
    unfold takeWithin
    split
    next => exact (ih _).cons_cons x
    next => exact (ih quota).cons x

/-- **As many of a kind as there are, up to its quota.** -/
theorem countP_takeWithin (quota : κ → Nat) (l : List ι) (k : κ) :
    (takeWithin kind quota l).countP (fun x => kind x = k) =
      min (quota k) (l.countP fun x => kind x = k) := by
  induction l generalizing quota with
  | nil => simp [takeWithin]
  | cons x rest ih =>
    unfold takeWithin
    by_cases hkind : kind x = k
    · subst hkind
      split
      next hpos =>
        rw [countP_cons_of_pos (by simp), countP_cons_of_pos (by simp), ih, use,
          Function.update_self]
        omega
      next hn =>
        rw [ih, countP_cons_of_pos (by simp)]
        omega
    · rw [countP_cons_of_neg (by simpa using hkind)]
      split
      next =>
        rw [countP_cons_of_neg (by simpa using hkind), ih, use,
          Function.update_of_ne (Ne.symm hkind)]
      next => exact ih quota

theorem takeWithin_filter {p : ι → Bool} (h : ∀ x ∈ takeWithin kind quota l, p x = true) :
    takeWithin kind quota (l.filter p) = takeWithin kind quota l := by
  induction l generalizing quota with
  | nil => rfl
  | cons x rest ih =>
    by_cases hpos : 0 < quota (kind x)
    · rw [takeWithin_cons_of_pos hpos] at h ⊢
      rw [filter_cons_of_pos (h x mem_cons_self), takeWithin_cons_of_pos hpos,
        ih fun y hy => h y (mem_cons_of_mem x hy)]
    · rw [takeWithin_cons_of_not_pos hpos] at h ⊢
      by_cases hx : p x = true
      · rw [filter_cons_of_pos hx, takeWithin_cons_of_not_pos hpos, ih h]
      · rw [filter_cons_of_neg hx, ih h]

/-! ### Which items are taken -/

/-- An item that is taken uses up as much as it counts. -/
theorem countP_lt_use_iff (y : ι) (before : List ι) :
    before.countP (fun z => kind z = kind x) < use quota (kind y) (kind x) ↔
      (y :: before).countP (fun z => kind z = kind x) < quota (kind x) := by
  unfold use
  by_cases hkind : kind y = kind x
  · rw [countP_cons_of_pos (by simpa using hkind), hkind, Function.update_self]
    omega
  · rw [countP_cons_of_neg (by simpa using hkind), Function.update_of_ne (Ne.symm hkind)]

theorem mem_takeWithin_of_countP_lt {before after : List ι}
    (h : before.countP (fun y => kind y = kind x) < quota (kind x)) :
    x ∈ takeWithin kind quota (before ++ x :: after) := by
  induction before generalizing quota with
  | nil =>
    rw [nil_append, takeWithin_cons_of_pos (Nat.zero_lt_of_lt h)]
    exact mem_cons_self
  | cons y before ih =>
    rw [cons_append]
    by_cases hpos : 0 < quota (kind y)
    · rw [takeWithin_cons_of_pos hpos]
      exact mem_cons_of_mem y (ih ((countP_lt_use_iff y before).mpr h))
    · rw [takeWithin_cons_of_not_pos hpos]
      exact ih (Nat.lt_of_le_of_lt ((sublist_cons_self y before).countP_le) h)

theorem exists_append_of_mem_takeWithin (h : x ∈ takeWithin kind quota l) :
    ∃ before after, l = before ++ x :: after ∧
      before.countP (fun y => kind y = kind x) < quota (kind x) := by
  induction l generalizing quota with
  | nil => cases h
  | cons y rest ih =>
    by_cases hpos : 0 < quota (kind y)
    · rw [takeWithin_cons_of_pos hpos] at h
      obtain rfl | hr := mem_cons.mp h
      · exact ⟨[], rest, rfl, by simpa using hpos⟩
      · obtain ⟨before, after, rfl, hcnt⟩ := ih hr
        exact ⟨y :: before, after, rfl, (countP_lt_use_iff y before).mp hcnt⟩
    · rw [takeWithin_cons_of_not_pos hpos] at h
      obtain ⟨before, after, rfl, hcnt⟩ := ih h
      refine ⟨y :: before, after, rfl, ?_⟩
      -- there is nothing left for the kind of `y`, so it is another one
      have hkind : kind y ≠ kind x := by
        intro heq
        rw [← heq] at hcnt
        omega
      rwa [countP_cons_of_neg (by simpa using hkind)]

theorem quota_pos_of_mem_takeWithin (h : x ∈ takeWithin kind quota l) : 0 < quota (kind x) := by
  obtain ⟨before, after, -, hcnt⟩ := exists_append_of_mem_takeWithin h
  exact Nat.zero_lt_of_lt hcnt

/-- **None of some items is taken** if and only if the quota of each is used up by the items of
its kind that come before all of them. -/
theorem forall_not_taken_iff {R : ι → ι → Prop} (ha : ∀ {a b}, R a b → ¬ R b a)
    (hl : l.Pairwise R) {p before : ι → Prop} [DecidablePred p] [DecidablePred before]
    (hpre : ∀ x, p x → ∀ y, before y → R y x) (hnot : ∀ x, p x → ∀ y, R y x → ¬ p y → before y) :
    (∀ x ∈ takeWithin kind quota l, ¬ p x) ↔
      ∀ x ∈ l, p x → quota (kind x) ≤ l.countP fun y => before y ∧ kind y = kind x := by
  constructor
  · intro hn x hx hp
    by_contra hlt
    -- the first of the items that has the kind of `x` is taken
    obtain ⟨y, hy⟩ : ∃ y, l.find? (fun y => p y ∧ kind y = kind x) = some y :=
      isSome_iff_exists.mp (List.find?_isSome.mpr ⟨x, hx, by simp [hp]⟩)
    obtain ⟨hpy, early, late, rfl, he⟩ := List.find?_eq_some_iff_append.mp hy
    obtain ⟨hpy, hkind⟩ := of_decide_eq_true hpy
    refine hn y (mem_takeWithin_of_countP_lt ?_) hpy
    have hle : early.countP (fun z => kind z = kind x) ≤
        early.countP fun z => before z ∧ kind z = kind x := by
      refine countP_mono_left fun z hz hk => ?_
      have hnotp : ¬ p z := fun hpz => by
        simpa [hpz, of_decide_eq_true hk] using he z hz
      have hR : R z y := (pairwise_append.mp hl).2.2 z hz y mem_cons_self
      exact decide_eq_true ⟨hnot y hpy z hR hnotp, of_decide_eq_true hk⟩
    rw [hkind]
    refine Nat.lt_of_le_of_lt hle (Nat.lt_of_le_of_lt ?_ (Nat.lt_of_not_le hlt))
    exact (sublist_append_left early (y :: late)).countP_le
  · intro hused x hx hp
    obtain ⟨early, late, rfl, hcnt⟩ := exists_append_of_mem_takeWithin hx
    have hle := hused x (by simp) hp
    obtain ⟨-, hlate, -⟩ := pairwise_append.mp hl
    have hn : (x :: late).countP (fun y => before y ∧ kind y = kind x) = 0 := by
      refine countP_eq_zero.mpr fun y hy hbad => ?_
      have hR := hpre x hp y (of_decide_eq_true hbad).1
      obtain rfl | hy := mem_cons.mp hy
      · exact ha hR hR
      · exact ha hR ((pairwise_cons.mp hlate).1 y hy)
    rw [countP_append, hn, Nat.add_zero] at hle
    have hmono : early.countP (fun y => before y ∧ kind y = kind x) ≤
        early.countP fun y => kind y = kind x :=
      countP_mono_left fun y _ hy => decide_eq_true (of_decide_eq_true hy).2
    omega

end Quotas
