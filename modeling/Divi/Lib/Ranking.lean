/-
Lists ranked by a score, best first.

`place` puts a new element behind everything that scores at least as well, which is what a
stable sort does with an element added at the end of a ranked list.  Elements that have
dropped out of the best `k` never come back, so a list that is cut off after every
addition holds the best `k` of all elements.
-/
import Mathlib.Data.List.Sort

namespace Ranking

open List

variable {α β κ : Type*} [LinearOrder κ] {score : α → κ} {x : α} {l : List α}

/-- The best score comes first. -/
def Descending (score : α → κ) (l : List α) : Prop :=
  l.Pairwise fun a b => score b ≤ score a

/-- A new element, behind everything that scores at least as well. -/
def place (score : α → κ) (x : α) (l : List α) : List α :=
  l.orderedInsert (fun a b => score b < score a) x

theorem place_cons_of_lt {y : α} (h : score y < score x) : place score x (y :: l) = x :: y :: l :=
  orderedInsert_cons_of_le _ l h

theorem place_cons_of_le {y : α} (h : score x ≤ score y) :
    place score x (y :: l) = y :: place score x l :=
  orderedInsert_of_not_le _ l (not_lt.mpr h)

theorem place_perm (score : α → κ) (x : α) (l : List α) : (place score x l).Perm (x :: l) :=
  perm_orderedInsert _ x l

theorem mem_place {y : α} : y ∈ place score x l ↔ y = x ∨ y ∈ l := by
  rw [(place_perm score x l).mem_iff, mem_cons]

theorem length_place (score : α → κ) (x : α) (l : List α) :
    (place score x l).length = l.length + 1 :=
  (place_perm score x l).length_eq

theorem place_split (hl : Descending score l) (x : α) :
    ∃ before after, l = before ++ after ∧ place score x l = before ++ x :: after ∧
      (∀ y ∈ before, score x ≤ score y) ∧ ∀ y ∈ after, score y < score x := by
  induction l with
  | nil => exact ⟨[], [], rfl, rfl, nofun, nofun⟩
  | cons y l ih =>
    obtain ⟨hy, hl⟩ := pairwise_cons.mp hl
    by_cases hlt : score y < score x
    · refine ⟨[], y :: l, rfl, place_cons_of_lt hlt, nofun, forall_mem_cons.mpr ⟨hlt, ?_⟩⟩
      exact fun z hz => (hy z hz).trans_lt hlt
    · have hle : score x ≤ score y := not_lt.mp hlt
      obtain ⟨before, after, rfl, hp, hpre, ha⟩ := ih hl
      refine ⟨y :: before, after, rfl, ?_, forall_mem_cons.mpr ⟨hle, hpre⟩, ha⟩
      rw [place_cons_of_le hle, hp, cons_append]

/-- Any relation that respects the scores survives. -/
theorem place_pairwise {R : α → α → Prop} (hl : Descending score l) (hR : l.Pairwise R)
    (hpre : ∀ y ∈ l, score x ≤ score y → R y x)
    (ha : ∀ y ∈ l, score y < score x → R x y) : (place score x l).Pairwise R := by
  obtain ⟨before, after, rfl, hp, hle, hlt⟩ := place_split hl x
  grind [pairwise_cons]

theorem place_descending (hl : Descending score l) : Descending score (place score x l) := by
  refine place_pairwise hl hl ?_ ?_
  · intro y _ hle
    exact hle
  · intro y _ hlt
    exact le_of_lt hlt

theorem place_eq_cons (h : ∀ y ∈ l, score y < score x) : place score x l = x :: l := by
  cases l with
  | nil => rfl
  | cons y l => exact place_cons_of_lt (h y mem_cons_self)

/-- An element that comes last is behind the list as it was. -/
theorem place_eq_append (hx : x ∉ l) (hl : (place score x l).getLast? = some x) :
    place score x l = l ++ [x] := by
  have hs := l.takeWhile_append_dropWhile (p := fun y => ¬ score y < score x)
  rw [place, orderedInsert_eq_take_drop] at hl ⊢
  cases ha : l.dropWhile (fun y => ¬ score y < score x) with
  | nil =>
    rw [ha, append_nil] at hs
    rw [hs]
  | cons y after =>
    rw [ha] at hs hl
    have hmem : x ∈ y :: after := mem_of_getLast? (by simpa using hl)
    exact absurd (hs ▸ mem_append_right _ hmem) hx

/-- A stable sort places an element that is added at the end. -/
theorem insertionSort_append_singleton (hl : Descending score l) :
    (l ++ [x]).insertionSort (fun a b => score b ≤ score a) = place score x l := by
  have hfst (y : α) (l : List α) (h : ∀ z ∈ l, score z ≤ score y) :
      l.orderedInsert (fun a b => score b ≤ score a) y = y :: l := by
    cases l with
    | nil => rfl
    | cons z l => exact orderedInsert_cons_of_le _ l (h z mem_cons_self)
  induction l with
  | nil => rfl
  | cons y l ih =>
    obtain ⟨hy, hl'⟩ := pairwise_cons.mp hl
    rw [cons_append, insertionSort_cons, ih hl']
    by_cases hlt : score y < score x
    · have hnew : place score x l = x :: l :=
        place_eq_cons fun z hz => lt_of_le_of_lt (hy z hz) hlt
      have hb : ¬ score x ≤ score y := not_le.mpr hlt
      rw [hnew, place_cons_of_lt hlt, orderedInsert_of_not_le _ l hb, hfst y l hy]
    · have hle : score x ≤ score y := not_lt.mp hlt
      rw [place_cons_of_le hle, hfst]
      intro z hz
      rcases mem_place.mp hz with rfl | hz
      · exact hle
      · exact hy z hz

/-- What is cut off does not matter to the best `k` after an addition. -/
theorem take_place (score : α → κ) (x : α) (k : Nat) (l : List α) :
    (place score x (l.take k)).take k = (place score x l).take k := by
  induction l generalizing k with
  | nil => rw [take_nil]
  | cons y l ih =>
    cases k with
    | zero => rfl
    | succ k =>
      rw [take_succ_cons]
      by_cases hlt : score y < score x
      · rw [place_cons_of_lt hlt, place_cons_of_lt hlt]
        cases k with
        | zero => rfl
        | succ k =>
          simp only [take_succ_cons, take_take]
          rw [Nat.min_eq_left (Nat.le_succ k)]
      · have hle : score x ≤ score y := not_lt.mp hlt
        rw [place_cons_of_le hle, place_cons_of_le hle, take_succ_cons, take_succ_cons, ih]

/-- Placing commutes with forgetting what the score does not read. -/
theorem map_place (f : α → β) (score : β → κ) (x : α) (l : List α) :
    (place (fun a => score (f a)) x l).map f = place score (f x) (l.map f) :=
  map_orderedInsert _ _ f l x (fun _ _ => Iff.rfl) fun _ _ => Iff.rfl

end Ranking
