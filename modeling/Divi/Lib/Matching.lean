/-
Injective assignments into a list.

A checker that looks for each of the elements it `need`s on its own only learns that
they occur in `l`.  What one usually wants is that they occur at different places.
The two agree exactly when the needed elements are pairwise different.
-/
import Mathlib.Data.List.Dedup
import Mathlib.Algebra.Order.BigOperators.Group.List
import Mathlib.Algebra.Order.Ring.Int

namespace Matching

open List

variable {α : Type*}

/-- The elements of `need` can be assigned to different places of `l` that hold them. -/
def Assigned (need l : List α) : Prop :=
  ∃ f : Fin need.length → Fin l.length,
    Function.Injective f ∧ ∀ i, l.get (f i) = need.get i

theorem Assigned.mem {need l : List α} (h : Assigned need l) {x : α} (hx : x ∈ need) : x ∈ l := by
  obtain ⟨f, -, hf⟩ := h
  obtain ⟨i, hi⟩ := mem_iff_get.mp hx
  rw [← hi, ← hf i]
  exact get_mem l (f i)

/-- Different places of a list without repetitions hold different elements. -/
theorem Assigned.nodup {need l : List α} (h : Assigned need l) (hl : l.Nodup) : need.Nodup := by
  obtain ⟨f, hinj, hf⟩ := h
  rw [nodup_iff_injective_get] at hl ⊢
  intro i j hij
  rw [← hf i, ← hf j] at hij
  exact hinj (hl hij)

theorem assigned_of_nodup {need l : List α} (hneed : need.Nodup) (hmem : ∀ x ∈ need, x ∈ l) :
    Assigned need l := by
  have hp : ∀ i : Fin need.length, ∃ j : Fin l.length, l.get j = need.get i := fun i =>
    mem_iff_get.mp (hmem _ (get_mem need i))
  choose f hf using hp
  refine ⟨f, ?_, hf⟩
  intro i j hij
  have heq : need.get i = need.get j := by
    rw [← hf i, ← hf j, hij]
  exact nodup_iff_injective_get.mp hneed heq

/--
**What a search element by element guarantees.**  If all that is known of `l` is that
it holds every element of `checked`, the needed elements are always assigned exactly
when they are pairwise different and all of them are among the checked ones.
-/
theorem forall_assigned_iff [DecidableEq α] (need checked : List α) :
    (∀ l : List α, (∀ x ∈ checked, x ∈ l) → Assigned need l) ↔
      need.Nodup ∧ ∀ x ∈ need, x ∈ checked := by
  constructor
  · intro h
    -- The shortest list that passes has every checked element once.
    have hd : Assigned need checked.dedup := h _ fun x hx => mem_dedup.mpr hx
    exact ⟨hd.nodup (nodup_dedup checked), fun x hx => mem_dedup.mp (hd.mem hx)⟩
  · intro ⟨hneed, hsub⟩ l hl
    exact assigned_of_nodup hneed fun x hx => hl x (hsub x hx)

/-! ### Sums over different elements -/

/-- Different elements of a list weigh at most as much as the whole list. -/
theorem sum_le_of_nodup_subset {f : α → Int} {part l : List α} (hpart : part.Nodup)
    (hsub : ∀ x ∈ part, x ∈ l) (hnn : ∀ x ∈ l, 0 ≤ f x) :
    (part.map f).sum ≤ (l.map f).sum := by
  obtain ⟨l', hperm, hs⟩ := subperm_of_subset hpart hsub
  rw [← (hperm.map f).sum_eq]
  refine (hs.map f).sum_le_sum ?_
  intro y hy
  obtain ⟨x, hx, rfl⟩ := mem_map.mp hy
  exact hnn x hx

theorem sum_erase [DecidableEq α] {f : α → Int} {l : List α} {x : α} (hx : x ∈ l) :
    ((l.erase x).map f).sum + f x = (l.map f).sum := by
  rw [((perm_cons_erase hx).map f).sum_eq, map_cons, sum_cons]
  omega

end Matching
