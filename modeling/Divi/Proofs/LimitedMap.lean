/-
What a `limitedmap` keeps.

The new entry is in the map when its size is compared with the limit, so the map never has as many
entries as the limit says: it keeps all of fewer entries and loses one of as many.
-/
import Divi.LimitedMap
import Divi.Lib.Runs

namespace Divi

open List

namespace limitedmap

variable {K V : Type} [DecidableEq K] [LinearOrder V] {m m' : limitedmap K V} {x : K × V}
  {n : Nat} {l : List (K × V)}

/-- `rmap` has the entries of `map`, and they are fewer than the limit says. -/
structure Bounded (n : Nat) (m : limitedmap K V) : Prop where
  nMaxSize : m.nMaxSize = n
  entries : m.rmap.Perm m.map
  length_lt : m.map.length < n

theorem Bounded.insert (h : m.Bounded n) (hi : m.insert x = some m') : m'.Bounded n := by
  obtain ⟨hmax, hes, hlt⟩ := h
  revert hi
  fun_cases limitedmap.insert m x with
  | case1 hold => exact fun hi => Option.some.inj hi ▸ ⟨hmax, hes, hlt⟩
  | case2 => nofun
  | case3 rmapInsert hnew hfull first rest hrmap =>
    rintro ⟨⟩
    rw [hrmap] at hes
    have hne : x ≠ first := by
      rintro rfl
      exact hnew (mem_map_of_mem (hes.subset mem_cons_self))
    have hkept : ((x :: m.map).erase first).Perm (x :: rest) := by
      have hr := (hes.erase first).symm
      rw [erase_cons_head] at hr
      rw [erase_cons_tail (by simpa using hne)]
      exact hr.cons x
    refine ⟨hmax, (perm_orderedInsert _ _ _).trans hkept.symm, ?_⟩
    rw [hkept.length_eq, length_cons, ← length_cons, hes.length_eq]
    exact hlt
  | case4 rmapInsert hnew hroom =>
    rintro ⟨⟩
    refine ⟨hmax, (perm_orderedInsert _ _ _).trans (hes.cons x), ?_⟩
    rw [length_cons]
    omega

/-- As long as there are fewer entries than the limit says, all are kept. -/
theorem run_of_length_lt (hkeys : (l.map Prod.fst).Nodup) (hlt : l.length < n) :
    ∃ m : limitedmap K V, runFrom insert { nMaxSize := n } l = some m ∧ m.map = l.reverse ∧
      m.nMaxSize = n := by
  induction l using reverseRecOn with
  | nil => exact ⟨_, rfl, rfl, rfl⟩
  | append_singleton l x ih =>
    rw [map_append, nodup_append] at hkeys
    rw [length_append, length_singleton] at hlt
    obtain ⟨m, hrun, hmap, hmax⟩ := ih hkeys.1 (by omega)
    have hnew : x.1 ∉ m.map.map Prod.fst := by
      rw [hmap, map_reverse, mem_reverse]
      exact fun hmem => hkeys.2.2 _ hmem _ mem_cons_self rfl
    have hroom : ¬ (m.nMaxSize ≠ 0 ∧ m.map.length + 1 = m.nMaxSize) := by
      rw [hmap, length_reverse]
      omega
    refine ⟨_, runFrom_concat_eq_some.mpr ⟨m, hrun, (if_neg hnew).trans (if_neg hroom)⟩, ?_, hmax⟩
    rw [reverse_append, ← hmap]
    rfl

/-- The entries are the `n` among those inserted with the highest values. -/
structure Highest (n : Nat) (l entries : List (K × V)) : Prop where
  length_eq : entries.length = n
  nodup : entries.Nodup
  subset : entries ⊆ l
  highest : ∀ entry ∈ entries, ∀ other ∈ l, other ∉ entries → other.2 < entry.2

/-- **When the highest entries are kept.**  Exactly if fewer are inserted than the limit says. -/
theorem keeps_highest_iff (hn : 0 < n) (hkeys : (l.map Prod.fst).Nodup) :
    (∃ m : limitedmap K V, runFrom insert { nMaxSize := n } l = some m ∧
      Highest (min n l.length) l m.map) ↔ l.length < n := by
  constructor
  · rintro ⟨m, hrun, hh⟩
    have he : Bounded n ({ nMaxSize := n } : limitedmap K V) := ⟨rfl, .refl _, hn⟩
    have hlt := (runFrom_invariant_of_mem (fun _ _ _ _ h => h.insert) he hrun).length_lt
    rw [hh.length_eq] at hlt
    omega
  · intro hlt
    obtain ⟨m, hrun, hmap, -⟩ := run_of_length_lt hkeys hlt
    refine ⟨m, hrun, ?_⟩
    rw [hmap, min_eq_right hlt.le]
    exact ⟨length_reverse, nodup_reverse.mpr hkeys.of_map, reverse_subset.mpr (Subset.refl l),
      fun _ _ other ho hnot => absurd (mem_reverse.mpr ho) hnot⟩

theorem keeps_highest_of_two :
    ∃ m : limitedmap Nat Nat, runFrom insert { nMaxSize := 3 } [(1, 10), (2, 20)] = some m ∧
      Highest 2 [(1, 10), (2, 20)] m.map :=
  (keeps_highest_iff (by decide) (by decide)).mpr (by decide)

/-- The second of two entries replaces the first one. -/
theorem not_keeps_two :
    ¬ ∃ m : limitedmap Nat Nat, runFrom insert { nMaxSize := 2 } [(1, 10), (2, 20)] = some m ∧
      Highest 2 [(1, 10), (2, 20)] m.map := by
  rintro ⟨m, hrun, h⟩
  obtain rfl : ⟨[(2, 20)], [(2, 20)], 2⟩ = m := Option.some.inj (hrun.symm.trans (by decide)).symm
  exact absurd h.length_eq (by decide)

end limitedmap

end Divi
