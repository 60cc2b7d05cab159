/-
Histories of timed messages.

`recordAll` keeps every message once, sorted by time; a message counts as known if one with
the same identity is there.  `keepNewest` keeps a single message and replaces it by a
strictly newer one.  What either ends up with depends on the messages alone, and not on the
order they came in, as far as messages of equal time agree.  A stable sort shows that this
is all: the message that came last among those of its time stays last among them.
-/
import Divi.Lib.Ranking
import Divi.Lib.Sorting
import Mathlib.Data.List.Induction
import Mathlib.Data.List.Perm.Basic

namespace Histories

open List Option

variable {α β γ : Type*} {time : α → Int}

/-! ### The newest message -/

section

variable (time)

/-- Replaces the message by a strictly newer one. -/
def keepNewest (current : List α) (x : α) : List α :=
  match current.getLast? with
  | none => [x]
  | some last => if time last < time x then [x] else current

/-- What is left of some messages is one of the newest. -/
theorem foldl_keepNewest_spec {l : List α} (hl : l ≠ []) :
    ∃ newest ∈ l, l.foldl (keepNewest time) [] = [newest] ∧ ∀ x ∈ l, time x ≤ time newest := by
  induction l using List.reverseRecOn with
  | nil => exact absurd rfl hl
  | append_singleton l x ih =>
    rw [foldl_append, foldl_cons, foldl_nil]
    by_cases he : l = []
    · subst he
      exact ⟨x, by simp, rfl, by simp⟩
    · obtain ⟨newest, hmem, hfold, hn⟩ := ih he
      rw [hfold]
      by_cases hlt : time newest < time x
      · refine ⟨x, by simp, by simp [keepNewest, hlt], ?_⟩
        intro y hy
        rcases mem_append.mp hy with hy | hy
        · exact (hn y hy).trans hlt.le
        · rw [mem_singleton.mp hy]
      · refine ⟨newest, mem_append_left _ hmem, by simp [keepNewest, hlt], ?_⟩
        intro y hy
        rcases mem_append.mp hy with hy | hy
        · exact hn y hy
        · rw [mem_singleton.mp hy]
          exact not_lt.mp hlt

/-- A newest message that comes first stays. -/
theorem foldl_keepNewest_cons {newest : α} {l : List α} (h : ∀ x ∈ l, time x ≤ time newest) :
    (newest :: l).foldl (keepNewest time) [] = [newest] := by
  refine List.foldlRecOn (motive := (· = [newest])) l _ rfl ?_
  rintro _ rfl x hx
  have hnot : ¬ time newest < time x := not_lt.mpr (h x hx)
  simp [keepNewest, hnot]

end

/-! ### All messages -/

/-- What a history holds: the messages without repetition, in the order of their times. -/
structure Records (identity : α → β) (time : α → Int) (l history : List α) : Prop where
  subset : ∀ x ∈ history, x ∈ l
  sorted : history.Pairwise fun a b => time a ≤ time b
  nodup : (history.map identity).Nodup
  complete : ∀ x ∈ l, identity x ∈ history.map identity

theorem Records.mem_map_iff {identity : α → β} {l history : List α}
    (h : Records identity time l history) {b : β} :
    b ∈ history.map identity ↔ b ∈ l.map identity := by
  constructor
  · intro hb
    obtain ⟨x, hx, rfl⟩ := mem_map.mp hb
    exact mem_map_of_mem (h.subset x hx)
  · intro hb
    obtain ⟨x, hx, rfl⟩ := mem_map.mp hb
    exact h.complete x hx

section

variable [DecidableEq β] (identity : α → β) (sorting : SortBy time)

/-- Adds a message unless it is known. -/
def record (history : List α) (x : α) : List α :=
  if history.any fun y => identity x = identity y then history
  else sorting.sort (history ++ [x])

/-- A history from an empty record. -/
def recordAll (l : List α) : List α :=
  l.foldl (record identity sorting) []

variable {identity sorting}

theorem record_of_mem {history : List α} {x : α} (h : identity x ∈ history.map identity) :
    record identity sorting history x = history := by
  obtain ⟨y, hy, heq⟩ := mem_map.mp h
  exact if_pos (any_eq_true.mpr ⟨y, hy, by simp [heq]⟩)

theorem record_of_not_mem {history : List α} {x : α} (h : identity x ∉ history.map identity) :
    record identity sorting history x = sorting.sort (history ++ [x]) := by
  refine if_neg fun hany => ?_
  obtain ⟨y, hy, heq⟩ := any_eq_true.mp hany
  exact h (mem_map.mpr ⟨y, hy, (of_decide_eq_true heq).symm⟩)

theorem recordAll_concat (l : List α) (x : α) :
    recordAll identity sorting (l ++ [x]) =
      record identity sorting (recordAll identity sorting l) x := by
  rw [recordAll, foldl_append, foldl_cons, foldl_nil, recordAll]

theorem recordAll_records (identity : α → β) (sorting : SortBy time) (l : List α) :
    Records identity time l (recordAll identity sorting l) := by
  induction l using List.reverseRecOn with
  | nil => exact ⟨by simp [recordAll], by simp [recordAll], by simp [recordAll], by simp⟩
  | append_singleton l x ih =>
    rw [recordAll_concat]
    by_cases hmem : identity x ∈ (recordAll identity sorting l).map identity
    · rw [record_of_mem hmem]
      refine ⟨fun y hy => mem_append_left _ (ih.subset y hy), ih.sorted, ih.nodup, ?_⟩
      intro y hy
      rcases mem_append.mp hy with hy | hy
      · exact ih.complete y hy
      · rw [mem_singleton.mp hy]
        exact hmem
    · rw [record_of_not_mem hmem]
      have hperm := (sorting.perm (recordAll identity sorting l ++ [x])).map identity
      have hap : (recordAll identity sorting l ++ [x]).map identity =
          (recordAll identity sorting l).map identity ++ [identity x] := by simp
      refine ⟨?_, sorting.sorted _, ?_, ?_⟩
      · intro y hy
        rcases mem_append.mp (sorting.mem_sort.mp hy) with hy | hy
        · exact mem_append_left _ (ih.subset y hy)
        · exact mem_append_right _ hy
      · rw [hperm.nodup_iff, hap, nodup_append]
        refine ⟨ih.nodup, by simp, ?_⟩
        intro a ha b hb heq
        rw [mem_singleton.mp hb] at heq
        exact hmem (heq ▸ ha)
      · intro y hy
        rw [hperm.mem_iff, hap]
        rcases mem_append.mp hy with hy | hy
        · exact mem_append_left _ (ih.complete y hy)
        · rw [mem_singleton.mp hy]
          simp

/-- Histories of the same messages agree up to their order in whatever the identity decides. -/
theorem Records.map_perm {l l' history history' : List α} (h : Records identity time l history)
    (h' : Records identity time l' history') (hperm : l.Perm l') {g : α → γ}
    (hg : ∀ x ∈ l, ∀ y ∈ l, identity x = identity y → g x = g y) :
    (history.map g).Perm (history'.map g) := by
  have hi : (history.map identity).Perm (history'.map identity) := by
    rw [perm_ext_iff_of_nodup h.nodup h'.nodup]
    intro b
    rw [h.mem_map_iff, h'.mem_map_iff]
    exact (hperm.map identity).mem_iff
  -- What an identity stands for is read off some message that has it.
  have hr : ∀ x ∈ l, (l.find? fun y => identity y = identity x).map g = some (g x) := by
    intro x hx
    obtain ⟨y, hy⟩ := isSome_iff_exists.mp (List.find?_isSome.mpr ⟨x, hx, by simp⟩ :
        (l.find? fun y => identity y = identity x).isSome = true)
    have heq : identity y = identity x := by simpa using List.find?_some hy
    rw [hy, map_some, hg y (mem_of_find?_eq_some hy) x hx heq]
  have hmap : ∀ source : List α, (∀ x ∈ source, x ∈ l) →
      (source.map identity).map (fun b => (l.find? fun y => identity y = b).map g) =
        (source.map g).map some := by
    intro source hs
    rw [List.map_map, List.map_map]
    exact map_congr_left fun x hx => hr x (hs x hx)
  have hsome := hi.map fun b => (l.find? fun y => identity y = b).map g
  rw [hmap history h.subset, hmap history' fun x hx => hperm.mem_iff.mpr (h'.subset x hx)] at hsome
  exact (map_perm_map_iff (some_injective γ)).mp hsome

end

/-! ### Entries of equal time -/

/-- Sorted entries that are determined by their times do not depend on an order. -/
theorem eq_of_perm_of_sorted {entries entries' : List (γ × Int)} (hperm : entries.Perm entries')
    (hsort : entries.Pairwise fun a b => a.2 ≤ b.2)
    (hsort' : entries'.Pairwise fun a b => a.2 ≤ b.2)
    (hties : ∀ a ∈ entries, ∀ b ∈ entries, a.2 = b.2 → a = b) : entries = entries' := by
  refine hperm.eq_of_pairwise ?_ hsort hsort'
  intro a b ha hb hab hba
  exact hties a ha b (hperm.mem_iff.mpr hb) (le_antisymm hab hba)

/-! ### A stable sort -/

/-- **The last of its time.**  A message that comes after all others ends up behind every
message that is not later, and its repetitions change nothing. -/
theorem recordAll_insertion_append [DecidableEq β] (identity : α → β) (time : α → Int) (l : List α)
    {x : α} {repeated : List α}
    (hf : identity x ∉ l.map identity) (hr : ∀ y ∈ repeated, identity y = identity x) :
    ∃ before after, recordAll identity (SortBy.insertion time) (l ++ x :: repeated) =
        before ++ x :: after ∧ ∀ y ∈ after, time x < time y := by
  have hrecs := recordAll_records identity (SortBy.insertion time) l
  -- The score is the time, the earliest one being the best.
  have hdesc : Ranking.Descending (fun y => OrderDual.toDual (time y))
    (recordAll identity (SortBy.insertion time) l) := hrecs.sorted
  obtain ⟨before, after, -, hp, -, ha⟩ := Ranking.place_split hdesc x
  have hnew : recordAll identity (SortBy.insertion time) (l ++ [x]) = before ++ x :: after := by
    rw [recordAll_concat, record_of_not_mem (by rwa [hrecs.mem_map_iff]), ← hp]
    exact Ranking.insertionSort_append_singleton hdesc
  refine ⟨before, after, ?_, ha⟩
  rw [append_cons, recordAll, foldl_append]
  refine List.foldlRecOn (motive := (· = before ++ x :: after)) repeated _ hnew ?_
  rintro _ rfl y hy
  exact record_of_mem (by simp [hr y hy])

/-- The messages of one identity can be made to come last. -/
theorem exists_perm_last [DecidableEq β] (identity : α → β) {l : List α} {x : α} (hx : x ∈ l) :
    ∃ others first repeated, (others ++ first :: repeated).Perm l ∧
      (∀ y ∈ first :: repeated, identity y = identity x) ∧
      ∀ y ∈ others, identity y ≠ identity x := by
  have hperm := filter_append_perm (fun y => decide (identity y ≠ identity x)) l
  have hcopy : x ∈ l.filter fun y => !decide (identity y ≠ identity x) :=
    mem_filter.mpr ⟨hx, by simp⟩
  obtain ⟨first, repeated, hs⟩ := exists_cons_of_ne_nil (ne_nil_of_mem hcopy)
  rw [hs] at hperm
  refine ⟨_, first, repeated, hperm, ?_, ?_⟩
  · intro y hy
    rw [← hs] at hy
    simpa using (mem_filter.mp hy).2
  · intro y hy
    simpa using (mem_filter.mp hy).2

end Histories
