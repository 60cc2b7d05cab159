/-
Positions after the reordering.

Positions are given out in increasing order and beyond all positions in use, so that what an item
with a position is moved by does not change any more: after the loop every such item is at its
old position plus the number of positions given out up to it (`shifted`).  That keeps the order
of these items.  But the positions given out between the old and the new position of an item are
not counted, and the item can be moved onto one of them.

If none is given out between the old and the new position of any item (`NoneBetween`), the
reordering is right.  It is wrong if the first item for which this fails is moved onto a
position given out; one that is moved onto a free position changes where later items go.
-/
import Divi.Lib.Runs
import Divi.WalletOrder

namespace Divi

open TxPair List Option

variable {item item' : TxPair} {items : List TxPair}

/-! ### Positions given out -/

/-- A position moved by the number of the given positions up to it. -/
def shifted (issued : List Int) (p : Int) : Int :=
  p + issued.countP fun i => p ≥ i

theorem shifted_strictMono (issued : List Int) : StrictMono (shifted issued) := by
  intro p q hlt
  have hcnt : issued.countP (fun i => p ≥ i) ≤ issued.countP fun i => q ≥ i := by
    refine countP_mono_left fun i _ hi => ?_
    have hle : p ≥ i := of_decide_eq_true hi
    exact decide_eq_true (by omega)
  unfold shifted
  omega

theorem le_shifted (issued : List Int) (p : Int) : p ≤ shifted issued p := by
  unfold shifted
  omega

/-- Positions beyond an item do not move it. -/
theorem shifted_append {issued later : List Int} {p : Int} (h : ∀ i ∈ later, shifted issued p < i) :
    shifted (issued ++ later) p = shifted issued p := by
  have hn : later.countP (fun i => p ≥ i) = 0 := by
    refine countP_eq_zero.mpr fun i hi hle => ?_
    have hlt := h i hi
    have hself := le_shifted issued p
    have := of_decide_eq_true hle
    omega
  rw [shifted, countP_append, hn]
  rfl

namespace TxPair

@[simp] theorem transactionOrderIndex_withOrderIndex (item : TxPair) (nOrderPos : Int) :
    (item.withOrderIndex nOrderPos).transactionOrderIndex = nOrderPos := by
  cases item with
  | transaction _ => rfl
  | entry _ => rfl

end TxPair

namespace Reordering

variable {walletdb : CWalletDB} {st st' : Reordering}

/-! ### One item -/

/-- The loop after an item, as long as it goes on. -/
def next (walletdb : CWalletDB) (st : Reordering) (item : TxPair) : Option Reordering :=
  match st.reorderItem walletdb item with
  | some (.ok st') => some st'
  | _ => none

theorem reorderItems_eq_ok_iff :
    st.reorderItems walletdb items = some (.ok st') ↔
      runFrom (next walletdb) st items = some st' := by
  induction items generalizing st with
  | nil => simp [reorderItems, runFrom]
  | cons item items ih =>
    cases hitem : st.reorderItem walletdb item with
    | none => simp [reorderItems, runFrom, next, hitem]
    | some result =>
      cases result with
      | error _ => simp [reorderItems, runFrom, next, hitem]
      | ok mid =>
        simp only [reorderItems, runFrom, hitem]
        rw [show next walletdb st item = some mid by simp [next, hitem]]
        exact ih

/-- Abbreviation for the positions given out. -/
abbrev issued (st : Reordering) : List Int :=
  st.newIndicesOfPreviouslyUnorderedTransactions

/-- The variables after an item is given a position. -/
def given (st : Reordering) (item : TxPair) : Reordering where
  orderedTransactionIndex := st.orderedTransactionIndex + 1
  newIndicesOfPreviouslyUnorderedTransactions := st.issued ++ [st.orderedTransactionIndex]
  items := st.items ++ [item.withOrderIndex st.orderedTransactionIndex]

/-- The variables after an item is moved. -/
def moved (st : Reordering) (item : TxPair) : Reordering :=
  { st with
    orderedTransactionIndex :=
      max st.orderedTransactionIndex (shifted st.issued item.transactionOrderIndex + 1)
    items := st.items ++ [item.withOrderIndex (shifted st.issued item.transactionOrderIndex)] }

theorem giveIndex_eq_ok (h : st.giveIndex walletdb item = some (.ok st')) :
    st' = st.given item := by
  obtain ⟨bound, hbd, hr⟩ := bind_eq_some_iff.mp h
  obtain ⟨-, rfl⟩ := Checked.check_eq_some_iff.mp hbd
  simp only at hr
  split at hr
  next => cases hr
  next => exact (Except.ok.inj (Option.some.inj hr)).symm

theorem shiftIndex_eq_ok (h : st.shiftIndex walletdb item = some (.ok st')) :
    st' = st.moved item := by
  obtain ⟨index, hidx, hr⟩ := bind_eq_some_iff.mp h
  obtain ⟨bound, hbd, hr⟩ := bind_eq_some_iff.mp hr
  obtain ⟨-, rfl⟩ := Checked.check_eq_some_iff.mp hidx
  obtain ⟨-, rfl⟩ := Checked.check_eq_some_iff.mp hbd
  simp only at hr
  split at hr
  next => cases hr
  next => exact (Except.ok.inj (Option.some.inj hr)).symm

theorem next_cases (h : next walletdb st item = some st') :
    (item.transactionOrderIndex = -1 ∧ st' = st.given item) ∨
    (item.transactionOrderIndex ≠ -1 ∧ st' = st.moved item) := by
  have hok : st.reorderItem walletdb item = some (.ok st') := by
    unfold next at h
    split at h
    next hitem => rw [hitem, Option.some.inj h]
    next => cases h
  unfold reorderItem at hok
  split at hok
  next hn => exact .inl ⟨hn, giveIndex_eq_ok hok⟩
  next hsome => exact .inr ⟨hsome, shiftIndex_eq_ok hok⟩

/-! ### The invariant -/

/-- The positions of the items that have one. -/
def orderedPositions (items : List TxPair) : List Int :=
  (items.map TxPair.transactionOrderIndex).filter fun p => p ≠ -1

/-- What the loop has done with the items before. -/
structure Positions (before : List TxPair) (st : Reordering) : Prop where
  /-- Positions are given out in increasing order. -/
  increasing : st.issued.Pairwise (· < ·)
  issued_range : ∀ i ∈ st.issued, 0 ≤ i ∧ i < st.orderedTransactionIndex
  /-- The items that had a position are beyond no position given out later. -/
  shifted_lt : ∀ p ∈ orderedPositions before, shifted st.issued p < st.orderedTransactionIndex
  nonneg : 0 ≤ st.orderedTransactionIndex
  /-- Only the positions of the items change. -/
  aligned : List.Forall₂ (fun item item' =>
    item' = item.withOrderIndex item'.transactionOrderIndex ∧
      (item.transactionOrderIndex ≠ -1 →
        item'.transactionOrderIndex = shifted st.issued item.transactionOrderIndex))
    before st.items
  perm : (st.items.map TxPair.transactionOrderIndex).Perm
    (st.issued ++ (orderedPositions before).map (shifted st.issued))

theorem Positions.start : Positions [] {} where
  increasing := List.Pairwise.nil
  issued_range := by simp [issued]
  shifted_lt := by simp [orderedPositions]
  nonneg := le_refl _
  aligned := List.Forall₂.nil
  perm := by simp [issued, orderedPositions]

variable {before : List TxPair}

theorem orderedPositions_concat_of_unordered (h : item.transactionOrderIndex = -1) :
    orderedPositions (before ++ [item]) = orderedPositions before := by
  simp [orderedPositions, h]

theorem orderedPositions_concat_of_ordered (h : item.transactionOrderIndex ≠ -1) :
    orderedPositions (before ++ [item]) =
      orderedPositions before ++ [item.transactionOrderIndex] := by
  simp [orderedPositions, h]

theorem mem_orderedPositions (h : item ∈ before) (hsome : item.transactionOrderIndex ≠ -1) :
    item.transactionOrderIndex ∈ orderedPositions before :=
  mem_filter.mpr ⟨mem_map_of_mem h, decide_eq_true hsome⟩

theorem Positions.giveIndex (hst : Positions before st) (h : item.transactionOrderIndex = -1) :
    Positions (before ++ [item]) (st.given item) := by
  -- the new position is beyond all items that had one
  have hkept : ∀ p ∈ orderedPositions before,
      shifted (st.issued ++ [st.orderedTransactionIndex]) p = shifted st.issued p :=
    fun p hp => shifted_append (by simpa using hst.shifted_lt p hp)
  unfold given
  refine ⟨?_, ?_, ?_, by have := hst.nonneg; simp only; omega, ?_, ?_⟩
  · refine pairwise_append.mpr ⟨hst.increasing, pairwise_singleton _ _, ?_⟩
    intro i hi j hj
    rw [mem_singleton.mp hj]
    exact (hst.issued_range i hi).2
  · intro i hi
    obtain hold | hnew := mem_append.mp hi
    · have := hst.issued_range i hold
      simp only
      omega
    · rw [mem_singleton.mp hnew]
      exact ⟨hst.nonneg, by simp only; omega⟩
  · intro p hp
    rw [orderedPositions_concat_of_unordered h] at hp
    have := hst.shifted_lt p hp
    rw [hkept p hp]
    simp only
    omega
  · refine rel_append ?_ (List.Forall₂.cons ⟨?_, fun hsome => absurd h hsome⟩ .nil)
    · have hmem := (forall₂_and_left _ _).mpr ⟨fun _ ha => ha, hst.aligned⟩
      refine hmem.imp fun item item' hitem => ⟨hitem.2.1, fun hsome => ?_⟩
      rw [hkept _ (mem_orderedPositions hitem.1 hsome)]
      exact hitem.2.2 hsome
    · rw [transactionOrderIndex_withOrderIndex]
  · rw [orderedPositions_concat_of_unordered h, map_congr_left hkept, map_append, append_assoc]
    refine (hst.perm.append_right _).trans ?_
    rw [append_assoc]
    refine List.Perm.append_left _ ?_
    simp only [map_singleton, transactionOrderIndex_withOrderIndex]
    exact perm_append_comm

theorem Positions.shiftIndex (hst : Positions before st) (h : item.transactionOrderIndex ≠ -1) :
    Positions (before ++ [item]) (st.moved item) := by
  unfold moved
  refine ⟨hst.increasing, ?_, ?_, le_max_of_le_left hst.nonneg, ?_, ?_⟩
  · intro i hi
    have := hst.issued_range i hi
    exact ⟨this.1, lt_max_of_lt_left this.2⟩
  · intro p hp
    rw [orderedPositions_concat_of_ordered h] at hp
    obtain hold | hnew := mem_append.mp hp
    · exact lt_max_of_lt_left (hst.shifted_lt p hold)
    · rw [mem_singleton.mp hnew]
      exact lt_max_of_lt_right (Int.lt_succ _)
  · refine rel_append hst.aligned (List.Forall₂.cons ⟨?_, fun _ => ?_⟩ .nil)
    · rw [transactionOrderIndex_withOrderIndex]
    · rw [transactionOrderIndex_withOrderIndex]
  · rw [orderedPositions_concat_of_ordered h, map_append, map_append, ← append_assoc]
    refine hst.perm.append ?_
    simp

theorem positions_of_run (h : runFrom (next walletdb) {} items = some st) : Positions items st := by
  induction items using List.reverseRecOn generalizing st with
  | nil => exact Option.some.inj h ▸ Positions.start
  | append_singleton before item ih =>
    obtain ⟨mid, hmid, hitem⟩ := runFrom_concat_eq_some.mp h
    obtain ⟨hn, rfl⟩ | ⟨hsome, rfl⟩ := next_cases hitem
    · exact (ih hmid).giveIndex hn
    · exact (ih hmid).shiftIndex hsome

/-- Positions given out later are beyond all positions in use. -/
theorem issued_of_run (h : runFrom (next walletdb) st items = some st') :
    st.orderedTransactionIndex ≤ st'.orderedTransactionIndex ∧
      ∃ later, st'.issued = st.issued ++ later ∧ ∀ i ∈ later, st.orderedTransactionIndex ≤ i := by
  induction items using List.reverseRecOn generalizing st' with
  | nil =>
    cases h
    exact ⟨le_refl _, [], by simp, by simp⟩
  | append_singleton before item ih =>
    obtain ⟨mid, hmid, hitem⟩ := runFrom_concat_eq_some.mp h
    obtain ⟨hle, later, hiss, hl⟩ := ih hmid
    obtain ⟨-, rfl⟩ | ⟨-, rfl⟩ := next_cases hitem
    · refine ⟨by simp only [given]; omega, later ++ [mid.orderedTransactionIndex], ?_, ?_⟩
      · simp only [given, issued] at hiss ⊢
        rw [hiss, append_assoc]
      · intro i hi
        obtain hold | hnew := mem_append.mp hi
        · exact hl i hold
        · rw [mem_singleton.mp hnew]
          exact hle
    · exact ⟨le_max_of_le_left hle, later, hiss, hl⟩

/-- An item that is moved onto a position given out before stays there. -/
theorem shifted_mem_iff_of_run {after : List TxPair} {mid : Reordering}
    (hsome : item.transactionOrderIndex ≠ -1) (hitem : next walletdb mid item = some st)
    (hrun : runFrom (next walletdb) st after = some st') :
    shifted st'.issued item.transactionOrderIndex ∈ st'.issued ↔
      shifted mid.issued item.transactionOrderIndex ∈ mid.issued := by
  obtain ⟨hn, -⟩ | ⟨-, rfl⟩ := next_cases hitem
  · exact absurd hn hsome
  obtain ⟨-, later, hiss, hl⟩ := issued_of_run hrun
  have hb : ∀ i ∈ later, shifted mid.issued item.transactionOrderIndex < i := by
    intro i hi
    have := hl i hi
    simp only [moved] at this
    omega
  have hnot : shifted mid.issued item.transactionOrderIndex ∉ later :=
    fun hmem => lt_irrefl _ (hb _ hmem)
  rw [show st'.issued = mid.issued ++ later from hiss, shifted_append hb, mem_append,
    or_iff_left hnot]

/-! ### The positions in the end -/

/-- Positions as they should be after the reordering. -/
structure Reordered (items items' : List TxPair) (orderedTransactionIndex : Int) : Prop where
  nonneg : ∀ item' ∈ items', 0 ≤ item'.transactionOrderIndex
  lt : ∀ item' ∈ items', item'.transactionOrderIndex < orderedTransactionIndex
  distinct : (items'.map TxPair.transactionOrderIndex).Nodup
  /-- Only the positions change. -/
  same : List.Forall₂ (fun item item' => item' = item.withOrderIndex item'.transactionOrderIndex)
    items items'
  keepsOrder : ∀ (i j : Nat) (item other item' other' : TxPair),
    items[i]? = some item → items[j]? = some other →
    items'[i]? = some item' → items'[j]? = some other' →
    item.transactionOrderIndex ≠ -1 → other.transactionOrderIndex ≠ -1 →
    item.transactionOrderIndex < other.transactionOrderIndex →
    item'.transactionOrderIndex < other'.transactionOrderIndex

namespace Positions

variable (hst : Positions items st)

include hst

theorem distinct_iff (hdist : (orderedPositions items).Nodup) :
    (st.items.map transactionOrderIndex).Nodup ↔
      ∀ p ∈ orderedPositions items, shifted st.issued p ∉ st.issued := by
  have hiss : st.issued.Nodup := hst.increasing.imp fun hlt => ne_of_lt hlt
  have hs : ((orderedPositions items).map (shifted st.issued)).Nodup :=
    hdist.map (shifted_strictMono st.issued).injective
  rw [hst.perm.nodup_iff, nodup_append]
  constructor
  · intro ⟨_, _, hd⟩ p hp hmem
    exact hd _ hmem _ (mem_map_of_mem hp) rfl
  · intro hnot
    refine ⟨hiss, hs, ?_⟩
    intro i hi j hj heq
    obtain ⟨p, hp, rfl⟩ := mem_map.mp hj
    exact hnot p hp (heq ▸ hi)

theorem mem_items (h : item' ∈ st.items) : item'.transactionOrderIndex ∈ st.issued ∨
      ∃ p ∈ orderedPositions items, shifted st.issued p = item'.transactionOrderIndex := by
  have hmem := hst.perm.mem_iff.mp (mem_map_of_mem h)
  simpa using hmem

theorem keepsOrder {i j : Nat} {other other' : TxPair} (hitem : items[i]? = some item)
    (ho : items[j]? = some other) (hitem' : st.items[i]? = some item')
    (ho' : st.items[j]? = some other') (hsome : item.transactionOrderIndex ≠ -1)
    (hsome' : other.transactionOrderIndex ≠ -1)
    (hlt : item.transactionOrderIndex < other.transactionOrderIndex) :
    item'.transactionOrderIndex < other'.transactionOrderIndex := by
  have hat : ∀ {i : Nat} {item item' : TxPair}, items[i]? = some item → st.items[i]? = some item' →
      item.transactionOrderIndex ≠ -1 →
      item'.transactionOrderIndex = shifted st.issued item.transactionOrderIndex := by
    intro i item item' hitem hitem' hsome
    obtain ⟨hi, rfl⟩ := List.getElem?_eq_some_iff.mp hitem
    obtain ⟨hi', rfl⟩ := List.getElem?_eq_some_iff.mp hitem'
    exact (hst.aligned.get hi hi').2 hsome
  rw [hat hitem hitem' hsome, hat ho ho' hsome']
  exact shifted_strictMono _ hlt

end Positions

theorem reordered_iff_of_run (hnn : ∀ p ∈ orderedPositions items, 0 ≤ p)
    (hdist : (orderedPositions items).Nodup) (hrun : runFrom (next walletdb) {} items = some st)
    :
    Reordered items st.items st.orderedTransactionIndex ↔
      ∀ p ∈ orderedPositions items, shifted st.issued p ∉ st.issued := by
  have hst := positions_of_run hrun
  constructor
  · intro h
    exact (hst.distinct_iff hdist).mp h.distinct
  · intro h
    refine ⟨?_, ?_, (hst.distinct_iff hdist).mpr h, hst.aligned.imp fun _ _ hitem => hitem.1,
      fun i j item other item' other' => hst.keepsOrder⟩
    · intro item' hitem'
      obtain hi | ⟨p, hp, hs⟩ := hst.mem_items hitem'
      · exact (hst.issued_range _ hi).1
      · have hle := le_shifted st.issued p
        have hpos := hnn p hp
        omega
    · intro item' hitem'
      obtain hi | ⟨p, hp, hs⟩ := hst.mem_items hitem'
      · exact (hst.issued_range _ hi).2
      · rw [← hs]
        exact hst.shifted_lt p hp

/-! ### Old positions that are in the way -/

/-- Beyond all positions that the items had. -/
def firstFree (before : List TxPair) : Int :=
  (orderedPositions before).foldl (fun free p => max free (p + 1)) 0

/-- How many items had no position. -/
def unordered (before : List TxPair) : Nat :=
  before.countP fun item => item.transactionOrderIndex = -1

/-- A position for each item without one, beyond those that the items before it had and beyond
those of the other items without one before it. -/
def newPositions (before : List TxPair) : List TxPair → List Int
  | [] => []
  | item :: items =>
    (if item.transactionOrderIndex = -1 then [firstFree before + unordered before] else []) ++
      newPositions (before ++ [item]) items

/-- For every item without a position, no item after it had a position from the first free one
on that is still below the new position. -/
def NoneBetween (items : List TxPair) : Prop :=
  ∀ before item after, items = before ++ item :: after → item.transactionOrderIndex = -1 →
    ∀ other ∈ after, other.transactionOrderIndex ≠ -1 →
      other.transactionOrderIndex < firstFree before ∨
        firstFree before + unordered before ≤ other.transactionOrderIndex

theorem NoneBetween.of_append {more : List TxPair} (h : NoneBetween (items ++ more)) :
    NoneBetween items := by
  intro before item after hi hn other ho
  refine h before item (after ++ more) ?_ hn other (mem_append_left more ho)
  rw [hi, append_assoc, cons_append]

theorem firstFree_concat_of_unordered (h : item.transactionOrderIndex = -1) :
    firstFree (before ++ [item]) = firstFree before := by
  rw [firstFree, orderedPositions_concat_of_unordered h]
  rfl

theorem firstFree_concat_of_ordered (h : item.transactionOrderIndex ≠ -1) :
    firstFree (before ++ [item]) = max (firstFree before) (item.transactionOrderIndex + 1) := by
  rw [firstFree, orderedPositions_concat_of_ordered h, foldl_concat]
  rfl

theorem firstFree_le_append (before more : List TxPair) :
    firstFree before ≤ firstFree (before ++ more) := by
  induction more using List.reverseRecOn with
  | nil => rw [append_nil]
  | append_singleton more item ih =>
    rw [← append_assoc]
    by_cases hn : item.transactionOrderIndex = -1
    · rwa [firstFree_concat_of_unordered hn]
    · rw [firstFree_concat_of_ordered hn]
      exact le_max_of_le_left ih

theorem unordered_append (before more : List TxPair) :
    unordered (before ++ more) = unordered before + unordered more :=
  countP_append

theorem newPositions_append (before items more : List TxPair) :
    newPositions before (items ++ more) =
      newPositions before items ++ newPositions (before ++ items) more := by
  induction items generalizing before with
  | nil => simp [newPositions]
  | cons item items ih => simp [newPositions, ih]

theorem length_newPositions (before items : List TxPair) :
    (newPositions before items).length = unordered items := by
  induction items generalizing before with
  | nil => rfl
  | cons item items ih =>
    rw [newPositions, length_append, ih]
    by_cases hn : item.transactionOrderIndex = -1
    · simp [hn, unordered, Nat.add_comm]
    · simp [hn, unordered]

theorem mem_newPositions {i : Int} (h : i ∈ newPositions before items) :
    ∃ first item rest, items = first ++ item :: rest ∧ item.transactionOrderIndex = -1 ∧
      i = firstFree (before ++ first) + unordered (before ++ first) := by
  induction items generalizing before with
  | nil => cases h
  | cons item items ih =>
    obtain hhead | hr := mem_append.mp h
    · by_cases hn : item.transactionOrderIndex = -1
      · rw [if_pos hn, mem_singleton] at hhead
        exact ⟨[], item, items, rfl, hn, by rw [append_nil]; exact hhead⟩
      · rw [if_neg hn] at hhead
        cases hhead
    · obtain ⟨first, other, rest, rfl, hn, hi⟩ := ih hr
      exact ⟨item :: first, other, rest, rfl, hn, by simpa using hi⟩

/-- An item beyond all earlier ones is moved by all positions given out. -/
theorem shifted_newPositions (h : NoneBetween (before ++ [item]))
    (hsome : item.transactionOrderIndex ≠ -1)
    (hfree : firstFree before ≤ item.transactionOrderIndex) :
    shifted (newPositions [] before) item.transactionOrderIndex =
      item.transactionOrderIndex + unordered before := by
  have hall : ∀ i ∈ newPositions [] before, i ≤ item.transactionOrderIndex := by
    intro i hi
    obtain ⟨first, other, rest, rfl, hn, rfl⟩ := mem_newPositions hi
    have hle := firstFree_le_append first (other :: rest)
    obtain hlt | hge := h first other (rest ++ [item]) (by simp) hn item (by simp) hsome
    · omega
    · exact hge
  rw [shifted, countP_eq_length.mpr fun i hi => decide_eq_true (hall i hi), length_newPositions]

/-- As long as no old position is in the way, the loop gives out the positions as they should be. -/
theorem issued_eq_newPositions (h : NoneBetween items)
    (hrun : runFrom (next walletdb) {} items = some st) : st.issued = newPositions [] items ∧
      st.orderedTransactionIndex = firstFree items + unordered items := by
  induction items using List.reverseRecOn generalizing st with
  | nil =>
    cases hrun
    exact ⟨rfl, rfl⟩
  | append_singleton before item ih =>
    obtain ⟨mid, hmid, hitem⟩ := runFrom_concat_eq_some.mp hrun
    obtain ⟨hi, hidx⟩ := ih h.of_append hmid
    rw [newPositions_append, unordered_append]
    obtain ⟨hn, rfl⟩ | ⟨hsome, rfl⟩ := next_cases hitem
    · have hone : unordered [item] = 1 := by simp [unordered, hn]
      rw [firstFree_concat_of_unordered hn, hone]
      refine ⟨?_, ?_⟩
      · simp [given, newPositions, hn, hi, hidx]
      · simp only [given, hidx]
        omega
    · have hzero : unordered [item] = 0 := by simp [unordered, hsome]
      rw [firstFree_concat_of_ordered hsome, hzero]
      refine ⟨hi.trans (by simp [newPositions, hsome]), ?_⟩
      simp only [moved, hidx, hi]
      obtain hlt | hge := lt_or_ge item.transactionOrderIndex (firstFree before)
      · have hcnt := countP_le_length (p := fun i => item.transactionOrderIndex ≥ i)
          (l := newPositions [] before)
        rw [length_newPositions] at hcnt
        unfold shifted
        omega
      · rw [shifted_newPositions h hsome hge]
        omega

/-- The positions given out before an item, to it, and after it. -/
theorem newPositions_of_unordered {first rest : List TxPair}
    (h : item.transactionOrderIndex = -1) :
    newPositions [] (first ++ item :: rest) = newPositions [] first ++
      ((firstFree first + unordered first) :: newPositions (first ++ [item]) rest) := by
  rw [newPositions_append, newPositions, if_pos h]
  rfl

/-- Positions are given out in increasing order. -/
theorem lt_of_mem_newPositions {first rest : List TxPair} {i : Int}
    (h : item.transactionOrderIndex = -1) (hi : i ∈ newPositions (first ++ [item]) rest) :
    firstFree first + unordered first < i := by
  obtain ⟨between, another, _, -, -, rfl⟩ := mem_newPositions hi
  have hle := firstFree_le_append first ([item] ++ between)
  have hone : unordered [item] = 1 := by simp [unordered, h]
  rw [append_assoc, unordered_append, unordered_append, hone]
  omega

/-- An item is not moved onto a position given out, as it is moved by less than that position is
beyond it. -/
theorem shifted_notMem (h : NoneBetween (before ++ [item]))
    (hsome : item.transactionOrderIndex ≠ -1) :
    shifted (newPositions [] before) item.transactionOrderIndex ∉ newPositions [] before := by
  intro hmem
  obtain ⟨first, other, rest, rfl, hno, hi⟩ := mem_newPositions hmem
  rw [nil_append] at hi
  have hb := h first other (rest ++ [item]) (by simp) hno item (by simp) hsome
  have hself : newPositions [] (first ++ other :: rest) = _ := newPositions_of_unordered hno
  by_cases hle : firstFree first + unordered first ≤ item.transactionOrderIndex
  · have hc : 0 < (newPositions [] (first ++ other :: rest)).countP
        fun i => item.transactionOrderIndex ≥ i :=
      countP_pos_iff.mpr ⟨_, by rw [hself]; simp, decide_eq_true hle⟩
    unfold shifted at hi
    omega
  · have hcnt : (newPositions [] (first ++ other :: rest)).countP
        (fun i => item.transactionOrderIndex ≥ i) ≤ unordered first := by
      have hn : (newPositions (first ++ [other]) rest).countP
          (fun i => item.transactionOrderIndex ≥ i) = 0 := by
        refine countP_eq_zero.mpr fun i hi hge => ?_
        have hbe := lt_of_mem_newPositions hno hi
        have := of_decide_eq_true hge
        omega
      rw [hself, countP_append, countP_cons_of_neg (by simpa using hle), hn,
        ← length_newPositions [] first]
      exact countP_le_length
    unfold shifted at hi
    omega

/-- **The reordering is right** if no old position is in the way.  At the first item whose position
is in the way, it is wrong if the item is moved onto a position given out. -/
theorem reordered_unless_between {walletTransactions : List CWalletTx}
    {acentries : List CAccountingEntry} (hpos : ∀ item ∈ txItems walletTransactions acentries,
      item.transactionOrderIndex = -1 ∨ 0 ≤ item.transactionOrderIndex)
    (hdist : (orderedPositions (txItems walletTransactions acentries)).Nodup)
    (hok : reorderTransactionsByTimestamp walletdb walletTransactions acentries =
      some (.ok st)) :
    (NoneBetween (txByTime walletTransactions acentries) →
      Reordered (txByTime walletTransactions acentries) st.items st.orderedTransactionIndex) ∧
    ∀ before item after, txByTime walletTransactions acentries = before ++ item :: after →
      NoneBetween before → item.transactionOrderIndex ≠ -1 →
      shifted (newPositions [] before) item.transactionOrderIndex ∈ newPositions [] before →
      ¬Reordered (txByTime walletTransactions acentries) st.items st.orderedTransactionIndex := by
  have hperm : (txByTime walletTransactions acentries).Perm
      (txItems walletTransactions acentries) := perm_insertionSort _ _
  have hdist' : (orderedPositions (txByTime walletTransactions acentries)).Nodup :=
    (((hperm.map _).filter _).nodup_iff).mpr hdist
  have hnn : ∀ p ∈ orderedPositions (txByTime walletTransactions acentries), 0 ≤ p := by
    intro p hp
    obtain ⟨hmem, hsome⟩ := mem_filter.mp hp
    obtain ⟨item, hitem, rfl⟩ := mem_map.mp hmem
    exact (hpos item (hperm.mem_iff.mp hitem)).resolve_left (of_decide_eq_true hsome)
  have hrun := reorderItems_eq_ok_iff.mp hok
  rw [reordered_iff_of_run hnn hdist' hrun]
  -- where an item ends is decided when it comes up
  have hm : ∀ before item after,
      txByTime walletTransactions acentries = before ++ item :: after → NoneBetween before →
      item.transactionOrderIndex ≠ -1 →
      (shifted st.issued item.transactionOrderIndex ∈ st.issued ↔
        shifted (newPositions [] before) item.transactionOrderIndex ∈ newPositions [] before) := by
    intro before item after hi hpre hsome
    rw [hi, runFrom_append] at hrun
    obtain ⟨mid, hmid, ha⟩ := bind_eq_some_iff.mp hrun
    obtain ⟨moved, hm, hr⟩ := bind_eq_some_iff.mp ha
    rw [shifted_mem_iff_of_run hsome hm hr, (issued_eq_newPositions hpre hmid).1]
  refine ⟨fun hn p hp => ?_, fun before item after hi hpre hsome hmem h => ?_⟩
  · obtain ⟨hmem, hsome⟩ := mem_filter.mp hp
    obtain ⟨item, hitem, rfl⟩ := mem_map.mp hmem
    obtain ⟨before, after, hi⟩ := append_of_mem hitem
    have hsome := of_decide_eq_true hsome
    rw [hi, ← singleton_append, ← append_assoc] at hn
    rw [hm before item after hi hn.of_append.of_append hsome]
    exact shifted_notMem hn.of_append hsome
  · refine h _ (mem_orderedPositions ?_ hsome) ((hm before item after hi hpre hsome).mpr hmem)
    rw [hi]
    simp

private def entryAt (nTime nOrderPos : Int) : CAccountingEntry :=
  { nTime := nTime, nOrderPos := nOrderPos }

private def workingWalletdb : CWalletDB where
  writeTx := fun _ => true
  writeAccountingEntry := fun _ => true

/-- Two entries without a position, and a later one with a position beyond the new ones. -/
theorem reordered_with_later_entry :
    ∃ st, reorderTransactionsByTimestamp workingWalletdb []
        [entryAt 1 (-1), entryAt 2 (-1), entryAt 3 1] = some (.ok st) ∧
      Reordered (txByTime [] [entryAt 1 (-1), entryAt 2 (-1), entryAt 3 1]) st.items
        st.orderedTransactionIndex := by
  refine ⟨_, rfl, (@reordered_unless_between workingWalletdb _ _ _ (by decide) (by decide) rfl).1
    ?_⟩
  have hi : txByTime [] [entryAt 1 (-1), entryAt 2 (-1), entryAt 3 1] =
      [entry (entryAt 1 (-1)), entry (entryAt 2 (-1)), entry (entryAt 3 1)] := by decide
  rw [hi]
  rintro before item after hs - other ho
  match before with
  | [] =>
    obtain ⟨-, rfl⟩ := List.cons.inj hs
    revert other
    decide
  | [first] =>
    obtain ⟨rfl, hr⟩ := List.cons.inj hs
    obtain ⟨-, rfl⟩ := List.cons.inj hr
    revert other
    decide
  | _ :: _ :: before =>
    have hlen := congrArg length hs
    have hpos := length_pos_of_mem ho
    simp only [length_append, length_cons, length_nil] at hlen
    omega

private def threeEntries : List CAccountingEntry :=
  [entryAt 1 (-1), entryAt 2 (-1), entryAt 3 0]

/-- The third entry is moved from 0 to the position of the second one. -/
theorem reorder_duplicates_position :
    (∀ item ∈ txItems [] threeEntries,
      item.transactionOrderIndex = -1 ∨ 0 ≤ item.transactionOrderIndex) ∧
    (orderedPositions (txItems [] threeEntries)).Nodup ∧
    ∃ st, reorderTransactionsByTimestamp workingWalletdb [] threeEntries = some (.ok st) ∧
      st.items.map TxPair.transactionOrderIndex = [0, 1, 1] ∧
      ¬ (st.items.map TxPair.transactionOrderIndex).Nodup :=
  ⟨by decide, by decide, _, rfl, by decide, by decide⟩

end Reordering

end Divi
