/-
The cached state of a deployment is the uncached one.

The cache is sound at all times: an entry is the state of the period that starts at its block, since
a state is only entered where it was computed from an entry, or where the median time is too low
for any other state than `DEFINED` up to there.  `update` settles the first block of a period, and
from then on the walk back finds its state, whichever entries are added for other blocks.
-/
import Divi.BIP9ActivationTracker
import Divi.Lib.Runs
import Divi.Lib.SparseCache
import Divi.Proofs.SkipList

namespace Divi

open BlockPointer List Option SparseCache

variable {cache : ThresholdConditionCache} {blockIndex : BlockPointer} {fuel : Nat}
  {newer : List BlockPointer} {found : List BlockPointer × ThresholdConditionCache}

/-! ### The median time past -/

theorem le_getMedianTimePast_iff (h : blockIndex ≠ []) (time : Int) :
    time ≤ blockIndex.getMedianTimePast ↔
      ((blockIndex.take nMedianTimeSpan).map CBlockIndex.nTime).countP (· < time) ≤
        min nMedianTimeSpan blockIndex.length / 2 := by
  have hlen := length_pos_iff.mpr h
  have hperm := perm_insertionSort (· ≤ ·) ((blockIndex.take nMedianTimeSpan).map CBlockIndex.nTime)
  have hsize := hperm.length_eq
  rw [length_map, length_take] at hsize
  unfold getMedianTimePast
  dsimp only
  rw [getD_eq_getElem?_getD, getElem?_eq_getElem (by rw [hsize, nMedianTimeSpan]; omega), getD_some,
    le_getElem_iff_countP_le (pairwise_insertionSort _ _), hperm.countP_eq, hsize]

/-- A time above the median enters the window, and at most one time leaves it. -/
theorem getMedianTimePast_le_of_lt {block : CBlockIndex} (h : blockIndex ≠ [])
    (hlate : blockIndex.getMedianTimePast < block.nTime) :
    blockIndex.getMedianTimePast ≤ getMedianTimePast (block :: blockIndex) := by
  have hlt := (le_getMedianTimePast_iff h _).mp le_rfl
  have hkept : ((blockIndex.take 10).map CBlockIndex.nTime).countP
      (· < blockIndex.getMedianTimePast) ≤
      ((blockIndex.take nMedianTimeSpan).map CBlockIndex.nTime).countP
        (· < blockIndex.getMedianTimePast) :=
    ((take_sublist_take_left (by decide)).map _).countP_le
  rw [le_getMedianTimePast_iff (cons_ne_nil _ _), nMedianTimeSpan, take_succ_cons, map_cons,
    countP_cons_of_neg (by simpa using hlate.le), length_cons]
  rw [nMedianTimeSpan] at hlt hkept
  omega

/-- Every block but genesis is later than the median time past of its parent. -/
def BlockPointer.TimesOK : BlockPointer → Prop
  | [] => True
  | block :: prev => (prev ≠ [] → getMedianTimePast prev < block.nTime) ∧ TimesOK prev

theorem BlockPointer.TimesOK.of_suffix {path ancestor : BlockPointer} (h : path.TimesOK)
    (hsuf : ancestor <:+ path) : ancestor.TimesOK := by
  induction path with
  | nil => rwa [suffix_nil.mp hsuf]
  | cons block prev ih =>
    obtain rfl | hprev := suffix_cons_iff.mp hsuf
    · exact h
    · exact ih h.2 hprev

theorem BlockPointer.TimesOK.getMedianTimePast_le {path prev : BlockPointer} {block : CBlockIndex}
    (h : path.TimesOK) (hsuf : block :: prev <:+ path) (hne : prev ≠ []) :
    getMedianTimePast prev ≤ getMedianTimePast (block :: prev) :=
  getMedianTimePast_le_of_lt hne ((h.of_suffix hsuf).1 hne)

/-- The last block is earlier than its parent. -/
theorem BlockPointer.TimesOK.getMedianTimePast_le_of_four :
    let blocks : BlockPointer := [32, 35, 30, 10].map fun nTime =>
      { phashBlock := 0, nHeight := 0, nTime }
    getMedianTimePast blocks.tail ≤ getMedianTimePast blocks := by
  intro blocks
  have ht : TimesOK blocks :=
    ⟨fun _ => by decide, fun _ => by decide, fun _ => by decide, fun h => absurd rfl h, trivial⟩
  exact ht.getMedianTimePast_le (suffix_refl _) (cons_ne_nil _ _)

/-- Blocks whose median time past never decreases from parent to child. -/
structure MedianTimeTree where
  blocks : Set BlockPointer
  pprev_mem : ∀ block prev, block :: prev ∈ blocks → prev ∈ blocks
  heights : ∀ path ∈ blocks, path.HeightsOK
  medianTime : ∀ block prev, block :: prev ∈ blocks → prev ≠ [] →
    BlockPointer.getMedianTimePast prev ≤ BlockPointer.getMedianTimePast (block :: prev)

namespace MedianTimeTree

/-- The blocks that header acceptance lets in. -/
def ofTimes (blocks : Set BlockPointer)
    (pprev_mem : ∀ block prev, block :: prev ∈ blocks → prev ∈ blocks)
    (heights : ∀ path ∈ blocks, path.HeightsOK) (times : ∀ path ∈ blocks, path.TimesOK) :
    MedianTimeTree where
  blocks := blocks
  pprev_mem := pprev_mem
  heights := heights
  medianTime _ _ h hne := getMedianTimePast_le_of_lt hne ((times _ h).1 hne)

variable (tree : MedianTimeTree)

theorem medianTime_le {path ancestor : BlockPointer} (h : path ∈ tree.blocks)
    (hsuf : ancestor <:+ path) (hne : ancestor ≠ []) :
    ancestor.getMedianTimePast ≤ path.getMedianTimePast := by
  induction path with
  | nil => rw [suffix_nil.mp hsuf]
  | cons block prev ih =>
    obtain rfl | hprev := suffix_cons_iff.mp hsuf
    · exact le_rfl
    · have hprevNe : prev ≠ [] := by
        rintro rfl
        exact hne (suffix_nil.mp hprev)
      exact (ih (tree.pprev_mem block prev h) hprev).trans (tree.medianTime block prev h hprevNe)

end MedianTimeTree

namespace CachedBIP9ActivationStateTracker

variable {tracker : CachedBIP9ActivationStateTracker}

/-! ### The uncached state -/

/-- The state of the period that starts at a block. -/
def periodState (tracker : CachedBIP9ActivationStateTracker) (blockIndex : BlockPointer) :
    ThresholdState :=
  tracker.uncachedStateFrom blockIndex.length blockIndex

/-- The first block of the period before, null before the first period. -/
def previousPeriod (tracker : CachedBIP9ActivationStateTracker) (blockIndex : BlockPointer) :
    Option BlockPointer :=
  if blockIndex = [] then none else some (tracker.predecesor blockIndex)

theorem predecesor_suffix (blockIndex : BlockPointer) :
    tracker.predecesor blockIndex <:+ blockIndex := by
  unfold predecesor
  split
  · exact nil_suffix
  · exact getAncestor_suffix _ _

theorem length_predecesor_lt (hper : 0 < tracker.bip.nPeriod) (h : blockIndex ≠ []) :
    (tracker.predecesor blockIndex).length < blockIndex.length := by
  cases blockIndex with
  | nil => exact absurd rfl h
  | cons block prev =>
    unfold predecesor getAncestor
    dsimp only
    split
    · exact Nat.succ_pos _
    · rw [length_drop, length_cons]
      omega

theorem uncachedStateFrom_eq (hper : 0 < tracker.bip.nPeriod) (h : blockIndex.length ≤ fuel) :
    tracker.uncachedStateFrom fuel blockIndex = tracker.periodState blockIndex := by
  induction fuel using Nat.strong_induction_on generalizing blockIndex with
  | _ fuel ih =>
    cases fuel with
    | zero =>
      rw [length_eq_zero_iff.mp (Nat.le_zero.mp h)]
      rfl
    | succ fuel =>
      by_cases hnull : blockIndex = []
      · subst hnull
        simp [uncachedStateFrom, periodState]
      · have hlt := length_predecesor_lt hper hnull
        obtain ⟨length, hlen⟩ : ∃ length, blockIndex.length = length + 1 :=
          Nat.exists_eq_succ_of_ne_zero (by omega)
        rw [periodState, hlen, uncachedStateFrom, uncachedStateFrom, if_neg hnull, if_neg hnull,
          ih fuel (Nat.lt_succ_self _) (by omega), ih length (by omega) (by omega)]

@[simp]
theorem periodState_nil : tracker.periodState [] = .DEFINED := rfl

theorem periodState_eq (hper : 0 < tracker.bip.nPeriod) (h : blockIndex ≠ []) :
    tracker.periodState blockIndex = tracker.computeStateTransition
      (tracker.periodState (tracker.predecesor blockIndex)) blockIndex := by
  have hlt := length_predecesor_lt hper h
  rw [← uncachedStateFrom_eq hper (Nat.le_succ blockIndex.length), uncachedStateFrom, if_neg h,
    uncachedStateFrom_eq hper (by omega)]

/-- Before the start time no other state than the first was reached. -/
theorem periodState_of_medianTime (tree : MedianTimeTree) (hper : 0 < tracker.bip.nPeriod)
    (hv : tracker.bipIsViable = true) (hmem : blockIndex ∈ tree.blocks)
    (htime : blockIndex.getMedianTimePast < tracker.bip.nStartTime) :
    tracker.periodState blockIndex = .DEFINED := by
  induction hlen : blockIndex.length using Nat.strong_induction_on generalizing blockIndex with
  | _ length ih =>
    by_cases hnull : blockIndex = []
    · rw [hnull, periodState_nil]
    · have hsuf := tracker.predecesor_suffix blockIndex
      have hprev : tracker.periodState (tracker.predecesor blockIndex) = .DEFINED := by
        by_cases hfst : tracker.predecesor blockIndex = []
        · rw [hfst, periodState_nil]
        · have hle := tree.medianTime_le hmem hsuf hfst
          exact ih _ (hlen ▸ length_predecesor_lt hper hnull)
            (mem_of_suffix tree.pprev_mem hmem hsuf) (by omega) rfl
      simp only [bipIsViable, Bool.not_eq_true', Bool.or_eq_false_iff, decide_eq_false_iff_not]
        at hv
      rw [periodState_eq hper hnull, hprev, computeStateTransition, if_neg (by omega),
        if_neg (by omega)]

/-! ### The walk back -/

/-- A list of blocks, oldest first, each the first block of the period after the one before. -/
def Periods (tracker : CachedBIP9ActivationStateTracker) (blocks : List BlockPointer) : Prop :=
  blocks.IsChain fun previous blockIndex => tracker.previousPeriod blockIndex = some previous

theorem previousPeriod_of_ne (h : blockIndex ≠ []) :
    tracker.previousPeriod blockIndex = some (tracker.predecesor blockIndex) :=
  if_neg h

/-- What a walk back from the first of some blocks finds. -/
structure WalksBack (tracker : CachedBIP9ActivationStateTracker) (blocks : List BlockPointer)
    (found : List BlockPointer × ThresholdConditionCache) : Prop where
  periods : tracker.Periods found.1
  suffix : blocks <:+ found.1
  sound : Sound tracker.periodState found.2
  /-- The oldest block has an entry, or the walk began at null. -/
  entry : found.1.headD [] ∈ found.2 ∨ found.1.headD [] = []

/-- One round of the walk: it stops at an entry or at null, it stops one block back, where there is
an entry from then on, or it goes on there. -/
theorem walk_cases (fuel : Nat) (blockIndex : BlockPointer) (newer : List BlockPointer)
    (cache : ThresholdConditionCache) :
    ∃ outcome, tracker.getStartingBlocksForPeriodsPreceedingBlockIndex (fuel + 1)
        (blockIndex :: newer) cache = outcome ∧
      (((blockIndex = [] ∨ blockIndex ∈ cache) ∧
        outcome = some (blockIndex :: newer, cache)) ∨
      (blockIndex ≠ [] ∧ blockIndex ∉ cache ∧
        ((tracker.predecesor blockIndex ∈ cache ∧
          outcome = some (tracker.predecesor blockIndex :: blockIndex :: newer, cache)) ∨
        ((tracker.predecesor blockIndex = [] ∨
            (tracker.predecesor blockIndex).getMedianTimePast < tracker.bip.nStartTime) ∧
          outcome = some (tracker.predecesor blockIndex :: blockIndex :: newer,
            cache.insert (tracker.predecesor blockIndex) .DEFINED)) ∨
        outcome = tracker.getStartingBlocksForPeriodsPreceedingBlockIndex fuel
          (tracker.predecesor blockIndex :: blockIndex :: newer) cache))) := by
  refine ⟨_, rfl, ?_⟩
  rw [getStartingBlocksForPeriodsPreceedingBlockIndex, headD_cons]
  by_cases hcur : blockIndex ≠ [] ∧ blockIndex ∉ cache
  · refine .inr ⟨hcur.1, hcur.2, ?_⟩
    rw [if_pos hcur]
    by_cases hnull : tracker.predecesor blockIndex = []
    · rw [if_pos hnull, hnull]
      exact .inr (.inl ⟨.inl rfl, rfl⟩)
    · rw [if_neg hnull]
      by_cases htime : (tracker.predecesor blockIndex).getMedianTimePast < tracker.bip.nStartTime
      · rw [if_pos htime]
        by_cases hc : tracker.predecesor blockIndex ∈ cache
        · exact .inl ⟨hc, if_pos hc⟩
        · exact .inr (.inl ⟨.inr htime, if_neg hc⟩)
      · exact .inr (.inr (if_neg htime))
  · refine .inl ⟨?_, if_neg hcur⟩
    by_contra hn
    push Not at hn
    exact hcur hn

section

variable (tree : MedianTimeTree) (hper : 0 < tracker.bip.nPeriod)

include hper

/-- The walk ends, whatever the cache holds. -/
theorem exists_walk (hfuel : blockIndex.length < fuel) (newer : List BlockPointer) :
    ∃ found, tracker.getStartingBlocksForPeriodsPreceedingBlockIndex fuel (blockIndex :: newer)
      cache = some found := by
  induction fuel generalizing blockIndex newer with
  | zero => exact absurd hfuel (Nat.not_lt_zero _)
  | succ fuel ih =>
    obtain ⟨outcome, hwalk, ⟨-, rfl⟩ | ⟨hne, -, ⟨-, rfl⟩ | ⟨-, rfl⟩ | rfl⟩⟩ :=
      tracker.walk_cases fuel blockIndex newer cache
    · exact ⟨_, hwalk⟩
    · exact ⟨_, hwalk⟩
    · exact ⟨_, hwalk⟩
    · have hlt := length_predecesor_lt hper hne
      rw [hwalk]
      exact ih (by omega) _

variable (hv : tracker.bipIsViable = true)

include hv

theorem walksBack (hmem : blockIndex ∈ tree.blocks) (hs : Sound tracker.periodState cache)
    (hp : tracker.Periods (blockIndex :: newer))
    (h : tracker.getStartingBlocksForPeriodsPreceedingBlockIndex fuel (blockIndex :: newer)
      cache = some found) : tracker.WalksBack (blockIndex :: newer) found := by
  induction fuel generalizing blockIndex newer with
  | zero => cases h
  | succ fuel ih =>
    have hmemPrevious := mem_of_suffix tree.pprev_mem hmem
      (tracker.predecesor_suffix blockIndex)
    have hsuf : blockIndex :: newer <:+ tracker.predecesor blockIndex :: blockIndex :: newer :=
      suffix_cons _ _
    have hl : blockIndex ≠ [] →
        tracker.Periods (tracker.predecesor blockIndex :: blockIndex :: newer) :=
      fun hne => .cons_cons (previousPeriod_of_ne hne) hp
    obtain ⟨outcome, hwalk, hc⟩ := tracker.walk_cases fuel blockIndex newer cache
    obtain rfl := hwalk.symm.trans h
    obtain ⟨hstop, heq⟩ | ⟨hne, -, ⟨hca, heq⟩ | ⟨he, heq⟩ | heq⟩ := hc
    · cases heq
      exact ⟨hp, suffix_refl _, hs, hstop.symm⟩
    · cases heq
      exact ⟨hl hne, hsuf, hs, .inl hca⟩
    · cases heq
      have hst : tracker.periodState (tracker.predecesor blockIndex) = .DEFINED := by
        obtain hnull | htime := he
        · rw [hnull, periodState_nil]
        · exact periodState_of_medianTime tree hper hv hmemPrevious htime
      exact ⟨hl hne, hsuf, hst ▸ hs.insert _, .inl (Finmap.mem_insert.mpr (.inl rfl))⟩
    · have hback := ih hmemPrevious (hl hne) heq.symm
      exact ⟨hback.periods, hsuf.trans hback.suffix, hback.sound, hback.entry⟩

omit hper hv in
/-- From a settled block, the state where the walk ends is that of the block. -/
theorem walk_state (hset : blockIndex = [] ∨
      Settled tracker.previousPeriod tracker.periodState cache blockIndex)
    (h : tracker.getStartingBlocksForPeriodsPreceedingBlockIndex fuel (blockIndex :: newer)
      cache = some found) :
    tracker.periodState (found.1.headD []) = tracker.periodState blockIndex := by
  induction fuel generalizing blockIndex newer with
  | zero => cases h
  | succ fuel ih =>
    obtain ⟨outcome, hwalk, ho⟩ := tracker.walk_cases fuel blockIndex newer cache
    obtain rfl := hwalk.symm.trans h
    obtain ⟨-, heq⟩ | ⟨hne, hnot, hc⟩ := ho
    · cases heq
      rfl
    · obtain ⟨hst, hsettledPrevious⟩ :=
        (hset.resolve_left hne).of_notMem hnot (previousPeriod_of_ne hne)
      rw [hst]
      obtain ⟨-, heq⟩ | ⟨-, heq⟩ | heq := hc
      · cases heq
        rfl
      · cases heq
        rfl
      · exact ih (.inr hsettledPrevious) heq.symm

/-! ### Updates -/

theorem cacheChanges_spec {blocks : List BlockPointer} {previous : BlockPointer}
    (hs : Sound tracker.periodState cache)
    (hset : Settled tracker.previousPeriod tracker.periodState cache previous)
    (hpe : tracker.Periods (previous :: blocks)) :
    Sound tracker.periodState
        (tracker.cacheChanges cache (tracker.periodState previous) blocks) ∧
      Settled tracker.previousPeriod tracker.periodState
        (tracker.cacheChanges cache (tracker.periodState previous) blocks)
        (blocks.getLastD previous) := by
  induction blocks generalizing previous cache with
  | nil => exact ⟨hs, hset⟩
  | cons blockIndex rest ih =>
    obtain ⟨hprev, hr⟩ := isChain_cons_cons.mp hpe
    have hne : blockIndex ≠ [] := by
      rintro rfl
      cases hprev
    have hp : tracker.predecesor blockIndex = previous := by
      rw [previousPeriod_of_ne hne] at hprev
      exact Option.some.inj hprev
    have hst : tracker.computeStateTransition (tracker.periodState previous) blockIndex =
        tracker.periodState blockIndex := by
      rw [periodState_eq hper hne, hp]
    unfold cacheChanges
    rw [hv, Bool.not_true, if_neg Bool.false_ne_true, hst, getLastD_cons]
    dsimp only
    split
    · exact ih (hs.insert _) (.entry (Finmap.mem_insert.mpr (.inl rfl))) hr
    · next hsa =>
      exact ih hs (.back hprev (not_not.mp hsa).symm hset) hr

omit hper hv in
theorem stateAt_spec (hs : Sound tracker.periodState cache)
    (he : blockIndex ∈ cache ∨ blockIndex = []) :
    (stateAt cache blockIndex).1 = tracker.periodState blockIndex ∧
      Sound tracker.periodState (stateAt cache blockIndex).2 ∧
      blockIndex ∈ (stateAt cache blockIndex).2 := by
  unfold stateAt
  by_cases hmem : blockIndex ∈ cache
  · rw [hs.lookup hmem]
    exact ⟨rfl, hs, hmem⟩
  · obtain rfl := he.resolve_left hmem
    rw [Finmap.lookup_eq_none.mpr hmem]
    exact ⟨rfl, hs.insert [], Finmap.mem_insert.mpr (.inl rfl)⟩

end

theorem getMostRecentStartingBlock_suffix (blockIndex : BlockPointer) :
    tracker.getMostRecentStartingBlock blockIndex <:+ blockIndex := by
  unfold getMostRecentStartingBlock
  split
  · exact nil_suffix
  · exact getAncestor_suffix _ _

/-- The states in a cache are right, where they matter. -/
def Valid (tracker : CachedBIP9ActivationStateTracker) (cache : ThresholdConditionCache) :
    Prop :=
  tracker.bipIsViable = true → Sound tracker.periodState cache

/-- The state at a block can be read off the cache. -/
def Ready (tracker : CachedBIP9ActivationStateTracker) (cache : ThresholdConditionCache)
    (blockIndex : BlockPointer) : Prop :=
  tracker.bip.nStartTime ≠ BIP9Deployment.ALWAYS_ACTIVE → tracker.bipIsViable = true →
    tracker.getMostRecentStartingBlock blockIndex = [] ∨
      Settled tracker.previousPeriod tracker.periodState cache
        (tracker.getMostRecentStartingBlock blockIndex)

section

variable (tree : MedianTimeTree) (hper : 0 < tracker.bip.nPeriod)
  (hmem : blockIndex ∈ tree.blocks) (hval : tracker.Valid cache)

include hper hmem hval

/-- The walk from the first block of the period ends, and walks back if the deployment is viable. -/
theorem exists_walk_from_start : ∃ found, tracker.getStartingBlocksForPeriodsPreceedingBlockIndex
        ((tracker.getMostRecentStartingBlock blockIndex).length + 1)
        [tracker.getMostRecentStartingBlock blockIndex] cache = some found ∧
      (tracker.bipIsViable = true →
        tracker.WalksBack [tracker.getMostRecentStartingBlock blockIndex] found) := by
  have hst := mem_of_suffix tree.pprev_mem hmem
    (tracker.getMostRecentStartingBlock_suffix blockIndex)
  obtain ⟨found, hwalk⟩ := exists_walk hper
    (Nat.lt_succ_self (tracker.getMostRecentStartingBlock blockIndex).length) []
  exact ⟨found, hwalk, fun hv =>
    walksBack tree hper hv hst (hval hv) (.singleton _) hwalk⟩

theorem exists_update :
    ∃ updated, tracker.update cache blockIndex = some updated ∧ tracker.Valid updated ∧
      tracker.Ready updated blockIndex := by
  unfold update
  by_cases ha : tracker.bip.nStartTime = BIP9Deployment.ALWAYS_ACTIVE
  · rw [if_pos ha]
    exact ⟨cache, rfl, hval, fun hnot => absurd ha hnot⟩
  rw [if_neg ha]
  dsimp only
  obtain ⟨⟨blocks, found⟩, hwalk, hback⟩ := exists_walk_from_start tree hper hmem hval
  rw [hwalk]
  cases blocks with
  | nil =>
    have hnot : tracker.bipIsViable ≠ true := fun hv =>
      cons_ne_nil _ _ (suffix_nil.mp (hback hv).suffix)
    exact ⟨found, rfl, fun hv => absurd hv hnot, fun _ hv => absurd hv hnot⟩
  | cons oldest newer =>
    dsimp only
    by_cases hnull : newer.getLastD [] = []
    · rw [if_pos hnull]
      refine ⟨found, rfl, fun hv => (hback hv).sound, fun _ hv => ?_⟩
      obtain ⟨before, hpre⟩ := (hback hv).suffix
      cases before with
      | nil =>
        -- the block itself has an entry
        obtain ⟨ho, -⟩ := List.cons.inj hpre
        rw [ho]
        exact (hback hv).entry.symm.imp id .entry
      | cons first before =>
        rw [cons_append] at hpre
        obtain ⟨-, hn⟩ := List.cons.inj hpre
        rw [← hn, getLastD_concat] at hnull
        exact .inl hnull
    · rw [if_neg hnull]
      have hc : tracker.bipIsViable = true →
          Sound tracker.periodState (tracker.cacheChanges (stateAt found oldest).2
            (stateAt found oldest).1 newer) ∧
          Settled tracker.previousPeriod tracker.periodState (tracker.cacheChanges
            (stateAt found oldest).2 (stateAt found oldest).1 newer) (newer.getLastD oldest) := by
        intro hv
        obtain ⟨hst, hs, he⟩ := stateAt_spec (hback hv).sound (hback hv).entry
        have hst : (stateAt found oldest).1 = tracker.periodState oldest := hst
        rw [hst]
        exact cacheChanges_spec hper hv hs (.entry he) (hback hv).periods
      refine ⟨_, rfl, fun hv => (hc hv).1, fun _ hv => .inr ?_⟩
      have hset := (hc hv).2
      obtain ⟨before, hpre⟩ := (hback hv).suffix
      cases before with
      | nil =>
        obtain ⟨-, rfl⟩ := List.cons.inj hpre
        exact absurd rfl hnull
      | cons first before =>
        rw [cons_append] at hpre
        obtain ⟨-, rfl⟩ := List.cons.inj hpre
        rw [getLastD_concat] at hset
        exact hset

theorem exists_getLastCachedState :
    ∃ state after, tracker.getLastCachedStatePriorToBlockIndex cache blockIndex =
        some (state, after) ∧ tracker.Valid after ∧
      (tracker.Ready cache blockIndex → state = tracker.uncachedState blockIndex) := by
  unfold getLastCachedStatePriorToBlockIndex uncachedState
  by_cases ha : tracker.bip.nStartTime = BIP9Deployment.ALWAYS_ACTIVE
  · rw [if_pos ha, if_pos ha]
    exact ⟨_, _, rfl, hval, fun _ => rfl⟩
  rw [if_neg ha, if_neg ha]
  by_cases hv : tracker.bipIsViable = true
  · rw [hv, Bool.not_true, if_neg Bool.false_ne_true, if_neg Bool.false_ne_true]
    by_cases hnull : blockIndex = []
    · rw [if_pos hnull, hnull]
      exact ⟨_, _, rfl, hval, fun _ => rfl⟩
    rw [if_neg hnull]
    dsimp only
    obtain ⟨⟨blocks, found⟩, hwalk, hback⟩ := exists_walk_from_start tree hper hmem hval
    have hback := hback hv
    obtain ⟨hst, hs, -⟩ := stateAt_spec hback.sound hback.entry
    rw [hwalk, map_some]
    refine ⟨_, _, rfl, fun _ => hs, fun hr => ?_⟩
    exact hst.trans (walk_state (hr ha hv) hwalk)
  · rw [Bool.not_eq_true] at hv
    rw [hv, Bool.not_false, if_pos rfl, if_pos rfl]
    exact ⟨_, _, rfl, hval, fun _ => rfl⟩

/-- Every call keeps the cache valid. -/
theorem exists_call {c : Call} (hc : c.blockIndex = blockIndex) :
    ∃ after, tracker.call cache c = some after ∧ tracker.Valid after := by
  cases c with
  | update shallowBlockIndex =>
    obtain rfl := hc
    obtain ⟨updated, hupd, ha, -⟩ := exists_update tree hper hmem hval
    exact ⟨updated, hupd, ha⟩
  | getLastCachedStatePriorToBlockIndex shallowBlockIndex =>
    obtain rfl := hc
    obtain ⟨state, after, hget, ha, -⟩ := exists_getLastCachedState tree hper hmem hval
    exact ⟨after, congrArg (Option.map Prod.snd) hget, ha⟩

end

/-! ### Descendants -/

theorem computeStateTransition_final {state : ThresholdState}
    (h : state = .ACTIVE ∨ state = .FAILED) (blockIndex : BlockPointer) :
    tracker.computeStateTransition state blockIndex = state := by
  obtain rfl | rfl := h
  · rfl
  · rfl

section

variable (hper : 0 < tracker.bip.nPeriod)

include hper

/-- The period of a block is that of its parent, or it is the one after that and starts with the
block. -/
theorem getMostRecentStartingBlock_cons {block : CBlockIndex} {prev : BlockPointer}
    (hhts : BlockPointer.HeightsOK (block :: prev)) :
    tracker.getMostRecentStartingBlock (block :: prev) = tracker.getMostRecentStartingBlock prev ∨
      tracker.getMostRecentStartingBlock (block :: prev) = block :: prev ∧
        tracker.predecesor (block :: prev) = tracker.getMostRecentStartingBlock prev := by
  have hht := hhts.1
  cases prev with
  | nil =>
    refine .inr ⟨?_, ?_⟩
    · simp [getMostRecentStartingBlock, getAncestor, hht]
    · simp [getMostRecentStartingBlock, predecesor, getAncestor, hht, hper]
  | cons parent rest =>
    have hpar := hhts.2.1
    rw [length_cons, Nat.cast_succ] at hht
    simp only [getMostRecentStartingBlock, predecesor, hht, hpar,
      Int.tmod_eq_emod_of_nonneg (Int.natCast_nonneg rest.length),
      Int.tmod_eq_emod_of_nonneg (Int.add_nonneg (Int.natCast_nonneg rest.length) zero_le_one)]
    have hs := Int.mul_ediv_add_emod (rest.length + 1 : Int) tracker.bip.nPeriod
    have hq := Int.mul_nonneg hper.le
      (Int.ediv_nonneg (by omega : 0 ≤ (rest.length + 1 : Int)) hper.le)
    have hlow := Int.emod_nonneg (rest.length + 1 : Int) hper.ne'
    have hhigh := Int.emod_lt_of_pos (rest.length + 1 : Int) hper
    by_cases hfst : (rest.length + 1 : Int) % tracker.bip.nPeriod = 0
    · have hmod : (rest.length : Int) % tracker.bip.nPeriod = tracker.bip.nPeriod - 1 :=
        (@Int.ediv_emod_unique _ _ _ ((rest.length + 1) / tracker.bip.nPeriod - 1) hper |>.mpr
          ⟨by rw [mul_sub_one]; omega, by omega, by omega⟩).2
      have hback : (rest.length : Int) - (tracker.bip.nPeriod - 1) =
          rest.length + 1 - tracker.bip.nPeriod := by omega
      have hle := Int.le_of_dvd (by omega) (Int.dvd_of_emod_eq_zero hfst)
      refine .inr ⟨?_, ?_⟩
      · rw [hfst, sub_zero, ← hht]
        exact getAncestor_self _ _ (by omega)
      · rw [hmod, hback]
        exact hhts.getAncestor_cons (by omega) (by rw [length_cons]; omega)
    · have hmod : (rest.length : Int) % tracker.bip.nPeriod =
          (rest.length + 1 : Int) % tracker.bip.nPeriod - 1 :=
        (@Int.ediv_emod_unique _ _ _ ((rest.length + 1) / tracker.bip.nPeriod) hper |>.mpr
          ⟨by omega, by omega, by omega⟩).2
      have hback : (rest.length : Int) - ((rest.length + 1 : Int) % tracker.bip.nPeriod - 1) =
          rest.length + 1 - (rest.length + 1 : Int) % tracker.bip.nPeriod := by omega
      rw [hmod, hback]
      exact .inl (hhts.getAncestor_cons (by omega) (by rw [length_cons]; omega))

theorem uncachedState_cons {block : CBlockIndex} {prev : BlockPointer}
    (hhts : BlockPointer.HeightsOK (block :: prev))
    (hf : tracker.uncachedState prev = .ACTIVE ∨ tracker.uncachedState prev = .FAILED) :
    tracker.uncachedState (block :: prev) = tracker.uncachedState prev := by
  unfold uncachedState at hf ⊢
  split
  · rfl
  · next ha =>
    rw [if_neg ha] at hf
    split
    · rfl
    · next hv =>
      rw [if_neg hv] at hf
      obtain hs | ⟨hself, hprev⟩ := getMostRecentStartingBlock_cons hper hhts
      · rw [hs]
      · rw [hself]
        show tracker.periodState (block :: prev) =
          tracker.periodState (tracker.getMostRecentStartingBlock prev)
        rw [periodState_eq hper (cons_ne_nil _ _), hprev]
        exact computeStateTransition_final hf _

theorem uncachedState_final {descendant : BlockPointer} (hsuf : blockIndex <:+ descendant)
    (hhts : descendant.HeightsOK) (hf : tracker.uncachedState blockIndex = .ACTIVE ∨
      tracker.uncachedState blockIndex = .FAILED) :
    tracker.uncachedState descendant = tracker.uncachedState blockIndex := by
  induction descendant with
  | nil => rw [suffix_nil.mp hsuf]
  | cons block prev ih =>
    obtain rfl | hprev := suffix_cons_iff.mp hsuf
    · rfl
    · have hst := ih hprev hhts.2
      rw [uncachedState_cons hper hhts (hst ▸ hf), hst]

end

/-- After any calls, `update` and then reading the state at a block give the state that the
deployment defines; and where that is final it is the state of all descendants. -/
theorem getLastCachedState_after_update (tree : MedianTimeTree) (hper : 0 < tracker.bip.nPeriod)
    (calls : List Call) (hcalls : ∀ c ∈ calls, c.blockIndex ∈ tree.blocks)
    {blockIndex : BlockPointer} (hmem : blockIndex ∈ tree.blocks) :
    ∃ before updated after, runFrom tracker.call ∅ calls = some before ∧
      tracker.update before blockIndex = some updated ∧
      tracker.getLastCachedStatePriorToBlockIndex updated blockIndex =
        some (tracker.uncachedState blockIndex, after) ∧
      ∀ descendant ∈ tree.blocks, blockIndex <:+ descendant →
        tracker.uncachedState blockIndex = .ACTIVE ∨ tracker.uncachedState blockIndex = .FAILED →
          tracker.uncachedState descendant = tracker.uncachedState blockIndex := by
  obtain ⟨before, hrun, hval⟩ := exists_runFrom_of_mem (I := tracker.Valid)
    (fun c hc st hst => exists_call tree hper (hcalls c hc) hst rfl)
    (fun _ => sound_empty tracker.periodState)
  obtain ⟨updated, hupd, hupdatedValid, hr⟩ := exists_update tree hper hmem hval
  obtain ⟨state, after, hget, -, hs⟩ :=
    exists_getLastCachedState tree hper hmem hupdatedValid
  rw [hs hr] at hget
  refine ⟨before, updated, after, hrun, hupd, hget, ?_⟩
  intro descendant hd hsuf hf
  exact uncachedState_final hper hsuf (tree.heights descendant hd) hf

/-! ### A deployment that is locked in -/

/-- Three blocks, the last one in front. -/
def signallingBlocks : BlockPointer :=
  [{ phashBlock := 3, nHeight := 2, nTime := 3 }, { phashBlock := 2, nHeight := 1, nTime := 2 },
    { phashBlock := 1, nHeight := 0, nTime := 1 }]

def signallingTree : MedianTimeTree where
  blocks := { path | path ∈ signallingBlocks.tails }
  pprev_mem block prev h := by
    rw [Set.mem_ofPred_eq, List.mem_tails] at h ⊢
    exact (List.suffix_cons block prev).trans h
  heights := by
    have hall : ∀ path ∈ signallingBlocks.tails, BlockPointer.HeightsOK path := by decide
    exact hall
  medianTime block prev h hne := by
    have hall : ∀ path ∈ signallingBlocks.tails, path.tail ≠ [] →
        BlockPointer.getMedianTimePast path.tail ≤ BlockPointer.getMedianTimePast path := by decide
    exact hall _ h hne

/-- Every block is a period, and one signal is enough. -/
def signallingTracker : CachedBIP9ActivationStateTracker where
  bip := { deploymentName := "", bit := 0, nStartTime := 1, nTimeout := 9, nPeriod := 1,
           threshold := 1 }
  nVersion _ := 0x20000001

theorem getLastCachedState_after_update_active :
    ∃ before updated after,
      runFrom signallingTracker.call ∅ [.update signallingBlocks.tail] = some before ∧
      signallingTracker.update before signallingBlocks = some updated ∧
      signallingTracker.getLastCachedStatePriorToBlockIndex updated signallingBlocks =
        some (.ACTIVE, after) := by
  have hper : 0 < signallingTracker.bip.nPeriod := by decide
  have hmem : signallingBlocks ∈ signallingTree.blocks := (mem_tails _ _).mpr (suffix_refl _)
  have hca : ∀ c ∈ [Call.update signallingBlocks.tail],
      c.blockIndex ∈ signallingTree.blocks := by
    intro c hc
    rw [mem_singleton.mp hc]
    exact (mem_tails _ _).mpr (tail_suffix signallingBlocks)
  obtain ⟨before, updated, after, hrun, hupd, hget, -⟩ :=
    getLastCachedState_after_update signallingTree hper _ hca hmem
  exact ⟨before, updated, after, hrun, hupd, hget⟩

end CachedBIP9ActivationStateTracker

end Divi
