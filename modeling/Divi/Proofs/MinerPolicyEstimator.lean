/-
Estimates do not increase with the number of blocks one is willing to wait.

The samples are sorted when an estimate is asked for, and the sorted list is kept until a block
brings new ones.  So it is either empty or the sorted list of all samples, and an estimate depends
on the history alone: it is the sample at a place which moves on from bucket to bucket.
-/
import Divi.MinerPolicyEstimator
import Mathlib.Data.List.GetD

namespace Divi

open List

namespace CMinerPolicyEstimator

variable {Priority : Type} {params : EstimatorParameters Priority}
  {est : CMinerPolicyEstimator Priority} {history : List (CBlockAverage Priority)}
  {bucket later size : Nat}

theorem sampleIndex_mono (hle : bucket ≤ later) (hl : later < history.length) :
    sampleIndex history bucket ≤ sampleIndex history later := by
  rcases hle.eq_or_lt with rfl | hlt
  · exact le_refl _
  · unfold sampleIndex
    generalize hs : history.map (fun average => average.feeSamples.length) = sizes
    have hb : bucket < sizes.length := by
      rw [← hs, length_map]
      omega
    -- the later place comes after the whole bucket
    have hw : (sizes.take bucket).sum + sizes.getD bucket 0 ≤ (sizes.take later).sum := by
      rw [getD_eq_getElem _ _ hb, ← sum_take_succ]
      exact monotone_sum_take sizes hlt
    dsimp only
    omega

/-- What is estimated for a bucket. -/
def estimate (params : EstimatorParameters Priority) (history : List (CBlockAverage Priority))
    (bucket : Nat) : CFeeRate :=
  let sorted := sortSamples params history
  if sorted.length < 11 then ⟨0⟩
  else sorted.getD (min (sampleIndex history bucket) (sorted.length - 1)) ⟨0⟩

theorem estimate_antitone (hle : bucket ≤ later) (hl : later < history.length) :
    (estimate params history later).nSatoshisPerK ≤
      (estimate params history bucket).nSatoshisPerK := by
  have hp := sampleIndex_mono hle hl
  have hsort := params.sorting.sorted (history.flatMap CBlockAverage.feeSamples)
  rw [← sortSamples] at hsort
  unfold estimate
  generalize sortSamples params history = sorted at hsort
  dsimp only
  split
  · exact le_refl _
  · rw [getD_eq_getElem _ _ (by omega), getD_eq_getElem _ _ (by omega)]
    have hidx : min (sampleIndex history bucket) (sorted.length - 1) ≤
        min (sampleIndex history later) (sorted.length - 1) := by omega
    rcases hidx.lt_or_eq with hlt | heq
    · exact Int.neg_le_neg_iff.mp (pairwise_iff_getElem.mp hsort _ _ _ _ hlt)
    · simp [heq]

theorem length_seenTxConfirm (feeRate minRelayFee : CFeeRate) (dPriority : Priority)
    (nBlocksAgo : Nat) :
    (est.seenTxConfirm params feeRate minRelayFee dPriority nBlocksAgo).history.length =
      est.history.length := by
  unfold seenTxConfirm
  dsimp only
  split
  · exact length_modify ..
  · split
    · exact length_modify ..
    · rfl

/-- There are as many buckets as there were, and the samples are sorted or have yet to be. -/
structure Sound (params : EstimatorParameters Priority) (size : Nat)
    (est : CMinerPolicyEstimator Priority) : Prop where
  size : est.history.length = size
  sorted : est.sortedFeeSamples = [] ∨ est.sortedFeeSamples = sortSamples params est.history

namespace Sound

section

variable (h : Sound params size est)

include h

theorem estimateFee_eq {n : Int} (hpos : 1 ≤ n) (hn : n ≤ size) :
    est.estimateFee params n = (estimate params est.history (n - 1).toNat,
      { est with sortedFeeSamples := sortSamples params est.history }) := by
  have hr : ¬ (n - 1 < 0 ∨ n - 1 ≥ est.history.length) := by
    rw [h.size]
    omega
  have hsort : (if est.sortedFeeSamples.length = 0 then sortSamples params est.history
      else est.sortedFeeSamples) = sortSamples params est.history := by
    rcases h.sorted with he | hsort
    · rw [he]
      rfl
    · rw [hsort]
      exact ite_self _
  simp only [estimateFee, if_neg hr, hsort]
  rfl

theorem estimateFee_snd (n : Int) : Sound params size (est.estimateFee params n).2 ∧
    (est.estimateFee params n).2.history = est.history := by
  by_cases hn : 1 ≤ n ∧ n ≤ size
  · rw [h.estimateFee_eq hn.1 hn.2]
    exact ⟨⟨h.size, .inr rfl⟩, rfl⟩
  · have hr : n - 1 < 0 ∨ n - 1 ≥ est.history.length := by
      rw [h.size]
      omega
    rw [estimateFee, if_pos hr]
    exact ⟨h, rfl⟩

theorem seenBlock (entries : List (CTxMemPoolEntry Priority)) (nBlockHeight : Int)
    (minRelayFee : CFeeRate) (shuffle : Shuffle Priority) :
    Sound params size (est.seenBlock params entries nBlockHeight minRelayFee shuffle) := by
  unfold CMinerPolicyEstimator.seenBlock
  split
  · exact h
  · refine List.foldlRecOn _ _ ⟨?_, .inl rfl⟩ ?_
    · let P := fun est : CMinerPolicyEstimator Priority => est.history.length = size
      refine List.foldlRecOn (motive := P) _ _ h.size fun est hest bucket _ => ?_
      refine List.foldlRecOn (motive := P) _ _ hest fun est hest entry _ => ?_
      show _ = size
      rw [length_seenTxConfirm, hest]
    · intro est hest bucket _
      split
      · exact (hest.estimateFee_snd _).1
      · exact hest

theorem run (calls : List (Call Priority)) : Sound params size (est.run params calls) := by
  refine List.foldlRecOn _ _ h ?_
  intro est hest call _
  cases call with
  | seenBlock entries nBlockHeight minRelayFee shuffle =>
    exact hest.seenBlock entries nBlockHeight minRelayFee shuffle
  | estimateFee n => exact (hest.estimateFee_snd n).1

theorem history_run_estimateFee (asked : List Int) :
    (est.run params (asked.map .estimateFee)).history = est.history := by
  induction asked generalizing est with
  | nil => rfl
  | cons n asked ih =>
    obtain ⟨hnext, hh⟩ := h.estimateFee_snd n
    exact (ih hnext).trans hh

end

theorem ofEntries : Sound params size (ofEntries size) where
  size := length_replicate
  sorted := .inl rfl

end Sound

/-- After any calls, waiting for more blocks is not estimated to cost more, whatever else is asked
for before the one estimate or the other. -/
theorem estimateFee_antitone (params : EstimatorParameters Priority) (size : Nat)
    (calls : List (Call Priority)) (asked : List Int) {n n' : Int} (hpos : 1 ≤ n) (hle : n ≤ n')
    (hsize : n' ≤ size) :
    let est := (ofEntries size).run params calls
    let est' := est.run params (asked.map .estimateFee)
    (est'.estimateFee params n').1.nSatoshisPerK ≤
        (est.estimateFee params n).1.nSatoshisPerK ∧
      (est.estimateFee params n').1.nSatoshisPerK ≤
        (est'.estimateFee params n).1.nSatoshisPerK := by
  intro est est'
  have hest : Sound params size est := Sound.ofEntries.run calls
  have hest' : Sound params size est' := hest.run _
  have hh : est'.history = est.history := hest.history_run_estimateFee asked
  have ha : (estimate params est.history (n' - 1).toNat).nSatoshisPerK ≤
      (estimate params est.history (n - 1).toNat).nSatoshisPerK := by
    refine estimate_antitone (by omega) ?_
    rw [hest.size]
    omega
  rw [hest.estimateFee_eq hpos (by omega), hest.estimateFee_eq (by omega) hsize,
    hest'.estimateFee_eq hpos (by omega), hest'.estimateFee_eq (by omega) hsize, hh]
  exact ⟨ha, ha⟩

/-- No transaction is free, and equal fee rates stay in their order. -/
def plainParameters : EstimatorParameters Unit where
  sorting := SortBy.insertion _
  allowFree := fun _ => false
  areSane := fun _ => true

/-- A block of height 5, with six transactions that waited for one block and six that waited for
two and paid less. -/
def twelveSamples : Call Unit :=
  .seenBlock ((List.range 6).flatMap fun i => [⟨30000 + i, 1000, (), 4⟩, ⟨20000 + i, 1000, (), 3⟩])
    5 ⟨10000⟩ (fun _ l => l) fun _ _ => .refl _

theorem estimateFee_antitone_twelve :
    let est := (ofEntries 2).run plainParameters [twelveSamples]
    let est' := est.run plainParameters ([1].map .estimateFee)
    (est.estimateFee plainParameters 1).1 = ⟨30002⟩ ∧
      (est'.estimateFee plainParameters 2).1.nSatoshisPerK ≤
        (est.estimateFee plainParameters 1).1.nSatoshisPerK :=
  ⟨by decide +kernel, (estimateFee_antitone plainParameters 2 [twelveSamples] [1] (by decide)
    (by decide) (by decide)).1⟩

end CMinerPolicyEstimator

end Divi
