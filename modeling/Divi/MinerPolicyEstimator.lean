/-
The fees that confirmed transactions paid, and the estimate made from them.

Priorities are floating point numbers in the source.  Of them only the two tests of
`seenTxConfirm` are needed here.
-/
import Divi.Fees
import Divi.Lib.Sorting

namespace Divi

/-- `CFeeRate(nFeePaid, nSize)`, which divides numbers without sign. -/
def CFeeRate.ofFee (nFeePaid : Int) (nSize : Nat) : CFeeRate :=
  ⟨if nSize > 0 then ((nFeePaid * 1000) % 2 ^ 64 / nSize).bmod (2 ^ 64) else 0⟩

/-- The fee of a thousand bytes. -/
def CFeeRate.getFeePerK (feeRate : CFeeRate) : Int :=
  feeRate.getFee 1000

/-- What `seenBlock` reads of an entry of the pool: the priority is that at its height. -/
structure CTxMemPoolEntry (Priority : Type) where
  nFee : Int
  nTxSize : Nat
  dPriority : Priority
  nHeight : Nat
  deriving DecidableEq, Repr

/-- Both buffers have room for 100 samples, and the oldest make way for new ones. -/
structure CBlockAverage (Priority : Type) where
  feeSamples : List CFeeRate := []
  prioritySamples : List Priority := []
  deriving DecidableEq, Repr

namespace CBlockAverage

variable {Priority : Type} (average : CBlockAverage Priority)

/-- Keeps the last hundred fees. -/
def recordFee (feeRate : CFeeRate) : CBlockAverage Priority :=
  { average with feeSamples := (average.feeSamples ++ [feeRate]).rtake 100 }

/-- Keeps the last hundred priorities. -/
def recordPriority (priority : Priority) : CBlockAverage Priority :=
  { average with prioritySamples := (average.prioritySamples ++ [priority]).rtake 100 }

/-- A fee that is not negative nor out of all proportion. -/
def areSane (fee minRelayFee : CFeeRate) : Bool :=
  !(fee.nSatoshisPerK < 0) && !(fee.getFeePerK > minRelayFee.getFeePerK * 10000)

end CBlockAverage

/-- What shuffling makes of the entries of each bucket. -/
abbrev Shuffle (Priority : Type) :=
  Nat → List (CTxMemPoolEntry Priority) → List (CTxMemPoolEntry Priority)

/-- How fee rates are sorted, and the tests of priorities. -/
structure EstimatorParameters (Priority : Type) where
  /-- `std::sort` with `std::greater`. -/
  sorting : SortBy fun feeRate : CFeeRate => -feeRate.nSatoshisPerK
  allowFree : Priority → Bool
  areSane : Priority → Bool

/-- The samples by confirmation time. -/
structure CMinerPolicyEstimator (Priority : Type) where
  history : List (CBlockAverage Priority)
  sortedFeeSamples : List CFeeRate := []
  nBestSeenHeight : Int := 0
  deriving DecidableEq, Repr

namespace CMinerPolicyEstimator

variable {Priority : Type}

/-- An estimator without samples. -/
def ofEntries (nEntries : Nat) : CMinerPolicyEstimator Priority where
  history := List.replicate nEntries {}

variable (params : EstimatorParameters Priority) (est : CMinerPolicyEstimator Priority)

/-- All samples of a history, the highest first. -/
def sortSamples (history : List (CBlockAverage Priority)) : List CFeeRate :=
  params.sorting.sort (history.flatMap CBlockAverage.feeSamples)

/-- The place among the sorted samples that belongs to a bucket. -/
def sampleIndex (history : List (CBlockAverage Priority)) (nBlocksToConfirm : Nat) : Nat :=
  let sizes := history.map fun average => average.feeSamples.length
  let nBucketSize := sizes.getD nBlocksToConfirm 0
  let nPrevSize := (sizes.take nBlocksToConfirm).sum
  nPrevSize + nBucketSize / 2

/-- The estimate, and the estimator with its samples sorted. -/
def estimateFee (nBlocksToConfirm : Int) : CFeeRate × CMinerPolicyEstimator Priority :=
  let nBlocksToConfirm := nBlocksToConfirm - 1
  if nBlocksToConfirm < 0 ∨ nBlocksToConfirm ≥ est.history.length then
    (⟨0⟩, est)
  else
    let sorted := if est.sortedFeeSamples.length = 0 then sortSamples params est.history
      else est.sortedFeeSamples
    let index := min (sampleIndex est.history nBlocksToConfirm.toNat) (sorted.length - 1)
    (if sorted.length < 11 then ⟨0⟩ else sorted.getD index ⟨0⟩,
      { est with sortedFeeSamples := sorted })

/-- A fee or a priority is recorded if it alone explains that the transaction was confirmed. -/
def seenTxConfirm (feeRate minRelayFee : CFeeRate) (dPriority : Priority) (nBlocksAgo : Nat) :
    CMinerPolicyEstimator Priority :=
  let nBlocksTruncated := min nBlocksAgo (est.history.length - 1)
  let sufficientFee : Bool := feeRate.nSatoshisPerK > minRelayFee.nSatoshisPerK
  let sufficientPriority := params.allowFree dPriority
  if sufficientFee && !sufficientPriority && CBlockAverage.areSane feeRate minRelayFee then
    { est with history := est.history.modify nBlocksTruncated (·.recordFee feeRate) }
  else if sufficientPriority && !sufficientFee && params.areSane dPriority then
    { est with history := est.history.modify nBlocksTruncated (·.recordPriority dPriority) }
  else
    est

/-- The entries by the number of blocks it took, the last bucket having the rest. -/
def entriesByConfirmations (entries : List (CTxMemPoolEntry Priority)) (nBlockHeight : Int)
    (size : Nat) : List (List (CTxMemPoolEntry Priority)) :=
  entries.foldl (fun buckets entry =>
    let delta := (nBlockHeight - entry.nHeight).bmod (2 ^ 32)
    if delta ≤ 0 then
      buckets
    else
      let delta := if delta - 1 ≥ size then size else delta.toNat
      buckets.modify (delta - 1) (· ++ [entry])) (List.replicate size [])

/-- At most ten entries of each bucket are recorded, after it was shuffled if it has more. -/
def seenBlock (entries : List (CTxMemPoolEntry Priority)) (nBlockHeight : Int)
    (minRelayFee : CFeeRate) (shuffle : Shuffle Priority) : CMinerPolicyEstimator Priority :=
  if nBlockHeight ≤ est.nBestSeenHeight then
    est
  else
    let est := { est with nBestSeenHeight := nBlockHeight }
    let buckets := entriesByConfirmations entries nBlockHeight est.history.length
    let est := buckets.zipIdx.foldl (fun est bucket =>
      let e := if bucket.1.length > 10 then (shuffle bucket.2 bucket.1).take 10 else bucket.1
      e.foldl (fun est entry => est.seenTxConfirm params
        (CFeeRate.ofFee entry.nFee entry.nTxSize) minRelayFee entry.dPriority bucket.2) est) est
    let est := { est with sortedFeeSamples := [] }
    -- the estimates are logged
    est.history.zipIdx.foldl (fun est bucket =>
      if bucket.1.feeSamples.length + bucket.1.prioritySamples.length > 0 then
        (est.estimateFee params (bucket.2 + 1)).2
      else est) est

/-- Calls of an estimator, with the shuffles that a block comes to. -/
inductive Call (Priority : Type) where
  | seenBlock (entries : List (CTxMemPoolEntry Priority)) (nBlockHeight : Int)
      (minRelayFee : CFeeRate) (shuffle : Shuffle Priority) (perm : ∀ i l, (shuffle i l).Perm l)
  | estimateFee (nBlocksToConfirm : Int)

def afterCall : Call Priority → CMinerPolicyEstimator Priority
  | .seenBlock entries nBlockHeight minRelayFee shuffle _ =>
    est.seenBlock params entries nBlockHeight minRelayFee shuffle
  | .estimateFee nBlocksToConfirm => (est.estimateFee params nBlocksToConfirm).2

def run (calls : List (Call Priority)) : CMinerPolicyEstimator Priority :=
  calls.foldl (afterCall params) est

end CMinerPolicyEstimator

end Divi
