/-
The difficulty of the next block: `GetNextWorkRequired` of pow.cpp.

After the last proof-of-work block the target follows the spacing of the last two blocks,
before that it follows the average target and the time span of the last 24.  A factor of
type `int64_t` selects the product with a `uint32_t`, so it is narrowed to 32 bits; a
divisor becomes a big integer.  Times and spans are unbounded integers, which only differ
from `int64_t` beyond any sum of 24 differences of 32-bit times.
-/
import Divi.Uint256

namespace Divi

/-- The part of `CBlockIndex` that the difficulty depends on. -/
structure WorkIndex where
  nHeight : Int
  nTime : UInt32
  nBits : UInt32
  deriving DecidableEq, Repr

def WorkIndex.getBlockTime (pindex : WorkIndex) : Int :=
  (pindex.nTime.toNat : Int)

/-- A block and its ancestors, `[]` for null. -/
abbrev WorkChain := List WorkIndex

/-- The part of `CChainParams` that the difficulty depends on. -/
structure WorkParams where
  bnProofOfWorkLimit : BaseUint 8
  fDifficultyRetargeting : Bool
  nLastPOWBlock : Int
  nTargetSpacing : Int
  deriving DecidableEq, Repr

/-- The retargeting looks at 24 blocks. -/
def PastBlocksMin : Int := 24
def PastBlocksMax : Int := 24

/-- A divisor of type `int64_t`, as the constructor from `uint64_t` takes it. -/
def BaseUint.ofInt64 (x : Int) : BaseUint 8 :=
  .ofUInt64 (UInt64.ofInt x)

/-! ### After the last proof-of-work block -/

/-- The easiest target of proof of stake. -/
def bnTargetLimit : BaseUint 8 :=
  BaseUint.zero.complement.shiftRight 24

/-- The spacing of the last two blocks, replaced by a second if it is negative. -/
def actualSpacing (pindexLast : WorkIndex) (pprev : WorkIndex) : Int :=
  let nActualSpacing :=
    if pindexLast.nHeight ≠ 0 then pindexLast.getBlockTime - pprev.getBlockTime else 0
  if nActualSpacing < 0 then 1 else nActualSpacing

/-- The next target of proof of stake. -/
def getNextStakeRequired (pindexLast : WorkIndex) (pprev : WorkIndex) : Except String UInt32 := do
  let nTargetSpacing : Int := 60
  let nTargetTimespan : Int := 60 * 40
  let nActualSpacing := actualSpacing pindexLast pprev
  let bnNew := (BaseUint.setCompact pindexLast.nBits).target
  let nInterval := nTargetTimespan.tdiv nTargetSpacing
  let bnNew := bnNew.mulUInt32
    (UInt32.ofInt ((nInterval - 1) * nTargetSpacing + nActualSpacing + nActualSpacing))
  let bnNew ← bnNew.divide (.ofInt64 ((nInterval + 1) * nTargetSpacing))
  let bnNew :=
    if bnNew.compareTo .zero ≤ 0 ∨ bnNew.compareTo bnTargetLimit > 0 then bnTargetLimit else bnNew
  bnNew.getCompact false

/-! ### Up to the last proof-of-work block -/

/-- What the loop over the past blocks carries along. -/
structure PastBlocks where
  nActualTimespan : Int := 0
  lastBlockTime : Int := 0
  countBlocks : Int := 0
  pastDifficultyAverage : BaseUint 8 := .zero
  pastDifficultyAveragePrev : BaseUint 8 := .zero
  deriving DecidableEq, Repr

/-- One round of the loop on the block that is read. -/
def readPastBlock (state : PastBlocks) (blockReading : WorkIndex) : Except String PastBlocks := do
  let countBlocks := state.countBlocks + 1
  let target := (BaseUint.setCompact blockReading.nBits).target
  let average ←
    if countBlocks ≤ PastBlocksMin then
      if countBlocks = 1 then
        pure target
      else
        ((state.pastDifficultyAveragePrev.mulUInt32 (UInt32.ofInt countBlocks)).add target).divide
          (.ofInt64 (countBlocks + 1))
    else
      pure state.pastDifficultyAverage
  return {
    nActualTimespan :=
      if state.lastBlockTime > 0 then
        state.nActualTimespan + (state.lastBlockTime - blockReading.getBlockTime)
      else state.nActualTimespan
    lastBlockTime := blockReading.getBlockTime
    countBlocks := countBlocks
    pastDifficultyAverage := average
    pastDifficultyAveragePrev :=
      if countBlocks ≤ PastBlocksMin then average else state.pastDifficultyAveragePrev }

/-- The loop in its round `i`; it ends at genesis and after `PastBlocksMax` blocks. -/
def readPastBlocks : Nat → PastBlocks → WorkChain → Except String PastBlocks
  | _, state, [] => .ok state
  | i, state, blockReading :: pprev =>
    if ¬ blockReading.nHeight > 0 then
      .ok state
    else if PastBlocksMax > 0 ∧ (i : Int) > PastBlocksMax then
      .ok state
    else do
      let state ← readPastBlock state blockReading
      readPastBlocks (i + 1) state pprev

/-- The next target of proof of work. -/
def getNextProofOfWorkRequired (pindexLast : WorkChain) (chainParams : WorkParams) :
    Except String UInt32 := do
  let past ← readPastBlocks 1 {} pindexLast
  let nTargetTimespan := past.countBlocks * chainParams.nTargetSpacing
  let nActualTimespan :=
    if past.nActualTimespan < nTargetTimespan.tdiv 3 then nTargetTimespan.tdiv 3
    else past.nActualTimespan
  let nActualTimespan :=
    if nActualTimespan > nTargetTimespan * 3 then nTargetTimespan * 3 else nActualTimespan
  let bnNew := past.pastDifficultyAverage.mulUInt32 (UInt32.ofInt nActualTimespan)
  let bnNew ← bnNew.divide (.ofInt64 nTargetTimespan)
  let bnNew :=
    if bnNew.compareTo chainParams.bnProofOfWorkLimit > 0 then
      chainParams.bnProofOfWorkLimit
    else bnNew
  bnNew.getCompact false

/-! ### The next block -/

/-- `GetNextWorkRequired`: the target of the next block. -/
def getNextWorkRequired (pindexLast : WorkChain) (chainParams : WorkParams) :
    Except String UInt32 :=
  match pindexLast with
  | [] => chainParams.bnProofOfWorkLimit.getCompact false
  | blockLastSolved :: ancestors =>
    if blockLastSolved.nHeight = 0 ∨ blockLastSolved.nHeight < PastBlocksMin then
      chainParams.bnProofOfWorkLimit.getCompact false
    else if !chainParams.fDifficultyRetargeting then
      .ok blockLastSolved.nBits
    else if blockLastSolved.nHeight > chainParams.nLastPOWBlock then
      match ancestors with
      | [] => .error "pindexLast->pprev is null"
      | pprev :: _ => getNextStakeRequired blockLastSolved pprev
    else
      getNextProofOfWorkRequired pindexLast chainParams

end Divi
