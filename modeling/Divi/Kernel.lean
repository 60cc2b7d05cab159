/-
Stake modifiers.

The modifier of a new block is computed from its ancestors: either it is carried over
from the last block that generated one, or a bit is collected from each of up to 64
blocks chosen among the recent ones by hashes keyed with the previous modifier.  `hash`
stands for the double hash of a serialized `uint256` and `uint64_t`, and `seed` for the
address of the literal that is converted to the modifier of block 1.

Candidates are kept as the block indices themselves, where the source keeps times and
hashes and looks the hashes up again.  Checksums and checkpoints of modifiers, which only
end up in the log, are left out.
-/
import Divi.Chain

namespace Divi

/-- The last section is this much longer than the first. -/
def MODIFIER_INTERVAL_RATIO : Nat := 3
def MODIFIER_INTERVAL : Nat := 60

/-- The seconds of one of the 64 sections. -/
def getStakeModifierSelectionIntervalSection (nSection : Nat) : Int :=
  (MODIFIER_INTERVAL * 63 / (63 + (63 - nSection) * ( MODIFIER_INTERVAL_RATIO - 1)) : Nat)

/-- The seconds of all sections. -/
def getStakeModifierSelectionInterval : Int :=
  ((List.range 64).map getStakeModifierSelectionIntervalSection).sum

namespace CBlockIndex

/-- The lowest bit of the hash. -/
def getStakeEntropyBit (pindex : CBlockIndex) : BitVec 64 :=
  pindex.phashBlock.setWidth 64 &&& 1

/-- The order of `std::pair<int64_t, uint256>` on the times and hashes. -/
def sortsBefore (a b : CBlockIndex) : Prop :=
  a.nTime < b.nTime ∨ a.nTime = b.nTime ∧ a.phashBlock ≤ b.phashBlock
  deriving Decidable

end CBlockIndex

/-- Walks back to a block that generated its modifier, or else to genesis. -/
def getLastBlockIndexWithGeneratedStakeModifier : BlockPointer → BlockPointer
  | [] => []
  | [genesis] => [genesis]
  | block :: prev :: rest =>
    if block.fGeneratedStakeModifier then
      block :: prev :: rest
    else
      getLastBlockIndexWithGeneratedStakeModifier (prev :: rest)

/-! ### Selecting a block -/

section

variable (hash : uint256 → BitVec 64 → uint256)

/-- Proof-of-stake blocks are favoured, and all of them have the same hash. -/
def selectionHash (nStakeModifierPrev : BitVec 64) (pindex : CBlockIndex) : uint256 :=
  let hashProof := if pindex.fProofOfStake then 0 else pindex.phashBlock
  let hashSelection := hash hashProof nStakeModifierPrev
  if pindex.fProofOfStake then hashSelection >>> 32 else hashSelection

/-- The loop of the selection, with the best block so far and its hash. -/
def selectLoop (mapSelectedBlocks : List uint256) (nSelectionIntervalStop : Int)
    (nStakeModifierPrev : BitVec 64) :
    List CBlockIndex → Option (CBlockIndex × uint256) → Option (CBlockIndex × uint256)
  | [], best => best
  | pindex :: rest, none =>
    if pindex.phashBlock ∈ mapSelectedBlocks then
      selectLoop mapSelectedBlocks nSelectionIntervalStop nStakeModifierPrev rest none
    else
      selectLoop mapSelectedBlocks nSelectionIntervalStop nStakeModifierPrev rest
        (some (pindex, selectionHash hash nStakeModifierPrev pindex))
  | pindex :: rest, some (pindexSelected, hashBest) =>
    if pindex.nTime > nSelectionIntervalStop then
      some (pindexSelected, hashBest)
    else if pindex.phashBlock ∈ mapSelectedBlocks then
      selectLoop mapSelectedBlocks nSelectionIntervalStop nStakeModifierPrev rest
        (some (pindexSelected, hashBest))
    else
      let hashSelection := selectionHash hash nStakeModifierPrev pindex
      if hashSelection < hashBest then
        selectLoop mapSelectedBlocks nSelectionIntervalStop nStakeModifierPrev rest
          (some (pindex, hashSelection))
      else
        selectLoop mapSelectedBlocks nSelectionIntervalStop nStakeModifierPrev rest
          (some (pindexSelected, hashBest))

/-- The candidate of a round with the lowest hash. -/
def selectBlockFromCandidates (vSortedByTimestamp : List CBlockIndex)
    (mapSelectedBlocks : List uint256) (nSelectionIntervalStop : Int)
    (nStakeModifierPrev : BitVec 64) : Option CBlockIndex :=
  (selectLoop hash mapSelectedBlocks nSelectionIntervalStop nStakeModifierPrev
    vSortedByTimestamp none).map Prod.fst

end

/-! ### The next modifier -/

/-- Where the candidates for the next modifier start. -/
def nSelectionIntervalStart (prev : CBlockIndex) : Int :=
  prev.nTime.tdiv MODIFIER_INTERVAL * MODIFIER_INTERVAL - getStakeModifierSelectionInterval

/-- The blocks within the selection interval, back from the given one. -/
def getRecentBlocksSortedByIncreasingTimestamp (pindexPrev : BlockPointer) : List CBlockIndex :=
  match pindexPrev with
  | [] => []
  | prev :: _ =>
    (pindexPrev.takeWhile fun pindex => pindex.nTime ≥ nSelectionIntervalStart prev).reverse
      |>.insertionSort CBlockIndex.sortsBefore

/-- What the rounds of the selection carry along. -/
structure SelectionRounds where
  nSelectionIntervalStop : Int
  mapSelectedBlocks : List uint256 := []
  nStakeModifierNew : BitVec 64 := 0
  deriving DecidableEq, Repr

section

variable (hash : uint256 → BitVec 64 → uint256)

/-- One round: the block selected gives a bit. -/
def selectRound (vSortedByTimestamp : List CBlockIndex) (nStakeModifier : BitVec 64)
    (state : SelectionRounds) (nRound : Nat) : Option SelectionRounds := do
  let nSelectionIntervalStop :=
    state.nSelectionIntervalStop + getStakeModifierSelectionIntervalSection nRound
  let pindex ← selectBlockFromCandidates hash vSortedByTimestamp state.mapSelectedBlocks
    nSelectionIntervalStop nStakeModifier
  some {
    nSelectionIntervalStop := nSelectionIntervalStop
    mapSelectedBlocks := pindex.phashBlock :: state.mapSelectedBlocks
    nStakeModifierNew := state.nStakeModifierNew ||| (pindex.getStakeEntropyBit <<< nRound) }

/-- All the rounds, `none` if one of them cannot select a block. -/
def selectStakeModifier (vSortedByTimestamp : List CBlockIndex) (start : Int)
    (nStakeModifier : BitVec 64) : Option (BitVec 64) :=
  ((List.range (min 64 vSortedByTimestamp.length)).foldlM
    (selectRound hash vSortedByTimestamp nStakeModifier)
    { nSelectionIntervalStop := start }).map SelectionRounds.nStakeModifierNew

/-- What `ComputeNextStakeModifier` returns and sets. -/
structure NextStakeModifier where
  nStakeModifier : BitVec 64 := 0
  fGeneratedStakeModifier : Bool := false
  result : Bool := true
  deriving DecidableEq, Repr

variable (seed : BitVec 64)

/-- `ComputeNextStakeModifier`: the modifier of the block after one. -/
def computeNextStakeModifier (pindexPrev : BlockPointer) : NextStakeModifier :=
  match pindexPrev with
  | [] => { fGeneratedStakeModifier := true }
  | prev :: _ =>
    if prev.nHeight = 0 then
      { fGeneratedStakeModifier := true, nStakeModifier := seed }
    else
      match getLastBlockIndexWithGeneratedStakeModifier pindexPrev with
      | [] => { result := false }
      | last :: _ =>
        if !last.fGeneratedStakeModifier then
          { result := false }
        else if last.nTime.tdiv MODIFIER_INTERVAL ≥ prev.nTime.tdiv MODIFIER_INTERVAL then
          { nStakeModifier := last.nStakeModifier }
        else
          match selectStakeModifier hash (getRecentBlocksSortedByIncreasingTimestamp pindexPrev)
              (nSelectionIntervalStart prev) last.nStakeModifier with
          | none => { nStakeModifier := last.nStakeModifier, result := false }
          | some nStakeModifierNew =>
            if Fork.HardenedStakeModifier.isActive prev then
              { nStakeModifier := (hash prev.phashBlock nStakeModifierNew).setWidth 64
                fGeneratedStakeModifier := true }
            else
              { nStakeModifier := nStakeModifierNew, fGeneratedStakeModifier := true }

/-- The new block, with its modifier set from its parent. -/
def setStakeModifiersForNewBlockIndex (pindexNew : CBlockIndex) (pprev : BlockPointer) :
    CBlockIndex :=
  let next := computeNextStakeModifier hash seed pprev
  { pindexNew with
    nStakeModifier := next.nStakeModifier
    fGeneratedStakeModifier := pindexNew.fGeneratedStakeModifier || next.fGeneratedStakeModifier }

/-- Adds a block on top of a chain, as a new index without flags of the chain's own. -/
def addStakedBlock (pprev : BlockPointer) (block : CBlockIndex) : BlockPointer :=
  setStakeModifiersForNewBlockIndex hash seed
    { block with nHeight := pprev.length, fGeneratedStakeModifier := false } pprev :: pprev

/-- The chain of the blocks given from genesis upwards. -/
def addStakedBlocks (blocks : List CBlockIndex) : BlockPointer :=
  blocks.foldl (addStakedBlock hash seed) []

end

end Divi
