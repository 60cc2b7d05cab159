/-
The state of a soft fork's deployment at a block.

The state changes at the first block of a period only, and depends on the state of the period
before.  The tracker keeps states in a cache by block: those of the blocks at which the state
changed, and `DEFINED` for some block before the start time.  A walk back from a block to the next
one with an entry finds the state from which to go on.

The entry of a block has the version of its header besides the fields of `CBlockIndex`, which is a
function of the entry here.  The walk has fuel.
-/
import Divi.Chain
import Mathlib.Data.Finmap

namespace Divi

/-- The states of a deployment. -/
inductive ThresholdState
  | DEFINED
  | STARTED
  | LOCKED_IN
  | ACTIVE
  | FAILED
  deriving DecidableEq, Repr

/-- A deployment: its bit, its times and its threshold. -/
structure BIP9Deployment where
  deploymentName : String
  bit : Int
  nStartTime : Int
  nTimeout : Int
  nPeriod : Int
  threshold : Int
  deriving DecidableEq, Repr

def BIP9Deployment.ALWAYS_ACTIVE : Int := -1

/-- A version that signals starts with these bits. -/
def VERSIONBITS_TOP_BITS : BitVec 32 := 0x20000000

def VERSIONBITS_TOP_MASK : BitVec 32 := 0xE0000000

/-- The blocks a median time is taken of. -/
def nMedianTimeSpan : Nat := 11

/-- The median of the times of a block and the ten before it. -/
def BlockPointer.getMedianTimePast (pindex : BlockPointer) : Int :=
  let pmedian := ((pindex.take nMedianTimeSpan).map CBlockIndex.nTime).insertionSort (· ≤ ·)
  pmedian.getD (pmedian.length / 2) 0

/-- A cache by the pointer to a block. -/
abbrev ThresholdConditionCache := Finmap fun _ : BlockPointer => ThresholdState

/-- The tracker of one deployment. -/
structure CachedBIP9ActivationStateTracker where
  bip : BIP9Deployment
  nVersion : CBlockIndex → BitVec 32

namespace CachedBIP9ActivationStateTracker

variable (tracker : CachedBIP9ActivationStateTracker)

/-- The times and the threshold make sense. -/
def bipIsViable : Bool :=
  !(tracker.bip.nStartTime > tracker.bip.nTimeout || tracker.bip.nPeriod < tracker.bip.threshold)

/-- The version of a block signals. -/
def bipIsSignaledFor (block : CBlockIndex) : Bool :=
  let bipMask : BitVec 32 := 1 <<< tracker.bip.bit.toNat
  tracker.nVersion block &&& VERSIONBITS_TOP_MASK == VERSIONBITS_TOP_BITS &&
    tracker.nVersion block &&& bipMask != 0

/-- The signals in the period that ends at a block. -/
def enoughBipSignalsToLockIn (endingBlockIndex : BlockPointer) : Bool :=
  let count := (endingBlockIndex.take tracker.bip.nPeriod.toNat).countP tracker.bipIsSignaledFor
  count ≥ tracker.bip.threshold

/-- The first block of the period. -/
def getMostRecentStartingBlock (shallowBlockIndex : BlockPointer) : BlockPointer :=
  match shallowBlockIndex with
  | [] => []
  | block :: _ =>
    let heightOffset := block.nHeight.tmod tracker.bip.nPeriod
    shallowBlockIndex.getAncestor (block.nHeight - heightOffset)

/-- The state of the next period. -/
def computeStateTransition (lastKnownState : ThresholdState) (blockIndex : BlockPointer) :
    ThresholdState :=
  match lastKnownState with
  | .DEFINED =>
    if blockIndex.getMedianTimePast ≥ tracker.bip.nTimeout then .FAILED
    else if blockIndex.getMedianTimePast ≥ tracker.bip.nStartTime then .STARTED
    else .DEFINED
  | .STARTED =>
    if blockIndex.getMedianTimePast ≥ tracker.bip.nTimeout then .FAILED
    else if tracker.enoughBipSignalsToLockIn blockIndex.pprev then .LOCKED_IN
    else .STARTED
  | .LOCKED_IN => .ACTIVE
  | .FAILED => .FAILED
  | .ACTIVE => .ACTIVE

/-- The first block of the period before the one that starts at a block. -/
def predecesor (blockIndex : BlockPointer) : BlockPointer :=
  match blockIndex with
  | [] => []
  | block :: _ => blockIndex.getAncestor (block.nHeight - tracker.bip.nPeriod)

/-- The walk back; the list has the block that was found last in front. -/
def getStartingBlocksForPeriodsPreceedingBlockIndex :
    Nat → List BlockPointer → ThresholdConditionCache →
      Option (List BlockPointer × ThresholdConditionCache)
  | 0, _, _ => none
  | fuel + 1, startingBlocksForPeriods, cache =>
    let currentShallowBlockIndex := startingBlocksForPeriods.headD []
    if currentShallowBlockIndex ≠ [] ∧ currentShallowBlockIndex ∉ cache then
      let predecesor := tracker.predecesor currentShallowBlockIndex
      let startingBlocksForPeriods := predecesor :: startingBlocksForPeriods
      if predecesor = [] then
        some (startingBlocksForPeriods, cache.insert [] .DEFINED)
      else if predecesor.getMedianTimePast < tracker.bip.nStartTime then
        if predecesor ∈ cache then
          some (startingBlocksForPeriods, cache)
        else
          some (startingBlocksForPeriods, cache.insert predecesor .DEFINED)
      else
        getStartingBlocksForPeriodsPreceedingBlockIndex fuel startingBlocksForPeriods cache
    else
      some (startingBlocksForPeriods, cache)

variable (cache : ThresholdConditionCache)

/-- The `[]` operator of a map, which makes an entry with the first state where there is none. -/
def stateAt (blockIndex : BlockPointer) :
    ThresholdState × ThresholdConditionCache :=
  match cache.lookup blockIndex with
  | some state => (state, cache)
  | none => (.DEFINED, cache.insert blockIndex .DEFINED)

/-- The loop of `update` over the blocks, the oldest first. -/
def cacheChanges (cache : ThresholdConditionCache)
    (lastKnownState : ThresholdState) : List BlockPointer → ThresholdConditionCache
  | [] => cache
  | blockIndex :: rest =>
    if !tracker.bipIsViable then
      if lastKnownState ≠ .FAILED then cache.insert blockIndex .FAILED else cache
    else
      let state := tracker.computeStateTransition lastKnownState blockIndex
      if lastKnownState ≠ state then
        cacheChanges (cache.insert blockIndex state) state rest
      else
        cacheChanges cache state rest

/-- `update`: the states of all periods up to a block are cached. -/
def update (shallowBlockIndex : BlockPointer) :
    Option ThresholdConditionCache :=
  if tracker.bip.nStartTime = BIP9Deployment.ALWAYS_ACTIVE then
    some cache
  else
    let shallowBlockIndex := tracker.getMostRecentStartingBlock shallowBlockIndex
    match tracker.getStartingBlocksForPeriodsPreceedingBlockIndex (shallowBlockIndex.length + 1)
        [shallowBlockIndex] cache with
    | none => none
    | some ([], cache) => some cache
    | some (lastBlockWithCachedState :: startingBlocksForPeriods, cache) =>
      let blockIndexToCache := startingBlocksForPeriods.getLastD []
      if blockIndexToCache = [] then
        some cache
      else
        let (lastKnownState, cache) := stateAt cache lastBlockWithCachedState
        some (tracker.cacheChanges cache lastKnownState startingBlocksForPeriods)

/-- The state, and the cache, to which the walk may add an entry. -/
def getLastCachedStatePriorToBlockIndex
    (shallowBlockIndex : BlockPointer) : Option (ThresholdState × ThresholdConditionCache) :=
  if tracker.bip.nStartTime = BIP9Deployment.ALWAYS_ACTIVE then
    some (.ACTIVE, cache)
  else if !tracker.bipIsViable then
    some (.FAILED, cache)
  else if shallowBlockIndex = [] then
    some (.DEFINED, cache)
  else
    let shallowBlockIndex := tracker.getMostRecentStartingBlock shallowBlockIndex
    (tracker.getStartingBlocksForPeriodsPreceedingBlockIndex (shallowBlockIndex.length + 1)
      [shallowBlockIndex] cache).map fun (startingBlocksForPeriods, cache) =>
        stateAt cache (startingBlocksForPeriods.headD [])

/-! ### Without a cache -/

/-- The state of the period that starts at a block, as many periods back as the fuel allows. -/
def uncachedStateFrom : Nat → BlockPointer → ThresholdState
  | 0, _ => .DEFINED
  | fuel + 1, blockIndex =>
    if blockIndex = [] then .DEFINED
    else tracker.computeStateTransition
      (uncachedStateFrom fuel (tracker.predecesor blockIndex)) blockIndex

/-- The state as the deployment defines it. -/
def uncachedState (shallowBlockIndex : BlockPointer) : ThresholdState :=
  if tracker.bip.nStartTime = BIP9Deployment.ALWAYS_ACTIVE then .ACTIVE
  else if !tracker.bipIsViable then .FAILED
  else
    let startingBlock := tracker.getMostRecentStartingBlock shallowBlockIndex
    tracker.uncachedStateFrom startingBlock.length startingBlock

/-! ### Calls -/

/-- The calls of a tracker. -/
inductive Call
  | update (shallowBlockIndex : BlockPointer)
  | getLastCachedStatePriorToBlockIndex (shallowBlockIndex : BlockPointer)

def Call.blockIndex : Call → BlockPointer
  | update shallowBlockIndex => shallowBlockIndex
  | getLastCachedStatePriorToBlockIndex shallowBlockIndex => shallowBlockIndex

/-- What a call leaves in the cache. -/
def call : Call → Option ThresholdConditionCache
  | .update shallowBlockIndex => tracker.update cache shallowBlockIndex
  | .getLastCachedStatePriorToBlockIndex shallowBlockIndex =>
    (tracker.getLastCachedStatePriorToBlockIndex cache shallowBlockIndex).map Prod.snd

end CachedBIP9ActivationStateTracker

end Divi
