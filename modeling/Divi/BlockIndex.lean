/-
Adding blocks to the block index.

`mapBlockIndex` maps the hash of a block to its path.  A block whose parent is not in
the index starts a path of its own, as genesis does.  Chain work, sequence numbers and
the best header, which nothing below reads, are left out.
-/
import Divi.LotteryWinners
import Mathlib.Data.Finmap

namespace Divi

/-- `mapBlockIndex`: a block with its ancestors by its hash. -/
abbrev BlockMap := Finmap fun _ : uint256 => BlockPointer

/-- What adding a block depends on besides the index and the active chain. -/
structure BlockIndexParameters where
  chainParams : CChainParams
  /-- The hash and the seed of the stake modifiers. -/
  stakeModifierHash : uint256 → BitVec 64 → uint256
  stakeModifierSeed : BitVec 64
  calculateLotteryScore : uint256 → uint256 → uint256
  ticketMinValues : Option (List (LotteryTicketMinValueSporkValue × Int)) := none
  adjustedTime : Int := 0

namespace BlockIndexParameters

variable (params : BlockIndexParameters)

/-- The calculator of a node with an active chain. -/
def lotteryCalculator (activeChain : CChain) : LotteryWinnersCalculator :=
  { chainParams := params.chainParams
    activeChain := activeChain
    calculateLotteryScore := params.calculateLotteryScore
    ticketMinValues := params.ticketMinValues
    adjustedTime := params.adjustedTime }

/-- The coinstake, or the coinbase of a proof-of-work block. -/
def coinMintingTransaction (block : CBlock) (nHeight : Int) : Option CTransaction :=
  if nHeight > params.chainParams.nLastPOWBlock then block.vtx[1]? else block.vtx[0]?

/-- The winners of a new block on top of a path. -/
def updateBlockIndexLotteryWinners (activeChain : CChain) (block : CBlock)
    (pprev : BlockPointer) (nHeight : Int) : Option LotteryCoinstakeData := do
  let previousBlockLotteryCoinstakeData := match pprev with
    | [] => {}
    | prev :: _ => prev.vLotteryWinnersCoinstakes
  let coinMintingTransaction ← params.coinMintingTransaction block nHeight
  (params.lotteryCalculator activeChain).calculateUpdatedLotteryWinners
    coinMintingTransaction previousBlockLotteryCoinstakeData nHeight

/-- The path of a block's parent, null if it is not in the index. -/
def parentOf (mapBlockIndex : BlockMap) (block : CBlock) : BlockPointer :=
  (mapBlockIndex.lookup block.hashPrevBlock).getD []

/-- One above the parent. -/
def newHeight (pprev : BlockPointer) : Int :=
  match pprev with
  | [] => 0
  | prev :: _ => prev.nHeight + 1

/-- The index entry of a new block before its winners are known. -/
def newBlockIndex (block : CBlock) (pprev : BlockPointer) : CBlockIndex :=
  let pindexNew : CBlockIndex :=
    { phashBlock := block.hash
      nHeight := newHeight pprev
      nTime := block.nTime
      fProofOfStake := block.isProofOfStake }
  match pprev with
  | [] => pindexNew
  | _ :: _ => setStakeModifiersForNewBlockIndex params.stakeModifierHash
      params.stakeModifierSeed pindexNew pprev

/-- `AddToBlockIndex`: a block that is not known yet gets its entry and its winners. -/
def addToBlockIndex (activeChain : CChain) (mapBlockIndex : BlockMap) (block : CBlock) :
    Option BlockMap :=
  match mapBlockIndex.lookup block.hash with
  | some _ => some mapBlockIndex
  | none =>
    let pprev := parentOf mapBlockIndex block
    match params.updateBlockIndexLotteryWinners activeChain block pprev (newHeight pprev) with
    | none => none
    | some winners =>
      some (mapBlockIndex.insert block.hash
        ({ params.newBlockIndex block pprev with vLotteryWinnersCoinstakes := winners }
          :: pprev))

/-- Adds blocks one after the other, each under the chain that is active at the time. -/
def addBlocks : BlockMap → List (CBlock × CChain) → Option BlockMap
  | mapBlockIndex, [] => some mapBlockIndex
  | mapBlockIndex, (block, activeChain) :: rest =>
    match params.addToBlockIndex activeChain mapBlockIndex block with
    | none => none
    | some mapBlockIndex => addBlocks mapBlockIndex rest

/-- Adds blocks one after the other, each with its own branch as the active chain. -/
def addBlocksOnOwnBranch : BlockMap → List CBlock → Option BlockMap
  | mapBlockIndex, [] => some mapBlockIndex
  | mapBlockIndex, block :: rest =>
    match params.addToBlockIndex (parentOf mapBlockIndex block) mapBlockIndex block with
    | none => none
    | some mapBlockIndex => addBlocksOnOwnBranch mapBlockIndex rest

/-- Adds a block on top of the active chain; the new block is its tip afterwards. -/
def extendChain (activeChain : CChain) (block : CBlock) : Option CChain :=
  match params.updateBlockIndexLotteryWinners activeChain block activeChain
      (newHeight activeChain) with
  | none => none
  | some winners =>
    some ({ params.newBlockIndex block activeChain with vLotteryWinnersCoinstakes := winners }
      :: activeChain)

/-- The active chain of the given blocks, genesis first, each added on top of the one before. -/
def chainOf (blocks : List CBlock) : Option CChain :=
  blocks.foldlM params.extendChain []

end BlockIndexParameters

end Divi
