/-
What a block may mint, and to whom.

`Legacy.getBlockSubsidity` splits the block value of a height by percentages;
`getBlockSubsidity` then gathers the treasury, charity and lottery parts of a whole
cycle into the superblock that pays them.

The two sporks that can change the figures enter as the decoded lists the spork
manager would hand over, with the time of the block at each height.  The source
asserts that a block's value covers its lottery part; where the assertion fails
there are no rewards, so the functions return `none`.
-/
import Divi.ChainParams

namespace Divi

/-! ### Spork values -/

/-- A block value set by a spork. -/
structure BlockSubsiditySporkValue where
  nBlockSubsidity : Int := -1
  nActivationBlockHeight : Int := 0
  deriving DecidableEq, Repr

/-- `IsValid` of a block value. -/
def BlockSubsiditySporkValue.isValid (v : BlockSubsiditySporkValue) : Bool :=
  v.nActivationBlockHeight > 0 && v.nBlockSubsidity ≥ 0

/-- Percentages set by a spork. -/
structure BlockPaymentSporkValue where
  nStakeReward : Int := 0
  nMasternodeReward : Int := 0
  nTreasuryReward : Int := 0
  nProposalsReward : Int := 0
  nCharityReward : Int := 0
  nActivationBlockHeight : Int := 0
  deriving DecidableEq, Repr

/-- `IsValid`: the percentages add up to a hundred. -/
def BlockPaymentSporkValue.isValid (v : BlockPaymentSporkValue) : Bool :=
  v.nActivationBlockHeight > 0 &&
    [v.nStakeReward, v.nMasternodeReward, v.nTreasuryReward, v.nProposalsReward,
      v.nCharityReward].sum == 100

/-- The last entry that is activated and signed before the block, or the default. -/
def getActiveMultiValueSpork {T : Type} [Inhabited T] (nActivationBlockHeight : T → Int)
    (vSporks : List (T × Int)) (nHeight nBlockTime : Int) : T :=
  vSporks.foldl (fun active entry =>
    if nHeight ≥ nActivationBlockHeight entry.1 ∧ entry.2 < nBlockTime then entry.1 else active)
    default

instance : Inhabited BlockSubsiditySporkValue := ⟨{}⟩

instance : Inhabited BlockPaymentSporkValue := ⟨{}⟩

/-- What the subsidy reads from the spork manager and from the active chain. -/
structure SubsidySporks where
  /-- The decoded values of `SPORK_15_BLOCK_VALUE`, if it is active. -/
  blockValue : Option (List (BlockSubsiditySporkValue × Int)) := none
  /-- The decoded values of `SPORK_13_BLOCK_PAYMENTS`, if it is active. -/
  blockPayments : Option (List (BlockPaymentSporkValue × Int)) := none
  /-- The time of the active chain's block at a height, or the adjusted time. -/
  nBlockTime : Int → Int := fun _ => 0

/-- No spork that touches the subsidy is active. -/
structure SubsidySporks.Inactive (sporks : SubsidySporks) : Prop where
  blockValue : sporks.blockValue = none
  blockPayments : sporks.blockPayments = none

/-! ### `LegacyBlockSubsidies.cpp` -/

/-- The parts of a block's value. -/
structure CBlockRewards where
  nStakeReward : Int
  nMasternodeReward : Int
  nTreasuryReward : Int
  nCharityReward : Int
  nLotteryReward : Int
  nProposalsReward : Int
  deriving DecidableEq, Repr

/-- The value by height: the premine in block 1, then less every interval. -/
def blockSubsidy (nHeight : Int) (chainParams : CChainParams) : Int :=
  if nHeight = 0 then
    50 * COIN
  else if nHeight = 1 then
    chainParams.premineAmt
  else
    max (1250 - 100 * max (nHeight.tdiv chainParams.nSubsidyHalvingInterval - 1) 0) 250 * COIN

namespace Legacy

/-- The value of a block, from the active spork if it is valid. -/
def getFullBlockValue (sporks : SubsidySporks) (nHeight : Int) (chainParams : CChainParams) :
    Int :=
  match sporks.blockValue with
  | some vBlockSubsiditySporkValues =>
    let activeSpork := getActiveMultiValueSpork BlockSubsiditySporkValue.nActivationBlockHeight
      vBlockSubsiditySporkValues nHeight (sporks.nBlockTime nHeight)
    if activeSpork.isValid ∧
        activeSpork.nActivationBlockHeight.tmod chainParams.nSubsidyHalvingInterval = 0 then
      activeSpork.nBlockSubsidity * COIN
    else
      blockSubsidy nHeight chainParams
  | none => blockSubsidy nHeight chainParams

/-- The shares of `nSubsidy` by percentage, beside the fixed lottery part. -/
def blockRewards (nSubsidy nLotteryPart : Int) (nStakePercentage nMasternodePercentage
    nTreasuryPercentage nProposalsPercentage nCharityPercentage : Int) : CBlockRewards where
  nStakeReward := (nSubsidy * nStakePercentage).tdiv 100
  nMasternodeReward := (nSubsidy * nMasternodePercentage).tdiv 100
  nTreasuryReward := (nSubsidy * nTreasuryPercentage).tdiv 100
  nCharityReward := (nSubsidy * nCharityPercentage).tdiv 100
  nLotteryReward := nLotteryPart
  nProposalsReward := (nSubsidy * nProposalsPercentage).tdiv 100

/-- What is set aside for the lottery. -/
def lotteryPart (nHeight : Int) (chainParams : CChainParams) : Int :=
  if nHeight ≥ chainParams.nLotteryBlockStartBlock then 50 * COIN else 0

/-- The split of the value of one block. -/
def getBlockSubsidity (sporks : SubsidySporks) (nHeight : Int) (chainParams : CChainParams) :
    Option CBlockRewards :=
  let nSubsidy := getFullBlockValue sporks nHeight chainParams
  if nHeight ≤ chainParams.nLastPOWBlock then
    some ⟨nSubsidy, 0, 0, 0, 0, 0⟩
  else
    let nLotteryPart := lotteryPart nHeight chainParams
    if nSubsidy < nLotteryPart then
      none  -- the assertion
    else
      let helper := blockRewards (nSubsidy - nLotteryPart) nLotteryPart
      match sporks.blockPayments with
      | some vBlockPaymentsValues =>
        let activeSpork := getActiveMultiValueSpork BlockPaymentSporkValue.nActivationBlockHeight
          vBlockPaymentsValues nHeight (sporks.nBlockTime nHeight)
        if activeSpork.isValid ∧
            activeSpork.nActivationBlockHeight.tmod
              chainParams.nSubsidyHalvingInterval = 0 then
          some (helper activeSpork.nStakeReward activeSpork.nMasternodeReward
            activeSpork.nTreasuryReward activeSpork.nProposalsReward activeSpork.nCharityReward)
        else
          some (helper 38 45 16 0 1)
      | none => some (helper 38 45 16 0 1)

end Legacy

/-! ### `BlockSubsidyProvider` -/

namespace CChainParams

variable (chainParams : CChainParams) (sporks : SubsidySporks)

/--
A reward paid for a whole cycle: the blocks up to the last change of the subsidy at
the rate of the previous payment, the ones behind it at the current rate.
-/
def cycleReward (nHeight priorHeight : Int) (priorReward reward : Int) : Int :=
  let numberOfSubsidyIntervals := nHeight.tdiv chainParams.nSubsidyHalvingInterval
  let priorRewardWeight :=
    numberOfSubsidyIntervals * chainParams.nSubsidyHalvingInterval - priorHeight
  let currentRewardWeight :=
    nHeight - numberOfSubsidyIntervals * chainParams.nSubsidyHalvingInterval
  priorReward * priorRewardWeight + reward * currentRewardWeight

/-- A treasury block gets what its cycle has set aside, the others nothing. -/
def updateTreasuryReward (nHeight : Int) (rewards : CBlockRewards) (isTreasuryBlock : Bool) :
    Option CBlockRewards := do
  let rewards := if isTreasuryBlock then rewards
    else { rewards with nTreasuryReward := 0, nCharityReward := 0 }
  let priorHeight := nHeight - chainParams.getTreasuryBlockPaymentCycle nHeight
  let priorRewards ← if isTreasuryBlock then
      Legacy.getBlockSubsidity sporks priorHeight chainParams
    else some rewards
  some { rewards with
    nTreasuryReward := chainParams.cycleReward nHeight priorHeight
      priorRewards.nTreasuryReward rewards.nTreasuryReward
    nCharityReward := chainParams.cycleReward nHeight priorHeight
      priorRewards.nCharityReward rewards.nCharityReward }

/-- The same for the lottery. -/
def updateLotteryReward (nHeight : Int) (rewards : CBlockRewards) (isLotteryBlock : Bool) :
    Option CBlockRewards := do
  let rewards := if isLotteryBlock then rewards else { rewards with nLotteryReward := 0 }
  let priorHeight := nHeight - chainParams.getLotteryBlockPaymentCycle nHeight
  let priorRewards ← if isLotteryBlock then
      Legacy.getBlockSubsidity sporks priorHeight chainParams
    else some rewards
  some { rewards with
    nLotteryReward := chainParams.cycleReward nHeight priorHeight
      priorRewards.nLotteryReward rewards.nLotteryReward }

/-- The rewards of a block, superblock payments included. -/
def getBlockSubsidity (nHeight : Int) : Option CBlockRewards := do
  let rewards ← Legacy.getBlockSubsidity sporks nHeight chainParams
  let rewards ← chainParams.updateTreasuryReward sporks nHeight rewards
    (chainParams.isValidTreasuryBlockHeight nHeight)
  chainParams.updateLotteryReward sporks nHeight rewards
    (chainParams.isValidLotteryBlockHeight nHeight)

end CChainParams

end Divi
