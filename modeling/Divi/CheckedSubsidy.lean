/-
The split of a block's value in machine integers.

`Legacy.getBlockSubsidity` computes with unbounded integers.  In the source the
percentages are of type `int` and amounts of type `int64_t`, and sporks can set both so
high that the sum of the percentages or the product of an amount with one overflows.
Signed overflow is undefined, so the functions below return `none` for it, as they do
where the assertion fails; a block value itself, at most `2 ^ 31` coins, always fits.
-/
import Divi.Lib.Checked
import Divi.Subsidy

namespace Divi

namespace BlockPaymentSporkValue

/-- The percentages in the order in which `IsValid` adds them up. -/
def percentages (v : BlockPaymentSporkValue) : List Int :=
  [v.nStakeReward, v.nMasternodeReward, v.nTreasuryReward, v.nProposalsReward, v.nCharityReward]

/-- `IsValid`, with the sum in the type `int`. -/
def isValidChecked (v : BlockPaymentSporkValue) : Option Bool :=
  if v.nActivationBlockHeight > 0 then
    (v.percentages.foldlM (fun sum x => Checked.check 32 (sum + x)) 0).map (· == 100)
  else
    some false

end BlockPaymentSporkValue

namespace Legacy

/-- The share of a percentage, with the product in the type `int64_t`. -/
def shareChecked (nSubsidy percentage : Int) : Option Int :=
  (Checked.check 64 (nSubsidy * percentage)).map (·.tdiv 100)

/-- The shares of `nSubsidy` by percentage, beside the fixed lottery part. -/
def blockRewardsChecked (nSubsidy nLotteryPart : Int) (nStakePercentage nMasternodePercentage
    nTreasuryPercentage nProposalsPercentage nCharityPercentage : Int) : Option CBlockRewards := do
  let nStakeReward ← shareChecked nSubsidy nStakePercentage
  let nMasternodeReward ← shareChecked nSubsidy nMasternodePercentage
  let nTreasuryReward ← shareChecked nSubsidy nTreasuryPercentage
  let nCharityReward ← shareChecked nSubsidy nCharityPercentage
  let nProposalsReward ← shareChecked nSubsidy nProposalsPercentage
  return ⟨nStakeReward, nMasternodeReward, nTreasuryReward, nCharityReward, nLotteryPart,
    nProposalsReward⟩

/-- The split, `none` for an overflow. -/
def getBlockSubsidityChecked (sporks : SubsidySporks) (nHeight : Int)
    (chainParams : CChainParams) : Option CBlockRewards :=
  let nSubsidy := getFullBlockValue sporks nHeight chainParams
  if nHeight ≤ chainParams.nLastPOWBlock then
    some ⟨nSubsidy, 0, 0, 0, 0, 0⟩
  else
    let nLotteryPart := lotteryPart nHeight chainParams
    if nSubsidy < nLotteryPart then
      none  -- the assertion
    else
      let helper := blockRewardsChecked (nSubsidy - nLotteryPart) nLotteryPart
      match sporks.blockPayments with
      | some vBlockPaymentsValues => do
        let activeSpork := getActiveMultiValueSpork BlockPaymentSporkValue.nActivationBlockHeight
          vBlockPaymentsValues nHeight (sporks.nBlockTime nHeight)
        if (← activeSpork.isValidChecked) ∧
            activeSpork.nActivationBlockHeight.tmod
              chainParams.nSubsidyHalvingInterval = 0 then
          helper activeSpork.nStakeReward activeSpork.nMasternodeReward
            activeSpork.nTreasuryReward activeSpork.nProposalsReward activeSpork.nCharityReward
        else
          helper 38 45 16 0 1
      | none => helper 38 45 16 0 1

end Legacy

end Divi
