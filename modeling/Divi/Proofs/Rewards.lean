/-
The rewards of a block when no spork changes the subsidy.

Above the proof-of-work blocks a block's value always covers its lottery part, so the
assertion in the source holds; the masternode reward and the lottery reward of a cycle
are not negative, although one of the two weights of a cycle may be.
-/
import Divi.Subsidy

namespace Divi

open Option

variable {chainParams : CChainParams} {sporks : SubsidySporks} {nHeight priorHeight : Int}

namespace Legacy

theorem blockSubsidy_ge_of_ne (chainParams : CChainParams) (h : nHeight ≠ 1) :
    50 * COIN ≤ blockSubsidy nHeight chainParams := by
  have hcoin : (0 : Int) ≤ COIN := by decide
  unfold blockSubsidy
  by_cases hzero : nHeight = 0
  · rw [if_pos hzero]
  · rw [if_neg hzero, if_neg h]
    exact Int.mul_le_mul_of_nonneg_right (le_trans (by decide) (le_max_right _ _)) hcoin

theorem lotteryPart_cases (nHeight : Int) (chainParams : CChainParams) :
    (nHeight < chainParams.nLotteryBlockStartBlock ∧
        lotteryPart nHeight chainParams = 0) ∨
      (chainParams.nLotteryBlockStartBlock ≤ nHeight ∧
        lotteryPart nHeight chainParams = 50 * COIN) := by
  unfold lotteryPart
  by_cases h : nHeight ≥ chainParams.nLotteryBlockStartBlock
  · rw [if_pos h]
    exact .inr ⟨h, rfl⟩
  · rw [if_neg h]
    exact .inl ⟨by omega, rfl⟩

/-- What a block sets aside for the lottery. -/
def lotteryShare (nHeight : Int) (chainParams : CChainParams) : Int :=
  if nHeight ≤ chainParams.nLastPOWBlock then 0 else lotteryPart nHeight chainParams

theorem lotteryShare_nonneg (nHeight : Int) (chainParams : CChainParams) :
    0 ≤ lotteryShare nHeight chainParams := by
  have hcoin : (0 : Int) ≤ COIN := by decide
  unfold lotteryShare
  rcases lotteryPart_cases nHeight chainParams with ⟨-, hpart⟩ | ⟨-, hpart⟩
  · rw [hpart]
    split <;> omega
  · rw [hpart]
    split <;> omega

/-- An earlier block sets aside as much as a later one, or nothing. -/
theorem lotteryShare_prior (hord : priorHeight ≤ nHeight) :
    lotteryShare priorHeight chainParams = 0 ∨
      lotteryShare priorHeight chainParams = lotteryShare nHeight chainParams := by
  unfold lotteryShare
  by_cases hlow : priorHeight ≤ chainParams.nLastPOWBlock
  · rw [if_pos hlow]
    exact .inl rfl
  · rw [if_neg hlow, if_neg (by omega : ¬ nHeight ≤ chainParams.nLastPOWBlock)]
    rcases lotteryPart_cases priorHeight chainParams with ⟨-, hp⟩ | ⟨hst, hp⟩
    · exact .inl hp
    · right
      rcases lotteryPart_cases nHeight chainParams with ⟨hpre, -⟩ | ⟨-, hpart⟩
      · omega
      · rw [hp, hpart]

/-- The rewards of a single block, before cycles are accounted for.  The assertion can only fail
at the premine. -/
theorem getBlockSubsidity_inactive (hsps : sporks.Inactive) (nHeight : Int)
    (h : nHeight ≠ 1 ∨ 1 ≤ chainParams.nLastPOWBlock) :
    ∃ rewards, getBlockSubsidity sporks nHeight chainParams = some rewards ∧
      0 ≤ rewards.nMasternodeReward ∧
      rewards.nLotteryReward = lotteryShare nHeight chainParams := by
  unfold getBlockSubsidity lotteryShare
  simp only [getFullBlockValue, hsps.blockValue, hsps.blockPayments]
  by_cases hlow : nHeight ≤ chainParams.nLastPOWBlock
  · simp only [if_pos hlow]
    exact ⟨_, rfl, le_refl _, rfl⟩
  · have hsub := blockSubsidy_ge_of_ne chainParams (by omega : nHeight ≠ 1)
    have hc : lotteryPart nHeight chainParams ≤ blockSubsidy nHeight chainParams := by
      have hcoin : (0 : Int) ≤ COIN := by decide
      rcases lotteryPart_cases nHeight chainParams with ⟨-, hpart⟩ | ⟨-, hpart⟩
      · omega
      · omega
    simp only [if_neg hlow, if_neg (not_lt.mpr hc)]
    refine ⟨_, rfl, ?_, rfl⟩
    exact Int.tdiv_nonneg (by omega) (by decide)

end Legacy

namespace CChainParams

/-- The treasury's update only needs the subsidy at the last payment. -/
theorem updateTreasuryReward_exists (hsps : sporks.Inactive) (nHeight : Int)
    {isTreasuryBlock : Bool} (hp : isTreasuryBlock = true →
      nHeight - chainParams.getTreasuryBlockPaymentCycle nHeight ≠ 1 ∨
        1 ≤ chainParams.nLastPOWBlock) (rewards : CBlockRewards) :
    ∃ treasury charity,
      chainParams.updateTreasuryReward sporks nHeight rewards isTreasuryBlock
        = some { rewards with nTreasuryReward := treasury, nCharityReward := charity } := by
  cases isTreasuryBlock with
  | true =>
    obtain ⟨prior, hp, -⟩ := Legacy.getBlockSubsidity_inactive hsps _ (hp rfl)
    simp only [updateTreasuryReward, if_true, hp, bind_eq_bind, bind_some]
    exact ⟨_, _, rfl⟩
  | false => exact ⟨_, _, rfl⟩

theorem cycleReward_nonneg {prior reward : Int} (hht : 0 ≤ nHeight)
    (hord : priorHeight ≤ nHeight) (hrew : 0 ≤ reward) (hp : prior = 0 ∨ prior = reward) :
    0 ≤ chainParams.cycleReward nHeight priorHeight prior reward := by
  have hr : 0 ≤ nHeight - nHeight.tdiv chainParams.nSubsidyHalvingInterval *
      chainParams.nSubsidyHalvingInterval := by
    have hmod := Int.tmod_nonneg chainParams.nSubsidyHalvingInterval hht
    have hs := Int.tmod_add_mul_tdiv nHeight chainParams.nSubsidyHalvingInterval
    rw [Int.mul_comm] at hs
    omega
  simp only [cycleReward]
  rcases hp with rfl | rfl
  · rw [Int.zero_mul, Int.zero_add]
    exact Int.mul_nonneg hrew hr
  · -- the weights add up to the length of the cycle
    rw [← Int.mul_add]
    exact Int.mul_nonneg hrew (by omega)

section

variable (hsps : sporks.Inactive) (hpow : 1 ≤ chainParams.nLastPOWBlock)
  (hc : 0 ≤ chainParams.nLotteryBlockCycle) (hht : 0 ≤ nHeight)

include hsps hpow hc hht

theorem updateLotteryReward_inactive {rewards : CBlockRewards}
    (hlot : rewards.nLotteryReward = Legacy.lotteryShare nHeight chainParams)
    (isLotteryBlock : Bool) :
    ∃ updated, chainParams.updateLotteryReward sporks nHeight rewards isLotteryBlock
        = some updated ∧
      updated.nMasternodeReward = rewards.nMasternodeReward ∧ 0 ≤ updated.nLotteryReward := by
  have hlen : chainParams.getLotteryBlockPaymentCycle nHeight
      = chainParams.nLotteryBlockCycle := by
    unfold getLotteryBlockPaymentCycle superblockCycleLength
    split <;> rfl
  have hord : nHeight - chainParams.getLotteryBlockPaymentCycle nHeight ≤ nHeight := by
    omega
  cases isLotteryBlock with
  | true =>
    obtain ⟨prior, hp, -, hpart⟩ := Legacy.getBlockSubsidity_inactive hsps
      (nHeight - chainParams.getLotteryBlockPaymentCycle nHeight) (.inr hpow)
    simp only [updateLotteryReward, if_true, hp, bind_eq_bind, bind_some]
    refine ⟨_, rfl, rfl, cycleReward_nonneg hht hord ?_ ?_⟩
    · rw [hlot]
      exact Legacy.lotteryShare_nonneg nHeight chainParams
    · rw [hlot, hpart]
      exact Legacy.lotteryShare_prior hord
  | false =>
    refine ⟨_, rfl, rfl, ?_⟩
    exact cycleReward_nonneg hht hord (le_refl _) (.inl rfl)

/-- **Rewards exist.**  Without subsidy sporks no assertion fails, and no reward is negative
among those that a coinstake's check relies on. -/
theorem getBlockSubsidity_inactive :
    ∃ rewards, chainParams.getBlockSubsidity sporks nHeight = some rewards ∧
      0 ≤ rewards.nMasternodeReward ∧ 0 ≤ rewards.nLotteryReward := by
  obtain ⟨legacy, hl, hmn, hpart⟩ := Legacy.getBlockSubsidity_inactive hsps nHeight
    (.inr hpow)
  obtain ⟨treasury, charity, htrs⟩ := updateTreasuryReward_exists hsps nHeight
    (fun _ : chainParams.isValidTreasuryBlockHeight nHeight = true => .inr hpow) legacy
  obtain ⟨rewards, hrew, hmn', hlot⟩ := updateLotteryReward_inactive hsps hpow hc
    hht (show CBlockRewards.nLotteryReward { legacy with
      nTreasuryReward := treasury, nCharityReward := charity } = _ from hpart)
    (chainParams.isValidLotteryBlockHeight nHeight)
  refine ⟨rewards, ?_, ?_, hlot⟩
  · simp [getBlockSubsidity, hl, htrs, hrew]
  · rw [hmn']
    exact hmn

end

end CChainParams

end Divi
