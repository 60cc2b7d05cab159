/-
Superblocks pay what their cycle has set aside.

A treasury or lottery block is paid by a closed form: the rate of the previous payment
for the heights up to the last change of the subsidy, the current rate for the rest.  The
rates are constant between two changes and a cycle spans at most one of them, so the
closed form is the sum over the blocks of the cycle.  Blocks 0 and 1 have values of their
own, so the cycle has to start behind them.
-/
import Divi.Lib.Piecewise
import Divi.Proofs.Rewards
import Divi.Proofs.SuperblockHeights

namespace Divi

open Legacy Option

variable {nHeight P H : Int} {rewards prior updated : CBlockRewards} {sporks : SubsidySporks}
  {isLotteryBlock isTreasuryBlock : Bool}

/-- What the closed form needs of the parameters: cycles no longer than a subsidy interval. -/
structure CChainParams.ShortCycles (p : CChainParams) : Prop where
  lottery : 0 < p.nLotteryBlockCycle
  treasury : 0 < p.nTreasuryPaymentsCycle
  lotteryFits : p.nLotteryBlockCycle ≤ p.nSubsidyHalvingInterval
  treasuryFits : p.nTreasuryPaymentsCycle ≤ p.nSubsidyHalvingInterval

/-- A height from which on blocks are neither proof of work nor paid before the starts. -/
structure CChainParams.Settled (p : CChainParams) (nHeight : Int) : Prop where
  stake : p.nLastPOWBlock < nHeight
  lotteryStarted : p.nLotteryBlockStartBlock ≤ nHeight
  treasuryStarted : p.nTreasuryPaymentsStartBlock ≤ nHeight

/-! ### Rewards of a single block -/

namespace Legacy

variable {chainParams : CChainParams}

/-- Blocks of one interval have the same value, behind the first two. -/
theorem blockSubsidy_congr {a b : Int} (ha : 2 ≤ a) (hb : 2 ≤ b)
    (h : a / chainParams.nSubsidyHalvingInterval
      = b / chainParams.nSubsidyHalvingInterval) :
    blockSubsidy a chainParams = blockSubsidy b chainParams := by
  unfold blockSubsidy
  rw [if_neg (by omega), if_neg (by omega), if_neg (by omega), if_neg (by omega),
    Int.tdiv_eq_ediv_of_nonneg (by omega), Int.tdiv_eq_ediv_of_nonneg (by omega), h]

/-- The rewards of a block that sets aside its lottery part. -/
def stakeRewards (nHeight : Int) (chainParams : CChainParams) : CBlockRewards :=
  blockRewards (blockSubsidy nHeight chainParams - 50 * COIN) (50 * COIN) 38 45 16 0 1

theorem getBlockSubsidity_settled (hsps : sporks.Inactive)
    (hset : chainParams.Settled nHeight) (h : nHeight ≠ 1) :
    getBlockSubsidity sporks nHeight chainParams
      = some (stakeRewards nHeight chainParams) := by
  have hpow : ¬ nHeight ≤ chainParams.nLastPOWBlock := not_le.mpr hset.stake
  have hpart : lotteryPart nHeight chainParams = 50 * COIN := if_pos hset.lotteryStarted
  have hc := blockSubsidy_ge_of_ne chainParams h
  unfold getBlockSubsidity stakeRewards
  simp only [getFullBlockValue, hsps.blockValue, hsps.blockPayments, hpart, if_neg hpow,
    if_neg (not_lt.mpr hc)]

end Legacy

namespace CChainParams

variable {p : CChainParams}

/-! ### The closed form of a cycle -/

/--
The closed form is the sum over the cycle, for any part of the rewards, as soon as the
cycle starts no earlier than the interval before the last one.
-/
theorem cycleReward_eq_sum (hint : 0 < p.nSubsidyHalvingInterval) (hP : 2 ≤ P) (hle : P ≤ H)
    (hp : (H / p.nSubsidyHalvingInterval - 1) * p.nSubsidyHalvingInterval ≤ P)
    (part : CBlockRewards → Int) :
    p.cycleReward H P (part (stakeRewards P p)) (part (stakeRewards H p))
      = ∑ h ∈ Finset.Ico P H, part (stakeRewards h p) := by
  have hsum := Piecewise.sum_Ico_eq_weights (f := fun h => part (stakeRewards h p))
    hint hle hp ?_
  · rw [hsum]
    simp only [cycleReward, Int.tdiv_eq_ediv_of_nonneg (by omega : 0 ≤ H)]
  · intro x hx _ y hy _ hs
    rw [stakeRewards, blockSubsidy_congr (by omega) (by omega) hs, stakeRewards]

/-- A cycle of at most one interval starts late enough. -/
theorem prior_of_short (hint : 0 < p.nSubsidyHalvingInterval)
    (hfits : H - P ≤ p.nSubsidyHalvingInterval) :
    (H / p.nSubsidyHalvingInterval - 1) * p.nSubsidyHalvingInterval ≤ P := by
  have hlow : H / p.nSubsidyHalvingInterval * p.nSubsidyHalvingInterval ≤ H :=
    Int.ediv_mul_le H (by omega)
  rw [Int.sub_mul, Int.one_mul]
  omega

/-! ### Where the cycles start -/

/-- A treasury height is a multiple of its cycle, or follows one of the lottery's. -/
theorem treasury_cases (h : p.isValidTreasuryBlockHeight H = true) :
    (H < p.transitionHeight ∧ p.nTreasuryPaymentsCycle ∣ H) ∨
      (p.transitionHeight ≤ H ∧ p.nLotteryBlockCycle ∣ H - 1) := by
  unfold isValidTreasuryBlockHeight at h
  by_cases hlt : H < p.transitionHeight
  · rw [if_pos hlt] at h
    simp only [Legacy.isValidTreasuryBlockHeight, Bool.and_eq_true, beq_iff_eq] at h
    exact .inl ⟨hlt, Int.dvd_of_tmod_eq_zero h.2⟩
  · rw [if_neg hlt] at h
    exact .inr ⟨by omega, ((lottery_iff p (H - 1)).mp h).1⟩

/-- Two neighbouring multiples of the lottery's cycle leave only the cycle of one block. -/
theorem lotteryCycle_eq_one (hp : p.ShortCycles) (h : p.nLotteryBlockCycle ∣ H)
    (hprev : p.nLotteryBlockCycle ∣ H - 1) : p.nLotteryBlockCycle = 1 := by
  exact Int.eq_one_of_dvd_one hp.lottery.le (dvd_one_of_neighbours h hprev)

theorem getTreasuryBlockPaymentCycle_pos (hp : p.ShortCycles) (H : Int) :
    0 < p.getTreasuryBlockPaymentCycle H := by
  have hL := hp.lottery
  have hT := hp.treasury
  unfold getTreasuryBlockPaymentCycle superblockCycleLength
  split
  · exact hT
  · split
    · omega
    · exact hL

/--
A treasury cycle starts no earlier than the interval before the last one.  The cycle of the
first payment behind the switch is one block longer than the others, and starts on a
change of the subsidy where that makes it longer than an interval.
-/
theorem treasury_prior (hp : p.ShortCycles) (h : p.isValidTreasuryBlockHeight H = true)
    (hP : 2 ≤ H - p.getTreasuryBlockPaymentCycle H) :
    (H / p.nSubsidyHalvingInterval - 1) * p.nSubsidyHalvingInterval
      ≤ H - p.getTreasuryBlockPaymentCycle H := by
  obtain ⟨hL, hT, hLI, hTI⟩ := hp
  have hint : 0 < p.nSubsidyHalvingInterval := by omega
  by_cases hfits : p.getTreasuryBlockPaymentCycle H ≤ p.nSubsidyHalvingInterval
  · exact prior_of_short hint (by omega)
  · unfold getTreasuryBlockPaymentCycle superblockCycleLength at hP hfits ⊢
    by_cases hlt : H < p.transitionHeight
    · rw [if_pos hlt] at hfits
      omega
    by_cases hs : H ≤ p.transitionHeight + 1
    · rw [if_neg hlt, if_pos hs] at hP hfits ⊢
      have hlen : p.nTreasuryPaymentsCycle = p.nSubsidyHalvingInterval := by omega
      have ht : p.transitionHeight = p.nLotteryBlockCycle * p.nSubsidyHalvingInterval := by
        rw [transitionHeight, hlen]
      rcases treasury_cases h with ⟨hlt', -⟩ | ⟨-, hdvd⟩
      · omega
      by_cases hat : H = p.transitionHeight
      · -- the switch height is only paid with a cycle of one block
        rw [hat] at hdvd
        have hone := lotteryCycle_eq_one ⟨hL, hT, hLI, hTI⟩ (lottery_dvd_transition p) hdvd
        rw [hone, Int.one_mul] at ht
        omega
      · have ha : H = p.nLotteryBlockCycle * p.nSubsidyHalvingInterval + 1 := by omega
        have hst : H - (p.nTreasuryPaymentsCycle + 1)
            = (p.nLotteryBlockCycle - 1) * p.nSubsidyHalvingInterval := by
          rw [ha, hlen]
          ring
        have hlong : 2 ≤ p.nSubsidyHalvingInterval := by
          by_contra hsh
          have hone : p.nSubsidyHalvingInterval = 1 := by omega
          rw [hst, hone] at hP
          omega
        have hquot : H / p.nSubsidyHalvingInterval < p.nLotteryBlockCycle + 1 := by
          refine (Int.ediv_lt_iff_lt_mul hint).mpr ?_
          rw [ha, Int.add_mul]
          omega
        rw [hst]
        exact Int.mul_le_mul_of_nonneg_right (by omega) (by omega)
    · rw [if_neg hlt, if_neg hs] at hfits
      omega

/-! ### The two updates -/

theorem cycleReward_zero (p : CChainParams) (H P : Int) : p.cycleReward H P 0 0 = 0 := by
  simp [cycleReward]

theorem updateTreasuryReward_paid (rewards : CBlockRewards)
    (hp : Legacy.getBlockSubsidity sporks (H - p.getTreasuryBlockPaymentCycle H) p
      = some prior) :
    p.updateTreasuryReward sporks H rewards true = some { rewards with
      nTreasuryReward := p.cycleReward H (H - p.getTreasuryBlockPaymentCycle H)
        prior.nTreasuryReward rewards.nTreasuryReward
      nCharityReward := p.cycleReward H (H - p.getTreasuryBlockPaymentCycle H)
        prior.nCharityReward rewards.nCharityReward } := by
  simp [updateTreasuryReward, hp]

theorem updateLotteryReward_paid (rewards : CBlockRewards)
    (hp : Legacy.getBlockSubsidity sporks (H - p.getLotteryBlockPaymentCycle H) p
      = some prior) :
    p.updateLotteryReward sporks H rewards true = some { rewards with
      nLotteryReward := p.cycleReward H (H - p.getLotteryBlockPaymentCycle H)
        prior.nLotteryReward rewards.nLotteryReward } := by
  simp [updateLotteryReward, hp]

/-- The lottery's update leaves the treasury's and the charity's parts alone. -/
theorem updateLotteryReward_frame
    (h : p.updateLotteryReward sporks H rewards isLotteryBlock = some updated) :
    updated.nTreasuryReward = rewards.nTreasuryReward ∧
      updated.nCharityReward = rewards.nCharityReward := by
  cases isLotteryBlock with
  | true =>
    simp only [updateLotteryReward, if_true, bind_eq_bind, bind_eq_some_iff] at h
    obtain ⟨prior, -, ⟨⟩⟩ := h
    exact ⟨rfl, rfl⟩
  | false =>
    cases h
    exact ⟨rfl, rfl⟩

theorem updateLotteryReward_exists (hsps : sporks.Inactive)
    (hp : isLotteryBlock = true → H - p.getLotteryBlockPaymentCycle H ≠ 1)
    (rewards : CBlockRewards) :
    ∃ lottery, p.updateLotteryReward sporks H rewards isLotteryBlock
      = some { rewards with nLotteryReward := lottery } := by
  cases isLotteryBlock with
  | true =>
    obtain ⟨prior, heq, -⟩ := Legacy.getBlockSubsidity_inactive hsps _ (.inl (hp rfl))
    exact ⟨_, updateLotteryReward_paid rewards heq⟩
  | false => exact ⟨_, rfl⟩

theorem getBlockSubsidity_eq_some : p.getBlockSubsidity sporks H = some rewards ↔
      ∃ legacy treasury, Legacy.getBlockSubsidity sporks H p = some legacy ∧
        p.updateTreasuryReward sporks H legacy (p.isValidTreasuryBlockHeight H) = some treasury ∧
        p.updateLotteryReward sporks H treasury (p.isValidLotteryBlockHeight H) = some rewards := by
  simp [getBlockSubsidity, bind_eq_some_iff]

/-! ### No look-up hits the premine -/

theorem lottery_prior_ne_one (hp : p.ShortCycles) (hH : 3 ≤ H)
    (h : p.isValidLotteryBlockHeight H = true) : H - p.getLotteryBlockPaymentCycle H ≠ 1 := by
  rw [getLotteryBlockPaymentCycle_eq]
  intro heq
  obtain ⟨hdvd, -⟩ := (lottery_iff p H).mp h
  have hone : p.nLotteryBlockCycle = 1 := by
    refine lotteryCycle_eq_one hp hdvd ?_
    exact ⟨1, by omega⟩
  omega

theorem treasury_prior_ne_one (hp : p.ShortCycles) (hH : 3 ≤ H)
    (hlot : p.isValidLotteryBlockHeight H = true) (h : p.isValidTreasuryBlockHeight H = true) :
    H - p.getTreasuryBlockPaymentCycle H ≠ 1 := by
  obtain ⟨hdvd, -⟩ := (lottery_iff p H).mp hlot
  intro heq
  rcases treasury_cases h with ⟨hlt, hTdvd⟩ | ⟨hge, hprev⟩
  · rw [getTreasuryBlockPaymentCycle, if_pos hlt] at heq
    have hone : p.nTreasuryPaymentsCycle ∣ 1 := by
      have hsub := Int.dvd_sub hTdvd (Int.dvd_refl p.nTreasuryPaymentsCycle)
      rwa [heq] at hsub
    have := Int.le_of_dvd (by omega) hone
    omega
  · -- a lottery and a treasury height behind the switch: the lottery's cycle is one block
    have hone := lotteryCycle_eq_one hp hdvd hprev
    have ht : p.transitionHeight = p.nTreasuryPaymentsCycle := by
      rw [transitionHeight, hone, Int.one_mul]
    simp only [getTreasuryBlockPaymentCycle, superblockCycleLength,
      if_neg (by omega : ¬ H < p.transitionHeight)] at heq
    split at heq <;> omega

/-! ### Whole cycles -/

theorem Settled.mono {h : Int} (hP : p.Settled P) (hle : P ≤ h) : p.Settled h :=
  ⟨lt_of_lt_of_le hP.stake hle, le_trans hP.lotteryStarted hle, le_trans hP.treasuryStarted hle⟩

theorem legacy_of_settled (hsps : sporks.Inactive) (hset : p.Settled P) (hP : 2 ≤ P)
    {h : Int} (hle : P ≤ h) :
    Legacy.getBlockSubsidity sporks h p = some (Legacy.stakeRewards h p) :=
  getBlockSubsidity_settled hsps (hset.mono hle) (by omega)

/-- The treasury and the charity are paid the sum over their cycle. -/
theorem treasury_cycle (hp : p.ShortCycles) (hsps : sporks.Inactive)
    (h : p.isValidTreasuryBlockHeight H = true) (hc : P = H - p.getTreasuryBlockPaymentCycle H)
    (hset : p.Settled P) (hP : 2 ≤ P) :
    ∃ rewards, p.getBlockSubsidity sporks H = some rewards ∧
      rewards.nTreasuryReward = ∑ k ∈ Finset.Ico P H, (stakeRewards k p).nTreasuryReward ∧
      rewards.nCharityReward = ∑ k ∈ Finset.Ico P H, (Legacy.stakeRewards k p).nCharityReward := by
  have hpos := getTreasuryBlockPaymentCycle_pos hp H
  have hint : 0 < p.nSubsidyHalvingInterval := lt_of_lt_of_le hp.treasury hp.treasuryFits
  have hpr := treasury_prior hp h (hc ▸ hP)
  rw [← hc] at hpr
  have hlegacyP := legacy_of_settled hsps hset hP (le_refl P)
  have hlegacyH := legacy_of_settled hsps hset hP (by omega : P ≤ H)
  rw [hc] at hlegacyP
  have htrs := updateTreasuryReward_paid (Legacy.stakeRewards H p) hlegacyP
  rw [← h, ← hc] at htrs
  obtain ⟨lottery, hlot⟩ := updateLotteryReward_exists hsps
    (lottery_prior_ne_one hp (by omega : 3 ≤ H)) { stakeRewards H p with
      nTreasuryReward := p.cycleReward H P (stakeRewards P p).nTreasuryReward
        (stakeRewards H p).nTreasuryReward
      nCharityReward := p.cycleReward H P (stakeRewards P p).nCharityReward
        (stakeRewards H p).nCharityReward }
  refine ⟨_, getBlockSubsidity_eq_some.mpr ⟨_, _, hlegacyH, htrs, hlot⟩, ?_, ?_⟩
  · exact cycleReward_eq_sum hint hP (by omega) hpr CBlockRewards.nTreasuryReward
  · exact cycleReward_eq_sum hint hP (by omega) hpr CBlockRewards.nCharityReward

/-- The lottery is paid the sum over its cycle. -/
theorem lottery_cycle (hp : p.ShortCycles) (hsps : sporks.Inactive)
    (h : p.isValidLotteryBlockHeight H = true) (hc : P = H - p.getLotteryBlockPaymentCycle H)
    (hset : p.Settled P) (hP : 2 ≤ P) :
    ∃ rewards, p.getBlockSubsidity sporks H = some rewards ∧
      rewards.nLotteryReward = ∑ k ∈ Finset.Ico P H, (Legacy.stakeRewards k p).nLotteryReward := by
  have hlen := getLotteryBlockPaymentCycle_eq p H
  have hpos := hp.lottery
  have hfits := hp.lotteryFits
  have hint : 0 < p.nSubsidyHalvingInterval := lt_of_lt_of_le hp.lottery hp.lotteryFits
  have hpr := prior_of_short hint (by omega : H - P ≤ p.nSubsidyHalvingInterval)
  have hlegacyP := legacy_of_settled hsps hset hP (le_refl P)
  have hlegacyH := legacy_of_settled hsps hset hP (by omega : P ≤ H)
  obtain ⟨treasury, charity, htrs⟩ := updateTreasuryReward_exists hsps H (fun htrs =>
    .inl (treasury_prior_ne_one hp (by omega) h htrs)) (stakeRewards H p)
  rw [hc] at hlegacyP
  have hlot := updateLotteryReward_paid { Legacy.stakeRewards H p with
    nTreasuryReward := treasury, nCharityReward := charity } hlegacyP
  rw [← h, ← hc] at hlot
  refine ⟨_, getBlockSubsidity_eq_some.mpr ⟨_, _, hlegacyH, htrs, hlot⟩, ?_⟩
  exact cycleReward_eq_sum hint hP (by omega) hpr CBlockRewards.nLotteryReward

/-- Between the superblocks nothing is paid to their beneficiaries. -/
theorem unpaid_rewards {h : Int} (hrew : p.getBlockSubsidity sporks h = some rewards) :
    (p.isValidTreasuryBlockHeight h = false →
      rewards.nTreasuryReward = 0 ∧ rewards.nCharityReward = 0) ∧
    (p.isValidLotteryBlockHeight h = false → rewards.nLotteryReward = 0) := by
  obtain ⟨legacy, treasury, -, htrs, hlot⟩ := getBlockSubsidity_eq_some.mp hrew
  constructor
  · intro hno
    rw [hno] at htrs
    cases htrs
    obtain ⟨htrs, hc⟩ := updateLotteryReward_frame hlot
    exact ⟨htrs.trans (cycleReward_zero ..), hc.trans (cycleReward_zero ..)⟩
  · intro hno
    rw [hno] at hlot
    cases hlot
    exact cycleReward_zero ..

/--
**Superblocks mint what their cycle has set aside.**  The treasury, charity and lottery
rewards of a superblock are the sums of the single blocks' rewards from the previous
payment up to the block before it, and between superblocks they are zero.
-/
theorem superblock_rewards_exact (p : CChainParams) (sporks : SubsidySporks)
    (hp : p.ShortCycles) (hsps : sporks.Inactive) :
    (∀ H P, p.isValidTreasuryBlockHeight H = true →
      P = H - p.getTreasuryBlockPaymentCycle H → p.Settled P → 2 ≤ P →
      ∃ rewards, ∃ legacy : Int → CBlockRewards, p.getBlockSubsidity sporks H = some rewards ∧
        (∀ h, P ≤ h → h < H → Legacy.getBlockSubsidity sporks h p = some (legacy h)) ∧
        rewards.nTreasuryReward = ∑ h ∈ Finset.Ico P H, (legacy h).nTreasuryReward ∧
        rewards.nCharityReward = ∑ h ∈ Finset.Ico P H, (legacy h).nCharityReward) ∧
    (∀ H P, p.isValidLotteryBlockHeight H = true →
      P = H - p.getLotteryBlockPaymentCycle H → p.Settled P → 2 ≤ P →
      ∃ rewards, ∃ legacy : Int → CBlockRewards, p.getBlockSubsidity sporks H = some rewards ∧
        (∀ h, P ≤ h → h < H → Legacy.getBlockSubsidity sporks h p = some (legacy h)) ∧
        rewards.nLotteryReward = ∑ h ∈ Finset.Ico P H, (legacy h).nLotteryReward) ∧
    (∀ h rewards, p.nLastPOWBlock < h → p.getBlockSubsidity sporks h = some rewards →
      (p.isValidTreasuryBlockHeight h = false →
        rewards.nTreasuryReward = 0 ∧ rewards.nCharityReward = 0) ∧
      (p.isValidLotteryBlockHeight h = false → rewards.nLotteryReward = 0)) ∧
    (1 ≤ p.nLastPOWBlock → ∀ h, p.nLastPOWBlock < h →
      ∃ rewards, p.getBlockSubsidity sporks h = some rewards) := by
  refine ⟨?_, ?_, ?_, ?_⟩
  · intro H P h hc hset hP
    obtain ⟨rewards, hrew, htrs, hch⟩ :=
      treasury_cycle hp hsps h hc hset hP
    refine ⟨rewards, fun k => stakeRewards k p, hrew, ?_, htrs, hch⟩
    intro k hk _
    exact legacy_of_settled hsps hset hP hk
  · intro H P h hc hset hP
    obtain ⟨rewards, hrew, hlot⟩ := lottery_cycle hp hsps h hc hset hP
    refine ⟨rewards, fun k => stakeRewards k p, hrew, ?_, hlot⟩
    intro k hk _
    exact legacy_of_settled hsps hset hP hk
  · intro h rewards _ hrew
    exact unpaid_rewards hrew
  · intro hpow h hh
    obtain ⟨rewards, hrew, -⟩ := getBlockSubsidity_inactive hsps hpow
      (le_of_lt hp.lottery) (by omega : 0 ≤ h)
    exact ⟨rewards, hrew⟩

/-- The main network's treasury cycle in which the subsidy drops for the first time. -/
theorem superblock_rewards_exact_main :
    ∃ rewards, ∃ legacy : Int → CBlockRewards,
      mainParams.getBlockSubsidity {} 1058505 = some rewards ∧
      (∀ h, 1048424 ≤ h → h < 1058505 →
        Legacy.getBlockSubsidity {} h mainParams = some (legacy h)) ∧
      rewards.nTreasuryReward
        = ∑ h ∈ Finset.Ico 1048424 1058505, (legacy h).nTreasuryReward ∧
      rewards.nCharityReward
        = ∑ h ∈ Finset.Ico 1048424 1058505, (legacy h).nCharityReward :=
  (superblock_rewards_exact mainParams {} ⟨by decide, by decide, by decide, by decide⟩
    ⟨rfl, rfl⟩).1 1058505 1048424 (by decide) (by decide)
    ⟨by decide, by decide, by decide⟩ (by decide)

/-- Parameters whose premine is no proof-of-work block and starts a treasury cycle. -/
def stakedPremineParams : CChainParams :=
  { regTestParams with
    premineAmt := 617222416 * COIN
    nLastPOWBlock := 0
    nLotteryBlockStartBlock := 1
    nTreasuryPaymentsStartBlock := 1
    nTreasuryPaymentsCycle := 1 }

/-- The cycle of block 2 is the premine alone, whose share is not what block 2 pays. -/
theorem premine_cycle_misses :
    let p := stakedPremineParams
    (0 < p.nLotteryBlockCycle ∧ p.nLotteryBlockCycle ≤ p.nSubsidyHalvingInterval ∧
      0 < p.nTreasuryPaymentsCycle ∧ p.nTreasuryPaymentsCycle ≤ p.nSubsidyHalvingInterval) ∧
    p.isValidTreasuryBlockHeight 2 = true ∧ 2 - p.getTreasuryBlockPaymentCycle 2 = 1 ∧
    (p.nLastPOWBlock < 1 ∧ p.nLotteryBlockStartBlock ≤ 1 ∧ p.nTreasuryPaymentsStartBlock ≤ 1) ∧
    (p.getBlockSubsidity {} 2).map CBlockRewards.nTreasuryReward = some (-9875519456000000) ∧
    (Legacy.getBlockSubsidity {} 1 p).map CBlockRewards.nTreasuryReward
      = some 9875557856000000 := by
  decide

end CChainParams

end Divi
