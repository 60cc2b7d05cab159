/-
The split of a block's value under sporks.

A value of `SPORK_15_BLOCK_VALUE` is valid from zero coins on, although the lottery takes
fifty, and the percentages of `SPORK_13_BLOCK_PAYMENTS` only have to add up to a hundred,
so some may be negative.  The block value that is left after the lottery is a number of
whole coins, so a negative percentage of it shows as soon as it is not zero.
-/
import Divi.CheckedSubsidy
import Divi.Proofs.Rewards

namespace Divi

open SubsidySporks List Option BlockPaymentSporkValue

variable {coins nLotteryPart stake masternode treasury proposals charity nSubsidy percentage : Int}
  {rewards : CBlockRewards}

/-- The six amounts of the rewards. -/
def CBlockRewards.components (rewards : CBlockRewards) : List Int :=
  [rewards.nStakeReward, rewards.nMasternodeReward, rewards.nTreasuryReward,
    rewards.nCharityReward, rewards.nLotteryReward, rewards.nProposalsReward]

namespace SubsidySporks

/-- The active value of `SPORK_15_BLOCK_VALUE` at a height. -/
def activeBlockValue (sporks : SubsidySporks) (nHeight : Int) : Option BlockSubsiditySporkValue :=
  sporks.blockValue.map fun values =>
    getActiveMultiValueSpork BlockSubsiditySporkValue.nActivationBlockHeight values nHeight
      (sporks.nBlockTime nHeight)

/-- The active value of `SPORK_13_BLOCK_PAYMENTS` at a height. -/
def activeBlockPayments (sporks : SubsidySporks) (nHeight : Int) : Option BlockPaymentSporkValue :=
  sporks.blockPayments.map fun values =>
    getActiveMultiValueSpork BlockPaymentSporkValue.nActivationBlockHeight values nHeight
      (sporks.nBlockTime nHeight)

/-- The value of a block whose sporks are valid. -/
def valueInEffect (sporks : SubsidySporks) (nHeight : Int) (chainParams : CChainParams) : Int :=
  match sporks.activeBlockValue nHeight with
  | some v => v.nBlockSubsidity * COIN
  | none => blockSubsidy nHeight chainParams

/-- The percentages of a block whose sporks are valid. -/
def percentagesInEffect (sporks : SubsidySporks) (nHeight : Int) : List Int :=
  match sporks.activeBlockPayments nHeight with
  | some v => v.percentages
  | none => [38, 45, 16, 0, 1]

/-- Every spork that is active has a valid value whose activation follows the halvings. -/
structure ValidAt (sporks : SubsidySporks) (nHeight : Int) (chainParams : CChainParams) :
    Prop where
  blockValue : ∀ v ∈ sporks.activeBlockValue nHeight, v.isValid = true ∧
    v.nActivationBlockHeight.tmod chainParams.nSubsidyHalvingInterval = 0
  blockPayments : ∀ v ∈ sporks.activeBlockPayments nHeight, v.isValidChecked = some true ∧
    v.nActivationBlockHeight.tmod chainParams.nSubsidyHalvingInterval = 0

end SubsidySporks

namespace Legacy

variable {sporks : SubsidySporks} {nHeight : Int} {chainParams : CChainParams}

theorem getFullBlockValue_eq (hval : sporks.ValidAt nHeight chainParams) :
    getFullBlockValue sporks nHeight chainParams =
      sporks.valueInEffect nHeight chainParams := by
  have hblockValue := hval.blockValue
  unfold getFullBlockValue valueInEffect
  unfold activeBlockValue at hblockValue ⊢
  cases hsps : sporks.blockValue with
  | none => rfl
  | some values =>
    rw [hsps] at hblockValue
    simp only [map_some]
    rw [if_pos (hblockValue _ rfl)]

theorem isValid_of_checked {v : BlockPaymentSporkValue} {valid : Bool}
    (h : v.isValidChecked = some valid) : v.isValid = valid := by
  unfold isValidChecked at h
  unfold isValid
  split at h
  · rename_i hact
    obtain ⟨total, htot, rfl⟩ := map_eq_some_iff.mp h
    have he := Checked.eq_add_sum_of_foldlM_check htot
    rw [he]
    simp [hact, percentages]
  · rename_i hi
    simp only [Option.some.injEq] at h
    simp [hi, h]

/-- Sums of percentages that `IsValid` accepts are exact. -/
theorem percentages_sum {v : BlockPaymentSporkValue} (h : v.isValidChecked = some true) :
    v.percentages.sum = 100 := by
  have hval := isValid_of_checked h
  simp only [isValid, Bool.and_eq_true, beq_iff_eq] at hval
  exact hval.2

theorem percentagesInEffect_sum (hval : sporks.ValidAt nHeight chainParams) :
    (sporks.percentagesInEffect nHeight).sum = 100 := by
  unfold percentagesInEffect
  cases hact : sporks.activeBlockPayments nHeight with
  | none => rfl
  | some v => exact percentages_sum (hval.blockPayments v hact).1

theorem exists_percentagesInEffect (hval : sporks.ValidAt nHeight chainParams)
    (hht : chainParams.nLastPOWBlock < nHeight)
    (hc : lotteryPart nHeight chainParams ≤ sporks.valueInEffect nHeight chainParams) :
    ∃ stake masternode treasury proposals charity,
      sporks.percentagesInEffect nHeight = [stake, masternode, treasury, proposals, charity] ∧
      getBlockSubsidityChecked sporks nHeight chainParams = blockRewardsChecked
          (sporks.valueInEffect nHeight chainParams - lotteryPart nHeight chainParams)
          (lotteryPart nHeight chainParams) stake masternode treasury proposals charity := by
  have hp := hval.blockPayments
  unfold getBlockSubsidityChecked percentagesInEffect
  unfold activeBlockPayments at hp ⊢
  simp only [getFullBlockValue_eq hval, if_neg (not_le.mpr hht), if_neg (not_lt.mpr hc)]
  cases hsps : sporks.blockPayments with
  | none => exact ⟨38, 45, 16, 0, 1, rfl, rfl⟩
  | some values =>
    rw [hsps] at hp
    obtain ⟨hchk, hrule⟩ := hp _ rfl
    refine ⟨_, _, _, _, _, rfl, ?_⟩
    simp [hchk, hrule]

/-- The value that is left after the lottery is a number of whole coins. -/
theorem exists_coins (sporks : SubsidySporks) (chainParams : CChainParams) (hht : 2 ≤ nHeight) :
    ∃ coins, sporks.valueInEffect nHeight chainParams - lotteryPart nHeight chainParams =
      coins * COIN := by
  have hv : ∃ coins, sporks.valueInEffect nHeight chainParams = coins * COIN := by
    unfold valueInEffect
    cases sporks.activeBlockValue nHeight with
    | none =>
      unfold blockSubsidy
      rw [if_neg (by omega), if_neg (by omega)]
      exact ⟨_, rfl⟩
    | some v => exact ⟨_, rfl⟩
  obtain ⟨coins, hcns⟩ := hv
  obtain ⟨-, hpart⟩ | ⟨-, hpart⟩ := lotteryPart_cases nHeight chainParams
  · exact ⟨coins, by rw [hcns, hpart, sub_zero]⟩
  · exact ⟨coins - 50, by rw [hcns, hpart, sub_mul]⟩

theorem shareChecked_eq_some_iff {share : Int} : shareChecked nSubsidy percentage = some share ↔
      Checked.Fits 64 (nSubsidy * percentage) ∧ (nSubsidy * percentage).tdiv 100 = share := by
  unfold shareChecked
  rw [map_eq_some_iff]
  constructor
  · rintro ⟨product, hprod, rfl⟩
    obtain ⟨hfits, rfl⟩ := Checked.check_eq_some_iff.mp hprod
    exact ⟨hfits, rfl⟩
  · rintro ⟨hfits, rfl⟩
    exact ⟨_, Checked.check_of_fits hfits, rfl⟩

theorem blockRewardsChecked_eq_some_iff :
    blockRewardsChecked nSubsidy nLotteryPart stake masternode treasury proposals charity =
        some rewards ↔
      (∀ p ∈ [stake, masternode, treasury, proposals, charity], Checked.Fits 64 (nSubsidy * p)) ∧
      rewards = blockRewards nSubsidy nLotteryPart stake masternode treasury proposals charity := by
  unfold blockRewardsChecked
  simp only [Option.bind_eq_bind, Option.bind_eq_some_iff, shareChecked_eq_some_iff,
    Option.pure_def, Option.some.injEq, List.forall_mem_cons, List.not_mem_nil, false_imp_iff,
    implies_true, and_true]
  constructor
  · rintro ⟨-, ⟨hs, rfl⟩, -, ⟨hmn, rfl⟩, -, ⟨htrs, rfl⟩, -, ⟨hc, rfl⟩, -,
      ⟨hp, rfl⟩, rfl⟩
    exact ⟨⟨hs, hmn, htrs, hp, hc⟩, rfl⟩
  · rintro ⟨⟨hs, hmn, htrs, hp, hc⟩, rfl⟩
    exact ⟨_, ⟨hs, rfl⟩, _, ⟨hmn, rfl⟩, _, ⟨htrs, rfl⟩, _, ⟨hc, rfl⟩, _,
      ⟨hp, rfl⟩, rfl⟩

theorem share_coins (coins percentage : Int) :
    (coins * COIN * percentage).tdiv 100 = coins * percentage * 1000000 := by
  have hprod : coins * COIN * percentage = coins * percentage * 1000000 * 100 := by
    rw [COIN]
    ring
  rw [hprod, Int.mul_tdiv_cancel _ (by decide)]

theorem share_nonneg_iff (hcns : 0 ≤ coins) :
    0 ≤ (coins * COIN * percentage).tdiv 100 ↔ coins = 0 ∨ 0 ≤ percentage := by
  rw [share_coins]
  obtain rfl | hpos := hcns.eq_or_lt
  · simp
  · rw [mul_nonneg_iff_of_pos_right (by decide), mul_nonneg_iff_of_pos_left hpos]
    omega

theorem blockRewards_nonneg_iff (hcns : 0 ≤ coins) (hlot : 0 ≤ nLotteryPart) :
    (∀ x ∈ (blockRewards (coins * COIN) nLotteryPart stake masternode treasury proposals
        charity).components, 0 ≤ x) ↔
      coins = 0 ∨ ∀ p ∈ [stake, masternode, treasury, proposals, charity], 0 ≤ p := by
  simp only [CBlockRewards.components, blockRewards, forall_mem_cons, not_mem_nil,
    false_imp_iff, implies_true, and_true, share_nonneg_iff hcns]
  omega

/-- Nothing is lost in the split. -/
theorem blockRewards_sum (coins nLotteryPart : Int)
    (hsum : stake + masternode + treasury + proposals + charity = 100) :
    (blockRewards (coins * COIN) nLotteryPart stake masternode treasury proposals
      charity).components.sum = coins * COIN + nLotteryPart := by
  have htot : coins * stake * 1000000 + coins * masternode * 1000000 +
      coins * treasury * 1000000 + coins * proposals * 1000000 + coins * charity * 1000000 =
        coins * (stake + masternode + treasury + proposals + charity) * 1000000 := by
    ring
  rw [hsum] at htot
  simp only [CBlockRewards.components, blockRewards, sum_cons, sum_nil, share_coins]
  rw [COIN]
  omega

/--
**When the split is safe.**  At a height above the proof-of-work blocks, with valid values of
the two sporks where they are active, the rewards exist, are not negative and do not exceed
the block's value if and only if the value covers the lottery's part, no percentage is
negative unless nothing else is left to split, and no product overflows.
-/
theorem subsidy_split_safe_iff (hpow : 1 ≤ chainParams.nLastPOWBlock)
    (hht : chainParams.nLastPOWBlock < nHeight) (hval : sporks.ValidAt nHeight chainParams) :
    (∃ rewards, getBlockSubsidityChecked sporks nHeight chainParams = some rewards ∧
      (∀ x ∈ rewards.components, 0 ≤ x) ∧
      rewards.components.sum ≤ getFullBlockValue sporks nHeight chainParams) ↔
    lotteryPart nHeight chainParams ≤ sporks.valueInEffect nHeight chainParams ∧
      (sporks.valueInEffect nHeight chainParams = lotteryPart nHeight chainParams ∨
        ∀ p ∈ sporks.percentagesInEffect nHeight, 0 ≤ p) ∧
      ∀ p ∈ sporks.percentagesInEffect nHeight, Checked.Fits 64
        ((sporks.valueInEffect nHeight chainParams - lotteryPart nHeight chainParams) * p) := by
  have hcoinPos : (0 : Int) < COIN := by decide
  have hlot : 0 ≤ lotteryPart nHeight chainParams := by
    obtain ⟨-, hpart⟩ | ⟨-, hpart⟩ := lotteryPart_cases nHeight chainParams
    · omega
    · omega
  have hsum := percentagesInEffect_sum hval
  rw [getFullBlockValue_eq hval]
  by_cases hc : lotteryPart nHeight chainParams ≤
      sporks.valueInEffect nHeight chainParams
  · obtain ⟨coins, hcns⟩ := exists_coins sporks chainParams (by omega : 2 ≤ nHeight)
    have hcoinsNonneg : 0 ≤ coins := by
      have hprod : 0 ≤ coins * COIN := by omega
      exact nonneg_of_mul_nonneg_left hprod hcoinPos
    have hn : sporks.valueInEffect nHeight chainParams =
        lotteryPart nHeight chainParams ↔ coins = 0 := by
      constructor
      · intro heq
        have hzero : coins * COIN = 0 := by omega
        exact (mul_eq_zero.mp hzero).resolve_right (by decide)
      · rintro rfl
        omega
    obtain ⟨stake, masternode, treasury, proposals, charity, hpct, hrew⟩ :=
      exists_percentagesInEffect hval hht hc
    rw [hpct] at hsum
    rw [hrew, hpct, hn]
    simp only [hc, true_and]
    constructor
    · rintro ⟨rewards, hsome, hnn, -⟩
      obtain ⟨hfits, rfl⟩ := blockRewardsChecked_eq_some_iff.mp hsome
      rw [hcns] at hnn
      exact ⟨(blockRewards_nonneg_iff hcoinsNonneg hlot).mp hnn, hfits⟩
    · rintro ⟨hs, hfits⟩
      refine ⟨_, blockRewardsChecked_eq_some_iff.mpr ⟨hfits, rfl⟩, ?_, ?_⟩
      · rw [hcns]
        exact (blockRewards_nonneg_iff hcoinsNonneg hlot).mpr hs
      · have htot := blockRewards_sum coins (lotteryPart nHeight chainParams)
          (by simpa [add_assoc] using hsum)
        rw [← hcns] at htot
        omega
  · constructor
    · rintro ⟨rewards, hsome, -⟩
      unfold getBlockSubsidityChecked at hsome
      simp only [getFullBlockValue_eq hval, if_neg (not_le.mpr hht),
        if_pos (not_le.mp hc)] at hsome
      cases hsome
    · rintro ⟨hle, -⟩
      exact absurd hle hc

/-! ### The unbounded split -/

/-- Where nothing overflows, the split is the one of unbounded integers. -/
theorem getBlockSubsidity_of_checked
    (h : getBlockSubsidityChecked sporks nHeight chainParams = some rewards) :
    getBlockSubsidity sporks nHeight chainParams = some rewards := by
  unfold getBlockSubsidityChecked at h
  unfold getBlockSubsidity
  simp only at h ⊢
  split at h
  · rename_i hlow
    rw [if_pos hlow]
    exact h
  · rename_i hlow
    rw [if_neg hlow]
    split at h
    · cases h
    · rename_i hc
      rw [if_neg hc]
      cases hsps : sporks.blockPayments with
      | none =>
        rw [hsps] at h
        obtain ⟨-, rfl⟩ := blockRewardsChecked_eq_some_iff.mp h
        rfl
      | some values =>
        rw [hsps] at h
        obtain ⟨valid, hchk, hr⟩ := bind_eq_some_iff.mp h
        simp only [isValid_of_checked hchk]
        split at hr
        · rename_i hact
          rw [if_pos hact]
          obtain ⟨-, rfl⟩ := blockRewardsChecked_eq_some_iff.mp hr
          rfl
        · rename_i hi
          rw [if_neg hi]
          obtain ⟨-, rfl⟩ := blockRewardsChecked_eq_some_iff.mp hr
          rfl

/-! ### Sporks on the main network -/

/-- One value of each spork, active from the first halving on. -/
def halvingSporks (nBlockSubsidity nStakeReward nMasternodeReward : Int) : SubsidySporks where
  blockValue := some [(⟨nBlockSubsidity, 525600⟩, 0)]
  blockPayments := some [(⟨nStakeReward, nMasternodeReward, 0, 0, 0, 525600⟩, 0)]
  nBlockTime := fun _ => 1

theorem halvingSporks_validAt {nBlockSubsidity nStakeReward nMasternodeReward : Int}
    (hsub : 0 ≤ nBlockSubsidity) (hchk : (⟨nStakeReward, nMasternodeReward, 0, 0, 0, 525600⟩ :
      BlockPaymentSporkValue).isValidChecked = some true) :
    (halvingSporks nBlockSubsidity nStakeReward nMasternodeReward).ValidAt 525600 mainParams where
  blockValue := by
    intro v hv
    cases hv
    refine ⟨?_, rfl⟩
    simp [BlockSubsiditySporkValue.isValid, getActiveMultiValueSpork, halvingSporks, hsub]
  blockPayments := by
    intro v hv
    cases hv
    exact ⟨hchk, rfl⟩

/-- A thousand coins, split between the staker and the masternode. -/
theorem subsidy_split_safe_thousand :
    ∃ rewards, getBlockSubsidityChecked (halvingSporks 1000 55 45) 525600 mainParams =
        some rewards ∧
      (∀ x ∈ rewards.components, 0 ≤ x) ∧
      rewards.components.sum ≤ getFullBlockValue (halvingSporks 1000 55 45) 525600 mainParams :=
  (subsidy_split_safe_iff (by decide) (by decide)
    (halvingSporks_validAt (by decide) (by decide))).mpr
    ⟨by decide, .inr (by decide), by decide⟩

/--
Two pairs of valid values: with ten coins the assertion fails, and with percentages of -100
and 200 the stake reward is negative and the masternode is paid more than the block's value.
-/
theorem subsidy_split_unsafe :
    ((halvingSporks 10 55 45).ValidAt 525600 mainParams ∧
      getBlockSubsidityChecked (halvingSporks 10 55 45) 525600 mainParams = none) ∧
    ((halvingSporks 1000 (-100) 200).ValidAt 525600 mainParams ∧
      getBlockSubsidityChecked (halvingSporks 1000 (-100) 200) 525600 mainParams =
        some ⟨-950 * COIN, 1900 * COIN, 0, 0, 50 * COIN, 0⟩) :=
  ⟨⟨halvingSporks_validAt (by decide) (by decide), by decide⟩,
    ⟨halvingSporks_validAt (by decide) (by decide), by decide⟩⟩

end Legacy

end Divi
