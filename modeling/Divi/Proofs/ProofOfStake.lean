/-
Proof of stake, checked and searched for.

The check of a hash against its target is exact: the value of a coin and its weight are
too small for their product to wrap, and a target that does not fit 256 bits is above
every hash.  The search tries the timestamps from the initial one down and takes the
first that hits.  It asks for the age of the coin only at the first, so what it finds is
accepted unless the first hit comes too early for the age.
-/
import Divi.ProofOfStake
import Divi.Proofs.Uint256

namespace Divi

open HashproofCreationResult BaseUint

/-! ### The check -/

/-- How often the target per coin day counts for a value and a weight. -/
def coinDayWeight (nValueIn nTimeWeight : Int) : Nat :=
  (UInt64.ofInt nValueIn).toNat * (UInt32.ofInt nTimeWeight).toNat / 100000000 / 400

theorem toNat_coinDayProduct (nValueIn nTimeWeight : Int) :
    ((ofUInt64 (UInt64.ofInt nValueIn) : BaseUint 8).mulUInt32
        (UInt32.ofInt nTimeWeight)).toNat =
      (UInt64.ofInt nValueIn).toNat * (UInt32.ofInt nTimeWeight).toNat := by
  rw [toNat_mulUInt32, toNat_ofUInt64 (by decide)]
  apply Nat.mod_eq_of_lt
  calc (UInt64.ofInt nValueIn).toNat * (UInt32.ofInt nTimeWeight).toNat
      < 2 ^ 64 * 2 ^ 32 := Nat.mul_lt_mul'' (UInt64.toNat_lt _) (UInt32.toNat_lt _)
    _ ≤ 2 ^ (32 * 8) := by decide

/-- The check compares the hash with the exact product, also where that does not fit. -/
theorem stakeTargetHit_eq (hashProofOfStake : BaseUint 8) (nValueIn : Int)
    (bnTargetPerCoinDay : BaseUint 8) (nTimeWeight : Int) :
    stakeTargetHit hashProofOfStake nValueIn bnTargetPerCoinDay nTimeWeight =
      .ok (decide (hashProofOfStake.toNat <
        bnTargetPerCoinDay.toNat * coinDayWeight nValueIn nTimeWeight)) := by
  obtain ⟨coins, hcns, hcoinsNat⟩ := divide_spec
    ((ofUInt64 (UInt64.ofInt nValueIn) : BaseUint 8).mulUInt32 (UInt32.ofInt nTimeWeight))
    (b := .ofUInt64 (UInt64.ofInt COIN))
    (by rw [toNat_ofUInt64 (by decide)]; decide)
  obtain ⟨weight, hwt, hweightNat⟩ := divide_spec coins
    (b := .ofUInt64 400) (by rw [toNat_ofUInt64 (by decide)]; decide)
  have he : weight.toNat = coinDayWeight nValueIn nTimeWeight := by
    rw [hweightNat, hcoinsNat, toNat_coinDayProduct, toNat_ofUInt64 (by decide),
      toNat_ofUInt64 (by decide)]
    rfl
  obtain ⟨hfits, hprod⟩ := bnTargetPerCoinDay.multiplyBy_spec weight (by decide)
  have hh := hashProofOfStake.toNat_lt
  simp only [stakeTargetHit, hcns, hwt, bind, Except.bind, pure, Except.pure]
  rw [← he]
  by_cases hover : (bnTargetPerCoinDay.multiplyBy weight).1 = true
  · simp [hover, compareTo_neg_iff, hprod hover]
  · have hl : hashProofOfStake.toNat < bnTargetPerCoinDay.toNat * weight.toNat :=
      lt_of_lt_of_le hh (not_lt.mp fun hlt => hover (hfits.mpr hlt))
    simp [hover, hl]

/--
**The check is exact.**  For every target, hash and age, and every value that an amount can
have, the verdict is the comparison over unbounded integers.
-/
theorem stakeTargetHit_exact (h D : BaseUint 8) {v a : Int} (hv : 0 ≤ v) (hmax : v < 2 ^ 63)
    (ha : 0 ≤ a) :
    stakeTargetHit h v D (min a MAXIMUM_COIN_AGE_WEIGHT_FOR_STAKING) =
      .ok (decide ((h.toNat : Int) <
        D.toNat * (v * min a MAXIMUM_COIN_AGE_WEIGHT_FOR_STAKING / COIN / 400))) := by
  have hw : 0 ≤ min a MAXIMUM_COIN_AGE_WEIGHT_FOR_STAKING := le_min ha (by decide)
  have hwmax : min a MAXIMUM_COIN_AGE_WEIGHT_FOR_STAKING < 2 ^ 32 :=
    lt_of_le_of_lt (min_le_right _ _) (by decide)
  generalize min a MAXIMUM_COIN_AGE_WEIGHT_FOR_STAKING = w at hw hwmax
  obtain ⟨v, rfl⟩ := Int.eq_ofNat_of_zero_le hv
  obtain ⟨w, rfl⟩ := Int.eq_ofNat_of_zero_le hw
  have hva : (UInt64.ofInt v).toNat = v := by
    simp [UInt64.ofInt]
    omega
  have hwt : (UInt32.ofInt w).toNat = w := by
    simp [UInt32.ofInt]
    omega
  have hcast : (h.toNat : Int) < D.toNat * ((v : Int) * w / COIN / 400) ↔
      h.toNat < D.toNat * (v * w / 100000000 / 400) := by
    rw [← Int.ofNat_lt]
    rfl
  rw [stakeTargetHit_eq, coinDayWeight, hva, hwt]
  simp only [hcast]

/-- A coin of a thousand coins and a week, against a target that it does not exceed. -/
theorem stakeTargetHit_exact_week :
    stakeTargetHit (.ofUInt64 1502999) (1000 * COIN) (.ofUInt64 1)
        (min 700000 MAXIMUM_COIN_AGE_WEIGHT_FOR_STAKING) =
      .ok (decide (((BaseUint.ofUInt64 1502999 : BaseUint 8).toNat : Int) <
        (BaseUint.ofUInt64 1 : BaseUint 8).toNat *
          (1000 * COIN * min 700000 MAXIMUM_COIN_AGE_WEIGHT_FOR_STAKING / COIN / 400))) :=
  stakeTargetHit_exact _ _ (by decide) (by decide) (by decide)

/-! ### The search -/

section

variable (stakeHash : UInt64 → UInt32 → COutPoint → UInt32 → BaseUint 8)

variable (calculator : ProofOfStakeCalculator)

/-- The hash of a timestamp meets the target of the calculator. -/
def ProofOfStakeCalculator.MeetsTarget (timestamp : UInt32) :
    Prop :=
  (stakeHash calculator.stakeModifier timestamp calculator.utxoToStake
      calculator.coinstakeStartTime).toNat <
    calculator.targetPerCoinDay.toNat *
      coinDayWeight calculator.utxoValue (calculator.coinAgeWeightOfUtxo timestamp)
  deriving Decidable

theorem computeProofOfStake_eq (timestamp : UInt32)
    (hashProofOfStake : BaseUint 8) :
    calculator.computeProofOfStakeAndCheckItMeetsTarget stakeHash timestamp hashProofOfStake
        false =
      .ok (decide (calculator.MeetsTarget stakeHash timestamp),
        stakeHash calculator.stakeModifier timestamp calculator.utxoToStake
          calculator.coinstakeStartTime) := by
  simp only [ProofOfStakeCalculator.computeProofOfStakeAndCheckItMeetsTarget, Bool.not_false,
    if_true, stakeTargetHit_eq, bind, Except.bind, pure, Except.pure]
  rfl

/-- The timestamp after some rounds of the search. -/
def searched (initialTimestamp : UInt32) (rounds : Nat) : UInt32 :=
  initialTimestamp - UInt32.ofNat rounds

@[simp] theorem searched_zero (initialTimestamp : UInt32) :
    searched initialTimestamp 0 = initialTimestamp := by
  simp [searched]

theorem searched_succ (initialTimestamp : UInt32) (rounds : Nat) :
    searched (initialTimestamp - 1) rounds = searched initialTimestamp (rounds + 1) := by
  simp only [searched, UInt32.ofNat_add]
  grind

/-- **The search returns the first timestamp that hits**, and fails only if none does. -/
theorem createHashProofLoop_spec (rounds : Nat)
    (timestamp : UInt32) :
    (∃ i < rounds, createHashProofLoop stakeHash calculator rounds timestamp =
        .ok (true, searched timestamp i) ∧
      calculator.MeetsTarget stakeHash (searched timestamp i) ∧
      ∀ j < i, ¬ calculator.MeetsTarget stakeHash (searched timestamp j)) ∨
    (createHashProofLoop stakeHash calculator rounds timestamp =
        .ok (false, searched timestamp rounds) ∧
      ∀ j < rounds, ¬ calculator.MeetsTarget stakeHash (searched timestamp j)) := by
  induction rounds generalizing timestamp with
  | zero => exact .inr ⟨by simp [createHashProofLoop], by simp⟩
  | succ rounds ih =>
    have hstep : createHashProofLoop stakeHash calculator (rounds + 1) timestamp =
        if calculator.MeetsTarget stakeHash timestamp then .ok (true, timestamp)
        else createHashProofLoop stakeHash calculator rounds (timestamp - 1) := by
      simp only [createHashProofLoop, computeProofOfStake_eq, bind, Except.bind, pure, Except.pure]
      by_cases hhit : calculator.MeetsTarget stakeHash timestamp
      · simp [hhit]
      · simp [hhit]
    rw [hstep]
    by_cases hhit : calculator.MeetsTarget stakeHash timestamp
    · rw [if_pos hhit]
      exact .inl ⟨0, by omega, by simp, by simpa using hhit, by simp⟩
    · rw [if_neg hhit]
      -- The rounds left search from the timestamp before, so every index moves up by one.
      have hpre : ∀ i, (∀ j < i, ¬ calculator.MeetsTarget stakeHash
          (searched (timestamp - 1) j)) →
          ∀ j < i + 1, ¬ calculator.MeetsTarget stakeHash (searched timestamp j) := by
        intro i hn j hj
        cases j with
        | zero => simpa using hhit
        | succ j =>
          rw [← searched_succ]
          exact hn j (by omega)
      obtain ⟨i, hi, hf, hm, hfst⟩ | ⟨hfail, hn⟩ := ih (timestamp - 1)
      · refine .inl ⟨i + 1, by omega, ?_, ?_, hpre i hfst⟩
        · rw [hf, searched_succ]
        · rwa [searched_succ] at hm
      · refine .inr ⟨?_, hpre rounds hn⟩
        rw [hfail, searched_succ]

namespace ProofOfStakeGenerator

variable (generator : ProofOfStakeGenerator) (stakingData : StakingData)

/-- The age of the coin is sufficient at a timestamp. -/
abbrev OldEnough (timestamp : UInt32) : Prop :=
  generator.proofOfStakeTimeRequirementsAreMet
    stakingData.blockTimeOfFirstConfirmationBlock timestamp = true

/-- The hash of a timestamp meets the target under the modifier of the service. -/
abbrev Hits (timestamp : UInt32) : Prop :=
  (ProofOfStakeCalculator.create stakingData (generator.stakeModifierService stakingData).1)
    |>.MeetsTarget stakeHash timestamp

/-- The two conditions of the setup at a timestamp. -/
theorem createProofOfStakeCalculator_eq (timestamp : UInt32) :
    generator.createProofOfStakeCalculator stakingData timestamp =
      if generator.OldEnough stakingData timestamp ∧
          (generator.stakeModifierService stakingData).2 = true then
        some (.create stakingData (generator.stakeModifierService stakingData).1)
      else none := by
  unfold createProofOfStakeCalculator OldEnough
  by_cases hage : generator.proofOfStakeTimeRequirementsAreMet
      stakingData.blockTimeOfFirstConfirmationBlock timestamp = true
  · by_cases hmod : (generator.stakeModifierService stakingData).2 = true
    · simp [hage, hmod]
    · simp [hage, hmod]
  · simp [hage]

theorem computeAndVerify_iff (timestamp : UInt32) (hashProofOfStake : BaseUint 8) :
    (∃ proof, generator.computeAndVerifyProofOfStake stakeHash stakingData timestamp
        hashProofOfStake = .ok (true, proof)) ↔
      generator.OldEnough stakingData timestamp ∧
        (generator.stakeModifierService stakingData).2 = true ∧
        generator.Hits stakeHash stakingData timestamp := by
  unfold computeAndVerifyProofOfStake
  rw [createProofOfStakeCalculator_eq]
  by_cases hs : generator.OldEnough stakingData timestamp ∧
      (generator.stakeModifierService stakingData).2 = true
  · rw [if_pos hs]
    have hage : generator.OldEnough stakingData timestamp := hs.1
    unfold OldEnough at hage ⊢
    simp only [computeProofOfStake_eq]
    simp [hage, hs.2]
  · rw [if_neg hs]
    constructor
    · rintro ⟨proof, hp⟩
      simp at hp
    · rintro ⟨hage, hmod, -⟩
      exact absurd ⟨hage, hmod⟩ hs

/-- A success is the first hit of the timestamps that are tried. -/
theorem createHashproofTimestamp_success_iff (initialTimestamp timestamp : UInt32) :
    generator.createHashproofTimestamp stakeHash stakingData initialTimestamp =
        .ok (.success timestamp) ↔
      generator.OldEnough stakingData initialTimestamp ∧
        (generator.stakeModifierService stakingData).2 = true ∧
        ∃ i < nHashDrift, timestamp = searched initialTimestamp i ∧
          generator.Hits stakeHash stakingData (searched initialTimestamp i) ∧
          ∀ j < i, ¬ generator.Hits stakeHash stakingData (searched initialTimestamp j) := by
  unfold createHashproofTimestamp
  rw [createProofOfStakeCalculator_eq]
  by_cases hse : generator.OldEnough stakingData initialTimestamp ∧
      (generator.stakeModifierService stakingData).2 = true
  · rw [if_pos hse]
    obtain ⟨i, hi, hf, hm, hfst⟩ | ⟨hfail, hn⟩ := createHashProofLoop_spec stakeHash
      (.create stakingData (generator.stakeModifierService stakingData).1) nHashDrift
      initialTimestamp
    · simp only [createHashProofForProofOfStake, hf, bind, Except.bind, pure, Except.pure,
        Bool.not_true, Bool.false_eq_true, if_false]
      constructor
      · intro hs
        have htime : searched initialTimestamp i = timestamp := by
          simpa [success] using hs
        exact ⟨hse.1, hse.2, i, hi, htime.symm, hm, hfst⟩
      · rintro ⟨-, -, k, hk, rfl, hkm, hkf⟩
        have hik : i = k := by
          rcases Nat.lt_trichotomy i k with hlt | heq | hgt
          · exact absurd hm (hkf i hlt)
          · exact heq
          · exact absurd hkm (hfst k hgt)
        rw [hik]
    · simp only [createHashProofForProofOfStake, hfail, bind, Except.bind, pure, Except.pure,
        Bool.not_false, if_true]
      constructor
      · intro hs
        simp [success, failedGeneration] at hs
      · rintro ⟨-, -, k, hk, -, hkm, -⟩
        exact absurd hkm (hn k hk)
  · rw [if_neg hse]
    constructor
    · intro hs
      simp [success, failedSetup] at hs
    · rintro ⟨hage, hmod, -⟩
      exact absurd ⟨hage, hmod⟩ hse

/--
**When a staked timestamp is accepted.**  What the search finds from an initial timestamp
passes the verification if and only if every timestamp tried that hits the target before
the coin is old enough comes after one that hits it when the coin is old enough.
-/
theorem staked_timestamp_accepted_iff (initialTimestamp : UInt32) (hashProofOfStake : BaseUint 8) :
    (∀ timestamp, generator.createHashproofTimestamp stakeHash stakingData initialTimestamp =
        .ok (.success timestamp) →
      ∃ proof, generator.computeAndVerifyProofOfStake stakeHash stakingData timestamp
        hashProofOfStake = .ok (true, proof)) ↔
    (generator.OldEnough stakingData initialTimestamp →
      (generator.stakeModifierService stakingData).2 = true →
      ∀ i < nHashDrift, generator.Hits stakeHash stakingData (searched initialTimestamp i) →
        ¬ generator.OldEnough stakingData (searched initialTimestamp i) →
        ∃ j < i, generator.Hits stakeHash stakingData (searched initialTimestamp j) ∧
          generator.OldEnough stakingData (searched initialTimestamp j)) := by
  simp only [createHashproofTimestamp_success_iff, computeAndVerify_iff]
  constructor
  · intro hacc hage hmod i hi hhit hy
    -- The first hit at or before this one is what the search finds, so it was accepted.
    have hex : ∃ k, generator.Hits stakeHash stakingData (searched initialTimestamp k) := ⟨i, hhit⟩
    have hle : Nat.find hex ≤ i := Nat.find_min' hex hhit
    obtain ⟨hold, -, -⟩ := hacc (searched initialTimestamp (Nat.find hex))
      ⟨hage, hmod, Nat.find hex, by omega, rfl, Nat.find_spec hex,
        fun j hj => Nat.find_min hex hj⟩
    have hne : Nat.find hex ≠ i := by
      intro heq
      rw [heq] at hold
      exact hy hold
    exact ⟨Nat.find hex, by omega, Nat.find_spec hex, hold⟩
  · rintro hc timestamp ⟨hage, hmod, i, hi, rfl, hhit, hfst⟩
    refine ⟨?_, hmod, hhit⟩
    by_contra hy
    obtain ⟨j, hj, hjhit, -⟩ := hc hage hmod i hi hhit hy
    exact hfst j hj hjhit

end ProofOfStakeGenerator

end

/-! ### A hit that comes too early -/

/-- A coin confirmed at time 1000 that may stake 100 seconds later. -/
def youngStake : StakingData where
  nBits := 0x1d00ffff
  blockTimeOfFirstConfirmationBlock := 1000
  blockHashOfFirstConfirmationBlock := 0
  utxoBeingStaked := ⟨1, 0⟩
  utxoValue := 1000 * COIN
  blockHashOfChainTipBlock := 0

def youngGenerator : ProofOfStakeGenerator where
  stakeModifierService := fun _ => (0, true)
  minimumCoinAgeForStaking := 100

/-- A hash that hits at one timestamp only. -/
def hitsAt (hit : UInt32) (_ : UInt64) (timestamp : UInt32) (_ : COutPoint) (_ : UInt32) :
    BaseUint 8 :=
  if timestamp = hit then .zero else BaseUint.zero.complement

/-- The search starts when the coin is just old enough and finds the second before. -/
theorem staked_timestamp_refused :
    youngGenerator.createHashproofTimestamp (hitsAt 1099) youngStake 1100 =
        .ok (.success 1099) ∧
      ∀ hashProofOfStake, ¬ ∃ proof, youngGenerator.computeAndVerifyProofOfStake (hitsAt 1099)
        youngStake 1099 hashProofOfStake = .ok (true, proof) := by
  refine ⟨?_, ?_⟩
  · rw [ProofOfStakeGenerator.createHashproofTimestamp_success_iff]
    refine ⟨by decide, by decide, 1, by decide, by decide, by decide, ?_⟩
    intro j hj
    obtain rfl : j = 0 := by omega
    decide
  · intro hashProofOfStake
    rw [ProofOfStakeGenerator.computeAndVerify_iff]
    rintro ⟨hage, -, -⟩
    revert hage
    decide

/-- A minute later the same search finds a timestamp that is accepted. -/
theorem staked_timestamp_accepted_later :
    youngGenerator.createHashproofTimestamp (hitsAt 1150) youngStake 1160 =
        .ok (.success 1150) ∧
      ∀ timestamp, youngGenerator.createHashproofTimestamp (hitsAt 1150) youngStake 1160 =
          .ok (.success timestamp) →
        ∃ proof, youngGenerator.computeAndVerifyProofOfStake (hitsAt 1150) youngStake timestamp
          .zero = .ok (true, proof) := by
  refine ⟨?_, ?_⟩
  · rw [ProofOfStakeGenerator.createHashproofTimestamp_success_iff]
    exact ⟨by decide, by decide, 10, by decide, by decide, by decide, by decide⟩
  · rw [youngGenerator.staked_timestamp_accepted_iff (hitsAt 1150) youngStake 1160 .zero]
    intro _ _ i hi hhit hy
    refine ⟨10, ?_, by decide, by decide⟩
    revert i
    decide

end Divi
