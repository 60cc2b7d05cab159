/-
Proof of stake: the check of a hash against its target, and the search for a timestamp.

`stakeHash` stands for the double hash of the serialized stake modifier, start time,
outpoint and timestamp.  Timestamps are 32-bit numbers that wrap.  The stake modifier
service is a field of the generator, as it is in the source, and the calculator keeps
what it copies or refers to of the staking data.
-/
import Divi.BlockIndex
import Divi.Uint256

namespace Divi

/-- The coin that is staked and the block that confirmed it. -/
structure StakingData where
  nBits : UInt32
  blockTimeOfFirstConfirmationBlock : UInt32
  blockHashOfFirstConfirmationBlock : uint256
  utxoBeingStaked : COutPoint
  utxoValue : Int
  blockHashOfChainTipBlock : uint256
  deriving DecidableEq, Repr

/-- `getStakeModifier` of the service that asks another one before the fork. -/
def PoSStakeModifierService.getStakeModifier (decorated : StakingData → UInt64 × Bool)
    (blockIndexByHash : BlockMap) (stakingData : StakingData) : UInt64 × Bool :=
  match blockIndexByHash.lookup stakingData.blockHashOfChainTipBlock with
  | some (tip :: prev) =>
    if Fork.HardenedStakeModifier.isActive tip then
      match (tip :: prev).dropWhile fun pindex => !pindex.fGeneratedStakeModifier with
      | [] => (0, false)
      | nominalChainTip :: _ => (⟨nominalChainTip.nStakeModifier⟩, true)
    else
      decorated stakingData
  | _ => (0, false)

/-! ### `ProofOfStakeCalculator` -/

/-- Older coins weigh no more than this. -/
def MAXIMUM_COIN_AGE_WEIGHT_FOR_STAKING : Int := 60 * 60 * 24 * 7 - 60 * 60

/--
Tests a hash against the target.  The product of the value with the weight is the one with
a `uint32_t`, to which the weight is converted; the divisors become big integers.
-/
def stakeTargetHit (hashProofOfStake : BaseUint 8) (nValueIn : Int)
    (bnTargetPerCoinDay : BaseUint 8) (nTimeWeight : Int) : Except String Bool := do
  let value : BaseUint 8 := .ofUInt64 (UInt64.ofInt nValueIn)
  let coins ← (value.mulUInt32 (UInt32.ofInt nTimeWeight)).divide (.ofUInt64 (UInt64.ofInt COIN))
  let bnCoinDayWeight ← coins.divide (.ofUInt64 400)
  let target := bnTargetPerCoinDay.multiplyBy bnCoinDayWeight
  if !target.1 then
    return true
  return decide (hashProofOfStake.compareTo target.2 < 0)

/-- What a hash proof is computed from. -/
structure ProofOfStakeCalculator where
  utxoToStake : COutPoint
  utxoValue : Int
  stakeModifier : UInt64
  targetPerCoinDay : BaseUint 8
  coinstakeStartTime : UInt32
  deriving DecidableEq, Repr

namespace ProofOfStakeCalculator

/-- The calculator for a coin. -/
def create (stakingData : StakingData) (stakeModifier : UInt64) : ProofOfStakeCalculator where
  utxoToStake := stakingData.utxoBeingStaked
  utxoValue := stakingData.utxoValue
  stakeModifier := stakeModifier
  targetPerCoinDay := (BaseUint.setCompact stakingData.nBits).target
  coinstakeStartTime := stakingData.blockTimeOfFirstConfirmationBlock

/-- The age of the coin at a timestamp, an unsigned difference, up to its bound. -/
def coinAgeWeightOfUtxo (calculator : ProofOfStakeCalculator) (hashproofTimestamp : UInt32) : Int :=
  min ((hashproofTimestamp - calculator.coinstakeStartTime).toNat : Int)
    MAXIMUM_COIN_AGE_WEIGHT_FOR_STAKING

variable (stakeHash : UInt64 → UInt32 → COutPoint → UInt32 → BaseUint 8)

/-- Whether the proof of stake meets the target, and the proof itself. -/
def computeProofOfStakeAndCheckItMeetsTarget (calculator : ProofOfStakeCalculator)
    (hashproofTimestamp : UInt32) (computedProofOfStake : BaseUint 8) (checkOnly : Bool) :
    Except String (Bool × BaseUint 8) := do
  let computedProofOfStake :=
    if !checkOnly then
      stakeHash calculator.stakeModifier hashproofTimestamp calculator.utxoToStake
        calculator.coinstakeStartTime
    else
      computedProofOfStake
  let hit ← stakeTargetHit computedProofOfStake calculator.utxoValue calculator.targetPerCoinDay
    (calculator.coinAgeWeightOfUtxo hashproofTimestamp)
  return (hit, computedProofOfStake)

end ProofOfStakeCalculator

/-! ### `ProofOfStakeGenerator` -/

/-- How a search ends. -/
inductive HashproofGenerationState
  | FAILED_SETUP
  | FAILED_GENERATION
  | SUCCESS
  deriving DecidableEq, Repr

/-- The timestamp found. -/
structure HashproofCreationResult where
  hashproofTimestamp : UInt32
  state : HashproofGenerationState
  deriving DecidableEq, Repr

namespace HashproofCreationResult

def success (timestamp : UInt32) : HashproofCreationResult :=
  { hashproofTimestamp := timestamp, state := .SUCCESS }

def failedGeneration : HashproofCreationResult :=
  { hashproofTimestamp := 0, state := .FAILED_GENERATION }

def failedSetup : HashproofCreationResult :=
  { hashproofTimestamp := 0, state := .FAILED_SETUP }

def succeeded (result : HashproofCreationResult) : Bool :=
  result.state == .SUCCESS

end HashproofCreationResult

/-- How many timestamps are tried, from the initial one down. -/
def nHashDrift : Nat := 45

/-- Searches and checks timestamps. -/
structure ProofOfStakeGenerator where
  /-- `getStakeModifier`: the modifier, and whether there is one. -/
  stakeModifierService : StakingData → UInt64 × Bool
  minimumCoinAgeForStaking : UInt32

section

variable (stakeHash : UInt64 → UInt32 → COutPoint → UInt32 → BaseUint 8)

/-- The search loop with the rounds that are left: whether a timestamp was found, and the
timestamp it stopped at. -/
def createHashProofLoop (calculator : ProofOfStakeCalculator) :
    Nat → UInt32 → Except String (Bool × UInt32)
  | 0, hashproofTimestamp => .ok (false, hashproofTimestamp)
  | rounds + 1, hashproofTimestamp => do
    let proof ← calculator.computeProofOfStakeAndCheckItMeetsTarget stakeHash hashproofTimestamp
      .zero false
    if !proof.1 then
      createHashProofLoop calculator rounds (hashproofTimestamp - 1)
    else
      return (true, hashproofTimestamp)

/-- The search backwards from a timestamp. -/
def createHashProofForProofOfStake (calculator : ProofOfStakeCalculator)
    (hashproofTimestamp : UInt32) : Except String (Bool × UInt32) :=
  createHashProofLoop stakeHash calculator nHashDrift hashproofTimestamp

namespace ProofOfStakeGenerator

variable (generator : ProofOfStakeGenerator)

/-- The coin is old enough at the timestamp. -/
def proofOfStakeTimeRequirementsAreMet (coinstakeStartTime hashproofTimestamp : UInt32) : Bool :=
  if hashproofTimestamp < coinstakeStartTime then
    false
  else if coinstakeStartTime + generator.minimumCoinAgeForStaking > hashproofTimestamp then
    false
  else
    true

/-- The calculator, if the coin is old enough and has a modifier. -/
def createProofOfStakeCalculator (stakingData : StakingData) (initialHashproofTimestamp : UInt32) :
    Option ProofOfStakeCalculator :=
  if !generator.proofOfStakeTimeRequirementsAreMet stakingData.blockTimeOfFirstConfirmationBlock
      initialHashproofTimestamp then
    none
  else
    let stakeModifierData := generator.stakeModifierService stakingData
    if !stakeModifierData.2 then
      none
    else
      some (.create stakingData stakeModifierData.1)

/-- Whether the proof is valid, and the hash; a failed setup leaves the hash alone. -/
def computeAndVerifyProofOfStake (stakingData : StakingData) (hashproofTimestamp : UInt32)
    (hashProofOfStake : BaseUint 8) : Except String (Bool × BaseUint 8) :=
  match generator.createProofOfStakeCalculator stakingData hashproofTimestamp with
  | none => .ok (false, hashProofOfStake)
  | some calculator =>
    calculator.computeProofOfStakeAndCheckItMeetsTarget stakeHash hashproofTimestamp
      hashProofOfStake false

/-- `CreateHashproofTimestamp`: the search for a coin. -/
def createHashproofTimestamp (stakingData : StakingData) (initialTimestamp : UInt32) :
    Except String HashproofCreationResult :=
  match generator.createProofOfStakeCalculator stakingData initialTimestamp with
  | none => .ok .failedSetup
  | some calculator => do
    let found ← createHashProofForProofOfStake stakeHash calculator initialTimestamp
    if !found.1 then
      return .failedGeneration
    return .success found.2

end ProofOfStakeGenerator

end

end Divi
