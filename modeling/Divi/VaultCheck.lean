/-
`CheckCoinstakeForVaults`: a coinstake that spends from a vault returns the stake and
the staking reward to it.
-/
import Divi.Coins
import Divi.Subsidy
import Divi.Script.StakingVault

namespace Divi

/-- From this value on two outputs are taken for a stake that was split. -/
def MIN_FOR_SPLITTING : Int := 10000 * COIN

/-- What the loop over the inputs knows: their value so far, and the vault if one was found. -/
structure VaultScan where
  nValueIn : Int := 0
  vaultScript : Option CScript := none

/-- The loop over the inputs; `none` inside is the early `return false`. -/
def scanVaultInputs (view : CCoinsViewCache) : List CTxIn → VaultScan → Option (Option VaultScan)
  | [], scan => some (some scan)
  | input :: rest, scan => do
    let prevOut ← view.getOutputFor input
    let scan := { scan with nValueIn := scan.nValueIn + prevOut.nValue }
    if !isStakingVaultScript prevOut.scriptPubKey then
      scanVaultInputs view rest scan
    else
      match scan.vaultScript with
      | some vaultScript =>
        if vaultScript ≠ prevOut.scriptPubKey then some none
        else scanVaultInputs view rest scan
      | none => scanVaultInputs view rest { scan with vaultScript := some prevOut.scriptPubKey }

/-- The value returned to the vault: the second output, and the third if both are large. -/
def vaultOutput (vaultScript : CScript) (rewardOut : CTxOut) (afterReward : List CTxOut) :
    Int :=
  match afterReward with
  | [] => rewardOut.nValue
  | out2 :: _ =>
    if rewardOut.nValue ≥ MIN_FOR_SPLITTING ∧ out2.nValue ≥ MIN_FOR_SPLITTING ∧
        out2.scriptPubKey = vaultScript then
      rewardOut.nValue + out2.nValue
    else
      rewardOut.nValue

/-- `CheckCoinstakeForVaults`: a vault gets back its coins and the reward. -/
def checkCoinstakeForVaults (tx : CTransaction) (expectedRewards : CBlockRewards)
    (view : CCoinsViewCache) : Option Bool :=
  if !tx.isCoinStake then
    some true
  else do
    match ← scanVaultInputs view tx.vin {} with
    | none => some false
    | some scan =>
      match scan.vaultScript with
      | none => some true
      | some vaultScript =>
        match tx.vout with
        | _ :: rewardOut :: afterReward =>
          if rewardOut.scriptPubKey ≠ vaultScript then
            some false
          else
            some (!(vaultOutput vaultScript rewardOut afterReward <
              scan.nValueIn + expectedRewards.nStakeReward))
        | _ => none

end Divi
