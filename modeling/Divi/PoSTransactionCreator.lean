/-
Building a coinstake: the kernel's output with the staking reward, split in two or
combined with further coins of the same script, and the payments that are due.

The search for the kernel, the times of the block and the signatures are left out; the
kernel is any of the staked coins.  `std::sort` is a parameter that is only known to
sort.  Reading an input or output that is not there is `none`.  Only the threshold can
leave 64 bits, where it is multiplied; sums of a few amounts are exact.
-/
import Divi.BlockIncentives
import Divi.Script.Standard
import Divi.Lib.Sorting

namespace Divi

/-- The most inputs of a coinstake. -/
def MAX_KERNEL_COMBINED_INPUTS : Nat := 20

/-- A coin of the wallet: an output of a transaction, and the transaction. -/
structure StakableCoin where
  tx : CTransaction
  utxo : COutPoint
  hash_eq : utxo.hash = tx.hash
  inRange : utxo.n < tx.vout.length
  size_lt : tx.vout.length < 2 ^ 32

namespace StakableCoin

/-- The output that is staked. -/
def getTxOut (coin : StakableCoin) : CTxOut :=
  coin.tx.vout.get ⟨coin.utxo.n, coin.inRange⟩

def value (coin : StakableCoin) : Int := coin.getTxOut.nValue

def script (coin : StakableCoin) : CScript := coin.getTxOut.scriptPubKey

def input (coin : StakableCoin) : CTxIn := { prevout := coin.utxo }

end StakableCoin

/-- The set of coins to stake with, which orders and compares them by outpoint. -/
structure StakedCoins where
  asSet : List StakableCoin
  nodup : (asSet.map StakableCoin.utxo).Nodup

/-- The empty first output of a coinstake. -/
def markTransactionAsCoinstake (txNew : CTransaction) : CTransaction :=
  { txNew with vin := [], vout := [⟨0, []⟩] }

/-- Whether the script is a vault, `none` if it is not supported. -/
def isSupportedScript (scriptPubKeyOut : CScript) : Option Bool :=
  match extractScriptPubKeyFormat scriptPubKeyOut with
  | some (.TX_PUBKEY, _) => some false
  | some (.TX_PUBKEYHASH, _) => some false
  | some (.TX_VAULT, _) => some true
  | _ => none

/-- The kernel and an output to its script. -/
def setSuportedStakingScript (stakableCoin : StakableCoin) (txNew : CTransaction) :
    CTransaction :=
  { txNew with
    vin := txNew.vin ++ [stakableCoin.input]
    vout := txNew.vout ++ [⟨0, stakableCoin.script⟩] }

/-- `vout[i].nValue = nValue`. -/
def setOutputValue (vout : List CTxOut) (i : Nat) (nValue : Int) : List CTxOut :=
  vout.modify i fun out => { out with nValue := nValue }

/-- The threshold from its setting, as the product of two 64-bit integers. -/
def stakeSplitFor (stakesplitthreshold : Int) (isVaultScript : Bool) : Int :=
  let stakeSplit := (stakesplitthreshold * COIN).bmod (2 ^ 64)
  if isVaultScript then max stakeSplit (20000 * COIN) else stakeSplit

/-- Builds coinstakes. -/
structure PoSTransactionCreator where
  incentives : BlockIncentivesPopulator
  stakedCoins : StakedCoins
  sorting : SortBy StakableCoin.value
  /-- The `-stakesplitthreshold` setting. -/
  stakesplitthreshold : Int := 20000
  /-- The `-autocombine` setting. -/
  autocombine : Bool := true

namespace PoSTransactionCreator

variable (creator : PoSTransactionCreator)

/-- The coins with the script of an output that may be added to a credit. -/
def combineCandidates (scriptPubKey : CScript) (kernelHash : uint256)
    (nCredit nCombineThreshold : Int) : List StakableCoin :=
  creator.stakedCoins.asSet.filter fun pcoin =>
    pcoin.script = scriptPubKey ∧ pcoin.tx.hash ≠ kernelHash ∧
      ¬ pcoin.value + nCredit > nCombineThreshold

/-- Adds coins as inputs until there are enough of them, or their value suffices. -/
def combineLoop (nCombineThreshold : Int) :
    List StakableCoin → List CTxIn → Int → List CTxIn × Int
  | [], vin, nCredit => (vin, nCredit)
  | pcoin :: rest, vin, nCredit =>
    if vin.length ≥ MAX_KERNEL_COMBINED_INPUTS ∨ nCredit > nCombineThreshold ∨
        nCredit + pcoin.value > nCombineThreshold then
      (vin, nCredit)
    else
      combineLoop nCombineThreshold rest (vin ++ [pcoin.input]) (nCredit + pcoin.value)

/-- Adds small coins of the kernel's script as inputs. -/
def combineUtxos (stakeSplit : Int) (txNew : CTransaction) (nCredit : Int) :
    Option (CTransaction × Int) := do
  let reward ← txNew.vout[1]?
  let kernel ← txNew.vin[0]?
  let nCombineThreshold := stakeSplit.tdiv 2
  let vCombineCandidates := creator.sorting.sort
    (creator.combineCandidates reward.scriptPubKey kernel.prevout.hash nCredit nCombineThreshold)
  let (vin, nCredit) := combineLoop nCombineThreshold vCombineCandidates txNew.vin nCredit
  some ({ txNew with vin := vin }, nCredit)

/-- A large stake is split in two, a small one combined with others. -/
def splitOrCombineUTXOS (stakeSplit : Int) (chainTip : CBlockIndex) (txCoinStake : CTransaction)
    (stakeData : StakableCoin) : Option CTransaction := do
  let blockSubsidity ← creator.incentives.getBlockSubsidity (chainTip.nHeight + 1)
  let nCredit := stakeData.value + blockSubsidity.nStakeReward
  if nCredit > stakeSplit then
    let back ← txCoinStake.vout.getLast?
    let vout := setOutputValue (txCoinStake.vout ++ [back]) 1 (nCredit.tdiv 2)
    some { txCoinStake with vout := setOutputValue vout 2 (nCredit - nCredit.tdiv 2) }
  else if creator.autocombine then
    let (txCoinStake, nCredit) ← creator.combineUtxos stakeSplit txCoinStake nCredit
    some { txCoinStake with vout := setOutputValue txCoinStake.vout 1 nCredit }
  else
    some { txCoinStake with vout := setOutputValue txCoinStake.vout 1 nCredit }

/-- The payments of the block behind the stake. -/
def appendBlockRewardPayoutsToTransaction (chainTip : BlockPointer) (txCoinStake : CTransaction) :
    Option CTransaction := do
  let tip ← chainTip.head?
  let blockSubsidity ← creator.incentives.getBlockSubsidity (tip.nHeight + 1)
  creator.incentives.fillBlockPayee txCoinStake blockSubsidity chainTip

/-- The unsigned coinstake on a tip for a kernel that was found. -/
def createProofOfStake (chainTip : BlockPointer) (kernel : StakableCoin)
    (txNew : CTransaction) : Option CTransaction := do
  let tip ← chainTip.head?
  let isVaultScript ← isSupportedScript kernel.script
  let txCoinStake := setSuportedStakingScript kernel (markTransactionAsCoinstake txNew)
  if kernel.value = 0 then
    none
  else
    let stakeSplit := stakeSplitFor creator.stakesplitthreshold isVaultScript
    let txCoinStake ← creator.splitOrCombineUTXOS stakeSplit tip txCoinStake kernel
    creator.appendBlockRewardPayoutsToTransaction chainTip txCoinStake

end PoSTransactionCreator

end Divi
