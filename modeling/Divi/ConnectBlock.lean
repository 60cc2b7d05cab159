/-
`ConnectBlock`: checking the transactions of a block one after the other, while spending
and adding outputs and counting what the block mints, and comparing the count with what
it may mint.

`nMoneySupply`, `nMint`, the fees and the expected mint are 64-bit integers, to which
amounts are added without a check; they wrap.  All other sums are kept in range by the
checks around them, so they are exact here.

Recording into the address, spent and location indices changes nothing that is read
here and is left out, apart from the outcome of writing them.

The checks are made in the order of the source, and the first that fails gives the outcome,
so a block with several faults is rejected for the reason that a node would log.  The loop
over the transactions is `checkLoop`; `connectBlock` has the checks before and after it.
Scripts that are left to threads fail the block at the end only (`scriptsOK`).
-/
import Divi.Utxo
import Divi.Validation
import Divi.VaultCheck

namespace Divi

open Wrapping ValidationFailure

namespace BlockValidation

variable (validation : BlockValidation)

/-! ### `CheckInputs` -/

/-- The loop over the inputs, with their value so far. -/
def checkInputValues (inputs : CCoinsViewCache) (nSpendHeight : Int) :
    List CTxIn → Int → Except ValidationFailure Int
  | [], nValueIn => .ok nValueIn
  | txin :: rest, nValueIn =>
    match inputs.accessCoins txin.prevout.hash with
    | none => .error .assertion
    | some coins =>
      if (coins.fCoinBase || coins.fCoinStake) &&
          nSpendHeight - coins.nHeight < validation.chainParams.nMaturity then
        .error (invalid 0 "bad-txns-premature-spend-of-coinbase")
      else
        match coins.vout[txin.prevout.n]? with
        | none => .error .assertion
        | some out =>
          if !moneyRange out.nValue validation.chainParams.nMaxMoneyOut ||
              !moneyRange (nValueIn + out.nValue) validation.chainParams.nMaxMoneyOut then
            .error (invalid 100 "bad-txns-inputvalues-outofrange")
          else
            checkInputValues inputs nSpendHeight rest (nValueIn + out.nValue)

/-- The fee of a transaction; a coinstake has none and may mint. -/
def checkFees (tx : CTransaction) (nValueIn : Int) : Except ValidationFailure Int :=
  if tx.isCoinStake then
    .ok 0
  else
    match tx.getValueOut with
    | none => .error .assertion
    | some nValueOut =>
      if nValueIn < nValueOut then
        .error (invalid 100 "bad-txns-in-belowout")
      else if nValueIn - nValueOut < 0 then
        .error (invalid 100 "bad-txns-fee-negative")
      else if !moneyRange (nValueIn - nValueOut) validation.chainParams.nMaxMoneyOut then
        .error (invalid 100 "bad-txns-fee-outofrange")
      else
        .ok (nValueIn - nValueOut)

/-- The error of the first input whose script fails, from the given position on. -/
def firstScriptError (inputs : CCoinsViewCache) (tx : CTransaction) :
    List CTxIn → Nat → Option String
  | [], _ => none
  | txin :: rest, i =>
    match validation.scriptError (inputs.coinsOf txin.prevout.hash) tx i with
    | some err => some err
    | none => firstScriptError inputs tx rest (i + 1)

/-- The script checks, if they are not left to the threads. -/
def checkScripts (inputs : CCoinsViewCache) (tx : CTransaction) (fScriptChecks : Bool) :
    Except ValidationFailure Unit :=
  if fScriptChecks && validation.nScriptCheckThreads == 0 then
    match validation.firstScriptError inputs tx tx.vin 0 with
    | some err => .error (invalid 100 ("mandatory-script-verify-flag-failed (" ++ err ++ ")"))
    | none => .ok ()
  else
    .ok ()

/-- The fees of a transaction and the value of its inputs. -/
def checkInputs (tx : CTransaction) (inputs : CCoinsViewCache) (nSpendHeight : Int)
    (fScriptChecks : Bool) : Except ValidationFailure (Int × Int) :=
  if tx.isCoinBase then
    .ok (0, 0)
  else if !inputs.haveInputs tx then
    .error (invalid 100 "bad-txns-inputs-missingorspent")
  else do
    let nValueIn ← validation.checkInputValues inputs nSpendHeight tx.vin 0
    let nFees ← validation.checkFees tx nValueIn
    validation.checkScripts inputs tx fScriptChecks
    .ok (nFees, nValueIn)

/-! ### The loop over the transactions -/

/-- What the loop changes: the view, the figures of the block index, and its own counts. -/
structure CheckState where
  view : CCoinsViewCache
  nMoneySupply : Int
  nMint : Int := 0
  nSigOps : Nat := 0
  vtxundo : List CTxUndo := []
  /-- The outcome of the script checks that are left to the threads. -/
  scriptsOK : Bool := true

/-- The signature operations counted so far, with those of one more transaction. -/
def totalSigOpsAreBelowMaximum (nSigOps : Nat) (view : CCoinsViewCache) (tx : CTransaction) :
    Except ValidationFailure Nat :=
  if nSigOps + validation.getLegacySigOpCount tx > MAX_BLOCK_SIGOPS_CURRENT then
    .error (invalid 100 "bad-blk-sigops")
  else if tx.isCoinBase then
    .ok (nSigOps + validation.getLegacySigOpCount tx)
  else if nSigOps + validation.getLegacySigOpCount tx + validation.getP2SHSigOpCount tx view
      > MAX_BLOCK_SIGOPS_CURRENT then
    .error (invalid 100 "bad-blk-sigops")
  else
    .ok (nSigOps + validation.getLegacySigOpCount tx + validation.getP2SHSigOpCount tx view)

/-- The new `nMoneySupply` and `nMint`. -/
def checkInputsAndUpdateCoinSupplyRecords (tx : CTransaction) (state : CheckState)
    (nSpendHeight : Int) (fScriptChecks : Bool) : Except ValidationFailure (Int × Int) := do
  let (txFees, txInputAmount) ← validation.checkInputs tx state.view nSpendHeight fScriptChecks
  let nValueOut ← ofOption tx.getValueOut
  let mintingMinusBurn := nValueOut - txInputAmount
  .ok (wrap (state.nMoneySupply + mintingMinusBurn),
    wrap (state.nMint + (mintingMinusBurn + txFees)))

/-- A coinstake that spends a vault has to return what it takes. -/
def checkVaults (tx : CTransaction) (nExpectedMint : CBlockRewards) (view : CCoinsViewCache) :
    Except ValidationFailure Unit :=
  match checkCoinstakeForVaults tx nExpectedMint view with
  | none => .error .assertion
  | some true => .ok ()
  | some false => .error (invalid 100 "bad-coinstake-vault-spend")

/-- One transaction; only the undo data of a coinbase is not kept. -/
def checkNext (nExpectedMint : CBlockRewards) (nHeight nSpendHeight : Int) (fScriptChecks : Bool)
    (state : CheckState) (tx : CTransaction) : Except ValidationFailure CheckState := do
  let nSigOps ← validation.totalSigOpsAreBelowMaximum state.nSigOps state.view tx
  let (nMoneySupply, nMint) ←
    validation.checkInputsAndUpdateCoinSupplyRecords tx state nSpendHeight fScriptChecks
  checkVaults tx nExpectedMint state.view
  let (view, txundo) ← ofOption (updateCoinsWithTransaction tx nHeight state.view)
  .ok { view := view
        nMoneySupply := nMoneySupply
        nMint := nMint
        nSigOps := nSigOps
        vtxundo := if tx.isCoinBase then state.vtxundo else state.vtxundo ++ [txundo]
        scriptsOK := state.scriptsOK && (!fScriptChecks || tx.isCoinBase ||
          (validation.firstScriptError state.view tx tx.vin 0).isNone) }

/-- The loop over the transactions of the block. -/
def checkLoop (nExpectedMint : CBlockRewards) (nHeight nSpendHeight : Int) (fScriptChecks : Bool) :
    List CTransaction → CheckState → Except ValidationFailure CheckState
  | [], state => .ok state
  | tx :: rest, state => do
    let state ← validation.checkNext nExpectedMint nHeight nSpendHeight fScriptChecks state tx
    checkLoop nExpectedMint nHeight nSpendHeight fScriptChecks rest state

/-! ### `ConnectBlock` -/

variable (block : CBlock)

/-- The kind of block for its height, and no transaction that overwrites unspent outputs. -/
def checkEnforcedPoSBlocksAndBIP30 (nHeight : Int) (view : CCoinsViewCache) :
    Except ValidationFailure Unit :=
  if nHeight ≤ validation.chainParams.nLastPOWBlock ∧ block.isProofOfStake then
    .error (invalid 100 "PoS-early")
  else if nHeight > validation.chainParams.nLastPOWBlock ∧ !block.isProofOfStake then
    .error (invalid 100 "PoW-ended")
  else if block.vtx.any fun tx => !(view.coinsOf tx.hash).isPruned then
    .error (invalid 100 "bad-txns-BIP30")
  else
    .ok ()

/-- Fees go to the miner of a proof-of-work block, and are destroyed otherwise. -/
def calculateFees (isProofOfWork : Bool) (nMint nMoneySupply nMoneySupplyPrev : Int)
    (nExpectedMint : CBlockRewards) : CBlockRewards :=
  let nFees := wrap (nMint - wrap (nMoneySupply - nMoneySupplyPrev))
  if isProofOfWork then
    { nExpectedMint with nStakeReward := wrap (nExpectedMint.nStakeReward + nFees) }
  else nExpectedMint

/-- `IsBlockValueValid` adds up the expected mint in 64 bits. -/
def checkMintTotalsAndBlockPayees (pindex : BlockPointer) (nMint nHeight : Int)
    (nExpectedMint : CBlockRewards) : Except ValidationFailure Unit :=
  let index := if nHeight > validation.chainParams.nLastPOWBlock then 1 else 0
  match block.vtx[index]? with
  | none => .error .assertion
  | some coinbaseTx =>
    if nMint > wrap (validation.incentives.expectedMintCombined nExpectedMint nHeight) then
      .error (invalid 100 "bad-cb-amount")
    else
      match validation.incentives.hasValidPayees coinbaseTx pindex with
      | none => .error .assertion
      | some true => .ok ()
      | some false => .error (invalid 0 "bad-cb-payee")

/-- What is left to check behind the mint totals. -/
def checkRemaining (scriptsOK fJustCheck : Bool) :
    Except ValidationFailure Unit :=
  if !validation.fVerifyingBlocks && !validation.accumulatorCheckpointUnchanged block then
    .error (.dos 100 0 "" false)
  else if validation.nScriptCheckThreads ≠ 0 ∧ !scriptsOK then
    .error (.dos 100 0 "" false)
  else if fJustCheck then
    .ok ()
  else
    validation.writeToDisk

/-- The coins of the chain and the block they are at. -/
structure CoinsTip where
  view : CCoinsViewCache
  hashBlock : uint256

/-- A block other than genesis, which has a parent. -/
def connectTransactions (index : CBlockIndex) (pprev : BlockPointer)
    (view : CCoinsViewCache) (fJustCheck : Bool) :
    Except ValidationFailure (CBlockIndex × CCoinsViewCache) := do
  validation.checkEnforcedPoSBlocksAndBIP30 block index.nHeight view
  let nExpectedMint ← ofOption (validation.incentives.getBlockSubsidity index.nHeight)
  -- the best block of the view is the parent, so inputs are spent at the height above it
  let parent ← ofOption pprev.head?
  let state ← validation.checkLoop nExpectedMint index.nHeight (parent.nHeight + 1)
    (index.nHeight ≥ validation.totalBlocksEstimate) block.vtx
    { view := view, nMoneySupply := parent.nMoneySupply }
  let expected := calculateFees (!block.isProofOfStake) state.nMint state.nMoneySupply
    parent.nMoneySupply nExpectedMint
  let index := { index with nMoneySupply := state.nMoneySupply, nMint := state.nMint }
  validation.checkMintTotalsAndBlockPayees block (index :: pprev) state.nMint index.nHeight expected
  validation.checkRemaining block state.scriptsOK fJustCheck
  .ok (index, state.view)

/-- A block is checked again, in case a previous version let it in. -/
def checkAgain (fJustCheck fAlreadyChecked : Bool) :
    Except ValidationFailure Unit :=
  if fAlreadyChecked then .ok () else validation.checkBlock block !fJustCheck

/-- `ConnectBlock`: checks a block against the outputs its parent leaves, and gives its index and
the outputs after it. -/
def connectBlock (pindex : BlockPointer) (tip : CoinsTip)
    (fJustCheck fAlreadyChecked : Bool) : Except ValidationFailure (CBlockIndex × CoinsTip) :=
  match pindex with
  | [] => .error .assertion
  | index :: pprev => do
    validation.checkAgain block fJustCheck fAlreadyChecked
    let hashPrevBlock := (pprev.head?.map CBlockIndex.phashBlock).getD 0
    if hashPrevBlock ≠ tip.hashBlock then
      .error .assertion
    else if block.hash = validation.hashGenesisBlock then
      .ok (index, { tip with hashBlock := if fJustCheck then tip.hashBlock else index.phashBlock })
    else do
      let (index, view) ← validation.connectTransactions block index pprev tip.view fJustCheck
      .ok (index, { view := view
                    hashBlock := if fJustCheck then tip.hashBlock else index.phashBlock })

end BlockValidation

end Divi
