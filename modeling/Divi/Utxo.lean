/-
Applying transactions to the unspent outputs, and taking them back.

`updateCoinsWithTransaction` spends the inputs of a transaction, recording undo data
for each, and adds its outputs.  `updateCoinsReversingTransaction` removes the outputs
and restores the inputs from the last to the first; `reversalLoop` is the loop of
`DisconnectBlock` over the transactions of a block, also from the last to the first.

A failed `assert` is `none`.
-/
import Divi.Coins

namespace Divi

/-! ### Applying -/

/-- Spends one output and records how to restore it. -/
def spendInput (view : CCoinsViewCache) (txin : CTxIn) : Option (CCoinsViewCache × CTxInUndo) := do
  let (coins, undo) ← (view.coinsOf txin.prevout.hash).spend txin.prevout.n
  some (view.setCoins txin.prevout.hash coins, undo)

/-- Spends inputs in order, with the undo data of each. -/
def spendInputs (view : CCoinsViewCache) : List CTxIn → Option (CCoinsViewCache × CTxUndo)
  | [] => some (view, [])
  | txin :: rest => do
    let (view, undo) ← spendInput view txin
    let (view, undos) ← spendInputs view rest
    some (view, undo :: undos)

/-- `UpdateCoinsWithTransaction`: spends the inputs and adds the outputs. -/
def updateCoinsWithTransaction (tx : CTransaction) (nHeight : Int) (inputs : CCoinsViewCache) :
    Option (CCoinsViewCache × CTxUndo) := do
  let (inputs, txundo) ← if tx.isCoinBase then some (inputs, []) else spendInputs inputs tx.vin
  some (inputs.setCoins tx.hash (CCoins.fromTx tx nHeight), txundo)

/-- The transactions of a block in order, with the undo data of each. -/
def updateCoinsWithBlock (nHeight : Int) (view : CCoinsViewCache) :
    List CTransaction → Option (CCoinsViewCache × List CTxUndo)
  | [] => some (view, [])
  | tx :: rest => do
    let (view, txundo) ← updateCoinsWithTransaction tx nHeight view
    let (view, txundos) ← updateCoinsWithBlock nHeight view rest
    some (view, txundo :: txundos)

/-! ### Taking back -/

/-- What the reversal of a transaction found. -/
inductive TxReversalStatus
  | ABORT_NO_OTHER_ERRORS
  | ABORT_WITH_OTHER_ERRORS
  | CONTINUE_WITH_ERRORS
  | OK
  deriving DecidableEq, Repr

/-- The outputs in the view are compared with the transaction's own, and removed. -/
def removeTxOutputsFromCache (tx : CTransaction) (nHeight : Int) (view : CCoinsViewCache) :
    CCoinsViewCache × Bool :=
  let outs := (view.coinsOf tx.hash).clearUnspendable
  let outsBlock := CCoins.fromTx tx nHeight
  let outs := if outsBlock.nVersion < 0 then { outs with nVersion := outsBlock.nVersion } else outs
  (view.setCoins tx.hash CCoins.cleared, outs.equal outsBlock)

/-- `coins->vout.resize(size)` where that makes it longer. -/
def resizeOutputs (vout : List CTxOut) (size : Nat) : List CTxOut :=
  vout ++ List.replicate (size - vout.length) CTxOut.null

/-- Puts a spent output back, and says whether the coins looked as they should. -/
def updateCoinsForRestoredInputs (out : COutPoint) (undo : CTxInUndo) (coins : CCoins)
    (fClean : Bool) : CCoins × Bool :=
  let (coins, fClean) := if undo.nHeight ≠ 0 then
      -- the last output of its transaction was spent: the other fields come back too
      ({ CCoins.cleared with
          fCoinBase := undo.fCoinBase
          nHeight := undo.nHeight
          nVersion := undo.nVersion }, fClean && coins.isPruned)
    else
      (coins, fClean && !coins.isPruned)
  let fClean := fClean && !coins.isAvailable out.n
  ({ coins with vout := (resizeOutputs coins.vout (out.n + 1)).set out.n undo.txout }, fClean)

/-- Restores one input in the view. -/
def restoreInput (view : CCoinsViewCache) (out : COutPoint) (undo : CTxInUndo) (fClean : Bool) :
    CCoinsViewCache × Bool :=
  let (coins, fClean) := updateCoinsForRestoredInputs out undo (view.coinsOf out.hash) fClean
  (view.setCoins out.hash coins, fClean)

/-- Restores inputs from the last to the first. -/
def restoreInputs (view : CCoinsViewCache) (fClean : Bool) :
    List (CTxIn × CTxInUndo) → CCoinsViewCache × Bool
  | [] => (view, fClean)
  | (txin, undo) :: rest =>
    let (view, fClean) := restoreInputs view fClean rest
    restoreInput view txin.prevout undo fClean

/-- `UpdateCoinsReversingTransaction`: removes the outputs and restores the inputs. -/
def updateCoinsReversingTransaction (tx : CTransaction) (nHeight : Int) (inputs : CCoinsViewCache)
    (txundo : Option CTxUndo) : Option (CCoinsViewCache × TxReversalStatus) :=
  let (inputs, fClean) := removeTxOutputsFromCache tx nHeight inputs
  if tx.isCoinBase then
    some (inputs, if fClean then .OK else .CONTINUE_WITH_ERRORS)
  else
    match txundo with
    | none => none
    | some vprevout =>
      if vprevout.length ≠ tx.vin.length then
        some (inputs, if fClean then .ABORT_NO_OTHER_ERRORS else .ABORT_WITH_OTHER_ERRORS)
      else
        let (inputs, fClean) := restoreInputs inputs fClean (tx.vin.zip vprevout)
        some (inputs, if fClean then .OK else .CONTINUE_WITH_ERRORS)

/-- The statuses after which `DisconnectBlock` gives up. -/
def TxReversalStatus.aborts : TxReversalStatus → Bool
  | ABORT_NO_OTHER_ERRORS => true
  | ABORT_WITH_OTHER_ERRORS => true
  | CONTINUE_WITH_ERRORS => false
  | OK => false

/-- The loop of `DisconnectBlock` on the transactions from the last to the first. -/
def reversalLoop (nHeight : Int) (view : CCoinsViewCache) :
    List (CTransaction × Option CTxUndo) → Option (CCoinsViewCache × List TxReversalStatus)
  | [] => some (view, [])
  | (tx, txundo) :: rest => do
    let (view, status) ← updateCoinsReversingTransaction tx nHeight view txundo
    if status.aborts then
      some (view, [status])
    else
      let (view, statuses) ← reversalLoop nHeight view rest
      some (view, status :: statuses)

/--
The reversal of a block: no undo data for its first transaction, and the recorded
ones for the others.  `none` also where the undo data does not fit the block.
-/
def disconnectTransactions (nHeight : Int) (vtx : List CTransaction) (vtxundo : List CTxUndo)
    (view : CCoinsViewCache) : Option (CCoinsViewCache × List TxReversalStatus) :=
  if vtxundo.length + 1 ≠ vtx.length then
    none
  else
    reversalLoop nHeight view (vtx.zip (none :: vtxundo.map some)).reverse

end Divi
