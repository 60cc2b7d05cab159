/-
Building a transaction that pays some recipients.

The coins come from any selection algorithm.  The signatures, the random position of the change,
the key that is reserved for it and the question whether a transaction is sent for free, which is
decided in floating point, are parameters.  A failed assertion and an overflow have no result.
-/
import Divi.Fees

namespace Divi

/-- A way to select coins for a transaction, starting from a fee: it returns distinct available
coins and a fee that is not negative. -/
structure CoinSelectionAlgorithm where
  selectCoins : CMutableTransaction → List COutput → Int → Option (List COutput × Int)
  subset : ∀ {tx vCoins fees setCoins nFeeRet},
    selectCoins tx vCoins fees = some (setCoins, nFeeRet) → setCoins ⊆ vCoins
  distinct : ∀ {tx vCoins fees setCoins nFeeRet},
    selectCoins tx vCoins fees = some (setCoins, nFeeRet) → (setCoins.map COutput.outpoint).Nodup
  fee_nonneg : ∀ {tx vCoins setCoins nFeeRet},
    selectCoins tx vCoins 0 = some (setCoins, nFeeRet) → 0 ≤ nFeeRet

/-- How a transaction compares with the fee it needs. -/
inductive FeeSufficiencyStatus
  | TX_TOO_LARGE
  | NEEDS_MORE_FEES
  | HAS_ENOUGH_FEES
  deriving DecidableEq, Repr

/-- The wallet and the settings that a transaction is built with. -/
structure TransactionCreator where
  priorityFeeCalculator : FeeAndPriorityCalculator
  maxTxFee : Int
  fSendFreeTransactions : Bool := false
  canBeSentAsFreeTransaction : CTransaction → Nat → List COutput → Bool
  getHash : CMutableTransaction → uint256
  /-- The key ID of the key that is reserved for change. -/
  reservedKeyID : Option (List UInt8)
  getRandInt : Nat → Nat
  getRandInt_lt : ∀ n, 0 < n → getRandInt n < n
  /-- The signature script for an input that spends an output of a transaction. -/
  signSignature : CTransaction → CMutableTransaction → Nat → Option CScript

namespace TransactionCreator

variable (creator : TransactionCreator)

/-- An output for each recipient. -/
def appendOutputs (intendedDestinations : List (CScript × Int)) (txNew : CMutableTransaction) :
    CMutableTransaction :=
  { txNew with vout := intendedDestinations.map fun s => ⟨s.2, s.1⟩ }

/-- No output is dust; `none` is an overflow. -/
def ensureNoOutputsAreDust : List CTxOut → Option Bool
  | [] => some true
  | txout :: vout =>
    match creator.priorityFeeCalculator.isDust txout with
    | none => none
    | some true => some false
    | some false => ensureNoOutputsAreDust vout

/-- `GetScriptForDestination` of a key ID. -/
def getScriptForDestination (keyID : List UInt8) : CScript :=
  [OP_DUP, OP_HASH160, 20] ++ keyID ++ [OP_EQUALVERIFY, OP_CHECKSIG]

/-- The change goes to the reserved key, its value is set later. -/
def createChangeOutput : Option CTxOut :=
  creator.reservedKeyID.map fun keyID => ⟨-1, getScriptForDestination keyID⟩

/-- The fee for a size, at most `maxTxFee`. -/
def getMinimumFee (nTxBytes : Nat) : Int :=
  min (creator.priorityFeeCalculator.getFeeRateQuote.getFee nTxBytes) creator.maxTxFee

/-- The status, and the fee as it is needed. -/
def checkFeesAreSufficientAndUpdateFeeAsNeeded (wtxNew : CTransaction)
    (outputsBeingSpent : List COutput) (nFeeRet : Int) : FeeSufficiencyStatus × Int :=
  let nBytes := wtxNew.toMutable.getSerializeSize
  if nBytes ≥ MAX_STANDARD_TX_SIZE then
    (.TX_TOO_LARGE, nFeeRet)
  else
    let nFeeNeeded := creator.getMinimumFee nBytes
    let feeIsSufficient := (creator.fSendFreeTransactions &&
      creator.canBeSentAsFreeTransaction wtxNew nBytes outputsBeingSpent) || nFeeRet ≥ nFeeNeeded
    if !feeIsSufficient then (.NEEDS_MORE_FEES, nFeeNeeded) else (.HAS_ENOUGH_FEES, nFeeRet)

/-- `SignInputs` from an input on, `none` if a signature fails. -/
def signInputsFrom (txWithoutChange : CMutableTransaction) (nIn : Nat) :
    List COutput → Option CMutableTransaction
  | [] => some txWithoutChange
  | coin :: setCoins =>
    match creator.signSignature coin.tx txWithoutChange nIn with
    | none => none
    | some scriptSig =>
      signInputsFrom { txWithoutChange with
        vin := txWithoutChange.vin.modify nIn fun txin => { txin with scriptSig := scriptSig } }
        (nIn + 1) setCoins

/-- The change is put at a random place. -/
def attachChangeOutput (changeOutput : CTxOut) (txWithoutChange : CMutableTransaction) :
    CMutableTransaction :=
  { txWithoutChange with
    vout := txWithoutChange.vout.insertIdx
      (creator.getRandInt (txWithoutChange.vout.length + 1)) changeOutput }

/-- The transaction with its change, and the fee that is paid. -/
def setChangeOutput (totalInputs totalOutputsPlusFees : Int) (txNew : CMutableTransaction)
    (nFeeRet : Int) (changeOutput : CTxOut) : Option (CMutableTransaction × Int) := do
  let nValue ← Checked.check 64 (totalInputs - totalOutputsPlusFees)
  let changeOutput := { changeOutput with nValue := nValue }
  if nValue > 0 then
    let dust ← creator.priorityFeeCalculator.isDust changeOutput
    if dust then
      let nFeeRet ← Checked.check 64 (nFeeRet + nValue)
      return (txNew, nFeeRet)
    else
      return (creator.attachChangeOutput changeOutput txNew, nFeeRet)
  else
    return (txNew, nFeeRet)

/-- The transaction with its inputs, and what they are worth. -/
def attachInputs (setCoins : List COutput) (txWithoutChange : CMutableTransaction) :
    Option (CMutableTransaction × Int) := do
  let nValueIn ← setCoins.foldlM (fun nValueIn coin => Checked.check 64 (nValueIn + coin.value)) 0
  return ({ txWithoutChange with
    vin := txWithoutChange.vin ++ setCoins.map fun coin => { prevout := coin.outpoint } }, nValueIn)

/-- The transaction with its hash. -/
def toTransaction (tx : CMutableTransaction) : CTransaction :=
  { hash := creator.getHash tx
    nVersion := tx.nVersion
    vin := tx.vin
    vout := tx.vout
    nLockTime := tx.nLockTime }

/-- Signing and the check of the fee. -/
def finishTransaction (setCoins : List COutput) (txNew : CMutableTransaction) (nFeeRet : Int) :
    Except String CTransaction :=
  match creator.signInputsFrom txNew 0 setCoins with
  | none => .error "Signing transaction failed"
  | some signed =>
    if signed.vin = [] ∧ signed.vout = [] then
      .error "Signing transaction failed"
    else
      match (creator.checkFeesAreSufficientAndUpdateFeeAsNeeded (creator.toTransaction signed)
        setCoins nFeeRet).1 with
      | .TX_TOO_LARGE => .error "Transaction too large"
      | .HAS_ENOUGH_FEES => .ok (creator.toTransaction signed)
      | .NEEDS_MORE_FEES => .error "Selected too few inputs to meet fees"

/-- Selects coins, adds inputs and a change, and signs. -/
def selectInputsProvideSignaturesAndFees (coinSelector : CoinSelectionAlgorithm)
    (vCoins : List COutput) (txNew : CMutableTransaction) :
    Option (Except String CTransaction) := do
  let changeOutput ← creator.createChangeOutput
  let totalValueToSend := txNew.getValueOut
  if !(totalValueToSend > 0) then
    return .error "Transaction amounts must be positive. Total output may not exceed limits."
  else
    let txNew := { txNew with vin := [] }
    let (setCoins, nFeeRet) ← coinSelector.selectCoins txNew vCoins 0
    let (txNew, nValueIn) ← attachInputs setCoins txNew
    let nTotalValue ← Checked.check 64 (totalValueToSend + nFeeRet)
    if setCoins = [] ∨ nValueIn < nTotalValue then
      return .error "Insufficient funds to meet coin selection algorithm requirements."
    else
      let (txNew, nFeeRet) ← creator.setChangeOutput nValueIn nTotalValue txNew nFeeRet changeOutput
      return creator.finishTransaction setCoins txNew nFeeRet

/-- `CreateTransaction`: a transaction that pays the recipients, or a message. -/
def createTransaction (coinSelector : CoinSelectionAlgorithm) (vCoins : List COutput)
    (vecSend : List (CScript × Int)) : Option (Except String CTransaction) := do
  if vecSend = [] then
    return .error "Must provide at least one destination for funds."
  else
    let txNew := appendOutputs vecSend {}
    let clean ← creator.ensureNoOutputsAreDust txNew.vout
    if !clean then
      return .error "Transaction output(s) amount too small"
    else
      creator.selectInputsProvideSignaturesAndFees coinSelector vCoins txNew

end TransactionCreator

end Divi
