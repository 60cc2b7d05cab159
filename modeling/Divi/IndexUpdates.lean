/-
The address, address-unspent and spent indices.

While a block is connected or disconnected the changes to the indices are collected in lists,
transaction by transaction, and then written to the databases as batches.  Databases are finite
maps; a key is the record itself, which its serialization determines.

A failed `assert` is `none`.  The index of transaction locations is left out.
-/
import Divi.Lib.Batch
import Divi.Script.StakingVault
import Divi.Utxo

namespace Divi

/-! ### Addresses -/

/-- The bytes of a `uint160` and the type of the address; type 0 is no address. -/
abbrev HashBytesAndAddressType := valtype × Nat

/-- The address a script is indexed under; type 0 is none. -/
def computeHashbytesAndAddressTypeForScript (script : CScript) : HashBytesAndAddressType :=
  if isStakingVaultScript script then
    ((script.drop 2).take 20, 3)
  else if script.isPayToScriptHash then
    ((script.drop 2).take 20, 2)
  else if script.isPayToPublicKeyHash then
    ((script.drop 3).take 20, 1)
  else
    (List.replicate 20 0, 0)

/-! ### Records -/

/-- A change of an address's balance. -/
structure CAddressIndexKey where
  type : Nat
  hashBytes : valtype
  blockHeight : Int
  txindex : Nat
  txhash : uint256
  index : Nat
  spending : Bool
  deriving DecidableEq, Repr

/-- An unspent output of an address. -/
structure CAddressUnspentKey where
  type : Nat
  hashBytes : valtype
  txhash : uint256
  index : Nat
  deriving DecidableEq, Repr

/-- Its value, null to erase it. -/
structure CAddressUnspentValue where
  satoshis : Int := -1
  script : CScript := []
  blockHeight : Int := 0
  deriving DecidableEq, Repr

def CAddressUnspentValue.isNull (value : CAddressUnspentValue) : Bool :=
  value.satoshis == -1

/-- An output. -/
structure CSpentIndexKey where
  txid : uint256
  outputIndex : Nat
  deriving DecidableEq, Repr

/-- The input that spends it, null to erase it. -/
structure CSpentIndexValue where
  txid : uint256 := 0
  inputIndex : Nat := 0
  blockHeight : Int := 0
  satoshis : Int := 0
  addressType : Nat := 0
  addressHash : valtype := List.replicate 20 0
  deriving DecidableEq, Repr

def CSpentIndexValue.isNull (value : CSpentIndexValue) : Bool :=
  value.txid == 0

/-- Where a transaction is in the chain. -/
structure TransactionLocationReference where
  hash : uint256
  blockHeight : Int
  transactionIndex : Nat
  deriving DecidableEq, Repr

/-- Which indices are enabled. -/
structure IndexFlags where
  fAddressIndex : Bool
  fSpentIndex : Bool
  deriving DecidableEq, Repr

/-- The changes a block makes. -/
@[ext] structure IndexDatabaseUpdates where
  addressIndex : List (CAddressIndexKey × Int) := []
  addressUnspentIndex : List (CAddressUnspentKey × CAddressUnspentValue) := []
  spentIndex : List (CSpentIndexKey × CSpentIndexValue) := []

namespace IndexDatabaseUpdates

/-- What is pushed back comes after what was there. -/
instance : Append IndexDatabaseUpdates where
  append a b := {
    addressIndex := a.addressIndex ++ b.addressIndex
    addressUnspentIndex := a.addressUnspentIndex ++ b.addressUnspentIndex
    spentIndex := a.spentIndex ++ b.spentIndex }

end IndexDatabaseUpdates

/-! ### Collecting -/

section

variable (flags : IndexFlags) (txLocationRef : TransactionLocationReference)

namespace Spending

/-- What one input pushes back, for the output it spends. -/
def updatesFromInput (input : CTxIn) (j : Nat) (prevout : CTxOut) : IndexDatabaseUpdates :=
  let (hashBytes, addressType) := computeHashbytesAndAddressTypeForScript prevout.scriptPubKey
  let updates : IndexDatabaseUpdates := if flags.fAddressIndex && addressType > 0 then {
      addressIndex := [(⟨addressType, hashBytes, txLocationRef.blockHeight,
        txLocationRef.transactionIndex, txLocationRef.hash, j, true⟩, prevout.nValue * -1)]
      addressUnspentIndex := [(⟨addressType, hashBytes, input.prevout.hash, input.prevout.n⟩, {})] }
    else {}
  if flags.fSpentIndex then
    { updates with
      spentIndex := [(⟨input.prevout.hash, input.prevout.n⟩, ⟨txLocationRef.hash, j,
        txLocationRef.blockHeight, prevout.nValue, addressType, hashBytes⟩)] }
  else updates

/-- What the inputs of a connected transaction change. -/
def collectUpdatesFromInputs (tx : CTransaction) (view : CCoinsViewCache)
    (updates : IndexDatabaseUpdates) : Option IndexDatabaseUpdates :=
  if tx.isCoinBase then
    some updates
  else if flags.fAddressIndex || flags.fSpentIndex then
    tx.vin.zipIdx.foldlM (fun updates item => do
      let prevout ← view.getOutputFor item.1
      some (updates ++ updatesFromInput flags txLocationRef item.1 item.2 prevout)) updates
  else
    some updates

/-- What one output pushes back. -/
def updatesFromOutput (out : CTxOut) (k : Nat) : IndexDatabaseUpdates :=
  let (hashBytes, addressType) := computeHashbytesAndAddressTypeForScript out.scriptPubKey
  if addressType > 0 then {
      addressIndex := [(⟨addressType, hashBytes, txLocationRef.blockHeight,
        txLocationRef.transactionIndex, txLocationRef.hash, k, false⟩, out.nValue)]
      addressUnspentIndex := [(⟨addressType, hashBytes, txLocationRef.hash, k⟩,
        ⟨out.nValue, out.scriptPubKey, txLocationRef.blockHeight⟩)] }
  else {}

/-- What its outputs change. -/
def collectUpdatesFromOutputs (tx : CTransaction) (updates : IndexDatabaseUpdates) :
    IndexDatabaseUpdates :=
  if flags.fAddressIndex then
    tx.vout.zipIdx.foldl (fun updates item =>
      updates ++ updatesFromOutput txLocationRef item.1 item.2) updates
  else
    updates

end Spending

namespace ReverseSpending

/-- What taking back an input changes at its address. -/
def addressUpdatesFromInput (input : CTxIn) (txInputIndex : Nat) (prevout : CTxOut) :
    IndexDatabaseUpdates :=
  let (hashBytes, addressType) := computeHashbytesAndAddressTypeForScript prevout.scriptPubKey
  if addressType > 0 then {
      addressIndex := [(⟨addressType, hashBytes, txLocationRef.blockHeight,
        txLocationRef.transactionIndex, txLocationRef.hash, txInputIndex, true⟩,
        prevout.nValue * -1)]
      -- restored with the height of the block that is disconnected
      addressUnspentIndex := [(⟨addressType, hashBytes, input.prevout.hash, input.prevout.n⟩,
        ⟨prevout.nValue, prevout.scriptPubKey, txLocationRef.blockHeight⟩)] }
  else {}

/-- The entry of the input is erased. -/
def spentUpdatesFromInput (input : CTxIn) : IndexDatabaseUpdates :=
  if flags.fSpentIndex then
    { spentIndex := [(⟨input.prevout.hash, input.prevout.n⟩, {})] }
  else {}

/-- From the last input to the first. -/
def collectUpdatesFromInputs (tx : CTransaction) (view : CCoinsViewCache)
    (updates : IndexDatabaseUpdates) : Option IndexDatabaseUpdates :=
  if tx.isCoinBase then
    some updates
  else
    tx.vin.zipIdx.reverse.foldlM (fun updates item =>
      if flags.fAddressIndex then do
        let prevout ← view.getOutputFor item.1
        some (updates ++ addressUpdatesFromInput txLocationRef item.1 item.2 prevout ++
          spentUpdatesFromInput flags item.1)
      else
        some (updates ++ spentUpdatesFromInput flags item.1)) updates

/-- What taking back an output changes. -/
def updatesFromOutput (out : CTxOut) (k : Nat) : IndexDatabaseUpdates :=
  let (hashBytes, addressType) := computeHashbytesAndAddressTypeForScript out.scriptPubKey
  if addressType > 0 then {
      addressIndex := [(⟨addressType, hashBytes, txLocationRef.blockHeight,
        txLocationRef.transactionIndex, txLocationRef.hash, k, false⟩, out.nValue)]
      addressUnspentIndex := [(⟨addressType, hashBytes, txLocationRef.hash, k⟩, {})] }
  else {}

/-- From the last output to the first. -/
def collectUpdatesFromOutputs (tx : CTransaction) (updates : IndexDatabaseUpdates) :
    IndexDatabaseUpdates :=
  if !flags.fAddressIndex then
    updates
  else
    tx.vout.zipIdx.reverse.foldl (fun updates item =>
      updates ++ updatesFromOutput txLocationRef item.1 item.2) updates

end ReverseSpending

/-- All a connected transaction changes. -/
def recordTransaction (tx : CTransaction) (view : CCoinsViewCache)
    (updates : IndexDatabaseUpdates) : Option IndexDatabaseUpdates := do
  let updates ← Spending.collectUpdatesFromInputs flags txLocationRef tx view updates
  some (Spending.collectUpdatesFromOutputs flags txLocationRef tx updates)

/-- All a disconnected transaction changes. -/
def reverseTransaction (tx : CTransaction) (view : CCoinsViewCache)
    (updates : IndexDatabaseUpdates) : Option IndexDatabaseUpdates :=
  ReverseSpending.collectUpdatesFromInputs flags txLocationRef tx view
    (ReverseSpending.collectUpdatesFromOutputs flags txLocationRef tx updates)

end

/-! ### Transactions in the pool -/

/-- A pending change of a balance. -/
structure CMempoolAddressDeltaKey where
  type : Nat
  addressBytes : valtype
  txhash : uint256
  index : Nat
  spending : Bool
  deriving DecidableEq, Repr

/-- Its time and amount. -/
structure CMempoolAddressDelta where
  time : Int
  amount : Int
  prevhash : uint256 := 0
  prevout : Nat := 0
  deriving DecidableEq, Repr

/-- What `addAddressIndex` tests of a script: the address and its type. -/
def mempoolAddress (script : CScript) : Option HashBytesAndAddressType :=
  if script.isPayToScriptHash then some ((script.drop 2).take 20, 2)
  else if script.isPayToPublicKeyHash then some ((script.drop 3).take 20, 1)
  else none

section

variable (tx : CTransaction) (time : Int)

/-- What one input inserts into `mapAddress`, for the output it spends. -/
def deltasFromInput (input : CTxIn) (j : Nat) (prevout : CTxOut) :
    List (CMempoolAddressDeltaKey × CMempoolAddressDelta) :=
  ((mempoolAddress prevout.scriptPubKey).map fun address =>
    (⟨address.2, address.1, tx.hash, j, true⟩,
      ⟨time, prevout.nValue * -1, input.prevout.hash, input.prevout.n⟩)).toList

/-- The pending change of an output. -/
def deltasFromOutput (out : CTxOut) (k : Nat) :
    List (CMempoolAddressDeltaKey × CMempoolAddressDelta) :=
  ((mempoolAddress out.scriptPubKey).map fun address =>
    (⟨address.2, address.1, tx.hash, k, false⟩, { time := time, amount := out.nValue })).toList

/-- What is inserted for a transaction that enters the pool at a time. -/
def addAddressIndex (view : CCoinsViewCache) :
    Option (List (CMempoolAddressDeltaKey × CMempoolAddressDelta)) := do
  let inserted ← tx.vin.zipIdx.foldlM (fun inserted item => do
    let prevout ← view.getOutputFor item.1
    some (inserted ++ deltasFromInput tx time item.1 item.2 prevout)) []
  some (tx.vout.zipIdx.foldl (fun inserted item =>
    inserted ++ deltasFromOutput tx time item.1 item.2) inserted)

end

/-! ### Databases -/

/-- The three indices. -/
structure IndexDatabases where
  addressIndex : Finmap (fun _ : CAddressIndexKey => Int) := ∅
  addressUnspentIndex : Finmap (fun _ : CAddressUnspentKey => CAddressUnspentValue) := ∅
  spentIndex : Finmap (fun _ : CSpentIndexKey => CSpentIndexValue) := ∅

namespace IndexDatabases

variable (dbs : IndexDatabases)

def writeAddressIndex (vect : List (CAddressIndexKey × Int)) : IndexDatabases :=
  { dbs with
    addressIndex := Batch.apply dbs.addressIndex (vect.map fun item => (item.1, some item.2)) }

def eraseAddressIndex (vect : List (CAddressIndexKey × Int)) : IndexDatabases :=
  { dbs with
    addressIndex := Batch.apply dbs.addressIndex (vect.map fun item => (item.1, none)) }

/-- A null value erases its key. -/
def updateAddressUnspentIndex (vect : List (CAddressUnspentKey × CAddressUnspentValue)) :
    IndexDatabases :=
  { dbs with
    addressUnspentIndex := Batch.apply dbs.addressUnspentIndex
      (vect.map fun item => (item.1, if item.2.isNull then none else some item.2)) }

/-- A null value erases its key. -/
def updateSpentIndex (vect : List (CSpentIndexKey × CSpentIndexValue)) : IndexDatabases :=
  { dbs with
    spentIndex := Batch.apply dbs.spentIndex
      (vect.map fun item => (item.1, if item.2.isNull then none else some item.2)) }

variable (flags : IndexFlags) (updates : IndexDatabaseUpdates)

/-- Applies the changes of a connected block. -/
def updateDBIndicesForNewBlock : IndexDatabases :=
  let dbs := if flags.fAddressIndex then
      (dbs.writeAddressIndex updates.addressIndex).updateAddressUnspentIndex
        updates.addressUnspentIndex
    else dbs
  if flags.fSpentIndex then dbs.updateSpentIndex updates.spentIndex else dbs

/-- The updates of the spent index are collected, and not applied. -/
def applyDisconnectionUpdateIndexToDBs : IndexDatabases :=
  if flags.fAddressIndex then
    (dbs.eraseAddressIndex updates.addressIndex).updateAddressUnspentIndex
      updates.addressUnspentIndex
  else dbs

end IndexDatabases

/-! ### Blocks -/

section

variable (flags : IndexFlags) (nHeight : Int)

/-- The loop over the transactions of a block that is connected: the changes of a transaction are
collected on the coins before it. -/
def recordTransactions (view : CCoinsViewCache) (updates : IndexDatabaseUpdates) :
    List (CTransaction × Nat) → Option (CCoinsViewCache × List CTxUndo × IndexDatabaseUpdates)
  | [] => some (view, [], updates)
  | (tx, i) :: rest => do
    let updates ← recordTransaction flags ⟨tx.hash, nHeight, i⟩ tx view updates
    let (view, txundo) ← updateCoinsWithTransaction tx nHeight view
    let (view, txundos, updates) ← recordTransactions view updates rest
    some (view, txundo :: txundos, updates)

/-- `ConnectBlock` as far as coins, undo data and indices go. -/
def connectBlockWithIndices (vtx : List CTransaction) (view : CCoinsViewCache)
    (dbs : IndexDatabases) : Option (CCoinsViewCache × List CTxUndo × IndexDatabases) := do
  let (view, vtxundo, updates) ← recordTransactions flags nHeight view {} vtx.zipIdx
  some (view, vtxundo.tail, dbs.updateDBIndicesForNewBlock flags updates)

/-- The loop of `DisconnectBlock`: the changes of a transaction are collected on the coins after
its reversal.  `none` for the updates if it gives up. -/
def reverseTransactions (view : CCoinsViewCache) (fClean : Bool) (updates : IndexDatabaseUpdates) :
    List ((CTransaction × Option CTxUndo) × Nat) →
      Option (CCoinsViewCache × Bool × Option IndexDatabaseUpdates)
  | [] => some (view, fClean, some updates)
  | ((tx, txundo), i) :: rest => do
    let (view, status) ← updateCoinsReversingTransaction tx nHeight view txundo
    let fClean := fClean && status = .OK
    if status.aborts then
      some (view, fClean, none)
    else
      let updates ← reverseTransaction flags ⟨tx.hash, nHeight, i⟩ tx view updates
      reverseTransactions view fClean updates rest

/-- `DisconnectBlock` without a `pfClean`: whether it succeeds, and what it leaves behind. -/
def disconnectBlock (vtx : List CTransaction) (vtxundo : List CTxUndo) (view : CCoinsViewCache)
    (dbs : IndexDatabases) : Option (Bool × CCoinsViewCache × IndexDatabases) :=
  if vtxundo.length + 1 ≠ vtx.length then
    some (false, view, dbs)
  else do
    let (view, fClean, updates) ← reverseTransactions flags nHeight view true {}
      (vtx.zip (none :: vtxundo.map some)).zipIdx.reverse
    match updates with
    | none => some (false, view, dbs)
    | some updates => some (fClean, view, dbs.applyDisconnectionUpdateIndexToDBs flags updates)

end

end Divi
