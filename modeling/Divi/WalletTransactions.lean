/-
Transactions that a wallet records, and the outputs they spend.

A recorded transaction knows the block it was in when it was recorded.  Its confirmations are
counted against the active chain of the node, which changes without the record being touched.

The index entry of a block does not have its Merkle root in this model, so that root is part of
what is known of the node.  Hashes are parameters.  `fMerkleVerified` only saves a second look at
the same branch and is left out.
-/
import Divi.BlockIndex
import Divi.Lib.MerkleTree
import Divi.Lib.Wrapping

namespace Divi

/-- The hash of two Merkle nodes, and the hash of a transaction without its signatures. -/
structure WalletHashes where
  merkleHash : uint256 → uint256 → uint256
  getBareTxid : CTransaction → uint256

/-! ### Merkle branches -/

namespace CBlock

variable (hash : uint256 → uint256 → uint256) (block : CBlock)

/-- The root of the transactions. -/
def buildMerkleTree : uint256 :=
  (MerkleTree.root hash block.vtx.length (block.vtx.map CTransaction.hash)).getD 0

/-- The branch of one of them. -/
def getMerkleBranch (nIndex : Nat) : List uint256 :=
  MerkleTree.branch hash block.vtx.length (block.vtx.map CTransaction.hash) nIndex

/-- The root a branch leads to. -/
def checkMerkleBranch (txHash : uint256) (vMerkleBranch : List uint256) (nIndex : Int) : uint256 :=
  if nIndex = -1 then 0 else MerkleTree.walk hash txHash vMerkleBranch nIndex.toNat

end CBlock

/-! ### Confirmations -/

/-- A transaction and its place in a block. -/
structure CMerkleTx where
  tx : CTransaction
  hashBlock : uint256 := 0
  vMerkleBranch : List uint256 := []
  nIndex : Int := -1
  deriving DecidableEq, Repr

/-- What the node knows when confirmations are counted. -/
structure ChainContext where
  chainParams : CChainParams
  activeChain : CChain
  blockIndices : BlockMap
  /-- The `hashMerkleRoot` of the index entry with a hash. -/
  hashMerkleRoot : uint256 → uint256
  /-- `mempool.exists`. -/
  inMempool : uint256 → Bool
  hashes : WalletHashes

/-- A block of the chain. -/
def CChain.contains (activeChain : CChain) (pindex : BlockPointer) : Bool :=
  match pindex with
  | [] => false
  | block :: _ => activeChain.atHeight block.nHeight == pindex

namespace CMerkleTx

variable (mtx : CMerkleTx)

/-- Records the block of a transaction. -/
def setMerkleBranch (hashes : WalletHashes) (block : CBlock) : CMerkleTx :=
  match block.vtx.findIdx? fun tx => tx.hash = mtx.tx.hash with
  | none => { mtx with hashBlock := block.hash, vMerkleBranch := [], nIndex := -1 }
  | some nIndex =>
    { mtx with
      hashBlock := block.hash
      vMerkleBranch := block.getMerkleBranch hashes.merkleHash nIndex
      nIndex := nIndex }

variable (ctx : ChainContext)

/-- The depth in the chain, 0 if not in it. -/
def getNumberOfBlockConfirmationsINTERNAL : Int :=
  if mtx.hashBlock = 0 ∨ mtx.nIndex = -1 then
    0
  else
    match ctx.blockIndices.lookup mtx.hashBlock with
    | none | some [] => 0
    | some (block :: pprev) =>
      if !ctx.activeChain.contains (block :: pprev) then
        0
      else if CBlock.checkMerkleBranch ctx.hashes.merkleHash mtx.tx.hash mtx.vMerkleBranch
          mtx.nIndex ≠ ctx.hashMerkleRoot mtx.hashBlock then
        0
      else
        ctx.activeChain.height - block.nHeight + 1

/-- `-1` for a transaction that is neither in the chain nor in the memory pool. -/
def getNumberOfBlockConfirmations : Int :=
  let nResult := mtx.getNumberOfBlockConfirmationsINTERNAL ctx
  if nResult = 0 ∧ !ctx.inMempool mtx.tx.hash then -1 else nResult

/-- The blocks until a reward can be spent. -/
def getBlocksToMaturity : Int :=
  if !(mtx.tx.isCoinBase || mtx.tx.isCoinStake) then
    0
  else
    max 0 (ctx.chainParams.nMaturity + 1 - mtx.getNumberOfBlockConfirmations ctx)

end CMerkleTx

/-! ### The record -/

/-- A transaction of the wallet. -/
structure CWalletTx extends CMerkleTx where
  mapValue : List (String × String) := []
  vOrderForm : List (String × String) := []
  nTimeReceived : Int := 0
  nTimeSmart : Int := 0
  createdByMe : Bool := false
  strFromAccount : String := ""
  nOrderPos : Int := -1
  deriving DecidableEq, Repr

/-- `mapBareTxid` has the key of a transaction in `mapWallet` for the pointer to it. -/
structure WalletTransactionRecord where
  mapWallet : Std.TreeMap uint256 CWalletTx compare := ∅
  mapBareTxid : Std.TreeMap uint256 uint256 compare := ∅

namespace WalletTransactionRecord

variable (record : WalletTransactionRecord)

/-- Where a transaction is in `mapWallet`, by its txid or by its bare txid. -/
def keyOf (hash : uint256) : Option uint256 :=
  if record.mapWallet.contains hash then some hash else record.mapBareTxid[hash]?

/-- The transaction with a hash. -/
def getWalletTx (hash : uint256) : Option CWalletTx :=
  (record.keyOf hash).bind fun key => record.mapWallet[key]?

/-- Whether the transaction is new, which is a no-op otherwise. -/
def addTransaction (hashes : WalletHashes) (newlyAddedTransaction : CWalletTx) :
    WalletTransactionRecord × Bool :=
  if record.mapWallet.contains newlyAddedTransaction.tx.hash then
    (record, false)
  else
    ({ mapWallet := record.mapWallet.insert newlyAddedTransaction.tx.hash newlyAddedTransaction
       mapBareTxid := record.mapBareTxid.insertIfNew (hashes.getBareTxid newlyAddedTransaction.tx)
        newlyAddedTransaction.tx.hash }, true)

/-- Without writing to disk. -/
def updateMetadata (hashOfTransactionToUpdate : uint256) (copyFrom : CWalletTx) :
    WalletTransactionRecord :=
  match record.keyOf hashOfTransactionToUpdate with
  | none => record
  | some key =>
    { record with
      mapWallet := record.mapWallet.modify key fun wtxToUpdate =>
        { wtxToUpdate with
          mapValue := copyFrom.mapValue
          vOrderForm := copyFrom.vOrderForm
          nTimeSmart := copyFrom.nTimeSmart
          createdByMe := copyFrom.createdByMe
          strFromAccount := copyFrom.strFromAccount } }

end WalletTransactionRecord

/-! ### Spent outputs -/

/-- `mapTxSpends` is a multimap: outpoints with the transactions that spend them. -/
structure SpentOutputTracker where
  transactionRecord : WalletTransactionRecord := {}
  mapTxSpends : List (COutPoint × uint256) := []

namespace SpentOutputTracker

variable (tracker : SpentOutputTracker)

/-- `equal_range`. -/
def spendersOf (outpoint : COutPoint) : List uint256 :=
  (tracker.mapTxSpends.filter fun spend => spend.1 = outpoint).map Prod.snd

/-- The body of the loop for the smallest position, which is compared as an `int`. -/
def olderOf (found : Int × Option (uint256 × CWalletTx)) (hash : uint256) :
    Int × Option (uint256 × CWalletTx) :=
  match tracker.transactionRecord.getWalletTx hash with
  | none => found
  | some wtx =>
    let n := wtx.nOrderPos.bmod (2 ^ 32)
    if n < found.1 then (n, some (hash, wtx)) else found

/-- The oldest of some transactions. -/
def oldestOf (range : List uint256) : Int × Option (uint256 × CWalletTx) :=
  range.foldl tracker.olderOf (2 ^ 31 - 1, none)

/-- `none` if there is nothing to copy from, which is dereferenced. -/
def syncMetaData (range : List uint256) : Option SpentOutputTracker :=
  match (tracker.oldestOf range).2 with
  | none => if range.all fun hash => hash = 0 then some tracker else none
  | some (hashFrom, copyFrom) =>
    some { tracker with
      transactionRecord := range.foldl (fun record hash =>
        if hashFrom = hash then record else record.updateMetadata hash copyFrom)
          tracker.transactionRecord }

/-- `AddToSpends` of an outpoint. -/
def addOutpointToSpends (outpoint : COutPoint) (wtxid : uint256) : Option SpentOutputTracker :=
  let tracker := { tracker with mapTxSpends := tracker.mapTxSpends ++ [(outpoint, wtxid)] }
  tracker.syncMetaData (tracker.spendersOf outpoint)

/-- Records what a transaction spends. -/
def addToSpends (tx : CTransaction) : Option SpentOutputTracker :=
  if tx.isCoinBase then
    some tracker
  else
    tx.vin.foldlM (fun tracker txin => tracker.addOutpointToSpends txin.prevout tx.hash) tracker

/-- The tracker, and whether the transaction is new. -/
def updateSpends (hashes : WalletHashes) (newlyAddedTransaction : CWalletTx)
    (orderedTransactionIndex : Int) (loadedFromDisk : Bool) (adjustedTime : Int) :
    Option (SpentOutputTracker × Bool) :=
  let addedTx := if loadedFromDisk then newlyAddedTransaction else
    { newlyAddedTransaction with
      nOrderPos := orderedTransactionIndex
      nTimeReceived := adjustedTime }
  match tracker.transactionRecord.addTransaction hashes addedTx with
  | (_, false) => some (tracker, false)
  | (transactionRecord, true) =>
    ({ tracker with transactionRecord := transactionRecord }.addToSpends addedTx.tx).map
      fun tracker => (tracker, true)

/-- Spent by a transaction without conflict. -/
def isSpent (ctx : ChainContext) (hash : uint256) (n : Nat) : Bool :=
  (tracker.spendersOf ⟨hash, n⟩).any fun wtxid =>
    match tracker.transactionRecord.getWalletTx wtxid with
    | none => false
    | some wtx => wtx.getNumberOfBlockConfirmations ctx ≥ 0

/-- All spenders of those of its inputs that have more than one. -/
def getConflictingTxHashes (tx : CTransaction) : Finset uint256 :=
  (tx.vin.flatMap fun txin =>
    if (tracker.spendersOf txin.prevout).length ≤ 1 then []
    else tracker.spendersOf txin.prevout).toFinset

end SpentOutputTracker

end Divi
