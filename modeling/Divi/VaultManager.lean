/-
The vault manager: which coins of managed scripts can be staked.

A transaction is recorded the first time it is seen with an output to a managed script.  The
coins are collected by going through the record with a copy of the limits, in which each coin
uses up one of its script.

A call changes the limits or the record (`call`); `getUTXOs` reads both and the active chain.
-/
import Divi.WalletTransactions

namespace Divi

/-- The vaults that a node manages. -/
structure VaultManager where
  transactionOrderingIndex : Nat := 0
  tracker : SpentOutputTracker := {}
  managedScriptsLimits : Std.TreeMap CScript Nat compare := ∅

/-- A call that changes the manager, with the time at which it is made. -/
inductive VaultCall
  | addManagedScript (script : CScript) (limit : Nat)
  | syncTransaction (tx : CTransaction) (pblock : Option CBlock) (adjustedTime : Int)
  deriving DecidableEq, Repr

namespace VaultManager

variable (mgr : VaultManager)

/-- The transactions recorded. -/
def mapWallet : Std.TreeMap uint256 CWalletTx compare :=
  mgr.tracker.transactionRecord.mapWallet

/-- A vault and how many of its coins may be staked. -/
def addManagedScript (script : CScript) (limit : Nat) : VaultManager :=
  { mgr with
    managedScriptsLimits := mgr.managedScriptsLimits.insertIfNew script limit }

/-- Some output pays a managed script. -/
def paysManaged (tx : CTransaction) : Bool :=
  tx.vout.any fun output => mgr.managedScriptsLimits.contains output.scriptPubKey

/-- What is recorded of a transaction that comes with a block, or without one. -/
def merkleTxFor (hashes : WalletHashes) (tx : CTransaction) (pblock : Option CBlock) : CMerkleTx :=
  match pblock with
  | none => { tx := tx }
  | some block => CMerkleTx.setMerkleBranch { tx := tx } hashes block

/-- `SyncTransaction`: records a transaction that pays a managed script. -/
def syncTransaction (hashes : WalletHashes) (tx : CTransaction) (pblock : Option CBlock)
    (adjustedTime : Int) : Option VaultManager :=
  if mgr.paysManaged tx then
    (mgr.tracker.updateSpends hashes { toCMerkleTx := merkleTxFor hashes tx pblock }
        (Wrapping.wrap mgr.transactionOrderingIndex) false adjustedTime).map fun result =>
      { mgr with
        tracker := result.1
        transactionOrderingIndex := (mgr.transactionOrderingIndex + 1) % 2 ^ 64 }
  else
    some mgr

def call (hashes : WalletHashes) : VaultCall → Option VaultManager
  | .addManagedScript script limit => some (mgr.addManagedScript script limit)
  | .syncTransaction tx pblock adjustedTime =>
    mgr.syncTransaction hashes tx pblock adjustedTime

/-- A new manager with the scripts and the transactions of a database. -/
def ofDatabase (hashes : WalletHashes) (managedScripts : Std.TreeMap CScript Nat compare)
    (transactions : List CWalletTx) (adjustedTime : Int) : Option VaultManager :=
  transactions.foldlM (fun mgr txToAdd =>
    (mgr.tracker.updateSpends hashes txToAdd
        (Wrapping.wrap mgr.transactionOrderingIndex) true adjustedTime).map fun result =>
      { mgr with
        tracker := result.1
        transactionOrderingIndex := (mgr.transactionOrderingIndex + 1) % 2 ^ 64 })
    { managedScriptsLimits := managedScripts }

variable (ctx : ChainContext)

/-- The transactions that are skipped. -/
def isSkipped (tx : CWalletTx) : Bool :=
  tx.getNumberOfBlockConfirmations ctx < 1 ||
    ((tx.tx.isCoinBase || tx.tx.isCoinStake) && tx.getBlocksToMaturity ctx > 0)

/-- The body of the loop over the outputs of a transaction. -/
def collectOutput (hash : uint256)
    (state : Std.TreeMap CScript Nat compare × Finset COutPoint) (item : CTxOut × Nat) :
    Std.TreeMap CScript Nat compare × Finset COutPoint :=
  match state.1[item.1.scriptPubKey]? with
  | none => state
  | some limit =>
    if limit > 0 && !mgr.tracker.isSpent ctx hash item.2 then
      (state.1.insert item.1.scriptPubKey (limit - 1), insert ⟨hash, item.2⟩ state.2)
    else
      state

/-- The body of the loop over the transactions. -/
def collectOutputs (state : Std.TreeMap CScript Nat compare × Finset COutPoint)
    (entry : uint256 × CWalletTx) : Std.TreeMap CScript Nat compare × Finset COutPoint :=
  if isSkipped ctx entry.2 then
    state
  else
    entry.2.tx.vout.zipIdx.foldl (mgr.collectOutput ctx entry.1) state

/-- `getUTXOs`: the coins to stake, within the limits. -/
def getUTXOs : Finset COutPoint :=
  (mgr.mapWallet.toList.foldl (mgr.collectOutputs ctx)
    (mgr.managedScriptsLimits, ∅)).2

end VaultManager

end Divi
