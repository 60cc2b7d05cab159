/-
Giving wallet transactions and accounting entries their positions by time.

The items are gone through by time, those of the same time in the order in which they were put
into the multimap.  An item without a position gets the next one.  An item that has one is moved
by the number of positions that were given out up to its own.

Signed overflow is undefined and has no result here.
-/
import Divi.Lib.Checked
import Divi.WalletTransactions

namespace Divi

/-- A manual entry of an account. -/
structure CAccountingEntry where
  nTime : Int
  nOrderPos : Int := -1
  nEntryNo : Nat := 0
  deriving DecidableEq, Repr

/-- A transaction or an accounting entry. -/
inductive TxPair
  | transaction (pwtx : CWalletTx)
  | entry (pacentry : CAccountingEntry)
  deriving DecidableEq, Repr

namespace TxPair

def time : TxPair → Int
  | transaction pwtx => pwtx.nTimeReceived
  | entry pacentry => pacentry.nTime

/-- Its position, -1 for none. -/
def transactionOrderIndex : TxPair → Int
  | transaction pwtx => pwtx.nOrderPos
  | entry pacentry => pacentry.nOrderPos

/-- Gives it a position. -/
def withOrderIndex (item : TxPair) (nOrderPos : Int) : TxPair :=
  match item with
  | transaction pwtx => transaction { pwtx with nOrderPos := nOrderPos }
  | entry pacentry => entry { pacentry with nOrderPos := nOrderPos }

end TxPair

/-- How loading a wallet ends. -/
inductive DBErrors
  | DB_LOAD_OK
  | DB_CORRUPT
  | DB_NONCRITICAL_ERROR
  | DB_TOO_NEW
  | DB_LOAD_FAIL
  | DB_NEED_REWRITE
  deriving DecidableEq, Repr

/-- Whether a write to the wallet database succeeds. -/
structure CWalletDB where
  writeTx : CWalletTx → Bool
  writeAccountingEntry : CAccountingEntry → Bool

/-- Whether writing it succeeds. -/
def CWalletDB.write (walletdb : CWalletDB) : TxPair → Bool
  | .transaction pwtx => walletdb.writeTx pwtx
  | .entry pacentry => walletdb.writeAccountingEntry pacentry

/-- The variables of the loop, with the items that it has gone through. -/
structure Reordering where
  orderedTransactionIndex : Int := 0
  newIndicesOfPreviouslyUnorderedTransactions : List Int := []
  items : List TxPair := []
  deriving DecidableEq, Repr

namespace Reordering

variable (walletdb : CWalletDB) (st : Reordering)

/-- The positions issued that are not above it. -/
def numberOfSmallerPreviouslyUsedIndices (transactionOrderIndex : Int) : Nat :=
  st.newIndicesOfPreviouslyUnorderedTransactions.countP fun previouslyUsedIndex =>
    transactionOrderIndex ≥ previouslyUsedIndex

/-- An item without a position. -/
def giveIndex (item : TxPair) : Option (Except DBErrors Reordering) := do
  let next ← Checked.check 64 (st.orderedTransactionIndex + 1)
  let item := item.withOrderIndex st.orderedTransactionIndex
  if !walletdb.write item then
    some (.error .DB_LOAD_FAIL)
  else
    some (.ok
      { orderedTransactionIndex := next
        newIndicesOfPreviouslyUnorderedTransactions :=
          st.newIndicesOfPreviouslyUnorderedTransactions ++ [st.orderedTransactionIndex]
        items := st.items ++ [item] })

/-- An item that has a position. -/
def shiftIndex (item : TxPair) : Option (Except DBErrors Reordering) := do
  let number := st.numberOfSmallerPreviouslyUsedIndices item.transactionOrderIndex
  let transactionOrderIndex ← Checked.check 64 (item.transactionOrderIndex + number)
  let next ← Checked.check 64 (transactionOrderIndex + 1)
  let item := item.withOrderIndex transactionOrderIndex
  if number ≠ 0 ∧ !walletdb.write item then
    some (.error .DB_LOAD_FAIL)
  else
    some (.ok
      { st with
        orderedTransactionIndex := max st.orderedTransactionIndex next
        items := st.items ++ [item] })

/-- The body of the loop. -/
def reorderItem (item : TxPair) : Option (Except DBErrors Reordering) :=
  if item.transactionOrderIndex = -1 then st.giveIndex walletdb item
  else st.shiftIndex walletdb item

/-- The loop over the items, up to the first error. -/
def reorderItems (st : Reordering) : List TxPair → Option (Except DBErrors Reordering)
  | [] => some (.ok st)
  | item :: items =>
    match st.reorderItem walletdb item with
    | none => none
    | some (.error error) => some (.error error)
    | some (.ok st) => reorderItems st items

end Reordering

/-- The items in the order in which they are put into the multimap. -/
def txItems (walletTransactions : List CWalletTx) (acentries : List CAccountingEntry) :
    List TxPair :=
  walletTransactions.map TxPair.transaction ++ acentries.map TxPair.entry

/-- The items by time. -/
def txByTime (walletTransactions : List CWalletTx) (acentries : List CAccountingEntry) :
    List TxPair :=
  (txItems walletTransactions acentries).insertionSort fun item other => item.time ≤ other.time

/-- The last variables of the loop are what is left in the wallet if the result is `DB_LOAD_OK`. -/
def reorderTransactionsByTimestamp (walletdb : CWalletDB) (walletTransactions : List CWalletTx)
    (acentries : List CAccountingEntry) : Option (Except DBErrors Reordering) :=
  Reordering.reorderItems walletdb {} (txByTime walletTransactions acentries)

end Divi
