/-
Unspent outputs.

`CCoins` holds the unspent outputs of one transaction: a spent output is null, and
nulls at the end are dropped.  `CCoinsViewCache` is modelled as one flat map from
transaction ids to them, without the layers of caching underneath; an entry without
unspent outputs is dropped when a modification ends, as the modifier's destructor does.
-/
import Divi.Script.Script
import Mathlib.Data.Finmap
import Mathlib.Data.List.DropRight

namespace Divi

/-- What is needed to restore a spent output. -/
structure CTxInUndo where
  txout : CTxOut := CTxOut.null
  fCoinBase : Bool := false
  fCoinStake : Bool := false
  nHeight : Int := 0
  nVersion : Int := 0
  deriving DecidableEq, Repr

/-- The undo data of a transaction, one entry per input. -/
abbrev CTxUndo := List CTxInUndo

/-- The outputs of a transaction, the spent ones null. -/
structure CCoins where
  fCoinBase : Bool := false
  fCoinStake : Bool := false
  vout : List CTxOut := []
  nHeight : Int := 0
  nVersion : Int := 0
  deriving DecidableEq, Repr

namespace CCoins

variable (coins : CCoins)

/-- What `Clear` leaves behind. -/
def cleared : CCoins := {}

/-- Spent outputs at the end are dropped. -/
def cleanup : CCoins :=
  { coins with vout := coins.vout.rdropWhile CTxOut.isNull }

/-- Outputs that nobody can spend are spent at once. -/
def clearUnspendable : CCoins :=
  cleanup { coins with
    vout := coins.vout.map fun txout =>
      if txout.scriptPubKey.isUnspendable then CTxOut.null else txout }

/-- The coins of a new transaction. -/
def fromTx (tx : CTransaction) (nHeightIn : Int) : CCoins :=
  clearUnspendable {
    fCoinBase := tx.isCoinBase
    fCoinStake := tx.isCoinStake
    vout := tx.vout
    nHeight := nHeightIn
    nVersion := tx.nVersion }

/-- An output that exists and is not spent. -/
def isAvailable (nPos : Nat) : Bool :=
  match coins.vout[nPos]? with
  | some out => !out.isNull
  | none => false

/-- All outputs are spent. -/
def isPruned : Bool :=
  coins.vout.all CTxOut.isNull

/-- Marks an output spent; the last one takes the other fields into its undo data. -/
def spend (nPos : Nat) : Option (CCoins × CTxInUndo) :=
  match coins.vout[nPos]? with
  | none => none
  | some out =>
    if out.isNull then
      none
    else
      let spent := cleanup { coins with vout := coins.vout.set nPos CTxOut.null }
      if spent.vout.isEmpty then
        some (spent, {
          txout := out
          fCoinBase := coins.fCoinBase
          fCoinStake := coins.fCoinStake
          nHeight := coins.nHeight
          nVersion := coins.nVersion })
      else
        some (spent, { txout := out })

/-- `operator==`: coins without unspent outputs are equal whatever else they say. -/
def equal (a b : CCoins) : Bool :=
  (a.isPruned && b.isPruned) || a = b

end CCoins

/-- The unspent outputs by transaction. -/
structure CCoinsViewCache where
  cacheCoins : Finmap (fun _ : uint256 => CCoins) := ∅

namespace CCoinsViewCache

variable (view : CCoinsViewCache)

/-- The entry of a transaction, if it has one. -/
def accessCoins (txid : uint256) : Option CCoins :=
  view.cacheCoins.lookup txid

/-- The coins a modifier starts from: cleared ones if there is no entry. -/
def coinsOf (txid : uint256) : CCoins :=
  (view.accessCoins txid).getD CCoins.cleared

/-- Stores what a modifier leaves behind. -/
def setCoins (txid : uint256) (coins : CCoins) : CCoinsViewCache :=
  if coins.cleanup.isPruned then
    { cacheCoins := view.cacheCoins.erase txid }
  else
    { cacheCoins := view.cacheCoins.insert txid coins.cleanup }

/-- `GetOutputFor`, which asserts that the output is there. -/
def getOutputFor (input : CTxIn) : Option CTxOut :=
  match view.accessCoins input.prevout.hash with
  | none => none
  | some coins =>
    if coins.isAvailable input.prevout.n then coins.vout[input.prevout.n]? else none

/-- What the inputs are worth. -/
def getValueIn (tx : CTransaction) : Option Int :=
  if tx.isCoinBase then
    some 0
  else
    (tx.vin.mapM view.getOutputFor).map fun outs => (outs.map CTxOut.nValue).sum

/-- Every input spends an output that is available. -/
def haveInputs (tx : CTransaction) : Bool :=
  tx.isCoinBase || tx.vin.all fun input =>
    match view.accessCoins input.prevout.hash with
    | none => false
    | some coins => coins.isAvailable input.prevout.n

end CCoinsViewCache

end Divi
