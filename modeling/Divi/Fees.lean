/-
Sizes, fees and dust.

A fee is computed in unsigned 64-bit arithmetic and a size is an `unsigned int`.  Where a signed
product overflows there is no result.
-/
import Divi.Lib.Checked
import Divi.Validation

namespace Divi

/-! ### Sizes -/

/-- The bytes of a length. -/
def getSizeOfCompactSize (nSize : Nat) : Nat :=
  if nSize < 253 then 1 else if nSize < 2 ^ 16 then 3 else if nSize < 2 ^ 32 then 5 else 9

def CScript.serializedSize (script : CScript) : Nat :=
  getSizeOfCompactSize script.length + script.length

def CTxIn.serializedSize (txin : CTxIn) : Nat :=
  36 + CScript.serializedSize txin.scriptSig + 4

def CTxOut.serializedSize (txout : CTxOut) : Nat :=
  8 + CScript.serializedSize txout.scriptPubKey

/-- A transaction that is being built. -/
structure CMutableTransaction where
  nVersion : Int := 1
  vin : List CTxIn := []
  vout : List CTxOut := []
  nLockTime : Nat := 0
  deriving DecidableEq, Repr

namespace CMutableTransaction

variable (tx : CMutableTransaction)

/-- `GetSerializeSize` of a transaction. -/
def serializedSize : Nat :=
  4 + getSizeOfCompactSize tx.vin.length + (tx.vin.map CTxIn.serializedSize).sum +
    getSizeOfCompactSize tx.vout.length + (tx.vout.map CTxOut.serializedSize).sum + 4

/-- As an `unsigned int`. -/
def getSerializeSize : Nat :=
  tx.serializedSize % 2 ^ 32

/-- `-1` at a negative value and where the sum wraps. -/
def getValueOut : Int :=
  (CTransaction.getValueOutFrom 0 tx.vout).getD (-1)

end CMutableTransaction

/-- The transaction without its hash. -/
def CTransaction.toMutable (tx : CTransaction) : CMutableTransaction :=
  { nVersion := tx.nVersion, vin := tx.vin, vout := tx.vout, nLockTime := tx.nLockTime }

/-! ### Fees -/

/-- A fee per thousand bytes. -/
structure CFeeRate where
  nSatoshisPerK : Int := 0
  deriving DecidableEq, Repr

/-- The fee for a size, in unsigned arithmetic. -/
def CFeeRate.getFee (feeRate : CFeeRate) (nSize : Nat) : Int :=
  let nFee := (feeRate.nSatoshisPerK * nSize) % 2 ^ 64 / 1000
  if nFee = 0 ∧ feeRate.nSatoshisPerK > 0 then feeRate.nSatoshisPerK else nFee

/-- The rates of the node. -/
structure FeeAndPriorityCalculator where
  minimumRelayTransactionFee : CFeeRate := ⟨10000⟩
  deriving DecidableEq, Repr

namespace FeeAndPriorityCalculator

variable (calculator : FeeAndPriorityCalculator)

/-- The rate a wallet pays. -/
def getFeeRateQuote : CFeeRate :=
  calculator.minimumRelayTransactionFee

/-- The least value worth its fee. -/
def minimumValueForNonDust : Option Int :=
  Checked.check 64 (3 * calculator.minimumRelayTransactionFee.getFee 182)

/-- `MinimumValueForNonDust` of an output. -/
def minimumValueForNonDustOf (txout : CTxOut) : Option Int :=
  Checked.check 64 (3 * calculator.minimumRelayTransactionFee.getFee (txout.serializedSize + 148))

/-- An output worth less than that. -/
def isDust (txout : CTxOut) : Option Bool :=
  (calculator.minimumValueForNonDustOf txout).map fun minimum => txout.nValue < minimum

end FeeAndPriorityCalculator

/-! ### Coins -/

/-- An output of a wallet transaction. -/
structure COutput where
  tx : CTransaction
  i : Nat
  nDepth : Int := 0
  fSpendable : Bool := true
  inRange : i < tx.vout.length
  deriving DecidableEq, Repr

namespace COutput

variable (output : COutput)

def txout : CTxOut :=
  output.tx.vout.get ⟨output.i, output.inRange⟩

def value : Int :=
  output.txout.nValue

def scriptPubKey : CScript :=
  output.txout.scriptPubKey

def outpoint : COutPoint :=
  ⟨output.tx.hash, output.i⟩

end COutput

end Divi
