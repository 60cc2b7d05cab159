/-
Transactions: outpoints, inputs, outputs and the predicates on them.

A transaction id is a field of the transaction, as it is in the source, where the
constructor fills it in.  Nothing below assumes that it was computed from the other
fields, so two different transactions may share an id.  `prevout.n` is a natural
number; the source's `(unsigned int)-1` is spelled out where it is compared with.
-/
import Divi.ChainParams

namespace Divi

/-- A hash. -/
abbrev uint256 := BitVec 256

/-- A serialized script, byte by byte. -/
abbrev CScript := List UInt8

/-- Raw bytes, `std::vector<unsigned char>`. -/
abbrev valtype := List UInt8

/-- An output of a transaction. -/
structure COutPoint where
  hash : uint256
  n : Nat
  deriving DecidableEq, Repr

namespace COutPoint

/-- The input of a coinbase spends this. -/
def null : COutPoint := { hash := 0, n := 2 ^ 32 - 1 }

/-- Whether it is that one. -/
def isNull (o : COutPoint) : Bool :=
  o.hash == 0 && o.n == 2 ^ 32 - 1

end COutPoint

/-- An input. -/
structure CTxIn where
  prevout : COutPoint
  scriptSig : CScript := []
  nSequence : Nat := 2 ^ 32 - 1
  deriving DecidableEq, Repr

/-- An output. -/
structure CTxOut where
  nValue : Int
  scriptPubKey : CScript
  deriving DecidableEq, Repr

namespace CTxOut

/-- What `SetNull` leaves behind. -/
def null : CTxOut := { nValue := -1, scriptPubKey := [] }

/-- A spent output. -/
def isNull (o : CTxOut) : Bool :=
  o.nValue == -1

/-- What `SetEmpty` leaves behind. -/
def empty : CTxOut := { nValue := 0, scriptPubKey := [] }

/-- The first output of a coinstake. -/
def isEmpty (o : CTxOut) : Bool :=
  o.nValue == 0 && o.scriptPubKey.isEmpty

end CTxOut

/-- The value of a list of outputs. -/
def totalValue (vout : List CTxOut) : Int :=
  (vout.map CTxOut.nValue).sum

@[simp] theorem totalValue_nil : totalValue [] = 0 := rfl

@[simp] theorem totalValue_cons (out : CTxOut) (vout : List CTxOut) :
    totalValue (out :: vout) = out.nValue + totalValue vout := by
  simp [totalValue]

@[simp] theorem totalValue_append (a b : List CTxOut) :
    totalValue (a ++ b) = totalValue a + totalValue b := by
  simp [totalValue]

/-- A transaction with its hash. -/
structure CTransaction where
  hash : uint256
  nVersion : Int := 1
  vin : List CTxIn
  vout : List CTxOut
  nLockTime : Nat := 0
  deriving DecidableEq, Repr

namespace CTransaction

variable (tx : CTransaction)

/-- A single input that spends nothing. -/
def isCoinBase : Bool :=
  match tx.vin with
  | [input] => input.prevout.isNull
  | _ => false

/-- The coinstake transaction is marked with its first output empty. -/
def isCoinStake : Bool :=
  match tx.vin, tx.vout with
  | input :: _, marker :: _ :: _ => !input.prevout.isNull && marker.isEmpty
  | _, _ => false

end CTransaction

end Divi
