/-
Checks of transactions and blocks that need no context.

A check that fails reports what `CValidationState` would hold: the penalty, the code and
the reason.  A failed assertion or an exception is a failure of its own.  What the checks
read from the rest of the node (sizes, signature operations, the header's proof of work,
the merkle tree, the clock) are fields of `BlockValidation`, so every result below holds
whatever they are.

`checkTransaction` and `checkBlock` stop at the first check that fails.  `CheckBlock` looks
at the header, the merkle root, the number and the kinds of the transactions, each of the
transactions, and the signature operations, in this order.
-/
import Divi.BlockIncentives
import Divi.Coins
import Divi.Lib.Wrapping

namespace Divi

open Wrapping

def REJECT_INVALID : UInt8 := 0x10

/-- How a check ends that fails. -/
inductive ValidationFailure
  /-- `state.DoS`, and `state.Invalid` with no penalty. -/
  | dos (level : Nat) (chRejectCode : UInt8) (strRejectReason : String) (corruption : Bool)
  /-- The node stops or an exception is thrown. -/
  | assertion
  deriving DecidableEq, Repr

namespace ValidationFailure

/-- A `DoS` with the usual code and no corruption. -/
def invalid (level : Nat) (strRejectReason : String) : ValidationFailure :=
  .dos level REJECT_INVALID strRejectReason false

/-- A failed assertion as the outcome of a check. -/
def ofOption {α : Type} : Option α → Except ValidationFailure α
  | some a => .ok a
  | none => .error .assertion

end ValidationFailure

open ValidationFailure

/-! ### Amounts -/

/-- `MoneyRange`: an amount that is not negative nor above the limit. -/
def moneyRange (nValueOut maxMoneyOut : Int) : Bool :=
  nValueOut ≥ 0 && nValueOut ≤ maxMoneyOut

theorem moneyRange_iff {amount maxMoney : Int} :
    moneyRange amount maxMoney = true ↔ 0 ≤ amount ∧ amount ≤ maxMoney := by
  simp only [moneyRange, Bool.and_eq_true, decide_eq_true_eq, ge_iff_le]

namespace CTransaction

/-- The loop of `GetValueOut`, which throws at a negative value and where the sum wraps. -/
def getValueOutFrom (nValueOut : Int) : List CTxOut → Option Int
  | [] => some nValueOut
  | out :: rest =>
    if out.nValue < 0 then none
    else if wrap (nValueOut + out.nValue) < nValueOut then none
    else getValueOutFrom (wrap (nValueOut + out.nValue)) rest

/-- `GetValueOut`, which throws where a sum leaves the range. -/
def getValueOut (tx : CTransaction) : Option Int :=
  getValueOutFrom 0 tx.vout

end CTransaction

/-! ### `CheckTransaction` -/

/-- Limits on transactions and blocks. -/
def MAX_STANDARD_TX_SIZE : Nat := 100000

def MAX_BLOCK_SIZE_CURRENT : Nat := 2000000

def MAX_BLOCK_SIGOPS_CURRENT : Nat := 2000000 / 50

def MAX_BLOCK_SIGOPS_LEGACY : Nat := 1000000 / 50

/-- The loop over the outputs, with their total so far. -/
def checkOutputs (tx : CTransaction) (maxMoneyAllowedInOutput : Int) :
    List CTxOut → Int → Except ValidationFailure Unit
  | [], _ => .ok ()
  | txout :: rest, nValueOut =>
    if txout.isEmpty && !tx.isCoinBase && !tx.isCoinStake then
      .error (.dos 100 0 "" false)
    else if !moneyRange txout.nValue maxMoneyAllowedInOutput then
      .error (invalid 100 "bad-txns-vout-negative-or-toolarge")
    else if !moneyRange (nValueOut + txout.nValue) maxMoneyAllowedInOutput then
      .error (invalid 100 "bad-txns-txouttotal-toolarge")
    else
      checkOutputs tx maxMoneyAllowedInOutput rest (nValueOut + txout.nValue)

/-- The loop over the inputs, with the outpoints seen so far. -/
def checkDuplicateInputs : List CTxIn → List COutPoint → Except ValidationFailure Unit
  | [], _ => .ok ()
  | txin :: rest, vInOutPoints =>
    if txin.prevout ∈ vInOutPoints then
      .error (invalid 100 "bad-txns-inputs-duplicate")
    else
      checkDuplicateInputs rest (txin.prevout :: vInOutPoints)

/-- The script of a coinbase has from 2 to 150 bytes. -/
def checkCoinBaseScript (tx : CTransaction) : Except ValidationFailure Unit :=
  match tx.vin with
  | input :: _ =>
    if tx.isCoinBase && (input.scriptSig.length < 2 || input.scriptSig.length > 150) then
      .error (invalid 100 "bad-cb-length")
    else .ok ()
  | [] => .ok ()

/-- What the checks of a block read from the rest of the node. -/
structure BlockValidation where
  incentives : BlockIncentivesPopulator
  hashGenesisBlock : uint256
  /-- `CheckProofOfWork` on the header. -/
  checkProofOfWork : CBlock → Bool := fun _ => true
  adjustedTime : Int := 0
  maxFutureBlockDrift : Int := 0
  /-- Whether the root of `BuildMerkleTree` is the header's, and whether it was mutated. -/
  buildMerkleTree : CBlock → Bool × Bool := fun _ => (true, false)
  getSerializeSize : CTransaction → Nat := fun _ => 0
  getBlockSerializeSize : CBlock → Nat := fun _ => 0
  getLegacySigOpCount : CTransaction → Nat := fun _ => 0
  getP2SHSigOpCount : CTransaction → CCoinsViewCache → Nat := fun _ _ => 0
  /-- `GetTotalBlocksEstimate`: scripts are checked from this height on. -/
  totalBlocksEstimate : Int := 0
  nScriptCheckThreads : Nat := 0
  /-- The error of the script of an input, if it fails the mandatory checks. -/
  scriptError : CCoins → CTransaction → Nat → Option String := fun _ _ _ => none
  fVerifyingBlocks : Bool := false
  /-- Whether the accumulator checkpoint of the block is that of its parent. -/
  accumulatorCheckpointUnchanged : CBlock → Bool := fun _ => true
  /-- The outcome of writing the undo data and the indices. -/
  writeToDisk : Except ValidationFailure Unit := .ok ()

namespace BlockValidation

variable (validation : BlockValidation)

/-- The parameters of the network. -/
def chainParams : CChainParams :=
  validation.incentives.chainParams

/-- `CheckTransaction`: the rules that need neither a block nor the coins that are spent. -/
def checkTransaction (tx : CTransaction) : Except ValidationFailure Unit :=
  if tx.vin.isEmpty then
    .error (invalid 10 "bad-txns-vin-empty")
  else if tx.vout.isEmpty then
    .error (invalid 10 "bad-txns-vout-empty")
  else if validation.getSerializeSize tx > MAX_STANDARD_TX_SIZE then
    .error (invalid 100 "bad-txns-oversize")
  else do
    checkOutputs tx validation.chainParams.nMaxMoneyOut tx.vout 0
    checkDuplicateInputs tx.vin []
    checkCoinBaseScript tx

/-- Each transaction of a block is checked, up to the first that fails. -/
def checkTransactions : List CTransaction → Except ValidationFailure Unit
  | [] => .ok ()
  | tx :: rest => do
    validation.checkTransaction tx
    checkTransactions rest

/-! ### `CheckBlock` -/

/-- The root in the header is the one of the transactions, none of which is repeated. -/
def checkMerkleRoot (block : CBlock) (fCheckMerkleRoot : Bool) : Except ValidationFailure Unit :=
  let (rootMatches, mutated) := validation.buildMerkleTree block
  if fCheckMerkleRoot && !rootMatches then
    .error (.dos 100 REJECT_INVALID "bad-txnmrklroot" true)
  else if fCheckMerkleRoot && mutated then
    .error (.dos 100 REJECT_INVALID "bad-txns-duplicate" true)
  else .ok ()

/-- The first transaction is a coinbase, the others are not. -/
def checkCoinBases (vtx : List CTransaction) : Except ValidationFailure Unit :=
  match vtx with
  | [] => .error (invalid 100 "bad-blk-length")
  | tx :: rest =>
    if !tx.isCoinBase then .error (invalid 100 "bad-cb-missing")
    else if rest.any CTransaction.isCoinBase then .error (invalid 100 "bad-cb-multiple")
    else .ok ()

/-- In a proof-of-stake block the coinbase is empty and only the second is a coinstake. -/
def checkCoinStakes (block : CBlock) : Except ValidationFailure Unit :=
  if !block.isProofOfStake then
    .ok ()
  else
    match block.vtx with
    | tx :: stake :: rest =>
      if tx.vout.length ≠ 1 ∨ (tx.vout.any fun out => !out.isEmpty) then
        .error (.dos 100 0 "" false)
      else if !stake.isCoinStake then .error (.dos 100 0 "" false)
      else if rest.any CTransaction.isCoinStake then .error (.dos 100 0 "" false)
      else .ok ()
    | _ => .ok ()

/-- `CheckBlock`: the rules that need the block alone. -/
def checkBlock (block : CBlock) (fCheckMerkleRoot : Bool) : Except ValidationFailure Unit :=
  if !block.isProofOfStake && !validation.checkProofOfWork block then
    .error (.dos 150 REJECT_INVALID "bad-header: high-hash" true)
  else if block.nTime > validation.adjustedTime +
      (if block.isProofOfStake then validation.maxFutureBlockDrift else 7200) then
    .error (invalid 0 "time-too-new")
  else do
    validation.checkMerkleRoot block fCheckMerkleRoot
    if block.vtx.isEmpty || block.vtx.length > MAX_BLOCK_SIZE_CURRENT ||
        validation.getBlockSerializeSize block > MAX_BLOCK_SIZE_CURRENT then
      .error (invalid 100 "bad-blk-length")
    else do
      checkCoinBases block.vtx
      checkCoinStakes block
      validation.checkTransactions block.vtx
      if (block.vtx.map validation.getLegacySigOpCount).sum > MAX_BLOCK_SIGOPS_LEGACY then
        .error (.dos 100 REJECT_INVALID "bad-blk-sigops" true)
      else .ok ()

end BlockValidation

end Divi
