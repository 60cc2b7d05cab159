/-
Masternode payees: the votes recorded for a score hash, who is paid by them, and
what a transaction has to pay.
-/
import Divi.Chain
import Divi.Subsidy
import Mathlib.Data.Finmap

namespace Divi

/-- `MasternodeHelpers.cpp`: the hash of the block 101 below the one to be scored. -/
def getBlockHashForScoring (pindex : BlockPointer) (offset : Int) : Option uint256 :=
  match pindex with
  | [] => none
  | block :: _ => (pindex.getAncestor (block.nHeight + offset - 101)).head?.map (·.phashBlock)

/-- A script and its votes. -/
structure CMasternodePayee where
  scriptPubKey : CScript
  nVotes : Int
  deriving DecidableEq, Repr

/-- The votes for a block. -/
structure CMasternodeBlockPayees where
  nBlockHeight : Int
  vecPayments : List CMasternodePayee := []
  voters : List COutPoint := []
  deriving DecidableEq, Repr

/-- The votes that make a payee binding. -/
def MNPAYMENTS_SIGNATURES_REQUIRED : Int := 6

namespace CMasternodeBlockPayees

variable (payees : CMasternodeBlockPayees)

/-- One more vote for the first entry of the script, or a new entry at the end. -/
def countVoteIn (payeeIn : CScript) : List CMasternodePayee → List CMasternodePayee
  | [] => [{ scriptPubKey := payeeIn, nVotes := 1 }]
  | payee :: rest =>
    if payee.scriptPubKey = payeeIn then
      { payee with nVotes := payee.nVotes + 1 } :: rest
    else
      payee :: countVoteIn payeeIn rest

/-- The source asserts that the voter is new. -/
def countVote (voter : COutPoint) (payeeIn : CScript) : Option CMasternodeBlockPayees :=
  if voter ∈ payees.voters then
    none
  else
    some { payees with
      voters := voter :: payees.voters
      vecPayments := countVoteIn payeeIn payees.vecPayments }

/-- The first payee with the most votes. -/
def getPayee : Option CScript :=
  (payees.vecPayments.foldl
    (fun (best : Option CScript × Int) p =>
      if p.nVotes > best.2 then (some p.scriptPubKey, p.nVotes) else best)
    (none, -1)).1

/-- Some output pays the script at least the amount. -/
def isPaid (txNew : CTransaction) (scriptPubKey : CScript) (required : Int) : Bool :=
  txNew.vout.any fun out => scriptPubKey = out.scriptPubKey && out.nValue ≥ required

/-- One of the binding payees is paid. -/
def isTransactionValid (subsidies : Int → Option CBlockRewards) (txNew : CTransaction) :
    Option Bool := do
  let rewards ← subsidies payees.nBlockHeight
  let requiredMasternodePayment := rewards.nMasternodeReward
  let nMaxSignatures := payees.vecPayments.foldl (fun nMaxSignatures payee =>
    if payee.nVotes ≥ nMaxSignatures ∧ payee.nVotes ≥ MNPAYMENTS_SIGNATURES_REQUIRED then
      payee.nVotes
    else nMaxSignatures) 0
  if nMaxSignatures < MNPAYMENTS_SIGNATURES_REQUIRED then
    some true
  else
    some (payees.vecPayments.any fun payee =>
      payee.nVotes ≥ MNPAYMENTS_SIGNATURES_REQUIRED &&
        isPaid txNew payee.scriptPubKey requiredMasternodePayment)

end CMasternodeBlockPayees

/-- The votes by the hash that scores masternodes. -/
structure CMasternodePayments where
  mapMasternodeBlocks : Finmap (fun _ : uint256 => CMasternodeBlockPayees) := ∅
  /-- `GetNextMasternodePayeeInQueueForPayment` one block past a tip; empty if there is none. -/
  nextPayeeInQueue : BlockPointer → CScript := fun _ => []

namespace CMasternodePayments

variable (payments : CMasternodePayments)

/-- The votes for a block. -/
def getPayeesForScoreHash (hash : uint256) : Option CMasternodeBlockPayees :=
  payments.mapMasternodeBlocks.lookup hash

/-- The payee with the most votes. -/
def getBlockPayee (seedHash : uint256) : Option CScript :=
  (payments.getPayeesForScoreHash seedHash).bind (·.getPayee)

/-- Without votes every transaction will do. -/
def isTransactionValid (subsidies : Int → Option CBlockRewards) (txNew : CTransaction)
    (seedHash : uint256) : Option Bool :=
  match payments.getPayeesForScoreHash seedHash with
  | some payees => payees.isTransactionValid subsidies txNew
  | none => some true

/-- Pays the payee of the votes, or the next in the queue. -/
def fillBlockPayee (pindexPrev : BlockPointer) (txNew : CTransaction) (rewards : CBlockRewards) :
    CTransaction :=
  match getBlockHashForScoring pindexPrev 1 with
  | none => txNew
  | some seedHash =>
    match payments.getBlockPayee seedHash with
    | some payee =>
      { txNew with vout := txNew.vout ++ [⟨rewards.nMasternodeReward, payee⟩] }
    | none =>
      let payee := payments.nextPayeeInQueue pindexPrev
      if payee.isEmpty then txNew
      else { txNew with vout := txNew.vout ++ [⟨rewards.nMasternodeReward, payee⟩] }

end CMasternodePayments

end Divi
