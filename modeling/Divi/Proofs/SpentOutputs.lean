/-
What the tracker of spent outputs knows.

A transaction that is recorded again changes nothing, and the synchronisation of metadata leaves
alone what a transaction spends and where it is confirmed.  So the multimap has, at any time, the
inputs of the recorded transactions that are not coinbases, and nothing else: `Sound`.
-/
import Divi.Lib.Runs
import Divi.WalletTransactions

namespace Divi

open WalletTransactionRecord List Option

variable {hash : uint256} {tx : CTransaction} {outpoint : COutPoint} {other : SpentOutputTracker}

/-- A coinbase spends nothing. -/
def CTransaction.Spends (tx : CTransaction) (outpoint : COutPoint) : Prop :=
  tx.isCoinBase = false ∧ ∃ txin ∈ tx.vin, txin.prevout = outpoint
  deriving Decidable

/-! ### The record up to metadata -/

namespace WalletTransactionRecord

variable {record : WalletTransactionRecord}

/-- What is recorded of a transaction, without its metadata. -/
def merkleTxAt (record : WalletTransactionRecord) (hash : uint256) : Option CMerkleTx :=
  record.mapWallet[hash]?.map CWalletTx.toCMerkleTx

theorem contains_iff : record.mapWallet.contains hash = true ↔ (record.merkleTxAt hash).isSome := by
  rw [merkleTxAt, isSome_map, Std.TreeMap.contains_eq_isSome_getElem?]

theorem getWalletTx_of_merkleTxAt {mtx : CMerkleTx}
    (h : record.merkleTxAt hash = some mtx) :
    ∃ wtx, record.getWalletTx hash = some wtx ∧ wtx.toCMerkleTx = mtx := by
  obtain ⟨wtx, hwtx, rfl⟩ := map_eq_some_iff.mp h
  have hmem : record.mapWallet.contains hash = true := contains_iff.mpr (by simp [h])
  exact ⟨wtx, by rw [getWalletTx, keyOf, if_pos hmem]; exact hwtx, rfl⟩

section Kept

/-! A part of a transaction that the synchronisation of metadata keeps. -/

variable {β : Type*} {part : CWalletTx → β}
  (hpart : ∀ wtx copyFrom : CWalletTx, part { wtx with
    mapValue := copyFrom.mapValue
    vOrderForm := copyFrom.vOrderForm
    nTimeSmart := copyFrom.nTimeSmart
    createdByMe := copyFrom.createdByMe
    strFromAccount := copyFrom.strFromAccount } = part wtx)

include hpart

theorem lookup_updateMetadata (hash key : uint256) (copyFrom : CWalletTx) :
    (record.updateMetadata hash copyFrom).mapWallet[key]?.map part =
      record.mapWallet[key]?.map part := by
  unfold updateMetadata
  cases record.keyOf hash with
  | none => rfl
  | some found =>
    rw [Std.TreeMap.getElem?_modify]
    split
    next heq =>
      rw [Std.LawfulEqOrd.eq_of_compare heq, Option.map_map]
      exact congrArg (Option.map · _) (funext fun wtx => hpart wtx copyFrom)
    next => rfl

end Kept

variable (hash : uint256)

theorem merkleTxAt_updateMetadata (copyFrom : CWalletTx) :
    (record.updateMetadata hash copyFrom).merkleTxAt = record.merkleTxAt := by
  funext key
  exact lookup_updateMetadata (fun _ _ => rfl) hash key copyFrom

/-- The position of a transaction, as it is looked up. -/
def position (record : WalletTransactionRecord) (hash : uint256) : Option Int :=
  (record.getWalletTx hash).map CWalletTx.nOrderPos

theorem position_eq_bind :
    record.position hash =
      (record.keyOf hash).bind fun key => record.mapWallet[key]?.map CWalletTx.nOrderPos := by
  rw [position, getWalletTx, map_bind]
  rfl

theorem mapBareTxid_updateMetadata (copyFrom : CWalletTx) :
    (record.updateMetadata hash copyFrom).mapBareTxid = record.mapBareTxid := by
  unfold updateMetadata
  cases record.keyOf hash with
  | none => rfl
  | some key => rfl

theorem keyOf_congr {record' : WalletTransactionRecord}
    (hd : ∀ hash, (record'.merkleTxAt hash).isSome = (record.merkleTxAt hash).isSome)
    (hbare : record'.mapBareTxid = record.mapBareTxid) : record'.keyOf = record.keyOf := by
  funext hash
  have hmem : record'.mapWallet.contains hash = record.mapWallet.contains hash :=
    Bool.eq_iff_iff.mpr (by rw [contains_iff, contains_iff, hd hash])
  rw [keyOf, keyOf, hmem, hbare]

theorem position_updateMetadata (copyFrom : CWalletTx) :
    (record.updateMetadata hash copyFrom).position = record.position := by
  have hkeys : (record.updateMetadata hash copyFrom).keyOf = record.keyOf :=
    keyOf_congr (fun key => by rw [merkleTxAt_updateMetadata])
      (mapBareTxid_updateMetadata hash copyFrom)
  funext key
  rw [position_eq_bind, position_eq_bind, hkeys]
  congr 1
  funext found
  exact lookup_updateMetadata (fun _ _ => rfl) hash found copyFrom

end WalletTransactionRecord

namespace SpentOutputTracker

variable {tracker tracker' : SpentOutputTracker} {hashes : WalletHashes}

def merkleTxAt (tracker : SpentOutputTracker) : uint256 → Option CMerkleTx :=
  tracker.transactionRecord.merkleTxAt

def position (tracker : SpentOutputTracker) : uint256 → Option Int :=
  tracker.transactionRecord.position

/-! ### One call -/

/-- The same up to metadata. -/
structure Similar (tracker tracker' : SpentOutputTracker) : Prop where
  mapTxSpends : tracker'.mapTxSpends = tracker.mapTxSpends
  merkleTxAt : tracker'.merkleTxAt = tracker.merkleTxAt
  position : tracker'.position = tracker.position

theorem similar_foldl_updateMetadata {copyFrom : CWalletTx} {hashFrom : uint256}
    (range : List uint256) (tracker : SpentOutputTracker) :
    Similar tracker { tracker with
      transactionRecord := range.foldl (fun record hash =>
        if hashFrom = hash then record else record.updateMetadata hash copyFrom)
          tracker.transactionRecord } := by
  refine List.foldlRecOn (motive := fun record =>
    Similar tracker { tracker with transactionRecord := record }) range _ ⟨rfl, rfl, rfl⟩ ?_
  intro record hs hash _
  split
  next => exact hs
  next =>
    exact ⟨rfl, (merkleTxAt_updateMetadata hash copyFrom).trans hs.merkleTxAt,
      (position_updateMetadata hash copyFrom).trans hs.position⟩

theorem similar_of_syncMetaData {range : List uint256}
    (h : tracker.syncMetaData range = some tracker') : Similar tracker tracker' := by
  unfold syncMetaData at h
  split at h
  next =>
    split at h
    next => exact Option.some.inj h ▸ ⟨rfl, rfl, rfl⟩
    next => cases h
  next =>
    cases h
    exact similar_foldl_updateMetadata range tracker

/-- The entries of the multimap for some inputs of a transaction. -/
def spendsBy (txins : List CTxIn) (wtxid : uint256) : List (COutPoint × uint256) :=
  txins.map fun txin => (txin.prevout, wtxid)

theorem foldlM_addOutpointToSpends_eq {txins : List CTxIn} {wtxid : uint256}
    (h : txins.foldlM (fun tracker txin => tracker.addOutpointToSpends txin.prevout wtxid) tracker =
      some tracker') :
    tracker'.mapTxSpends = tracker.mapTxSpends ++ spendsBy txins wtxid ∧
      tracker'.merkleTxAt = tracker.merkleTxAt := by
  induction txins generalizing tracker with
  | nil =>
    cases h
    exact ⟨(append_nil _).symm, rfl⟩
  | cons txin txins ih =>
    obtain ⟨next, hnext, hr⟩ := bind_eq_some_iff.mp h
    have hs := similar_of_syncMetaData hnext
    obtain ⟨hsp, hrec⟩ := ih hr
    refine ⟨?_, hrec.trans hs.merkleTxAt⟩
    rw [hsp, hs.mapTxSpends]
    simp [spendsBy]

/-- The entries of the multimap for a transaction. -/
def spendsOf (tx : CTransaction) : List (COutPoint × uint256) :=
  if tx.isCoinBase then [] else spendsBy tx.vin tx.hash

theorem mem_spendsOf : (outpoint, hash) ∈ spendsOf tx ↔ hash = tx.hash ∧ tx.Spends outpoint := by
  unfold spendsOf spendsBy CTransaction.Spends
  cases tx.isCoinBase with
  | true => simp
  | false =>
    simp only [Bool.false_eq_true, if_false, List.mem_map, Prod.mk.injEq, true_and]
    constructor
    · intro ⟨txin, htxin, hp, hh⟩
      exact ⟨hh.symm, txin, htxin, hp⟩
    · intro ⟨hh, txin, htxin, hp⟩
      exact ⟨txin, htxin, hp, hh.symm⟩

theorem addToSpends_eq (h : tracker.addToSpends tx = some tracker') :
    tracker'.mapTxSpends = tracker.mapTxSpends ++ spendsOf tx ∧
      tracker'.merkleTxAt = tracker.merkleTxAt := by
  unfold addToSpends at h
  unfold spendsOf
  split at h
  next hcb =>
    cases h
    rw [if_pos hcb, append_nil]
    exact ⟨rfl, rfl⟩
  next hcb =>
    rw [if_neg hcb]
    exact foldlM_addOutpointToSpends_eq h

/-- The transaction as it is recorded: the position and the time are set unless it comes from
disk. -/
def addedTx (wtx : CWalletTx) (index : Int) (loadedFromDisk : Bool) (adjustedTime : Int) :
    CWalletTx :=
  if loadedFromDisk then wtx else { wtx with nOrderPos := index, nTimeReceived := adjustedTime }

/-- The tracker with a new transaction in the record. -/
def withTransaction (tracker : SpentOutputTracker) (hashes : WalletHashes) (added : CWalletTx) :
    SpentOutputTracker :=
  { tracker with
    transactionRecord :=
      { mapWallet := tracker.transactionRecord.mapWallet.insert added.tx.hash added
        mapBareTxid := tracker.transactionRecord.mapBareTxid.insertIfNew
          (hashes.getBareTxid added.tx) added.tx.hash } }

theorem withTransaction_merkleTxAt (added : CWalletTx) :
    (tracker.withTransaction hashes added).merkleTxAt =
      Function.update tracker.merkleTxAt added.tx.hash (some added.toCMerkleTx) := by
  funext hash
  by_cases hh : hash = added.tx.hash
  · rw [hh, Function.update_self]
    simp [merkleTxAt, WalletTransactionRecord.merkleTxAt, withTransaction]
  · rw [Function.update_of_ne hh]
    simp [merkleTxAt, WalletTransactionRecord.merkleTxAt, withTransaction,
      Std.TreeMap.getElem?_insert, Ne.symm hh]

theorem withTransaction_position_self (added : CWalletTx) :
    (tracker.withTransaction hashes added).position added.tx.hash = some added.nOrderPos := by
  simp [position, position_eq_bind, keyOf, withTransaction]

variable {wtx : CWalletTx} {index adjustedTime : Int} {loadedFromDisk isNew : Bool}

theorem addedTx_toCMerkleTx :
    (addedTx wtx index loadedFromDisk adjustedTime).toCMerkleTx = wtx.toCMerkleTx := by
  unfold addedTx
  split
  next => rfl
  next => rfl

theorem updateSpends_of_recorded (h : (tracker.merkleTxAt wtx.tx.hash).isSome) :
    tracker.updateSpends hashes wtx index loadedFromDisk adjustedTime = some (tracker, false) := by
  have hmem : tracker.transactionRecord.mapWallet.contains
      (addedTx wtx index loadedFromDisk adjustedTime).tx.hash = true := by
    rw [contains_iff, addedTx_toCMerkleTx]
    exact h
  unfold updateSpends addTransaction
  rw [← addedTx]
  simp only [if_pos hmem]

theorem updateSpends_of_new (h : tracker.merkleTxAt wtx.tx.hash = none) :
    tracker.updateSpends hashes wtx index loadedFromDisk adjustedTime =
      ((tracker.withTransaction hashes
        (addedTx wtx index loadedFromDisk adjustedTime)).addToSpends wtx.tx).map
          fun tracker => (tracker, true) := by
  have hmem : ¬ tracker.transactionRecord.mapWallet.contains
      (addedTx wtx index loadedFromDisk adjustedTime).tx.hash = true := by
    rw [contains_iff, addedTx_toCMerkleTx]
    exact not_isSome_iff_eq_none.mpr h
  unfold updateSpends addTransaction
  rw [← addedTx]
  simp only [if_neg hmem]
  rw [withTransaction, addedTx_toCMerkleTx]

/-- **What a call does**: nothing for a transaction that is recorded, and otherwise it adds the
transaction and what it spends. -/
theorem updateSpends_cases (h : tracker.updateSpends hashes wtx index loadedFromDisk adjustedTime =
      some (tracker', isNew)) :
    ((tracker.merkleTxAt wtx.tx.hash).isSome ∧ tracker' = tracker) ∨
      (tracker.merkleTxAt wtx.tx.hash = none ∧
        tracker'.merkleTxAt =
          Function.update tracker.merkleTxAt wtx.tx.hash (some wtx.toCMerkleTx) ∧
        tracker'.mapTxSpends = tracker.mapTxSpends ++ spendsOf wtx.tx) := by
  cases hat : tracker.merkleTxAt wtx.tx.hash with
  | some mtx =>
    rw [updateSpends_of_recorded (by rw [hat]; rfl)] at h
    exact .inl ⟨rfl, (congrArg Prod.fst (Option.some.inj h)).symm⟩
  | none =>
    rw [updateSpends_of_new hat] at h
    obtain ⟨added, hsp, hres⟩ := map_eq_some_iff.mp h
    obtain ⟨hmap, hrec⟩ := addToSpends_eq hsp
    obtain rfl := congrArg Prod.fst hres
    refine .inr ⟨rfl, ?_, hmap⟩
    rw [hrec, withTransaction_merkleTxAt, addedTx_toCMerkleTx]

/-! ### Calls that return -/

/-- A transaction is looked up and its position is less than the largest `int`. -/
def HasPosition (tracker : SpentOutputTracker) (hash : uint256) : Prop :=
  ∃ nOrderPos, tracker.position hash = some nOrderPos ∧ nOrderPos.bmod (2 ^ 32) < 2 ^ 31 - 1

theorem foldl_olderOf_isSome_iff (range : List uint256) (found : Int × Option (uint256 × CWalletTx))
    (hf : found.2 = none → found.1 = 2 ^ 31 - 1) :
    (range.foldl tracker.olderOf found).2.isSome ↔
      found.2.isSome ∨ ∃ hash ∈ range, tracker.HasPosition hash := by
  induction range generalizing found with
  | nil => simp
  | cons hash range ih =>
    rw [foldl_cons, exists_mem_cons_iff]
    have hpos : tracker.position hash =
      (tracker.transactionRecord.getWalletTx hash).map CWalletTx.nOrderPos := rfl
    cases hwtx : tracker.transactionRecord.getWalletTx hash with
    | none =>
      have hstep : tracker.olderOf found hash = found := by simp only [olderOf, hwtx]
      have hn : ¬ tracker.HasPosition hash := by simp [HasPosition, hpos, hwtx]
      rw [hstep, ih found hf]
      simp [hn]
    | some wtx =>
      have hstep : tracker.olderOf found hash =
          if wtx.nOrderPos.bmod (2 ^ 32) < found.1 then
            (wtx.nOrderPos.bmod (2 ^ 32), some (hash, wtx))
          else found := by simp only [olderOf, hwtx]
      have hhas : tracker.HasPosition hash ↔ wtx.nOrderPos.bmod (2 ^ 32) < 2 ^ 31 - 1 := by
        simp [HasPosition, hpos, hwtx]
      rw [hstep]
      by_cases hlt : wtx.nOrderPos.bmod (2 ^ 32) < found.1
      · rw [if_pos hlt, ih _ (by simp)]
        cases hsome : found.2 with
        | none => simp [hhas.mpr (hf hsome ▸ hlt)]
        | some _ => simp
      · rw [if_neg hlt, ih found hf]
        cases hsome : found.2 with
        | none => simp [mt hhas.mp (hf hsome ▸ hlt)]
        | some _ => simp

theorem syncMetaData_isSome_iff (range : List uint256) : (tracker.syncMetaData range).isSome ↔
      (∃ hash ∈ range, tracker.HasPosition hash) ∨ ∀ hash ∈ range, hash = 0 := by
  have ho : (tracker.oldestOf range).2.isSome ↔ ∃ hash ∈ range, tracker.HasPosition hash := by
    rw [oldestOf, foldl_olderOf_isSome_iff range _ fun _ => rfl]
    simp
  rw [← ho, syncMetaData]
  cases (tracker.oldestOf range).2 with
  | none => simp [isSome_ite]
  | some _ => simp

/-- Whether an outpoint can be added depends on the multimap and on the positions only. -/
theorem addOutpointToSpends_isSome_congr (outpoint : COutPoint) (wtxid : uint256)
    (hsp : other.mapTxSpends = tracker.mapTxSpends) (hpos : other.position = tracker.position) :
    (other.addOutpointToSpends outpoint wtxid).isSome =
      (tracker.addOutpointToSpends outpoint wtxid).isSome := by
  rw [Bool.eq_iff_iff, addOutpointToSpends, addOutpointToSpends, syncMetaData_isSome_iff,
    syncMetaData_isSome_iff]
  unfold position at hpos
  simp only [spendersOf, HasPosition, position, hsp, hpos]

theorem addToSpends_isSome_congr (tx : CTransaction) (hsp : other.mapTxSpends = tracker.mapTxSpends)
    (hpos : other.position = tracker.position) :
    (other.addToSpends tx).isSome = (tracker.addToSpends tx).isSome := by
  unfold addToSpends
  split
  next => rfl
  next =>
    generalize tx.hash = wtxid
    induction tx.vin generalizing tracker other with
    | nil => rfl
    | cons txin txins ih =>
      rw [foldlM_cons, foldlM_cons]
      have ha := addOutpointToSpends_isSome_congr txin.prevout wtxid hsp hpos
      cases hnext : tracker.addOutpointToSpends txin.prevout wtxid with
      | none =>
        rw [hnext, isSome_none, isSome_eq_false_iff, isNone_iff_eq_none] at ha
        rw [ha]
      | some next =>
        rw [hnext, isSome_some] at ha
        obtain ⟨next', hnext'⟩ := isSome_iff_exists.mp ha
        have hs := similar_of_syncMetaData hnext
        have hsi' := similar_of_syncMetaData hnext'
        rw [hnext']
        refine ih ?_ ?_
        · rw [hs.mapTxSpends, hsi'.mapTxSpends, hsp]
        · rw [hs.position, hsi'.position]
          exact hpos

theorem withTransaction_position_congr {added added' : CWalletTx} (htx : added'.tx = added.tx)
    (hpos : added'.nOrderPos = added.nOrderPos) :
    (tracker.withTransaction hashes added').position =
      (tracker.withTransaction hashes added).position := by
  have hkeys : (tracker.withTransaction hashes added').transactionRecord.keyOf =
      (tracker.withTransaction hashes added).transactionRecord.keyOf := by
    funext hash
    simp [withTransaction, keyOf, htx]
  funext hash
  unfold position
  rw [position_eq_bind, position_eq_bind, hkeys]
  congr 1
  funext key
  simp only [withTransaction, htx, Std.TreeMap.getElem?_insert]
  split
  next => simp [hpos]
  next => rfl

/-- A transaction whose position is less than the largest `int` can be added. -/
theorem addToSpends_isSome (hpos : tracker.HasPosition tx.hash) :
    (tracker.addToSpends tx).isSome := by
  unfold addToSpends
  split
  next => rfl
  next =>
    generalize tx.hash = wtxid at hpos
    induction tx.vin generalizing tracker with
    | nil => rfl
    | cons txin txins ih =>
      have ha : (tracker.addOutpointToSpends txin.prevout wtxid).isSome :=
        (syncMetaData_isSome_iff _).mpr (.inl ⟨wtxid, by simp [spendersOf], hpos⟩)
      obtain ⟨next, hnext⟩ := isSome_iff_exists.mp ha
      have hs := similar_of_syncMetaData hnext
      rw [foldlM_cons, hnext]
      refine ih ?_
      unfold HasPosition
      rw [hs.position]
      exact hpos

/-! ### The invariant -/

/-- A recorded transaction with the hash spends the outpoint. -/
def RecordedSpender (tracker : SpentOutputTracker) (outpoint : COutPoint) (hash : uint256) : Prop :=
  ∃ mtx, tracker.merkleTxAt hash = some mtx ∧ mtx.tx.Spends outpoint

/-- The multimap has what the recorded transactions spend. -/
structure Sound (tracker : SpentOutputTracker) : Prop where
  keyed : ∀ hash mtx, tracker.merkleTxAt hash = some mtx → mtx.tx.hash = hash
  mem_iff : ∀ outpoint hash,
    (outpoint, hash) ∈ tracker.mapTxSpends ↔ tracker.RecordedSpender outpoint hash

@[simp] theorem merkleTxAt_empty :
    merkleTxAt {} hash = none := by
  simp [merkleTxAt, WalletTransactionRecord.merkleTxAt]

theorem Sound.empty : Sound {} where
  keyed := by simp
  mem_iff := by simp [RecordedSpender]

theorem Sound.updateSpends (hs : tracker.Sound)
    (h : tracker.updateSpends hashes wtx index loadedFromDisk adjustedTime =
      some (tracker', isNew)) : tracker'.Sound := by
  obtain ⟨-, rfl⟩ | ⟨hnew, hrec, hsp⟩ := updateSpends_cases h
  · exact hs
  refine ⟨?_, ?_⟩
  · intro hash mtx hat
    rw [hrec] at hat
    by_cases hh : hash = wtx.tx.hash
    · rw [hh, Function.update_self] at hat
      rw [hh, ← Option.some.inj hat]
    · rw [Function.update_of_ne hh] at hat
      exact hs.keyed hash mtx hat
  · intro outpoint hash
    rw [hsp, mem_append, hs.mem_iff, mem_spendsOf]
    unfold RecordedSpender
    rw [hrec]
    by_cases hh : hash = wtx.tx.hash
    · simp [hh, hnew]
    · simp [hh]

/-- The multimap names no spender of an outpoint twice. -/
def Distinct (tracker : SpentOutputTracker) : Prop :=
  tracker.mapTxSpends.Nodup

theorem nodup_spendsOf (hins : (tx.vin.map CTxIn.prevout).Nodup) : (spendsOf tx).Nodup := by
  unfold spendsOf spendsBy
  split
  next => exact nodup_nil
  next =>
    refine List.Nodup.of_map Prod.fst ?_
    rw [List.map_map]
    exact hins

theorem Distinct.updateSpends (hs : tracker.Sound) (hdist : tracker.Distinct)
    (hins : (wtx.tx.vin.map CTxIn.prevout).Nodup)
    (h : tracker.updateSpends hashes wtx index loadedFromDisk adjustedTime =
      some (tracker', isNew)) : tracker'.Distinct := by
  obtain ⟨-, rfl⟩ | ⟨hnew, hrec, hsp⟩ := updateSpends_cases h
  · exact hdist
  unfold Distinct
  rw [hsp]
  refine List.Nodup.append hdist (nodup_spendsOf hins) ?_
  -- a transaction that is not recorded spends nothing yet
  intro spend hold ha
  obtain ⟨mtx, hat, -⟩ := (hs.mem_iff spend.1 spend.2).mp hold
  rw [(mem_spendsOf.mp ha).1, hnew] at hat
  cases hat

/-! ### What is asked of the tracker -/

theorem mem_spendersOf :
    hash ∈ tracker.spendersOf outpoint ↔ (outpoint, hash) ∈ tracker.mapTxSpends := by
  unfold spendersOf
  rw [List.mem_map]
  constructor
  · intro ⟨spend, hsp, hh⟩
    obtain ⟨hmem, ho⟩ := mem_filter.mp hsp
    rwa [← hh, ← of_decide_eq_true ho]
  · intro hmem
    exact ⟨(outpoint, hash), mem_filter.mpr ⟨hmem, by simp⟩, rfl⟩

theorem Sound.isSpent_iff (hs : tracker.Sound) {ctx : ChainContext} {n : Nat} :
    tracker.isSpent ctx hash n = true ↔
      ∃ wtxid mtx, tracker.merkleTxAt wtxid = some mtx ∧
        mtx.tx.Spends ⟨hash, n⟩ ∧ 0 ≤ mtx.getNumberOfBlockConfirmations ctx := by
  unfold isSpent
  rw [List.any_eq_true]
  constructor
  · intro ⟨wtxid, hmem, hconf⟩
    obtain ⟨mtx, hat, hsp⟩ := (hs.mem_iff _ _).mp (mem_spendersOf.mp hmem)
    obtain ⟨wtx, hwtx, rfl⟩ := getWalletTx_of_merkleTxAt hat
    rw [hwtx] at hconf
    exact ⟨wtxid, _, hat, hsp, of_decide_eq_true hconf⟩
  · intro ⟨wtxid, mtx, hat, hsp, hconf⟩
    refine ⟨wtxid, mem_spendersOf.mpr ((hs.mem_iff _ _).mpr ⟨mtx, hat, hsp⟩), ?_⟩
    obtain ⟨wtx, hwtx, rfl⟩ := getWalletTx_of_merkleTxAt hat
    rw [hwtx]
    exact decide_eq_true hconf

theorem Distinct.nodup_spendersOf (hdist : tracker.Distinct) (outpoint : COutPoint) :
    (tracker.spendersOf outpoint).Nodup := by
  refine List.Nodup.map_on ?_ (List.Nodup.filter _ hdist)
  intro spend hsp spend' hsp' hs
  have h := of_decide_eq_true (mem_filter.mp hsp).2
  have h' := of_decide_eq_true (mem_filter.mp hsp').2
  exact Prod.ext (h.trans h'.symm) hs

theorem one_lt_length_iff_of_nodup {α : Type*} {l : List α} (hl : l.Nodup) :
    1 < l.length ↔ ∃ a ∈ l, ∃ b ∈ l, a ≠ b := by
  classical
  rw [← toFinset_card_of_nodup hl, Finset.one_lt_card]
  simp

theorem Distinct.mem_getConflictingTxHashes_iff (hs : tracker.Sound) (hdist : tracker.Distinct) :
    hash ∈ tracker.getConflictingTxHashes tx ↔
      ∃ txin ∈ tx.vin, tracker.RecordedSpender txin.prevout hash ∧
        ∃ first second, first ≠ second ∧ tracker.RecordedSpender txin.prevout first ∧
          tracker.RecordedSpender txin.prevout second := by
  unfold getConflictingTxHashes
  rw [List.mem_toFinset, List.mem_flatMap]
  refine exists_congr fun txin => and_congr_right fun _ => ?_
  simp only [← hs.mem_iff, ← mem_spendersOf]
  have htwo := one_lt_length_iff_of_nodup (hdist.nodup_spendersOf txin.prevout)
  split
  next hle =>
    constructor
    · intro h
      cases h
    · intro ⟨_, first, second, hne, hfst, hsnd⟩
      exact absurd (htwo.mpr ⟨first, hfst, second, hsnd, hne⟩) (Nat.not_lt.mpr hle)
  next hgt =>
    obtain ⟨first, hfst, second, hsnd, hne⟩ := htwo.mp (Nat.lt_of_not_le hgt)
    constructor
    · intro h
      exact ⟨h, first, second, hne, hfst, hsnd⟩
    · intro h
      exact h.1

/-! ### Any sequence of calls -/

/-- A call of `UpdateSpends`, with the time at which it is made. -/
structure Call where
  newlyAddedTransaction : CWalletTx
  orderedTransactionIndex : Int
  loadedFromDisk : Bool
  adjustedTime : Int

namespace Call

/-- The hash of the transaction. -/
def txid (call : Call) : uint256 :=
  call.newlyAddedTransaction.tx.hash

/-- The position that a new transaction gets. -/
def nOrderPos (call : Call) : Int :=
  if call.loadedFromDisk then call.newlyAddedTransaction.nOrderPos else call.orderedTransactionIndex

end Call

/-- `none` if the call does not return. -/
def afterCall (hashes : WalletHashes) (tracker : SpentOutputTracker) (call : Call) :
    Option SpentOutputTracker :=
  (tracker.updateSpends hashes call.newlyAddedTransaction call.orderedTransactionIndex
    call.loadedFromDisk call.adjustedTime).map Prod.fst

theorem afterCall_eq_some {call : Call} (h : tracker.afterCall hashes call = some tracker') :
    ∃ isNew, tracker.updateSpends hashes call.newlyAddedTransaction call.orderedTransactionIndex
      call.loadedFromDisk call.adjustedTime = some (tracker', isNew) := by
  obtain ⟨result, hres, rfl⟩ := map_eq_some_iff.mp h
  exact ⟨result.2, hres⟩

theorem afterCall_isSome {call : Call} (hpos : call.nOrderPos.bmod (2 ^ 32) ≠ 2 ^ 31 - 1) :
    (tracker.afterCall hashes call).isSome := by
  unfold afterCall
  cases hat : tracker.merkleTxAt call.newlyAddedTransaction.tx.hash with
  | some mtx =>
    rw [updateSpends_of_recorded (by rw [hat]; rfl)]
    rfl
  | none =>
    rw [updateSpends_of_new hat, isSome_map, isSome_map]
    refine addToSpends_isSome ⟨call.nOrderPos, ?_, ?_⟩
    · rw [← congrArg CMerkleTx.tx addedTx_toCMerkleTx, withTransaction_position_self]
      unfold addedTx Call.nOrderPos
      split
      next => rfl
      next => rfl
    · have hle := Int.bmod_le (x := call.nOrderPos) (m := 2 ^ 32) (by decide)
      omega

variable {calls : List Call}

theorem run_isSome (hpos : ∀ call ∈ calls, call.nOrderPos.bmod (2 ^ 32) ≠ 2 ^ 31 - 1)
    (tracker : SpentOutputTracker) : (runFrom (afterCall hashes) tracker calls).isSome := by
  induction calls generalizing tracker with
  | nil => rfl
  | cons call calls ih =>
    have hcall : (tracker.afterCall hashes call).isSome :=
      afterCall_isSome (hpos call mem_cons_self)
    obtain ⟨next, hnext⟩ := isSome_iff_exists.mp hcall
    rw [runFrom, hnext]
    exact ih (fun other ho => hpos other (mem_cons_of_mem call ho)) next

/-- The record has the first transaction that came with a hash. -/
theorem merkleTxAt_of_run
    (h : runFrom (afterCall hashes) {} calls = some tracker) (hash : uint256) :
    tracker.merkleTxAt hash = (calls.find? fun call => call.txid = hash).map fun call =>
        call.newlyAddedTransaction.toCMerkleTx := by
  induction calls using List.reverseRecOn generalizing tracker with
  | nil =>
    cases h
    simp
  | append_singleton calls call ih =>
    obtain ⟨before, hpre, hcall⟩ := runFrom_concat_eq_some.mp h
    obtain ⟨isNew, hupd⟩ := afterCall_eq_some hcall
    rw [List.find?_append, map_or, ← ih hpre]
    obtain ⟨hold, rfl⟩ | ⟨hnew, hrec, -⟩ := updateSpends_cases hupd
    · by_cases hh : call.txid = hash
      · rw [← hh]
        exact (or_of_isSome hold).symm
      · simp [hh]
    · rw [hrec]
      by_cases hh : hash = call.newlyAddedTransaction.tx.hash
      · rw [hh, Function.update_self, hnew]
        simp [Call.txid]
      · rw [Function.update_of_ne hh]
        simp [Call.txid, Ne.symm hh]

theorem sound_of_run (h : runFrom (afterCall hashes) {} calls = some tracker) : tracker.Sound := by
  refine runFrom_invariant ?_ Sound.empty h
  intro before call after hs hcall
  obtain ⟨isNew, hupd⟩ := afterCall_eq_some hcall
  exact hs.updateSpends hupd

theorem distinct_of_run
    (hins : ∀ call ∈ calls, (call.newlyAddedTransaction.tx.vin.map CTxIn.prevout).Nodup)
    (h : runFrom (afterCall hashes) {} calls = some tracker) : tracker.Distinct := by
  have hboth : tracker.Sound ∧ tracker.Distinct := by
    refine runFrom_invariant_of_mem (I := fun tracker => tracker.Sound ∧ tracker.Distinct) ?_
      ⟨Sound.empty, nodup_nil⟩ h
    intro call hcall before after hpre ha
    obtain ⟨isNew, hupd⟩ := afterCall_eq_some ha
    exact ⟨hpre.1.updateSpends hupd,
      hpre.2.updateSpends hpre.1 (hins call hcall) hupd⟩
  exact hboth.2

/-- **The tracker after any sequence of calls.** -/
theorem spends_and_conflicts_of_run (hashes : WalletHashes) (calls : List Call)
    (hins : ∀ call ∈ calls, (call.newlyAddedTransaction.tx.vin.map CTxIn.prevout).Nodup) :
    ((∀ call ∈ calls, call.nOrderPos.bmod (2 ^ 32) ≠ 2 ^ 31 - 1) →
      (runFrom (afterCall hashes) {} calls).isSome) ∧
    ∀ tracker, runFrom (afterCall hashes) {} calls = some tracker →
      (∀ hash, tracker.merkleTxAt hash =
        (calls.find? fun call => call.txid = hash).map fun call =>
          call.newlyAddedTransaction.toCMerkleTx) ∧
      (∀ ctx hash n, tracker.isSpent ctx hash n = true ↔
        ∃ wtxid mtx, tracker.merkleTxAt wtxid = some mtx ∧
          mtx.tx.Spends ⟨hash, n⟩ ∧ 0 ≤ mtx.getNumberOfBlockConfirmations ctx) ∧
      ∀ tx hash, hash ∈ tracker.getConflictingTxHashes tx ↔
        ∃ txin ∈ tx.vin, tracker.RecordedSpender txin.prevout hash ∧
          ∃ first second, first ≠ second ∧ tracker.RecordedSpender txin.prevout first ∧
            tracker.RecordedSpender txin.prevout second := by
  refine ⟨fun hpos => run_isSome hpos {}, fun tracker hrun => ?_⟩
  have hs := sound_of_run hrun
  have hdist := distinct_of_run hins hrun
  exact ⟨merkleTxAt_of_run hrun, fun ctx hash n => hs.isSpent_iff,
    fun tx hash => hdist.mem_getConflictingTxHashes_iff hs⟩

private def spending (hash : uint256) : CTransaction :=
  { hash := hash, vin := [{ prevout := ⟨7, 0⟩ }], vout := [{ nValue := 5, scriptPubKey := [] }] }

private def spendingCall (hash : uint256) (index : Int) : Call :=
  { newlyAddedTransaction := { tx := spending hash }
    orderedTransactionIndex := index
    loadedFromDisk := false
    adjustedTime := 0 }

/-- Two transactions that spend the same output are in conflict. -/
theorem conflict_of_two_spenders :
    ∃ tracker, runFrom (afterCall { merkleHash := fun _ b => b, getBareTxid := CTransaction.hash })
        {} [spendingCall 1 0, spendingCall 2 1] = some tracker ∧
      1 ∈ tracker.getConflictingTxHashes (spending 1) := by
  obtain ⟨hret, he⟩ := spends_and_conflicts_of_run
    { merkleHash := fun _ b => b, getBareTxid := CTransaction.hash }
    [spendingCall 1 0, spendingCall 2 1] (by decide)
  obtain ⟨tracker, hrun⟩ := isSome_iff_exists.mp (hret (by decide))
  obtain ⟨hrec, -, hc⟩ := he tracker hrun
  have hfst : tracker.RecordedSpender ⟨7, 0⟩ 1 :=
    ⟨{ tx := spending 1 }, hrec 1, rfl, _, mem_singleton_self _, rfl⟩
  have hsnd : tracker.RecordedSpender ⟨7, 0⟩ 2 :=
    ⟨{ tx := spending 2 }, hrec 2, rfl, _, mem_singleton_self _, rfl⟩
  refine ⟨tracker, hrun, (hc (spending 1) 1).mpr ?_⟩
  exact ⟨_, mem_singleton_self _, hfst, 1, 2, by decide, hfst, hsnd⟩

end SpentOutputTracker

end Divi
