/-
Address records of transactions in the pool and of those in blocks.

Both are read off the scripts of the outputs that a transaction spends and creates, but the pool
does not know vault scripts, which have addresses of type 3 in the index of the blocks.
-/
import Divi.Proofs.IndexUpdates
import Divi.Proofs.VaultRecognition

namespace Divi

open IndexDatabaseUpdates List Option

variable {classify : CScript → Option HashBytesAndAddressType} {spending : Bool}
  {outs : List CTxOut} {flags : IndexFlags} {input : CTxIn}

/-- Type, hash, place, whether it is spent there, and the amount. -/
abbrev AddressRecord := Nat × valtype × Nat × Bool × Int

/-- What the pool inserts for a transaction. -/
def poolRecords (tx : CTransaction) (time : Int) (view : CCoinsViewCache) :
    Option (List AddressRecord) :=
  (addAddressIndex tx time view).map (List.map fun entry =>
    (entry.1.type, entry.1.addressBytes, entry.1.index, entry.1.spending, entry.2.amount))

/-- What is recorded for it once it is in a block. -/
def blockRecords (flags : IndexFlags) (ref : TransactionLocationReference) (tx : CTransaction)
    (view : CCoinsViewCache) : Option (List AddressRecord) :=
  (recordTransaction flags ref tx view {}).map (fun updates => updates.addressIndex.map fun entry =>
    (entry.1.type, entry.1.hashBytes, entry.1.index, entry.1.spending, entry.2))

/-- The address of a script in the index of the blocks. -/
def blockAddress (script : CScript) : Option HashBytesAndAddressType :=
  let address := computeHashbytesAndAddressTypeForScript script
  if address.2 > 0 then some address else none

/-- The records of some outputs. -/
def outputRecords (classify : CScript → Option HashBytesAndAddressType) (spending : Bool)
    (outs : List CTxOut) : List AddressRecord :=
  outs.zipIdx.flatMap fun item => ((classify item.1.scriptPubKey).map fun address =>
    (address.2, address.1, item.2, spending,
      if spending then item.1.nValue * -1 else item.1.nValue)).toList

variable {tx : CTransaction} {view : CCoinsViewCache} {outputAt : COutPoint → CTxOut}

/-- Only a vault has different addresses. -/
theorem addresses_cases (script : CScript) : (isStakingVaultScript script = true ∧
      blockAddress script = some ((script.drop 2).take 20, 3) ∧ mempoolAddress script = none) ∨
    (isStakingVaultScript script = false ∧ blockAddress script = mempoolAddress script ∧
      ∀ address ∈ mempoolAddress script, address.2 ≠ 3) := by
  unfold mempoolAddress blockAddress computeHashbytesAndAddressTypeForScript
  cases hva : isStakingVaultScript script with
  | true =>
    have hlen : script.length = 50 := by
      obtain ⟨o, v, ho, hv, rfl⟩ := eq_createStakingVaultScript hva
      exact length_createStakingVaultScript ho hv
    simp [CScript.isPayToScriptHash, CScript.isPayToPublicKeyHash, hlen]
  | false =>
    cases script.isPayToScriptHash with
    | true => simp
    | false => cases script.isPayToPublicKeyHash <;> simp

/-- The pool has the records that are not of type 3. -/
theorem outputRecords_mempool (spending : Bool) (outs : List CTxOut) :
    outputRecords mempoolAddress spending outs =
      (outputRecords blockAddress spending outs).filter fun record => record.1 != 3 := by
  unfold outputRecords
  rw [filter_flatMap]
  refine flatMap_congr fun item _ => ?_
  rcases addresses_cases item.1.scriptPubKey with ⟨-, hblk, hpool⟩ | ⟨-, hs, ho⟩
  · simp [hblk, hpool]
  · rw [hs]
    cases haddr : mempoolAddress item.1.scriptPubKey with
    | none => rfl
    | some address => simp [ho address haddr]

theorem forall_outputRecords {P : Nat → Prop} :
    (∀ record ∈ outputRecords classify spending outs, P record.1) ↔
      ∀ out ∈ outs, ∀ address ∈ classify out.scriptPubKey, P address.2 := by
  constructor
  · intro h out hout address haddr
    obtain ⟨i, hi, rfl⟩ := mem_iff_getElem.mp hout
    refine h (address.2, address.1, i, spending,
      if spending then outs[i].nValue * -1 else outs[i].nValue) ?_
    refine mem_flatMap.mpr ⟨(outs[i], i), mem_zipIdx_iff_getElem?.mpr (by simp), ?_⟩
    simp [mem_def.mp haddr]
  · intro h record hrec
    obtain ⟨item, hitem, hrec⟩ := mem_flatMap.mp hrec
    obtain ⟨address, haddr, rfl⟩ := map_eq_some_iff.mp (mem_toList.mp hrec)
    exact h item.1 (fst_mem_of_mem_zipIdx hitem) address haddr

theorem no_vault_iff (spending : Bool) (outs : List CTxOut) :
    (∀ record ∈ outputRecords blockAddress spending outs, (record.1 != 3) = true) ↔
      ∀ out ∈ outs, isStakingVaultScript out.scriptPubKey = false := by
  rw [forall_outputRecords (P := fun type => (type != 3) = true)]
  refine forall₂_congr fun out _ => ?_
  rcases addresses_cases out.scriptPubKey with ⟨hv, hblk, -⟩ | ⟨hv, hs, ho⟩
  · simp [hv, hblk]
  · simpa [hv, hs] using ho

theorem poolRecords_eq (time : Int)
    (h : ∀ input ∈ tx.vin, view.getOutputFor input = some (outputAt input.prevout)) :
    poolRecords tx time view =
      some (outputRecords mempoolAddress true (tx.vin.map fun input => outputAt input.prevout) ++
        outputRecords mempoolAddress false tx.vout) := by
  have hins : tx.vin.zipIdx.foldlM (fun inserted item => do
      let prevout ← view.getOutputFor item.1
      some (inserted ++ deltasFromInput tx time item.1 item.2 prevout)) [] =
        some (tx.vin.zipIdx.foldl (fun inserted item =>
          inserted ++ deltasFromInput tx time item.1 item.2 (outputAt item.1.prevout)) []) := by
    refine foldlM_eq_foldl (fun item hitem inserted => ?_) []
    rw [h item.1 (fst_mem_of_mem_zipIdx hitem)]
    rfl
  rw [poolRecords, addAddressIndex, hins]
  simp only [bind_eq_bind, bind_some, map_some, foldl_append_eq_append, nil_append, map_append,
    ← flatMap_def, map_flatMap, outputRecords, zipIdx_map, flatMap_map, Prod.map_fst, Prod.map_snd]
  congr 2
  · refine flatMap_congr fun item _ => ?_
    unfold deltasFromInput
    cases mempoolAddress (outputAt item.1.prevout).scriptPubKey <;> rfl
  · refine flatMap_congr fun item _ => ?_
    unfold deltasFromOutput
    cases mempoolAddress item.1.scriptPubKey <;> rfl

theorem blockRecords_eq (hf : flags.fAddressIndex = true) (ref : TransactionLocationReference)
    (h : ∀ input ∈ spentInputs tx, view.getOutputFor input = some (outputAt input.prevout)) :
    blockRecords flags ref tx view = some (outputRecords blockAddress true
          ((spentInputs tx).map fun input => outputAt input.prevout) ++
        outputRecords blockAddress false tx.vout) := by
  rw [blockRecords, recordTransaction_of_outputs h]
  simp only [recordedChanges, hf, if_true, empty_append, addressIndex_append,
    addressIndex_concat, map_some, map_append, map_flatMap, flatMap_map,
    outputRecords, zipIdx_map, Prod.map_fst, Prod.map_snd]
  congr 2
  · refine flatMap_congr fun item _ => ?_
    simp only [Spending.updatesFromInput, blockAddress, hf, Bool.true_and, decide_eq_true_eq]
    split <;> split <;> rfl
  · refine flatMap_congr fun item _ => ?_
    simp only [Spending.updatesFromOutput, blockAddress]
    split <;> rfl

theorem blockRecords_coinBase (hf : flags.fAddressIndex = true)
    (ref : TransactionLocationReference) (hbase : tx.isCoinBase = true) :
    blockRecords flags ref tx view = some (outputRecords blockAddress false tx.vout) := by
  have hsp : spentInputs tx = [] := if_pos hbase
  have h : ∀ input ∈ spentInputs tx,
      view.getOutputFor input = some (view.outputAt input.prevout) := by simp [hsp]
  rw [blockRecords_eq hf ref h, hsp]
  rfl

theorem spending_of_mem {record : AddressRecord}
    (h : record ∈ outputRecords classify spending outs) : record.2.2.2.1 = spending := by
  obtain ⟨item, -, hrec⟩ := mem_flatMap.mp h
  obtain ⟨address, -, rfl⟩ := map_eq_some_iff.mp (mem_toList.mp hrec)
  rfl

/-- What a transaction spends is in the view: the pool and the index of the blocks record the same
if and only if no output that it creates or spends pays a vault, and of a coinbase no output is
spent that has an address. -/
theorem records_agree_iff (hf : flags.fAddressIndex = true) (ref : TransactionLocationReference)
    (time : Int) (h : ∀ input ∈ tx.vin, view.getOutputFor input = some (outputAt input.prevout)) :
    poolRecords tx time view = blockRecords flags ref tx view ↔
      (∀ out ∈ tx.vout, isStakingVaultScript out.scriptPubKey = false) ∧
        ∀ input ∈ tx.vin,
          if tx.isCoinBase then mempoolAddress (outputAt input.prevout).scriptPubKey = none
          else isStakingVaultScript (outputAt input.prevout).scriptPubKey = false := by
  rw [poolRecords_eq time h, ← no_vault_iff false, ← filter_eq_self, ← outputRecords_mempool]
  cases hbase : tx.isCoinBase with
  | true =>
    rw [blockRecords_coinBase hf ref hbase, Option.some.injEq]
    have hnil : outputRecords mempoolAddress true (tx.vin.map fun input =>
        outputAt input.prevout) = [] ↔
          ∀ input ∈ tx.vin, mempoolAddress (outputAt input.prevout).scriptPubKey = none := by
      rw [eq_nil_iff_forall_not_mem]
      refine (forall_outputRecords (P := fun _ => False)).trans ?_
      simp [eq_none_iff_forall_ne_some]
    simp only [if_true, ← hnil]
    constructor
    · intro heq
      -- what a coinbase spends is not among its outputs
      have he := eq_nil_iff_forall_not_mem.mpr fun record hrec => by
        have hout := heq ▸ mem_append_left _ hrec
        have hs := (spending_of_mem hrec).symm.trans (spending_of_mem hout)
        cases hs
      rw [he] at heq
      exact ⟨heq, he⟩
    · rintro ⟨houts, hins⟩
      rw [houts, hins, nil_append]
  | false =>
    have hsp : spentInputs tx = tx.vin := if_neg (by simp [hbase])
    rw [blockRecords_eq hf ref (hsp ▸ h), Option.some.injEq, hsp, outputRecords_mempool,
      outputRecords_mempool, ← List.filter_append, List.filter_eq_self, List.forall_mem_append,
      no_vault_iff, List.filter_eq_self]
    simp only [List.forall_mem_map, Bool.false_eq_true, if_false]
    exact and_comm

theorem mem_zipIdx_of_mem (hmem : input ∈ tx.vin) : ∃ i, (input, i) ∈ tx.vin.zipIdx := by
  obtain ⟨i, hi, rfl⟩ := mem_iff_getElem.mp hmem
  exact ⟨i, mem_zipIdx_iff_getElem?.mpr (by simp)⟩

theorem poolRecords_eq_none (hmem : input ∈ tx.vin) (h : view.getOutputFor input = none)
    (time : Int) : poolRecords tx time view = none := by
  obtain ⟨i, hi⟩ := mem_zipIdx_of_mem hmem
  rw [poolRecords, addAddressIndex, foldlM_eq_none hi (fun _ => by rw [h]; rfl)]
  rfl

theorem blockRecords_eq_none (hf : flags.fAddressIndex = true) (hbase : tx.isCoinBase = false)
    (hmem : input ∈ tx.vin) (h : view.getOutputFor input = none)
    (ref : TransactionLocationReference) : blockRecords flags ref tx view = none := by
  obtain ⟨i, hi⟩ := mem_zipIdx_of_mem hmem
  have hins : Spending.collectUpdatesFromInputs flags ref tx view {} = none := by
    rw [Spending.collectUpdatesFromInputs, if_neg (by simp [hbase]), if_pos (by simp [hf])]
    exact foldlM_eq_none hi (fun _ => by rw [h]; rfl) _
  rw [blockRecords, recordTransaction, hins]
  rfl

/-- Where both find the outputs that are spent, or give up, they record the same if and only if no
output that the transaction creates or spends pays a vault.  Of a coinbase only the pool looks up
what it spends. -/
theorem addAddressIndex_agrees_iff {flags : IndexFlags} (hflag : flags.fAddressIndex = true)
    (ref : TransactionLocationReference) (tx : CTransaction) (time : Int) (view : CCoinsViewCache) :
    poolRecords tx time view = blockRecords flags ref tx view ↔
      if tx.isCoinBase then
        (∀ out ∈ tx.vout, isStakingVaultScript out.scriptPubKey = false) ∧
          ∀ input ∈ tx.vin, ∃ out, view.getOutputFor input = some out ∧
            mempoolAddress out.scriptPubKey = none
      else
        (∀ input ∈ tx.vin, (view.getOutputFor input).isSome) →
          (∀ out ∈ tx.vout, isStakingVaultScript out.scriptPubKey = false) ∧
            ∀ input ∈ tx.vin, ∀ out ∈ view.getOutputFor input,
              isStakingVaultScript out.scriptPubKey = false := by
  by_cases hall : ∀ input ∈ tx.vin, (view.getOutputFor input).isSome
  · obtain ⟨outputAt, h⟩ : ∃ outputAt : COutPoint → CTxOut,
        ∀ input ∈ tx.vin, view.getOutputFor input = some (outputAt input.prevout) := by
      refine ⟨fun prevout => (view.getOutputFor { prevout := prevout }).getD CTxOut.null, ?_⟩
      intro input hi
      obtain ⟨out, hout⟩ := isSome_iff_exists.mp (hall input hi)
      exact hout.trans (congrArg (fun found => some (Option.getD found CTxOut.null)) hout.symm)
    rw [records_agree_iff hflag ref time h]
    cases tx.isCoinBase with
    | true =>
      refine and_congr_right fun _ => forall₂_congr fun input hi => ?_
      simp [h input hi]
    | false =>
      simp only [Bool.false_eq_true, if_false, forall_prop_of_true hall]
      refine and_congr_right fun _ => forall₂_congr fun input hi => ?_
      simp [h input hi]
  · obtain ⟨input, hmem, hm⟩ : ∃ input ∈ tx.vin, view.getOutputFor input = none := by
      simpa using hall
    rw [poolRecords_eq_none hmem hm]
    cases hbase : tx.isCoinBase with
    | true =>
      rw [blockRecords_coinBase hflag ref hbase]
      simp only [reduceCtorEq, if_true, false_iff, not_and]
      intro _ hf
      obtain ⟨out, hout, -⟩ := hf input hmem
      cases hm.symm.trans hout
    | false =>
      rw [blockRecords_eq_none hflag hbase hmem hm]
      simp [hall]

/-- Pays to a key hash. -/
private def paidKeyHash : CScript :=
  [OP_DUP, OP_HASH160, 20] ++ List.replicate 20 1 ++ [OP_EQUALVERIFY, OP_CHECKSIG]

/-- A payment from a key hash to the same one. -/
private def keyHashPayment : CTransaction :=
  stakeTx [⟨COIN, paidKeyHash⟩]

theorem addAddressIndex_agrees_key_hash :
    poolRecords keyHashPayment 0 (stakeView COIN paidKeyHash) =
      blockRecords ⟨true, false⟩ ⟨2, 5, 0⟩ keyHashPayment (stakeView COIN paidKeyHash) :=
  (addAddressIndex_agrees_iff rfl ⟨2, 5, 0⟩ keyHashPayment 0 (stakeView COIN paidKeyHash)).mpr
    (by decide)

def vaultPayment : CTransaction :=
  stakeTx [⟨COIN, BlockIncentivesPopulator.exampleVault⟩]

/-- The pool has no record of an output that pays a vault. -/
theorem addAddressIndex_misses_vault :
    poolRecords vaultPayment 0 (stakeView COIN []) = some [] ∧
      blockRecords ⟨true, false⟩ ⟨2, 5, 0⟩ vaultPayment (stakeView COIN []) =
        some [(3, List.replicate 20 1, 1, false, COIN)] :=
  ⟨rfl, rfl⟩

end Divi
