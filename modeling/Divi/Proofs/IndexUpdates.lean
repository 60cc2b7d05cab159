/-
What the collected changes do to the indices.

The changes of a transaction only depend on the outputs it spends, so both directions are read
off the outputs of a view: the entries of the address index are the same, in reverse order, and
the address-unspent index follows the outputs one by one.  Whether an entry of that index is
there depends on the output alone; the height it carries is the one of its last write.
-/
import Divi.IndexUpdates
import Divi.Proofs.BlockReversal

namespace Divi

open List hiding concat append_assoc

open CTxOut Option IndexDatabaseUpdates ReverseSpending

variable {tx : CTransaction} {nHeight : Int} {view after : CCoinsViewCache} {undos : CTxUndo}
  {outputAt : COutPoint → CTxOut} {heightAt heightAt' : COutPoint → Int} {out : COutPoint}
  {address : HashBytesAndAddressType} {key : CAddressUnspentKey} {txout : CTxOut}
  {index : Finmap fun _ : CAddressUnspentKey => CAddressUnspentValue}

/-! ### Lists of changes -/

namespace IndexDatabaseUpdates

variable (a b c : IndexDatabaseUpdates)

@[simp] theorem addressIndex_append :
    (a ++ b).addressIndex = a.addressIndex ++ b.addressIndex := rfl

@[simp] theorem addressUnspentIndex_append :
    (a ++ b).addressUnspentIndex = a.addressUnspentIndex ++ b.addressUnspentIndex := rfl

@[simp] theorem spentIndex_append : (a ++ b).spentIndex = a.spentIndex ++ b.spentIndex := rfl

theorem append_assoc : a ++ b ++ c = a ++ (b ++ c) := by
  refine IndexDatabaseUpdates.ext ?_ ?_ ?_ <;> simp

theorem append_empty : a ++ ({} : IndexDatabaseUpdates) = a := by
  refine IndexDatabaseUpdates.ext ?_ ?_ ?_ <;> simp

theorem empty_append : ({} : IndexDatabaseUpdates) ++ a = a := by
  refine IndexDatabaseUpdates.ext ?_ ?_ ?_ <;> simp

/-- Changes one after another. -/
def concat (l : List IndexDatabaseUpdates) : IndexDatabaseUpdates :=
  l.foldr (· ++ ·) {}

@[simp] theorem concat_nil : concat [] = {} := rfl

section

variable (l : List IndexDatabaseUpdates)

@[simp] theorem concat_cons : concat (a :: l) = a ++ concat l := rfl

theorem addressIndex_concat : (concat l).addressIndex = l.flatMap addressIndex := by
  induction l with
  | nil => rfl
  | cons a l ih => simp [ih]

theorem addressUnspentIndex_concat :
    (concat l).addressUnspentIndex = l.flatMap addressUnspentIndex := by
  induction l with
  | nil => rfl
  | cons a l ih => simp [ih]

theorem spentIndex_concat : (concat l).spentIndex = l.flatMap spentIndex := by
  induction l with
  | nil => rfl
  | cons a l ih => simp [ih]

end

theorem foldl_append {α : Type} (changes : α → IndexDatabaseUpdates) (l : List α)
    (updates : IndexDatabaseUpdates) :
    l.foldl (fun updates item => updates ++ changes item) updates =
      updates ++ concat (l.map changes) := by
  induction l generalizing updates with
  | nil => exact (append_empty updates).symm
  | cons item l ih => simp only [foldl_cons, ih, map_cons, concat_cons, append_assoc]

/-- A loop all of whose steps return. -/
theorem foldlM_eq_foldl {α β : Type} {step : β → α → Option β} {next : β → α → β} {l : List α}
    (h : ∀ item ∈ l, ∀ st, step st item = some (next st item)) (st : β) :
    l.foldlM step st = some (l.foldl next st) := by
  induction l generalizing st with
  | nil => rfl
  | cons item l ih =>
    rw [foldlM_cons, h item mem_cons_self]
    exact ih (fun other ho => h other (mem_cons_of_mem item ho)) _

/-- A loop with an item at which it stops. -/
theorem foldlM_eq_none {α β : Type} {step : β → α → Option β} {l : List α} {item : α}
    (hmem : item ∈ l) (h : ∀ st, step st item = none) (st : β) : l.foldlM step st = none := by
  induction l generalizing st with
  | nil => cases hmem
  | cons other l ih =>
    rw [foldlM_cons]
    rcases mem_cons.mp hmem with rfl | hmem
    · rw [h]
      rfl
    · cases step st other with
      | none => rfl
      | some st => exact ih hmem st

/-- The same for a loop that reads an output for each item first. -/
theorem foldlM_append {α : Type} {step : IndexDatabaseUpdates → α → Option IndexDatabaseUpdates}
    {changes : α → IndexDatabaseUpdates} {l : List α}
    (h : ∀ item ∈ l, ∀ updates, step updates item = some (updates ++ changes item))
    (updates : IndexDatabaseUpdates) :
    l.foldlM step updates = some (updates ++ concat (l.map changes)) := by
  rw [foldlM_eq_foldl h, foldl_append]

theorem concat_eq_empty {α : Type} {changes : α → IndexDatabaseUpdates}
    (h : ∀ item, changes item = {}) (l : List α) : concat (l.map changes) = {} := by
  induction l with
  | nil => rfl
  | cons item l ih => rw [map_cons, concat_cons, ih, h, append_empty]

end IndexDatabaseUpdates

/-! ### The changes of a transaction -/

open IndexDatabaseUpdates (concat)

section

variable (flags : IndexFlags) (ref : TransactionLocationReference) (tx : CTransaction)

/-- The changes when a transaction is connected, for the outputs before it. -/
def recordedChanges (outputAt : COutPoint → CTxOut) : IndexDatabaseUpdates :=
  concat ((spentInputs tx).zipIdx.map fun item =>
      Spending.updatesFromInput flags ref item.1 item.2 (outputAt item.1.prevout)) ++
    if flags.fAddressIndex then
      concat (tx.vout.zipIdx.map fun item => Spending.updatesFromOutput ref item.1 item.2)
    else {}

/-- The changes when it is disconnected, for the outputs after its reversal. -/
def reversedChanges (outputAt : COutPoint → CTxOut) : IndexDatabaseUpdates :=
  (if flags.fAddressIndex then
      concat (tx.vout.zipIdx.reverse.map fun item =>
        ReverseSpending.updatesFromOutput ref item.1 item.2)
    else {}) ++
    concat ((spentInputs tx).zipIdx.reverse.map fun item =>
      (if flags.fAddressIndex then ReverseSpending.addressUpdatesFromInput ref item.1 item.2
        (outputAt item.1.prevout) else {}) ++ ReverseSpending.spentUpdatesFromInput flags item.1)

variable {flags ref tx}

theorem getOutputFor_eq (hvi : view.Sound) {input : CTxIn}
    (h : (view.outputAt input.prevout).isNull = false) :
    view.getOutputFor input = some (view.outputAt input.prevout) := by
  rw [hvi.outputAt_eq] at h ⊢
  unfold CCoinsViewCache.getOutputFor
  unfold CCoinsViewCache.coinsOf at h ⊢
  cases hcns : view.accessCoins input.prevout.hash with
  | none =>
    rw [hcns] at h
    cases h
  | some coins =>
    rw [hcns, getD_some] at h
    have hav := (CCoins.isAvailable_iff coins input.prevout.n).mpr h
    simp only [hav, if_true, getD_some]
    unfold CCoins.outAt at h ⊢
    rw [getD_eq_getElem?_getD] at h ⊢
    cases hout : coins.vout[input.prevout.n]? with
    | none =>
      rw [hout] at h
      cases h
    | some out => rfl

/-- The outputs that a transaction spends. -/
def SpendsAvailable (tx : CTransaction) (outputAt : COutPoint → CTxOut) : Prop :=
  ∀ txin ∈ spentInputs tx, (outputAt txin.prevout).isNull = false

theorem recordTransaction_of_outputs
    (h : ∀ txin ∈ spentInputs tx, view.getOutputFor txin = some (outputAt txin.prevout))
    (updates : IndexDatabaseUpdates) :
    recordTransaction flags ref tx view updates =
      some (updates ++ recordedChanges flags ref tx outputAt) := by
  have hins : Spending.collectUpdatesFromInputs flags ref tx view updates =
      some (updates ++ concat ((spentInputs tx).zipIdx.map fun item =>
        Spending.updatesFromInput flags ref item.1 item.2 (outputAt item.1.prevout))) := by
    unfold Spending.collectUpdatesFromInputs
    unfold spentInputs at h ⊢
    by_cases hbase : tx.isCoinBase = true
    · simp [hbase, append_empty]
    · simp only [hbase, Bool.false_eq_true, if_false] at h ⊢
      split
      · refine foldlM_append ?_ updates
        intro item hitem updates
        rw [h item.1 (fst_mem_of_mem_zipIdx hitem)]
        rfl
      · rename_i hf
        have hn : ∀ item : CTxIn × Nat, Spending.updatesFromInput flags ref item.1 item.2
            (outputAt item.1.prevout) = {} := by
          intro item
          simp only [Bool.or_eq_true, not_or, Bool.not_eq_true] at hf
          simp [Spending.updatesFromInput, hf]
        rw [concat_eq_empty hn, append_empty]
  have houts : ∀ updates, Spending.collectUpdatesFromOutputs flags ref tx updates =
      updates ++ if flags.fAddressIndex then
        concat (tx.vout.zipIdx.map fun item => Spending.updatesFromOutput ref item.1 item.2)
      else {} := by
    intro updates
    unfold Spending.collectUpdatesFromOutputs
    split
    · exact foldl_append
        (fun item : CTxOut × Nat => Spending.updatesFromOutput ref item.1 item.2) _ updates
    · exact (append_empty updates).symm
  simp only [recordTransaction, hins, bind_eq_bind, bind_some, houts, recordedChanges, append_assoc]

theorem reverseTransaction_eq (hvi : view.Sound) (h : SpendsAvailable tx view.outputAt)
    (updates : IndexDatabaseUpdates) :
    reverseTransaction flags ref tx view updates =
      some (updates ++ reversedChanges flags ref tx view.outputAt) := by
  have hins : ∀ updates, collectUpdatesFromInputs flags ref tx view updates =
      some (updates ++ concat ((spentInputs tx).zipIdx.reverse.map fun item =>
        (if flags.fAddressIndex then addressUpdatesFromInput ref item.1 item.2
          (view.outputAt item.1.prevout) else {}) ++ spentUpdatesFromInput flags item.1)) := by
    intro updates
    unfold collectUpdatesFromInputs
    unfold SpendsAvailable at h
    unfold spentInputs at h ⊢
    by_cases hbase : tx.isCoinBase = true
    · simp [hbase, append_empty]
    · simp only [hbase, Bool.false_eq_true, if_false] at h ⊢
      refine foldlM_append ?_ updates
      intro item hitem updates
      have hmem := fst_mem_of_mem_zipIdx (mem_reverse.mp hitem)
      split
      · rw [getOutputFor_eq hvi (h item.1 hmem)]
        simp only [bind_eq_bind, bind_some, append_assoc]
      · rw [empty_append]
  have houts : collectUpdatesFromOutputs flags ref tx updates =
      updates ++ if flags.fAddressIndex then
        concat (tx.vout.zipIdx.reverse.map fun item =>
          updatesFromOutput ref item.1 item.2)
      else {} := by
    unfold collectUpdatesFromOutputs
    cases flags.fAddressIndex with
    | false => exact (append_empty updates).symm
    | true =>
      exact foldl_append (fun item : CTxOut × Nat => updatesFromOutput ref item.1 item.2) _ updates
  simp only [reverseTransaction, houts, hins, reversedChanges, append_assoc]

/-- Disconnecting erases the entries of the address index from the last to the first. -/
theorem addressIndex_reversedChanges (hfl : flags.fAddressIndex = true)
    (outputAt : COutPoint → CTxOut) :
    (reversedChanges flags ref tx outputAt).addressIndex =
      (recordedChanges flags ref tx outputAt).addressIndex.reverse := by
  simp only [reversedChanges, recordedChanges, hfl, if_true, addressIndex_append,
    addressIndex_concat, reverse_append, flatMap_map, reverse_flatMap]
  congr 1
  · refine flatMap_congr fun item _ => ?_
    simp only [Function.comp_apply, updatesFromOutput, Spending.updatesFromOutput]
    split <;> rfl
  · refine flatMap_congr fun item _ => ?_
    simp only [Function.comp_apply, addressUpdatesFromInput, spentUpdatesFromInput,
      Spending.updatesFromInput, hfl, Bool.true_and, decide_eq_true_eq]
    split <;> split <;> rfl

theorem blockHeight_recordedChanges {entry : CAddressIndexKey × Int}
    (h : entry ∈ (recordedChanges flags ref tx outputAt).addressIndex) :
    entry.1.blockHeight = ref.blockHeight := by
  simp only [recordedChanges, addressIndex_append, mem_append,
    addressIndex_concat, flatMap_map, mem_flatMap] at h
  rcases h with ⟨item, -, he⟩ | he
  · simp only [Spending.updatesFromInput] at he
    split at he <;> split at he <;> simp at he
    · rw [he]
    · rw [he]
  · split at he
    · simp only [addressIndex_concat, flatMap_map, mem_flatMap] at he
      obtain ⟨item, -, he⟩ := he
      simp only [Spending.updatesFromOutput] at he
      split at he <;> simp at he
      rw [he]
    · cases he

end

/-! ### The address-unspent index -/

/-- The changes of the address-unspent index as a batch. -/
def unspentBatch (vect : List (CAddressUnspentKey × CAddressUnspentValue)) :
    List (CAddressUnspentKey × Option CAddressUnspentValue) :=
  vect.map fun item => (item.1, if item.2.isNull then none else some item.2)

def unspentKey (out : COutPoint) (address : HashBytesAndAddressType) : CAddressUnspentKey :=
  ⟨address.2, address.1, out.hash, out.n⟩

/-- What is under a key, given the outputs and the heights to go with them. -/
def unspentEntry (outputAt : COutPoint → CTxOut) (heightAt : COutPoint → Int)
    (key : CAddressUnspentKey) : Option CAddressUnspentValue :=
  let txout := outputAt ⟨key.txhash, key.index⟩
  if txout.isNull = false ∧ 0 < key.type ∧
      computeHashbytesAndAddressTypeForScript txout.scriptPubKey = (key.hashBytes, key.type) then
    some ⟨txout.nValue, txout.scriptPubKey, heightAt ⟨key.txhash, key.index⟩⟩
  else none

/-- The index shows exactly the outputs with an address. -/
def ShowsUnspent (index : Finmap fun _ : CAddressUnspentKey => CAddressUnspentValue)
    (outputAt : COutPoint → CTxOut) (heightAt : COutPoint → Int) : Prop :=
  ∀ key, index.lookup key = unspentEntry outputAt heightAt key

/-- The operation for an output that becomes `txout`, under its address. -/
def unspentOps (out : COutPoint) (address : HashBytesAndAddressType) (txout : CTxOut)
    (height : Int) : List (CAddressUnspentKey × Option CAddressUnspentValue) :=
  if 0 < address.2 then
    [(unspentKey out address,
      if txout.isNull then none else some ⟨txout.nValue, txout.scriptPubKey, height⟩)]
  else []

/-- The address that an output pays. -/
abbrev addressOf (txout : CTxOut) : HashBytesAndAddressType :=
  computeHashbytesAndAddressTypeForScript txout.scriptPubKey

/-- An output is null or has the given address. -/
def HasAddress (txout : CTxOut) (address : HashBytesAndAddressType) : Prop :=
  txout.isNull = true ∨ computeHashbytesAndAddressTypeForScript txout.scriptPubKey = address

theorem unspentEntry_of_hasAddress (h : HasAddress (outputAt out) address)
    (hout : (⟨key.txhash, key.index⟩ : COutPoint) = out) :
    unspentEntry outputAt heightAt key =
      if 0 < address.2 ∧ key = unspentKey out address then
        if (outputAt out).isNull then none
        else some ⟨(outputAt out).nValue, (outputAt out).scriptPubKey, heightAt out⟩
      else none := by
  subst hout
  unfold unspentEntry
  rcases h with hnull | haddr
  · simp [hnull]
  · have hkey : key = unspentKey ⟨key.txhash, key.index⟩ address ↔
        address = (key.hashBytes, key.type) := by
      cases key
      simp only [unspentKey, CAddressUnspentKey.mk.injEq, and_true, Prod.ext_iff]
      constructor
      · rintro ⟨htype, hb⟩
        exact ⟨hb.symm, htype.symm⟩
      · rintro ⟨hb, htype⟩
        exact ⟨htype.symm, hb.symm⟩
    simp only [hkey, haddr]
    cases hnull : (outputAt ⟨key.txhash, key.index⟩).isNull with
    | true => simp
    | false =>
      by_cases hs : address = (key.hashBytes, key.type)
      · simp [hs]
      · simp [hs]

theorem mem_unspentOps {height : Int} {op : CAddressUnspentKey × Option CAddressUnspentValue} :
    op ∈ unspentOps out address txout height ↔ 0 < address.2 ∧ op = (unspentKey out address,
      if txout.isNull then none else some ⟨txout.nValue, txout.scriptPubKey, height⟩) := by
  unfold unspentOps
  split
  · rename_i htype
    simp [htype]
  · rename_i htype
    simp [htype]

/-- The outputs before and after differ at most at the touched places, and have one address
there. -/
structure Differ (touched : List COutPoint) (addressAt : COutPoint → HashBytesAndAddressType)
    (outputAt outputAt' : COutPoint → CTxOut) : Prop where
  old : ∀ out ∈ touched, HasAddress (outputAt out) (addressAt out)
  new : ∀ out ∈ touched, HasAddress (outputAt' out) (addressAt out)
  kept : ∀ out ∉ touched, outputAt' out = outputAt out

section

variable {touched : List COutPoint} {addressAt : COutPoint → HashBytesAndAddressType}
  {outputAt' : COutPoint → CTxOut} (hd : Differ touched addressAt outputAt outputAt')

include hd

/-- Undoing the change touches the same places, from the last to the first. -/
theorem Differ.symm : Differ touched.reverse addressAt outputAt' outputAt where
  old out hout := hd.new out (mem_reverse.mp hout)
  new out hout := hd.old out (mem_reverse.mp hout)
  kept out hout := (hd.kept out fun hmem => hout (mem_reverse.mpr hmem)).symm

/-- The index follows outputs that change, if each one has but one address. -/
theorem ShowsUnspent.apply (h : ShowsUnspent index outputAt heightAt)
    {ops : List (CAddressUnspentKey × Option CAddressUnspentValue)}
    (hops : ops = touched.flatMap fun out =>
      unspentOps out (addressAt out) (outputAt' out) (heightAt' out))
    (hhts : ∀ out ∉ touched, (outputAt out).isNull = false → heightAt' out = heightAt out) :
    ShowsUnspent (Batch.apply index ops) outputAt' heightAt' := by
  intro key
  rw [hops]
  have hops : ∀ op ∈ touched.flatMap fun out =>
      unspentOps out (addressAt out) (outputAt' out) (heightAt' out), op.1 = key →
        (⟨key.txhash, key.index⟩ : COutPoint) ∈ touched ∧
          op ∈ unspentOps ⟨key.txhash, key.index⟩ (addressAt ⟨key.txhash, key.index⟩)
            (outputAt' ⟨key.txhash, key.index⟩) (heightAt' ⟨key.txhash, key.index⟩) := by
    intro op hop hkey
    obtain ⟨out, hout, hop⟩ := mem_flatMap.mp hop
    have hopKey := congrArg Prod.fst (mem_unspentOps.mp hop).2
    obtain rfl := hopKey.symm.trans hkey
    exact ⟨hout, hop⟩
  by_cases hmem : (⟨key.txhash, key.index⟩ : COutPoint) ∈ touched
  · rw [unspentEntry_of_hasAddress (hd.new _ hmem) rfl]
    split
    case isTrue hcond =>
      refine Batch.lookup_apply_of_mem ⟨_, mem_flatMap.mpr
        ⟨_, hmem, mem_unspentOps.mpr ⟨hcond.1, rfl⟩⟩, hcond.2.symm⟩ ?_
      intro op hop hkey
      rw [(mem_unspentOps.mp (hops op hop hkey).2).2]
    case isFalse hcond =>
      rw [Batch.lookup_apply_of_notMem, h key,
        unspentEntry_of_hasAddress (hd.old _ hmem) rfl, if_neg hcond]
      intro op hop hkey
      obtain ⟨htype, hop⟩ := mem_unspentOps.mp (hops op hop hkey).2
      exact hcond ⟨htype, hkey.symm.trans (congrArg Prod.fst hop)⟩
  · rw [Batch.lookup_apply_of_notMem fun op hop hkey => hmem (hops op hop hkey).1, h key]
    simp only [unspentEntry, hd.kept _ hmem]
    split
    case isTrue hcond => rw [hhts _ hmem hcond.1]
    case isFalse => rfl

end

/-- Two indices that show the same outputs differ in heights alone. -/
theorem ShowsUnspent.eq_iff {index' : Finmap fun _ : CAddressUnspentKey => CAddressUnspentValue}
    (h : ShowsUnspent index outputAt heightAt) (h' : ShowsUnspent index' outputAt heightAt') :
    index = index' ↔ ∀ out, (outputAt out).isNull = false →
      0 < (addressOf (outputAt out)).2 →
        heightAt out = heightAt' out := by
  constructor
  · intro heq out hnull htype
    let key := unspentKey out (addressOf (outputAt out))
    have hr : ∀ H, unspentEntry outputAt H key =
        some ⟨(outputAt out).nValue, (outputAt out).scriptPubKey, H out⟩ :=
      fun H => if_pos ⟨hnull, htype, rfl⟩
    have he : unspentEntry outputAt heightAt key = unspentEntry outputAt heightAt' key := by
      rw [← h, ← h', heq]
    rw [hr, hr] at he
    injection he with hv
    exact congrArg CAddressUnspentValue.blockHeight hv
  · intro hhts
    refine Finmap.ext_lookup fun key => ?_
    rw [h key, h' key]
    simp only [unspentEntry]
    split
    case isTrue hcond =>
      rw [hhts _ hcond.1 (by rw [addressOf, hcond.2.2]; exact hcond.2.1)]
    case isFalse => rfl

/-! ### The outputs of a transaction -/

theorem addressType_of_unspendable {script : CScript} (h : script.isUnspendable = true) :
    (computeHashbytesAndAddressTypeForScript script).2 = 0 := by
  obtain ⟨rest, rfl⟩ : ∃ rest, script = OP_META :: rest := by
    cases script with
    | nil => cases h
    | cons op rest =>
      simp only [CScript.isUnspendable, List.head?_cons, beq_iff_eq, Option.some.injEq] at h
      exact ⟨rest, by rw [h]⟩
  have hv : isStakingVaultScript (OP_META :: rest) = false := by
    unfold isStakingVaultScript replaceKeyHash
    split
    · rfl
    · simp [getStakingVaultScriptTemplate, OP_META, OP_IF]
  simp [computeHashbytesAndAddressTypeForScript, hv, CScript.isPayToScriptHash,
    CScript.isPayToPublicKeyHash, OP_META, OP_HASH160, OP_DUP]

/-- What is there of an output once it is created: an unspendable one is dropped at once. -/
def createdOutput (tx : CTransaction) (n : Nat) : CTxOut :=
  let txout := tx.vout.getD n CTxOut.null
  if txout.scriptPubKey.isUnspendable then CTxOut.null else txout

/-- The address that it pays. -/
def createdAddress (tx : CTransaction) (out : COutPoint) : HashBytesAndAddressType :=
  addressOf (tx.vout.getD out.n CTxOut.null)

/-- The places of a transaction's outputs. -/
def createdBy (tx : CTransaction) : List COutPoint :=
  tx.vout.zipIdx.map fun item => ⟨tx.hash, item.2⟩

theorem mem_createdBy : out ∈ createdBy tx ↔ out.hash = tx.hash ∧ out.n < tx.vout.length := by
  simp only [createdBy, List.mem_map, Prod.exists, List.mem_zipIdx_iff_getElem?]
  constructor
  · rintro ⟨txout, n, hget, rfl⟩
    exact ⟨rfl, (List.getElem?_eq_some_iff.mp hget).1⟩
  · rintro ⟨hh, hlt⟩
    refine ⟨tx.vout[out.n], out.n, List.getElem?_eq_getElem hlt, ?_⟩
    rw [← hh]

theorem createdOutput_of_le {n : Nat} (h : tx.vout.length ≤ n) :
    createdOutput tx n = null := by
  unfold createdOutput
  rw [getD_eq_default _ _ h]
  exact ite_self _

theorem hasAddress_createdOutput (tx : CTransaction) (out : COutPoint) :
    HasAddress (createdOutput tx out.n) (createdAddress tx out) := by
  unfold createdOutput
  dsimp only
  split
  · exact .inl rfl
  · exact .inr rfl

section

theorem outAt_fromTx (hn : tx.NullsEmpty) (nHeight : Int) (n : Nat) :
    (CCoins.fromTx tx nHeight).outAt n = createdOutput tx n := by
  refine (CCoins.outAt_cleanup (CCoins.nulls_mask hn) n).trans ?_
  exact getD_map tx.vout null fun txout =>
    if txout.scriptPubKey.isUnspendable then null else txout

theorem spendInputs_available {mid : CCoinsViewCache} {txins : List CTxIn} (hvi : view.Sound)
    (h : spendInputs view txins = some (mid, undos)) :
    ∀ txin ∈ txins, (view.outputAt txin.prevout).isNull = false := by
  induction txins generalizing view undos with
  | nil =>
    intro txin htxin
    cases htxin
  | cons first rest ih =>
    obtain ⟨next, undo, undos', hfst, hr, -⟩ := spendInputs_cons h
    obtain ⟨spent, hsp, -⟩ := spendInput_spec hvi hfst
    intro txin htxin
    rcases mem_cons.mp htxin with rfl | hmem
    · rw [hvi.outputAt_eq]
      exact hsp.available
    · have hnext := ih (spendInput_sound hvi hfst) hr txin hmem
      rw [CCoinsViewCache.outputAt, (spendInput_spent hvi hfst).outAt] at hnext
      split at hnext
      · cases hnext
      · exact hnext

variable (hvi : view.Sound)
  (h : updateCoinsWithTransaction tx nHeight view = some (after, undos))

include hvi h

theorem spendsAvailable : SpendsAvailable tx view.outputAt := by
  obtain ⟨mid, hsp, -⟩ := updateCoins_spec h
  exact spendInputs_available hvi hsp

/-- The outputs after a transaction whose id was not in use. -/
theorem outputAt_updateCoins (hn : tx.NullsEmpty) (out : COutPoint) :
    after.outputAt out = if out.hash = tx.hash then createdOutput tx out.n
      else if out ∈ (spentInputs tx).map CTxIn.prevout then null
      else view.outputAt out := by
  obtain ⟨mid, hsp, rfl⟩ := updateCoins_spec h
  rw [CCoinsViewCache.outputAt_setCoins (CCoins.fromTx_clean hn nHeight), outAt_fromTx hn]
  split
  · rfl
  · exact (spendInputs_spent hvi hsp).outAt out.hash out.n

omit h in
theorem outputAt_fresh (hf : (view.coinsOf tx.hash).isPruned = true) (hout : out.hash = tx.hash) :
    view.outputAt out = null := by
  rw [hvi.outputAt_eq, hout]
  exact (hvi.clean tx.hash).isPruned_iff_outAt.mp hf out.n

end

/-! ### The index along a transaction -/

theorem unspentBatch_append (a b : List (CAddressUnspentKey × CAddressUnspentValue)) :
    unspentBatch (a ++ b) = unspentBatch a ++ unspentBatch b :=
  map_append

theorem unspentBatch_concat {α : Type} (changes : α → IndexDatabaseUpdates) (l : List α) :
    unspentBatch (concat (l.map changes)).addressUnspentIndex =
      l.flatMap fun item => unspentBatch (changes item).addressUnspentIndex := by
  simp only [unspentBatch, addressUnspentIndex_concat, flatMap_map, map_flatMap]

theorem flatMap_prevout {α : Type} (f : COutPoint → List α) (l : List (CTxIn × Nat)) :
    (l.flatMap fun item => f item.1.prevout) = ((l.map Prod.fst).map CTxIn.prevout).flatMap f := by
  simp only [flatMap_map]

theorem flatMap_outputs {α : Type} (f : CTxOut → Nat → List α) {l : List (CTxOut × Nat)}
    (hl : ∀ item ∈ l, item ∈ tx.vout.zipIdx) :
    (l.flatMap fun item => f item.1 item.2) =
      (l.map fun item => (⟨tx.hash, item.2⟩ : COutPoint)).flatMap fun out =>
        f (tx.vout.getD out.n null) out.n := by
  rw [flatMap_map]
  refine flatMap_congr fun item hitem => ?_
  have hget := mem_zipIdx_iff_getElem?.mp (hl item hitem)
  rw [getD_eq_getElem?_getD, hget, getD_some]

theorem unspentOps_null (h : txout.isNull = true) (height height' : Int) :
    unspentOps out address txout height = unspentOps out address null height' := by
  simp only [unspentOps, h, if_true]
  rfl

section

variable {flags : IndexFlags} {i : Nat}

theorem unspentBatch_spendingInput (hfl : flags.fAddressIndex = true) (input : CTxIn) (j : Nat)
    (prevout : CTxOut) :
    unspentBatch (Spending.updatesFromInput flags ⟨tx.hash, nHeight, i⟩ input j
      prevout).addressUnspentIndex =
      unspentOps input.prevout (addressOf prevout) null 0 := by
  simp only [Spending.updatesFromInput, unspentOps, hfl, Bool.true_and, decide_eq_true_eq]
  split <;> split <;> rfl

theorem unspentBatch_spendingOutput (out : CTxOut) (k : Nat) :
    unspentBatch (Spending.updatesFromOutput ⟨tx.hash, nHeight, i⟩ out k).addressUnspentIndex =
      unspentOps ⟨tx.hash, k⟩ (addressOf out)
        (if out.scriptPubKey.isUnspendable then null else out) nHeight := by
  simp only [Spending.updatesFromOutput, unspentOps]
  split
  case isTrue htype =>
    have hsp : ¬ out.scriptPubKey.isUnspendable = true := by
      intro hun
      rw [addressType_of_unspendable hun] at htype
      cases htype
    rw [if_neg hsp]
    rfl
  case isFalse => rfl

theorem unspentBatch_reversedInput (input : CTxIn) (j : Nat) (prevout : CTxOut) :
    unspentBatch (addressUpdatesFromInput ⟨tx.hash, nHeight, i⟩ input j
      prevout).addressUnspentIndex =
      unspentOps input.prevout (addressOf prevout) prevout nHeight := by
  simp only [addressUpdatesFromInput, unspentOps]
  split <;> rfl

theorem unspentBatch_reversedOutput (out : CTxOut) (k : Nat) :
    unspentBatch (updatesFromOutput ⟨tx.hash, nHeight, i⟩ out k).addressUnspentIndex =
      unspentOps ⟨tx.hash, k⟩ (addressOf out) null 0 := by
  simp only [updatesFromOutput, unspentOps]
  split <;> rfl

variable (hfl : flags.fAddressIndex = true)

include hfl

/-- The operations on the address-unspent index when a transaction is connected. -/
theorem unspentBatch_recordedChanges (outputAt : COutPoint → CTxOut) :
    unspentBatch (recordedChanges flags ⟨tx.hash, nHeight, i⟩ tx outputAt).addressUnspentIndex =
      (((spentInputs tx).map CTxIn.prevout).flatMap fun out =>
        unspentOps out (addressOf (outputAt out)) null 0) ++
      (createdBy tx).flatMap fun out =>
        unspentOps ⟨tx.hash, out.n⟩ (createdAddress tx out) (createdOutput tx out.n) nHeight := by
  simp only [recordedChanges, hfl, if_true, addressUnspentIndex_append, unspentBatch_append,
    unspentBatch_concat, unspentBatch_spendingInput hfl, unspentBatch_spendingOutput]
  congr 1
  · rw [flatMap_prevout fun out => unspentOps out (addressOf (outputAt out)) null 0, zipIdx_map_fst]
  · exact flatMap_outputs (fun out k => unspentOps ⟨tx.hash, k⟩ (addressOf out)
      (if out.scriptPubKey.isUnspendable then null else out) nHeight) fun _ hitem => hitem

/-- The operations when it is disconnected. -/
theorem unspentBatch_reversedChanges (outputAt : COutPoint → CTxOut) :
    unspentBatch (reversedChanges flags ⟨tx.hash, nHeight, i⟩ tx outputAt).addressUnspentIndex =
      ((createdBy tx).reverse.flatMap fun out =>
        unspentOps ⟨tx.hash, out.n⟩ (createdAddress tx out) null 0) ++
      ((spentInputs tx).map CTxIn.prevout).reverse.flatMap fun out =>
        unspentOps out (addressOf (outputAt out)) (outputAt out) nHeight := by
  have hsp : ∀ input, (spentUpdatesFromInput flags input).addressUnspentIndex = [] := by
    intro input
    unfold spentUpdatesFromInput
    split <;> rfl
  simp only [reversedChanges, hfl, if_true, addressUnspentIndex_append, unspentBatch_append,
    unspentBatch_concat, hsp, append_nil, unspentBatch_reversedInput, unspentBatch_reversedOutput]
  congr 1
  · rw [createdBy, ← map_reverse]
    exact flatMap_outputs (fun out k => unspentOps ⟨tx.hash, k⟩ (addressOf out) null 0)
      fun _ hitem => mem_reverse.mp hitem
  · rw [flatMap_prevout fun out => unspentOps out (addressOf (outputAt out)) (outputAt out) nHeight,
      map_reverse, zipIdx_map_fst, map_reverse]

/-- The outputs between the two halves of a transaction: its inputs spent, its own not there. -/
def leftBy (tx : CTransaction) (outputAt : COutPoint → CTxOut) (out : COutPoint) : CTxOut :=
  if out ∈ (spentInputs tx).map CTxIn.prevout then CTxOut.null else outputAt out

omit hfl in
theorem differ_leftBy (tx : CTransaction) (outputAt : COutPoint → CTxOut) :
    Differ ((spentInputs tx).map CTxIn.prevout) (fun out => addressOf (outputAt out)) outputAt
      (leftBy tx outputAt) where
  old _ _ := .inr rfl
  new out hout := by
    rw [leftBy, if_pos hout]
    exact .inl rfl
  kept _ hout := if_neg hout

variable (hvi : view.Sound) (hn : tx.NullsEmpty)
  (hf : (view.coinsOf tx.hash).isPruned = true)
  (h : updateCoinsWithTransaction tx nHeight view = some (after, undos))

include hvi hn hf h

omit hfl in
/-- Before its outputs come and after they went, there is nothing under a transaction's id. -/
theorem outputAt_halves (out : COutPoint) :
    (out.hash = tx.hash → leftBy tx view.outputAt out = null ∧
      after.outputAt out = createdOutput tx out.n) ∧
    (out ∉ createdBy tx → after.outputAt out = leftBy tx view.outputAt out) := by
  have ha := outputAt_updateCoins hvi h hn out
  have hnull : out.hash = tx.hash → leftBy tx view.outputAt out = null := by
    intro hh
    unfold leftBy
    rw [outputAt_fresh hvi hf hh]
    exact ite_self _
  refine ⟨fun hh => ⟨hnull hh, by rw [ha, if_pos hh]⟩, ?_⟩
  intro hout
  by_cases hh : out.hash = tx.hash
  · have hle : tx.vout.length ≤ out.n := by
      by_contra hlt
      exact hout (mem_createdBy.mpr ⟨hh, by omega⟩)
    rw [ha, if_pos hh, createdOutput_of_le hle, hnull hh]
  · rw [ha, if_neg hh]
    rfl

omit hfl in
theorem differ_created :
    Differ (createdBy tx) (createdAddress tx) (leftBy tx view.outputAt) after.outputAt := by
  have hh := outputAt_halves hvi hn hf h
  refine ⟨?_, ?_, fun out hout => (hh out).2 hout⟩
  · intro out hout
    rw [((hh out).1 (mem_createdBy.mp hout).1).1]
    exact .inl rfl
  · intro out hout
    rw [((hh out).1 (mem_createdBy.mp hout).1).2]
    exact hasAddress_createdOutput tx out

/-- Connecting a transaction makes the index show the outputs after it. -/
theorem showsUnspent_recorded (hidx : ShowsUnspent index view.outputAt heightAt) :
    ShowsUnspent (Batch.apply index (unspentBatch (recordedChanges flags ⟨tx.hash, nHeight, i⟩ tx
      view.outputAt).addressUnspentIndex)) after.outputAt
      (fun out => if out.hash = tx.hash then nHeight else heightAt out) := by
  have hh := outputAt_halves hvi hn hf h
  rw [unspentBatch_recordedChanges hfl, Batch.apply_append]
  refine ShowsUnspent.apply (differ_created hvi hn hf h)
    (ShowsUnspent.apply (differ_leftBy tx view.outputAt) hidx ?_ fun _ _ _ => rfl) ?_ ?_
  · refine flatMap_congr fun out hout => ?_
    rw [leftBy, if_pos hout]
    exact unspentOps_null rfl 0 (heightAt out)
  · refine flatMap_congr fun out hout => ?_
    have hha := (mem_createdBy.mp hout).1
    rw [((hh out).1 hha).2, if_pos hha, ← hha]
  · intro out hout hnot
    refine if_neg fun hha => ?_
    rw [((hh out).1 hha).1] at hnot
    cases hnot

/-- Disconnecting it makes the index show the outputs before it, at the block's height. -/
theorem showsUnspent_reversed (hidx : ShowsUnspent index after.outputAt heightAt) :
    ShowsUnspent (Batch.apply index (unspentBatch (reversedChanges flags ⟨tx.hash, nHeight, i⟩ tx
      view.outputAt).addressUnspentIndex)) view.outputAt
      (fun out => if out ∈ (spentInputs tx).map CTxIn.prevout then nHeight else heightAt out) := by
  have hh := outputAt_halves hvi hn hf h
  rw [unspentBatch_reversedChanges hfl, Batch.apply_append]
  refine ShowsUnspent.apply (differ_leftBy tx view.outputAt).symm
    (ShowsUnspent.apply (differ_created hvi hn hf h).symm hidx ?_ fun _ _ _ => rfl) ?_ ?_
  · refine flatMap_congr fun out hout => ?_
    have hha := (mem_createdBy.mp (mem_reverse.mp hout)).1
    rw [((hh out).1 hha).1, ← hha]
    exact unspentOps_null rfl 0 (heightAt out)
  · refine flatMap_congr fun out hout => ?_
    rw [if_pos (mem_reverse.mp hout)]
  · intro out hout _
    exact if_neg fun hmem => hout (mem_reverse.mpr hmem)

end

end Divi
