/-
Disconnecting a block, and the address indices.

`Connects` follows the transactions of a block with the changes that either direction collects.
By induction on it the entries of the address index are erased exactly as they were written,
and the address-unspent index shows the outputs again; only the height that comes with an entry
differs.  What a block spent comes back with the height of that block, not with the one of the
coin.
-/
import Divi.Proofs.IndexUpdates

namespace Divi

open List hiding append_assoc

open IndexDatabaseUpdates Option

variable {vtx : List CTransaction} {undos : List CTxUndo} {heightAt : COutPoint → Int}
  {flags : IndexFlags} {nHeight : Int} {view after : CCoinsViewCache}
  {entries : List ((CTransaction × Option CTxUndo) × Nat)}
  {recorded reversed updates updates' : IndexDatabaseUpdates} {dbs : IndexDatabases}
  {index : Finmap fun _ : CAddressUnspentKey => CAddressUnspentValue}

/-! ### Both directions of a block -/

/-- Transactions applied one after another, with the changes that either direction collects.  The
undo data of a coinbase need not be there. -/
inductive Connects (flags : IndexFlags) (nHeight : Int) : CCoinsViewCache →
    List ((CTransaction × Option CTxUndo) × Nat) → CCoinsViewCache → IndexDatabaseUpdates →
      IndexDatabaseUpdates → Prop
  | nil (view : CCoinsViewCache) : Connects flags nHeight view [] view {} {}
  | cons {view mid after : CCoinsViewCache} {tx : CTransaction} {txundo : Option CTxUndo}
      {undo : CTxUndo} {i : Nat} {entries : List ((CTransaction × Option CTxUndo) × Nat)}
      {recorded reversed : IndexDatabaseUpdates} (hn : tx.NullsEmpty)
      (hf : (view.coinsOf tx.hash).isPruned = true)
      (hfst : updateCoinsWithTransaction tx nHeight view = some (mid, undo))
      (hundo : txundo = some undo ∨ tx.isCoinBase = true)
      (hr : Connects flags nHeight mid entries after recorded reversed) :
      Connects flags nHeight view (((tx, txundo), i) :: entries) after
        (recordedChanges flags ⟨tx.hash, nHeight, i⟩ tx view.outputAt ++ recorded)
        (reversed ++ reversedChanges flags ⟨tx.hash, nHeight, i⟩ tx view.outputAt)

section

variable (hht : 0 < nHeight)

include hht

theorem connects_of_recordTransactions (hn : ∀ tx ∈ vtx, tx.NullsEmpty) (hv : view.Sound)
    (hids : IdsUnused nHeight view vtx) {k : Nat}
    (h : recordTransactions flags nHeight view updates (vtx.zipIdx k) =
      some (after, undos, updates')) :
    undos.length = vtx.length ∧
      ∃ recorded reversed, Connects flags nHeight view ((vtx.zip (undos.map some)).zipIdx k) after
        recorded reversed ∧ updates' = updates ++ recorded := by
  induction vtx generalizing view undos k updates with
  | nil =>
    cases h
    exact ⟨rfl, {}, {}, Connects.nil _, (append_empty _).symm⟩
  | cons tx rest ih =>
    have htx := hn tx mem_cons_self
    simp only [zipIdx_cons, recordTransactions, bind_eq_bind, bind_eq_some_iff] at h
    obtain ⟨mid, hrec, ⟨next, undo⟩, hfst, ⟨after', undos', last⟩, hr, heq⟩ := h
    cases heq
    rw [recordTransaction_of_outputs fun txin htxin =>
      getOutputFor_eq hv (spendsAvailable hv hfst txin htxin)] at hrec
    cases hrec
    obtain ⟨hlen, recorded, reversed, hconn, rfl⟩ :=
      ih (fun t ht => hn t (mem_cons_of_mem tx ht))
        (updateCoins_sound hfst htx hht hv) (hids.2 next undo hfst) hr
    refine ⟨?_, _, _, Connects.cons htx hids.1 hfst (.inl rfl) hconn, append_assoc _ _ _⟩
    rw [length_cons, length_cons, hlen]

/-- What connecting a block does, in the terms of both directions. -/
theorem connects_of_connectBlock {coinbase : CTransaction} {rest : List CTransaction}
    (hbase : coinbase.isCoinBase = true) (hn : ∀ tx ∈ coinbase :: rest, tx.NullsEmpty)
    (hv : view.Sound) (hids : IdsUnused nHeight view (coinbase :: rest)) {dbs' : IndexDatabases}
    (h : connectBlockWithIndices flags nHeight (coinbase :: rest) view dbs =
      some (after, undos, dbs')) :
    undos.length = rest.length ∧ ∃ recorded reversed, Connects flags nHeight view
      (((coinbase :: rest).zip (none :: undos.map some)).zipIdx) after recorded reversed ∧
        dbs' = dbs.updateDBIndicesForNewBlock flags recorded := by
  simp only [connectBlockWithIndices, bind_eq_bind, bind_eq_some_iff] at h
  obtain ⟨⟨after', stored, updates⟩, hrec, heq⟩ := h
  cases heq
  obtain ⟨hlen, recorded, reversed, hconn, rfl⟩ :=
    connects_of_recordTransactions hht hn hv hids hrec
  obtain ⟨undo, undos, rfl⟩ := exists_cons_of_length_eq_add_one hlen
  refine ⟨by simpa using hlen, recorded, reversed, ?_, by
    rw [empty_append]⟩
  -- the undo data of the coinbase is not stored
  cases hconn with
  | cons hcb hf hfst hundo hr =>
    exact Connects.cons hcb hf hfst (.inr hbase) hr

end

section

theorem reverseTransactions_append {mid : CCoinsViewCache} {fClean fClean' : Bool}
    {first second : List ((CTransaction × Option CTxUndo) × Nat)}
    (h : reverseTransactions flags nHeight view fClean updates first =
      some (mid, fClean', some updates')) :
    reverseTransactions flags nHeight view fClean updates (first ++ second) =
      reverseTransactions flags nHeight mid fClean' updates' second := by
  induction first generalizing view fClean updates with
  | nil =>
    cases h
    rfl
  | cons entry rest ih =>
    obtain ⟨⟨tx, txundo⟩, i⟩ := entry
    simp only [cons_append, reverseTransactions, bind_eq_bind, bind_eq_some_iff] at h ⊢
    obtain ⟨⟨next, status⟩, hfst, hr⟩ := h
    simp only [hfst, bind_some]
    split at hr
    case isTrue => cases hr
    case isFalse ha =>
      obtain ⟨later, hl, hr⟩ := bind_eq_some_iff.mp hr
      rw [if_neg ha, hl, bind_some, ih hr]

variable (h : Connects flags nHeight view entries after recorded reversed)

include h

/-- The loop of a disconnection runs to its end, and collects the changes backwards. -/
theorem Connects.reverseTransactions (hht : 0 < nHeight) (hv : view.Sound)
    (fClean : Bool) (updates : IndexDatabaseUpdates) :
    ∃ restored fClean' dropped, Divi.reverseTransactions flags nHeight after fClean updates
        entries.reverse = some (restored, fClean', some (updates ++ reversed)) ∧
      CCoinsViewCache.ShowsBut dropped restored view := by
  induction h with
  | nil view => exact ⟨view, fClean, _, by
      rw [append_empty]; rfl, .refl hv⟩
  | @cons view mid after tx txundo undo i entries recorded reversed hn hf hfst hundo
      hr ih =>
    obtain ⟨later, clean, dropped, hl, hs⟩ :=
      ih (updateCoins_sound hfst hn hht hv)
    obtain ⟨restored, hstep, hback⟩ :=
      reversing_shows hfst hv hn (CCoins.norm_of_pruned hf) hs
    obtain ⟨status, hstat⟩ : ∃ status, status = if
      (removeTxOutputsFromCache tx nHeight later).2 then TxReversalStatus.OK
        else .CONTINUE_WITH_ERRORS := ⟨_, rfl⟩
    rw [← hstat] at hstep
    have ha : status.aborts = false := by
      rw [hstat]
      split <;> rfl
    have hsa : updateCoinsReversingTransaction tx nHeight later txundo =
        some (restored, status) := by
      rcases hundo with rfl | hbase
      · exact hstep
      · simp only [updateCoinsReversingTransaction, hbase, if_true] at hstep ⊢
        exact hstep
    have hav := spendsAvailable hv hfst
    rw [← hback.outputAt] at hav
    refine ⟨restored, clean && status = .OK, _, ?_, hback⟩
    rw [reverse_cons, reverseTransactions_append hl]
    simp only [Divi.reverseTransactions, hsa, bind_eq_bind, bind_some, ha,
      Bool.false_eq_true, if_false, reverseTransaction_eq hback.sound hav, hback.outputAt,
      append_assoc]

theorem Connects.addressIndex_reversed (hfl : flags.fAddressIndex = true) :
    reversed.addressIndex = recorded.addressIndex.reverse := by
  induction h with
  | nil view => rfl
  | cons hn hf hfst hundo hr ih =>
    simp only [addressIndex_append, reverse_append, ih, addressIndex_reversedChanges hfl]

theorem Connects.blockHeight_recorded {entry : CAddressIndexKey × Int}
    (he : entry ∈ recorded.addressIndex) : entry.1.blockHeight = nHeight := by
  induction h with
  | nil view => cases he
  | cons hn hf hfst hundo hr ih =>
    rcases mem_append.mp he with hnow | hl
    · exact blockHeight_recordedChanges hnow
    · exact ih hl

variable (hfl : flags.fAddressIndex = true) (hht : 0 < nHeight) (hv : view.Sound)

include hfl hht hv

/-- Connecting makes the index show the outputs after the block. -/
theorem Connects.showsUnspent_recorded (hidx : ShowsUnspent index view.outputAt heightAt) :
    ShowsUnspent (Batch.apply index (unspentBatch recorded.addressUnspentIndex)) after.outputAt
      fun out => if out.hash ∈ entries.map fun entry => entry.1.1.hash then nHeight
        else heightAt out := by
  induction h generalizing index heightAt with
  | nil view => simpa [unspentBatch] using hidx
  | @cons view mid after tx txundo undo i entries recorded reversed hn hf hfst hundo
      hr ih =>
    have hstep := Divi.showsUnspent_recorded (i := i) hfl hv hn hf hfst hidx
    have hall := ih (updateCoins_sound hfst hn hht hv) hstep
    rw [addressUnspentIndex_append, unspentBatch_append, Batch.apply_append]
    convert hall using 2 with out
    by_cases hr : out.hash ∈ entries.map fun entry => entry.1.1.hash
    · simp [hr]
    · by_cases hh : out.hash = tx.hash
      · simp [hh]
      · simp [hr, hh]

/-- Disconnecting makes it show the outputs before the block, with the block's height where an
output was spent. -/
theorem Connects.showsUnspent_reversed (hidx : ShowsUnspent index after.outputAt heightAt) :
    ShowsUnspent (Batch.apply index (unspentBatch reversed.addressUnspentIndex)) view.outputAt
      fun out => if out ∈ spentBy (entries.map fun entry => entry.1.1) then nHeight
        else heightAt out := by
  induction h generalizing index heightAt with
  | nil view => simpa [unspentBatch, spentBy] using hidx
  | @cons view mid after tx txundo undo i entries recorded reversed hn hf hfst hundo
      hr ih =>
    have hall := ih (updateCoins_sound hfst hn hht hv) hidx
    have hstep := Divi.showsUnspent_reversed (i := i) hfl hv hn hf hfst hall
    rw [addressUnspentIndex_append, unspentBatch_append, Batch.apply_append]
    convert hstep using 2 with out
    have hs : out ∈ spentBy ((((tx, txundo), i) :: entries).map fun entry => entry.1.1) ↔
        out ∈ (spentInputs tx).map CTxIn.prevout ∨
          out ∈ spentBy (entries.map fun entry => entry.1.1) := by
      rw [spentBy, map_cons, flatMap_cons, mem_append]
      rfl
    by_cases hnow : out ∈ (spentInputs tx).map CTxIn.prevout
    · rw [if_pos hnow, if_pos (hs.mpr (.inl hnow))]
    · rw [if_neg hnow]
      by_cases hl : out ∈ spentBy (entries.map fun entry => entry.1.1)
      · rw [if_pos hl, if_pos (hs.mpr (.inr hl))]
      · rw [if_neg hl, if_neg fun hout => (hs.mp hout).elim hnow hl]

end

/-! ### The indices of a block -/

/-- The transactions of a block as the loop of a disconnection has them. -/
theorem map_entries (hlen : undos.length + 1 = vtx.length) :
    ((vtx.zip (none :: undos.map some)).zipIdx.map fun entry => entry.1.1) = vtx := by
  have hfst : ((vtx.zip (none :: undos.map some)).zipIdx.map fun entry => entry.1.1) =
      ((vtx.zip (none :: undos.map some)).zipIdx.map Prod.fst).map Prod.fst := by
    rw [List.map_map]
    rfl
  rw [hfst, zipIdx_map_fst]
  refine map_fst_zip ?_
  simp only [length_cons, length_map]
  omega

theorem Connects.disconnectBlock (hht : 0 < nHeight) (hv : view.Sound)
    (hlen : undos.length + 1 = vtx.length)
    (h : Connects flags nHeight view (vtx.zip (none :: undos.map some)).zipIdx after recorded
      reversed) (dbs : IndexDatabases) :
    ∃ fClean restored, Divi.disconnectBlock flags nHeight vtx undos after dbs =
        some (fClean, restored, dbs.applyDisconnectionUpdateIndexToDBs flags reversed) := by
  obtain ⟨restored, fClean, -, hloop, -⟩ := h.reverseTransactions hht hv true {}
  refine ⟨fClean, restored, ?_⟩
  simp only [Divi.disconnectBlock, hlen, ne_eq, not_true_eq_false, if_false, hloop,
    bind_eq_bind, bind_some, empty_append]

/-- Indices that fit the coins before a block at a height: the entries of the address index are
from lower blocks, and the address-unspent index shows the coins with their heights. -/
structure IndexDatabases.Consistent (dbs : IndexDatabases) (view : CCoinsViewCache)
    (nHeight : Int) : Prop where
  earlier : ∀ key ∈ dbs.addressIndex, key.blockHeight < nHeight
  unspent : ShowsUnspent dbs.addressUnspentIndex view.outputAt
    fun out => (view.coinsOf out.hash).nHeight

section

variable (hfl : flags.fAddressIndex = true)
  (h : Connects flags nHeight view entries after recorded reversed)

include hfl h

theorem Connects.addressIndex_restored (he : ∀ key ∈ dbs.addressIndex,
      key.blockHeight < nHeight) :
    ((dbs.updateDBIndicesForNewBlock flags recorded).applyDisconnectionUpdateIndexToDBs flags
      reversed).addressIndex = dbs.addressIndex := by
  have hb : ((dbs.updateDBIndicesForNewBlock flags recorded).applyDisconnectionUpdateIndexToDBs
      flags reversed).addressIndex = Batch.apply (Batch.apply dbs.addressIndex
        (recorded.addressIndex.map fun item => (item.1, some item.2)))
        (reversed.addressIndex.map fun item => (item.1, none)) := by
    simp only [IndexDatabases.updateDBIndicesForNewBlock,
      IndexDatabases.applyDisconnectionUpdateIndexToDBs, hfl, if_true]
    split <;> rfl
  rw [hb, h.addressIndex_reversed hfl]
  refine Batch.apply_erase_write ?_ ?_ ?_
  · intro op hop
    obtain ⟨item, -, rfl⟩ := List.mem_map.mp hop
    rfl
  · intro key
    simp only [List.mem_map, List.mem_reverse, exists_exists_and_eq_and]
  · intro op hop
    obtain ⟨item, hitem, rfl⟩ := List.mem_map.mp hop
    rw [Finmap.lookup_eq_none]
    intro hmem
    exact absurd (he item.1 hmem) (by rw [h.blockHeight_recorded hitem]; omega)

/-- After both directions the height of an output is that of the block, if the block touched it. -/
theorem Connects.showsUnspent_restored (hht : 0 < nHeight) (hv : view.Sound)
    (hidx : ShowsUnspent dbs.addressUnspentIndex view.outputAt heightAt) :
    ShowsUnspent ((dbs.updateDBIndicesForNewBlock flags
      recorded).applyDisconnectionUpdateIndexToDBs flags reversed).addressUnspentIndex
      view.outputAt fun out => if out ∈ spentBy (entries.map fun entry => entry.1.1) then nHeight
        else if out.hash ∈ entries.map fun entry => entry.1.1.hash then nHeight
        else heightAt out := by
  have hb : ((dbs.updateDBIndicesForNewBlock flags recorded).applyDisconnectionUpdateIndexToDBs
      flags reversed).addressUnspentIndex = Batch.apply (Batch.apply dbs.addressUnspentIndex
        (unspentBatch recorded.addressUnspentIndex))
        (unspentBatch reversed.addressUnspentIndex) := by
    simp only [IndexDatabases.updateDBIndicesForNewBlock,
      IndexDatabases.applyDisconnectionUpdateIndexToDBs, hfl, if_true]
    split <;> rfl
  rw [hb]
  exact h.showsUnspent_reversed hfl hht hv
    (h.showsUnspent_recorded hfl hht hv hidx)

end

/--
**The indices after a block is taken back.**  Connecting a block and disconnecting it leaves
both address indices as they were exactly when every indexed coin of the view that the block
spends was created at the height of the block, which no older coin is: a spent coin comes back
into the address-unspent index with the height of the block that spent it.
-/
theorem disconnect_restores_indices_iff {flags : IndexFlags} (hflag : flags.fAddressIndex = true)
    {nHeight : Int} (hht : 0 < nHeight) {view : CCoinsViewCache} (hview : view.Sound)
    {coinbase : CTransaction} {rest : List CTransaction} (hbase : coinbase.isCoinBase = true)
    (hn : ∀ tx ∈ coinbase :: rest, tx.NullsEmpty)
    (hnd : ((coinbase :: rest).map CTransaction.hash).Nodup)
    (hunused : ∀ tx ∈ coinbase :: rest, (view.coinsOf tx.hash).isPruned = true)
    {dbs dbs' : IndexDatabases} (hdbs : dbs.Consistent view nHeight) {after : CCoinsViewCache}
    {undos : List CTxUndo}
    (hconn : connectBlockWithIndices flags nHeight (coinbase :: rest) view dbs =
      some (after, undos, dbs')) :
    (∃ fClean restored dbs'', disconnectBlock flags nHeight (coinbase :: rest) undos after dbs' =
        some (fClean, restored, dbs'') ∧
      dbs''.addressIndex = dbs.addressIndex ∧
      dbs''.addressUnspentIndex = dbs.addressUnspentIndex) ↔
    ∀ out ∈ spentBy (coinbase :: rest), (view.outputAt out).isNull = false →
      0 < (computeHashbytesAndAddressTypeForScript (view.outputAt out).scriptPubKey).2 →
        (view.coinsOf out.hash).nHeight = nHeight := by
  have hids := idsUnused_of_nodup hht hn hnd hview hunused
  obtain ⟨hlen, recorded, reversed, hc, rfl⟩ :=
    connects_of_connectBlock hht hbase hn hview hids hconn
  have hfits : undos.length + 1 = (coinbase :: rest).length := by
    rw [length_cons, hlen]
  obtain ⟨fClean, restored, hdisc⟩ := hc.disconnectBlock hht hview hfits
    (dbs.updateDBIndicesForNewBlock flags recorded)
  have haddr := hc.addressIndex_restored hflag hdbs.earlier
  have hun := (hc.showsUnspent_restored hflag hht hview hdbs.unspent).eq_iff
    hdbs.unspent
  -- an output that is there before the block has none of the block's ids
  have hold : ∀ out, (view.outputAt out).isNull = false →
      out.hash ∉ (coinbase :: rest).map CTransaction.hash := by
    intro out hnull hmem
    obtain ⟨tx, htx, hh⟩ := mem_map.mp hmem
    rw [outputAt_fresh hview (hunused tx htx) hh.symm] at hnull
    cases hnull
  have hh : ((coinbase :: rest).zip (none :: undos.map some)).zipIdx.map
      (fun entry => entry.1.1.hash) = (coinbase :: rest).map CTransaction.hash := by
    have hmap := congrArg (List.map CTransaction.hash) (map_entries hfits)
    rwa [List.map_map] at hmap
  rw [map_entries hfits, hh] at hun
  simp only [hdisc, Option.some.injEq, Prod.mk.injEq]
  constructor
  · rintro ⟨_, _, dbs'', ⟨-, -, rfl⟩, -, hs⟩ out hout hnull htype
    have hhts := hun.mp hs out hnull htype
    rw [if_pos hout] at hhts
    exact hhts.symm
  · intro hown
    refine ⟨fClean, restored, _, ⟨rfl, rfl, rfl⟩, haddr, hun.mpr ?_⟩
    intro out hnull htype
    by_cases hout : out ∈ spentBy (coinbase :: rest)
    · rw [if_pos hout, hown out hout hnull htype]
    · rw [if_neg hout, if_neg (hold out hnull)]

/-- Pays to a key hash. -/
def keyHashScript : CScript :=
  [OP_DUP, OP_HASH160, 0x14] ++ List.replicate 20 0xaa ++ [OP_EQUALVERIFY, OP_CHECKSIG]

/-- A transaction of height 5, with an output that is indexed and one that is not. -/
def earlierPayment : CTransaction :=
  { hash := 7, vin := [{ prevout := COutPoint.null }]
    vout := [⟨100, keyHashScript⟩, ⟨50, [0x51]⟩] }

/-- The coins it left. -/
def earlierCoins : CCoinsViewCache :=
  ({} : CCoinsViewCache).setCoins earlierPayment.hash (CCoins.fromTx earlierPayment 5)

/-- Only the address indices are kept. -/
def addressFlags : IndexFlags := ⟨true, false⟩

/-- What connecting it wrote. -/
def earlierIndices : IndexDatabases :=
  ({} : IndexDatabases).updateDBIndicesForNewBlock addressFlags
    (recordedChanges addressFlags ⟨7, 5, 0⟩ earlierPayment ({} : CCoinsViewCache).outputAt)

/-- A block that spends an earlier output, and one of its own. -/
def laterBlock (out : COutPoint) : List CTransaction :=
  [{ hash := 1, vin := [{ prevout := COutPoint.null }], vout := [CTxOut.empty] },
    { hash := 2, vin := [{ prevout := out }], vout := [⟨40, keyHashScript⟩] },
    { hash := 3, vin := [{ prevout := ⟨2, 0⟩ }], vout := [⟨30, [0x51]⟩] }]

theorem laterBlock_nullsEmpty (out : COutPoint) : ∀ tx ∈ laterBlock out, tx.NullsEmpty := by
  simp [laterBlock, CTransaction.NullsEmpty, CTxOut.isNull, CTxOut.empty]

theorem laterBlock_unused (out : COutPoint) :
    ∀ tx ∈ laterBlock out, (earlierCoins.coinsOf tx.hash).isPruned = true :=
  of_decide_eq_true rfl

theorem earlierPayment_nullsEmpty : earlierPayment.NullsEmpty := by
  simp [earlierPayment, CTransaction.NullsEmpty, CTxOut.isNull]

theorem earlierCoins_sound : earlierCoins.Sound :=
  CCoinsViewCache.sound_empty.setCoins (CCoins.fromTx_clean earlierPayment_nullsEmpty 5)
    (fun _ => by decide)

theorem showsUnspent_empty : ShowsUnspent ∅ ({} : CCoinsViewCache).outputAt fun _ => 0 := by
  intro key
  rfl

theorem earlierIndices_consistent : earlierIndices.Consistent earlierCoins 9 := by
  have hhts : (fun out : COutPoint => (earlierCoins.coinsOf out.hash).nHeight) =
      fun out => if out.hash = earlierPayment.hash then 5 else 0 := by
    funext out
    by_cases hh : out.hash = earlierPayment.hash
    · rw [if_pos hh, hh]
      rfl
    · rw [if_neg hh, earlierCoins, CCoinsViewCache.coinsOf_setCoins_of_ne _ _ hh]
      rfl
  refine ⟨?_, ?_⟩
  · intro key hkey
    change key ∈ Finmap.insert (⟨1, List.replicate 20 0xaa, 5, 0, 7, 0, false⟩ : CAddressIndexKey)
      (100 : Int) ∅ at hkey
    rcases Finmap.mem_insert.mp hkey with rfl | hn
    · decide
    · exact absurd hn Finmap.notMem_empty
  · rw [hhts]
    have hs := showsUnspent_recorded (i := 0) (rfl : addressFlags.fAddressIndex = true)
      CCoinsViewCache.sound_empty earlierPayment_nullsEmpty rfl
      (rfl : updateCoinsWithTransaction earlierPayment 5 {} = some (earlierCoins, []))
      showsUnspent_empty
    exact hs

/-- A block whose only indexed spend is of its own output leaves no trace. -/
theorem disconnect_restores_indices_own_output : ∃ after undos dbs',
    connectBlockWithIndices addressFlags 9 (laterBlock ⟨7, 1⟩) earlierCoins earlierIndices =
        some (after, undos, dbs') ∧
      ∃ fClean restored dbs'', disconnectBlock addressFlags 9 (laterBlock ⟨7, 1⟩) undos after dbs' =
          some (fClean, restored, dbs'') ∧
        dbs''.addressIndex = earlierIndices.addressIndex ∧
        dbs''.addressUnspentIndex = earlierIndices.addressUnspentIndex := by
  refine ⟨_, _, _, rfl, (disconnect_restores_indices_iff rfl (by decide) earlierCoins_sound rfl
    (laterBlock_nullsEmpty _) (by decide) (laterBlock_unused _) earlierIndices_consistent
    rfl).mpr ?_⟩
  intro out hout hnull htype
  have hsp : spentBy (laterBlock ⟨7, 1⟩) = [⟨7, 1⟩, ⟨2, 0⟩] := by decide
  change out ∈ spentBy (laterBlock ⟨7, 1⟩) at hout
  simp only [hsp, mem_cons, not_mem_nil, or_false] at hout
  rcases hout with rfl | rfl
  · cases htype
  · cases hnull

/-- A coin of height 5 that a block of height 9 spends is back at height 9. -/
theorem disconnect_moves_unspent_height :
    earlierCoins.Sound ∧ earlierIndices.Consistent earlierCoins 9 ∧
      (∀ tx ∈ laterBlock ⟨7, 0⟩, tx.NullsEmpty) ∧
      (∀ tx ∈ laterBlock ⟨7, 0⟩, (earlierCoins.coinsOf tx.hash).isPruned = true) ∧
      ∃ after undos dbs' restored dbs'',
        connectBlockWithIndices addressFlags 9 (laterBlock ⟨7, 0⟩) earlierCoins earlierIndices =
            some (after, undos, dbs') ∧
          disconnectBlock addressFlags 9 (laterBlock ⟨7, 0⟩) undos after dbs' =
            some (true, restored, dbs'') ∧
          earlierIndices.addressUnspentIndex.lookup ⟨1, List.replicate 20 0xaa, 7, 0⟩ =
            some ⟨100, keyHashScript, 5⟩ ∧
          dbs''.addressUnspentIndex.lookup ⟨1, List.replicate 20 0xaa, 7, 0⟩ =
            some ⟨100, keyHashScript, 9⟩ :=
  ⟨earlierCoins_sound, earlierIndices_consistent, laterBlock_nullsEmpty _, laterBlock_unused _,
    _, _, _, _, _, rfl, rfl, by decide, by decide⟩

end Divi
