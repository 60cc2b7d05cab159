/-
The spent index along the active chain.

Connecting a block writes one entry for each of its inputs, and the entries name the inputs: so
the index stays exact.  Disconnecting a block changes nothing in it.  The index is exact all
along if only blocks that spend nothing are disconnected; an entry whose only spender is
disconnected stays behind.
-/
import Divi.IndexedChain
import Divi.Proofs.IndexUpdates

namespace Divi

open List Option

variable {nHeight : Int} {vtx : List CTransaction} {out : COutPoint}
  {updates updates' : IndexDatabaseUpdates} {view : CCoinsViewCache}
  {vect : List (CSpentIndexKey × CSpentIndexValue)} {flags : IndexFlags} {block : CBlock}

/-! ### Spenders -/

/-- An input of the chain: its transaction, its index there and the height of the block. -/
structure Spender where
  txid : uint256
  inputIndex : Nat
  blockHeight : Int
  deriving DecidableEq, Repr

/-- The inputs of a block that is not a coinbase's, with what they spend. -/
def blockSpenders (nHeight : Int) (vtx : List CTransaction) : List (COutPoint × Spender) :=
  vtx.flatMap fun tx => (spentInputs tx).zipIdx.map fun item =>
    (item.1.prevout, ⟨tx.hash, item.2, nHeight⟩)

/-- The inputs of a chain, given with its tip first. -/
def spenders : List CBlock → List (COutPoint × Spender)
  | [] => []
  | block :: rest => spenders rest ++ blockSpenders (rest.length + 1) block.vtx

theorem exists_mem_blockSpenders :
    (∃ spender, (out, spender) ∈ blockSpenders nHeight vtx) ↔ out ∈ spentBy vtx := by
  simp only [blockSpenders, spentBy, List.mem_flatMap, List.mem_map, Prod.mk.injEq]
  constructor
  · rintro ⟨spender, tx, htx, item, hitem, hout, -⟩
    exact ⟨tx, htx, item.1, List.fst_mem_of_mem_zipIdx hitem, hout⟩
  · rintro ⟨tx, htx, txin, htxin, hout⟩
    obtain ⟨k, hk⟩ := List.mem_iff_getElem?.mp htxin
    exact ⟨⟨tx.hash, k, nHeight⟩, tx, htx, (txin, k), List.mem_zipIdx_iff_getElem?.mpr hk, hout,
      rfl⟩

namespace IndexedChain

/-- The index has an entry exactly for the outpoints that are spent in the chain, and each entry
names an input that spends. -/
structure SpentIndexExact (chain : IndexedChain) : Prop where
  entry_iff : ∀ out : COutPoint, (chain.dbs.spentIndex.lookup ⟨out.hash, out.n⟩).isSome = true ↔
    ∃ spender, (out, spender) ∈ spenders chain.blocks
  named : ∀ (out : COutPoint) (value : CSpentIndexValue),
    chain.dbs.spentIndex.lookup ⟨out.hash, out.n⟩ = some value →
      (out, ⟨value.txid, value.inputIndex, value.blockHeight⟩) ∈ spenders chain.blocks

end IndexedChain

/-! ### What a block records -/

/-- The inputs that entries of the spent index stand for. -/
def recordedSpenders (vect : List (CSpentIndexKey × CSpentIndexValue)) :
    List (COutPoint × Spender) :=
  vect.map fun item => (⟨item.1.txid, item.1.outputIndex⟩,
    ⟨item.2.txid, item.2.inputIndex, item.2.blockHeight⟩)

section

variable (hf : flags.fSpentIndex = true)

theorem recordedSpenders_foldlM {α : Type}
    {step : IndexDatabaseUpdates → α → Option IndexDatabaseUpdates} {f : α → COutPoint × Spender}
    (h : ∀ updates item updates', step updates item = some updates' →
      recordedSpenders updates'.spentIndex = recordedSpenders updates.spentIndex ++ [f item])
    {l : List α} (hrun : l.foldlM step updates = some updates') :
    recordedSpenders updates'.spentIndex = recordedSpenders updates.spentIndex ++ l.map f := by
  induction l generalizing updates with
  | nil =>
    cases hrun
    simp
  | cons item l ih =>
    obtain ⟨next, hnext, hr⟩ := bind_eq_some_iff.mp hrun
    rw [ih hr, h updates item next hnext, map_cons, append_assoc, singleton_append]

theorem spentIndex_foldl {α : Type} {changes : α → IndexDatabaseUpdates}
    (h : ∀ item, (changes item).spentIndex = []) (l : List α) (updates : IndexDatabaseUpdates) :
    (l.foldl (fun updates item => updates ++ changes item) updates).spentIndex =
      updates.spentIndex := by
  rw [IndexDatabaseUpdates.foldl_append, IndexDatabaseUpdates.spentIndex_append,
    IndexDatabaseUpdates.spentIndex_concat]
  simp [h]

include hf

theorem recordedSpenders_recordTransaction {i : Nat} {tx : CTransaction}
    (h : recordTransaction flags ⟨tx.hash, nHeight, i⟩ tx view updates = some updates') :
    recordedSpenders updates'.spentIndex =
      recordedSpenders updates.spentIndex ++ blockSpenders nHeight [tx] := by
  obtain ⟨mid, hins, houts⟩ := bind_eq_some_iff.mp h
  have hs : updates'.spentIndex = mid.spentIndex := by
    cases houts
    unfold Spending.collectUpdatesFromOutputs
    split
    · refine spentIndex_foldl (fun item : CTxOut × Nat => ?_) _ mid
      unfold Spending.updatesFromOutput
      dsimp only
      split <;> rfl
    · rfl
  rw [hs]
  simp only [blockSpenders, spentInputs, flatMap_singleton]
  unfold Spending.collectUpdatesFromInputs at hins
  split at hins
  case isTrue hbase =>
    cases hins
    simp [hbase]
  case isFalse hbase =>
    rw [if_neg hbase]
    simp only [hf, Bool.or_true, if_true] at hins
    refine recordedSpenders_foldlM ?_ hins
    intro before item after hstep
    obtain ⟨prevout, -, ha⟩ := bind_eq_some_iff.mp hstep
    cases ha
    simp [recordedSpenders, Spending.updatesFromInput, hf]

theorem recordedSpenders_recordTransactions {k : Nat} {after : CCoinsViewCache}
    {undos : List CTxUndo} (h : recordTransactions flags nHeight view updates (vtx.zipIdx k) =
      some (after, undos, updates')) :
    recordedSpenders updates'.spentIndex =
      recordedSpenders updates.spentIndex ++ blockSpenders nHeight vtx := by
  induction vtx generalizing view undos k updates with
  | nil =>
    cases h
    simp [blockSpenders]
  | cons tx rest ih =>
    simp only [zipIdx_cons, recordTransactions, bind_eq_bind, bind_eq_some_iff] at h
    obtain ⟨mid, hrec, ⟨next, undo⟩, -, ⟨after', undos', last⟩, hr, heq⟩ := h
    cases heq
    rw [ih hr, recordedSpenders_recordTransaction hf hrec, append_assoc]
    simp [blockSpenders]

end

theorem mem_recordedSpenders {key : CSpentIndexKey} {value : CSpentIndexValue}
    (h : (key, value) ∈ vect) :
    ((⟨key.txid, key.outputIndex⟩ : COutPoint),
      (⟨value.txid, value.inputIndex, value.blockHeight⟩ : Spender)) ∈ recordedSpenders vect :=
  mem_map_of_mem h

/-- A write names one of the inputs that spend its outpoint; nothing else changes. -/
theorem lookup_updateSpentIndex (dbs : IndexDatabases)
    (hnull : ∀ item ∈ vect, item.2.isNull = false) (out : COutPoint) :
    ((∀ spender, (out, spender) ∉ recordedSpenders vect) ∧
      (dbs.updateSpentIndex vect).spentIndex.lookup ⟨out.hash, out.n⟩ =
        dbs.spentIndex.lookup ⟨out.hash, out.n⟩) ∨
    ∃ value, (dbs.updateSpentIndex vect).spentIndex.lookup ⟨out.hash, out.n⟩ = some value ∧
      (out, ⟨value.txid, value.inputIndex, value.blockHeight⟩) ∈ recordedSpenders vect := by
  by_cases hmem : ∃ item ∈ vect, item.1 = ⟨out.hash, out.n⟩
  · right
    obtain ⟨item, hitem, hkey⟩ := hmem
    have hops : ∃ op ∈ vect.map fun item => (item.1, if item.2.isNull then none else some item.2),
        op.1 = (⟨out.hash, out.n⟩ : CSpentIndexKey) := ⟨_, mem_map_of_mem hitem, hkey⟩
    obtain ⟨op, hop, hkey, hget⟩ := @Batch.exists_lookup_apply _ _ _ dbs.spentIndex _ _ hops
    obtain ⟨written, hwr, rfl⟩ := mem_map.mp hop
    obtain ⟨key, value⟩ := written
    simp only [hnull _ hwr, Bool.false_eq_true, if_false] at hkey hget
    refine ⟨value, hget, ?_⟩
    have hn := mem_recordedSpenders hwr
    rwa [hkey] at hn
  · left
    refine ⟨?_, Batch.lookup_apply_of_notMem ?_⟩
    · intro spender hs
      obtain ⟨item, hitem, heq⟩ := mem_map.mp hs
      obtain ⟨rfl, -⟩ := Prod.mk.inj heq
      exact hmem ⟨item, hitem, rfl⟩
    · intro op hop hkey
      obtain ⟨item, hitem, rfl⟩ := mem_map.mp hop
      exact hmem ⟨item, hitem, hkey⟩

theorem spentIndex_updateDBIndicesForNewBlock (hf : flags.fSpentIndex = true)
    (dbs : IndexDatabases) (updates : IndexDatabaseUpdates) :
    (dbs.updateDBIndicesForNewBlock flags updates).spentIndex =
      (dbs.updateSpentIndex updates.spentIndex).spentIndex := by
  simp only [IndexDatabases.updateDBIndicesForNewBlock, hf, if_true]
  split <;> rfl

/-- What is written for a block is not null, unless one of its ids is. -/
theorem not_isNull_of_recorded (hids : ∀ tx ∈ vtx, tx.hash ≠ 0)
    (h : recordedSpenders vect = blockSpenders nHeight vtx) :
    ∀ item ∈ vect, item.2.isNull = false := by
  intro item hitem
  have hmem := mem_recordedSpenders hitem
  rw [h] at hmem
  obtain ⟨tx, htx, hi⟩ := mem_flatMap.mp hmem
  obtain ⟨input, -, heq⟩ := mem_map.mp hi
  have hid : tx.hash = item.2.txid := congrArg (fun p => p.2.txid) heq
  simpa [CSpentIndexValue.isNull, ← hid] using hids tx htx

theorem spentIndex_disconnectBlock {vtxundo : List CTxUndo} {view' : CCoinsViewCache}
    {dbs dbs' : IndexDatabases} {success : Bool}
    (h : disconnectBlock flags nHeight vtx vtxundo view dbs = some (success, view', dbs')) :
    dbs'.spentIndex = dbs.spentIndex := by
  unfold disconnectBlock at h
  split at h
  · cases h
    rfl
  · obtain ⟨⟨restored, fClean, updates⟩, -, hres⟩ := bind_eq_some_iff.mp h
    cases updates with
    | none =>
      cases hres
      rfl
    | some updates =>
      cases hres
      unfold IndexDatabases.applyDisconnectionUpdateIndexToDBs
      split <;> rfl

/-! ### Steps -/

namespace IndexedChain

variable {checks : IndexedChain → CBlock → Bool} {chain chain' : IndexedChain}

theorem spentIndexExact_genesis : ({} : IndexedChain).SpentIndexExact where
  entry_iff := by
    intro out
    simp [spenders]
  named := by
    intro out value hv
    cases hv

/-- The writes of a block keep the index exact, if none of its ids is null. -/
theorem SpentIndexExact.connectTip (hf : flags.fSpentIndex = true) (h : chain.SpentIndexExact)
    (hids : ∀ tx ∈ block.vtx, tx.hash ≠ 0) :
    (chain.connectTip flags checks block).SpentIndexExact := by
  unfold IndexedChain.connectTip
  split
  case isFalse => exact h
  case isTrue =>
    split
    case h_1 => exact h
    case h_2 view vtxundo dbs hconn =>
      simp only [connectBlockWithIndices, bind_eq_bind, bind_eq_some_iff] at hconn
      obtain ⟨⟨after, undos, updates⟩, hrec, heq⟩ := hconn
      cases heq
      have hr : recordedSpenders updates.spentIndex =
          blockSpenders (chain.blocks.length + 1) block.vtx :=
        recordedSpenders_recordTransactions hf hrec
      have hget := lookup_updateSpentIndex chain.dbs (not_isNull_of_recorded hids hr)
      simp only [← spentIndex_updateDBIndicesForNewBlock hf, hr] at hget
      refine ⟨?_, ?_⟩
      · intro out
        simp only [spenders, mem_append]
        rcases hget out with ⟨hn, hs⟩ | ⟨value, hv, hmem⟩
        · rw [hs, h.entry_iff]
          simp [hn]
        · rw [hv]
          exact ⟨fun _ => ⟨_, .inr hmem⟩, fun _ => rfl⟩
      · intro out value hv
        simp only [spenders, mem_append]
        rcases hget out with ⟨-, hs⟩ | ⟨value', hv', hmem⟩
        · exact .inl (h.named out value (hs.symm.trans hv))
        · obtain rfl := Option.some.inj (hv'.symm.trans hv)
          exact .inr hmem

/-- A disconnection takes the tip away or leaves the chain, and never touches the index. -/
theorem disconnectTip_cases (hstep : chain.disconnectTip flags = some chain') :
    chain'.dbs.spentIndex = chain.dbs.spentIndex ∧
      (chain'.blocks = chain.blocks ∨ ∃ block, chain.blocks = block :: chain'.blocks) := by
  revert hstep
  fun_cases disconnectTip flags chain with
  | case1 | case2 =>
    rintro ⟨⟩
    exact ⟨rfl, .inl rfl⟩
  | case3 block rest hblks vtxundo hundo =>
    intro hstep
    obtain ⟨⟨success, view, dbs⟩, hdisc, hres⟩ := bind_eq_some_iff.mp hstep
    have hsp := spentIndex_disconnectBlock hdisc
    cases success with
    | true =>
      cases hres
      exact ⟨hsp, .inr ⟨block, hblks⟩⟩
    | false =>
      cases hres
      exact ⟨hsp, .inl rfl⟩

theorem SpentIndexExact.congr (h : chain.SpentIndexExact)
    (hidx : chain'.dbs.spentIndex = chain.dbs.spentIndex)
    (hs : spenders chain'.blocks = spenders chain.blocks) : chain'.SpentIndexExact where
  entry_iff := by
    rw [hidx, hs]
    exact h.entry_iff
  named := by
    rw [hidx, hs]
    exact h.named

/-- Nothing is wrong after a tip without spends is gone. -/
theorem SpentIndexExact.disconnectTip (h : chain.SpentIndexExact)
    (hsp : ∀ block rest, chain.blocks = block :: rest → spentBy block.vtx = [])
    (hstep : chain.disconnectTip flags = some chain') : chain'.SpentIndexExact := by
  obtain ⟨hidx, hs | ⟨block, hblks⟩⟩ := disconnectTip_cases hstep
  · exact h.congr hidx (by rw [hs])
  · refine h.congr hidx ?_
    have hn : blockSpenders (chain'.blocks.length + 1) block.vtx = [] := by
      refine eq_nil_iff_forall_not_mem.mpr fun entry he => ?_
      have hout := exists_mem_blockSpenders.mp ⟨entry.2, he⟩
      rw [hsp block _ hblks] at hout
      cases hout
    rw [hblks, spenders, hn, append_nil]

theorem mem_spenders {blocks : List CBlock} :
    (∃ spender, (out, spender) ∈ spenders blocks) ↔ ∃ block ∈ blocks, out ∈ spentBy block.vtx := by
  induction blocks with
  | nil => simp [spenders]
  | cons block rest ih =>
    simp only [spenders, mem_append, exists_or, ih, exists_mem_blockSpenders, mem_cons,
      exists_eq_or_imp]
    exact or_comm

/-- The entry of an outpoint that only the disconnected tip spends stays behind. -/
theorem disconnectTip_leaves_entry (h : chain.SpentIndexExact)
    (hblks : chain.blocks = block :: chain'.blocks)
    (hstep : chain.disconnectTip flags = some chain') (hout : out ∈ spentBy block.vtx)
    (ho : ∀ other ∈ chain'.blocks, out ∉ spentBy other.vtx) : ¬ chain'.SpentIndexExact := by
  intro hex
  have he : (chain.dbs.spentIndex.lookup ⟨out.hash, out.n⟩).isSome = true := by
    rw [h.entry_iff, mem_spenders, hblks]
    exact ⟨block, mem_cons_self, hout⟩
  rw [← (disconnectTip_cases hstep).1, hex.entry_iff, mem_spenders] at he
  obtain ⟨other, hmem, hsp⟩ := he
  exact ho other hmem hsp

/--
**The spent index.**  Whatever blocks are connected and disconnected from genesis on, the index
is exact as long as every block that is disconnected spends nothing.
-/
theorem spentIndex_exact (hflag : flags.fSpentIndex = true) {events : List TipEvent}
    (hids : ∀ block, TipEvent.connect block ∈ events → ∀ tx ∈ block.vtx, tx.hash ≠ 0)
    (hsp : ∀ before after st block rest, events = before ++ TipEvent.disconnect :: after →
      run flags checks before = some st → st.blocks = block :: rest → spentBy block.vtx = [])
    (hrun : run flags checks events = some chain) : chain.SpentIndexExact := by
  induction events using List.reverseRecOn generalizing chain with
  | nil =>
    cases hrun
    exact spentIndexExact_genesis
  | append_singleton events event ih =>
    obtain ⟨st, hst, hstep⟩ := runFrom_concat_eq_some.mp hrun
    have hpre : st.SpentIndexExact := by
      refine ih ?_ ?_ hst
      · intro block hblk
        exact hids block (mem_append_left _ hblk)
      · intro before after st' block rest hevs
        refine hsp before (after ++ [event]) st' block rest ?_
        rw [hevs, append_assoc, cons_append]
    cases event with
    | connect block =>
      cases hstep
      exact hpre.connectTip hflag (hids block (by simp))
    | disconnect =>
      refine hpre.disconnectTip ?_ hstep
      intro block rest hblks
      exact hsp events [] st block rest rfl hst hblks

/-- A coinbase comes first and only there, and no id with unspent outputs is used again. -/
def tipChecks (chain : IndexedChain) (block : CBlock) : Bool :=
  block.vtx.head?.any CTransaction.isCoinBase && block.vtx.tail.all (fun tx => !tx.isCoinBase) &&
    block.vtx.all fun tx => (chain.view.coinsOf tx.hash).isPruned

/-- Only the spent index is kept. -/
def spentFlags : IndexFlags := ⟨false, true⟩

/-- A block with a coinbase and other transactions. -/
def blockWith (hash hashPrevBlock coinbase : uint256) (vtx : List CTransaction) : CBlock :=
  { hash := hash
    hashPrevBlock := hashPrevBlock
    nTime := 0
    vtx := { hash := coinbase, vin := [{ prevout := COutPoint.null }], vout := [⟨100, [0x51]⟩] } ::
      vtx }

/-- Spends the first coinbase. -/
def spendingPayment : CTransaction :=
  { hash := 13, vin := [{ prevout := ⟨11, 0⟩ }], vout := [⟨90, [0x51]⟩] }

/-- A spending block stays, and one without spends is connected and disconnected. -/
def spendStays : List TipEvent :=
  [.connect (blockWith 1 0 11 []), .connect (blockWith 2 1 12 [spendingPayment]),
    .connect (blockWith 3 2 14 []), .disconnect]

theorem spentIndex_exact_coinbase_only : ∃ chain,
    run spentFlags tipChecks spendStays = some chain ∧
      chain.blocks = [blockWith 2 1 12 [spendingPayment], blockWith 1 0 11 []] ∧
      chain.SpentIndexExact := by
  have hids : ∀ block, TipEvent.connect block ∈ spendStays → ∀ tx ∈ block.vtx, tx.hash ≠ 0 := by
    intro block hblk
    simp only [spendStays, mem_cons, TipEvent.connect.injEq, reduceCtorEq, not_mem_nil,
      or_false] at hblk
    rcases hblk with rfl | rfl | rfl
    · decide
    · decide
    · decide
  have hsp : ∀ before after st block rest,
      spendStays = before ++ TipEvent.disconnect :: after →
        run spentFlags tipChecks before = some st → st.blocks = block :: rest →
          spentBy block.vtx = [] := by
    intro before after st block rest hevs hrun hblks
    have hpre : before = [.connect (blockWith 1 0 11 []),
        .connect (blockWith 2 1 12 [spendingPayment]), .connect (blockWith 3 2 14 [])] := by
      rcases before with _ | ⟨first, _ | ⟨second, _ | ⟨third, _ | ⟨fourth, others⟩⟩⟩⟩ <;>
        simp [spendStays] at hevs
      simp [hevs]
    subst hpre
    cases hrun
    cases hblks
    decide
  exact ⟨_, rfl, by decide, spentIndex_exact rfl hids hsp rfl⟩

/-- The entry of a spend whose block is gone. -/
theorem spentIndex_keeps_disconnected_spend : ∃ chain,
    run spentFlags tipChecks [.connect (blockWith 1 0 11 []),
        .connect (blockWith 2 1 12 [spendingPayment]), .disconnect] = some chain ∧
      chain.blocks = [blockWith 1 0 11 []] ∧
      spenders chain.blocks = [] ∧
      chain.dbs.spentIndex.lookup ⟨11, 0⟩ = some ⟨13, 0, 2, 100, 0, List.replicate 20 0⟩ ∧
      ¬ chain.SpentIndexExact := by
  refine ⟨_, rfl, by decide, by decide, by decide, ?_⟩
  intro he
  obtain ⟨spender, hmem⟩ := (he.entry_iff ⟨11, 0⟩).mp (by decide)
  exact not_mem_nil hmem

/-- The chain of the two blocks. -/
def spentTip : IndexedChain :=
  connectTip spentFlags tipChecks (connectTip spentFlags tipChecks {} (blockWith 1 0 11 []))
    (blockWith 2 1 12 [spendingPayment])

theorem disconnectTip_leaves_entry_payment :
    ∃ chain ∈ spentTip.disconnectTip spentFlags, ¬ chain.SpentIndexExact := by
  have he : spentTip.SpentIndexExact :=
    (spentIndexExact_genesis.connectTip rfl (by decide)).connectTip rfl (by decide)
  have hstep : spentTip.disconnectTip spentFlags = some _ := rfl
  have hout : ⟨11, 0⟩ ∈ spentBy (blockWith 2 1 12 [spendingPayment]).vtx := by decide
  exact ⟨_, hstep, disconnectTip_leaves_entry he rfl hstep hout (by decide)⟩

end IndexedChain

end Divi
