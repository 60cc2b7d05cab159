/-
Disconnecting a block.

The reversal of a block walks back through the entries its transactions went through,
from the last transaction to the first.  It leads back to the entries before the block,
without a complaint, exactly when the block exhausts no coinstake: once the last output
of a coinstake is spent, its flag is gone, and either the comparison with the coinstake
itself fails, if the block holds it, or the entry comes back without the flag.
-/
import Divi.Proofs.TransactionReversal

namespace Divi

open CCoins List

open CCoins (cleared)
open CCoinsViewCache (ShowsBut)

variable {undos : List CTxUndo} {vtx rest : List CTransaction} {tx : CTransaction} {undo : CTxUndo}
  {nHeight : Int} {view mid after current restored : CCoinsViewCache} {txid : uint256}

/-! ### Reversals without problems -/

/-- The loop runs through the transactions, each reversal reporting no problem. -/
def Reverses (nHeight : Int) (current : CCoinsViewCache)
    (entries : List (CTransaction × Option CTxUndo)) (restored : CCoinsViewCache) : Prop :=
  ∃ statuses, reversalLoop nHeight current entries = some (restored, statuses) ∧
    ∀ status ∈ statuses, status = .OK

theorem reverses_nil : Reverses nHeight current [] restored ↔ current = restored := by
  simp [Reverses, reversalLoop]

theorem reverses_cons {txundo : Option CTxUndo} {entries : List (CTransaction × Option CTxUndo)} :
    Reverses nHeight current ((tx, txundo) :: entries) restored ↔
      ∃ mid, updateCoinsReversingTransaction tx nHeight current txundo = some (mid, .OK) ∧
        Reverses nHeight mid entries restored := by
  simp only [Reverses, reversalLoop, Option.bind_eq_bind, Option.bind_eq_some_iff, Prod.exists]
  constructor
  · rintro ⟨statuses, ⟨mid, status, hfst, hr⟩, hok⟩
    split at hr
    case isTrue ha =>
      cases hr
      rw [hok status (mem_singleton_self _)] at ha
      cases ha
    case isFalse =>
      simp only [Option.bind_eq_some_iff, Prod.exists] at hr
      obtain ⟨last, later, hloop, heq⟩ := hr
      cases heq
      obtain rfl := hok status mem_cons_self
      exact ⟨mid, hfst, later, hloop, fun s hs => hok s (mem_cons_of_mem _ hs)⟩
  · rintro ⟨mid, hfst, later, hloop, hok⟩
    refine ⟨.OK :: later, ⟨mid, .OK, hfst, ?_⟩, ?_⟩
    · simp [TxReversalStatus.aborts, hloop]
    · intro status hstat
      rcases mem_cons.mp hstat with rfl | hl
      · rfl
      · exact hok status hl

theorem reverses_append {first second : List (CTransaction × Option CTxUndo)} :
    Reverses nHeight current (first ++ second) restored ↔
      ∃ mid, Reverses nHeight current first mid ∧ Reverses nHeight mid second restored := by
  induction first generalizing current with
  | nil => simp [reverses_nil]
  | cons entry rest ih =>
    obtain ⟨tx, txundo⟩ := entry
    simp only [cons_append, reverses_cons, ih]
    constructor
    · rintro ⟨m, hm, m', hm', hr⟩
      exact ⟨m', ⟨m, hm, hm'⟩, hr⟩
    · rintro ⟨m', ⟨m, hm, hm'⟩, hr⟩
      exact ⟨m, hm, m', hm', hr⟩

/-- A transaction's reversal is the last step of that of a block which starts with it. -/
theorem reverses_block_cons :
    Reverses nHeight current ((tx :: rest).zip ((undo :: undos).map some)).reverse restored ↔
      ∃ mid, Reverses nHeight current (rest.zip (undos.map some)).reverse mid ∧
        updateCoinsReversingTransaction tx nHeight mid (some undo) = some (restored, .OK) := by
  simp [reverses_append, reverses_cons, reverses_nil]

/-- The first transaction's undo data is not stored, and not needed if it is a coinbase. -/
theorem disconnectTransactions_iff {coinbase : CTransaction} (hbase : coinbase.isCoinBase = true)
    (undo : CTxUndo) (hlen : undos.length = rest.length) :
    (∃ statuses, disconnectTransactions nHeight (coinbase :: rest) undos current
        = some (restored, statuses) ∧ ∀ status ∈ statuses, status = .OK) ↔
      Reverses nHeight current
        ((coinbase :: rest).zip ((undo :: undos).map some)).reverse restored := by
  have hi : ∀ mid, updateCoinsReversingTransaction coinbase nHeight mid none
      = updateCoinsReversingTransaction coinbase nHeight mid (some undo) := by
    intro mid
    simp [updateCoinsReversingTransaction, hbase]
  have hfits : ¬ (undos.length + 1 ≠ (coinbase :: rest).length) := by
    simp [hlen]
  simp only [disconnectTransactions, if_neg hfits]
  rw [← Reverses]
  simp [reverses_append, reverses_cons, hi]

/-! ### Applying a block -/

theorem updateCoinsWithBlock_cons
    (h : updateCoinsWithBlock nHeight view (tx :: rest) = some (after, undos)) :
    ∃ mid undo undos', updateCoinsWithTransaction tx nHeight view = some (mid, undo) ∧
      updateCoinsWithBlock nHeight mid rest = some (after, undos') ∧ undos = undo :: undos' := by
  simp only [updateCoinsWithBlock, Option.bind_eq_bind, Option.bind_eq_some_iff] at h
  obtain ⟨⟨mid, undo⟩, hfst, ⟨after', undos'⟩, hr, heq⟩ := h
  cases heq
  exact ⟨mid, undo, undos', hfst, hr, rfl⟩

theorem updateCoinsWithBlock_length
    (h : updateCoinsWithBlock nHeight view vtx = some (after, undos)) :
    undos.length = vtx.length := by
  induction vtx generalizing view undos with
  | nil =>
    cases h
    rfl
  | cons tx rest ih =>
    obtain ⟨mid, undo, undos', -, hr, rfl⟩ := updateCoinsWithBlock_cons h
    simp [ih hr]

/-- No transaction's id has unspent outputs when the transaction is reached. -/
def IdsUnused (nHeight : Int) (view : CCoinsViewCache) : List CTransaction → Prop
  | [] => True
  | tx :: rest => (view.coinsOf tx.hash).isPruned = true ∧
      ∀ mid undo, updateCoinsWithTransaction tx nHeight view = some (mid, undo) →
        IdsUnused nHeight mid rest

/-- The outputs the transactions spend. -/
def spentBy (vtx : List CTransaction) : List COutPoint :=
  vtx.flatMap fun tx => (spentInputs tx).map CTxIn.prevout

/-- Undo data of a block that carries the coinstake flag of an entry. -/
def BlockFlagged (vtx : List CTransaction) (undos : List CTxUndo) (txid : uint256) : Prop :=
  ∃ p ∈ vtx.zip undos, Flagged (spentInputs p.1) p.2 txid

theorem blockFlagged_cons : BlockFlagged (tx :: rest) (undo :: undos) txid ↔
      Flagged (spentInputs tx) undo txid ∨ BlockFlagged rest undos txid := by
  simp [BlockFlagged]

/-! ### Exhausted coinstakes -/

/-- The entry of a coinstake whose unspent outputs are all among those spent. -/
def Exhausted (coins : CCoins) (txid : uint256) (spent : List COutPoint) : Prop :=
  coins.fCoinStake = true ∧ ∀ n, (coins.outAt n).isNull = false → (⟨txid, n⟩ : COutPoint) ∈ spent

theorem exhausted_spent {before : CCoinsViewCache} {outs : List COutPoint}
    (h : Spent before after outs) (txid : uint256) (later : List COutPoint) :
    Exhausted (before.entry txid) txid (outs ++ later) ↔
      Lost before after txid ∨ Exhausted (after.entry txid) txid later := by
  have hr : ∀ n, (⟨txid, n⟩ : COutPoint) ∉ outs →
      (after.entry txid).outAt n = (before.entry txid).outAt n := by
    intro n hn
    rw [h.outAt, if_neg hn]
  constructor
  · rintro ⟨hf, hall⟩
    rcases h.flag txid with hgone | hs
    · exact .inl ⟨hf, hgone⟩
    · refine .inr ⟨hs.trans hf, ?_⟩
      intro n hn
      have hnot : (⟨txid, n⟩ : COutPoint) ∉ outs := by
        intro hmem
        rw [h.outAt, if_pos hmem] at hn
        cases hn
      rw [hr n hnot] at hn
      exact (mem_append.mp (hall n hn)).resolve_left hnot
  · rintro (⟨hf, hgone⟩ | ⟨hf, hall⟩)
    · refine ⟨hf, ?_⟩
      intro n hn
      by_contra hnot
      have hnull := hr n (fun hmem => hnot (mem_append_left _ hmem))
      rw [hgone] at hnull
      rw [← hnull] at hn
      cases hn
    · refine ⟨h.flag_before hf, ?_⟩
      intro n hn
      by_cases hmem : (⟨txid, n⟩ : COutPoint) ∈ outs
      · exact mem_append_left _ hmem
      · rw [← hr n hmem] at hn
        exact mem_append_right _ (hall n hn)

/-- A coinstake of the view, or of the block, whose last unspent output the block spends. -/
def Exhausts (nHeight : Int) (view : CCoinsViewCache) (vtx : List CTransaction)
    (txid : uint256) : Prop :=
  Exhausted (view.entry txid) txid (spentBy vtx) ∨
    ∃ pre tx post, vtx = pre ++ tx :: post ∧ tx.hash = txid ∧
      Exhausted (CCoins.fromTx tx nHeight).norm txid (spentBy post)

theorem not_exhausted_cleared (txid : uint256) (spent : List COutPoint) :
    ¬ Exhausted cleared txid spent := by
  intro h
  cases h.1

theorem exhausts_nil (hv : view.Sound) (txid : uint256) : ¬ Exhausts nHeight view [] txid := by
  rintro (⟨hf, hall⟩ | ⟨pre, tx, post, hs, -⟩)
  · -- an entry with the flag has an unspent output, and the block spends none
    have hc : (view.entry txid).Clean := (hv.clean txid).norm
    have hp : (view.entry txid).isPruned = true := by
      refine hc.isPruned_iff_outAt.mpr ?_
      intro n
      cases hnull : ((view.entry txid).outAt n).isNull with
      | true => exact hc.outAt_null hnull
      | false => cases hall n hnull
    rw [CCoinsViewCache.entry, ← norm_eq_cleared_iff, norm_norm] at hp
    rw [CCoinsViewCache.entry, hp] at hf
    cases hf
  · cases pre <;> cases hs

theorem exhausts_cons (hv : view.Sound) (htx : tx.Proper) (hf : view.entry tx.hash = cleared)
    (h : updateCoinsWithTransaction tx nHeight view = some (after, undo))
    (hsp : spendInputs view (spentInputs tx) = some (mid, undo)) (txid : uint256) :
    Exhausts nHeight view (tx :: rest) txid ↔
      Lost view mid txid ∨ Exhausts nHeight after rest txid := by
  have hspe := spendInputs_spent hv hsp
  -- what the block exhausts of its own: the first transaction, or one of the others
  have hw : (∃ pre t post, tx :: rest = pre ++ t :: post ∧ t.hash = txid ∧
        Exhausted (fromTx t nHeight).norm txid (spentBy post)) ↔
      (tx.hash = txid ∧ Exhausted (fromTx tx nHeight).norm txid (spentBy rest)) ∨
        ∃ pre t post, rest = pre ++ t :: post ∧ t.hash = txid ∧
          Exhausted (fromTx t nHeight).norm txid (spentBy post) := by
    constructor
    · rintro ⟨pre, t, post, hs, hh, hex⟩
      rcases cons_eq_append_iff.mp hs with ⟨rfl, hcons⟩ | ⟨pre', rfl, hr⟩
      · cases hcons
        exact .inl ⟨hh, hex⟩
      · exact .inr ⟨pre', t, post, hr, hh, hex⟩
    · rintro (⟨hh, hex⟩ | ⟨pre, t, post, hr, hh, hex⟩)
      · exact ⟨[], tx, rest, rfl, hh, hex⟩
      · exact ⟨tx :: pre, t, post, by rw [hr, cons_append], hh, hex⟩
  have hs : spentBy (tx :: rest) = (spentInputs tx).map CTxIn.prevout ++ spentBy rest :=
    flatMap_cons
  unfold Exhausts
  rw [hw, hs, exhausted_spent hspe, updateCoins_entry h htx.nulls hsp]
  by_cases htxid : txid = tx.hash
  · have hgone := hspe.gone tx.hash hf
    have hlost : ¬ Lost view mid tx.hash := by
      intro hlost
      have hfl := hlost.1
      rw [hf] at hfl
      cases hfl
    rw [htxid, Function.update_self, hgone]
    simp [hlost, not_exhausted_cleared]
  · rw [Function.update_of_ne htxid]
    simp [Ne.symm htxid, or_assoc]

/-! ### Flags in the undo data -/

section

variable (hht : 0 < nHeight) (hpr : ∀ tx ∈ vtx, tx.Proper) (hv : view.Sound)
  (h : updateCoinsWithBlock nHeight view vtx = some (after, undos))

include hht hpr hv h

/-- Without a coinstake flag in the undo data the reversal goes through.  Where it does, it leads
back but for these flags, which the entries before the block had. -/
theorem reverses_block (hids : IdsUnused nHeight view vtx) :
    ((∀ txid, ¬ BlockFlagged vtx undos txid) →
      ∃ restored, Reverses nHeight after (vtx.zip (undos.map some)).reverse restored) ∧
    ∀ restored, Reverses nHeight after (vtx.zip (undos.map some)).reverse restored →
      ShowsBut (BlockFlagged vtx undos) restored view ∧
        ∀ txid, BlockFlagged vtx undos txid → (view.entry txid).fCoinStake = true := by
  induction vtx generalizing view undos with
  | nil =>
    cases h
    have hn : BlockFlagged [] [] = fun _ => False := by
      funext txid
      simp [BlockFlagged]
    refine ⟨fun _ => ⟨after, reverses_nil.mpr rfl⟩, fun restored hre => ?_⟩
    rw [hn, ← reverses_nil.mp hre]
    exact ⟨ShowsBut.refl hv, nofun⟩
  | cons tx rest ih =>
    obtain ⟨mid, undo, undos', hfst, hres, rfl⟩ := updateCoinsWithBlock_cons h
    have htx := hpr tx mem_cons_self
    obtain ⟨he, hall⟩ := ih (fun t ht => hpr t (mem_cons_of_mem _ ht))
      (updateCoins_sound hfst htx.nulls hht hv) hres (hids.2 mid undo hfst)
    have hstep := fun later hl => reversing_shows hfst hv htx.nulls
      (norm_of_pruned hids.1) (hall later hl).1
    constructor
    · intro hf
      simp only [blockFlagged_cons, not_or] at hf
      obtain ⟨later, hl⟩ := he fun txid => (hf txid).2
      obtain ⟨restored, hr, -⟩ := hstep later hl
      rw [if_pos ((removeTxOutputs_of_shows hfst htx (hall later hl).1).mpr
        fun _ => (hf tx.hash).2)] at hr
      exact ⟨restored, reverses_block_cons.mpr ⟨later, hl, hr⟩⟩
    · intro restored hre
      obtain ⟨later, hl, hla⟩ := reverses_block_cons.mp hre
      obtain ⟨hs, hpre⟩ := hall later hl
      obtain ⟨restored', hr, hback⟩ := hstep later hl
      rw [hr] at hla
      obtain ⟨rfl, hstat⟩ := Prod.mk.inj (Option.some.inj hla)
      have hc : (removeTxOutputsFromCache tx nHeight later).2 = true := by
        by_contra hnot
        rw [if_neg hnot] at hstat
        cases hstat
      obtain ⟨spent, hsp, -⟩ := updateCoins_spec hfst
      refine ⟨by simpa only [← blockFlagged_cons] using hback, fun txid hfl => ?_⟩
      rcases blockFlagged_cons.mp hfl with hnow | hl'
      · exact ((flagged_iff_lost hv hsp txid).mp hnow).1
      · have hfl := hpre txid hl'
        rw [updateCoins_entry hfst htx.nulls hsp] at hfl
        by_cases htxid : txid = tx.hash
        · -- the coinstake that set the flag is compared with an entry without it
          rw [htxid, Function.update_self] at hfl
          rw [htxid] at hl'
          exact absurd hl' ((removeTxOutputs_of_shows hfst htx hs).mp hc hfl)
        · rw [Function.update_of_ne htxid] at hfl
          exact (spendInputs_spent hv hsp).flag_before hfl

/-- **Where a block's undo data carries the flag.**  Exactly for the coinstakes it exhausts. -/
theorem blockFlagged_iff (hids : IdsUnused nHeight view vtx) (txid : uint256) :
    BlockFlagged vtx undos txid ↔ Exhausts nHeight view vtx txid := by
  induction vtx generalizing view undos with
  | nil =>
    constructor
    · rintro ⟨p, hp, -⟩
      cases hp
    · intro hex
      exact absurd hex (exhausts_nil hv txid)
  | cons tx rest ih =>
    obtain ⟨mid, undo, undos', hfst, hr, rfl⟩ := updateCoinsWithBlock_cons h
    have htx := hpr tx mem_cons_self
    obtain ⟨spent, hsp, -⟩ := updateCoins_spec hfst
    rw [blockFlagged_cons, exhausts_cons hv htx (norm_of_pruned hids.1) hfst hsp,
      flagged_iff_lost hv hsp, ih (fun t ht => hpr t (mem_cons_of_mem _ ht))
        (updateCoins_sound hfst htx.nulls hht hv) hr (hids.2 mid undo hfst)]

end

/-! ### Disconnecting -/

/-- An unspent output is left of what coins there are, or there were none. -/
def Survives (coins : CCoins) (txid : uint256) (spent : List COutPoint) : Prop :=
  coins.isPruned = true ∨ ∃ n, coins.isAvailable n = true ∧ (⟨txid, n⟩ : COutPoint) ∉ spent

/-- No coinstake, of the view or of the block, loses its last unspent output in the block. -/
structure CoinstakesSurvive (nHeight : Int) (view : CCoinsViewCache)
    (vtx : List CTransaction) : Prop where
  earlier : ∀ txid, (view.coinsOf txid).fCoinStake = true →
    Survives (view.coinsOf txid) txid (spentBy vtx)
  within : ∀ pre tx post, vtx = pre ++ tx :: post → tx.isCoinStake = true →
    Survives (CCoins.fromTx tx nHeight) tx.hash (spentBy post)

theorem exhausted_norm_iff (coins : CCoins) (txid : uint256) (spent : List COutPoint) :
    ¬ Exhausted coins.norm txid spent ↔
      (coins.fCoinStake = true → Survives coins txid spent) := by
  cases hp : coins.isPruned with
  | true =>
    rw [norm_of_pruned hp]
    simp [not_exhausted_cleared, Survives, hp]
  | false =>
    rw [norm_of_not_pruned hp]
    simp [Exhausted, Survives, hp, not_forall, isAvailable_iff]

theorem coinstakesSurvive_iff :
    CoinstakesSurvive nHeight view vtx ↔ ∀ txid, ¬ Exhausts nHeight view vtx txid := by
  constructor
  · rintro h txid (hex | ⟨pre, tx, post, hs, rfl, hex⟩)
    · exact (exhausted_norm_iff _ _ _).mpr (h.earlier txid) hex
    · exact (exhausted_norm_iff _ _ _).mpr (h.within pre tx post hs) hex
  · intro h
    refine ⟨?_, ?_⟩
    · intro txid
      exact (exhausted_norm_iff _ _ _).mp (fun hex => h txid (.inl hex))
    · intro pre tx post hs
      exact (exhausted_norm_iff (fromTx tx nHeight) _ _).mp
        (fun hex => h tx.hash (.inr ⟨pre, tx, post, hs, rfl, hex⟩))

/-- Distinct ids without unspent outputs in the view have none when they are reached. -/
theorem idsUnused_of_nodup (hht : 0 < nHeight) (hn : ∀ tx ∈ vtx, tx.NullsEmpty)
    (hnd : (vtx.map CTransaction.hash).Nodup) (hv : view.Sound)
    (hu : ∀ tx ∈ vtx, (view.coinsOf tx.hash).isPruned = true) :
    IdsUnused nHeight view vtx := by
  induction vtx generalizing view with
  | nil => trivial
  | cons tx rest ih =>
    have htx := hn tx mem_cons_self
    obtain ⟨hfst, hr⟩ := nodup_cons.mp hnd
    refine ⟨hu tx mem_cons_self, ?_⟩
    intro mid undo hupd
    refine ih (fun t ht => hn t (mem_cons_of_mem _ ht)) hr
      (updateCoins_sound hupd htx hht hv) ?_
    intro t ht
    have hne : t.hash ≠ tx.hash := by
      intro heq
      exact hfst (heq ▸ mem_map_of_mem ht)
    obtain ⟨spent, hsp, -⟩ := updateCoins_spec hupd
    have hgone := (spendInputs_spent hv hsp).gone t.hash
      (norm_of_pruned (hu t (mem_cons_of_mem _ ht)))
    rw [← norm_eq_cleared_iff]
    show mid.entry t.hash = cleared
    rw [updateCoins_entry hupd htx hsp, Function.update_of_ne hne, hgone]

/--
**Disconnecting a block.**  The reversal of a block that was applied reports no problem
and restores every entry exactly when no coinstake loses its last unspent output in the
block: the undo data records the coinstake flag, but the restoration does not read it.
-/
theorem disconnect_restores_iff {nHeight : Int} (hht : 0 < nHeight) {view : CCoinsViewCache}
    (hview : view.Sound) {coinbase : CTransaction} {rest : List CTransaction}
    (hbase : coinbase.isCoinBase = true) (hpr : ∀ tx ∈ coinbase :: rest, tx.Proper)
    (hids : IdsUnused nHeight view (coinbase :: rest)) {after : CCoinsViewCache} {undo : CTxUndo}
    {undos : List CTxUndo}
    (hblk : updateCoinsWithBlock nHeight view (coinbase :: rest) = some (after, undo :: undos)) :
    (∃ restored statuses,
      disconnectTransactions nHeight (coinbase :: rest) undos after = some (restored, statuses) ∧
        (∀ status ∈ statuses, status = .OK) ∧
        ∀ txid, (restored.coinsOf txid).equal (view.coinsOf txid) = true) ↔
      CoinstakesSurvive nHeight view (coinbase :: rest) := by
  have hlen : undos.length = rest.length := by
    simpa using updateCoinsWithBlock_length hblk
  have hf := blockFlagged_iff hht hpr hview hblk hids
  obtain ⟨hexi, hall⟩ := reverses_block hht hpr hview hblk hids
  rw [coinstakesSurvive_iff]
  constructor
  · rintro ⟨restored, statuses, hdisc, hok, heq⟩ txid hex
    have hfl := (hf txid).mpr hex
    obtain ⟨hs, hpre⟩ := hall restored
      ((disconnectTransactions_iff hbase undo hlen).mp ⟨statuses, hdisc, hok⟩)
    obtain ⟨keep, he, hkeep⟩ := hs.entry txid
    have hsa : restored.entry txid = view.entry txid := (equal_iff _ _).mp (heq txid)
    rw [hsa, eq_comm, keepFlag_eq_self_iff] at he
    exact hkeep.mp (he (hpre txid hfl)) hfl
  · intro hsu
    have hkept : ∀ txid, ¬ BlockFlagged (coinbase :: rest) (undo :: undos) txid :=
      fun txid hfl => hsu txid ((hf txid).mp hfl)
    obtain ⟨restored, hr⟩ := hexi hkept
    obtain ⟨statuses, hdisc, hok⟩ :=
      (disconnectTransactions_iff hbase undo hlen).mpr hr
    refine ⟨restored, statuses, hdisc, hok, ?_⟩
    intro txid
    exact (equal_iff _ _).mpr ((hall restored hr).1.entry_eq (hkept txid))

/-- A coinstake: its marker, and one output. -/
def earlierStake : CTransaction :=
  { hash := 7, vin := [{ prevout := ⟨3, 0⟩ }], vout := [CTxOut.empty, ⟨100, [0x51]⟩] }

/-- A view that holds the outputs of the coinstake, created at height 5. -/
def stakeOutputs : CCoinsViewCache :=
  ({} : CCoinsViewCache).setCoins earlierStake.hash (CCoins.fromTx earlierStake 5)

/-- A block that spends given outputs of the coinstake. -/
def spendingBlock (outs : List COutPoint) : List CTransaction :=
  [{ hash := 1, vin := [{ prevout := COutPoint.null }], vout := [CTxOut.empty] },
    { hash := 2, vin := outs.map fun out => { prevout := out }, vout := [⟨100, [0x51]⟩] }]

theorem spendingBlock_proper (outs : List COutPoint) : ∀ tx ∈ spendingBlock outs, tx.Proper := by
  intro tx htx
  simp only [spendingBlock, mem_cons, not_mem_nil, or_false] at htx
  rcases htx with rfl | rfl
  · exact ⟨by decide, by decide⟩
  · exact ⟨by simp, by simp [CTransaction.NullsEmpty, CTxOut.isNull]⟩

theorem stakeOutputs_sound : stakeOutputs.Sound := by
  have hpr : earlierStake.Proper := ⟨by decide, by decide⟩
  exact CCoinsViewCache.sound_empty.setCoins (fromTx_clean hpr.nulls 5) (fun _ => by decide)

theorem spendingBlock_idsUnused (outs : List COutPoint) :
    IdsUnused 9 stakeOutputs (spendingBlock outs) := by
  refine idsUnused_of_nodup (by decide) (fun tx htx => (spendingBlock_proper outs tx htx).nulls)
    (by simp [spendingBlock])
    stakeOutputs_sound ?_
  intro tx htx
  simp only [spendingBlock, mem_cons, not_mem_nil, or_false] at htx
  rcases htx with rfl | rfl
  · decide
  · show (stakeOutputs.coinsOf 2).isPruned = true
    decide

/-- The marker is left: the block is taken back without a trace. -/
theorem disconnect_restores_marker_left : ∃ after undo undos,
    updateCoinsWithBlock 9 stakeOutputs (spendingBlock [⟨7, 1⟩]) = some (after, undo :: undos) ∧
      ∃ restored statuses,
        disconnectTransactions 9 (spendingBlock [⟨7, 1⟩]) undos after = some (restored, statuses) ∧
          (∀ status ∈ statuses, status = .OK) ∧
          ∀ txid, (restored.coinsOf txid).equal (stakeOutputs.coinsOf txid) = true := by
  have hsu : CoinstakesSurvive 9 stakeOutputs (spendingBlock [⟨7, 1⟩]) := by
    refine ⟨?_, ?_⟩
    · intro txid hf
      by_cases htxid : txid = earlierStake.hash
      · rw [htxid]
        exact .inr ⟨0, by decide, by decide⟩
      · rw [stakeOutputs, CCoinsViewCache.coinsOf_setCoins_of_ne _ _ htxid] at hf
        cases hf
    · intro pre tx post hsp hs
      have htx : tx ∈ spendingBlock [⟨7, 1⟩] := by
        rw [hsp]
        exact mem_append_right _ mem_cons_self
      simp only [spendingBlock, mem_cons, not_mem_nil, or_false] at htx
      rcases htx with rfl | rfl
      · cases hs
      · cases hs
  exact ⟨_, _, _, rfl, (disconnect_restores_iff (by decide) stakeOutputs_sound (by decide)
    (spendingBlock_proper _) (spendingBlock_idsUnused _) rfl).mpr hsu⟩

/-- Marker and output are spent: the reversal reports no problem, and drops the flag. -/
theorem disconnect_drops_flag :
    stakeOutputs.Sound ∧ (∀ tx ∈ spendingBlock [⟨7, 0⟩, ⟨7, 1⟩], tx.Proper) ∧
      IdsUnused 9 stakeOutputs (spendingBlock [⟨7, 0⟩, ⟨7, 1⟩]) ∧
      ∃ after undo undos,
        updateCoinsWithBlock 9 stakeOutputs (spendingBlock [⟨7, 0⟩, ⟨7, 1⟩])
            = some (after, undo :: undos) ∧
          ∃ restored,
            disconnectTransactions 9 (spendingBlock [⟨7, 0⟩, ⟨7, 1⟩]) undos after
                = some (restored, [.OK, .OK]) ∧
              (stakeOutputs.coinsOf 7).fCoinStake = true ∧
              (restored.coinsOf 7).fCoinStake = false ∧
              (restored.coinsOf 7).equal (stakeOutputs.coinsOf 7) = false :=
  ⟨stakeOutputs_sound, spendingBlock_proper _, spendingBlock_idsUnused _,
    _, _, _, rfl, _, rfl, by decide, by decide, by decide⟩

end Divi
