/-
Taking one transaction back.

Views are compared entry by entry, entries without unspent outputs being identified
with absent ones.  Restoring the inputs from the last to the first walks back through
the views the spends went through, and removing the outputs undoes their insertion,
unless a spend took the last output of a coinstake: such a spend is the only one whose
undo data carries the flag, and the restoration drops it for good.
-/
import Divi.Proofs.Coins

namespace Divi

open CCoinsViewCache List CCoins

variable {txins rest : List CTxIn} {view mid after current before : CCoinsViewCache}
  {txin : CTxIn} {undo : CTxInUndo} {undos : CTxUndo} {tx : CTransaction} {nHeight : Int}
  {outs : List COutPoint} {txid : uint256} {out : COutPoint} {coins spent : CCoins}
  {dropped : uint256 → Prop}

/-! ### Entries of a view -/

theorem CCoins.norm_norm (coins : CCoins) : coins.norm.norm = coins.norm := by
  cases h : coins.isPruned with
  | true => rw [norm_of_pruned h, norm_cleared]
  | false => rw [norm_of_not_pruned h, norm_of_not_pruned h]

namespace CCoinsViewCache

variable (view : CCoinsViewCache) (txid : uint256) (coins : CCoins)

/-- The coins of a transaction, those without unspent outputs being all alike. -/
def entry : CCoins := (view.coinsOf txid).norm

theorem coinsOf_setCoins_self : (view.setCoins txid coins).coinsOf txid = coins.cleanup.norm := by
  unfold setCoins coinsOf accessCoins
  split
  case isTrue h =>
    rw [norm_of_pruned h]
    simp [Finmap.lookup_erase]
  case isFalse h =>
    rw [norm_of_not_pruned (by simpa using h)]
    simp [Finmap.lookup_insert]

variable {txid} in
theorem coinsOf_setCoins_of_ne {other : uint256} (hne : other ≠ txid) :
    (view.setCoins txid coins).coinsOf other = view.coinsOf other := by
  unfold setCoins coinsOf accessCoins
  split
  · rw [Finmap.lookup_erase_ne hne]
  · rw [Finmap.lookup_insert_of_ne _ hne]

theorem entry_setCoins :
    (view.setCoins txid coins).entry = Function.update view.entry txid coins.cleanup.norm := by
  funext other
  unfold entry
  by_cases ho : other = txid
  · rw [ho, coinsOf_setCoins_self, norm_norm, Function.update_self]
  · rw [coinsOf_setCoins_of_ne view coins ho, Function.update_of_ne ho]

/-- Every entry is in cleaned-up form and was created above height zero. -/
structure Sound : Prop where
  clean : ∀ txid, (view.coinsOf txid).Clean
  created : ∀ txid, (view.coinsOf txid).isPruned = false → 0 < (view.coinsOf txid).nHeight

variable {view txid coins}

theorem sound_empty : ({} : CCoinsViewCache).Sound where
  clean := fun _ => cleared_clean
  created := nofun

theorem Sound.setCoins (h : view.Sound) (hc : coins.Clean)
    (hcr : coins.isPruned = false → 0 < coins.nHeight) : (view.setCoins txid coins).Sound := by
  have hnorm : coins.norm.isPruned = false → 0 < coins.norm.nHeight := by
    intro hp
    cases hcns : coins.isPruned with
    | true =>
      rw [norm_of_pruned hcns, isPruned_cleared] at hp
      cases hp
    | false =>
      rw [norm_of_not_pruned hcns]
      exact hcr hcns
  refine ⟨?_, ?_⟩
  all_goals
    intro other
    by_cases ho : other = txid
  · rw [ho, coinsOf_setCoins_self, hc.cleanup_eq]
    exact hc.norm
  · rw [coinsOf_setCoins_of_ne view coins ho]
    exact h.clean other
  · rw [ho, coinsOf_setCoins_self, hc.cleanup_eq]
    exact hnorm
  · rw [coinsOf_setCoins_of_ne view coins ho]
    exact h.created other

theorem setCoins_cleanup (view : CCoinsViewCache) (txid : uint256) (coins : CCoins) :
    view.setCoins txid coins.cleanup = view.setCoins txid coins := by
  have hidem : coins.cleanup.cleanup = coins.cleanup := by
    simp only [CCoins.cleanup, rdropWhile_idempotent]
  simp only [setCoins, hidem]

/-- The output at an outpoint, null if there is none. -/
def outputAt (view : CCoinsViewCache) (out : COutPoint) : CTxOut :=
  (view.entry out.hash).outAt out.n

/-- A view with the entries of another one, but for the coinstake flags of some. -/
structure ShowsBut (dropped : uint256 → Prop) (current view : CCoinsViewCache) : Prop where
  sound : current.Sound
  entry : ∀ txid, ∃ keep, current.entry txid = (view.entry txid).keepFlag keep ∧
    (keep = true ↔ ¬ dropped txid)

theorem ShowsBut.refl (h : view.Sound) : ShowsBut (fun _ => False) view view :=
  ⟨h, fun txid => ⟨true, ((keepFlag_eq_self_iff true _).mpr fun _ => rfl).symm, by simp⟩⟩

theorem ShowsBut.entry_eq (h : ShowsBut dropped current view) (hkept : ¬ dropped txid) :
    current.entry txid = view.entry txid := by
  obtain ⟨keep, he, hkeep⟩ := h.entry txid
  rw [he, keepFlag_eq_self_iff]
  exact fun _ => hkeep.mpr hkept

theorem ShowsBut.outputAt (h : ShowsBut dropped current view) :
    current.outputAt = view.outputAt := by
  funext out
  obtain ⟨keep, he, -⟩ := h.entry out.hash
  rw [CCoinsViewCache.outputAt, he]
  rfl

end CCoinsViewCache

open CCoinsViewCache (ShowsBut)

/-! ### Spending inputs -/

open CCoins (cleared)

/-- How the entries of a view change when outputs are spent. -/
structure Spent (before after : CCoinsViewCache) (outs : List COutPoint) : Prop where
  outAt : ∀ txid n, (after.entry txid).outAt n
    = if (⟨txid, n⟩ : COutPoint) ∈ outs then CTxOut.null else (before.entry txid).outAt n
  gone : ∀ txid, before.entry txid = cleared → after.entry txid = cleared
  flag : ∀ txid, after.entry txid = cleared ∨
    (after.entry txid).fCoinStake = (before.entry txid).fCoinStake

theorem Spent.flag_before (h : Spent before after outs)
    (hf : (after.entry txid).fCoinStake = true) : (before.entry txid).fCoinStake = true := by
  rcases h.flag txid with hgone | hs
  · rw [hgone] at hf
    cases hf
  · rw [← hs]
    exact hf

theorem Spent.refl (view : CCoinsViewCache) : Spent view view [] where
  outAt := by
    intro txid n
    simp
  gone := fun _ h => h
  flag := fun _ => .inr rfl

theorem Spent.trans (h₁ : Spent before mid [out]) (h₂ : Spent mid after outs) :
    Spent before after (out :: outs) where
  outAt := by
    intro txid n
    rw [h₂.outAt, h₁.outAt]
    by_cases hout : (⟨txid, n⟩ : COutPoint) = out
    · simp [hout]
    · simp [hout]
  gone := fun txid h => h₂.gone txid (h₁.gone txid h)
  flag := by
    intro txid
    rcases h₂.flag txid with hgone | hf
    · exact .inl hgone
    · rcases h₁.flag txid with hgone | hf'
      · exact .inl (h₂.gone txid hgone)
      · exact .inr (hf.trans hf')

namespace CCoins

theorem Clean.outAt_norm (h : coins.Clean) (n : Nat) : coins.norm.outAt n = coins.outAt n := by
  cases hp : coins.isPruned with
  | true =>
    rw [norm_of_pruned hp, h.isPruned_iff_outAt.mp hp n]
    rfl
  | false => rw [norm_of_not_pruned hp]

theorem Spends.not_pruned {n : Nat} (hc : coins.Clean) (h : coins.Spends n spent undo) :
    coins.isPruned = false := by
  by_contra hp
  have hnull := hc.isPruned_iff_outAt.mp (by simpa using hp) n
  have hav := h.available
  rw [hnull] at hav
  cases hav

/-- The undo data carries the flag where the last output of a coinstake is spent. -/
theorem Spends.undo_fCoinStake {n : Nat} (h : coins.Spends n spent undo) :
    undo.fCoinStake = true ↔ coins.fCoinStake = true ∧ spent.isPruned = true := by
  cases hp : spent.isPruned with
  | true =>
    rw [h.undo_last hp]
    simp
  | false =>
    rw [h.undo_other hp]
    simp

end CCoins

namespace CCoinsViewCache

theorem Sound.outputAt_eq (h : view.Sound) (out : COutPoint) :
    view.outputAt out = (view.coinsOf out.hash).outAt out.n :=
  (h.clean out.hash).outAt_norm out.n

theorem outputAt_setCoins (hc : coins.Clean) (out : COutPoint) :
    (view.setCoins txid coins).outputAt out =
      if out.hash = txid then coins.outAt out.n else view.outputAt out := by
  unfold outputAt
  rw [entry_setCoins, hc.cleanup_eq]
  by_cases htxid : out.hash = txid
  · rw [htxid, Function.update_self, if_pos rfl, hc.outAt_norm]
  · rw [Function.update_of_ne htxid, if_neg htxid]

end CCoinsViewCache

/-- An entry of a coinstake that the spends of a transaction empty. -/
def Lost (before after : CCoinsViewCache) (txid : uint256) : Prop :=
  (before.entry txid).fCoinStake = true ∧ after.entry txid = cleared

/-- Undo data that carries the coinstake flag of an entry. -/
def Flagged (txins : List CTxIn) (undos : CTxUndo) (txid : uint256) : Prop :=
  ∃ p ∈ txins.zip undos, p.1.prevout.hash = txid ∧ p.2.fCoinStake = true

section

variable (hv : view.Sound) (h : spendInput view txin = some (mid, undo))

include hv h

theorem spendInput_spec :
    ∃ spent, (view.coinsOf txin.prevout.hash).Spends txin.prevout.n spent undo ∧
      mid = view.setCoins txin.prevout.hash spent := by
  simp only [spendInput, Option.bind_eq_bind, Option.bind_eq_some_iff] at h
  obtain ⟨⟨spent, undo'⟩, hsp, hmid⟩ := h
  cases hmid
  exact ⟨spent, spend_spec (hv.clean _) hsp, rfl⟩

theorem spendInput_sound : mid.Sound := by
  obtain ⟨spent, hsp, rfl⟩ := spendInput_spec hv h
  refine hv.setCoins hsp.clean ?_
  intro _
  rw [hsp.nHeight]
  exact hv.created _ (hsp.not_pruned (hv.clean _))

theorem spendInput_spent : Spent view mid [txin.prevout] := by
  obtain ⟨spent, hsp, rfl⟩ := spendInput_spec hv h
  have hnot := hsp.not_pruned (hv.clean _)
  have he : view.entry txin.prevout.hash = view.coinsOf txin.prevout.hash :=
    norm_of_not_pruned hnot
  refine ⟨?_, ?_, ?_⟩
  all_goals
    intro txid
    rw [entry_setCoins, hsp.clean.cleanup_eq]
    by_cases htxid : txid = txin.prevout.hash
  · intro n
    rw [htxid, Function.update_self, hsp.clean.outAt_norm, hsp.outAt, he]
    by_cases hn : n = txin.prevout.n
    · simp [hn]
    · have hne : (⟨txin.prevout.hash, n⟩ : COutPoint) ≠ txin.prevout := by
        intro heq
        exact hn (congrArg COutPoint.n heq)
      simp [hn, hne]
  · intro n
    have hne : (⟨txid, n⟩ : COutPoint) ≠ txin.prevout := by
      intro heq
      exact htxid (congrArg COutPoint.hash heq)
    simp [Function.update_of_ne htxid, hne]
  · intro hclr
    rw [htxid, he] at hclr
    rw [hclr, isPruned_cleared] at hnot
    cases hnot
  · intro hclr
    rw [Function.update_of_ne htxid]
    exact hclr
  · rw [htxid, Function.update_self, he]
    cases hp : spent.isPruned with
    | true => exact .inl (norm_of_pruned hp)
    | false =>
      rw [norm_of_not_pruned hp]
      exact .inr hsp.fCoinStake
  · rw [Function.update_of_ne htxid]
    exact .inr rfl

theorem spendInput_lost (txid : uint256) :
    (txin.prevout.hash = txid ∧ undo.fCoinStake = true) ↔ Lost view mid txid := by
  obtain ⟨spent, hsp, rfl⟩ := spendInput_spec hv h
  have he : view.entry txin.prevout.hash = view.coinsOf txin.prevout.hash :=
    norm_of_not_pruned (hsp.not_pruned (hv.clean _))
  unfold Lost
  rw [hsp.undo_fCoinStake, entry_setCoins, hsp.clean.cleanup_eq]
  by_cases htxid : txid = txin.prevout.hash
  · rw [htxid, Function.update_self, he, norm_eq_cleared_iff]
    simp
  · rw [Function.update_of_ne htxid]
    constructor
    · intro hh
      exact absurd hh.1.symm htxid
    · intro hlost
      rw [hlost.2] at hlost
      cases hlost.1

/-- Restoring an input undoes its spend, but for a flag in the undo data. -/
theorem restoreInput_spendInput (hcur : ShowsBut dropped current mid) :
    ∃ restored, (∀ fClean, restoreInput current txin.prevout undo fClean = (restored, fClean)) ∧
      ShowsBut (fun txid => (txin.prevout.hash = txid ∧ undo.fCoinStake = true) ∨ dropped txid)
        restored view := by
  obtain ⟨spent, hsp, rfl⟩ := spendInput_spec hv h
  have hc := hv.clean txin.prevout.hash
  have hcr := hv.created _ (hsp.not_pruned hc)
  obtain ⟨hs, hos⟩ := hcur
  simp only [entry_setCoins, hsp.clean.cleanup_eq] at hos
  obtain ⟨keep, he, hkeep⟩ := hos txin.prevout.hash
  rw [Function.update_self] at he
  obtain ⟨restored, hr, hback⟩ := restored_spend hc hcr.ne' hsp he
  refine ⟨current.setCoins txin.prevout.hash restored, ?_, ?_, ?_⟩
  · intro fClean
    simp only [restoreInput, hr]
  · rw [← setCoins_cleanup, hback]
    exact hs.setCoins ⟨hc.trimmed, hc.nulls⟩ fun _ => hcr
  · intro txid
    rw [entry_setCoins, hback, norm_keepFlag]
    by_cases htxid : txid = txin.prevout.hash
    · rw [htxid, Function.update_self]
      exact ⟨_, rfl, by simp [hkeep, and_comm]⟩
    · obtain ⟨keep', he', hkeep'⟩ := hos txid
      rw [Function.update_of_ne htxid] at he' ⊢
      exact ⟨keep', he', by simp [hkeep', Ne.symm htxid]⟩

end

theorem spendInputs_cons (h : spendInputs view (txin :: rest) = some (after, undos)) :
    ∃ mid undo undos', spendInput view txin = some (mid, undo) ∧
      spendInputs mid rest = some (after, undos') ∧ undos = undo :: undos' := by
  simp only [spendInputs, Option.bind_eq_bind, Option.bind_eq_some_iff] at h
  obtain ⟨⟨mid, undo⟩, hfst, ⟨after', undos'⟩, hr, heq⟩ := h
  cases heq
  exact ⟨mid, undo, undos', hfst, hr, rfl⟩

theorem flagged_cons : Flagged (txin :: rest) (undo :: undos) txid ↔
      (txin.prevout.hash = txid ∧ undo.fCoinStake = true) ∨ Flagged rest undos txid := by
  simp [Flagged]

section

variable (hv : view.Sound) (h : spendInputs view txins = some (after, undos))

include h

theorem spendInputs_length : undos.length = txins.length := by
  induction txins generalizing view undos with
  | nil =>
    cases h
    rfl
  | cons txin rest ih =>
    obtain ⟨mid, undo, undos', -, hr, rfl⟩ := spendInputs_cons h
    simp [ih hr]

include hv

theorem spendInputs_sound : after.Sound := by
  induction txins generalizing view undos with
  | nil =>
    cases h
    exact hv
  | cons txin rest ih =>
    obtain ⟨mid, undo, undos', hfst, hr, -⟩ := spendInputs_cons h
    exact ih (spendInput_sound hv hfst) hr

theorem spendInputs_spent : Spent view after (txins.map CTxIn.prevout) := by
  induction txins generalizing view undos with
  | nil =>
    cases h
    exact Spent.refl _
  | cons txin rest ih =>
    obtain ⟨mid, undo, undos', hfst, hr, -⟩ := spendInputs_cons h
    exact (spendInput_spent hv hfst).trans (ih (spendInput_sound hv hfst) hr)

/-- **Where the flag is recorded.**  Exactly for the entries of coinstakes the spends empty. -/
theorem flagged_iff_lost (txid : uint256) : Flagged txins undos txid ↔ Lost view after txid := by
  induction txins generalizing view undos with
  | nil =>
    cases h
    constructor
    · intro hf
      obtain ⟨p, hp, -⟩ := hf
      cases hp
    · intro hlost
      have hfl := hlost.1
      rw [hlost.2] at hfl
      cases hfl
  | cons txin rest ih =>
    obtain ⟨mid, undo, undos', hfst, hr, rfl⟩ := spendInputs_cons h
    have hmid := spendInput_sound hv hfst
    have hsp := spendInput_spent hv hfst
    rw [flagged_cons, spendInput_lost hv hfst, ih hmid hr]
    constructor
    · rintro (⟨hfl, hgone⟩ | ⟨hfl, hgone⟩)
      · exact ⟨hfl, (spendInputs_spent hmid hr).gone txid hgone⟩
      · exact ⟨hsp.flag_before hfl, hgone⟩
    · rintro ⟨hfl, hgone⟩
      rcases hsp.flag txid with hclr | hs
      · exact .inl ⟨hfl, hclr⟩
      · exact .inr ⟨hs.trans hfl, hgone⟩

/--
**Restoring the inputs.**  From the entries the spends left, restoring from the last
input to the first leads back to the entries before them, but for the flags in the undo data.
-/
theorem restoreInputs_spendInputs (hcur : ShowsBut dropped current after) :
    ∃ restored, (∀ fClean, restoreInputs current fClean (txins.zip undos) = (restored, fClean)) ∧
      ShowsBut (fun txid => Flagged txins undos txid ∨ dropped txid) restored view := by
  induction txins generalizing view undos with
  | nil =>
    cases h
    exact ⟨current, fun _ => rfl, by simpa [Flagged] using hcur⟩
  | cons txin rest ih =>
    obtain ⟨mid, undo, undos', hfst, hre, rfl⟩ := spendInputs_cons h
    obtain ⟨later, hl, hs⟩ := ih (spendInput_sound hv hfst) hre
    obtain ⟨restored, hr, hback⟩ := restoreInput_spendInput hv hfst hs
    refine ⟨restored, ?_, ?_⟩
    · intro fClean
      simp [restoreInputs, hl, hr]
    · simpa only [flagged_cons, or_assoc] using hback

end

/-! ### The outputs of a transaction -/

/-- Null outputs that are really empty. -/
def CTransaction.NullsEmpty (tx : CTransaction) : Prop :=
  ∀ out ∈ tx.vout, out.isNull = true → out = CTxOut.null
  deriving Decidable

/-- Such outputs, and a version that is not negative. -/
structure CTransaction.Proper (tx : CTransaction) : Prop where
  nVersion : 0 ≤ tx.nVersion
  nulls : tx.NullsEmpty

namespace CCoins

theorem nulls_mask {vout : List CTxOut}
    (hnu : ∀ out ∈ vout, out.isNull = true → out = CTxOut.null) :
    ∀ out ∈ vout.map fun txout => if txout.scriptPubKey.isUnspendable then CTxOut.null else txout,
      out.isNull = true → out = CTxOut.null := by
  intro out hout hnull
  obtain ⟨txout, ht, rfl⟩ := mem_map.mp hout
  split at hnull
  case isTrue hun => rw [if_pos hun]
  case isFalse hun =>
    rw [if_neg hun]
    exact hnu txout ht hnull

theorem clearUnspendable_clean (hnu : ∀ out ∈ coins.vout, out.isNull = true → out = CTxOut.null)
    :
    coins.clearUnspendable.Clean :=
  cleanup_clean (nulls_mask hnu)

theorem clearUnspendable_idem (hnu : ∀ out ∈ coins.vout, out.isNull = true → out = CTxOut.null) :
    coins.clearUnspendable.clearUnspendable = coins.clearUnspendable := by
  have hc := clearUnspendable_clean hnu
  have hs : coins.clearUnspendable.vout.map
      (fun txout => if txout.scriptPubKey.isUnspendable then CTxOut.null else txout)
        = coins.clearUnspendable.vout := by
    refine (map_congr_left ?_).trans (map_id _)
    intro out hout
    obtain ⟨txout, -, rfl⟩ := mem_map.mp (( rdropWhile_prefix _ _).subset hout)
    by_cases hun : txout.scriptPubKey.isUnspendable = true
    · rw [if_pos hun]
      exact ite_self _
    · rw [if_neg hun, if_neg hun]
      rfl
  calc coins.clearUnspendable.clearUnspendable
      = coins.clearUnspendable.cleanup := by
        rw [clearUnspendable.eq_1 coins.clearUnspendable, hs]
    _ = coins.clearUnspendable := hc.cleanup_eq

theorem isPruned_clearUnspendable (h : coins.isPruned = true) :
    coins.clearUnspendable.isPruned = true := by
  unfold clearUnspendable
  rw [isPruned_cleanup]
  simp only [isPruned, all_eq_true, mem_map] at h ⊢
  rintro out ⟨txout, ht, rfl⟩
  split
  · rfl
  · exact h txout ht

section

variable (hnu : tx.NullsEmpty) (nHeight : Int)

include hnu

theorem fromTx_clean : (fromTx tx nHeight).Clean := clearUnspendable_clean hnu

theorem fromTx_clearUnspendable : (fromTx tx nHeight).clearUnspendable = fromTx tx nHeight :=
  clearUnspendable_idem hnu

end

end CCoins

/-- Nothing to complain about where the entry is the one the transaction added, with its flag. -/
theorem removeTxOutputs_clean_iff (htx : tx.Proper) {keep : Bool}
    (h : current.entry tx.hash = (fromTx tx nHeight).norm.keepFlag keep) :
    (removeTxOutputsFromCache tx nHeight current).2 = true ↔
      ((fromTx tx nHeight).norm.fCoinStake = true → keep = true) := by
  have hclr : (current.coinsOf tx.hash).clearUnspendable.norm =
      (fromTx tx nHeight).norm.keepFlag keep := by
    unfold entry at h
    cases hp : (current.coinsOf tx.hash).isPruned with
    | true => rw [← h, norm_of_pruned hp, norm_of_pruned (isPruned_clearUnspendable hp)]
    | false =>
      have hcns : current.coinsOf tx.hash = (fromTx tx nHeight).keepFlag keep := by
        rw [norm_of_not_pruned hp, ← norm_keepFlag] at h
        have hnot : ((fromTx tx nHeight).keepFlag keep).isPruned = false := by
          by_contra hyes
          rw [norm_of_pruned (by simpa using hyes)] at h
          rw [h, isPruned_cleared] at hp
          cases hp
        rwa [norm_of_not_pruned hnot] at h
      have hs : ((fromTx tx nHeight).keepFlag keep).clearUnspendable =
          (fromTx tx nHeight).clearUnspendable.keepFlag keep := rfl
      rw [hcns, hs, fromTx_clearUnspendable htx.nulls, norm_keepFlag]
  have hver : ¬ (fromTx tx nHeight).nVersion < 0 := not_lt.mpr htx.nVersion
  simp only [removeTxOutputsFromCache, if_neg hver]
  rw [equal_iff, hclr, keepFlag_eq_self_iff]

/-! ### One transaction -/

/-- The inputs a transaction spends: a coinbase has none. -/
def spentInputs (tx : CTransaction) : List CTxIn :=
  if tx.isCoinBase then [] else tx.vin

theorem updateCoins_spec (h : updateCoinsWithTransaction tx nHeight view = some (after, undos)) :
    ∃ mid, spendInputs view (spentInputs tx) = some (mid, undos) ∧
      after = mid.setCoins tx.hash (fromTx tx nHeight) := by
  unfold spentInputs
  by_cases hbase : tx.isCoinBase = true
  · simp only [updateCoinsWithTransaction, hbase, if_true, Option.bind_eq_bind,
      Option.bind_some] at h
    cases h
    exact ⟨view, by rw [if_pos hbase]; rfl, rfl⟩
  · simp only [updateCoinsWithTransaction, hbase, Bool.false_eq_true, if_false,
      Option.bind_eq_bind, Option.bind_eq_some_iff] at h
    obtain ⟨⟨mid, undos'⟩, hsp, ha⟩ := h
    cases ha
    exact ⟨mid, by rw [if_neg hbase]; exact hsp, rfl⟩

/-- The reversal with undo data that fits the inputs. -/
theorem reversing_eq (hlen : undos.length = (spentInputs tx).length) :
    updateCoinsReversingTransaction tx nHeight current (some undos) =
      let removed := removeTxOutputsFromCache tx nHeight current
      let restored := restoreInputs removed.1 removed.2 ((spentInputs tx).zip undos)
      some (restored.1, if restored.2 then .OK else .CONTINUE_WITH_ERRORS) := by
  unfold updateCoinsReversingTransaction
  by_cases hbase : tx.isCoinBase = true
  · simp [spentInputs, hbase, restoreInputs]
  · simp only [spentInputs, hbase] at hlen ⊢
    simp [hlen]

section

variable (h : updateCoinsWithTransaction tx nHeight view = some (after, undos))

include h

theorem updateCoins_sound (hnu : tx.NullsEmpty) (hht : 0 < nHeight) (hv : view.Sound) :
    after.Sound := by
  obtain ⟨mid, hsp, rfl⟩ := updateCoins_spec h
  exact (spendInputs_sound hv hsp).setCoins (fromTx_clean hnu nHeight) (fun _ => hht)

theorem updateCoins_entry (hnu : tx.NullsEmpty)
    (hmid : spendInputs view (spentInputs tx) = some (mid, undos)) :
    after.entry = Function.update mid.entry tx.hash (fromTx tx nHeight).norm := by
  obtain ⟨mid', hsp, rfl⟩ := updateCoins_spec h
  rw [hmid] at hsp
  cases hsp
  rw [entry_setCoins, (fromTx_clean hnu nHeight).cleanup_eq]

/--
**Taking a transaction back.**  From the entries it left, the reversal leads back to the entries
before it, but for the flags in the undo data, and the outputs it removes are all it may
complain about.
-/
theorem reversing_shows (hv : view.Sound) (hnu : tx.NullsEmpty)
    (hf : view.entry tx.hash = cleared) (hcur : ShowsBut dropped current after) :
    ∃ restored, updateCoinsReversingTransaction tx nHeight current (some undos) =
        some (restored, if (removeTxOutputsFromCache tx nHeight current).2 then .OK
          else .CONTINUE_WITH_ERRORS) ∧
      ShowsBut (fun txid => Flagged (spentInputs tx) undos txid ∨ dropped txid) restored view := by
  obtain ⟨mid, hsp, -⟩ := updateCoins_spec h
  -- removing the outputs leaves the entries after the spends, since there was none before
  have hclr : (removeTxOutputsFromCache tx nHeight current).1.entry =
    Function.update current.entry tx.hash cleared := entry_setCoins _ _ _
  have hr : ShowsBut dropped (removeTxOutputsFromCache tx nHeight current).1 mid := by
    refine ⟨hcur.sound.setCoins cleared_clean nofun, fun txid => ?_⟩
    obtain ⟨keep, he, hkeep⟩ := hcur.entry txid
    refine ⟨keep, ?_, hkeep⟩
    rw [updateCoins_entry h hnu hsp] at he
    rw [hclr]
    by_cases htxid : txid = tx.hash
    · rw [htxid, Function.update_self, (spendInputs_spent hv hsp).gone tx.hash hf]
      rfl
    · rwa [Function.update_of_ne htxid] at he ⊢
  obtain ⟨restored, hre, hback⟩ := restoreInputs_spendInputs hv hsp hr
  refine ⟨restored, ?_, hback⟩
  rw [reversing_eq (spendInputs_length hsp)]
  simp only [hre]

/-- The outputs of a transaction are accepted unless the flag of a coinstake is lost. -/
theorem removeTxOutputs_of_shows (htx : tx.Proper) (hcur : ShowsBut dropped current after) :
    (removeTxOutputsFromCache tx nHeight current).2 = true ↔
      ((fromTx tx nHeight).norm.fCoinStake = true → ¬ dropped tx.hash) := by
  obtain ⟨mid, hsp, -⟩ := updateCoins_spec h
  obtain ⟨keep, he, hkeep⟩ := hcur.entry tx.hash
  rw [updateCoins_entry h htx.nulls hsp, Function.update_self] at he
  rw [removeTxOutputs_clean_iff htx he, hkeep]

end

end Divi
