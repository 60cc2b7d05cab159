/-
The value of all unspent outputs, and how a transaction changes it.

Spending removes the value of the inputs; adding a transaction's outputs adds at most
their value, since outputs that cannot be spent are dropped, and whatever had the same
id before is overwritten.
-/
import Divi.Proofs.TransactionReversal
import Divi.Validation

namespace Divi

open CTxOut List Option

variable {out : CTxOut} {n : Nat} {spent coins : CCoins} {undo : CTxInUndo} {tx : CTransaction}
  {txins : List CTxIn} {nHeight maxMoney : Int} {txid : uint256} {outs : List CTxOut}
  {undos : CTxUndo}

/-- What an entry of a list of outputs is worth: nothing once it is spent. -/
def CTxOut.worth (out : CTxOut) : Int :=
  if out.isNull then 0 else out.nValue

theorem CTxOut.worth_of_isNull (out : CTxOut) (h : out.isNull = true) : out.worth = 0 := if_pos h

theorem CTxOut.worth_of_not_null (h : out.isNull = false) : out.worth = out.nValue := by
  rw [worth, h]
  exact if_neg Bool.false_ne_true

/-! ### The coins of one transaction -/

namespace CCoins

def unspentValue (coins : CCoins) : Int :=
  (coins.vout.map CTxOut.worth).sum

/-- An output that is there and not spent. -/
def HasOutput (coins : CCoins) (n : Nat) (out : CTxOut) : Prop :=
  coins.vout[n]? = some out ∧ out.isNull = false

theorem unspentValue_cleanup (coins : CCoins) : coins.cleanup.unspentValue = coins.unspentValue :=
  Trimmed.sum_rdropWhile worth_of_isNull coins.vout

theorem unspentValue_norm (coins : CCoins) : coins.norm.unspentValue = coins.unspentValue := by
  cases h : coins.isPruned with
  | false => rw [norm_of_not_pruned h]
  | true =>
    rw [norm_of_pruned h]
    exact (Trimmed.sum_eq_zero_of_blank worth_of_isNull h).symm

theorem HasOutput.of_cleanup (h : coins.cleanup.HasOutput n out) : coins.HasOutput n out := by
  refine ⟨?_, h.2⟩
  obtain ⟨dropped, hd⟩ := rdropWhile_prefix isNull coins.vout
  have hkept : (coins.vout.rdropWhile isNull)[n]? = some out := h.1
  obtain ⟨hlt, -⟩ := List.getElem?_eq_some_iff.mp hkept
  rw [← hd, List.getElem?_append_left hlt]
  exact hkept

theorem HasOutput.of_norm (h : coins.norm.HasOutput n out) : coins.HasOutput n out := by
  cases hp : coins.isPruned with
  | false =>
    rw [norm_of_not_pruned hp] at h
    exact h
  | true =>
    rw [norm_of_pruned hp] at h
    cases h.1

theorem spend_eq (h : coins.spend n = some (spent, undo)) : coins.HasOutput n undo.txout ∧
      spent = cleanup { coins with vout := coins.vout.set n null } := by
  revert h
  fun_cases spend coins n with
  | case1 | case2 => nofun
  | case3 out hout hnull | case4 out hout hnull =>
    intro h
    obtain ⟨rfl, rfl⟩ := Prod.mk.inj (Option.some.inj h)
    exact ⟨⟨hout, by simpa using hnull⟩, rfl⟩

theorem unspentValue_spend (h : coins.spend n = some (spent, undo)) :
    spent.unspentValue = coins.unspentValue - undo.txout.nValue := by
  obtain ⟨⟨hout, hnull⟩, rfl⟩ := spend_eq h
  have hset := Trimmed.sum_set worth hout null
  rw [worth_of_not_null hnull, worth_of_isNull null rfl] at hset
  rw [unspentValue_cleanup]
  simp only [unspentValue]
  omega

theorem HasOutput.of_spend {i : Nat} (h : coins.spend n = some (spent, undo))
    (hout : spent.HasOutput i out) : coins.HasOutput i out := by
  obtain ⟨-, rfl⟩ := spend_eq h
  obtain ⟨hget, hnull⟩ := hout.of_cleanup
  refine ⟨?_, hnull⟩
  rw [List.getElem?_set] at hget
  split at hget
  · split at hget
    · cases hget
      cases hnull
    · cases hget
  · exact hget

/-- Of a transaction's outputs, the ones that can be spent are added. -/
theorem HasOutput.of_fromTx (h : (fromTx tx nHeight).HasOutput n out) : out ∈ tx.vout := by
  obtain ⟨hget, hnull⟩ := h.of_cleanup
  obtain ⟨txout, hmem, heq⟩ := mem_map.mp (mem_of_getElem? hget)
  split at heq
  · rw [← heq] at hnull
    cases hnull
  · rw [← heq]
    exact hmem

theorem unspentValue_fromTx_le (h : ∀ out ∈ tx.vout, 0 ≤ out.nValue) (nHeight : Int) :
    (fromTx tx nHeight).unspentValue ≤ totalValue tx.vout := by
  rw [fromTx, clearUnspendable, unspentValue_cleanup, unspentValue, totalValue, List.map_map]
  refine List.sum_le_sum ?_
  intro out hout
  have hnn := h out hout
  simp only [Function.comp_apply]
  split
  · exact hnn
  · unfold worth
    split
    · exact hnn
    · exact le_refl _

theorem unspentValue_nonneg (h : ∀ n out, coins.HasOutput n out → 0 ≤ out.nValue) :
    0 ≤ coins.unspentValue := by
  refine sum_nonneg ?_
  intro value hv
  obtain ⟨out, hout, rfl⟩ := mem_map.mp hv
  cases hnull : out.isNull with
  | true =>
    rw [worth_of_isNull out hnull]
  | false =>
    obtain ⟨n, hn⟩ := mem_iff_getElem?.mp hout
    rw [worth_of_not_null hnull]
    exact h n out ⟨hn, hnull⟩

end CCoins

/-! ### The view -/

namespace CCoinsViewCache

variable {view mid after : CCoinsViewCache}

/-- The value of all unspent outputs. -/
def unspentTotal (view : CCoinsViewCache) : Int :=
  ∑ txid ∈ view.cacheCoins.keys, (view.coinsOf txid).unspentValue

/-- Every unspent output is worth an amount up to the maximum. -/
def ValuesInRange (view : CCoinsViewCache) (maxMoney : Int) : Prop :=
  ∀ txid n out, (view.coinsOf txid).HasOutput n out → moneyRange out.nValue maxMoney = true

theorem unspentValue_of_not_mem (h : txid ∉ view.cacheCoins.keys) :
    (view.coinsOf txid).unspentValue = 0 := by
  rw [coinsOf, accessCoins, Finmap.lookup_eq_none.mpr h]
  rfl

/-- The sum may run over any ids that include those of the view. -/
theorem unspentTotal_eq_sum (view : CCoinsViewCache) {ids : Finset uint256}
    (h : view.cacheCoins.keys ⊆ ids) :
    view.unspentTotal = ∑ txid ∈ ids, (view.coinsOf txid).unspentValue :=
  Finset.sum_subset h fun _ _ hnot => unspentValue_of_not_mem hnot

theorem unspentTotal_setCoins (view : CCoinsViewCache) (txid : uint256) (coins : CCoins) :
    (view.setCoins txid coins).unspentTotal
      = view.unspentTotal - (view.coinsOf txid).unspentValue + coins.unspentValue := by
  have hmem : txid ∈ insert txid
      (view.cacheCoins.keys ∪ (view.setCoins txid coins).cacheCoins.keys) :=
    Finset.mem_insert_self ..
  rw [view.unspentTotal_eq_sum (Finset.subset_union_left.trans (Finset.subset_insert ..)),
    (view.setCoins txid coins).unspentTotal_eq_sum
      (Finset.subset_union_right.trans (Finset.subset_insert ..)),
    ← Finset.add_sum_erase _ _ hmem, ← Finset.add_sum_erase _ _ hmem, coinsOf_setCoins_self,
    CCoins.unspentValue_norm, CCoins.unspentValue_cleanup]
  have hr : ∀ other ∈ (insert txid
      (view.cacheCoins.keys ∪ (view.setCoins txid coins).cacheCoins.keys)).erase txid,
      ((view.setCoins txid coins).coinsOf other).unspentValue
        = (view.coinsOf other).unspentValue := by
    intro other ho
    rw [coinsOf_setCoins_of_ne view coins (Finset.ne_of_mem_erase ho)]
  rw [Finset.sum_congr rfl hr]
  omega

/-- What is in the view after coins were stored was stored, or was there before. -/
theorem HasOutput_setCoins {other : uint256}
    (h : ((view.setCoins txid coins).coinsOf other).HasOutput n out) :
    (other = txid ∧ coins.HasOutput n out) ∨ (view.coinsOf other).HasOutput n out := by
  by_cases ho : other = txid
  · rw [ho, coinsOf_setCoins_self] at h
    exact .inl ⟨ho, h.of_norm.of_cleanup⟩
  · rw [coinsOf_setCoins_of_ne view coins ho] at h
    exact .inr h

theorem getOutputFor_eq_some {input : CTxIn} : view.getOutputFor input = some out ↔
      (view.coinsOf input.prevout.hash).HasOutput input.prevout.n out := by
  unfold getOutputFor coinsOf CCoins.HasOutput CCoins.isAvailable
  cases ha : view.accessCoins input.prevout.hash with
  | none => simp [CCoins.cleared]
  | some coins =>
    cases hget : coins.vout[input.prevout.n]? with
    | none => simp [hget]
    | some found =>
      cases hnull : found.isNull with
      | true =>
        simp only [hget, hnull, getD_some, Option.some.injEq]
        constructor
        · intro hno
          cases hno
        · intro ⟨heq, hnot⟩
          rw [← heq, hnull] at hnot
          cases hnot
      | false =>
        simp only [hget, hnull, getD_some, Option.some.injEq, Bool.not_false, if_true]
        constructor
        · intro heq
          exact ⟨heq, heq ▸ hnull⟩
        · intro h
          exact h.1

/-! ### Spending -/

/--
What spending outputs does: the ones spent were in the view, their value is gone from
the total, and nothing else appeared.
-/
structure Removed (before after : CCoinsViewCache) (txins : List CTxIn) (outs : List CTxOut) :
    Prop where
  spent : txins.mapM before.getOutputFor = some outs
  total : after.unspentTotal = before.unspentTotal - totalValue outs
  kept : ∀ txid n out, (after.coinsOf txid).HasOutput n out → (before.coinsOf txid).HasOutput n out

theorem spendInput_removed {txin : CTxIn} (h : spendInput view txin = some (mid, undo)) :
    Removed view mid [txin] [undo.txout] := by
  obtain ⟨⟨coins, undo'⟩, hsp, hmid⟩ := bind_eq_some_iff.mp h
  cases hmid
  have hout := (CCoins.spend_eq hsp).1
  refine ⟨?_, ?_, ?_⟩
  · rw [mapM_cons, getOutputFor_eq_some.mpr hout]
    rfl
  · rw [unspentTotal_setCoins, CCoins.unspentValue_spend hsp, totalValue_cons, totalValue_nil]
    omega
  · intro txid n out hkept
    rcases HasOutput_setCoins hkept with ⟨rfl, hs⟩ | hpre
    · exact CCoins.HasOutput.of_spend hsp hs
    · exact hpre

/-- Reading outputs that are still there gives what was there before. -/
theorem mapM_getOutputFor_of_kept (hkept : ∀ txid n out, (mid.coinsOf txid).HasOutput n out →
      (view.coinsOf txid).HasOutput n out) (h : txins.mapM mid.getOutputFor = some outs) :
    txins.mapM view.getOutputFor = some outs := by
  induction txins generalizing outs with
  | nil => exact h
  | cons txin rest ih =>
    simp only [mapM_cons, bind_eq_bind, bind_eq_some_iff] at h ⊢
    obtain ⟨out, hout, outs', houts', heq⟩ := h
    exact ⟨out, getOutputFor_eq_some.mpr (hkept _ _ _ (getOutputFor_eq_some.mp hout)), outs',
      ih houts', heq⟩

theorem spendInputs_removed (h : spendInputs view txins = some (after, undos)) :
    Removed view after txins (undos.map CTxInUndo.txout) := by
  induction txins generalizing view undos with
  | nil =>
    cases h
    exact ⟨rfl, by simp, fun _ _ _ hout => hout⟩
  | cons txin rest ih =>
    obtain ⟨mid, undo, undos', hfst, hr, rfl⟩ := spendInputs_cons h
    have hone := spendInput_removed hfst
    have hos := ih hr
    refine ⟨?_, ?_, fun txid n out hout => hone.kept _ _ _ (hos.kept _ _ _ hout)⟩
    · obtain ⟨out, hout, hnil⟩ := bind_eq_some_iff.mp hone.spent
      rw [mapM_cons, hout, mapM_getOutputFor_of_kept hone.kept hos.spent]
      cases hnil
      rfl
    · have htot := hone.total
      have htot' := hos.total
      rw [map_cons, totalValue_cons]
      rw [totalValue_cons, totalValue_nil] at htot
      omega

theorem Removed.valuesInRange (h : Removed view after txins outs)
    (hv : view.ValuesInRange maxMoney) :
    after.ValuesInRange maxMoney :=
  fun txid n out hout => hv txid n out (h.kept txid n out hout)

/-! ### A whole transaction -/

/-- Adding the outputs of a transaction adds at most their value. -/
theorem updateCoins_total (hvi : view.ValuesInRange maxMoney)
    (houts : ∀ out ∈ tx.vout, moneyRange out.nValue maxMoney = true) {value : Int}
    (hv : view.getValueIn tx = some value)
    (h : updateCoinsWithTransaction tx nHeight view = some (after, undos)) :
    after.unspentTotal ≤ view.unspentTotal + (totalValue tx.vout - value) ∧
      after.ValuesInRange maxMoney := by
  obtain ⟨mid, hs, rfl⟩ := updateCoins_spec h
  have hr := spendInputs_removed hs
  have hmid := hr.valuesInRange hvi
  have hin : totalValue (undos.map CTxInUndo.txout) = value := by
    have hsp := hr.spent
    unfold spentInputs at hsp
    unfold getValueIn at hv
    by_cases hbase : tx.isCoinBase = true
    · rw [if_pos hbase] at hsp hv
      have hn : [] = undos.map CTxInUndo.txout := Option.some.inj hsp
      rw [← hn]
      exact Option.some.inj hv
    · rw [if_neg hbase] at hsp hv
      rw [hsp] at hv
      exact Option.some.inj hv
  constructor
  · have ha := CCoins.unspentValue_fromTx_le
      (fun out hout => (moneyRange_iff.mp (houts out hout)).1) nHeight
    have hover : 0 ≤ (mid.coinsOf tx.hash).unspentValue :=
      CCoins.unspentValue_nonneg fun n out hout => (moneyRange_iff.mp (hmid tx.hash n out hout)).1
    have htot := hr.total
    rw [unspentTotal_setCoins]
    omega
  · intro txid n out hout
    rcases HasOutput_setCoins hout with ⟨-, hnew⟩ | hold
    · exact houts out hnew.of_fromTx
    · exact hmid txid n out hold

end CCoinsViewCache

end Divi
