/-
Spending an output and restoring it.

Coins are read through `outAt`: the output at a position, null where there is none.
For coins in cleaned-up form that, with the other fields, determines them, and a spend
or a restoration changes what is read at one position only.  The one thing that does
not come back is the coinstake flag of coins whose last output was spent.
-/
import Divi.Utxo
import Divi.Lib.Trimmed

namespace Divi

open CTxOut List Option

/-! ### Cleaned-up coins -/

namespace CCoins

variable {coins spent current : CCoins} {undo : CTxInUndo}

/-- The output at a position, null if it is spent or was never there. -/
def outAt (coins : CCoins) (n : Nat) : CTxOut :=
  coins.vout.getD n CTxOut.null

/-- Null outputs are really empty, and none of them is at the end. -/
structure Clean (coins : CCoins) : Prop where
  trimmed : coins.vout.rdropWhile CTxOut.isNull = coins.vout
  nulls : ∀ out ∈ coins.vout, out.isNull = true → out = CTxOut.null

/-- Coins without unspent outputs are all alike. -/
def norm (coins : CCoins) : CCoins :=
  if coins.isPruned then cleared else coins

theorem null_isNull : null.isNull = true := rfl

theorem isPruned_cleared : cleared.isPruned = true := rfl

@[simp] theorem norm_cleared : cleared.norm = cleared := rfl

theorem norm_of_not_pruned (h : coins.isPruned = false) : coins.norm = coins := by
  simp [norm, h]

theorem norm_of_pruned (h : coins.isPruned = true) : coins.norm = cleared := by
  simp [norm, h]

theorem norm_eq_cleared_iff : coins.norm = cleared ↔ coins.isPruned = true := by
  constructor
  · intro h
    by_contra hnot
    rw [norm_of_not_pruned (by simpa using hnot)] at h
    rw [h] at hnot
    exact hnot isPruned_cleared
  · exact norm_of_pruned

/-- `operator==` compares the normal forms. -/
theorem equal_iff (a b : CCoins) : a.equal b = true ↔ a.norm = b.norm := by
  unfold equal
  by_cases ha : a.isPruned = true
  · by_cases hb : b.isPruned = true
    · simp [ha, hb, norm]
    · have hne : a ≠ b := by
        intro heq
        exact hb (heq ▸ ha)
      have hnorm : cleared ≠ b := by
        intro heq
        exact hb (heq ▸ isPruned_cleared)
      simp [ha, hb, norm, hne, hnorm]
  · by_cases hb : b.isPruned = true
    · have hne : a ≠ b := by
        intro heq
        exact ha (heq ▸ hb)
      have hnorm : a ≠ cleared := by
        intro heq
        exact ha (heq ▸ isPruned_cleared)
      simp [ha, hb, norm, hne, hnorm]
    · simp [ha, hb, norm]

theorem isAvailable_iff (coins : CCoins) (n : Nat) :
    coins.isAvailable n = true ↔ (coins.outAt n).isNull = false := by
  unfold isAvailable outAt
  rw [getD_eq_getElem?_getD]
  cases coins.vout[n]? with
  | none => simp [isNull, null]
  | some out => simp

theorem outAt_cleanup (hn : ∀ out ∈ coins.vout, out.isNull = true → out = null)
    (n : Nat) : coins.cleanup.outAt n = coins.outAt n :=
  Trimmed.getD_rdropWhile hn n

theorem cleanup_clean (hn : ∀ out ∈ coins.vout, out.isNull = true → out = null) :
    coins.cleanup.Clean where
  trimmed := rdropWhile_idempotent _ _
  nulls := fun out hout hnull => hn out (( rdropWhile_prefix _ _).subset hout) hnull

theorem Clean.cleanup_eq (h : coins.Clean) : coins.cleanup = coins := by
  simp only [cleanup, h.trimmed]

theorem isPruned_cleanup : coins.cleanup.isPruned = coins.isPruned := by
  have hiff : coins.cleanup.isPruned = true ↔ coins.isPruned = true := by
    simp only [isPruned, List.all_eq_true]
    constructor
    · intro h
      refine List.rdropWhile_eq_nil_iff.mp ?_
      by_contra hne
      exact List.rdropWhile_last_not _ _ hne (h _ (List.getLast_mem hne))
    · intro h out hout
      exact h out ((List.rdropWhile_prefix _ _).subset hout)
  exact Bool.eq_iff_iff.mpr hiff

theorem Clean.isPruned_iff (h : coins.Clean) : coins.isPruned = true ↔ coins.vout = [] := by
  rw [isPruned, List.all_eq_true, ← List.rdropWhile_eq_nil_iff, h.trimmed]

theorem Clean.isPruned_iff_outAt (h : coins.Clean) :
    coins.isPruned = true ↔ ∀ n, coins.outAt n = null := by
  have hnil := Trimmed.rdropWhile_eq_nil_iff null_isNull h.nulls
  rw [h.trimmed] at hnil
  rw [h.isPruned_iff]
  exact hnil

theorem Clean.outAt_null (h : coins.Clean) {n : Nat} (hnull : (coins.outAt n).isNull = true) :
    coins.outAt n = null := by
  unfold outAt at hnull ⊢
  rw [getD_eq_getElem?_getD] at hnull ⊢
  cases hget : coins.vout[n]? with
  | none => rfl
  | some out =>
    rw [hget] at hnull
    exact h.nulls out (mem_of_getElem? hget) hnull

theorem cleared_clean : cleared.Clean where
  trimmed := rfl
  nulls := by
    intro out hout
    cases hout

theorem Clean.norm (h : coins.Clean) : coins.norm.Clean := by
  unfold CCoins.norm
  split
  · exact cleared_clean
  · exact h

/-- Cleaned-up coins are determined by their fields and what is read from them. -/
theorem Clean.ext {a b : CCoins} (ha : a.Clean) (hb : b.Clean) (hbase : a.fCoinBase = b.fCoinBase)
    (hs : a.fCoinStake = b.fCoinStake) (hht : a.nHeight = b.nHeight)
    (hver : a.nVersion = b.nVersion) (hout : ∀ n, a.outAt n = b.outAt n) : a = b := by
  have hvout : a.vout = b.vout := Trimmed.ext null_isNull ha.trimmed hb.trimmed hout
  cases a
  cases b
  simp only at hbase hs hht hver hvout
  simp only [hbase, hs, hht, hver, hvout]

/-! ### Spending -/

/-- What a spend does to cleaned-up coins, and what it records. -/
structure Spends (coins : CCoins) (n : Nat) (spent : CCoins) (undo : CTxInUndo) : Prop where
  available : (coins.outAt n).isNull = false
  clean : spent.Clean
  outAt : ∀ i, spent.outAt i = if i = n then CTxOut.null else coins.outAt i
  fCoinBase : spent.fCoinBase = coins.fCoinBase
  fCoinStake : spent.fCoinStake = coins.fCoinStake
  nHeight : spent.nHeight = coins.nHeight
  nVersion : spent.nVersion = coins.nVersion
  undo_last : spent.isPruned = true → undo =
    ⟨coins.outAt n, coins.fCoinBase, coins.fCoinStake, coins.nHeight, coins.nVersion⟩
  undo_other : spent.isPruned = false → undo = { txout := coins.outAt n }

theorem spend_spec (h : coins.Clean) {n : Nat} (hsp : coins.spend n = some (spent, undo)) :
    coins.Spends n spent undo := by
  unfold spend at hsp
  cases hget : coins.vout[n]? with
  | none =>
    rw [hget] at hsp
    cases hsp
  | some out =>
    obtain ⟨hlt, -⟩ := List.getElem?_eq_some_iff.mp hget
    have hout : coins.outAt n = out := by
      rw [CCoins.outAt, getD_eq_getElem?_getD, hget, getD_some]
    have hn : ∀ o ∈ coins.vout.set n null, o.isNull = true → o = null := by
      intro o ho hnull
      rcases mem_or_eq_of_mem_set ho with hmem | heq
      · exact h.nulls o hmem hnull
      · exact heq
    have hs : (cleanup { coins with vout := coins.vout.set n null }).Clean :=
      cleanup_clean hn
    simp only [hget] at hsp
    split at hsp
    case isTrue => cases hsp
    case isFalse hnot =>
      have hr : ∀ i, (cleanup { coins with vout := coins.vout.set n null }).outAt i
          = if i = n then null else coins.outAt i := by
        intro i
        rw [outAt_cleanup hn]
        show (coins.vout.set n null).getD i null = _
        rw [Trimmed.getD_set]
        simp only [hlt, and_true]
        rfl
      have he := isEmpty_iff.trans hs.isPruned_iff.symm
      split at hsp
      case isTrue hvout =>
        have hp := he.mp hvout
        cases hsp
        refine ⟨by rw [hout]; simpa using hnot, hs, hr, rfl, rfl, rfl, rfl, ?_, ?_⟩
        · intro _
          rw [hout]
        · intro hno
          rw [hno] at hp
          cases hp
      case isFalse hvout =>
        have hp := mt he.mpr hvout
        cases hsp
        refine ⟨by rw [hout]; simpa using hnot, hs, hr, rfl, rfl, rfl, rfl, ?_, ?_⟩
        · intro hyes
          exact absurd hyes hp
        · intro _
          rw [hout]

/-! ### Restoring -/

theorem resizeOutputs_length (vout : List CTxOut) (n : Nat) :
    n < (resizeOutputs vout (n + 1)).length := by
  simp only [resizeOutputs, length_append, length_replicate]
  omega

/-- What is read after an output is put back, whatever the coins were before. -/
theorem outAt_restored (coins : CCoins) (n : Nat) (out : CTxOut) (i : Nat) :
    ({ coins with vout := (resizeOutputs coins.vout (n + 1)).set n out } : CCoins).outAt i
      = if i = n then out else coins.outAt i := by
  show ((resizeOutputs coins.vout (n + 1)).set n out).getD i null = _
  rw [Trimmed.getD_set]
  simp only [resizeOutputs_length, and_true]
  rw [resizeOutputs, Trimmed.getD_append_replicate]
  rfl

theorem nulls_restored (h : coins.Clean) (n : Nat) {out : CTxOut} (hout : out.isNull = false) :
    ∀ o ∈ (resizeOutputs coins.vout (n + 1)).set n out, o.isNull = true → o = null := by
  intro o ho hnull
  rcases mem_or_eq_of_mem_set ho with hmem | heq
  · rcases mem_append.mp hmem with hmem | hmem
    · exact h.nulls o hmem hnull
    · exact eq_of_mem_replicate hmem
  · rw [heq, hout] at hnull
    cases hnull

/-- The output is put back into coins that show what the spend left. -/
theorem Spends.outAt_restored {n : Nat} (h : coins.Spends n spent undo)
    (hs : ∀ i, current.outAt i = spent.outAt i) (i : Nat) :
    ({ current with vout := (resizeOutputs current.vout (n + 1)).set n (coins.outAt n) } :
      CCoins).outAt i = coins.outAt i := by
  rw [CCoins.outAt_restored]
  by_cases hi : i = n
  · rw [if_pos hi, hi]
  · rw [if_neg hi, hs, h.outAt, if_neg hi]

/-- Where nothing is left, cleared coins show it. -/
theorem Clean.outAt_cleared (h : coins.Clean) (hp : coins.isPruned = true) (i : Nat) :
    cleared.outAt i = coins.outAt i :=
  (h.isPruned_iff_outAt.mp hp i).symm

/-- Coins that keep the coinstake flag, if they have it, or lose it. -/
def keepFlag (keep : Bool) (coins : CCoins) : CCoins :=
  { coins with fCoinStake := coins.fCoinStake && keep }

theorem norm_keepFlag (keep : Bool) (coins : CCoins) :
    (coins.keepFlag keep).norm = coins.norm.keepFlag keep := by
  cases hp : coins.isPruned with
  | true =>
    rw [norm_of_pruned hp]
    exact norm_of_pruned hp
  | false =>
    rw [norm_of_not_pruned hp]
    exact norm_of_not_pruned hp

theorem keepFlag_eq_self_iff (keep : Bool) (coins : CCoins) :
    coins.keepFlag keep = coins ↔ (coins.fCoinStake = true → keep = true) := by
  obtain ⟨fCoinBase, fCoinStake, vout, nHeight, nVersion⟩ := coins
  simp [keepFlag]

/--
**Restoring a spent output.**  On any coins that look like the ones the spend left, but perhaps
for the flag, the recorded data brings back the coins from before it and reports no problem.
The flag gets lost where the recorded data carries it.
-/
theorem restored_spend {out : COutPoint} {keep : Bool} (hc : coins.Clean) (hht : coins.nHeight ≠ 0)
    (hsp : coins.Spends out.n spent undo) (hcu : current.norm = spent.norm.keepFlag keep) :
    ∃ restored, (∀ fClean, updateCoinsForRestoredInputs out undo current fClean =
        (restored, fClean)) ∧
      restored.cleanup = coins.keepFlag (keep && !undo.fCoinStake) := by
  have hcns : (coins.keepFlag (keep && !undo.fCoinStake)).Clean := ⟨hc.trimmed, hc.nulls⟩
  cases hp : spent.isPruned with
  | true =>
    obtain rfl := hsp.undo_last hp
    have hcur : current.isPruned = true := by
      rw [← norm_eq_cleared_iff, hcu, norm_of_pruned hp]
      rfl
    refine ⟨_, fun fClean => by
      simp only [updateCoinsForRestoredInputs, hht, ne_eq, not_false_eq_true, if_true, hcur,
        Bool.and_true]
      exact congrArg _ (Bool.and_true fClean), ?_⟩
    have hn := nulls_restored cleared_clean out.n hsp.available
    have hf : (coins.fCoinStake && (keep && !coins.fCoinStake)) = false := by
      cases coins.fCoinStake <;> simp
    refine Clean.ext (cleanup_clean hn) hcns rfl hf.symm rfl rfl ?_
    intro i
    rw [outAt_cleanup hn]
    exact hsp.outAt_restored (hsp.clean.outAt_cleared hp) i
  | false =>
    obtain rfl := hsp.undo_other hp
    have hcur : current = spent.keepFlag keep := by
      rw [norm_of_not_pruned hp] at hcu
      have hnot : current.isPruned = false := by
        by_contra hyes
        rw [norm_of_pruned (by simpa using hyes)] at hcu
        have hlike := congrArg isPruned hcu
        exact absurd (hlike.trans hp) (by decide)
      rwa [norm_of_not_pruned hnot] at hcu
    have hgone : (spent.keepFlag keep).isAvailable out.n = false := by
      by_contra hyes
      have hr := (isAvailable_iff spent out.n).mp (Bool.eq_true_of_not_eq_false hyes)
      rw [hsp.outAt, if_pos rfl] at hr
      cases hr
    have hleft : (spent.keepFlag keep).isPruned = false := hp
    rw [hcur]
    refine ⟨_, fun fClean => by
      simp only [updateCoinsForRestoredInputs, ne_eq, not_true_eq_false, if_false, hleft, hgone,
        Bool.not_false, Bool.and_true]
      rfl, ?_⟩
    have hn := nulls_restored hsp.clean out.n hsp.available
    refine Clean.ext (cleanup_clean hn) hcns hsp.fCoinBase ?_ hsp.nHeight
      hsp.nVersion ?_
    · simp [keepFlag, cleanup, hsp.fCoinStake]
    · intro i
      rw [outAt_cleanup hn]
      exact hsp.outAt_restored (fun _ => rfl) i

end CCoins

end Divi
