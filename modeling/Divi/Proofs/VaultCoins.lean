/-
Which coins the vault manager returns.

The two nested loops take outputs as long as the limit of their script lasts.  That is
`Quotas.takeWithin` over the outputs that are offered, which are those of confirmed and mature
transactions that are not spent: `collected_eq`.  From it come the number of coins of each
script, in whatever order the transactions are gone through, and what a change of the record can
change.
-/
import Divi.Lib.Quotas
import Divi.Proofs.SpentOutputs
import Divi.VaultManager

namespace Divi

open Quotas List

namespace VaultManager

variable {mgr : VaultManager} {ctx : ChainContext}

/-! ### The outputs that are offered -/

/-- An outpoint with the script that it pays. -/
abbrev Coin := COutPoint × CScript

def outputsOf (entry : uint256 × CWalletTx) : List Coin :=
  entry.2.tx.vout.zipIdx.map fun item => (⟨entry.1, item.2⟩, item.1.scriptPubKey)

/-- The outputs of a transaction that are taken if the limits allow it. -/
def offered (mgr : VaultManager) (ctx : ChainContext) (entry : uint256 × CWalletTx) :
    List Coin :=
  if isSkipped ctx entry.2 then []
  else (outputsOf entry).filter fun coin => !mgr.tracker.isSpent ctx coin.1.hash coin.1.n

/-- An output is confirmed and mature, and not spent. -/
structure Eligible (mgr : VaultManager) (ctx : ChainContext) (outpoint : COutPoint)
    (output : CTxOut) : Prop where
  recorded : ∃ wtx, mgr.mapWallet[outpoint.hash]? = some wtx ∧
    wtx.tx.vout[outpoint.n]? = some output ∧
    1 ≤ wtx.getNumberOfBlockConfirmations ctx ∧
    ¬ ((wtx.tx.isCoinBase ∨ wtx.tx.isCoinStake) ∧ 0 < wtx.getBlocksToMaturity ctx)
  unspent : mgr.tracker.isSpent ctx outpoint.hash outpoint.n = false

theorem not_isSkipped_iff {wtx : CWalletTx} : isSkipped ctx wtx = false ↔
      1 ≤ wtx.getNumberOfBlockConfirmations ctx ∧
        ¬ ((wtx.tx.isCoinBase ∨ wtx.tx.isCoinStake) ∧ 0 < wtx.getBlocksToMaturity ctx) := by
  rw [← Bool.not_eq_true, isSkipped, Bool.or_eq_true, not_or, Bool.and_eq_true, Bool.or_eq_true,
    decide_eq_true_eq, decide_eq_true_eq, Int.not_lt]

theorem mem_outputsOf {entry : uint256 × CWalletTx} {coin : Coin} : coin ∈ outputsOf entry ↔
      coin.1.hash = entry.1 ∧ ∃ output, entry.2.tx.vout[coin.1.n]? = some output ∧
        output.scriptPubKey = coin.2 := by
  unfold outputsOf
  rw [mem_map]
  constructor
  · intro ⟨item, hitem, hcoin⟩
    subst hcoin
    exact ⟨rfl, item.1, mem_zipIdx_iff_getElem?.mp hitem, rfl⟩
  · intro ⟨hh, output, hout, hscr⟩
    refine ⟨(output, coin.1.n), mem_zipIdx_iff_getElem?.mpr hout, ?_⟩
    rw [← hh, hscr]

variable {entries : List (uint256 × CWalletTx)}

theorem mem_offered_iff (hes : entries.Perm mgr.mapWallet.toList) {coin : Coin} :
    coin ∈ entries.flatMap (mgr.offered ctx) ↔
      ∃ output, mgr.Eligible ctx coin.1 output ∧ output.scriptPubKey = coin.2 := by
  rw [mem_flatMap]
  constructor
  · intro ⟨entry, he, hcoin⟩
    have hat : mgr.mapWallet[entry.1]? = some entry.2 :=
      Std.TreeMap.mem_toList_iff_getElem?_eq_some.mp (hes.mem_iff.mp he)
    unfold offered at hcoin
    split at hcoin
    next => cases hcoin
    next hs =>
      obtain ⟨hout, hun⟩ := mem_filter.mp hcoin
      obtain ⟨hh, output, hvout, hscr⟩ := mem_outputsOf.mp hout
      refine ⟨output, ⟨⟨entry.2, by rw [hh]; exact hat, hvout, ?_⟩, by simpa using hun⟩,
        hscr⟩
      exact not_isSkipped_iff.mp (Bool.eq_false_iff.mpr hs)
  · intro ⟨output, ⟨⟨wtx, hat, hvout, hconf⟩, hun⟩, hscr⟩
    refine ⟨(coin.1.hash, wtx), ?_, ?_⟩
    · exact hes.mem_iff.mpr (Std.TreeMap.mem_toList_iff_getElem?_eq_some.mpr hat)
    · unfold offered
      rw [if_neg (Bool.eq_false_iff.mp (not_isSkipped_iff.mpr hconf))]
      exact mem_filter.mpr ⟨mem_outputsOf.mpr ⟨rfl, output, hvout, hscr⟩, by simp [hun]⟩

theorem nodup_outputsOf (entry : uint256 × CWalletTx) : ((outputsOf entry).map Prod.fst).Nodup := by
  have hpos : ((outputsOf entry).map fun coin => coin.1.n).Nodup := by
    have hr : (outputsOf entry).map (fun coin => coin.1.n) =
        entry.2.tx.vout.zipIdx.map Prod.snd := by
      rw [outputsOf, map_map]
      rfl
    rw [hr, zipIdx_map_snd]
    exact nodup_range'
  refine List.Nodup.of_map COutPoint.n ?_
  rwa [map_map]

theorem nodup_offered (hes : entries.Perm mgr.mapWallet.toList) :
    ((entries.flatMap (mgr.offered ctx)).map Prod.fst).Nodup := by
  rw [map_flatMap, nodup_flatMap]
  constructor
  · intro entry _
    unfold offered
    split
    next => exact nodup_nil
    next => exact (nodup_outputsOf entry).sublist (filter_sublist.map _)
  · have hkeys : (entries.map Prod.fst).Nodup := by
      rw [(hes.map Prod.fst).nodup_iff, Std.TreeMap.map_fst_toList_eq_keys]
      exact Std.TreeMap.nodup_keys
    refine (pairwise_map.mp hkeys).imp ?_
    intro entry entry' hne outpoint hmem hmem'
    have hh : ∀ {entry}, outpoint ∈ (mgr.offered ctx entry).map Prod.fst →
        outpoint.hash = entry.1 := by
      intro entry hmem
      obtain ⟨coin, hcoin, rfl⟩ := mem_map.mp hmem
      unfold offered at hcoin
      split at hcoin
      next => cases hcoin
      next => exact (mem_outputsOf.mp (mem_filter.mp hcoin).1).1
    exact hne ((hh hmem).symm.trans (hh hmem'))

/-! ### The loops -/

variable (limits : Std.TreeMap CScript Nat compare)

/-- The limits as quotas: nothing for a script that is not managed. -/
def quotas (script : CScript) : Nat :=
  limits[script]?.getD 0

theorem mem_of_quotas_pos {limits : Std.TreeMap CScript Nat compare} {script : CScript}
    (h : 0 < quotas limits script) : script ∈ limits := by
  rw [Std.TreeMap.mem_iff_isSome_getElem?]
  unfold quotas at h
  cases hlim : limits[script]? with
  | none => simp [hlim] at h
  | some limit => rfl

/-- What the loops do with an output that is offered. -/
def take (state : Std.TreeMap CScript Nat compare × Finset COutPoint) (coin : Coin) :
    Std.TreeMap CScript Nat compare × Finset COutPoint :=
  if 0 < quotas state.1 coin.2 then
    (state.1.insert coin.2 (quotas state.1 coin.2 - 1), insert coin.1 state.2)
  else
    state

theorem collectOutput_eq (hash : uint256)
    (state : Std.TreeMap CScript Nat compare × Finset COutPoint) (item : CTxOut × Nat) :
    mgr.collectOutput ctx hash state item =
      if mgr.tracker.isSpent ctx hash item.2 then state
      else take state (⟨hash, item.2⟩, item.1.scriptPubKey) := by
  unfold collectOutput take quotas
  cases state.1[item.1.scriptPubKey]? with
  | none => simp
  | some limit =>
    cases mgr.tracker.isSpent ctx hash item.2 with
    | true => simp
    | false => simp

theorem collectOutputs_eq (state : Std.TreeMap CScript Nat compare × Finset COutPoint)
    (entry : uint256 × CWalletTx) :
    mgr.collectOutputs ctx state entry = (mgr.offered ctx entry).foldl take state := by
  unfold collectOutputs offered
  split
  next => rfl
  next =>
    unfold outputsOf
    generalize entry.2.tx.vout.zipIdx = items
    induction items generalizing state with
    | nil => rfl
    | cons item items ih =>
      rw [foldl_cons, ih, collectOutput_eq, map_cons]
      split
      next hsp => rw [filter_cons_of_neg (by simp [hsp])]
      next hun => rw [filter_cons_of_pos (by simp [hun]), foldl_cons]

theorem quotas_insert (script : CScript) :
    quotas (limits.insert script (quotas limits script - 1)) = use (quotas limits) script := by
  funext other
  unfold use
  by_cases hscr : other = script
  · rw [hscr, Function.update_self]
    simp [quotas]
  · rw [Function.update_of_ne hscr]
    simp [quotas, Std.TreeMap.getElem?_insert, Ne.symm hscr]

theorem foldl_take_eq (coins : Finset COutPoint)
    (l : List Coin) :
    (l.foldl take (limits, coins)).2 =
      coins ∪ ((takeWithin Prod.snd (quotas limits) l).map Prod.fst).toFinset := by
  induction l generalizing limits coins with
  | nil => simp [takeWithin]
  | cons coin l ih =>
    rw [foldl_cons, take]
    by_cases hpos : 0 < quotas limits coin.2
    · rw [if_pos hpos, ih, quotas_insert, takeWithin_cons_of_pos hpos, map_cons,
        toFinset_cons, Finset.insert_union, Finset.union_insert]
    · rw [if_neg hpos, ih, takeWithin_cons_of_not_pos hpos]

/-- The coins that are returned when the transactions come in some order. -/
def collected (mgr : VaultManager) (ctx : ChainContext) (entries : List (uint256 × CWalletTx)) :
    Finset COutPoint :=
  (entries.foldl (mgr.collectOutputs ctx) (mgr.managedScriptsLimits, ∅)).2

/-- **The loops take what is offered as long as the limits last.** -/
theorem collected_eq (entries : List (uint256 × CWalletTx)) :
    mgr.collected ctx entries =
      ((takeWithin Prod.snd (quotas mgr.managedScriptsLimits)
        (entries.flatMap (mgr.offered ctx))).map Prod.fst).toFinset := by
  have hbody : mgr.collectOutputs ctx = fun state entry =>
      (mgr.offered ctx entry).foldl take state := by
    funext state entry
    exact collectOutputs_eq state entry
  rw [collected, hbody, ← foldl_flatMap, foldl_take_eq, Finset.empty_union]

/-! ### How many coins of a script -/

/-- The eligible outputs that pay a script. -/
def eligibleFor (mgr : VaultManager) (ctx : ChainContext) (script : CScript) : Set COutPoint :=
  { outpoint | ∃ output, mgr.Eligible ctx outpoint output ∧ output.scriptPubKey = script }

/-- Counting the coins of a script by their outpoints. -/
theorem ncard_coins {l : List Coin} (hl : (l.map Prod.fst).Nodup) (script : CScript) :
    Set.ncard { outpoint | (outpoint, script) ∈ l } = l.countP fun coin => coin.2 = script := by
  have hset : { outpoint | (outpoint, script) ∈ l } =
      (((l.filter fun coin => coin.2 = script).map Prod.fst).toFinset : Set COutPoint) := by
    ext outpoint
    simp
  have hnd : ((l.filter fun coin => coin.2 = script).map Prod.fst).Nodup :=
    hl.sublist (filter_sublist.map _)
  rw [hset, Set.ncard_coe_finset, toFinset_card_of_nodup hnd, length_map, countP_eq_length_filter]

/-- The coins are eligible and pay managed scripts, and as many of each script are taken as there
are, up to the limit. -/
structure Exact (mgr : VaultManager) (ctx : ChainContext) (coins : Finset COutPoint) : Prop where
  eligible : ∀ outpoint ∈ coins, ∃ output, mgr.Eligible ctx outpoint output ∧
    output.scriptPubKey ∈ mgr.managedScriptsLimits
  count : ∀ script limit, mgr.managedScriptsLimits[script]? = some limit →
    Set.ncard { outpoint | outpoint ∈ coins ∧ outpoint ∈ mgr.eligibleFor ctx script } =
      min limit (mgr.eligibleFor ctx script).ncard

theorem collected_exact (hes : entries.Perm mgr.mapWallet.toList) :
    mgr.Exact ctx (mgr.collected ctx entries) := by
  rw [collected_eq]
  have hnd : ((entries.flatMap (mgr.offered ctx)).map Prod.fst).Nodup :=
    nodup_offered hes
  have hmem : ∀ {coin : Coin}, coin ∈ entries.flatMap (mgr.offered ctx) ↔
      coin.1 ∈ mgr.eligibleFor ctx coin.2 := mem_offered_iff hes
  generalize entries.flatMap (mgr.offered ctx) = l at hnd hmem
  have hsub : (takeWithin Prod.snd (quotas mgr.managedScriptsLimits) l).Sublist l :=
    takeWithin_sublist _ l
  refine ⟨?_, ?_⟩
  · intro outpoint hout
    obtain ⟨coin, hcoin, rfl⟩ := mem_map.mp (mem_toFinset.mp hout)
    obtain ⟨output, helig, hscr⟩ := hmem.mp (hsub.subset hcoin)
    refine ⟨output, helig, ?_⟩
    rw [hscr]
    exact mem_of_quotas_pos (quota_pos_of_mem_takeWithin hcoin)
  · intro script limit hlim
    have ht : { outpoint | outpoint ∈ ((takeWithin Prod.snd
          (quotas mgr.managedScriptsLimits) l).map Prod.fst).toFinset ∧
          outpoint ∈ mgr.eligibleFor ctx script } =
        { outpoint | (outpoint, script) ∈ takeWithin Prod.snd
          (quotas mgr.managedScriptsLimits) l } := by
      ext outpoint
      simp only [Set.mem_ofPred_eq, mem_toFinset, mem_map]
      constructor
      · rintro ⟨⟨coin, hcoin, hfst⟩, helig⟩
        -- an outpoint is offered with one script only
        have hs : coin = (outpoint, script) :=
          inj_on_of_nodup_map hnd (hsub.subset hcoin) (hmem.mpr helig) hfst
        rwa [← hs]
      · intro hcoin
        exact ⟨⟨_, hcoin, rfl⟩, hmem.mp (hsub.subset hcoin)⟩
    have hall : mgr.eligibleFor ctx script = { outpoint | (outpoint, script) ∈ l } := by
      ext outpoint
      exact (@hmem (outpoint, script)).symm
    have hq : quotas mgr.managedScriptsLimits script = limit := by simp [quotas, hlim]
    rw [ht, ncard_coins (hnd.sublist (hsub.map _)), countP_takeWithin, hq, hall,
      ncard_coins hnd]

/-- **As many coins of each managed script as its limit allows**, in whatever order the
transactions are gone through. -/
theorem getUTXOs_exact (mgr : VaultManager) (ctx : ChainContext) :
    mgr.Exact ctx (mgr.getUTXOs ctx) ∧
      ∀ entries : List (uint256 × CWalletTx), entries.Perm mgr.mapWallet.toList →
        mgr.Exact ctx (mgr.collected ctx entries) :=
  ⟨collected_exact (List.Perm.refl _), fun _ hes => collected_exact hes⟩

end VaultManager

end Divi
