/-
What a vault is guaranteed to get back from a coinstake.

Two checks look at the outputs of a coinstake that spends from a vault.  One adds up
the outputs at positions one and two; the other searches all outputs for the payments
of a lottery block.  Neither knows which outputs the other counted, so an output can
serve both.  `vault_credited_iff` says exactly when that is impossible: every payment
due to the vault is due once, and is smaller than the staking reward and than the least
amount the stake may be split into.
-/
import Divi.Proofs.LotteryPayments
import Divi.VaultCheck

namespace Divi

open List hiding isEmpty

open CTxOut Option Matching

variable {script vault : CScript} {view : CCoinsViewCache} {tx : CTransaction} {value : Int}
  {rewardOut out : CTxOut} {after payments outs : List CTxOut} {rewards : CBlockRewards}
  {input : CTxIn}

/-! ### Amounts paid to a script -/

/-- The sum of the outputs that pay a script. -/
def paidTo (script : CScript) (vout : List CTxOut) : Int :=
  ((vout.filter fun out => out.scriptPubKey = script).map CTxOut.nValue).sum

theorem paidTo_append (a b : List CTxOut) :
    paidTo script (a ++ b) = paidTo script a + paidTo script b := by
  simp [paidTo]

theorem paidTo_cons_same (h : out.scriptPubKey = script) (vout : List CTxOut) :
    paidTo script (out :: vout) = out.nValue + paidTo script vout := by
  simp [paidTo, h]

theorem paidTo_cons_mk (value : Int) (vout : List CTxOut) :
    paidTo script (⟨value, script⟩ :: vout) = value + paidTo script vout :=
  paidTo_cons_same rfl vout

theorem paidTo_singleton (h : out.scriptPubKey = script) : paidTo script [out] = out.nValue :=
  (paidTo_cons_same h []).trans (Int.add_zero _)

theorem paidTo_cons_ne (h : out.scriptPubKey ≠ script) (vout : List CTxOut) :
    paidTo script (out :: vout) = paidTo script vout := by
  simp [paidTo, h]

/-! ### The inputs of a coinstake from one script -/

/-- Every input is there and pays the script. -/
def InputsPay (view : CCoinsViewCache) (script : CScript) (inputs : List CTxIn) : Prop :=
  ∀ input ∈ inputs, ∃ out, view.getOutputFor input = some out ∧ out.scriptPubKey = script

/--
A coinstake all of whose inputs are there and pay the vault script, with the value
ranges that the checks of transactions and inputs guarantee.
-/
structure VaultCoinstake (maxMoneyOut : Int) (view : CCoinsViewCache) (tx : CTransaction)
    (vault : CScript) : Prop where
  coinstake : tx.isCoinStake = true
  inputs : ∀ input ∈ tx.vin, ∃ out, view.getOutputFor input = some out ∧
    out.scriptPubKey = vault ∧ 0 ≤ out.nValue
  outputs : ∀ out ∈ tx.vout, 0 ≤ out.nValue
  valueIn_le : ∀ value, view.getValueIn tx = some value → value ≤ maxMoneyOut
  valueOut_le : (tx.vout.map nValue).sum ≤ maxMoneyOut

section

variable {inputs : List CTxIn}

theorem VaultCoinstake.inputsPay {maxMoneyOut : Int}
    (htx : VaultCoinstake maxMoneyOut view tx vault) :
    InputsPay view vault tx.vin := by
  intro input hi
  obtain ⟨out, hout, hscr, -⟩ := htx.inputs input hi
  exact ⟨out, hout, hscr⟩

theorem InputsPay.tail (h : InputsPay view script (input :: inputs)) :
    InputsPay view script inputs :=
  fun i hi => h i (mem_cons_of_mem _ hi)

theorem mapM_getOutputFor_cons {P : CTxOut → Prop}
    (h : ∀ i ∈ input :: inputs, ∃ out, view.getOutputFor i = some out ∧ P out)
    (houts : (input :: inputs).mapM view.getOutputFor = some outs) :
    ∃ out rest, view.getOutputFor input = some out ∧ P out ∧
      inputs.mapM view.getOutputFor = some rest ∧ outs = out :: rest := by
  obtain ⟨out, hout, hscr⟩ := h input mem_cons_self
  simp only [mapM_cons, hout, bind_eq_bind, bind_some] at houts
  obtain ⟨rest, hr, heq⟩ := bind_eq_some_iff.mp houts
  exact ⟨out, rest, hout, hscr, hr, (Option.some.inj heq).symm⟩

/-- Outputs that are not negative do not add up to less. -/
theorem spent_nonneg (h : ∀ input ∈ inputs, ∃ out, view.getOutputFor input = some out ∧
      out.scriptPubKey = vault ∧ 0 ≤ out.nValue)
    (houts : inputs.mapM view.getOutputFor = some outs) : 0 ≤ (outs.map nValue).sum := by
  induction inputs generalizing outs with
  | nil =>
    cases houts
    exact le_refl _
  | cons input rest ih =>
    obtain ⟨out, outs', -, ⟨-, hnn⟩, houts', rfl⟩ := mapM_getOutputFor_cons h houts
    exact Int.add_nonneg hnn (ih (fun i hi => h i (mem_cons_of_mem _ hi)) houts')

/-- Once the vault is found, the loop over the inputs only adds up their values. -/
theorem scanVaultInputs_found (hv : isStakingVaultScript vault = true)
    (h : InputsPay view vault inputs) (houts : inputs.mapM view.getOutputFor = some outs)
    (value : Int) :
    scanVaultInputs view inputs ⟨value, some vault⟩
      = some (some ⟨value + (outs.map nValue).sum, some vault⟩) := by
  induction inputs generalizing outs value with
  | nil =>
    cases houts
    simp [scanVaultInputs]
  | cons input rest ih =>
    obtain ⟨out, outs', hout, hscr, houts', rfl⟩ := mapM_getOutputFor_cons h houts
    rw [map_cons, sum_cons, ← Int.add_assoc]
    rw [← ih h.tail houts' (value + out.nValue)]
    simp [scanVaultInputs, hout, hscr, hv]

theorem scanVaultInputs_eq (hv : isStakingVaultScript vault = true)
    (h : InputsPay view vault inputs) (hne : inputs ≠ [])
    (houts : inputs.mapM view.getOutputFor = some outs) :
    scanVaultInputs view inputs {} = some (some ⟨(outs.map nValue).sum, some vault⟩) := by
  cases inputs with
  | nil => exact absurd rfl hne
  | cons input rest =>
    obtain ⟨out, outs', hout, hscr, houts', rfl⟩ := mapM_getOutputFor_cons h houts
    rw [map_cons, sum_cons, ← scanVaultInputs_found hv h.tail houts' out.nValue]
    simp [scanVaultInputs, hout, hscr, hv]

end

/-! ### Coinstakes -/

theorem coinstake_vin_ne_nil (h : tx.isCoinStake = true) : tx.vin ≠ [] := by
  intro hvin
  rw [CTransaction.isCoinStake, hvin] at h
  cases h

theorem coinstake_not_coinbase (h : tx.isCoinStake = true) : tx.isCoinBase = false := by
  unfold CTransaction.isCoinStake at h
  unfold CTransaction.isCoinBase
  split
  · rename_i input hvin
    rw [hvin] at h
    split at h
    · rename_i heq _
      cases heq
      simp only [Bool.and_eq_true, Bool.not_eq_true'] at h
      exact h.1
    · cases h
  · rfl

theorem coinstake_getValueIn (h : tx.isCoinStake = true) (hv : view.getValueIn tx = some value)
    :
    ∃ outs, tx.vin.mapM view.getOutputFor = some outs ∧ value = (outs.map nValue).sum := by
  rw [CCoinsViewCache.getValueIn, coinstake_not_coinbase h] at hv
  obtain ⟨outs, houts, heq⟩ := map_eq_some_iff.mp hv
  exact ⟨outs, houts, heq.symm⟩

/-! ### What the two checks count -/

theorem vault_ne_nil (h : isStakingVaultScript vault = true) : vault ≠ [] := by
  intro hnil
  rw [hnil] at h
  cases h

/-- `CheckCoinstakeForVaults` on such a coinstake is a bound on the outputs it counts. -/
theorem checkCoinstakeForVaults_iff (hva : isStakingVaultScript vault = true)
    (hs : tx.isCoinStake = true) (hpay : InputsPay view vault tx.vin)
    (hv : view.getValueIn tx = some value) (rewards : CBlockRewards) {marker : CTxOut}
    (hvout : tx.vout = marker :: rewardOut :: after) :
    checkCoinstakeForVaults tx rewards view = some true ↔
      rewardOut.scriptPubKey = vault ∧
        value + rewards.nStakeReward ≤ vaultOutput vault rewardOut after := by
  obtain ⟨outs, houts, rfl⟩ := coinstake_getValueIn hs hv
  have hscan := scanVaultInputs_eq hva hpay (coinstake_vin_ne_nil hs) houts
  by_cases hscr : rewardOut.scriptPubKey = vault
  · simp [checkCoinstakeForVaults, hs, hscan, hvout, hscr]
  · simp [checkCoinstakeForVaults, hs, hscan, hvout, hscr]

/-- A coinstake starts with the empty marker and has an output behind it. -/
theorem coinstake_vout (h : tx.isCoinStake = true) :
    ∃ rewardOut after, tx.vout = empty :: rewardOut :: after := by
  unfold CTransaction.isCoinStake at h
  split at h
  · rename_i input _ marker rewardOut after _ hvout
    simp only [Bool.and_eq_true, isEmpty, beq_iff_eq, List.isEmpty_iff] at h
    obtain ⟨-, hv, hscr⟩ := h
    refine ⟨rewardOut, after, ?_⟩
    rw [hvout, empty, ← hv, ← hscr]
  · cases h

/--
The outputs behind the marker fall into the ones counted for the vault and the rest.
Only one output is counted, or all counted outputs are large.
-/
theorem vaultOutput_split (hscr : rewardOut.scriptPubKey = vault) (after : List CTxOut) :
    ∃ counted rest, rewardOut :: after = counted ++ rest ∧
      vaultOutput vault rewardOut after = paidTo vault counted ∧
      (counted = [rewardOut] ∨ ∀ out ∈ counted, MIN_FOR_SPLITTING ≤ out.nValue) := by
  have hone := paidTo_singleton hscr
  cases after with
  | nil => exact ⟨[rewardOut], [], rfl, hone.symm, .inl rfl⟩
  | cons out2 rest =>
    by_cases hs : rewardOut.nValue ≥ MIN_FOR_SPLITTING ∧ out2.nValue ≥ MIN_FOR_SPLITTING ∧
        out2.scriptPubKey = vault
    · obtain ⟨hl, hl2, hscr2⟩ := hs
      refine ⟨[rewardOut, out2], rest, rfl, ?_, .inr ?_⟩
      · rw [paidTo_cons_same hscr, paidTo_singleton hscr2]
        simp [vaultOutput, hl, hl2, hscr2]
      · intro out hout
        rcases mem_pair.mp hout with rfl | rfl
        · exact hl
        · exact hl2
    · refine ⟨[rewardOut], out2 :: rest, rfl, ?_, .inl rfl⟩
      rw [hone]
      simp [vaultOutput, hs]

/-! ### Payments that cannot be mistaken for the stake -/

/--
Every payment to the vault that is worth something is required once, and is below
both the staking reward and the least amount of a split stake.
-/
def PaymentsSeparable (rewards : CBlockRewards) (payments : List CTxOut) (vault : CScript) : Prop :=
  ∀ out ∈ payments, out.scriptPubKey = vault → out.nValue ≤ 0 ∨
    (out.nValue < rewards.nStakeReward ∧ out.nValue < MIN_FOR_SPLITTING ∧
      payments.count out = 1)

/-- The payments to the script that are worth something. -/
def positivePayments (payments : List CTxOut) (vault : CScript) : List CTxOut :=
  payments.filter fun out => out.scriptPubKey = vault ∧ 0 < out.nValue

theorem paidTo_le_positivePayments (payments : List CTxOut) (vault : CScript) :
    paidTo vault payments ≤ ((positivePayments payments vault).map nValue).sum := by
  have hf : positivePayments payments vault = (payments.filter fun out =>
      out.scriptPubKey = vault).filter fun out => 0 < out.nValue := by
    simp [positivePayments, Bool.and_comm]
  rw [hf, paidTo]
  induction payments.filter fun out => out.scriptPubKey = vault with
  | nil => exact Int.le_refl _
  | cons out rest ih =>
    by_cases hpos : 0 < out.nValue
    · rw [filter_cons_of_pos (by simpa using hpos)]
      exact Int.add_le_add_left ih _
    · rw [filter_cons_of_neg (by simpa using hpos), map_cons, sum_cons]
      omega

theorem positivePayments_nodup (hsep : PaymentsSeparable rewards payments vault) :
    (positivePayments payments vault).Nodup := by
  rw [nodup_iff_count_le_one]
  intro out
  by_cases hmem : out ∈ positivePayments payments vault
  · obtain ⟨hin, hcond⟩ := mem_filter.mp hmem
    obtain ⟨hscr, hpos⟩ := of_decide_eq_true hcond
    have hle := List.Sublist.count_le out (filter_sublist (l := payments)
      (p := fun out => out.scriptPubKey = vault ∧ 0 < out.nValue))
    rcases hsep out hin hscr with hneg | ⟨-, -, hcnt⟩
    · omega
    · rw [hcnt] at hle
      exact hle
  · rw [count_eq_zero_of_not_mem hmem]
    omega

/-- Separable payments come on top of the outputs that are counted for the vault. -/
theorem credited_of_separable (hne : vault ≠ []) (hsep : PaymentsSeparable rewards payments vault)
    (hmem : ∀ out ∈ payments, out ∈ empty :: rewardOut :: after)
    (hnn : ∀ out ∈ rewardOut :: after, 0 ≤ out.nValue) (hscr : rewardOut.scriptPubKey = vault)
    (hv : 0 ≤ value) (hc : value + rewards.nStakeReward ≤ vaultOutput vault rewardOut after) :
    value + rewards.nStakeReward + paidTo vault payments
      ≤ paidTo vault (empty :: rewardOut :: after) := by
  obtain ⟨counted, rest, hs, ho, hkind⟩ := vaultOutput_split hscr after
  have hm : empty.scriptPubKey ≠ vault := fun h => hne h.symm
  rw [paidTo_cons_ne hm, hs, paidTo_append, ← ho]
  rw [hs] at hnn
  have hpo := paidTo_le_positivePayments payments vault
  have hr : ((positivePayments payments vault).map nValue).sum ≤ paidTo vault rest := by
    refine sum_le_of_nodup_subset (positivePayments_nodup hsep) ?_ ?_
    · intro out hout
      obtain ⟨hin, hcond⟩ := mem_filter.mp hout
      obtain ⟨hpays, hpos⟩ := of_decide_eq_true hcond
      refine mem_filter.mpr ⟨?_, by simpa using hpays⟩
      obtain ⟨hst, hmin, -⟩ := (hsep out hin hpays).resolve_left (by omega)
      have hp := hmem out hin
      rw [hs, mem_cons, mem_append] at hp
      rcases hp with he | hcnt | hrst
      · rw [he] at hpays
        exact absurd hpays hm
      · -- A counted output is too large to be one of the payments.
        rcases hkind with hsi | hl
        · rw [hsi] at hcnt ho
          have heq : out = rewardOut := mem_singleton.mp hcnt
          rw [paidTo_singleton hscr] at ho
          rw [heq] at hst
          omega
        · have := hl out hcnt
          omega
      · exact hrst
    · intro out hout
      exact hnn out (mem_append_right _ (mem_filter.mp hout).1)
  omega

/-! ### A coinstake that uses a payment twice -/

/-- A view with one output, of the given value, that pays the vault. -/
def stakeView (value : Int) (vault : CScript) : CCoinsViewCache where
  cacheCoins := Finmap.singleton 1 { vout := [⟨value, vault⟩], nHeight := 1 }

/-- A coinstake that spends it. -/
def stakeTx (vout : List CTxOut) : CTransaction where
  hash := 2
  vin := [{ prevout := { hash := 1, n := 0 } }]
  vout := CTxOut.empty :: vout

theorem stakeView_getOutputFor (hv : 0 ≤ value) :
    (stakeView value vault).getOutputFor { prevout := { hash := 1, n := 0 } }
      = some ⟨value, vault⟩ := by
  have hnull : ¬ value = -1 := by omega
  simp [stakeView, CCoinsViewCache.getOutputFor, CCoinsViewCache.accessCoins,
    Finmap.lookup_singleton_eq, CCoins.isAvailable, isNull, hnull]

theorem stakeTx_getValueIn (hv : 0 ≤ value) :
    (stakeView value vault).getValueIn (stakeTx (rewardOut :: after)) = some value := by
  have hcb : (stakeTx (rewardOut :: after)).isCoinBase = false := rfl
  have hmap : (stakeTx (rewardOut :: after)).vin.mapM (stakeView value vault).getOutputFor
      = some [⟨value, vault⟩] := by
    rw [stakeTx, mapM_cons, stakeView_getOutputFor hv]
    rfl
  rw [CCoinsViewCache.getValueIn, hcb, hmap]
  simp

theorem stakeTx_vaultCoinstake (hv : 0 ≤ value)
    (hnn : ∀ out ∈ rewardOut :: after, 0 ≤ out.nValue) {maxMoneyOut : Int}
    (hin : value ≤ maxMoneyOut) (hout : ((rewardOut :: after).map nValue).sum ≤ maxMoneyOut) :
    VaultCoinstake maxMoneyOut (stakeView value vault) (stakeTx (rewardOut :: after)) vault where
  coinstake := rfl
  inputs := by
    intro input hi
    obtain rfl := mem_singleton.mp hi
    exact ⟨⟨value, vault⟩, stakeView_getOutputFor hv, rfl, hv⟩
  outputs := by
    intro out hout
    rcases mem_cons.mp hout with rfl | hout
    · exact Int.le_refl 0
    · exact hnn out hout
  valueIn_le := by
    intro valueIn hvalueIn
    rw [stakeTx_getValueIn hv] at hvalueIn
    exact Option.some.inj hvalueIn ▸ hin
  valueOut_le := by
    rw [stakeTx, map_cons, sum_cons]
    exact (zero_add _).trans_le hout

/--
The payments not served by a given output weigh less than all of them by its value:
when it is required twice, or when it is left out.
-/
theorem paidTo_dedup_add_le (hnn : ∀ o ∈ payments, 0 ≤ o.nValue) (hmem : out ∈ payments)
    (hscr : out.scriptPubKey = vault) {rest : List CTxOut} (hnd : rest.Nodup)
    (hsub : ∀ o ∈ rest, o ∈ payments) (hout : out ∈ rest → 2 ≤ payments.count out) :
    paidTo vault rest + out.nValue ≤ paidTo vault payments := by
  have hdue : out ∈ payments.filter fun o => o.scriptPubKey = vault :=
    mem_filter.mpr ⟨hmem, by simpa using hscr⟩
  have hsum := sum_erase (f := nValue) hdue
  have hle : paidTo vault rest
      ≤ (((payments.filter fun o => o.scriptPubKey = vault).erase out).map nValue).sum := by
    refine sum_le_of_nodup_subset (hnd.filter _) ?_ ?_
    · intro o ho
      obtain ⟨hor, hop⟩ := mem_filter.mp ho
      have homem : o ∈ payments.filter fun o => o.scriptPubKey = vault :=
        mem_filter.mpr ⟨hsub o hor, hop⟩
      by_cases heq : o = out
      · rw [heq] at hor ⊢
        have hcnt := hout hor
        rw [← count_pos_iff, count_erase_self, count_filter (by simpa using hscr)]
        omega
      · exact (mem_erase_of_ne heq).mpr homem
    · intro o ho
      exact hnn o (mem_filter.mp (mem_of_mem_erase ho)).1
  have hdef : paidTo vault payments
      = ((payments.filter fun o => o.scriptPubKey = vault).map nValue).sum := rfl
  omega

/-- A second output is only counted if it is worth something. -/
theorem le_vaultOutput (vault : CScript) (rewardOut : CTxOut) (after : List CTxOut) :
    rewardOut.nValue ≤ vaultOutput vault rewardOut after := by
  cases after with
  | nil => exact Int.le_refl _
  | cons out2 rest =>
    simp only [vaultOutput]
    split
    case isTrue hl =>
      have hmin : (0 : Int) ≤ MIN_FOR_SPLITTING := by decide
      omega
    case isFalse => exact Int.le_refl _

/-- No less than the sums of such a coinstake. -/
def largestSum (rewards : CBlockRewards) (payments : List CTxOut) : Int :=
  MIN_FOR_SPLITTING + |rewards.nStakeReward| + (payments.map nValue).sum

theorem sum_le_payments (hnn : ∀ o ∈ payments, 0 ≤ o.nValue) {rest : List CTxOut}
    (hnd : rest.Nodup) (hsub : ∀ o ∈ rest, o ∈ payments) :
    (rest.map nValue).sum ≤ (payments.map nValue).sum :=
  sum_le_of_nodup_subset hnd hsub hnn

/--
A stake and outputs that pass both checks, and credit the vault with less than the
stake, the staking reward and the payments.
-/
structure Uncredited (rewards : CBlockRewards) (payments : List CTxOut) (vault : CScript)
    (value : Int) (rewardOut : CTxOut) (after : List CTxOut) : Prop where
  value_nonneg : 0 ≤ value
  outputs : ∀ out ∈ rewardOut :: after, 0 ≤ out.nValue
  script : rewardOut.scriptPubKey = vault
  counted : value + rewards.nStakeReward ≤ vaultOutput vault rewardOut after
  paid : ∀ out ∈ payments, out ∈ rewardOut :: after
  short : paidTo vault (rewardOut :: after)
    < value + rewards.nStakeReward + paidTo vault payments
  value_le : value ≤ largestSum rewards payments
  outputs_le : ((rewardOut :: after).map nValue).sum ≤ largestSum rewards payments

/-- A payment that is required twice: one output of it is enough. -/
theorem uncredited_of_twice (hnn : ∀ o ∈ payments, 0 ≤ o.nValue) (hmem : out ∈ payments)
    (hscr : out.scriptPubKey = vault) (hpos : 0 < out.nValue)
    (hcnt : 2 ≤ payments.count out) (hs : out.nValue < rewards.nStakeReward) :
    Uncredited rewards payments vault 0 ⟨rewards.nStakeReward, vault⟩ payments.dedup := by
  have hd : ∀ o ∈ payments.dedup, 0 ≤ o.nValue := fun o ho =>
    hnn o (mem_dedup.mp ho)
  have hle : paidTo vault payments.dedup + out.nValue ≤ paidTo vault payments :=
    paidTo_dedup_add_le hnn hmem hscr (nodup_dedup _)
      (fun o ho => mem_dedup.mp ho) (fun _ => hcnt)
  have hsum := sum_le_payments hnn (nodup_dedup payments) fun o ho => mem_dedup.mp ho
  have hall := List.sum_nonneg (forall_mem_map.mpr hd)
  have habs := le_abs_self rewards.nStakeReward
  have hcoin : MIN_FOR_SPLITTING = 1000000000000 := rfl
  refine ⟨Int.le_refl _, ?_, rfl, ?_, ?_, ?_, ?_, ?_⟩
  · intro o ho
    rcases mem_cons.mp ho with rfl | ho
    · show 0 ≤ rewards.nStakeReward
      omega
    · exact hd o ho
  · rw [Int.zero_add]
    exact le_vaultOutput ..
  · exact fun o ho => mem_cons_of_mem _ (mem_dedup.mpr ho)
  · rw [paidTo_cons_mk]
    omega
  · unfold largestSum
    omega
  · rw [largestSum, map_cons, sum_cons]
    dsimp only
    omega

/-- The payments other than `out`, once each. -/
theorem mem_cons_erase_dedup {o : CTxOut} (ho : o ∈ payments) :
    o ∈ out :: payments.dedup.erase out := by
  by_cases heq : o = out
  · rw [heq]
    exact mem_cons_self ..
  · exact mem_cons_of_mem _ ((mem_erase_of_ne heq).mpr (mem_dedup.mpr ho))

section

variable (hnn : ∀ o ∈ payments, 0 ≤ o.nValue) (hmem : out ∈ payments)

include hnn hmem

theorem paidTo_erase_dedup_add_le (hscr : out.scriptPubKey = vault) :
    paidTo vault (payments.dedup.erase out) + out.nValue ≤ paidTo vault payments := by
  refine paidTo_dedup_add_le hnn hmem hscr ((nodup_dedup _).erase _) ?_ ?_
  · exact fun o ho => mem_dedup.mp (mem_of_mem_erase ho)
  · intro habs
    exact absurd habs (List.Nodup.not_mem_erase (nodup_dedup _))

theorem cons_erase_dedup_nonneg : ∀ o ∈ out :: payments.dedup.erase out, 0 ≤ o.nValue := by
  intro o ho
  rcases mem_cons.mp ho with rfl | ho
  · exact hnn o hmem
  · exact hnn o (mem_dedup.mp (mem_of_mem_erase ho))

theorem sum_cons_erase_dedup_le :
    out.nValue ≤ (payments.map nValue).sum ∧
      ((out :: payments.dedup.erase out).map nValue).sum ≤ (payments.map nValue).sum := by
  have hsub : ∀ o ∈ out :: payments.dedup.erase out, o ∈ payments := by
    intro o ho
    obtain rfl | ho := mem_cons.mp ho
    · exact hmem
    · exact mem_dedup.mp (mem_of_mem_erase ho)
  have hsum := sum_le_payments hnn
    (nodup_cons.mpr ⟨List.Nodup.not_mem_erase (nodup_dedup _), (nodup_dedup _).erase _⟩) hsub
  have hone := sum_le_payments hnn (nodup_singleton out) fun o ho =>
    mem_singleton.mp ho ▸ hmem
  rw [map_singleton, sum_singleton] at hone
  exact ⟨hone, hsum⟩

section

variable (hscr : out.scriptPubKey = vault) (hpos : 0 < out.nValue)

include hscr hpos

/-- A payment of at least the staking reward: it is counted as the stake itself. -/
theorem uncredited_of_stake (hs : rewards.nStakeReward ≤ out.nValue) :
    Uncredited rewards payments vault (out.nValue - rewards.nStakeReward) out
      (payments.dedup.erase out) := by
  have houts := cons_erase_dedup_nonneg hnn hmem
  obtain ⟨hone, hsum⟩ := sum_cons_erase_dedup_le hnn hmem
  have habs := neg_abs_le rewards.nStakeReward
  have hcoin : MIN_FOR_SPLITTING = 1000000000000 := rfl
  refine ⟨by omega, houts, hscr, ?_, fun o ho => mem_cons_erase_dedup ho, ?_, ?_, ?_⟩
  · have hle := le_vaultOutput vault out (payments.dedup.erase out)
    omega
  · have hle := paidTo_erase_dedup_add_le hnn hmem hscr
    rw [paidTo_cons_same hscr]
    omega
  · unfold largestSum
    omega
  · have hpos := abs_nonneg rewards.nStakeReward
    unfold largestSum
    omega

omit hpos in
/-- A large payment: it is counted as the second part of a split stake. -/
theorem uncredited_of_split (hmin : MIN_FOR_SPLITTING ≤ out.nValue) {first : Int}
    (hfst : first = max MIN_FOR_SPLITTING (rewards.nStakeReward - out.nValue))
    (hs : out.nValue < rewards.nStakeReward) :
    Uncredited rewards payments vault (first + out.nValue - rewards.nStakeReward) ⟨first, vault⟩
      (out :: payments.dedup.erase out) := by
  have houts := cons_erase_dedup_nonneg hnn hmem
  obtain ⟨hone, hsum⟩ := sum_cons_erase_dedup_le hnn hmem
  have habs := le_abs_self rewards.nStakeReward
  have hcoin : MIN_FOR_SPLITTING = 1000000000000 := rfl
  have hl : MIN_FOR_SPLITTING ≤ first := by omega
  refine ⟨by omega, ?_, rfl, ?_, ?_, ?_, ?_, ?_⟩
  · intro o ho
    rcases mem_cons.mp ho with rfl | ho
    · show 0 ≤ first
      omega
    · exact houts o ho
  · have hcnt : vaultOutput vault ⟨first, vault⟩ (out :: payments.dedup.erase out)
        = first + out.nValue := by
      simp [vaultOutput, hl, hmin, hscr]
    omega
  · exact fun o ho => mem_cons_of_mem _ (mem_cons_erase_dedup ho)
  · have hle := paidTo_erase_dedup_add_le hnn hmem hscr
    rw [paidTo_cons_mk, paidTo_cons_same hscr]
    omega
  · unfold largestSum
    omega
  · rw [largestSum, map_cons, sum_cons]
    dsimp only
    omega

/-- Payments that are not separable leave room for such a coinstake. -/
theorem exists_uncredited
    (hnot : ¬ (out.nValue < rewards.nStakeReward ∧ out.nValue < MIN_FOR_SPLITTING ∧
      payments.count out = 1)) :
    ∃ value rewardOut after, Uncredited rewards payments vault value rewardOut after := by
  by_cases hs : out.nValue < rewards.nStakeReward
  · by_cases hmin : out.nValue < MIN_FOR_SPLITTING
    · have hone := count_pos_iff.mpr hmem
      exact ⟨_, _, _, uncredited_of_twice hnn hmem hscr hpos (by omega) hs⟩
    · exact ⟨_, _, _, uncredited_of_split hnn hmem hscr (by omega) rfl hs⟩
  · exact ⟨_, _, _, uncredited_of_stake hnn hmem hscr hpos (by omega)⟩

end

end

/-! ### Lottery blocks -/

namespace BlockIncentivesPopulator

/-- A block at a lottery height, unless the treasury has precedence there. -/
def isLotteryBlock (pop : BlockIncentivesPopulator) (nHeight : Int) : Bool :=
  !pop.chainParams.isValidTreasuryBlockHeight nHeight &&
    pop.chainParams.isValidLotteryBlockHeight nHeight

/-- The payments due at a block, none outside lottery blocks. -/
def paymentsDue (pop : BlockIncentivesPopulator) (rewards : CBlockRewards)
    (block parent : CBlockIndex) : List CTxOut :=
  if pop.isLotteryBlock block.nHeight then
    lotteryPayments rewards parent.vLotteryWinnersCoinstakes.getLotteryCoinstakes
  else []

theorem lotteryPayments_nonneg {winners : LotteryCoinstakes}
    (hmem : out ∈ lotteryPayments rewards winners) (hpos : 0 < out.nValue) :
    ∀ o ∈ lotteryPayments rewards winners, 0 ≤ o.nValue := by
  have hvs : ∀ o ∈ lotteryPayments rewards winners,
      o.nValue = nBigReward rewards ∨ o.nValue = nSmallReward rewards := by
    intro o ho
    obtain ⟨i, hi, rfl⟩ := mem_mapIdx.mp ho
    by_cases hzero : i = 0
    · exact .inl (if_pos hzero)
    · exact .inr (if_neg hzero)
  -- The two amounts have the same sign.
  have hbig : 0 ≤ nBigReward rewards := by
    by_contra hneg
    have hflip : nSmallReward rewards = -((-nBigReward rewards).tdiv 10) := by
      rw [nSmallReward, Int.neg_tdiv, Int.neg_neg]
    have := Int.tdiv_nonneg (show 0 ≤ -nBigReward rewards by omega) (show (0 : Int) ≤ 10 by omega)
    rcases hvs out hmem with h | h
    · omega
    · omega
  have hs : 0 ≤ nSmallReward rewards := Int.tdiv_nonneg hbig (by omega)
  intro o ho
  rcases hvs o ho with h | h
  · rw [h]
    exact hbig
  · rw [h]
    exact hs

section

variable {pop : BlockIncentivesPopulator} {block parent : CBlockIndex} {prev : BlockPointer}

theorem isLotteryBlock_of_due (h : out ∈ pop.paymentsDue rewards block parent) :
    pop.isLotteryBlock block.nHeight = true := by
  by_contra hno
  rw [paymentsDue, if_neg hno] at h
  cases h

/-- At a lottery block, holding the payments due is all that is asked. -/
theorem hasValidPayees_iff_due (hrew : pop.getBlockSubsidity block.nHeight = some rewards)
    (hlot : pop.isLotteryBlock block.nHeight = true) :
    pop.hasValidPayees tx (block :: parent :: prev) = some true ↔
      ∀ out ∈ pop.paymentsDue rewards block parent, out ∈ tx.vout := by
  rw [paymentsDue, if_pos hlot]
  simp only [isLotteryBlock, Bool.and_eq_true, Bool.not_eq_true'] at hlot
  rw [hasValidPayees_iff_of_lottery hlot.2 hrew tx, checkedPayments, hlot.1,
    if_neg Bool.false_ne_true]

end

/--
**When a vault gets its stake, its reward and its lottery payments.**

Every coinstake from a vault that passes `CheckCoinstakeForVaults` and `HasValidPayees`
credits the vault with its inputs, the staking reward and the lottery payments due to
it exactly when none of those payments can be mistaken for the stake or for another.
All sums are within the money range, as what is due is.
-/
theorem vault_credited_iff (pop : BlockIncentivesPopulator) (rewards : CBlockRewards)
    (block parent : CBlockIndex) (prev : BlockPointer) (vault : CScript)
    (hvault : isStakingVaultScript vault = true)
    (hrew : pop.getBlockSubsidity block.nHeight = some rewards)
    (hmoney : largestSum rewards (pop.paymentsDue rewards block parent) ≤
      pop.chainParams.nMaxMoneyOut) :
    (∀ view tx value, VaultCoinstake pop.chainParams.nMaxMoneyOut view tx vault →
      view.getValueIn tx = some value →
      checkCoinstakeForVaults tx rewards view = some true →
      pop.hasValidPayees tx (block :: parent :: prev) = some true →
      value + rewards.nStakeReward + paidTo vault (pop.paymentsDue rewards block parent)
        ≤ paidTo vault tx.vout) ↔
    PaymentsSeparable rewards (pop.paymentsDue rewards block parent) vault := by
  constructor
  · intro hall out hmem hscr
    by_contra hnot
    obtain ⟨hpos, hnot⟩ := not_or.mp hnot
    have hlot := isLotteryBlock_of_due hmem
    have hnn : ∀ o ∈ pop.paymentsDue rewards block parent, 0 ≤ o.nValue := by
      simp only [paymentsDue, hlot, if_true] at hmem ⊢
      exact lotteryPayments_nonneg hmem (by omega)
    obtain ⟨value, rewardOut, after, hbad⟩ :=
      exists_uncredited hnn hmem hscr (by omega) hnot
    have htx : VaultCoinstake pop.chainParams.nMaxMoneyOut (stakeView value vault)
        (stakeTx (rewardOut :: after)) vault :=
      stakeTx_vaultCoinstake hbad.value_nonneg hbad.outputs (hbad.value_le.trans hmoney)
        (hbad.outputs_le.trans hmoney)
    have hv : (stakeView value vault).getValueIn (stakeTx (rewardOut :: after)) = some value :=
      stakeTx_getValueIn hbad.value_nonneg
    have hchk := (checkCoinstakeForVaults_iff hvault htx.coinstake htx.inputsPay hv rewards
      rfl).mpr
      ⟨hbad.script, hbad.counted⟩
    have hp : pop.hasValidPayees (stakeTx (rewardOut :: after)) (block :: parent :: prev)
        = some true :=
      (hasValidPayees_iff_due hrew hlot).mpr fun o ho =>
        mem_cons_of_mem _ (hbad.paid o ho)
    have hpaid := hall _ _ value htx hv hchk hp
    have hm : empty.scriptPubKey ≠ vault := fun h => vault_ne_nil hvault h.symm
    have hs := hbad.short
    rw [stakeTx, paidTo_cons_ne hm] at hpaid
    omega
  · intro hsep view tx value htx hv hchk hp
    obtain ⟨rewardOut, after, hvout⟩ := coinstake_vout htx.coinstake
    obtain ⟨hscr, hc⟩ := (checkCoinstakeForVaults_iff hvault htx.coinstake htx.inputsPay
      hv rewards hvout).mp hchk
    obtain ⟨outs, houts, rfl⟩ := coinstake_getValueIn htx.coinstake hv
    have hnn := spent_nonneg htx.inputs houts
    have hou := htx.outputs
    rw [hvout] at hou ⊢
    refine credited_of_separable (vault_ne_nil hvault) hsep ?_
      (fun o ho => hou o (mem_cons_of_mem _ ho)) hscr hnn hc
    intro out hout
    rw [← hvout]
    exact (hasValidPayees_iff_due hrew (isLotteryBlock_of_due hout)).mp hp out hout

/-! ### A vault that wins the lottery on the main network -/

def exampleVault : CScript :=
  createStakingVaultScript (List.replicate 20 1) (List.replicate 20 2)

def vaultWinsParent : CBlockIndex where
  phashBlock := 1
  nHeight := 20159
  vLotteryWinnersCoinstakes := { storage := [(1, exampleVault)] }

/-- Where other scripts win, a vault always gets its stake and its reward. -/
theorem vault_credited_main :
    isStakingVaultScript exampleVault = true ∧
    mainPopulator.getBlockSubsidity lotteryBlock.nHeight = some lotteryBlockRewards ∧
    ∀ view tx value, VaultCoinstake mainParams.nMaxMoneyOut view tx exampleVault →
      view.getValueIn tx = some value →
      checkCoinstakeForVaults tx lotteryBlockRewards view = some true →
      mainPopulator.hasValidPayees tx [lotteryBlock, sharedScriptParent] = some true →
      value + lotteryBlockRewards.nStakeReward + paidTo exampleVault
          (mainPopulator.paymentsDue lotteryBlockRewards lotteryBlock sharedScriptParent)
        ≤ paidTo exampleVault tx.vout := by
  have hv : isStakingVaultScript exampleVault = true := by decide
  have hrew : mainPopulator.getBlockSubsidity lotteryBlock.nHeight
      = some lotteryBlockRewards := by decide
  refine ⟨hv, hrew, ?_⟩
  refine (vault_credited_iff mainPopulator lotteryBlockRewards lotteryBlock sharedScriptParent []
    exampleVault hv hrew (by decide)).mpr ?_
  intro out hout hscr
  have hn : ∀ out ∈ mainPopulator.paymentsDue lotteryBlockRewards lotteryBlock
      sharedScriptParent, out.scriptPubKey ≠ exampleVault := by decide
  exact absurd hscr (hn out hout)

/-- The prize itself, paid once, passes for the stake and its reward. -/
theorem prize_passes_for_stake :
    checkCoinstakeForVaults (stakeTx [⟨252000 * COIN, exampleVault⟩]) lotteryBlockRewards
      (stakeView (252000 * COIN - 45600000000) exampleVault) = some true ∧
    mainPopulator.hasValidPayees (stakeTx [⟨252000 * COIN, exampleVault⟩])
      [lotteryBlock, vaultWinsParent] = some true ∧
    mainPopulator.getBlockSubsidity lotteryBlock.nHeight = some lotteryBlockRewards ∧
    VaultCoinstake mainParams.nMaxMoneyOut (stakeView (252000 * COIN - 45600000000) exampleVault)
      (stakeTx [⟨252000 * COIN, exampleVault⟩]) exampleVault ∧
    (stakeView (252000 * COIN - 45600000000) exampleVault).getValueIn
      (stakeTx [⟨252000 * COIN, exampleVault⟩]) = some (252000 * COIN - 45600000000) ∧
    ¬ (252000 * COIN - 45600000000 + lotteryBlockRewards.nStakeReward + paidTo exampleVault
          (mainPopulator.paymentsDue lotteryBlockRewards lotteryBlock vaultWinsParent)
        ≤ paidTo exampleVault (stakeTx [⟨252000 * COIN, exampleVault⟩]).vout) := by
  refine ⟨by decide, by decide, by decide, ?_, ?_, by decide⟩
  · exact stakeTx_vaultCoinstake (by decide) (by decide) (by decide) (by decide)
  · exact stakeTx_getValueIn (by decide)

end BlockIncentivesPopulator

end Divi
