/-
Whether the selected coins cover the fee.

The loop stops at the shortest initial part of the coins, in the order of selection, that covers
the outputs, the margin for a change and the fee it was called with.  The fee is raised after
that, so the margin and whatever the coins are worth beyond it have to pay for the size.

`sizeFee` is the fee of a size, `Covers` says that a selection pays the outputs and the fee
of its own size.  A margin that pays for the size is enough for any one selection.  Over all
transactions, coins and estimates it is also necessary, for every size up to the limit.
-/
import Divi.CoinSelection

namespace Divi

open COutput List Option

variable {totalAmountNeeded : Int} {inputs : List InputToSpendAndSigSize}
  {inputsSelected : List COutput}

namespace InputToSpendAndSigSize

/-! ### The order of selection -/

section

variable {feeRate : CFeeRate} {a b c : InputToSpendAndSigSize}

theorem less_eq_true_iff : less feeRate totalAmountNeeded a b = true ↔
      (totalAmountNeeded ≤ a.value - feeRate.getFee a.sigSize ∧
        totalAmountNeeded ≤ b.value - feeRate.getFee b.sigSize ∧ a.sigSize < b.sigSize) ∨
      ((a.value - feeRate.getFee a.sigSize < totalAmountNeeded ∨
          b.value - feeRate.getFee b.sigSize < totalAmountNeeded) ∧
        (b.value - feeRate.getFee b.sigSize < a.value - feeRate.getFee a.sigSize ∨
          b.value - feeRate.getFee b.sigSize = a.value - feeRate.getFee a.sigSize ∧
            a.sigSize < b.sigSize)) := by
  unfold less
  dsimp only
  split
  next hboth =>
    rw [decide_eq_true_eq]
    omega
  next hone =>
    rw [Bool.or_eq_true, Bool.and_eq_true]
    simp only [decide_eq_true_eq]
    omega

/-- What `std::sort` asks of its order: it is asymmetric, and not being before is transitive. -/
theorem less_asymm (h : less feeRate totalAmountNeeded a b = true) :
    less feeRate totalAmountNeeded b a = false := by
  rw [Bool.eq_false_iff, ne_eq, less_eq_true_iff]
  rw [less_eq_true_iff] at h
  omega

theorem not_less_trans (hab : less feeRate totalAmountNeeded b a = false)
    (hbc : less feeRate totalAmountNeeded c b = false) :
    less feeRate totalAmountNeeded c a = false := by
  rw [Bool.eq_false_iff, ne_eq, less_eq_true_iff] at hab hbc ⊢
  omega

end

/-! ### The shortest initial part that covers an amount -/

/-- What some inputs are worth. -/
def total (inputs : List InputToSpendAndSigSize) : Int :=
  (inputs.map value).sum

@[simp]
theorem total_cons (input : InputToSpendAndSigSize) (inputs : List InputToSpendAndSigSize) :
    total (input :: inputs) = input.value + total inputs :=
  sum_cons

/-- The shortest initial part, not empty, that is worth an amount. -/
structure Takes (amount : Int) (inputs taken : List InputToSpendAndSigSize) : Prop where
  initial : taken <+: inputs
  nonempty : taken ≠ []
  covers : amount ≤ total taken
  shortest : ∀ shorter, shorter <+: taken → shorter ≠ [] → shorter ≠ taken → total shorter < amount

variable {amount : Int} {input : InputToSpendAndSigSize} {taken other : List InputToSpendAndSigSize}

theorem takes_singleton (h : amount ≤ input.value) : Takes amount (input :: inputs) [input] where
  initial := ⟨inputs, rfl⟩
  nonempty := cons_ne_nil _ _
  covers := by simpa [total] using h
  shortest := by
    intro shorter hpre hne hp
    obtain ⟨t, rfl, ht⟩ := (prefix_cons_iff.mp hpre).resolve_left hne
    rw [prefix_nil.mp ht] at hp
    exact absurd rfl hp

theorem takes_cons (h : input.value < amount) (hta : Takes (amount - input.value) inputs taken) :
    Takes amount (input :: inputs) (input :: taken) where
  initial := cons_prefix_cons.mpr ⟨rfl, hta.initial⟩
  nonempty := cons_ne_nil _ _
  covers := by
    have hc := hta.covers
    rw [total_cons]
    omega
  shortest := by
    intro shorter hpre hne hp
    obtain ⟨t, rfl, ht⟩ := (prefix_cons_iff.mp hpre).resolve_left hne
    rw [total_cons]
    by_cases hnil : t = []
    · rw [hnil]
      simpa [total] using h
    · have hs := hta.shortest t ht hnil fun heq => hp (by rw [heq])
      omega

/-- Of two initial parts one continues the other. -/
theorem Takes.unique (h : Takes amount inputs taken) (ho : Takes amount inputs other) :
    taken = other := by
  by_contra hne
  obtain hpre | hpre := prefix_or_prefix_of_prefix h.initial ho.initial
  · exact absurd (ho.shortest taken hpre h.nonempty hne) (not_lt.mpr h.covers)
  · exact absurd (h.shortest other hpre ho.nonempty (Ne.symm hne)) (not_lt.mpr ho.covers)

end InputToSpendAndSigSize

namespace MinimumFeeCoinSelectionAlgorithm

open InputToSpendAndSigSize

variable {alg : MinimumFeeCoinSelectionAlgorithm} {tx : CMutableTransaction}
  {vCoins setCoins : List COutput} {fees nFeeRet : Int}

/-! ### The loop -/

theorem insertCoin_of_new {output : COutput}
    (hnew : output.outpoint ∉ inputsSelected.map outpoint) :
    insertCoin inputsSelected output = inputsSelected ++ [output] := by
  refine if_neg fun hany => hnew ?_
  obtain ⟨other, ho, heq⟩ := any_eq_true.mp hany
  exact mem_map.mpr ⟨other, ho, of_decide_eq_true heq⟩

/-- A selection takes the shortest initial part that covers the rest of the amount, and the size
with its signatures decides on the fee. -/
theorem selectFrom_takes {amountCovered : Int} {cummulativeByteSize : Nat}
    (hdist : (inputsSelected.map outpoint ++
      inputs.map fun input => input.output.outpoint).Nodup)
    (h : alg.selectFrom totalAmountNeeded fees inputsSelected amountCovered
      cummulativeByteSize inputs = some (setCoins, nFeeRet)) (hne : setCoins ≠ []) :
    ∃ taken, Takes (totalAmountNeeded - amountCovered) inputs taken ∧
      setCoins = inputsSelected ++ taken.map output ∧
      (cummulativeByteSize + (taken.map sigSize).sum) % 2 ^ 32 < MAX_STANDARD_TX_SIZE ∧
      nFeeRet = fees + min (alg.minRelayTxFee.getFee
        ((cummulativeByteSize + (taken.map sigSize).sum) % 2 ^ 32)) alg.maxTxFee := by
  induction inputs generalizing inputsSelected amountCovered cummulativeByteSize with
  | nil =>
    obtain ⟨rfl, -⟩ := Prod.mk.inj (Option.some.inj h)
    exact absurd rfl hne
  | cons input inputs ih =>
    have hnew : input.output.outpoint ∉ inputsSelected.map outpoint := fun hmem =>
      (nodup_append.mp hdist).2.2 _ hmem _ mem_cons_self rfl
    have hr : ((inputsSelected ++ [input.output]).map outpoint ++
        inputs.map fun input => input.output.outpoint).Nodup := by
      simpa using hdist
    unfold selectFrom at h
    rw [insertCoin_of_new hnew] at h
    split at h
    next => cases h
    next covered hc =>
      obtain ⟨-, rfl⟩ := Checked.check_eq_some_iff.mp hc
      split at h
      next =>
        obtain ⟨rfl, -⟩ := Prod.mk.inj (Option.some.inj h)
        exact absurd rfl hne
      next hsize =>
        split at h
        next he =>
          obtain ⟨paid, hpaid, heq⟩ := map_eq_some_iff.mp h
          obtain ⟨-, rfl⟩ := Checked.check_eq_some_iff.mp hpaid
          obtain ⟨rfl, rfl⟩ := Prod.mk.inj heq
          exact ⟨[input], takes_singleton (by omega), rfl, Nat.not_le.mp hsize, rfl⟩
        next hs =>
          obtain ⟨taken, ht, hcns, hsize, hfee⟩ := ih hr h
          rw [Nat.mod_add_mod, Nat.add_assoc] at hsize hfee
          refine ⟨input :: taken, takes_cons (by omega) ?_, ?_, hsize, hfee⟩
          · rwa [sub_sub]
          · simpa using hcns

/-! ### The selection -/

variable (alg tx fees)

/-- What is set aside for a change. -/
def changeMargin : Int :=
  3 * alg.minRelayTxFee.getFee 182

/-- What has to be covered before the fee is raised. -/
def amountNeeded : Int :=
  tx.getValueOut + alg.changeMargin + fees

/-- The coins as they are tried. -/
def selectionOrder (vCoins : List COutput) : List InputToSpendAndSigSize :=
  alg.sort (alg.amountNeeded tx fees) (alg.inputsToSpend vCoins)

/-- The fee for a size. -/
def sizeFee (size : Nat) : Int :=
  min (alg.minRelayTxFee.getFee size) alg.maxTxFee

/-- The estimated size of a transaction with a change and the signatures of some inputs. -/
def sizeWith (taken : List InputToSpendAndSigSize) : Nat :=
  (tx.getSerializeSize + nominalChangeOutputSize + (taken.map sigSize).sum) % 2 ^ 32

/-- Whether every selection is worth the outputs and the fee. -/
def Covers : Prop :=
  ∀ (tx : CMutableTransaction) (vCoins : List COutput) (fees : Int) (setCoins : List COutput)
    (nFeeRet : Int), (vCoins.map COutput.outpoint).Nodup →
    alg.selectCoins tx vCoins fees = some (setCoins, nFeeRet) → setCoins ≠ [] →
    tx.getValueOut + nFeeRet ≤ (setCoins.map COutput.value).sum

variable {alg tx fees}

theorem selectionOrder_outpoints (hdist : (vCoins.map outpoint).Nodup) :
    ((alg.selectionOrder tx fees vCoins).map fun input => input.output.outpoint).Nodup := by
  have hperm := (alg.sort_perm (alg.amountNeeded tx fees)
    (alg.inputsToSpend vCoins)).map fun input => input.output.outpoint
  refine hperm.nodup_iff.mpr ?_
  rw [inputsToSpend, List.map_map]
  exact hdist

theorem selectCoins_takes (hdist : (vCoins.map outpoint).Nodup)
    (h : alg.selectCoins tx vCoins fees = some (setCoins, nFeeRet)) (hne : setCoins ≠ []) :
    ∃ taken, Takes (alg.amountNeeded tx fees) (alg.selectionOrder tx fees vCoins) taken ∧
      setCoins = taken.map output ∧ sizeWith tx taken < MAX_STANDARD_TX_SIZE ∧
      nFeeRet = fees + alg.sizeFee (sizeWith tx taken) := by
  obtain ⟨available, -, h⟩ := bind_eq_some_iff.mp h
  obtain ⟨minimum, hmin, h⟩ := bind_eq_some_iff.mp h
  obtain ⟨withChange, hwithChange, h⟩ := bind_eq_some_iff.mp h
  obtain ⟨needed, hn, h⟩ := bind_eq_some_iff.mp h
  obtain ⟨-, rfl⟩ := Checked.check_eq_some_iff.mp hmin
  obtain ⟨-, rfl⟩ := Checked.check_eq_some_iff.mp hwithChange
  obtain ⟨-, rfl⟩ := Checked.check_eq_some_iff.mp hn
  split at h
  next =>
    obtain ⟨rfl, -⟩ := Prod.mk.inj (Option.some.inj h)
    exact absurd rfl hne
  next =>
    have hins : (([] : List COutput).map outpoint ++
        (alg.selectionOrder tx fees vCoins).map fun input => input.output.outpoint).Nodup :=
      selectionOrder_outpoints hdist
    obtain ⟨taken, ht, hcns, hsize, hfee⟩ := selectFrom_takes hins h hne
    rw [Nat.mod_add_mod] at hsize hfee
    rw [sub_zero] at ht
    exact ⟨taken, ht, hcns, hsize, hfee⟩

/-- The margin for a change pays for the size. -/
theorem covers_of_sizeFee_le (hdist : (vCoins.map COutput.outpoint).Nodup)
    (h : alg.selectCoins tx vCoins fees = some (setCoins, nFeeRet)) (hne : setCoins ≠ [])
    (hfee : ∀ taken, Takes (alg.amountNeeded tx fees)
        (alg.selectionOrder tx fees vCoins) taken →
      sizeWith tx taken < MAX_STANDARD_TX_SIZE →
      alg.sizeFee (sizeWith tx taken) ≤ alg.changeMargin) :
    tx.getValueOut + nFeeRet ≤ (setCoins.map COutput.value).sum := by
  obtain ⟨taken, ht, rfl, hsize, rfl⟩ := selectCoins_takes hdist h hne
  have hpaid := hfee taken ht hsize
  have hc := ht.covers
  rw [List.map_map]
  change _ ≤ total taken
  unfold amountNeeded at hc
  omega

/-- A coin of a value. -/
private def coinOf (nValue : Int) : COutput where
  tx := { hash := 1, vin := [], vout := [⟨nValue, []⟩] }
  i := 0
  inRange := Nat.one_pos

/-- A coin that is worth no more than the margin is selected for an empty transaction, whatever
the size with its signature. -/
theorem selectCoins_coinOf (hm : Checked.Fits 64 alg.changeMargin) {size : Nat}
    (hsize : size < MAX_STANDARD_TX_SIZE) (hfee : Checked.Fits 64 (alg.sizeFee size))
    (hsig : ∀ script, alg.maxBytesNeededForScriptSig script =
      (size + 2 ^ 32 - 44) % 2 ^ 32) :
    alg.selectCoins {} [coinOf alg.changeMargin] 0 =
      some ([coinOf alg.changeMargin], alg.sizeFee size) := by
  have hb : (44 + (size + 2 ^ 32 - 44) % 2 ^ 32) % 2 ^ 32 = size := by
    unfold MAX_STANDARD_TX_SIZE at hsize
    omega
  have hchk := Checked.check_of_fits hm
  have hmin : alg.calculator.minimumValueForNonDust = some alg.changeMargin :=
    hchk
  have hout : CMutableTransaction.getValueOut {} = 0 := by decide
  have he : (CMutableTransaction.getSerializeSize {} + nominalChangeOutputSize) % 2 ^ 32 = 44 := by
    decide
  have hsort : ∀ input, alg.sort alg.changeMargin [input] = [input] := fun input =>
    perm_singleton.mp (alg.sort_perm _ [input])
  have hsel : alg.selectFrom alg.changeMargin 0 [] 0 44
      [⟨coinOf alg.changeMargin, (size + 2 ^ 32 - 44) % 2 ^ 32⟩] =
      some ([coinOf alg.changeMargin], alg.sizeFee size) := by
    have hv : ∀ sigSize, InputToSpendAndSigSize.value
        ⟨coinOf alg.changeMargin, sigSize⟩ = alg.changeMargin := fun _ => rfl
    rw [selectFrom, hv, zero_add, hchk]
    dsimp only
    rw [hb, if_neg (Nat.not_le.mpr hsize), if_pos (le_refl _), zero_add]
    exact congrArg _ (Checked.check_of_fits hfee)
  have hav : [coinOf alg.changeMargin].foldlM (fun amount input =>
      Checked.check 64 (amount + input.value)) 0 = some alg.changeMargin := by
    have hv : (coinOf alg.changeMargin).value = alg.changeMargin := rfl
    rw [foldlM_cons, hv, zero_add, hchk]
    rfl
  rw [selectCoins, hav, hmin, hout, he]
  simp only [bind_some, bind_eq_bind, zero_add, add_zero, hchk, gt_iff_lt, lt_irrefl, if_false,
    inputsToSpend, map_cons, map_nil, hsig, hsort, hsel]

/-- **The selected coins cover the fee** if the margin for a change pays for the size.  With a fee
rate and a largest fee this holds of all transactions, coins and estimates exactly if the margin
pays for every size that a transaction may have. -/
theorem selectCoins_covers_iff_margin (alg : MinimumFeeCoinSelectionAlgorithm)
    (hmargin : Checked.Fits 64 alg.changeMargin) (hmax : alg.maxTxFee < 2 ^ 63) :
    (∀ (tx : CMutableTransaction) (vCoins : List COutput) (fees : Int) (setCoins : List COutput)
      (nFeeRet : Int), (vCoins.map COutput.outpoint).Nodup →
      alg.selectCoins tx vCoins fees = some (setCoins, nFeeRet) → setCoins ≠ [] →
      (∀ taken, Takes (alg.amountNeeded tx fees) (alg.selectionOrder tx fees vCoins)
          taken →
        alg.sizeFee (sizeWith tx taken) ≤ alg.changeMargin) →
      tx.getValueOut + nFeeRet ≤ (setCoins.map COutput.value).sum) ∧
    ((∀ estimator, Covers { alg with maxBytesNeededForScriptSig := estimator }) ↔
      ∀ size < MAX_STANDARD_TX_SIZE, alg.sizeFee size ≤ alg.changeMargin) := by
  refine ⟨?_, ?_, ?_⟩
  · intro tx vCoins fees setCoins nFeeRet hdist h hne hfee
    exact covers_of_sizeFee_le hdist h hne fun taken ht _ => hfee taken ht
  · intro hc size hsize
    by_contra hnot
    have hfits : Checked.Fits 64 (alg.sizeFee size) := by
      have hle : alg.sizeFee size ≤ alg.maxTxFee := min_le_right _ _
      have hlow := hmargin.1
      exact ⟨by omega, by omega⟩
    obtain ⟨estimator, hsig⟩ : ∃ estimator : CScript → Nat, ∀ script,
        estimator script = (size + 2 ^ 32 - 44) % 2 ^ 32 := ⟨fun _ => _, fun _ => rfl⟩
    have hsel := @selectCoins_coinOf
      { alg with maxBytesNeededForScriptSig := estimator } hmargin size hsize hfits hsig
    have hpaid : CMutableTransaction.getValueOut {} + alg.sizeFee size ≤
        ([coinOf alg.changeMargin].map COutput.value).sum :=
      hc estimator {} [coinOf alg.changeMargin] 0 _ _ (nodup_singleton _) hsel
        (cons_ne_nil _ _)
    have hw : ([coinOf alg.changeMargin].map COutput.value).sum =
        alg.changeMargin := sum_singleton
    have hout : CMutableTransaction.getValueOut {} = 0 := by decide
    omega
  · intro hs estimator tx vCoins fees setCoins nFeeRet hdist h hne
    exact covers_of_sizeFee_le hdist h hne fun taken _ hsize => hs _ hsize

private def exampleAlgorithm : MinimumFeeCoinSelectionAlgorithm where
  calculator := {}
  maxTxFee := COIN
  maxBytesNeededForScriptSig script := 6 * script.length
  sort totalAmountNeeded :=
    List.insertionSort fun a b => less ⟨10000⟩ totalAmountNeeded b a = false
  sort_perm totalAmountNeeded := List.perm_insertionSort _
  sort_sorted totalAmountNeeded := by
    have htot : Std.Total fun a b => less ⟨10000⟩ totalAmountNeeded b a = false :=
      ⟨fun a b => (Bool.eq_false_or_eq_true _).symm.imp_right less_asymm⟩
    have ht : IsTrans InputToSpendAndSigSize
        fun a b => less ⟨10000⟩ totalAmountNeeded b a = false :=
      ⟨fun _ _ _ => not_less_trans⟩
    exact List.pairwise_insertionSort _

/-- A coin with a script of some length. -/
private def coinWithScript (nValue : Int) (length : Nat) : COutput where
  tx := { hash := 1, vin := [], vout := [⟨nValue, List.replicate length 0x51⟩] }
  i := 0
  inRange := Nat.one_pos

private def payment : CMutableTransaction :=
  { vout := [⟨10000, [0x51]⟩] }

theorem selectCoins_covers_small_size :
    exampleAlgorithm.selectCoins payment [coinWithScript 15460 40] 0 =
        some ([coinWithScript 15460 40], 2940) ∧
      payment.getValueOut + 2940 ≤ ([coinWithScript 15460 40].map COutput.value).sum := by
  have hsel : exampleAlgorithm.selectCoins payment [coinWithScript 15460 40] 0 =
      some ([coinWithScript 15460 40], 2940) := by
    decide +kernel
  refine ⟨hsel, (selectCoins_covers_iff_margin exampleAlgorithm (by decide) (by decide)).1
    payment _ 0 _ _ (by decide) hsel (by simp) fun taken ht => ?_⟩
  have hfst : Takes (exampleAlgorithm.amountNeeded payment 0)
      (exampleAlgorithm.selectionOrder payment 0 [coinWithScript 15460 40])
      (exampleAlgorithm.inputsToSpend [coinWithScript 15460 40]) :=
    takes_singleton (by decide +kernel)
  rw [← hfst.unique ht]
  decide +kernel

/-- A coin that covers the output and the margin, but not the fee for its signature. -/
theorem selectCoins_misses_fee :
    exampleAlgorithm.selectCoins payment [coinWithScript 15460 100] 0 =
        some ([coinWithScript 15460 100], 6540) ∧
      ([coinWithScript 15460 100].map COutput.value).sum < payment.getValueOut + 6540 := by
  decide +kernel

end MinimumFeeCoinSelectionAlgorithm

end Divi
