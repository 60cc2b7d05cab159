/-
What a transaction that was created looks like.

The change is what the inputs are worth beyond the outputs and the fee, and dust is added to the
fee, so that inputs less outputs are the fee that is checked in the end.  Signing fills in the
signature scripts and leaves everything else alone.
-/
import Divi.CreateTransaction

namespace Divi

open COutput List Option Wrapping

variable {vout : List CTxOut} {tx txNew : CMutableTransaction}

/-- `GetValueOut` has a result only where it is the exact total. -/
theorem getValueOutFrom_eq_some {nValueOut total : Int}
    (hst : 0 ≤ nValueOut ∧ nValueOut < 2 ^ 63) (hfits : ∀ out ∈ vout, out.nValue < 2 ^ 63)
    (h : CTransaction.getValueOutFrom nValueOut vout = some total) :
    total = nValueOut + totalValue vout := by
  induction vout generalizing nValueOut with
  | nil => simpa [CTransaction.getValueOutFrom] using h.symm
  | cons out rest ih =>
    have hout := hfits out mem_cons_self
    obtain ⟨hnn, h⟩ := ite_none_left_eq_some.mp h
    obtain ⟨hwrap, h⟩ := ite_none_left_eq_some.mp h
    have he : wrap (nValueOut + out.nValue) = nValueOut + out.nValue := by
      by_contra hne
      have hr : ¬ InRange (nValueOut + out.nValue) := mt wrap_eq_self_iff.mpr hne
      have hsub : wrap (nValueOut + out.nValue) = nValueOut + out.nValue - 2 ^ 64 := by
        unfold InRange at hr
        unfold wrap
        rw [Int.bmod_def]
        omega
      omega
    have hr := wrap_inRange (nValueOut + out.nValue)
    rw [ih ⟨by omega, hr.2⟩ (fun o ho => hfits o (mem_cons_of_mem out ho)) h, totalValue_cons]
    omega

namespace TransactionCreator

variable {creator : TransactionCreator} {coinSelector : CoinSelectionAlgorithm}
  {vCoins setCoins : List COutput} {vecSend : List (CScript × Int)}

/-! ### The steps -/

theorem not_dust_of_ensureNoOutputsAreDust (h : creator.ensureNoOutputsAreDust vout = some true) :
    ∀ txout ∈ vout, creator.priorityFeeCalculator.isDust txout = some false := by
  induction vout with
  | nil => simp
  | cons first vout ih =>
    unfold ensureNoOutputsAreDust at h
    split at h
    next => cases h
    next => cases h
    next hfst =>
      intro txout ht
      obtain rfl | hr := mem_cons.mp ht
      · exact hfst
      · exact ih h txout hr

theorem signInputsFrom_eq {signed : CMutableTransaction} {nIn : Nat}
    (h : creator.signInputsFrom tx nIn setCoins = some signed) :
    signed.vin.map CTxIn.prevout = tx.vin.map CTxIn.prevout ∧ signed.vout = tx.vout := by
  induction setCoins generalizing tx nIn with
  | nil =>
    cases h
    exact ⟨rfl, rfl⟩
  | cons coin setCoins ih =>
    unfold signInputsFrom at h
    split at h
    next => cases h
    next scriptSig _ =>
      obtain ⟨hvin, hvout⟩ := ih h
      refine ⟨hvin.trans ?_, hvout⟩
      refine ext_getElem? fun j => ?_
      rw [List.getElem?_map, List.getElem?_map, List.getElem?_modify]
      cases tx.vin[j]? with
      | none => rfl
      | some txin =>
        split
        next => rfl
        next => rfl

theorem attachInputs_eq {nValueIn : Int} (h : attachInputs setCoins tx = some (txNew, nValueIn)) :
    txNew = { tx with
      vin := tx.vin ++ setCoins.map fun coin => { prevout := coin.outpoint } } ∧
      nValueIn = (setCoins.map value).sum := by
  obtain ⟨total, htot, hr⟩ := bind_eq_some_iff.mp h
  obtain ⟨rfl, rfl⟩ := Prod.mk.inj (Option.some.inj hr)
  refine ⟨rfl, ?_⟩
  have hmap : (setCoins.map value).foldlM (fun sum x => Checked.check 64 (sum + x)) 0 =
      some total := by
    rw [foldlM_map]
    exact htot
  have hsum := Checked.eq_add_sum_of_foldlM_check hmap
  omega

/-- The change, if there is one, is not dust and pays for the rest of the inputs. -/
theorem setChangeOutput_cases {totalInputs totalOutputsPlusFees nFeeRet nFeePaid : Int}
    {changeOutput : CTxOut} (hle : totalOutputsPlusFees ≤ totalInputs)
    (h : creator.setChangeOutput totalInputs totalOutputsPlusFees txNew nFeeRet changeOutput =
      some (tx, nFeePaid)) :
    (tx = txNew ∧ nFeePaid = nFeeRet + (totalInputs - totalOutputsPlusFees)) ∨
      ∃ change : CTxOut,
        change = ⟨totalInputs - totalOutputsPlusFees, changeOutput.scriptPubKey⟩ ∧
        creator.priorityFeeCalculator.isDust change = some false ∧
        tx = creator.attachChangeOutput change txNew ∧ nFeePaid = nFeeRet := by
  obtain ⟨nValue, hv, hr⟩ := bind_eq_some_iff.mp h
  obtain ⟨-, rfl⟩ := Checked.check_eq_some_iff.mp hv
  split at hr
  next hpos =>
    obtain ⟨dust, hdust, hr⟩ := bind_eq_some_iff.mp hr
    split at hr
    next =>
      obtain ⟨paid, hpaid, hr⟩ := bind_eq_some_iff.mp hr
      obtain ⟨-, rfl⟩ := Checked.check_eq_some_iff.mp hpaid
      cases hr
      exact .inl ⟨rfl, rfl⟩
    next hc =>
      cases hr
      refine .inr ⟨_, rfl, ?_, rfl, rfl⟩
      rw [hdust, Bool.eq_false_iff.mpr hc]
  next hzero =>
    cases hr
    exact .inl ⟨rfl, by omega⟩

theorem finishTransaction_ok {nFeePaid : Int} {tx : CTransaction}
    (h : creator.finishTransaction setCoins txNew nFeePaid = .ok tx) :
    tx.vin.map CTxIn.prevout = txNew.vin.map CTxIn.prevout ∧ tx.vout = txNew.vout ∧
      tx.toMutable.getSerializeSize < MAX_STANDARD_TX_SIZE ∧
      (creator.fSendFreeTransactions = false →
        creator.getMinimumFee tx.toMutable.getSerializeSize ≤ nFeePaid) := by
  revert h
  fun_cases finishTransaction creator setCoins txNew nFeePaid with
  | case4 signed hsig _ hstat =>
    rintro ⟨⟩
    obtain ⟨hvin, hvout⟩ := signInputsFrom_eq hsig
    refine ⟨hvin, hvout, ?_⟩
    unfold checkFeesAreSufficientAndUpdateFeeAsNeeded at hstat
    simp only at hstat
    split at hstat
    next => cases hstat
    next hsize =>
      refine ⟨Nat.lt_of_not_le hsize, fun hfree => ?_⟩
      split at hstat
      next => cases hstat
      next hfee => simpa [hfree] using hfee
  | _ => nofun

/-! ### The transaction -/

/-- The outputs for the recipients. -/
def recipients (vecSend : List (CScript × Int)) : List CTxOut :=
  vecSend.map fun s => ⟨s.2, s.1⟩

/-- A transaction that spends the coins and pays the recipients. -/
structure Pays (creator : TransactionCreator) (vecSend : List (CScript × Int))
    (setCoins : List COutput) (tx : CTransaction) : Prop where
  inputs : tx.vin.map CTxIn.prevout = setCoins.map COutput.outpoint
  outputs : tx.vout = recipients vecSend ∨
    ∃ i nValue keyID, i ≤ vecSend.length ∧ creator.reservedKeyID = some keyID ∧
      tx.vout = (recipients vecSend).insertIdx i ⟨nValue, getScriptForDestination keyID⟩
  noDust : ∀ txout ∈ tx.vout, creator.priorityFeeCalculator.isDust txout = some false
  size : tx.toMutable.getSerializeSize < MAX_STANDARD_TX_SIZE
  fee_nonneg : 0 ≤ (setCoins.map COutput.value).sum - totalValue tx.vout
  fee : creator.fSendFreeTransactions = false →
    min (creator.priorityFeeCalculator.getFeeRateQuote.getFee tx.toMutable.getSerializeSize)
      creator.maxTxFee ≤ (setCoins.map COutput.value).sum - totalValue tx.vout

theorem totalValue_insertIdx {i : Nat} {txout : CTxOut} (hi : i ≤ vout.length) :
    totalValue (vout.insertIdx i txout) = txout.nValue + totalValue vout := by
  have hperm := (perm_insertIdx txout vout hi).map CTxOut.nValue
  rw [totalValue, hperm.sum_eq]
  rfl

/-- Where the selection succeeds, the transaction has its coins and its change. -/
theorem selectInputs_ok {tx : CTransaction}
    (h : creator.selectInputsProvideSignaturesAndFees coinSelector vCoins txNew = some (.ok tx)) :
    0 < txNew.getValueOut ∧ ∃ keyID, creator.reservedKeyID = some keyID ∧
    ∃ setCoins nFeeRet, coinSelector.selectCoins { txNew with vin := [] } vCoins 0 =
        some (setCoins, nFeeRet) ∧
      txNew.getValueOut + nFeeRet ≤ (setCoins.map value).sum ∧
      ∃ withInputs withChange nFeePaid,
        withInputs = { txNew with vin := setCoins.map fun coin => { prevout := coin.outpoint } } ∧
        creator.setChangeOutput (setCoins.map value).sum (txNew.getValueOut + nFeeRet)
          withInputs nFeeRet ⟨-1, getScriptForDestination keyID⟩ = some (withChange, nFeePaid) ∧
        creator.finishTransaction setCoins withChange nFeePaid = .ok tx := by
  obtain ⟨changeOutput, hc, hr⟩ := bind_eq_some_iff.mp h
  obtain ⟨keyID, hkey, rfl⟩ := map_eq_some_iff.mp hc
  dsimp only at hr
  split at hr
  next => cases hr
  next hpos =>
    obtain ⟨selected, hsel, hr⟩ := bind_eq_some_iff.mp hr
    obtain ⟨attached, ha, hr⟩ := bind_eq_some_iff.mp hr
    obtain ⟨hins, hv⟩ := attachInputs_eq ha
    obtain ⟨total, htot, hr⟩ := bind_eq_some_iff.mp hr
    obtain ⟨-, rfl⟩ := Checked.check_eq_some_iff.mp htot
    split at hr
    next => cases hr
    next hf =>
      obtain ⟨changed, hch, hr⟩ := bind_eq_some_iff.mp hr
      rw [not_or, Int.not_lt, hv] at hf
      rw [hv, hins] at hch
      exact ⟨by simpa using hpos, keyID, hkey, selected.1, selected.2, hsel, hf.2, _,
        changed.1, changed.2, rfl, hch, Option.some.inj hr⟩

theorem getValueOut_of_pos (ha : ∀ s ∈ vecSend, Checked.Fits 64 s.2)
    (hpos : 0 < (appendOutputs vecSend {}).getValueOut) :
    (appendOutputs vecSend {}).getValueOut = totalValue (recipients vecSend) := by
  unfold CMutableTransaction.getValueOut at hpos ⊢
  cases htot : CTransaction.getValueOutFrom 0 (appendOutputs vecSend {}).vout with
  | none =>
    rw [htot] at hpos
    cases hpos
  | some total =>
    have hfits : ∀ out ∈ recipients vecSend, out.nValue < 2 ^ 63 := by
      intro out hout
      obtain ⟨s, hs, rfl⟩ := mem_map.mp hout
      exact (ha s hs).2
    rw [getD_some, getValueOutFrom_eq_some ⟨le_refl 0, by decide⟩ hfits htot, zero_add]

/-- **A transaction that was created pays what it should.** -/
theorem pays_of_createTransaction {tx : CTransaction}
    (hamounts : ∀ s ∈ vecSend, Checked.Fits 64 s.2)
    (h : creator.createTransaction coinSelector vCoins vecSend = some (.ok tx)) :
    ∃ setCoins nFeeRet,
      coinSelector.selectCoins (appendOutputs vecSend {}) vCoins 0 = some (setCoins, nFeeRet) ∧
      setCoins ⊆ vCoins ∧ (setCoins.map COutput.outpoint).Nodup ∧
      creator.Pays vecSend setCoins tx := by
  unfold createTransaction at h
  split at h
  next => cases h
  next =>
    obtain ⟨clean, hc, h⟩ := bind_eq_some_iff.mp h
    cases clean with
    | false => cases h
    | true =>
      have hnoDust := not_dust_of_ensureNoOutputsAreDust hc
      obtain ⟨hpos, keyID, hkey, setCoins, nFeeRet, hsel, hf, withInputs, withChange,
        nFeePaid, rfl, hch, hfi⟩ := selectInputs_ok h
      refine ⟨setCoins, nFeeRet, hsel, coinSelector.subset hsel,
        coinSelector.distinct hsel, ?_⟩
      have hfee := coinSelector.fee_nonneg hsel
      obtain ⟨hvin, hvout, hsize, hmin⟩ := finishTransaction_ok hfi
      rw [getValueOut_of_pos hamounts hpos] at hf hch
      obtain ⟨rfl, hpaid⟩ | ⟨change, hv, hdust, rfl, hpaid⟩ :=
        setChangeOutput_cases hf hch
      · have hins : tx.vin.map CTxIn.prevout = setCoins.map outpoint := by
          rw [hvin, List.map_map]
          rfl
        have houts : tx.vout = recipients vecSend := hvout
        have hpaid' : nFeePaid = (setCoins.map value).sum - totalValue tx.vout := by
          rw [houts]
          omega
        refine ⟨hins, .inl houts, ?_, hsize, by omega, hpaid' ▸ hmin⟩
        rw [houts]
        exact hnoDust
      · have hins : tx.vin.map CTxIn.prevout = setCoins.map outpoint := by
          rw [hvin]
          exact map_map
        obtain ⟨i, hi, hinsert⟩ : ∃ i ≤ (recipients vecSend).length,
            tx.vout = (recipients vecSend).insertIdx i change :=
          ⟨_, Nat.lt_succ_iff.mp (creator.getRandInt_lt _ (Nat.succ_pos _)), hvout⟩
        have hnValue : change.nValue =
            (setCoins.map value).sum - (totalValue (recipients vecSend) + nFeeRet) := by
          rw [hv]
        have hpaid' : nFeePaid = (setCoins.map value).sum - totalValue tx.vout := by
          rw [hinsert, totalValue_insertIdx hi]
          omega
        have hcha : tx.vout = (recipients vecSend).insertIdx i
            ⟨(setCoins.map value).sum - (totalValue (recipients vecSend) + nFeeRet),
              getScriptForDestination keyID⟩ := by
          rw [hinsert, hv]
        refine ⟨hins, .inr ⟨i, _, keyID, by simpa [recipients] using hi, hkey, hcha⟩, ?_,
          hsize, by omega, hpaid' ▸ hmin⟩
        intro txout ht
        rw [hinsert] at ht
        obtain rfl | hr := eq_or_mem_of_mem_insertIdx ht
        · exact hdust
        · exact hnoDust txout hr

/-- Selects the first coin. -/
private def firstCoin : CoinSelectionAlgorithm where
  selectCoins _ vCoins fees := some (vCoins.take 1, fees + 10000)
  subset := by
    intro tx vCoins fees setCoins nFeeRet h
    obtain ⟨rfl, -⟩ := Prod.mk.inj (Option.some.inj h)
    exact List.take_subset 1 vCoins
  distinct := by
    intro tx vCoins fees setCoins nFeeRet h
    obtain ⟨rfl, -⟩ := Prod.mk.inj (Option.some.inj h)
    cases vCoins with
    | nil => exact List.nodup_nil
    | cons coin _ => exact List.nodup_singleton _
  fee_nonneg := by
    intro tx vCoins setCoins nFeeRet h
    obtain ⟨-, rfl⟩ := Prod.mk.inj (Option.some.inj h)
    decide

private def exampleCreator : TransactionCreator where
  priorityFeeCalculator := {}
  maxTxFee := COIN
  canBeSentAsFreeTransaction := fun _ _ _ => false
  getHash := fun _ => 2
  reservedKeyID := some (List.replicate 20 0xaa)
  getRandInt := fun n => n - 1
  getRandInt_lt := fun _ hn => Nat.sub_one_lt_of_lt hn
  signSignature := fun _ _ _ => some [0x51]

private def exampleCoin : COutput where
  tx := { hash := 1, vin := [], vout := [⟨2000000, [0x51]⟩] }
  i := 0
  inRange := by decide

/-- A payment of half of a coin, with change. -/
theorem pays_half_of_coin :
    ∃ tx, exampleCreator.createTransaction firstCoin [exampleCoin]
        [([0x52], 1000000)] = some (.ok tx) ∧
      exampleCreator.Pays [([0x52], 1000000)] [exampleCoin] tx := by
  obtain ⟨setCoins, nFeeRet, hsel, -, -, hpays⟩ :=
    @pays_of_createTransaction exampleCreator firstCoin [exampleCoin]
      [([0x52], 1000000)] _ (by decide) rfl
  obtain ⟨rfl, -⟩ := Prod.mk.inj (Option.some.inj hsel)
  exact ⟨_, rfl, hpays⟩

end TransactionCreator

end Divi
