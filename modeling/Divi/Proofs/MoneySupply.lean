/-
What a block adds to the money supply.

The checks of single transactions keep every amount in range, so each transaction's
issue, outputs less inputs, is exact.  The sums over a block are not checked: the supply
and the mint of a block are the exact sums wrapped to 64 bits.  `money_supply_iff` says
what that costs: the supply is recorded exactly if it fits, and the limit on the mint
limits the issue exactly if the mint has not wrapped more often than the limit.
-/
import Divi.ConnectBlock
import Divi.Proofs.UtxoTotals
import Divi.Lib.Results

namespace Divi

open CCoinsViewCache List Option Wrapping Results ValidationFailure

variable {vtx rest : List CTransaction}
  {nValueIn issued minted nHeight nSpendHeight nValueOut nFees : Int} {block : CBlock}
  {fCheckMerkleRoot fScriptChecks : Bool} {parent index' index : CBlockIndex} {tx : CTransaction}
  {nExpectedMint rewards : CBlockRewards} {vout : List CTxOut} {counted : CTransaction → Bool}
  {before : CCoinsViewCache}

/-! ### Transactions that pass `CheckTransaction` -/

/-- Outputs and their total are in range. -/
structure OutputsInRange (maxMoney : Int) (vout : List CTxOut) : Prop where
  each : ∀ out ∈ vout, moneyRange out.nValue maxMoney = true
  total : moneyRange (totalValue vout) maxMoney = true

theorem checkOutputs_ok {maxMoney : Int} (hst : moneyRange nValueOut maxMoney = true)
    (h : checkOutputs tx maxMoney vout nValueOut = .ok ()) :
    (∀ out ∈ vout, moneyRange out.nValue maxMoney = true) ∧
      moneyRange (nValueOut + totalValue vout) maxMoney = true := by
  induction vout generalizing nValueOut with
  | nil =>
    rw [totalValue_nil, Int.add_zero]
    exact ⟨fun out hout => absurd hout not_mem_nil, hst⟩
  | cons txout rest ih =>
    simp only [checkOutputs, guard_eq_ok] at h
    obtain ⟨-, hv, htot, hr⟩ := h
    simp only [Bool.not_eq_true, Bool.not_eq_false'] at hv htot
    obtain ⟨heach, hsum⟩ := ih htot hr
    refine ⟨?_, ?_⟩
    · intro out hout
      rcases mem_cons.mp hout with rfl | hout
      · exact hv
      · exact heach out hout
    · rw [totalValue_cons, ← Int.add_assoc]
      exact hsum

/-- `GetValueOut` is the exact total where that is in range. -/
theorem getValueOutFrom_eq (hst : 0 ≤ nValueOut) (hnn : ∀ out ∈ vout, 0 ≤ out.nValue)
    (htot : nValueOut + totalValue vout < 2 ^ 63) :
    CTransaction.getValueOutFrom nValueOut vout = some (nValueOut + totalValue vout) := by
  induction vout generalizing nValueOut with
  | nil => rw [totalValue_nil, Int.add_zero, CTransaction.getValueOutFrom]
  | cons out rest ih =>
    have hout := hnn out mem_cons_self
    have hr : ∀ o ∈ rest, 0 ≤ o.nValue := fun o ho => hnn o (mem_cons_of_mem _ ho)
    have hsum : 0 ≤ totalValue rest := by
      refine sum_nonneg ?_
      intro value hv
      obtain ⟨o, ho, rfl⟩ := mem_map.mp hv
      exact hr o ho
    rw [totalValue_cons] at htot ⊢
    have he : wrap (nValueOut + out.nValue) = nValueOut + out.nValue :=
      wrap_eq_self_iff.mpr ⟨by omega, by omega⟩
    rw [CTransaction.getValueOutFrom, he, if_neg (by omega), if_neg (by omega),
      ih (by omega) hr (by omega), Int.add_assoc]

namespace BlockValidation

variable {validation : BlockValidation} {view : CCoinsViewCache}

/-- The largest amount a check lets through. -/
abbrev maxMoney (validation : BlockValidation) : Int :=
  validation.chainParams.nMaxMoneyOut

theorem checkTransaction_ok (hmax : 0 ≤ validation.maxMoney)
    (h : validation.checkTransaction tx = .ok ()) :
    OutputsInRange validation.maxMoney tx.vout := by
  simp only [checkTransaction, guard_eq_ok, bind_eq_ok] at h
  obtain ⟨-, -, -, ⟨⟩, houts, -⟩ := h
  obtain ⟨heach, htot⟩ := checkOutputs_ok (moneyRange_iff.mpr ⟨le_refl 0, hmax⟩) houts
  rw [Int.zero_add] at htot
  exact ⟨heach, htot⟩

theorem getValueOut_eq (hmax : validation.maxMoney < 2 ^ 63)
    (h : OutputsInRange validation.maxMoney tx.vout) :
    tx.getValueOut = some (totalValue tx.vout) := by
  have htot := moneyRange_iff.mp h.total
  have hs : 0 + totalValue tx.vout < 2 ^ 63 := by omega
  have hv := getValueOutFrom_eq (le_refl 0)
    (fun out hout => (moneyRange_iff.mp (h.each out hout)).1) hs
  rw [Int.zero_add] at hv
  exact hv

theorem checkTransactions_ok (hmax : 0 ≤ validation.maxMoney)
    (h : validation.checkTransactions vtx = .ok ()) :
    ∀ tx ∈ vtx, OutputsInRange validation.maxMoney tx.vout := by
  induction vtx with
  | nil => exact fun tx htx => absurd htx not_mem_nil
  | cons first rest ih =>
    simp only [checkTransactions, bind_eq_ok] at h
    obtain ⟨⟨⟩, hfst, hr⟩ := h
    intro tx htx
    rcases mem_cons.mp htx with rfl | htx
    · exact checkTransaction_ok hmax hfst
    · exact ih hr tx htx

/-! ### Inputs -/

theorem checkInputValues_ok {txins : List CTxIn} {result : Int}
    (hav : ∀ txin ∈ txins, ∃ out, view.getOutputFor txin = some out)
    (hst : moneyRange nValueIn validation.maxMoney = true)
    (h : validation.checkInputValues view nSpendHeight txins nValueIn = .ok result) :
    moneyRange result validation.maxMoney = true ∧
      ∃ outs, txins.mapM view.getOutputFor = some outs ∧ result = nValueIn + totalValue outs := by
  induction txins generalizing nValueIn with
  | nil =>
    cases h
    exact ⟨hst, [], rfl, by simp⟩
  | cons txin rest ih =>
    obtain ⟨out, hout⟩ := hav txin mem_cons_self
    have hget := (getOutputFor_eq_some.mp hout).1
    unfold checkInputValues at h
    unfold coinsOf at hget
    cases ha : view.accessCoins txin.prevout.hash with
    | none => simp [ha] at h
    | some coins =>
      simp only [ha, getD_some] at hget h
      simp only [hget, guard_eq_ok, Bool.or_eq_true, not_or] at h
      obtain ⟨-, ⟨-, hr⟩, hre⟩ := h
      simp only [Bool.not_eq_true, Bool.not_eq_false'] at hr
      obtain ⟨hres, outs, houts, hsum⟩ :=
        ih (fun t ht => hav t (mem_cons_of_mem _ ht)) hr hre
      refine ⟨hres, out :: outs, ?_, ?_⟩
      · rw [mapM_cons, hout, houts]
        rfl
      · rw [totalValue_cons, hsum, Int.add_assoc]

theorem haveInputs_available (hbase : tx.isCoinBase = false) (h : view.haveInputs tx = true) :
    ∀ txin ∈ tx.vin, ∃ out, view.getOutputFor txin = some out := by
  intro txin htxin
  simp only [haveInputs, hbase, Bool.false_or, List.all_eq_true] at h
  have hone := h txin htxin
  unfold getOutputFor
  cases ha : view.accessCoins txin.prevout.hash with
  | none => simp [ha] at hone
  | some coins =>
    simp only [ha] at hone ⊢
    rw [if_pos hone]
    unfold CCoins.isAvailable at hone
    cases hget : coins.vout[txin.prevout.n]? with
    | none => simp [hget] at hone
    | some out => exact ⟨out, rfl⟩

/-- Whether a transaction may create money: a coinbase or a coinstake. -/
def mayMint (tx : CTransaction) : Bool :=
  tx.isCoinBase || tx.isCoinStake

/--
What a successful `CheckInputs` found out: the value of the inputs, in range, and as
fees what the outputs leave of it, unless the transaction may mint.
-/
structure InputsChecked (validation : BlockValidation) (view : CCoinsViewCache)
    (tx : CTransaction) (nFees nValueIn : Int) : Prop where
  value : view.getValueIn tx = some nValueIn
  range : moneyRange nValueIn validation.maxMoney = true
  mint : mayMint tx = true → nFees = 0
  fees : mayMint tx = false → nFees = nValueIn - totalValue tx.vout ∧ 0 ≤ nFees

theorem checkFees_ok (houts : tx.getValueOut = some (totalValue tx.vout))
    (h : validation.checkFees tx nValueIn = .ok nFees) :
    (tx.isCoinStake = true → nFees = 0) ∧
      (tx.isCoinStake = false → nFees = nValueIn - totalValue tx.vout ∧ 0 ≤ nFees) := by
  unfold checkFees at h
  cases hs : tx.isCoinStake with
  | true =>
    rw [hs] at h
    cases h
    refine ⟨fun _ => rfl, ?_⟩
    intro hno
    cases hno
  | false =>
    simp only [hs, Bool.false_eq_true, if_false, houts, guard_eq_ok] at h
    obtain ⟨-, hfee, -, hok⟩ := h
    cases hok
    refine ⟨?_, fun _ => ⟨rfl, by omega⟩⟩
    intro hno
    cases hno

theorem checkInputs_ok (hmax : 0 ≤ validation.maxMoney)
    (houts : tx.getValueOut = some (totalValue tx.vout))
    (h : validation.checkInputs tx view nSpendHeight fScriptChecks = .ok (nFees, nValueIn)) :
    validation.InputsChecked view tx nFees nValueIn := by
  unfold checkInputs at h
  cases hbase : tx.isCoinBase with
  | true =>
    rw [hbase] at h
    cases h
    refine ⟨?_, moneyRange_iff.mpr ⟨le_refl 0, hmax⟩, fun _ => rfl, ?_⟩
    · rw [getValueIn, if_pos hbase]
    · intro hno
      rw [mayMint, hbase, Bool.true_or] at hno
      cases hno
  | false =>
    simp only [hbase, Bool.false_eq_true, if_false, guard_eq_ok, bind_eq_ok] at h
    obtain ⟨hhave, value, hvs, fees, hfees, ⟨⟩, -, hok⟩ := h
    cases hok
    simp only [Bool.not_eq_true, Bool.not_eq_false'] at hhave
    obtain ⟨hr, outs, hsp, hsum⟩ := checkInputValues_ok
      (haveInputs_available hbase hhave) (moneyRange_iff.mpr ⟨le_refl 0, hmax⟩) hvs
    obtain ⟨hmint, huser⟩ := checkFees_ok houts hfees
    have hmay : mayMint tx = tx.isCoinStake := by
      rw [mayMint, hbase, Bool.false_or]
    refine ⟨?_, hr, ?_, ?_⟩
    · rw [getValueIn, hbase, hsp, hsum, Int.zero_add]
      rfl
    · rw [hmay]
      exact hmint
    · rw [hmay]
      exact huser

/-! ### The loop over the transactions -/

/--
The exact sum, over the transactions that are counted, of outputs less inputs, each
transaction being applied before the next one is looked at.
-/
def netFlow (counted : CTransaction → Bool) (nHeight : Int) :
    List CTransaction → CCoinsViewCache → Int
  | [], _ => 0
  | tx :: rest, view =>
    (if counted tx then totalValue tx.vout - (view.getValueIn tx).getD 0 else 0) +
      match updateCoinsWithTransaction tx nHeight view with
      | some (after, _) => netFlow counted nHeight rest after
      | none => 0

/-- What a block issues: all its transactions count. -/
def netIssued (nHeight : Int) : List CTransaction → CCoinsViewCache → Int :=
  netFlow (fun _ => true) nHeight

/-- What a block mints: only the transactions count that may mint. -/
def netMinted (nHeight : Int) : List CTransaction → CCoinsViewCache → Int :=
  netFlow mayMint nHeight

/-- How the figures of the block index and the view change with what was issued and minted. -/
structure Accounts (maxMoney : Int) (before after : CheckState) (issued minted : Int) : Prop where
  supply : after.nMoneySupply = wrap (before.nMoneySupply + issued)
  mint : after.nMint = wrap (before.nMint + minted)
  fees : issued ≤ minted
  total : after.view.unspentTotal ≤ before.view.unspentTotal + issued
  values : after.view.ValuesInRange maxMoney

theorem Accounts.trans {maxMoney : Int} {a b c : CheckState} {issued' minted' : Int}
    (h : Accounts maxMoney a b issued minted) (h' : Accounts maxMoney b c issued' minted') :
    Accounts maxMoney a c (issued + issued') (minted + minted') where
  supply := by rw [h'.supply, h.supply, wrap_wrap_add, Int.add_assoc]
  mint := by rw [h'.mint, h.mint, wrap_wrap_add, Int.add_assoc]
  fees := Int.add_le_add h.fees h'.fees
  total := by
    have := h.total
    have := h'.total
    omega
  values := h'.values

/-- The figures of the block index are what 64 bits hold. -/
structure CheckState.InRange (state : CheckState) : Prop where
  supply : Wrapping.InRange state.nMoneySupply
  mint : Wrapping.InRange state.nMint

theorem Accounts.inRange {maxMoney : Int} {before after : CheckState}
    (h : Accounts maxMoney before after issued minted) : after.InRange where
  supply := by
    rw [h.supply]
    exact wrap_inRange _
  mint := by
    rw [h.mint]
    exact wrap_inRange _

section

variable {state after : CheckState}

/-- One transaction: its inputs, its effect on the view, and the accounts. -/
theorem checkNext_ok (hmax : 0 ≤ validation.maxMoney) (hmax' : validation.maxMoney < 2 ^ 63)
    (hvi : state.view.ValuesInRange validation.maxMoney)
    (houts : OutputsInRange validation.maxMoney tx.vout)
    (h : validation.checkNext nExpectedMint nHeight nSpendHeight fScriptChecks state tx
      = .ok after) :
    ∃ nFees nValueIn undo, validation.InputsChecked state.view tx nFees nValueIn ∧
      updateCoinsWithTransaction tx nHeight state.view = some (after.view, undo) ∧
      Accounts validation.maxMoney state after (totalValue tx.vout - nValueIn)
        (totalValue tx.vout - nValueIn + nFees) := by
  have hvalueOut := getValueOut_eq hmax' houts
  simp only [checkNext, checkInputsAndUpdateCoinSupplyRecords, bind_eq_ok, hvalueOut, ofOption] at h
  obtain ⟨nSigOps, -, ⟨supply, mint⟩, ⟨⟨nFees, nValueIn⟩, hins, value, hv, hrecs⟩,
    ⟨⟩, -, ⟨view, undo⟩, hupd, hok⟩ := h
  cases hv
  cases hrecs
  cases hok
  have hchk := checkInputs_ok hmax hvalueOut hins
  have hv' : updateCoinsWithTransaction tx nHeight state.view = some (view, undo) := by
    cases hu : updateCoinsWithTransaction tx nHeight state.view with
    | none =>
      rw [hu] at hupd
      cases hupd
    | some result =>
      rw [hu] at hupd
      cases hupd
      rfl
  obtain ⟨htot, hvs⟩ :=
    updateCoins_total hvi houts.each hchk.value hv'
  refine ⟨nFees, nValueIn, undo, hchk, hv', rfl, rfl, ?_, htot, hvs⟩
  cases hmint : mayMint tx with
  | true =>
    have := hchk.mint hmint
    omega
  | false =>
    have := (hchk.fees hmint).2
    omega

theorem netFlow_cons {value : Int} {view' : CCoinsViewCache} {undo : CTxUndo}
    (hv : view.getValueIn tx = some value)
    (hupd : updateCoinsWithTransaction tx nHeight view = some (view', undo)) :
    netFlow counted nHeight (tx :: rest) view
      = (if counted tx then totalValue tx.vout - value else 0)
        + netFlow counted nHeight rest view' := by
  rw [netFlow, hv, hupd, getD_some]

theorem netFlow_eq_zero (h : ∀ tx ∈ vtx, counted tx = false) (view : CCoinsViewCache) :
    netFlow counted nHeight vtx view = 0 := by
  induction vtx generalizing view with
  | nil => rfl
  | cons tx rest ih =>
    rw [netFlow, h tx mem_cons_self]
    simp only [Bool.false_eq_true, if_false, Int.zero_add]
    split
    · exact ih (fun t ht => h t (mem_cons_of_mem _ ht)) _
    · rfl

/-- **The accounts of a block.** -/
theorem checkLoop_ok (hmax : 0 ≤ validation.maxMoney) (hmax' : validation.maxMoney < 2 ^ 63)
    (hv : state.view.ValuesInRange validation.maxMoney) (hst : state.InRange)
    (houts : ∀ tx ∈ vtx, OutputsInRange validation.maxMoney tx.vout)
    (h : validation.checkLoop nExpectedMint nHeight nSpendHeight fScriptChecks vtx state
      = .ok after) :
    Accounts validation.maxMoney state after (netIssued nHeight vtx state.view)
      (netMinted nHeight vtx state.view) := by
  induction vtx generalizing state with
  | nil =>
    cases h
    have hs : ∀ x : Int, Wrapping.InRange x → x = wrap (x + 0) := by
      intro x hx
      rw [Int.add_zero, wrap_eq_self_iff.mpr hx]
    exact ⟨hs _ hst.supply, hs _ hst.mint, le_refl 0, by simp [netIssued, netFlow],
      hv⟩
  | cons tx rest ih =>
    simp only [checkLoop, bind_eq_ok] at h
    obtain ⟨mid, hnext, hr⟩ := h
    obtain ⟨nFees, nValueIn, undo, hchk, hupd, hone⟩ :=
      checkNext_ok hmax hmax' hv (houts tx mem_cons_self) hnext
    have hos := ih hone.values hone.inRange (fun t ht => houts t (mem_cons_of_mem _ ht))
      hr
    have hi : netIssued nHeight (tx :: rest) state.view
        = totalValue tx.vout - nValueIn + netIssued nHeight rest mid.view :=
      netFlow_cons hchk.value hupd
    have hm : netMinted nHeight (tx :: rest) state.view
        = totalValue tx.vout - nValueIn + nFees + netMinted nHeight rest mid.view := by
      rw [netMinted, netFlow_cons hchk.value hupd]
      cases hmint : mayMint tx with
      | true =>
        rw [if_pos rfl, hchk.mint hmint, Int.add_zero]
      | false =>
        rw [if_neg Bool.false_ne_true, (hchk.fees hmint).1]
        omega
    rw [hi, hm]
    exact hone.trans hos

end

/-! ### The mint of a proof-of-stake block -/

theorem checkCoinBases_ok (h : checkCoinBases vtx = .ok ()) :
    ∃ base rest, vtx = base :: rest ∧ base.isCoinBase = true ∧
      ∀ tx ∈ rest, tx.isCoinBase = false := by
  unfold checkCoinBases at h
  split at h
  case h_1 => cases h
  case h_2 base rest =>
    simp only [guard_eq_ok, Bool.not_eq_true, Bool.not_eq_false', List.any_eq_false] at h
    obtain ⟨hbase, hr, -⟩ := h
    exact ⟨base, rest, rfl, hbase, hr⟩

theorem checkCoinStakes_ok {base stake : CTransaction} (hvtx : block.vtx = base :: stake :: rest)
    (hs : block.isProofOfStake = true) (h : checkCoinStakes block = .ok ()) :
    totalValue base.vout = 0 ∧ ∀ tx ∈ rest, tx.isCoinStake = false := by
  simp only [checkCoinStakes, hs, Bool.not_true, Bool.false_eq_true, if_false, hvtx,
    guard_eq_ok, not_or, not_not] at h
  obtain ⟨⟨hlen, he⟩, -, hr, -⟩ := h
  constructor
  · obtain ⟨out, hvout⟩ := length_eq_one_iff.mp hlen
    have hm : out.nValue = 0 := by
      rw [hvout] at he
      simp only [any_cons, any_nil, Bool.or_false, Bool.not_eq_true', CTxOut.isEmpty,
        Bool.not_eq_false, Bool.and_eq_true, beq_iff_eq] at he
      exact he.1
    rw [hvout, totalValue_cons, totalValue_nil, hm]
    rfl
  · intro tx htx
    simpa using any_eq_false.mp (by simpa using hr) tx htx

/-- What `CheckBlock` says about the transactions of a block. -/
theorem checkBlock_ok (h : validation.checkBlock block fCheckMerkleRoot = .ok ()) :
    checkCoinBases block.vtx = .ok () ∧ checkCoinStakes block = .ok () ∧
      validation.checkTransactions block.vtx = .ok () := by
  simp only [checkBlock, guard_eq_ok, bind_eq_ok] at h
  obtain ⟨-, -, ⟨⟩, -, -, ⟨⟩, hb, ⟨⟩, hs, ⟨⟩, htxs, -⟩ := h
  exact ⟨hb, hs, htxs⟩

/-- Only one transaction of a proof-of-stake block can mint, so its mint is in range. -/
theorem netMinted_proofOfStake (hmax : 0 ≤ validation.maxMoney)
    (hmax' : validation.maxMoney < 2 ^ 63) (hs : block.isProofOfStake = true)
    (hchk : validation.checkBlock block fCheckMerkleRoot = .ok ()) {state after : CheckState}
    (hvi : state.view.ValuesInRange validation.maxMoney)
    (h : validation.checkLoop nExpectedMint nHeight nSpendHeight fScriptChecks block.vtx state
      = .ok after) : Wrapping.InRange (netMinted nHeight block.vtx state.view) := by
  obtain ⟨hb, hst, htxs⟩ := checkBlock_ok hchk
  have houts := checkTransactions_ok hmax htxs
  obtain ⟨base, others, hvtx, hbase, hnotBase⟩ := checkCoinBases_ok hb
  cases others with
  | nil =>
    rw [CBlock.isProofOfStake, hvtx] at hs
    cases hs
  | cons stake rest =>
    obtain ⟨he, hnotStake⟩ := checkCoinStakes_ok hvtx hs hst
    have hisStake : stake.isCoinStake = true := by
      rw [CBlock.isProofOfStake, hvtx] at hs
      exact hs
    rw [hvtx] at h houts ⊢
    simp only [checkLoop, bind_eq_ok] at h
    obtain ⟨mid, hfst, mid', hsnd, -⟩ := h
    obtain ⟨fees, value, undo, hc, hupd, hone⟩ :=
      checkNext_ok hmax hmax' hvi (houts base (by simp)) hfst
    obtain ⟨fees', value', undo', hchk', hupd', -⟩ :=
      checkNext_ok hmax hmax' hone.values (houts stake (by simp)) hsnd
    have hzero : value = 0 := by
      have hv := hc.value
      rw [getValueIn, if_pos hbase, Option.some.injEq] at hv
      exact hv.symm
    have hu : ∀ tx ∈ rest, mayMint tx = false := by
      intro tx htx
      rw [mayMint, hnotBase tx (mem_cons_of_mem _ htx), hnotStake tx htx]
      rfl
    have hm : netMinted nHeight (base :: stake :: rest) state.view
        = totalValue stake.vout - value' := by
      rw [netMinted, netFlow_cons hc.value hupd, netFlow_cons hchk'.value hupd',
        netFlow_eq_zero hu, mayMint, mayMint, hbase, hisStake, he, hzero]
      simp
    have hin := moneyRange_iff.mp hchk'.range
    have hout := moneyRange_iff.mp (houts stake (by simp)).total
    exact ⟨by omega, by omega⟩

/-! ### The limit on the mint -/

/-- The most a block of a height may mint, without fees. -/
abbrev limit (validation : BlockValidation) (rewards : CBlockRewards) (nHeight : Int) : Int :=
  validation.incentives.expectedMintCombined rewards nHeight

theorem expectedMintCombined_stake (pop : BlockIncentivesPopulator) (rewards : CBlockRewards)
    (nStakeReward nHeight : Int) :
    pop.expectedMintCombined { rewards with nStakeReward := nStakeReward } nHeight
      = pop.expectedMintCombined rewards nHeight - rewards.nStakeReward + nStakeReward := by
  simp only [BlockIncentivesPopulator.expectedMintCombined]
  omega

/-- The limit with the fees, which only a proof-of-work block may mint. -/
theorem wrap_expected (isProofOfWork : Bool) (rewards : CBlockRewards) {supply : Int} :
    wrap (validation.limit (calculateFees isProofOfWork (wrap minted) (wrap (supply + issued))
        supply rewards) nHeight)
      = wrap (validation.limit rewards nHeight + if isProofOfWork then minted - issued else 0) := by
  cases isProofOfWork with
  | false => simp [calculateFees]
  | true =>
    have hfees : wrap (wrap minted - wrap (wrap (supply + issued) - supply))
        = wrap (minted - issued) := by
      rw [wrap_wrap_sub (supply + issued), wrap_wrap_sub, wrap_sub_wrap]
      congr 1
      omega
    simp only [limit, calculateFees, if_true, expectedMintCombined_stake, hfees]
    rw [wrap_add_wrap, ← Int.add_assoc, Int.sub_add_cancel, wrap_add_wrap]

/-- What a successful `ConnectBlock` went through. -/
structure Connected (validation : BlockValidation) (block : CBlock) (index parent : CBlockIndex)
    (view : CCoinsViewCache) (rewards : CBlockRewards) (state : CheckState) : Prop where
  loop : ∃ fScriptChecks, validation.checkLoop rewards index.nHeight (parent.nHeight + 1)
    fScriptChecks block.vtx { view := view, nMoneySupply := parent.nMoneySupply } = .ok state
  mint : state.nMint ≤ wrap (validation.limit (calculateFees (!block.isProofOfStake) state.nMint
    state.nMoneySupply parent.nMoneySupply rewards) index.nHeight)

theorem checkMintTotals_ok {pindex : BlockPointer} {nMint : Int} {expected : CBlockRewards}
    (h : validation.checkMintTotalsAndBlockPayees block pindex nMint nHeight expected = .ok ()) :
    nMint ≤ wrap (validation.limit expected nHeight) := by
  unfold checkMintTotalsAndBlockPayees at h
  simp only [] at h
  split at h
  case h_1 => cases h
  case h_2 =>
    rw [guard_eq_ok] at h
    exact not_lt.mp h.1

theorem connectBlock_ok {prev : BlockPointer} {tip tip' : CoinsTip}
    {fJustCheck fAlreadyChecked : Bool} (hgen : block.hash ≠ validation.hashGenesisBlock)
    (hrew : validation.incentives.getBlockSubsidity index.nHeight = some rewards)
    (h : validation.connectBlock block (index :: parent :: prev) tip fJustCheck fAlreadyChecked
      = .ok (index', tip')) :
    ∃ state, validation.Connected block index parent tip.view rewards state ∧
      index'.nMoneySupply = state.nMoneySupply ∧ tip'.view = state.view := by
  simp only [connectBlock, bind_eq_ok, guard_eq_ok, if_neg hgen] at h
  obtain ⟨⟨⟩, -, -, ⟨connected, view⟩, hconn, hok⟩ := h
  cases hok
  simp only [connectTransactions, bind_eq_ok, hrew, ofOption, List.head?_cons] at hconn
  obtain ⟨⟨⟩, -, expected, he, found, hf, state, hloop, ⟨⟩, hmint, ⟨⟩, -, hres⟩ :=
    hconn
  cases he
  cases hf
  cases hres
  exact ⟨state, ⟨⟨_, hloop⟩, checkMintTotals_ok hmint⟩, rfl, rfl⟩

/-- What is known of a block that was accepted, in terms of what it issued and minted. -/
structure Settled (validation : BlockValidation) (block : CBlock) (parent index' : CBlockIndex)
    (before after : CCoinsViewCache) (limit issued minted : Int) : Prop where
  supply : index'.nMoneySupply = wrap (parent.nMoneySupply + issued)
  fees : issued ≤ minted
  mint : wrap minted ≤ wrap (limit + if block.isProofOfStake then 0 else minted - issued)
  stake : block.isProofOfStake = true → Wrapping.InRange minted
  total : after.unspentTotal ≤ before.unspentTotal + issued

theorem Connected.settled {state : CheckState}
    (h : validation.Connected block index parent before rewards state)
    (hidx : index'.nMoneySupply = state.nMoneySupply)
    (hchk : validation.checkBlock block fCheckMerkleRoot = .ok ())
    (hv : before.ValuesInRange validation.maxMoney) (hmax : 0 ≤ validation.maxMoney)
    (hmax' : validation.maxMoney < 2 ^ 63) (hsup : Wrapping.InRange parent.nMoneySupply) :
    validation.Settled block parent index' before state.view
      (validation.limit rewards index.nHeight) (netIssued index.nHeight block.vtx before)
      (netMinted index.nHeight block.vtx before) := by
  obtain ⟨⟨fScriptChecks, hloop⟩, hmint⟩ := h
  have hzero : Wrapping.InRange 0 := by decide
  have houts := checkTransactions_ok hmax (checkBlock_ok hchk).2.2
  have ha := checkLoop_ok hmax hmax' hv ⟨hsup, hzero⟩ houts hloop
  have hm : state.nMint = wrap (0 + netMinted index.nHeight block.vtx before) := ha.mint
  have hrec : state.nMoneySupply
      = wrap (parent.nMoneySupply + netIssued index.nHeight block.vtx before) := ha.supply
  rw [Int.zero_add] at hm
  refine ⟨hidx.trans hrec, ha.fees, ?_, ?_, ha.total⟩
  · rw [hm, hrec, wrap_expected] at hmint
    cases hs : block.isProofOfStake with
    | false =>
      rw [hs] at hmint
      exact hmint
    | true =>
      rw [hs] at hmint
      exact hmint
  · intro hs
    exact netMinted_proofOfStake hmax hmax' hs hchk hv hloop

/-- The limit on the mint limits the issue unless the mint has wrapped more often. -/
theorem Settled.issued_le_iff {after : CCoinsViewCache} {limit : Int}
    (h : validation.Settled block parent index' before after limit issued minted)
    (hlim : Wrapping.InRange limit) :
    issued ≤ limit ↔ wraps minted ≤ wraps (limit + (minted - issued)) := by
  have hmint := h.mint
  have hfees := h.fees
  cases hs : block.isProofOfStake with
  | false =>
    rw [hs, if_neg Bool.false_ne_true] at hmint
    rw [← le_iff_wraps_le hmint]
    constructor
    · intro hle
      omega
    · intro hle
      omega
  | true =>
    -- a single coinstake: nothing wraps, and fees are destroyed
    have hm := h.stake hs
    rw [hs, if_pos rfl, Int.add_zero, wrap_eq_self_iff.mpr hm,
      wrap_eq_self_iff.mpr hlim] at hmint
    have hlow := hlim.1
    constructor
    · intro _
      rw [wraps_eq_zero hm]
      exact wraps_nonneg (by omega)
    · intro _
      exact le_trans hfees hmint

/--
**When the money supply is kept.**

A block that is accepted changes the recorded money supply by exactly what it issues,
issues at most what its height allows, and adds at most that to the unspent outputs,
exactly if the new supply fits into 64 bits and the mint has not wrapped around more
often than the limit, with all fees, that it is compared with.
-/
theorem money_supply_iff (validation : BlockValidation) (block : CBlock)
    (index parent index' : CBlockIndex) (prev : BlockPointer) (tip tip' : CoinsTip)
    (rewards : CBlockRewards) (fCheckMerkleRoot fJustCheck fAlreadyChecked : Bool)
    (hgen : block.hash ≠ validation.hashGenesisBlock)
    (hchk : validation.checkBlock block fCheckMerkleRoot = .ok ())
    (hconn : validation.connectBlock block (index :: parent :: prev) tip fJustCheck
      fAlreadyChecked = .ok (index', tip'))
    (hrew : validation.incentives.getBlockSubsidity index.nHeight = some rewards)
    (hview : tip.view.ValuesInRange validation.maxMoney)
    (hmax : 0 ≤ validation.maxMoney ∧ validation.maxMoney < 2 ^ 63)
    (hsup : Wrapping.InRange parent.nMoneySupply)
    (hlim : Wrapping.InRange (validation.limit rewards index.nHeight)) :
    (index'.nMoneySupply - parent.nMoneySupply = netIssued index.nHeight block.vtx tip.view ∧
      netIssued index.nHeight block.vtx tip.view ≤ validation.limit rewards index.nHeight ∧
      tip'.view.unspentTotal
        ≤ tip.view.unspentTotal + netIssued index.nHeight block.vtx tip.view) ↔
    (Wrapping.InRange (parent.nMoneySupply + netIssued index.nHeight block.vtx tip.view) ∧
      wraps (netMinted index.nHeight block.vtx tip.view)
        ≤ wraps (validation.limit rewards index.nHeight +
          (netMinted index.nHeight block.vtx tip.view
            - netIssued index.nHeight block.vtx tip.view))) := by
  obtain ⟨state, hc, hidx, htip⟩ := connectBlock_ok hgen hrew hconn
  have hset := hc.settled hidx hchk hview hmax.1 hmax.2 hsup
  have htot := hset.total
  rw [hset.issued_le_iff hlim, hset.supply, htip, ← wrap_eq_self_iff]
  constructor
  · intro h
    exact ⟨by omega, h.2.1⟩
  · intro h
    exact ⟨by omega, h.2, htot⟩

/-! ### Proof-of-work blocks with coinstakes on the main network -/

def mainValidation : BlockValidation where
  incentives := { chainParams := mainParams, scriptForAddress := fun _ => [] }
  hashGenesisBlock := 0

/-- A view with one output of one unit in each of the given number of transactions. -/
def fundedView : Nat → CCoinsViewCache
  | 0 => {}
  | n + 1 => (fundedView n).setCoins (BitVec.ofNat 256 (n + 1))
      { vout := [⟨1, [OP_1]⟩], nHeight := 1 }

theorem fundedView_valuesInRange (n : Nat) :
    (fundedView n).ValuesInRange mainValidation.maxMoney := by
  induction n with
  | zero =>
    intro txid i out hout
    cases hout.1
  | succ n ih =>
    intro txid i out hout
    rcases CCoinsViewCache.HasOutput_setCoins hout with ⟨-, hnew⟩ | hold
    · have hmem := mem_of_getElem? hnew.1
      rw [mem_singleton.mp hmem]
      decide
    · exact ih txid i out hold

def spending (hash n : Nat) (vout : List CTxOut) : CTransaction where
  hash := BitVec.ofNat 256 hash
  vin := [{ prevout := ⟨BitVec.ofNat 256 n, 0⟩ }]
  vout := vout

/-- Coinstakes that spend one unit and create the largest amount each. -/
def mintingStakes : Nat → List CTransaction
  | 0 => []
  | n + 1 => spending (2000 + n) (n + 2)
      [CTxOut.empty, ⟨mainParams.nMaxMoneyOut, [OP_1]⟩] :: mintingStakes n

/-- A proof-of-work block, since its second transaction is not a coinstake. -/
def stakesBlock (reward : Int) (n : Nat) : CBlock where
  hash := 9
  hashPrevBlock := 8
  nTime := 0
  vtx :=
    { hash := 1000
      vin := [{ prevout := COutPoint.null, scriptSig := [OP_1, OP_1] }]
      vout := [⟨reward, [OP_1]⟩] } ::
    spending 3000 1 [⟨1, [OP_1]⟩] :: mintingStakes n

def premineIndex : CBlockIndex where
  phashBlock := 8
  nHeight := 1
  nMoneySupply := mainParams.premineAmt

def secondIndex : CBlockIndex where
  phashBlock := 9
  nHeight := 2

def secondRewards : CBlockRewards := ⟨1250 * COIN, 0, 0, 0, 0, 0⟩

/-- The second block with its full reward keeps the money supply. -/
theorem money_supply_second_block :
    ∃ index' tip', mainValidation.connectBlock (stakesBlock (1250 * COIN) 0)
        [secondIndex, premineIndex] ⟨fundedView 1, 8⟩ false false = .ok (index', tip') ∧
      index'.nMoneySupply - premineIndex.nMoneySupply
        = netIssued 2 (stakesBlock (1250 * COIN) 0).vtx (fundedView 1) ∧
      netIssued 2 (stakesBlock (1250 * COIN) 0).vtx (fundedView 1)
        ≤ mainValidation.limit secondRewards 2 ∧
      tip'.view.unspentTotal ≤ (fundedView 1).unspentTotal
        + netIssued 2 (stakesBlock (1250 * COIN) 0).vtx (fundedView 1) := by
  obtain ⟨⟨index', tip'⟩, hconn, -⟩ : ∃ result, mainValidation.connectBlock
      (stakesBlock (1250 * COIN) 0) [secondIndex, premineIndex] ⟨fundedView 1, 8⟩ false false =
        .ok result ∧ True := by
    decide +kernel
  refine ⟨index', tip', hconn, ?_⟩
  exact (money_supply_iff mainValidation (stakesBlock (1250 * COIN) 0) secondIndex premineIndex
    index' [] ⟨fundedView 1, 8⟩ tip' secondRewards true false false (by decide) (by decide +kernel)
    hconn (by decide) (fundedView_valuesInRange 1) (by decide) (by decide) (by decide)).mpr
    (by decide +kernel)

/-- With 37 coinstakes that create the largest amount, the mint is negative when it is checked. -/
theorem wrapped_mint_accepted :
    (stakesBlock 0 37).hash ≠ mainValidation.hashGenesisBlock ∧
    mainValidation.checkBlock (stakesBlock 0 37) true = .ok () ∧
    mainValidation.incentives.getBlockSubsidity secondIndex.nHeight = some secondRewards ∧
    (fundedView 38).ValuesInRange mainValidation.maxMoney ∧
    ∃ index' tip', mainValidation.connectBlock (stakesBlock 0 37) [secondIndex, premineIndex]
        ⟨fundedView 38, 8⟩ false false = .ok (index', tip') ∧
      ¬ (index'.nMoneySupply - premineIndex.nMoneySupply
          = netIssued 2 (stakesBlock 0 37).vtx (fundedView 38)) ∧
      ¬ (netIssued 2 (stakesBlock 0 37).vtx (fundedView 38)
          ≤ mainValidation.limit secondRewards 2) := by
  obtain ⟨⟨index', tip'⟩, hconn, hsup⟩ : ∃ result, mainValidation.connectBlock
      (stakesBlock 0 37) [secondIndex, premineIndex] ⟨fundedView 38, 8⟩ false false =
        .ok result ∧ result.1.nMoneySupply = -9008035242109551653 := by
    decide +kernel
  have hi : netIssued 2 (stakesBlock 0 37).vtx (fundedView 38) = 9376986589999999963 := by
    decide +kernel
  refine ⟨by decide, by decide +kernel, by decide, fundedView_valuesInRange 38, index', tip',
    hconn, ?_, ?_⟩
  · rw [hsup, hi]
    decide
  · rw [hi]
    decide

end BlockValidation

end Divi
