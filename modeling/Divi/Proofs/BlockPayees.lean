/-
What a coinstake is filled with beside the stake passes the check of the next block.

The producer and the validator decide by the same heights and read the same votes, but
compute from different ends: the producer pays the payee with the most votes, the
validator wants some payee with enough of them paid.  `fillBlockPayee_spec` says what
is appended, that it costs at most what the block may mint beside the staking reward,
and that any transaction with these outputs has valid payees.
-/
import Divi.Proofs.LotteryPayments
import Divi.Proofs.Rewards

namespace Divi

open List Option

variable {tip block : CBlockIndex} {rest : BlockPointer} {rewards : CBlockRewards}
  {tx : CTransaction}

/-! ### Votes -/

namespace CMasternodeBlockPayees

variable {payees : CMasternodeBlockPayees}

/-- The running best is one of the payees, or where it started, and nobody has more votes. -/
theorem foldl_best (vecPayments : List CMasternodePayee) (best : Option CScript × Int) :
    let result := vecPayments.foldl (fun (best : Option CScript × Int) p =>
      if p.nVotes > best.2 then (some p.scriptPubKey, p.nVotes) else best) best
    (∀ p ∈ vecPayments, p.nVotes ≤ result.2) ∧
      (result = best ∨ ∃ p ∈ vecPayments, result = (some p.scriptPubKey, p.nVotes)) := by
  induction vecPayments using List.reverseRecOn with
  | nil => exact ⟨nofun, .inl rfl⟩
  | append_singleton before payee ih =>
    obtain ⟨hall, hfrom⟩ := ih
    simp only [foldl_concat, forall_mem_append, forall_mem_singleton]
    split
    next hmore =>
      exact ⟨⟨fun p hp => (hall p hp).trans hmore.le, le_refl _⟩, .inr ⟨payee, by simp, rfl⟩⟩
    next hmore =>
      refine ⟨⟨hall, not_lt.mp hmore⟩, hfrom.imp_right ?_⟩
      rintro ⟨p, hp, hres⟩
      exact ⟨p, mem_append_left _ hp, hres⟩

/-- Nobody has more votes than the payee who is chosen. -/
theorem getPayee_of_votes {payee : CMasternodePayee} (hmem : payee ∈ payees.vecPayments)
    (hv : 0 ≤ payee.nVotes) :
    ∃ best ∈ payees.vecPayments, payees.getPayee = some best.scriptPubKey ∧
      payee.nVotes ≤ best.nVotes := by
  obtain ⟨hall, hfrom⟩ := foldl_best payees.vecPayments (none, -1)
  have hle := hall payee hmem
  rcases hfrom with hst | ⟨best, hbest, hres⟩
  · rw [hst] at hle
    omega
  · rw [hres] at hle
    refine ⟨best, hbest, ?_, hle⟩
    rw [getPayee, hres]

/-- The number of signatures is that of a payee with enough of them, if it is not zero. -/
theorem foldl_maxSignatures (vecPayments : List CMasternodePayee) (start : Int) :
    let result := vecPayments.foldl (fun nMaxSignatures payee =>
      if payee.nVotes ≥ nMaxSignatures ∧ payee.nVotes ≥ MNPAYMENTS_SIGNATURES_REQUIRED then
        payee.nVotes
      else nMaxSignatures) start
    result = start ∨ ∃ payee ∈ vecPayments, MNPAYMENTS_SIGNATURES_REQUIRED ≤ payee.nVotes := by
  intro result
  refine List.foldlRecOn (motive := fun nMaxSignatures : Int => nMaxSignatures = start ∨ _)
    vecPayments _ (.inl rfl) fun nMaxSignatures h payee hp => ?_
  split
  next hmore => exact .inr ⟨payee, hp, hmore.2⟩
  next => exact h

/-- **Paying the payee with the most votes is enough.** -/
theorem isTransactionValid_of_paid {subsidies : Int → Option CBlockRewards}
    (hrew : subsidies payees.nBlockHeight = some rewards)
    (hpaid : ∀ script, payees.getPayee = some script →
      (⟨rewards.nMasternodeReward, script⟩ : CTxOut) ∈ tx.vout) :
    payees.isTransactionValid subsidies tx = some true := by
  simp only [isTransactionValid, hrew, bind_eq_bind, bind_some]
  split
  case isTrue => rfl
  case isFalse hmany =>
    rcases foldl_maxSignatures payees.vecPayments 0 with hzero | ⟨payee, hp, hv⟩
    · rw [hzero] at hmany
      exact absurd (by decide) hmany
    · have hreq : (0 : Int) ≤ MNPAYMENTS_SIGNATURES_REQUIRED := by decide
      obtain ⟨best, hbest, hc, hmore⟩ := getPayee_of_votes hp (by omega)
      have hany : (payees.vecPayments.any fun payee =>
          payee.nVotes ≥ MNPAYMENTS_SIGNATURES_REQUIRED &&
            isPaid tx payee.scriptPubKey rewards.nMasternodeReward) = true := by
        rw [List.any_eq_true]
        refine ⟨best, hbest, ?_⟩
        rw [Bool.and_eq_true]
        refine ⟨decide_eq_true (le_trans hv hmore), ?_⟩
        rw [isPaid, List.any_eq_true]
        exact ⟨_, hpaid _ hc, by simp⟩
      rw [hany]

end CMasternodeBlockPayees

/-! ### The block that is scored -/

/-- The next block is scored by the hash of the same ancestor on the tip and on itself. -/
theorem getBlockHashForScoring_next (hblk : block.nHeight = tip.nHeight + 1)
    (hhigh : 101 ≤ tip.nHeight) :
    getBlockHashForScoring (block :: tip :: rest) 0 = getBlockHashForScoring (tip :: rest) 1 := by
  have hback : (block.nHeight - (block.nHeight + 0 - 101)).toNat = 101 := by omega
  have hback' : (tip.nHeight - (tip.nHeight + 1 - 101)).toNat = 100 := by omega
  simp only [getBlockHashForScoring, BlockPointer.getAncestor]
  rw [if_neg (by omega), if_neg (by omega), hback, hback', drop_succ_cons]

theorem getBlockHashForScoring_some (hhts : BlockPointer.HeightsOK (tip :: rest))
    (hhigh : 101 ≤ tip.nHeight) :
    ∃ seedHash, getBlockHashForScoring (tip :: rest) 1 = some seedHash := by
  have hlen := hhts.1
  have hback : (tip.nHeight - (tip.nHeight + 1 - 101)).toNat = 100 := by omega
  simp only [getBlockHashForScoring, BlockPointer.getAncestor]
  rw [if_neg (by omega), hback]
  have hlt : 100 < (tip :: rest).length := by
    rw [length_cons]
    omega
  rw [List.head?_drop, List.getElem?_eq_getElem hlt]
  exact ⟨_, rfl⟩

/-! ### What the payments cost -/

theorem totalValue_le_of_forall {vout : List CTxOut} (value : Int)
    (h : ∀ out ∈ vout, out.nValue ≤ value) : totalValue vout ≤ vout.length * value := by
  have hsum := sum_le_card_nsmul (vout.map CTxOut.nValue) value (by simpa using h)
  simpa [totalValue] using hsum

/-- Half the reward for one winner and a twentieth for each of ten is no more than it. -/
theorem totalValue_lotteryPayments_le {winners : LotteryCoinstakes}
    (hr : 0 ≤ rewards.nLotteryReward) (hwin : winners.length ≤ 11) :
    totalValue (lotteryPayments rewards winners) ≤ rewards.nLotteryReward := by
  have hbig : nBigReward rewards = rewards.nLotteryReward / 2 := Int.tdiv_eq_ediv_of_nonneg hr
  have hs : nSmallReward rewards = nBigReward rewards / 10 :=
    Int.tdiv_eq_ediv_of_nonneg (by omega)
  cases winners with
  | nil => exact hr
  | cons winner rest =>
    simp only [lotteryPayments, mapIdx_cons, totalValue_cons, if_true]
    have hl : ∀ out ∈ rest.mapIdx fun i winner =>
        (⟨if i + 1 = 0 then nBigReward rewards else nSmallReward rewards, winner.2⟩ : CTxOut),
          out.nValue ≤ nSmallReward rewards := by
      intro out hout
      obtain ⟨i, -, rfl⟩ := mem_mapIdx.mp hout
      simp
    have hre := totalValue_le_of_forall (nSmallReward rewards) hl
    rw [length_mapIdx] at hre
    have hten : (rest.length : Int) * nSmallReward rewards ≤ 10 * nSmallReward rewards := by
      refine Int.mul_le_mul_of_nonneg_right ?_ (by omega)
      rw [length_cons] at hwin
      omega
    omega

namespace CMasternodePayments

/-- Nothing or one output is appended, and the payee by votes is not left out. -/
theorem fillBlockPayee_eq (payments : CMasternodePayments) (chainTip : BlockPointer)
    (tx : CTransaction) (rewards : CBlockRewards) :
    ∃ outs, payments.fillBlockPayee chainTip tx rewards = { tx with vout := tx.vout ++ outs } ∧
      (outs = [] ∨ ∃ payee, outs = [⟨rewards.nMasternodeReward, payee⟩]) ∧
      ∀ seedHash payee, getBlockHashForScoring chainTip 1 = some seedHash →
        payments.getBlockPayee seedHash = some payee →
        (⟨rewards.nMasternodeReward, payee⟩ : CTxOut) ∈ outs := by
  unfold fillBlockPayee
  split
  case h_1 hno =>
    refine ⟨[], by simp, .inl rfl, ?_⟩
    intro seedHash payee hseed
    rw [hno] at hseed
    cases hseed
  case h_2 seedHash hseed =>
    split
    case h_1 payee hp =>
      refine ⟨[⟨rewards.nMasternodeReward, payee⟩], rfl, .inr ⟨payee, rfl⟩, ?_⟩
      intro seedHash' payee' hseed' hp'
      rw [hseed, Option.some.injEq] at hseed'
      rw [← hseed', hp, Option.some.injEq] at hp'
      rw [hp']
      exact mem_singleton.mpr rfl
    case h_2 hn =>
      have hv : ∀ outs : List CTxOut, ∀ seedHash' payee',
          getBlockHashForScoring chainTip 1 = some seedHash' →
          payments.getBlockPayee seedHash' = some payee' →
          (⟨rewards.nMasternodeReward, payee'⟩ : CTxOut) ∈ outs := by
        intro outs seedHash' payee' hseed' hp'
        rw [hseed, Option.some.injEq] at hseed'
        rw [← hseed', hn] at hp'
        cases hp'
      by_cases he : (payments.nextPayeeInQueue chainTip).isEmpty = true
      · simp only [he, if_true]
        exact ⟨[], by simp, .inl rfl, hv _⟩
      · simp only [he]
        exact ⟨_, rfl, .inr ⟨_, rfl⟩, hv _⟩

end CMasternodePayments

namespace BlockIncentivesPopulator

/-! ### The next block -/

/--
A tip that the next block can be built on: its height is past the proof-of-work blocks,
it has no more winners than are paid, and the votes for the next block were recorded for
its height.
-/
structure PayableTip (pop : BlockIncentivesPopulator) (tip : CBlockIndex)
    (rest : BlockPointer) : Prop where
  heights : BlockPointer.HeightsOK (tip :: rest)
  high : 101 ≤ tip.nHeight
  winners : tip.vLotteryWinnersCoinstakes.getLotteryCoinstakes.length ≤ 11
  votes : ∀ seedHash payees, getBlockHashForScoring (tip :: rest) 1 = some seedHash →
    pop.masternodePayments.getPayeesForScoreHash seedHash = some payees →
    payees.nBlockHeight = tip.nHeight + 1

variable {pop : BlockIncentivesPopulator}

section

variable (htip : pop.PayableTip tip rest) (hblk : block.nHeight = tip.nHeight + 1)
  (hrew : pop.getBlockSubsidity (tip.nHeight + 1) = some rewards)

include htip hblk hrew

theorem hasValidMasternodePayee_of_paid
    (hpaid : ∀ seedHash payee, getBlockHashForScoring (tip :: rest) 1 = some seedHash →
      pop.masternodePayments.getBlockPayee seedHash = some payee →
      (⟨rewards.nMasternodeReward, payee⟩ : CTxOut) ∈ tx.vout) :
    pop.hasValidMasternodePayee tx (block :: tip :: rest) = some true := by
  obtain ⟨seedHash, hseed⟩ := getBlockHashForScoring_some htip.heights htip.high
  have hval : pop.masternodePayments.isTransactionValid pop.getBlockSubsidity
      tx seedHash = some true := by
    unfold CMasternodePayments.isTransactionValid
    cases hp : pop.masternodePayments.getPayeesForScoreHash seedHash with
    | none => rfl
    | some payees =>
      have hht := htip.votes seedHash payees hseed hp
      refine CMasternodeBlockPayees.isTransactionValid_of_paid (by rw [hht]; exact hrew) ?_
      intro script hscr
      refine hpaid seedHash script hseed ?_
      rw [CMasternodePayments.getBlockPayee, hp]
      exact hscr
  have hhigh := htip.high
  unfold hasValidMasternodePayee
  cases pop.isSynced with
  | false => rfl
  | true =>
    simp only [Bool.not_true, Bool.false_eq_true, if_false]
    rw [if_neg (by omega), getBlockHashForScoring_next hblk htip.high, hseed]
    simp [hval]

/--
**Filling a coinstake.**  What is appended fits into what the block may mint beside the
staking reward, and whatever transaction holds it has valid payees.
-/
theorem fillBlockPayee_spec (hmn : 0 ≤ rewards.nMasternodeReward)
    (hlot : 0 ≤ rewards.nLotteryReward) (tx : CTransaction) :
    ∃ outs, pop.fillBlockPayee tx rewards (tip :: rest)
        = some { tx with vout := tx.vout ++ outs } ∧
      rewards.nStakeReward + totalValue outs
        ≤ pop.expectedMintCombined rewards (tip.nHeight + 1) ∧
      ∀ filled : CTransaction, (∀ out ∈ outs, out ∈ filled.vout) →
        pop.hasValidPayees filled (block :: tip :: rest) = some true := by
  unfold fillBlockPayee expectedMintCombined hasValidPayees
  simp only [hblk]
  by_cases htrs : pop.chainParams.isValidTreasuryBlockHeight (tip.nHeight + 1) = true
  · simp only [htrs, if_true, fillTreasuryPayment, hrew, bind_eq_bind, bind_some]
    refine ⟨_, rfl, ?_, ?_⟩
    · simp only [treasuryPayments, totalValue_cons, totalValue_nil]
      omega
    · intro filled hf
      rw [(isValidTreasuryPayment_iff rewards filled).mpr hf]
  · simp only [htrs, Bool.false_eq_true, if_false]
    by_cases hlotteryBlock :
        pop.chainParams.isValidLotteryBlockHeight (tip.nHeight + 1) = true
    · simp only [hlotteryBlock, if_true, hrew, bind_eq_bind, bind_some, List.head?_cons]
      refine ⟨_, rfl, ?_, ?_⟩
      · have hcost := totalValue_lotteryPayments_le hlot htip.winners
        omega
      · intro filled hf
        rw [(isValidLotteryPayment_iff rewards filled _).mpr hf]
    · simp only [hlotteryBlock, Bool.false_eq_true, if_false]
      obtain ⟨outs, hfill, hkind, hpaid⟩ :=
        pop.masternodePayments.fillBlockPayee_eq (tip :: rest) tx rewards
      refine ⟨outs, by rw [hfill], ?_, ?_⟩
      · rcases hkind with rfl | ⟨payee, rfl⟩
        · rw [totalValue_nil]
          omega
        · simp only [totalValue_cons, totalValue_nil]
          omega
      · intro filled hf
        refine hasValidMasternodePayee_of_paid htip hblk hrew ?_
        intro seedHash payee hseed hp
        exact hf _ (hpaid seedHash payee hseed hp)

end

end BlockIncentivesPopulator

end Divi
