/-
The superblock schedule.

Below the transition height the two payments follow two coprime periodic sequences;
from it on lottery blocks keep their period and each treasury block follows a
lottery block directly.  `lottery_iff` and `treasury_iff` say what the two tests
amount to, and everything after them is divisibility: the sequences never meet, and
the gap before a payment is the cycle the validator reports at its height, also for
the pair that straddles the switch.
-/
import Divi.ChainParams
import Divi.Lib.Consecutive

namespace Divi

open Consecutive

/-- What the schedule needs of the parameters: coprime cycles and positive starts. -/
structure CChainParams.CoprimeCycles (p : CChainParams) : Prop where
  lottery : 2 ≤ p.nLotteryBlockCycle
  treasury : 2 ≤ p.nTreasuryPaymentsCycle
  coprime : Int.gcd p.nLotteryBlockCycle p.nTreasuryPaymentsCycle = 1
  lotteryStart : 0 < p.nLotteryBlockStartBlock
  treasuryStart : 0 < p.nTreasuryPaymentsStartBlock

namespace CChainParams

variable {p : CChainParams}

/-! ### What the two tests say -/

private theorem tmod_beq_zero (a b : Int) : (a.tmod b == 0) = true ↔ b ∣ a := by
  rw [beq_iff_eq]
  exact (Int.dvd_iff_tmod_eq_zero).symm

theorem dvd_one_of_neighbours {n h : Int} (hn : n ∣ h) (hprev : n ∣ h - 1) : n ∣ 1 := by
  simpa using Int.dvd_sub hn hprev

theorem lottery_dvd_transition (p : CChainParams) : p.nLotteryBlockCycle ∣ p.transitionHeight :=
  ⟨p.nTreasuryPaymentsCycle, rfl⟩

theorem treasury_dvd_transition (p : CChainParams) :
    p.nTreasuryPaymentsCycle ∣ p.transitionHeight :=
  ⟨p.nLotteryBlockCycle, by unfold transitionHeight; ring⟩

/-- A lottery height is a multiple of the cycle, past the start or past the switch. -/
theorem lottery_iff (p : CChainParams) (h : Int) : p.isValidLotteryBlockHeight h = true ↔
      p.nLotteryBlockCycle ∣ h ∧
        (p.nLotteryBlockStartBlock ≤ h ∨ p.transitionHeight ≤ h) := by
  unfold isValidLotteryBlockHeight
  by_cases hlt : h < p.transitionHeight
  · rw [if_pos hlt]
    simp only [Legacy.isValidLotteryBlockHeight, Bool.and_eq_true, decide_eq_true_eq, tmod_beq_zero]
    constructor
    · rintro ⟨hst, hdvd⟩
      exact ⟨hdvd, .inl hst⟩
    · rintro ⟨hdvd, hst | hge⟩
      · exact ⟨hst, hdvd⟩
      · omega
  · rw [if_neg hlt, tmod_beq_zero]
    have hiff : p.nLotteryBlockCycle ∣ h - p.transitionHeight ↔ p.nLotteryBlockCycle ∣ h :=
      dvd_sub_left (lottery_dvd_transition p)
    rw [superblockCycleLength, hiff]
    constructor
    · intro hdvd
      exact ⟨hdvd, .inr (by omega)⟩
    · rintro ⟨hdvd, -⟩
      exact hdvd

/--
A treasury height is a multiple of its own cycle before the switch, and the height
after a multiple of the lottery cycle behind it.  The switch height itself is
neither: it would have to follow a lottery height, and it is one.
-/
theorem treasury_iff (hp : p.CoprimeCycles) (h : Int) : p.isValidTreasuryBlockHeight h = true ↔
      (h < p.transitionHeight ∧ p.nTreasuryPaymentsStartBlock ≤ h ∧ p.nTreasuryPaymentsCycle ∣ h) ∨
        (p.transitionHeight < h ∧ p.nLotteryBlockCycle ∣ h - 1) := by
  unfold isValidTreasuryBlockHeight
  by_cases hlt : h < p.transitionHeight
  · rw [if_pos hlt]
    simp only [Legacy.isValidTreasuryBlockHeight, Bool.and_eq_true, decide_eq_true_eq,
      tmod_beq_zero]
    constructor
    · rintro ⟨hst, hdvd⟩
      exact .inl ⟨hlt, hst, hdvd⟩
    · rintro (⟨-, hst, hdvd⟩ | ⟨hgt, -⟩)
      · exact ⟨hst, hdvd⟩
      · omega
  · rw [if_neg hlt, lottery_iff]
    constructor
    · rintro ⟨hdvd, -⟩
      refine .inr ⟨?_, hdvd⟩
      by_contra hle
      have heq : h = p.transitionHeight := by omega
      rw [heq] at hdvd
      have := Int.le_of_dvd (by omega) (dvd_one_of_neighbours (lottery_dvd_transition p) hdvd)
      have := hp.lottery
      omega
    · rintro (⟨hlt', -⟩ | ⟨hgt, hdvd⟩)
      · exact absurd hlt' hlt
      · exact ⟨hdvd, .inr (by omega)⟩

theorem getLotteryBlockPaymentCycle_eq (p : CChainParams) (h : Int) :
    p.getLotteryBlockPaymentCycle h = p.nLotteryBlockCycle := by
  exact ite_self _

/-! ### No height is both -/

theorem not_lottery_and_treasury (hp : p.CoprimeCycles) (h : Int) :
    ¬ (p.isValidLotteryBlockHeight h = true ∧ p.isValidTreasuryBlockHeight h = true) := by
  rintro ⟨hlot, htre⟩
  obtain ⟨hL, -⟩ := (lottery_iff p h).mp hlot
  rcases (treasury_iff hp h).mp htre with ⟨hlt, hst, hT⟩ | ⟨-, hL'⟩
  · -- Coprime cycles that both divide `h` make the switch height divide it too.
    have hdvd : p.transitionHeight ∣ h :=
      IsCoprime.mul_dvd (Int.isCoprime_iff_gcd_eq_one.mpr hp.coprime) hL hT
    have := Int.le_of_dvd (by have := hp.treasuryStart; omega) hdvd
    omega
  · have := Int.le_of_dvd (by omega) (dvd_one_of_neighbours hL hL')
    have := hp.lottery
    omega

/-! ### The gap before a payment -/

theorem lottery_gap (hL : 0 < p.nLotteryBlockCycle) {P H : Int}
    (h : Pair (fun x => p.isValidLotteryBlockHeight x = true) P H) :
    H - P = p.getLotteryBlockPaymentCycle H := by
  obtain ⟨hPdvd, hPge⟩ := (lottery_iff p P).mp h.left
  obtain ⟨hHdvd, -⟩ := (lottery_iff p H).mp h.right
  have heq : H = P + p.nLotteryBlockCycle := by
    refine h.eq_add_of_dvd (by omega) hPdvd hHdvd fun _ => ?_
    refine (lottery_iff p _).mpr ⟨Int.dvd_add hPdvd (Int.dvd_refl _), ?_⟩
    omega
  rw [getLotteryBlockPaymentCycle_eq]
  omega

section

variable {P H : Int} (hp : p.CoprimeCycles)
  (h : Pair (fun x => p.isValidTreasuryBlockHeight x = true) P H)

include hp h

/--
The pair that straddles the switch: the first payment behind it falls one block
after it, and the last one before it a whole cycle ahead of it.
-/
private theorem treasury_gap_straddle (hPlt : P < p.transitionHeight)
    (hPstart : p.nTreasuryPaymentsStartBlock ≤ P) (hPdvd : p.nTreasuryPaymentsCycle ∣ P)
    (hHgt : p.transitionHeight < H) :
    H = p.transitionHeight + 1 ∧ P + p.nTreasuryPaymentsCycle = p.transitionHeight := by
  have hT := hp.treasury
  have hfst : p.isValidTreasuryBlockHeight (p.transitionHeight + 1) = true := by
    refine (treasury_iff hp _).mpr (.inr ⟨by omega, ?_⟩)
    rw [show p.transitionHeight + 1 - 1 = p.transitionHeight by ring]
    exact lottery_dvd_transition p
  have hHle : H ≤ p.transitionHeight + 1 := h.le_of_mem hfst (by omega)
  have hnext : P + p.nTreasuryPaymentsCycle ≤ p.transitionHeight :=
    add_le_of_dvd hPdvd (treasury_dvd_transition p) hPlt
  refine ⟨by omega, ?_⟩
  by_contra hne
  -- Otherwise the next multiple would be a payment strictly in between.
  have hmem : p.isValidTreasuryBlockHeight (P + p.nTreasuryPaymentsCycle) = true :=
    (treasury_iff hp _).mpr (.inl ⟨by omega, by omega, Int.dvd_add hPdvd (Int.dvd_refl _)⟩)
  have := h.le_of_mem hmem (by omega)
  omega

/-- Both payments behind the switch: the gap is the lottery's cycle. -/
private theorem treasury_gap_above (hPgt : p.transitionHeight < P)
    (hPdvd : p.nLotteryBlockCycle ∣ P - 1) (hHdvd : p.nLotteryBlockCycle ∣ H - 1) :
    H = P + p.nLotteryBlockCycle := by
  have hL := hp.lottery
  have hlt := h.lt
  have hle : P - 1 + p.nLotteryBlockCycle ≤ H - 1 := add_le_of_dvd hPdvd hHdvd (by omega)
  have hmem : p.isValidTreasuryBlockHeight (P + p.nLotteryBlockCycle) = true := by
    refine (treasury_iff hp _).mpr (.inr ⟨by omega, ?_⟩)
    rw [show P + p.nLotteryBlockCycle - 1 = P - 1 + p.nLotteryBlockCycle by ring]
    exact Int.dvd_add hPdvd (Int.dvd_refl _)
  have := h.le_of_mem hmem (by omega)
  omega

theorem treasury_gap : H - P = p.getTreasuryBlockPaymentCycle H := by
  have hlt := h.lt
  unfold getTreasuryBlockPaymentCycle superblockCycleLength
  rcases (treasury_iff hp P).mp h.left with ⟨hPlt, hPstart, hPdvd⟩ | ⟨hPgt, hPdvd⟩
  · rcases (treasury_iff hp H).mp h.right with ⟨hHlt, -, hHdvd⟩ | ⟨hHgt, -⟩
    · have hT := hp.treasury
      have := h.eq_add_of_dvd (by omega) hPdvd hHdvd fun hle => (treasury_iff hp _).mpr
        (.inl ⟨by omega, by omega, Int.dvd_add hPdvd (Int.dvd_refl _)⟩)
      omega
    · obtain ⟨hH, hP⟩ := treasury_gap_straddle hp h hPlt hPstart hPdvd hHgt
      omega
  · rcases (treasury_iff hp H).mp h.right with ⟨hHlt, -, -⟩ | ⟨-, hHdvd⟩
    · omega
    · have := treasury_gap_above hp h hPgt hPdvd hHdvd
      omega

end

/-- The pair that straddles the switch exists whenever payments start early enough. -/
theorem treasury_straddle_pair (hp : p.CoprimeCycles)
    (hst : p.nTreasuryPaymentsStartBlock ≤ p.transitionHeight - p.nTreasuryPaymentsCycle) :
    Pair (fun x => p.isValidTreasuryBlockHeight x = true)
      (p.transitionHeight - p.nTreasuryPaymentsCycle) (p.transitionHeight + 1) := by
  have hT := hp.treasury
  have hdvd : p.nTreasuryPaymentsCycle ∣ p.transitionHeight - p.nTreasuryPaymentsCycle :=
    Int.dvd_sub (treasury_dvd_transition p) (Int.dvd_refl _)
  refine ⟨?_, ?_, by omega, ?_⟩
  · exact (treasury_iff hp _).mpr (.inl ⟨by omega, hst, hdvd⟩)
  · refine (treasury_iff hp _).mpr (.inr ⟨by omega, ?_⟩)
    rw [show p.transitionHeight + 1 - 1 = p.transitionHeight by ring]
    exact lottery_dvd_transition p
  · intro x hgt hlt hx
    rcases (treasury_iff hp x).mp hx with ⟨hxlt, -, hxdvd⟩ | ⟨hxgt, -⟩
    · have := add_le_of_dvd hdvd hxdvd hgt
      omega
    · omega

/--
**The schedule is consistent.**  With coprime cycles no height pays both
superblocks, and the distance between two consecutive payments of one kind is the
cycle the validator reports at the later of the two.
-/
theorem superblock_schedule (p : CChainParams) (hp : p.CoprimeCycles) :
    (∀ h, ¬ (p.isValidLotteryBlockHeight h = true ∧ p.isValidTreasuryBlockHeight h = true)) ∧
    (∀ P H, Pair (fun x => p.isValidTreasuryBlockHeight x = true) P H →
      H - P = p.getTreasuryBlockPaymentCycle H) ∧
    (∀ P H, Pair (fun x => p.isValidLotteryBlockHeight x = true) P H →
      H - P = p.getLotteryBlockPaymentCycle H) :=
  ⟨not_lottery_and_treasury hp, fun _ _ => treasury_gap hp,
    fun _ _ => lottery_gap (by have := hp.lottery; omega)⟩

theorem mainParams_coprimeCycles : mainParams.CoprimeCycles :=
  ⟨by decide, by decide, by decide, by decide, by decide⟩

/--
The main network's cycles, a week and a week and a block, are coprime, and its two
treasury payments around the switch are a week and two blocks apart.
-/
theorem superblock_schedule_main :
    mainParams.CoprimeCycles ∧
    (∀ h, ¬ (mainParams.isValidLotteryBlockHeight h = true ∧
      mainParams.isValidTreasuryBlockHeight h = true)) ∧
    mainParams.transitionHeight + 1 -
        (mainParams.transitionHeight - mainParams.nTreasuryPaymentsCycle) =
      mainParams.getTreasuryBlockPaymentCycle (mainParams.transitionHeight + 1) := by
  have hp := mainParams_coprimeCycles
  obtain ⟨hboth, htrs, -⟩ := superblock_schedule mainParams hp
  exact ⟨hp, hboth, htrs _ _ (treasury_straddle_pair hp (by decide))⟩

end CChainParams

end Divi
