/-
Which of twelve candidates is left out.

With uniform winners a full list and a further coinstake make twelve candidates.  The one
that is meant to go is the lowest of those that are outscored by another candidate with
the same script.  The source marks repeated scripts before it sorts, and the new
coinstake comes last in that order.  So where the new coinstake is the best of its script,
it is marked in place of the winner it overtakes, and that shows whenever no marked winner
scores below the overtaken one.
-/
import Divi.Proofs.UniformWinners

namespace Divi

open List

namespace LotteryWinnersCalculator

open Ranking

variable {c : LotteryCoinstake}
  {score : LotteryCoinstake → Nat} {l : LotteryCoinstakes} {x : LotteryCoinstake}
  {calculator : LotteryWinnersCalculator}

/-- Another candidate with the same script has a higher score. -/
def Outscored (score : LotteryCoinstake → Nat) (candidates : LotteryCoinstakes)
    (c : LotteryCoinstake) : Prop :=
  ∃ d ∈ candidates, d.2 = c.2 ∧ score c < score d

/-- The candidate to leave out: the lowest of the outscored ones, or of all. -/
structure LeavesOutLowest (score : LotteryCoinstake → Nat) (candidates : LotteryCoinstakes)
    (left : LotteryCoinstake) : Prop where
  repeated : (∃ c ∈ candidates, Outscored score candidates c) →
    Outscored score candidates left ∧
      ∀ c ∈ candidates, Outscored score candidates c → score left ≤ score c
  unrepeated : (candidates.map Prod.snd).Nodup → ∀ c ∈ candidates, score left ≤ score c

/--
The new coinstake beats a winner with its script, and no winner that scores below that one
is outscored within the list.
-/
def Overtakes (score : LotteryCoinstake → Nat) (l : LotteryCoinstakes) (x : LotteryCoinstake) :
    Prop :=
  ∃ f ∈ l, f.2 = x.2 ∧ score f < score x ∧ ∀ d ∈ l, Outscored score l d → score f < score d

/-! ### What the source marks -/

/-- In a ranked list the repeated scripts are those that are outscored. -/
theorem isRepeat_iff_outscored (hl : Descending score l) (hs : (l.map score).Nodup)
    (hhs : DistinctHashes l) (hc : c ∈ l) : isRepeat l c = true ↔ Outscored score l c := by
  obtain ⟨earlier, later, rfl⟩ := append_of_mem hc
  rw [isRepeat_split hhs]
  obtain ⟨-, hla, hpre⟩ := pairwise_append.mp hl
  obtain ⟨hb, -⟩ := pairwise_cons.mp hla
  rw [map_append, map_cons] at hs
  constructor
  · intro hmem
    obtain ⟨d, hd, hscr⟩ := mem_map.mp hmem
    have hle := hpre d hd c mem_cons_self
    have hne := (nodup_append.mp hs).2.2 (score d) (mem_map_of_mem hd) (score c)
      mem_cons_self
    exact ⟨d, mem_append_left _ hd, hscr, lt_of_le_of_ne hle hne.symm⟩
  · rintro ⟨d, hd, hscr, hlt⟩
    rcases mem_append.mp hd with hf | hr
    · exact hscr ▸ mem_map_of_mem hf
    · rcases mem_cons.mp hr with rfl | hback
      · exact absurd hlt (lt_irrefl _)
      · exact absurd hlt (not_lt.mpr (hb d hback))

/-- The candidate a step leaves out is the lowest marked one, or the lowest of all. -/
theorem UniformStep.leftOut {next : LotteryCoinstakes} (h : UniformStep score l x next)
    (hfull : l.length = 11) (hl : Descending score l) :
    ∃ left, (left :: next).Perm (l ++ [x]) ∧
      ((∃ c ∈ l ++ [x], isRepeat (l ++ [x]) c = true) →
        isRepeat (l ++ [x]) left = true ∧
          ∀ c ∈ l ++ [x], isRepeat (l ++ [x]) c = true → score left ≤ score c) ∧
      ((∀ c ∈ l ++ [x], isRepeat (l ++ [x]) c = false) →
        ∀ c ∈ l ++ [x], score left ≤ score c) := by
  have hperm := perm_append_place score l x
  have hp : Descending score (place score x l) := place_descending hl
  cases h with
  | room hroom => omega
  | @repeated front back marked hfull' hs hr hback =>
    rw [hs] at hperm hp
    obtain ⟨-, -, hpre⟩ := pairwise_append.mp hp
    refine ⟨marked, perm_middle.symm.trans hperm, fun _ => ⟨hr, ?_⟩, ?_⟩
    · intro c hc hm
      rcases mem_append.mp (hperm.mem_iff.mpr hc) with hf | hre
      · exact hpre c hf marked mem_cons_self
      · rcases mem_cons.mp hre with rfl | hback'
        · exact le_refl _
        · rw [hback c hback'] at hm
          cases hm
    · intro hn
      rw [hn marked (hperm.mem_iff.mp (mem_append_right front mem_cons_self))]
        at hr
      cases hr
  | lowest hfull' hn =>
    have hne : place score x l ≠ [] := by
      intro hnil
      have hlen := length_place score x l
      rw [hnil] at hlen
      cases hlen
    have hs := dropLast_append_getLast hne
    refine ⟨(place score x l).getLast hne, ?_, ?_, fun _ => ?_⟩
    · refine (perm_append_singleton _ _).symm.trans ?_
      rw [hs]
      exact hperm
    · rintro ⟨c, hc, hm⟩
      rw [hn c (hperm.mem_iff.mpr hc)] at hm
      cases hm
    · intro c hc
      have hmem := hperm.mem_iff.mpr hc
      rw [← hs] at hp hmem
      rcases mem_append.mp hmem with hf | hla
      · exact (pairwise_append.mp hp).2.2 c hf _ mem_cons_self
      · rw [mem_singleton.mp hla]

/-! ### When that is the right one -/

/-- A ranked list and a further coinstake, all with different hashes and scores. -/
structure Candidates (score : LotteryCoinstake → Nat) (l : LotteryCoinstakes)
    (x : LotteryCoinstake) : Prop where
  ranked : Descending score l
  scores : ((l ++ [x]).map score).Nodup
  hashes : DistinctHashes (l ++ [x])

theorem Candidates.scores_init (h : Candidates score l x) : (l.map score).Nodup := by
  have hs := h.scores
  rw [map_append] at hs
  exact (nodup_append.mp hs).1

theorem Candidates.score_ne (h : Candidates score l x) (hc : c ∈ l) : score c ≠ score x := by
  have hs := h.scores
  rw [map_append] at hs
  exact (nodup_append.mp hs).2.2 _ (mem_map_of_mem hc) _ mem_cons_self

theorem Candidates.marks_iff (h : Candidates score l x) (hc : c ∈ l) :
    isRepeat (l ++ [x]) c = true ↔ Outscored score l c := by
  rw [isRepeat_append h.hashes hc]
  exact isRepeat_iff_outscored h.ranked h.scores_init h.hashes.init hc

theorem Outscored.append (h : Outscored score l c) : Outscored score (l ++ [x]) c := by
  obtain ⟨d, hd, hscr, hlt⟩ := h
  exact ⟨d, mem_append_left [x] hd, hscr, hlt⟩

/-- An outscored candidate is marked, or the new coinstake is and outscores it. -/
theorem Candidates.outscored_cases (h : Candidates score l x) (hc : c ∈ l ++ [x])
    (hout : Outscored score (l ++ [x]) c) :
    isRepeat (l ++ [x]) c = true ∨
      (c ∈ l ∧ c.2 = x.2 ∧ score c < score x ∧ isRepeat (l ++ [x]) x = true) := by
  obtain ⟨d, hd, hscr, hlt⟩ := hout
  rcases mem_append.mp hc with hcl | hcx
  · rcases mem_append.mp hd with hdl | hdx
    · exact .inl ((h.marks_iff hcl).mpr ⟨d, hdl, hscr, hlt⟩)
    · rw [mem_singleton.mp hdx] at hscr hlt
      refine .inr ⟨hcl, hscr.symm, hlt, (isRepeat_last h.hashes).mpr ?_⟩
      exact hscr ▸ mem_map_of_mem hcl
  · rw [mem_singleton.mp hcx] at hscr hlt ⊢
    rcases mem_append.mp hd with hdl | hdx
    · exact .inl ((isRepeat_last h.hashes).mpr (hscr ▸ mem_map_of_mem hdl))
    · rw [mem_singleton.mp hdx] at hlt
      exact absurd hlt (lt_irrefl _)

theorem no_repeat_of_nodup {candidates : LotteryCoinstakes}
    (hnd : (candidates.map Prod.snd).Nodup) (hc : c ∈ candidates) :
    isRepeat candidates c = false := by
  by_contra hne
  obtain ⟨d, hd, hdne, hscr⟩ := exists_of_isRepeat (by simpa using hne)
  exact hdne (inj_on_of_nodup_map hnd hd hc hscr)

section

variable {left : LotteryCoinstake} (h : Candidates score l x)
  (hlo : (∃ c ∈ l ++ [x], isRepeat (l ++ [x]) c = true) →
    isRepeat (l ++ [x]) left = true ∧
      ∀ c ∈ l ++ [x], isRepeat (l ++ [x]) c = true → score left ≤ score c)

include h hlo

/-- An overtaken winner would have had to go, and stays. -/
theorem not_overtakes_of_lowest (hleft : left ∈ l ++ [x])
    (hr : LeavesOutLowest score (l ++ [x]) left) : ¬ Overtakes score l x := by
  rintro ⟨f, hf, hscr, hlt, hos⟩
  have hfin : f ∈ l ++ [x] := mem_append_left [x] hf
  have hxin : x ∈ l ++ [x] := mem_append_right l mem_cons_self
  have hout : Outscored score (l ++ [x]) f := ⟨x, hxin, hscr.symm, hlt⟩
  have hle := (hr.repeated ⟨f, hfin, hout⟩).2 f hfin hout
  have hx := (isRepeat_last h.hashes).mpr (hscr ▸ mem_map_of_mem hf)
  have hm := (hlo ⟨x, hxin, hx⟩).1
  rcases mem_append.mp hleft with hin | hnew
  · have ha := hos left hin ((h.marks_iff hin).mp hm)
    omega
  · rw [mem_singleton.mp hnew] at hle
    omega

/-- Otherwise a marked winner scores below every winner the new coinstake beats. -/
theorem left_le_of_beaten (hnot : ¬ Overtakes score l x) {f : LotteryCoinstake} (hf : f ∈ l)
    (hscr : f.2 = x.2) (hlt : score f < score x) : score left ≤ score f := by
  have hxin : x ∈ l ++ [x] := mem_append_right l mem_cons_self
  have hx := (isRepeat_last h.hashes).mpr (hscr ▸ mem_map_of_mem hf)
  by_contra hgt
  refine hnot ⟨f, hf, hscr, hlt, ?_⟩
  intro d hd hout
  have hle := (hlo ⟨x, hxin, hx⟩).2 d (mem_append_left [x] hd)
    ((h.marks_iff hd).mpr hout)
  omega

theorem lowest_of_not_overtakes (hleft : left ∈ l ++ [x])
    (hall : (∀ c ∈ l ++ [x], isRepeat (l ++ [x]) c = false) →
      ∀ c ∈ l ++ [x], score left ≤ score c)
    (hnot : ¬ Overtakes score l x) : LeavesOutLowest score (l ++ [x]) left := by
  refine ⟨?_, ?_⟩
  · rintro ⟨c, hc, hout⟩
    have he : ∃ c ∈ l ++ [x], isRepeat (l ++ [x]) c = true := by
      rcases h.outscored_cases hc hout with hm | ⟨-, -, -, hxm⟩
      · exact ⟨c, hc, hm⟩
      · exact ⟨x, mem_append_right l mem_cons_self, hxm⟩
    obtain ⟨hm, hb⟩ := hlo he
    refine ⟨?_, ?_⟩
    · rcases mem_append.mp hleft with hin | hnew
      · exact ((h.marks_iff hin).mp hm).append
      · -- the new coinstake is left out, so some winner of its script scores higher
        have hx := mem_singleton.mp hnew
        rw [hx] at hm
        obtain ⟨f, hf, hscr⟩ := mem_map.mp ((isRepeat_last h.hashes).mp hm)
        have hne := h.score_ne hf
        by_cases hlt : score f < score x
        · have hle := left_le_of_beaten h hlo hnot hf hscr hlt
          rw [hx] at hle
          omega
        · rw [hx]
          exact ⟨f, mem_append_left [x] hf, hscr, by omega⟩
    · intro d hd hout'
      rcases h.outscored_cases hd hout' with hm' | ⟨hdl, hscr, hlt, -⟩
      · exact hb d hd hm'
      · exact left_le_of_beaten h hlo hnot hdl hscr hlt
  · intro hnd
    exact hall fun c hc => no_repeat_of_nodup hnd hc

end

/-! ### The update of a full list -/

/-- A coinstake that takes part, on a full list, with uniform winners. -/
structure FullListUpdate (calculator : LotteryWinnersCalculator) (tx : CTransaction)
    (payee : CTxOut) (winners : LotteryCoinstakes) (nHeight : Int)
    (lastLottery : CBlockIndex) : Prop where
  positive : 0 < nHeight
  notLottery : calculator.chainParams.isValidLotteryBlockHeight nHeight = false
  started : calculator.startOfLotteryBlocks < nHeight
  eligible : calculator.isCoinstakeValidForLottery tx nHeight = some true
  pays : payingOutput tx = some payee
  ranks : (calculator.getLastLotteryBlockIndexBeforeHeight nHeight).head? = some lastLottery
  uniform : Fork.UniformLotteryWinners.isActive lastLottery = true
  notVetoed : calculator.isPaymentScriptVetoed payee.scriptPubKey nHeight = false
  full : winners.length = 11
  ranked : Descending (calculator.scoreOf lastLottery.phashBlock) winners
  scores : ((winners ++ [(tx.hash, payee.scriptPubKey)]).map
    (calculator.scoreOf lastLottery.phashBlock)).Nodup

theorem distinctHashes_of_scores {hash : uint256} {coinstakes : LotteryCoinstakes}
    (h : (coinstakes.map (calculator.scoreOf hash)).Nodup) : DistinctHashes coinstakes := by
  have hmap : coinstakes.map (calculator.scoreOf hash) = (coinstakes.map Prod.fst).map
      fun coinstake => (calculator.calculateLotteryScore coinstake hash).toNat := by
    rw [map_map]
    rfl
  rw [hmap] at h
  exact h.of_map

theorem calculateUpdated_of_update {tx : CTransaction} {payee : CTxOut}
    {previous : LotteryCoinstakeData} {nHeight : Int} {lastLottery : CBlockIndex}
    (h : calculator.FullListUpdate tx payee previous.getLotteryCoinstakes nHeight
      lastLottery) {updated : Option LotteryCoinstakes} (hupd : calculator.updateCoinstakes nHeight
      (previous.getLotteryCoinstakes ++ [(tx.hash, payee.scriptPubKey)]) = some updated) :
    ∃ data, calculator.calculateUpdatedLotteryWinners tx previous nHeight = some data ∧
      data.getLotteryCoinstakes = updated.getD previous.getLotteryCoinstakes := by
  have hpos := h.positive
  have hst := h.started
  unfold calculateUpdatedLotteryWinners
  rw [if_neg (by omega), if_neg (by rw [h.notLottery]; decide), if_neg (by omega)]
  simp only [h.eligible, h.pays, hupd]
  cases updated with
  | none => exact ⟨_, rfl, rfl⟩
  | some coinstakes => exact ⟨_, rfl, rfl⟩

/--
**Which candidate is left out.**  Of a full list and a further coinstake the source leaves
out the lowest candidate that another one with its script outscores, or the lowest of all
if no script is repeated, exactly when the new coinstake does not overtake a winner below
which no winner is outscored.
-/
theorem left_out_lowest_iff (calculator : LotteryWinnersCalculator) (tx : CTransaction)
    (payee : CTxOut) (previous : LotteryCoinstakeData) (nHeight : Int) (lastLottery : CBlockIndex)
    (h : calculator.FullListUpdate tx payee previous.getLotteryCoinstakes nHeight
      lastLottery) :
    let candidates := previous.getLotteryCoinstakes ++ [(tx.hash, payee.scriptPubKey)]
    let score := calculator.scoreOf lastLottery.phashBlock
    ∃ data left, calculator.calculateUpdatedLotteryWinners tx previous nHeight = some data ∧
      (left :: data.getLotteryCoinstakes).Perm candidates ∧
      (LeavesOutLowest score candidates left ↔
        ¬ Overtakes score previous.getLotteryCoinstakes (tx.hash, payee.scriptPubKey)) := by
  intro candidates score
  have hhs : DistinctHashes candidates := distinctHashes_of_scores h.scores
  obtain ⟨older, hr⟩ := List.head?_eq_some_iff.mp h.ranks
  obtain ⟨updated, hupd, hstep⟩ := updateCoinstakes_uniform hr h.uniform h.notVetoed
    hhs (le_of_eq h.full) h.ranked
  obtain ⟨data, hdata, hlist⟩ := calculateUpdated_of_update h hupd
  obtain ⟨left, hperm, hlo, hall⟩ := hstep.leftOut h.full h.ranked
  have hc : Candidates score previous.getLotteryCoinstakes
      (tx.hash, payee.scriptPubKey) := ⟨h.ranked, h.scores, hhs⟩
  have hleft : left ∈ candidates := hperm.mem_iff.mp mem_cons_self
  refine ⟨data, left, hdata, ?_, ?_, ?_⟩
  · rw [hlist]
    exact hperm
  · exact not_overtakes_of_lowest hc hlo hleft
  · exact lowest_of_not_overtakes hc hlo hleft hall

open BlockIndexParameters

/-- Thirteen blocks with different scripts: the last eleven fill the list of the first cycle. -/
def fullListChain : CChain :=
  (earlyLotteryNode.chainOf ((List.range 13).map fun height => uniformBlock height height)).getD []

/-- The winners attached to the last of them. -/
def fullList : LotteryCoinstakeData :=
  match fullListChain with
  | [] => {}
  | tip :: _ => tip.vLotteryWinnersCoinstakes

/-- The coinstake of a fourteenth block. -/
def twelfthCandidate (script : UInt8) : CTransaction where
  hash := 14
  vin := [{ prevout := ⟨9, 0⟩ }]
  vout := [CTxOut.empty, ⟨20000 * COIN, [script]⟩]

/-- A coinstake with a new script enters the list. -/
theorem left_out_lowest_new_script :
    let calculator := earlyLotteryNode.lotteryCalculator fullListChain
    let candidates := fullList.getLotteryCoinstakes ++ [(14, [13])]
    ∃ lastLottery : CBlockIndex, lastLottery.phashBlock = 2 ∧ ∃ data left,
      calculator.calculateUpdatedLotteryWinners (twelfthCandidate 13) fullList 13 = some data ∧
      (left :: data.getLotteryCoinstakes).Perm candidates ∧
      (LeavesOutLowest (calculator.scoreOf lastLottery.phashBlock) candidates left ↔
        ¬ Overtakes (calculator.scoreOf lastLottery.phashBlock)
          fullList.getLotteryCoinstakes (14, [13])) := by
  intro calculator candidates
  have hne : calculator.getLastLotteryBlockIndexBeforeHeight 13 ≠ [] := by decide +kernel
  have hr := List.head?_eq_some_head hne
  have hf : ∀ block ∈ (calculator.getLastLotteryBlockIndexBeforeHeight 13).head?,
      block.phashBlock = 2 ∧ Fork.UniformLotteryWinners.isActive block = true := by decide +kernel
  obtain ⟨hh, hfork⟩ := hf _ hr
  refine ⟨_, hh, left_out_lowest_iff calculator (twelfthCandidate 13)
    ⟨20000 * COIN, [13]⟩ fullList 13 _ ⟨by decide, by decide, by decide, by decide +kernel, rfl,
      hr, hfork, by decide +kernel, by decide +kernel, ?_, ?_⟩⟩
  · rw [hh]
    unfold Descending
    decide +kernel
  · rw [hh]
    decide +kernel

/--
A coinstake that overtakes the winner with its script is dropped itself: the list stays as
it was, although that winner is the only candidate that is outscored.
-/
theorem overtaking_candidate_dropped :
    let calculator := earlyLotteryNode.lotteryCalculator fullListChain
    let candidates := fullList.getLotteryCoinstakes ++ [(14, [2])]
    ((calculator.getLastLotteryBlockIndexBeforeHeight 13).head?.map CBlockIndex.phashBlock =
        some 2 ∧
      fullList.getLotteryCoinstakes.length = 11 ∧ (3, [2]) ∈ fullList.getLotteryCoinstakes ∧
      calculator.scoreOf 2 (3, [2]) < calculator.scoreOf 2 (14, [2])) ∧
    (calculator.calculateUpdatedLotteryWinners (twelfthCandidate 2) fullList 13).map
      LotteryCoinstakeData.getLotteryCoinstakes = some fullList.getLotteryCoinstakes ∧
    ¬ LeavesOutLowest (calculator.scoreOf 2) candidates (14, [2]) := by
  intro calculator candidates
  refine ⟨by decide +kernel, by decide +kernel, ?_⟩
  intro hr
  have hn : ∀ d ∈ candidates,
      ¬ (d.2 = [2] ∧ calculator.scoreOf 2 (14, [2]) < calculator.scoreOf 2 d) := by decide +kernel
  have hout : ∃ c ∈ candidates, Outscored (calculator.scoreOf 2) candidates c :=
    ⟨(3, [2]), by decide +kernel, (14, [2]), by decide +kernel⟩
  obtain ⟨⟨d, hd, hscr, hlt⟩, -⟩ := hr.repeated hout
  exact hn d hd ⟨hscr, hlt⟩

end LotteryWinnersCalculator

end Divi
