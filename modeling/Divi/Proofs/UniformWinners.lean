/-
Uniform winners.

Once the fork is active at the last lottery block, a coinstake is only listed if its
script won none of the last three lotteries, and a full list gives up a repeated script
before it gives up a new one.

  * No script is listed that is vetoed.  The heights that are looked up lie below the last
    lottery block, so the veto is the same for the whole cycle.
  * The list holds as many different scripts as it can: all scripts of the cycle that are
    not vetoed, or eleven different ones.
  * What is left out of twelve is the lowest of the repeated scripts, except that the new
    coinstake counts as the repetition even where it scores best of its script.
-/
import Divi.Proofs.LotteryCycles

namespace Divi

open LotteryWinnersCalculator List Ranking

variable {last : Int} {chain : CChain} {blocks : List CBlock} {nHeight : Nat}
  {lastLottery : CBlockIndex} {c : LotteryCoinstake} {params : BlockIndexParameters}
  {next : LotteryCoinstakes}

/-! ### Vetoes -/

namespace LotteryWinnersCalculator

variable {calculator : LotteryWinnersCalculator} {paymentScript : CScript}

/-- A script that is not vetoed won at none of the heights, up to the first missing block. -/
theorem notMem_of_vetoLoop {heights : List Int} {h : Int}
    (hveto : calculator.vetoLoop paymentScript heights = false) (hmem : h ∈ heights)
    (hblks : ∀ k ∈ heights, h ≤ k → calculator.activeChain.atHeight k ≠ [])
    (hsort : heights.Pairwise fun a b => b ≤ a) :
    paymentScript ∉ (calculator.activeChain.atHeight h).winners.map Prod.snd := by
  induction heights with
  | nil => cases hmem
  | cons height rest ih =>
    obtain ⟨hfst, hsort'⟩ := pairwise_cons.mp hsort
    have hle : h ≤ height := by
      rcases mem_cons.mp hmem with rfl | hr
      · exact le_refl h
      · exact hfst h hr
    have hne := hblks height mem_cons_self hle
    cases hre : calculator.activeChain.atHeight height with
    | nil => exact absurd hre hne
    | cons block older =>
      simp only [vetoLoop, hre] at hveto
      split at hveto
      · cases hveto
      · rename_i hn
        rcases mem_cons.mp hmem with rfl | hr
        · rw [hre]
          intro hin
          obtain ⟨coinstake, hcs, heq⟩ := mem_map.mp hin
          exact hn (any_eq_true.mpr ⟨coinstake, hcs, decide_eq_true heq⟩)
        · refine ih hveto hr ?_ hsort'
          intro k hk
          exact hblks k (mem_cons_of_mem height hk)

end LotteryWinnersCalculator

namespace BlockIndexParameters

/-- The heights right before the last three lottery blocks. -/
def vetoHeightsFrom (params : BlockIndexParameters) (last : Int) : List Int :=
  [0, 1, 2].map fun lotteryCycleCount =>
    last - params.chainParams.nLotteryBlockCycle * lotteryCycleCount - 1

/-- A script won one of the last three lotteries. -/
def vetoedFrom (params : BlockIndexParameters) (chain : CChain) (last : Int)
    (paymentScript : CScript) : Bool :=
  (params.lotteryCalculator chain).vetoLoop paymentScript (params.vetoHeightsFrom last)

theorem isPaymentScriptVetoed_eq {nHeight : Int}
    (hl : params.chainParams.LastLottery nHeight last) (hpos : 0 < nHeight)
    (chain : CChain) (paymentScript : CScript) :
    (params.lotteryCalculator chain).isPaymentScriptVetoed paymentScript nHeight
      = params.vetoedFrom chain last paymentScript := by
  unfold isPaymentScriptVetoed vetoedFrom
  unfold LotteryWinnersCalculator.vetoHeights vetoHeightsFrom
  rw [lastLotteryHeight_eq hl hpos chain]
  have hcy : (params.lotteryCalculator chain).chainParams.getLotteryBlockPaymentCycle
      nHeight = params.chainParams.nLotteryBlockCycle :=
    CChainParams.getLotteryBlockPaymentCycle_eq params.chainParams nHeight
  rw [hcy]

theorem atHeight_ne_nil_of_le {h k : Int} (hne : chain.atHeight h ≠ [])
    (hle : h ≤ k) (hlt : k < chain.length) : chain.atHeight k ≠ [] := by
  refine atHeight_ne_nil ?_ hlt
  by_contra hneg
  refine hne ?_
  unfold CChain.atHeight
  rw [if_pos (.inl (by omega))]

/-- Nothing is listed at a block up to the start of the lottery, nor at a lottery block. -/
theorem winners_nil_at (h : params.chainOf blocks = some chain) {k : Int}
    (hk : k < blocks.length) (hr : k ≤ params.chainParams.nLotteryBlockStartBlock ∨
      params.chainParams.isValidLotteryBlockHeight k = true) :
    (chain.atHeight k).winners = [] := by
  by_cases hneg : k < 0
  · unfold CChain.atHeight
    rw [if_pos (.inl hneg)]
    rfl
  · obtain ⟨n, rfl⟩ := Int.eq_ofNat_of_zero_le (by omega : 0 ≤ k)
    have hn : n < blocks.length := by omega
    refine winners_nil (chainOf_take h hn) ?_ hr
    rw [length_take]
    omega

section

variable (hcy : 0 < params.chainParams.nLotteryBlockCycle)

include hcy

theorem vetoHeightsFrom_lt {h : Int} (hmem : h ∈ params.vetoHeightsFrom last) : h < last := by
  simp only [vetoHeightsFrom, map_cons, map_nil, mem_cons, not_mem_nil, or_false] at hmem
  rcases hmem with rfl | rfl | rfl <;> omega

theorem vetoHeightsFrom_sorted (last : Int) :
    (params.vetoHeightsFrom last).Pairwise fun a b => b ≤ a := by
  simp only [vetoHeightsFrom, map_cons, map_nil]
  refine pairwise_cons.mpr ⟨?_, pairwise_cons.mpr ⟨?_, pairwise_singleton _ _⟩⟩
  · intro b hb
    simp only [mem_cons, not_mem_nil, or_false] at hb
    rcases hb with rfl | rfl <;> omega
  · intro b hb
    rw [mem_singleton.mp hb]
    omega

/-- Two chains that agree below the last lottery block veto the same scripts. -/
theorem vetoedFrom_congr {first second : CChain}
    (h : ∀ k, k < last → first.atHeight k = second.atHeight k) (paymentScript : CScript) :
    params.vetoedFrom first last paymentScript
      = params.vetoedFrom second last paymentScript := by
  refine vetoLoop_congr ?_
  intro k hk
  exact h k (vetoHeightsFrom_lt hcy hk)

/-- The veto of a cycle does not change while blocks are added to it. -/
theorem CycleStep.vetoedFrom_eq {block : CBlock} {prev : CChain}
    (h : params.CycleStep last lastLottery blocks block prev chain) :
    params.vetoedFrom chain last = params.vetoedFrom prev last := by
  have hlen := (chainOf_heights h.built).1
  have hlt := h.follows.lt
  obtain ⟨winners, -, hc⟩ := extendChain_eq_some.mp h.extended
  funext script
  refine vetoedFrom_congr hcy ?_ script
  intro k hk
  rw [hc, atHeight_cons (by omega)]

theorem InCycle.vetoedFrom_eq (h : params.InCycle blocks chain nHeight last lastLottery) :
    params.vetoedFrom (chain.atHeight nHeight) last = params.vetoedFrom chain last := by
  have hlen := (chainOf_heights h.built).1
  have hht := h.height
  have hlt := h.follows.lt
  funext script
  refine vetoedFrom_congr hcy ?_ script
  intro k hk
  rw [atHeight_atHeight (by omega) (by omega)]

/-- The list of a block of a cycle with uniform winners holds no script that the chain vetoes. -/
theorem InCycle.not_vetoed (h : params.InCycle blocks chain nHeight last lastLottery)
    (hfork : Fork.UniformLotteryWinners.isActive lastLottery = true) :
    ∀ c ∈ (chain.atHeight nHeight).winners, params.vetoedFrom chain last c.2 = false := by
  rw [← h.vetoedFrom_eq hcy]
  refine h.induction (P := fun _ chain =>
    ∀ c ∈ chain.winners, params.vetoedFrom chain last c.2 = false) ?_ ?_
  · intro blocks chain _ _ hnil c hc
    rw [hnil] at hc
    cases hc
  · intro blocks block prev chain hstep ih c hc
    rw [hstep.vetoedFrom_eq hcy]
    obtain ⟨older, hprev⟩ := hstep.ranks
    obtain ⟨tx, -, hca⟩ := winners_step hstep
    rcases hca with ⟨-, hkeep⟩ | ⟨payee, updated, -, -, hupd, hwin⟩
    · exact ih c (hkeep ▸ hc)
    · rw [hwin] at hc
      rcases updateCoinstakes_subset
        (getLastLottery_eq hstep.follows hstep.positive hprev) hfork hupd hc
        with hold | ⟨rfl, hveto⟩
      · exact ih c hold
      · rwa [isPaymentScriptVetoed_eq hstep.follows hstep.positive] at hveto

end

/-- A block after the fork, with a coinstake that pays the given script. -/
def uniformBlock (height script : Nat) : CBlock where
  hash := BitVec.ofNat 256 (height + 1)
  hashPrevBlock := BitVec.ofNat 256 height
  nTime := unixTimestampForDec31stMidnight + 1
  vtx := [
    { hash := BitVec.ofNat 256 (height + 1001)
      vin := [{ prevout := COutPoint.null }]
      vout := [⟨20000 * COIN, [UInt8.ofNat script]⟩] },
    { hash := BitVec.ofNat 256 (height + 1)
      vin := [{ prevout := ⟨9, 0⟩ }]
      vout := [CTxOut.empty, ⟨20000 * COIN, [UInt8.ofNat script]⟩] }]

/-- A node with a lottery in every third block. -/
def shortCycleNode : BlockIndexParameters :=
  rankingNode { regTestParams with
    nLotteryBlockStartBlock := 1, nLotteryBlockCycle := 3, nLastPOWBlock := 0 }

/-- Four cycles; the script of the last block has won the first lottery. -/
def fourCycles : List CBlock :=
  [0, 0, 1, 2, 2, 3, 3, 4, 5, 5, 6, 1].zipIdx.map fun entry => uniformBlock entry.2 entry.1

theorem shortCycle_pair {h : Int} (hval : [h, h + 1, h + 2, h + 3].map
      shortCycleNode.chainParams.isValidLotteryBlockHeight = [true, false, false, true]) :
    Consecutive.Pair
      (fun x => shortCycleNode.chainParams.isValidLotteryBlockHeight x = true) h (h + 3) := by
  simp only [map_cons, map_nil, List.cons.injEq, and_true] at hval
  obtain ⟨hleft, hfst, hsnd, hr⟩ := hval
  refine ⟨hleft, hr, by omega, fun x hlow hhigh hx => ?_⟩
  obtain rfl | rfl : x = h + 1 ∨ x = h + 2 := by omega
  · cases hfst.symm.trans hx
  · cases hsnd.symm.trans hx

/--
**Winners pause for three lotteries.**  With uniform winners no script that is paid at a
lottery block was paid at one of the three lottery blocks before it.
-/
theorem winners_pause (params : BlockIndexParameters)
    (hcy : 0 < params.chainParams.nLotteryBlockCycle) (blocks : List CBlock)
    (chain : CChain) (hchain : params.chainOf blocks = some chain) (H first second third : Int)
    (hfst : Consecutive.Pair
      (fun h => params.chainParams.isValidLotteryBlockHeight h = true) first H)
    (hsnd : Consecutive.Pair
      (fun h => params.chainParams.isValidLotteryBlockHeight h = true) second first)
    (hthird : Consecutive.Pair
      (fun h => params.chainParams.isValidLotteryBlockHeight h = true) third second)
    (hht : H ≤ blocks.length) (lastLottery : CBlockIndex)
    (hread : (chain.atHeight first).head? = some lastLottery)
    (hfork : Fork.UniformLotteryWinners.isActive lastLottery = true) :
    ∀ earlier ∈ [first, second, third],
      ∀ paymentScript ∈ (chain.atHeight (H - 1)).winners.map Prod.snd,
        paymentScript ∉ (chain.atHeight (earlier - 1)).winners.map Prod.snd := by
  intro earlier he paymentScript hscr
  have hlen := (chainOf_heights hchain).1
  have hlt := hfst.lt
  have hb : earlier ≤ first := by
    have hsnd' := hsnd.lt
    have ht' := hthird.lt
    simp only [mem_cons, not_mem_nil, or_false] at he
    rcases he with rfl | rfl | rfl <;> omega
  obtain ⟨older, holder⟩ := List.head?_eq_some_iff.mp hread
  have hpos := atHeight_eq_cons holder
  by_cases hnext : first = H - 1
  · -- two lottery blocks in a row: nothing is listed in between
    rw [winners_nil_at hchain (by omega) (.inr (hnext ▸ hfst.left))] at hscr
    cases hscr
  by_cases hst : first < params.chainParams.nLotteryBlockStartBlock
  · rw [winners_nil_at hchain (by omega : earlier - 1 < blocks.length) (.inl (by omega))]
    exact not_mem_nil
  -- the cycle of `H - 1` starts at the first of the three
  obtain ⟨n, hn⟩ := Int.eq_ofNat_of_zero_le (by omega : 0 ≤ H - 1)
  have hin : params.InCycle blocks chain n first lastLottery := by
    refine ⟨hchain, by omega, ⟨by omega, .inr hfst.left, by omega, ?_⟩, ?_, hread⟩
    · intro h hlow hhigh
      exact Bool.eq_false_iff.mpr (hfst.none h hlow (by omega))
    · exact Bool.eq_false_iff.mpr (hfst.none n (by omega) (by omega))
  obtain ⟨c, hc, rfl⟩ := mem_map.mp hscr
  rw [hn] at hc
  have hveto := hin.not_vetoed hcy hfork c hc
  have hgap := CChainParams.lottery_gap hcy hsnd
  have hgap' := CChainParams.lottery_gap hcy hthird
  rw [CChainParams.getLotteryBlockPaymentCycle_eq] at hgap hgap'
  have hmem : earlier - 1 ∈ params.vetoHeightsFrom first := by
    simp only [mem_cons, not_mem_nil, or_false] at he
    simp only [vetoHeightsFrom, map_cons, map_nil, mem_cons, not_mem_nil, or_false]
    omega
  by_cases hm : chain.atHeight (earlier - 1) = []
  · rw [hm]
    exact not_mem_nil
  · refine notMem_of_vetoLoop hveto hmem ?_
      (vetoHeightsFrom_sorted hcy first)
    intro k hk hle
    have hk' := vetoHeightsFrom_lt hcy hk
    show chain.atHeight k ≠ []
    exact atHeight_ne_nil_of_le hm hle (by omega)

/-- The script listed before the fourth lottery is new. -/
theorem winners_pause_fourth :
    let chain := (shortCycleNode.chainOf fourCycles).getD []
    (chain.atHeight 11).winners.map Prod.snd = [[6]] ∧
      ∀ earlier ∈ [9, 6, 3], ∀ paymentScript ∈ (chain.atHeight (12 - 1)).winners.map Prod.snd,
        paymentScript ∉ (chain.atHeight (earlier - 1)).winners.map Prod.snd := by
  intro chain
  have hne : chain.atHeight 9 ≠ [] := by decide +kernel
  have hfork : ∀ block ∈ (chain.atHeight 9).head?,
      Fork.UniformLotteryWinners.isActive block = true := by decide +kernel
  have hr := List.head?_eq_some_head hne
  exact ⟨by decide +kernel, winners_pause shortCycleNode (by decide) fourCycles chain
    (by decide +kernel) 12 9 6 3
    (shortCycle_pair (by decide)) (shortCycle_pair (by decide)) (shortCycle_pair (by decide))
    (by decide) _ hr (hfork _ hr)⟩

end BlockIndexParameters

/-! ### Repeated scripts -/

namespace LotteryWinnersCalculator

variable {coinstakes l : LotteryCoinstakes} {x : LotteryCoinstake} {score : LotteryCoinstake → Nat}

theorem exists_of_isRepeat (h : isRepeat coinstakes c = true) :
    ∃ d ∈ coinstakes, d ≠ c ∧ d.2 = c.2 := by
  obtain ⟨d, hd, hscr⟩ := mem_map.mp (contains_iff_mem.mp h)
  refine ⟨d, (takeWhile_sublist _).subset hd, ?_, hscr⟩
  have hne : d.1 ≠ c.1 := by
    have hall := all_eq_true.mp all_takeWhile d hd
    exact of_decide_eq_true hall
  intro heq
  exact hne (congrArg Prod.fst heq)

theorem isRepeat_append (h : DistinctHashes (l ++ [x])) (hc : c ∈ l) :
    isRepeat (l ++ [x]) c = isRepeat l c := by
  obtain ⟨earlier, later, rfl⟩ := append_of_mem hc
  have hs : isRepeat (earlier ++ c :: later) c = true ↔ c.2 ∈ earlier.map Prod.snd :=
    isRepeat_split h.init
  rw [append_assoc, cons_append] at h ⊢
  exact Bool.eq_iff_iff.mpr ((isRepeat_split h).trans hs.symm)

theorem isRepeat_last (h : DistinctHashes (l ++ [x])) :
    isRepeat (l ++ [x]) x = true ↔ x.2 ∈ l.map Prod.snd :=
  isRepeat_split h

theorem nodup_of_no_repeat (h : DistinctHashes coinstakes)
    (hn : ∀ c ∈ coinstakes, isRepeat coinstakes c = false) :
    (coinstakes.map Prod.snd).Nodup := by
  induction coinstakes using List.reverseRecOn with
  | nil => exact nodup_nil
  | append_singleton l x ih =>
    have hl : (l.map Prod.snd).Nodup := by
      refine ih h.init ?_
      intro c hc
      rw [← isRepeat_append h hc]
      exact hn c (mem_append_left [x] hc)
    have hx : x.2 ∉ l.map Prod.snd := by
      intro hmem
      have hr := (isRepeat_last h).mpr hmem
      rw [hn x (mem_append_right l mem_cons_self)] at hr
      cases hr
    rw [map_append]
    exact nodup_append.mpr ⟨hl, nodup_singleton _, fun a ha b hb heq =>
      hx (mem_singleton.mp hb ▸ heq ▸ ha)⟩

theorem perm_append_place (score : LotteryCoinstake → Nat) (l : LotteryCoinstakes)
    (x : LotteryCoinstake) : (place score x l).Perm (l ++ [x]) :=
  (place_perm score x l).trans (perm_append_singleton x l).symm

/-- Every step takes its list from the ranked candidates. -/
theorem UniformStep.sublist (h : UniformStep score l x next) :
    next.Sublist (place score x l) := by
  cases h with
  | room hroom => exact List.Sublist.refl _
  | repeated hfull hs hr hback =>
    rw [hs]
    exact List.Sublist.append (List.Sublist.refl _) (sublist_cons_self _ _)
  | lowest hfull hn => exact dropLast_sublist _

theorem UniformStep.length_le (h : UniformStep score l x next) :
    next.length ≤ 11 := by
  have hlen := length_place score x l
  cases h with
  | room hroom => omega
  | repeated hfull hs hr hback =>
    have hp := congrArg List.length hs
    rw [length_append, length_cons] at hp
    rw [length_append]
    omega
  | lowest hfull hn =>
    rw [length_dropLast]
    omega

theorem UniformStep.distinctHashes (h : UniformStep score l x next)
    (hdist : DistinctHashes (l ++ [x])) : DistinctHashes next := by
  have hp : ((place score x l).map Prod.fst).Nodup :=
    ((perm_append_place score l x).map Prod.fst).nodup_iff.mpr hdist
  exact hp.sublist (h.sublist.map Prod.fst)

theorem scripts_of_erased {front back : LotteryCoinstakes}
    (hs : place score x l = front ++ c :: back) (hr : isRepeat (l ++ [x]) c = true) :
    (l ++ [x]).map Prod.snd ⊆ (front ++ back).map Prod.snd := by
  have hmem : ∀ d, d ∈ l ++ [x] → d ≠ c → d ∈ front ++ back := by
    intro d hd hne
    have hd' := (perm_append_place score l x).mem_iff.mpr hd
    rw [hs] at hd'
    rcases mem_append.mp hd' with hf | hre
    · exact mem_append_left back hf
    · rcases mem_cons.mp hre with heq | hback
      · exact absurd heq hne
      · exact mem_append_right front hback
  intro script hscr
  obtain ⟨d, hd, rfl⟩ := mem_map.mp hscr
  by_cases heq : d = c
  · obtain ⟨other, ho, hne, hsa⟩ := exists_of_isRepeat hr
    rw [heq, ← hsa]
    exact mem_map_of_mem (hmem other ho hne)
  · exact mem_map_of_mem (hmem d hd heq)

/-- A step keeps every script, or ends with eleven different ones. -/
theorem UniformStep.scripts (h : UniformStep score l x next) (hdist : DistinctHashes (l ++ [x])) :
    (l ++ [x]).map Prod.snd ⊆ next.map Prod.snd ∨
      (next.length = 11 ∧ (next.map Prod.snd).Nodup) := by
  have hlen := length_place score x l
  cases h with
  | room hroom =>
    left
    intro script hscr
    exact ((perm_append_place score l x).map Prod.snd).mem_iff.mpr hscr
  | repeated hfull hs hr hback => exact .inl (scripts_of_erased hs hr)
  | lowest hfull hn =>
    right
    have hnd : ((l ++ [x]).map Prod.snd).Nodup := by
      refine nodup_of_no_repeat hdist ?_
      intro c hc
      exact hn c ((perm_append_place score l x).mem_iff.mpr hc)
    have hp : ((place score x l).map Prod.snd).Nodup :=
      ((perm_append_place score l x).map Prod.snd).nodup_iff.mpr hnd
    refine ⟨?_, hp.sublist ((dropLast_sublist _).map Prod.snd)⟩
    rw [length_dropLast]
    omega

/-- A list of eleven different scripts keeps that many. -/
theorem UniformStep.nodup (h : UniformStep score l x next) (hdist : DistinctHashes (l ++ [x]))
    (hfull : l.length = 11) (hnd : (l.map Prod.snd).Nodup) :
    next.length = 11 ∧ (next.map Prod.snd).Nodup := by
  rcases h.scripts hdist with hkeep | hdone
  · have hsub : l.map Prod.snd ⊆ next.map Prod.snd := by
      intro script hscr
      refine hkeep ?_
      rw [map_append]
      exact mem_append_left _ hscr
    have hle := h.length_le
    have hs := subperm_of_subset hnd hsub
    have hge := hs.length_le
    rw [length_map, length_map] at hge
    have hperm := hs.perm_of_length_le (by rw [length_map, length_map]; omega)
    exact ⟨by omega, hperm.nodup_iff.mp hnd⟩
  · exact hdone

end LotteryWinnersCalculator

/-! ### As many different scripts as possible -/

namespace BlockIndexParameters

open LotteryWinnersCalculator

/-- The tickets whose scripts may win. -/
def admitted (vetoed : CScript → Bool) (tickets : List (Int × LotteryCoinstake)) :
    List (Int × LotteryCoinstake) :=
  tickets.filter fun ticket => !vetoed ticket.2.2

/--
What a list of winners keeps through a cycle.  It leaves scripts out only when it has
eleven different ones.
-/
structure UniformList (params : BlockIndexParameters) (lastLottery : CBlockIndex)
    (admitted : List (Int × LotteryCoinstake)) (winners : LotteryCoinstakes) : Prop where
  short : winners.length ≤ 11
  ranked : Descending (params.ticketScore lastLottery) winners
  drawn : ∀ c ∈ winners, ∃ h, (h, c) ∈ admitted
  hashes : DistinctHashes winners
  scripts : (∀ ticket ∈ admitted, ticket.2.2 ∈ winners.map Prod.snd) ∨
    (winners.length = 11 ∧ (winners.map Prod.snd).Nodup)

variable {tickets : List (Int × LotteryCoinstake)} {winners : LotteryCoinstakes}

theorem UniformList.nil (lastLottery : CBlockIndex) :
    params.UniformList lastLottery [] [] :=
  ⟨Nat.zero_le 11, List.Pairwise.nil, fun _ hc => absurd hc not_mem_nil, nodup_nil,
    .inl fun _ ht => absurd ht not_mem_nil⟩

section

variable (h : params.UniformList lastLottery tickets winners)

include h

/-- A ticket whose hash is not among the admitted ones extends the list. -/
theorem UniformList.distinctHashes {x : LotteryCoinstake}
    (hx : ∀ ticket ∈ tickets, ticket.2.1 ≠ x.1) : DistinctHashes (winners ++ [x]) := by
  unfold DistinctHashes
  rw [map_append]
  refine nodup_append.mpr ⟨h.hashes, nodup_singleton _, ?_⟩
  intro a ha b hb heq
  obtain ⟨c, hc, rfl⟩ := mem_map.mp ha
  obtain ⟨height, hd⟩ := h.drawn c hc
  exact hx _ hd (heq.trans (mem_singleton.mp hb))

theorem UniformList.step {ticket : Int × LotteryCoinstake}
    (hdist : DistinctHashes (winners ++ [ticket.2]))
    (hstep : UniformStep (params.ticketScore lastLottery) winners ticket.2 next) :
    params.UniformList lastLottery (tickets ++ [ticket]) next := by
  refine ⟨hstep.length_le, (place_descending h.ranked).sublist hstep.sublist, ?_,
    hstep.distinctHashes hdist, ?_⟩
  · intro c hc
    rcases mem_place.mp (hstep.sublist.subset hc) with rfl | hold
    · exact ⟨ticket.1, mem_append_right tickets mem_cons_self⟩
    · obtain ⟨height, hd⟩ := h.drawn c hold
      exact ⟨height, mem_append_left [ticket] hd⟩
  · rcases h.scripts with hall | ⟨hfull, hnd⟩
    · rcases hstep.scripts hdist with hkeep | hdone
      · left
        intro t ht
        refine hkeep ?_
        rw [map_append]
        rcases mem_append.mp ht with hold | hnew
        · exact mem_append_left _ (hall t hold)
        · rw [mem_singleton.mp hnew]
          exact mem_append_right _ mem_cons_self
      · exact .inr hdone
    · exact .inr (hstep.nodup hdist hfull hnd)

/-- The number of different scripts that follows. -/
theorem UniformList.card : (winners.map Prod.snd).toFinset.card
      = min 11 (tickets.map fun ticket => ticket.2.2).toFinset.card := by
  have hsub : (winners.map Prod.snd).toFinset
      ⊆ (tickets.map fun ticket => ticket.2.2).toFinset := by
    intro script hscr
    obtain ⟨c, hc, rfl⟩ := mem_map.mp (mem_toFinset.mp hscr)
    obtain ⟨height, hd⟩ := h.drawn c hc
    exact mem_toFinset.mpr (mem_map.mpr ⟨_, hd, rfl⟩)
  have hle := Finset.card_le_card hsub
  have hs : (winners.map Prod.snd).toFinset.card ≤ 11 := by
    refine le_trans (toFinset_card_le _) ?_
    rw [length_map]
    exact h.short
  rcases h.scripts with hall | ⟨hfull, hnd⟩
  · have hsup : (tickets.map fun ticket => ticket.2.2).toFinset
        ⊆ (winners.map Prod.snd).toFinset := by
      intro script hscr
      obtain ⟨ticket, ht, rfl⟩ := mem_map.mp (mem_toFinset.mp hscr)
      exact mem_toFinset.mpr (hall ticket ht)
    have hge := Finset.card_le_card hsup
    omega
  · have hcard := toFinset_card_of_nodup hnd
    rw [length_map, hfull] at hcard
    omega

end

theorem admitted_append (vetoed : CScript → Bool) (tickets : List (Int × LotteryCoinstake))
    (ticket : Int × LotteryCoinstake) :
    admitted vetoed (tickets ++ [ticket]) = if vetoed ticket.2.2 then admitted vetoed tickets
        else admitted vetoed tickets ++ [ticket] := by
  unfold admitted
  cases hveto : vetoed ticket.2.2 with
  | true => simp [hveto]
  | false => simp [hveto]

/-- The list of a block of a cycle with uniform winners. -/
theorem InCycle.uniformList (hcy : 0 < params.chainParams.nLotteryBlockCycle)
    (hsps : params.ticketMinValues = none)
    (h : params.InCycle blocks chain nHeight last lastLottery)
    (hfork : Fork.UniformLotteryWinners.isActive lastLottery = true)
    (hdist : ((params.tickets blocks last nHeight).map fun t => t.2.1).Nodup) :
    params.UniformList lastLottery (admitted
      (params.vetoedFrom chain last) (params.tickets blocks last nHeight))
      (chain.atHeight nHeight).winners := by
  rw [← h.vetoedFrom_eq hcy]
  refine h.ticket_induction hsps (Q := fun tickets chain => params.UniformList
    lastLottery (admitted (params.vetoedFrom chain last) tickets)
    chain.winners) ?_ ?_ ?_ hdist
  · intro chain hnil
    rw [hnil]
    exact UniformList.nil lastLottery
  · intro tickets blocks block prev chain hstep hs hpar
    rw [hstep.vetoedFrom_eq hcy, hs]
    exact hpar
  · intro tickets blocks block prev chain x updated hstep hupd hwin hdist _ hpar
    obtain ⟨older, hprev⟩ := hstep.ranks
    have hre := getLastLottery_eq hstep.follows hstep.positive hprev
    have hveto := isPaymentScriptVetoed_eq hstep.follows hstep.positive prev x.2
    rw [hstep.vetoedFrom_eq hcy, admitted_append, hwin]
    cases hv : params.vetoedFrom prev last x.2 with
    | true =>
      rw [hv] at hveto
      rw [updateCoinstakes_vetoed hre hfork hveto] at hupd
      cases hupd
      exact hpar
    | false =>
      rw [hv] at hveto
      have hnew : DistinctHashes (prev.winners ++ [x]) := by
        refine hpar.distinctHashes ?_
        intro ticket ht
        rw [map_append] at hdist
        have hmem : ticket.2.1 ∈ tickets.map fun t => t.2.1 :=
          mem_map_of_mem (mem_of_mem_filter ht)
        exact (nodup_append.mp hdist).2.2 _ hmem _ mem_cons_self
      obtain ⟨r, hr, hu⟩ := updateCoinstakes_uniform hre hfork hveto hnew hpar.short
        hpar.ranked
      rw [hupd] at hr
      cases hr
      exact hpar.step hnew hu

/--
**Uniform winners.**  With the fork active at the last lottery block, the list of every
block of a cycle has at most eleven entries, the best scores first, each of them a ticket
of the cycle whose script is not vetoed, and it holds as many different scripts as it can.
-/
theorem winners_are_uniform (params : BlockIndexParameters)
    (hcy : 0 < params.chainParams.nLotteryBlockCycle) (hsps : params.ticketMinValues = none)
    (blocks : List CBlock) (chain : CChain) (nHeight : Nat) (last : Int) (lastLottery : CBlockIndex)
    (hin : params.InCycle blocks chain nHeight last lastLottery)
    (hfork : Fork.UniformLotteryWinners.isActive lastLottery = true)
    (hdist : ((params.tickets blocks last nHeight).map fun t => t.2.1).Nodup) :
    let winners := (chain.atHeight nHeight).winners
    let tickets := params.tickets blocks last nHeight
    let vetoed := fun script =>
      (params.lotteryCalculator chain).isPaymentScriptVetoed script nHeight
    winners.length ≤ 11 ∧
    Descending (params.ticketScore lastLottery) winners ∧
    (∀ c ∈ winners, (∃ h, (h, c) ∈ tickets) ∧ vetoed c.2 = false) ∧
    (winners.map Prod.snd).toFinset.card
      = min 11 ((admitted vetoed tickets).map fun ticket => ticket.2.2).toFinset.card := by
  intro winners tickets vetoed
  have hlt := hin.follows.lt
  have hpos := hin.last_nonneg
  have hveto : params.vetoedFrom chain last = vetoed := by
    funext script
    exact (isPaymentScriptVetoed_eq hin.follows (by omega) chain script).symm
  have hu := hin.uniformList hcy hsps hfork hdist
  rw [hveto] at hu
  refine ⟨hu.short, hu.ranked, ?_, hu.card⟩
  intro c hc
  obtain ⟨h, hd⟩ := hu.drawn c hc
  obtain ⟨ht, hfree⟩ := mem_filter.mp hd
  exact ⟨⟨h, ht⟩, by simpa using hfree⟩

/-- Of the two tickets in the fourth cycle one pays a vetoed script. -/
theorem winners_are_uniform_fourth :
    let chain := (shortCycleNode.chainOf fourCycles).getD []
    let vetoed := fun script =>
      (shortCycleNode.lotteryCalculator chain).isPaymentScriptVetoed script (11 : Nat)
    (shortCycleNode.tickets fourCycles 9 (11 : Nat)).length = 2 ∧
      ((chain.atHeight (11 : Nat)).winners.map Prod.snd).toFinset.card
        = min 11 ((admitted vetoed (shortCycleNode.tickets fourCycles 9 (11 : Nat))).map
          fun ticket => ticket.2.2).toFinset.card := by
  intro chain vetoed
  have hne : chain.atHeight 9 ≠ [] := by decide +kernel
  have hfork : ∀ block ∈ (chain.atHeight 9).head?,
      Fork.UniformLotteryWinners.isActive block = true := by decide +kernel
  have hin : shortCycleNode.InCycle fourCycles chain 11 9 ((chain.atHeight 9).head hne) := by
    refine ⟨by decide +kernel, by decide, ⟨by decide, by decide, by decide, ?_⟩, by decide,
      List.head?_eq_some_head hne⟩
    intro h hlow hhigh
    have hten : h = 10 := by omega
    rw [hten]
    decide
  obtain ⟨-, -, -, hcard⟩ := winners_are_uniform shortCycleNode (by decide) rfl fourCycles chain
    11 9 _ hin (hfork _ hin.ranks) (by decide +kernel)
  exact ⟨by decide +kernel, hcard⟩

end BlockIndexParameters

end Divi
