/-
The winners of a chain, cycle by cycle.

A chain is built block by block, each block on top of the active chain.  Its list of
winners is emptied at every lottery block, stays empty up to the start of the lottery and
otherwise changes by one block's coinstake at a time.  Within a cycle the look-ups always
find the same last lottery block, so the list of a block is described by induction over
the blocks of its cycle.

Before uniform winners the list holds the best eleven coinstakes of the cycle so far.
-/
import Divi.Proofs.LotteryRanking
import Divi.Proofs.LotteryBranches
import Divi.Proofs.SuperblockHeights

namespace Divi

open LotteryWinnersCalculator List Option

variable {last nHeight : Int} {chain prev : CChain} {block : CBlock} {blocks : List CBlock}
  {ticket : Int × LotteryCoinstake} {older : BlockPointer} {lastLottery : CBlockIndex}
  {params : BlockIndexParameters}

/-! ### The last lottery height -/

/--
The lottery block that ranks the coinstakes of a height: the last one before it, or the
start of the lottery if there is none since.
-/
structure CChainParams.LastLottery (p : CChainParams) (nHeight last : Int) : Prop where
  started : p.nLotteryBlockStartBlock ≤ last
  lottery : last = p.nLotteryBlockStartBlock ∨ p.isValidLotteryBlockHeight last = true
  lt : last < nHeight
  none : ∀ h, last < h → h < nHeight → p.isValidLotteryBlockHeight h = false

namespace CChainParams

variable {p : CChainParams}

/-- The multiple of a number that is closest below a height. -/
theorem not_dvd_of_mul_tdiv_lt {L n h : Int} (hlt : L * n.tdiv L < h) (hle : h ≤ n) : ¬ L ∣ h := by
  have hs := Int.tmod_add_mul_tdiv n L
  intro hdvd
  have hsub : L ∣ h - L * n.tdiv L := Int.dvd_sub hdvd (Int.dvd_mul_right L _)
  have hlow : (L.natAbs : Int) ≤ h - L * n.tdiv L := by
    have hdvd' : (L.natAbs : Int) ∣ h - L * n.tdiv L := Int.natAbs_dvd.mpr hsub
    exact Int.le_of_dvd (by omega) hdvd'
  by_cases hzero : L = 0
  · rw [hzero] at hsub hlt
    omega
  · have habs : (n.tmod L).natAbs < L.natAbs := by
      rw [Int.natAbs_tmod]
      exact Nat.mod_lt _ (Int.natAbs_pos.mpr hzero)
    omega

/-- The height the source computes is the last lottery height. -/
theorem LastLottery.eq (h : p.LastLottery nHeight last) (hpos : 0 < nHeight) :
    max p.nLotteryBlockStartBlock
      (p.nLotteryBlockCycle * (nHeight - 1).tdiv p.nLotteryBlockCycle) = last := by
  have hle : p.nLotteryBlockCycle * (nHeight - 1).tdiv p.nLotteryBlockCycle ≤ nHeight - 1 :=
    Int.mul_tdiv_self_le (by omega)
  have hdvd : p.nLotteryBlockCycle
      ∣ p.nLotteryBlockCycle * (nHeight - 1).tdiv p.nLotteryBlockCycle :=
    Int.dvd_mul_right _ _
  have hnext : ∀ x, p.nLotteryBlockCycle * (nHeight - 1).tdiv p.nLotteryBlockCycle < x →
      x ≤ nHeight - 1 → ¬ p.nLotteryBlockCycle ∣ x :=
    fun x hlt hx => not_dvd_of_mul_tdiv_lt hlt hx
  generalize p.nLotteryBlockCycle * (nHeight - 1).tdiv p.nLotteryBlockCycle = m at *
  obtain ⟨hst, hlot, hlt, hn⟩ := h
  rcases lt_or_ge m p.nLotteryBlockStartBlock with hpre | ha
  · rw [max_eq_left (le_of_lt hpre)]
    rcases hlot with hl | hl
    · exact hl.symm
    · exact absurd ((lottery_iff p last).mp hl).1 (hnext last (by omega) (by omega))
  · rw [max_eq_right ha]
    have hm : p.isValidLotteryBlockHeight m = true := (lottery_iff p m).mpr ⟨hdvd, .inl ha⟩
    have hmle : m ≤ last := by
      by_contra hgt
      have hno := hn m (by omega) (by omega)
      rw [hm] at hno
      cases hno
    rcases hlot with hl | hl
    · omega
    · by_contra hne
      exact hnext last (by omega) (by omega) ((lottery_iff p last).mp hl).1

/-- Within a cycle the last lottery height stays. -/
theorem LastLottery.mono {h : Int} (hl : p.LastLottery nHeight last) (hlt : last < h)
    (hle : h ≤ nHeight) : p.LastLottery h last :=
  ⟨hl.started, hl.lottery, hlt, fun x hx hxh => hl.none x hx (by omega)⟩

end CChainParams

namespace BlockIndexParameters

theorem lastLotteryHeight_eq (h : params.chainParams.LastLottery nHeight last)
    (hpos : 0 < nHeight) (chain : CChain) :
    (params.lotteryCalculator chain).lastLotteryHeight nHeight = last := by
  have hc := CChainParams.getLotteryBlockPaymentCycle_eq params.chainParams nHeight
  show max params.chainParams.nLotteryBlockStartBlock
    (params.chainParams.getLotteryBlockPaymentCycle nHeight
      * (nHeight - 1).tdiv (params.chainParams.getLotteryBlockPaymentCycle nHeight)) = last
  rw [hc]
  exact h.eq hpos

/-! ### Chains of blocks -/

theorem chainOf_append (blocks : List CBlock) (block : CBlock) :
    params.chainOf (blocks ++ [block]) = some chain ↔
      ∃ prev, params.chainOf blocks = some prev ∧
        params.extendChain prev block = some chain := by
  unfold chainOf
  rw [List.foldlM_append, Option.bind_eq_bind, Option.bind_eq_some_iff]
  simp

theorem extendChain_eq_some : params.extendChain prev block = some chain ↔
      ∃ winners, params.updateBlockIndexLotteryWinners prev block prev (newHeight prev)
          = some winners ∧
        chain = { params.newBlockIndex block prev with vLotteryWinnersCoinstakes := winners }
          :: prev := by
  unfold extendChain
  cases hwin : params.updateBlockIndexLotteryWinners prev block prev (newHeight prev) with
  | none =>
    simp
  | some winners =>
    simp only [Option.some.injEq, exists_eq_left']
    exact eq_comm

theorem chainOf_heights (h : params.chainOf blocks = some chain) :
    chain.length = blocks.length ∧ BlockPointer.HeightsOK chain := by
  induction blocks using List.reverseRecOn generalizing chain with
  | nil =>
    cases h
    exact ⟨rfl, trivial⟩
  | append_singleton blocks block ih =>
    obtain ⟨prev, hprev, he⟩ := (chainOf_append blocks block).mp h
    obtain ⟨hlen, hhts⟩ := ih hprev
    obtain ⟨winners, -, rfl⟩ := extendChain_eq_some.mp he
    refine ⟨?_, ?_, hhts⟩
    · simp [hlen]
    · exact (newBlockIndex_nHeight block prev).trans (newHeight_eq hhts)

theorem atHeight_cons {block : CBlockIndex} {h : Int} (hlt : h < prev.length) :
    CChain.atHeight (block :: prev) h = prev.atHeight h := by
  unfold CChain.atHeight
  by_cases hneg : h < 0
  · rw [if_pos (.inl hneg), if_pos (.inl hneg)]
  · rw [if_neg (by rw [length_cons]; omega), if_neg (by omega), length_cons]
    have hs : prev.length + 1 - 1 - h.toNat = prev.length - 1 - h.toNat + 1 := by omega
    rw [hs, drop_succ_cons]

theorem atHeight_tip (block : CBlockIndex) (prev : CChain) :
    CChain.atHeight (block :: prev) prev.length = block :: prev := by
  unfold CChain.atHeight
  rw [if_neg (by rw [length_cons]; omega), length_cons]
  have hzero : prev.length + 1 - 1 - (prev.length : Int).toNat = 0 := by omega
  rw [hzero, drop_zero]

/-- The part of a chain up to a height is the chain of the blocks up to there. -/
theorem chainOf_take (h : params.chainOf blocks = some chain) {k : Nat} (hk : k < blocks.length) :
    params.chainOf (blocks.take (k + 1)) = some (chain.atHeight k) := by
  induction blocks using List.reverseRecOn generalizing chain with
  | nil => cases hk
  | append_singleton blocks block ih =>
    obtain ⟨prev, hprev, he⟩ := (chainOf_append blocks block).mp h
    have hlen := (chainOf_heights hprev).1
    obtain ⟨winners, -, hc⟩ := extendChain_eq_some.mp he
    rw [length_append, length_singleton] at hk
    by_cases htip : k = blocks.length
    · rw [take_of_length_le (by simp only [length_append, length_singleton]; omega),
        h, hc, htip, ← hlen, atHeight_tip]
    · rw [take_append_of_le_length (by omega), hc, atHeight_cons (by omega)]
      exact ih hprev (by omega)

end BlockIndexParameters

/-! ### The list of a block -/

/-- The winners attached to a block, none for null. -/
def BlockPointer.winners : BlockPointer → LotteryCoinstakes
  | [] => []
  | block :: _ => block.vLotteryWinnersCoinstakes.getLotteryCoinstakes

namespace LotteryWinnersCalculator

variable {calculator : LotteryWinnersCalculator} {tx : CTransaction}
  {previous data : LotteryCoinstakeData}

section

variable (h : calculator.calculateUpdatedLotteryWinners tx previous nHeight = some data)

include h

theorem calculateUpdated_reset
    (hr : nHeight ≤ 0 ∨ calculator.chainParams.isValidLotteryBlockHeight nHeight = true) :
    data.getLotteryCoinstakes = [] := by
  unfold calculateUpdatedLotteryWinners at h
  by_cases hgen : nHeight ≤ 0
  · rw [if_pos hgen] at h
    cases h
    rfl
  · rcases hr with hle | hlot
    · exact absurd hle hgen
    · rw [if_neg hgen, if_pos hlot] at h
      cases h
      rfl

section

variable (hpos : 0 < nHeight)
  (hlot : calculator.chainParams.isValidLotteryBlockHeight nHeight = false)

include hpos hlot

theorem calculateUpdated_waits (hst : nHeight ≤ calculator.startOfLotteryBlocks) :
    data.getLotteryCoinstakes = previous.getLotteryCoinstakes := by
  unfold calculateUpdatedLotteryWinners at h
  rw [if_neg (by omega), if_neg (by rw [hlot]; decide), if_pos hst] at h
  cases h
  rfl

/-- In a cycle a block that takes part updates the list with its coinstake. -/
theorem calculateUpdated_adds (hst : calculator.startOfLotteryBlocks < nHeight) :
    (calculator.isCoinstakeValidForLottery tx nHeight = some false ∧
      data.getLotteryCoinstakes = previous.getLotteryCoinstakes) ∨
    ∃ payee updated, calculator.isCoinstakeValidForLottery tx nHeight = some true ∧
      payingOutput tx = some payee ∧
      calculator.updateCoinstakes nHeight
          (previous.getLotteryCoinstakes ++ [(tx.hash, payee.scriptPubKey)]) = some updated ∧
      data.getLotteryCoinstakes = updated.getD previous.getLotteryCoinstakes := by
  revert h
  fun_cases calculateUpdatedLotteryWinners calculator tx previous nHeight with
  | case1 hgen => omega
  | case2 _ hr => exact absurd hr (Bool.eq_false_iff.mp hlot)
  | case3 _ _ hw => omega
  | case4 | case6 | case7 => rintro ⟨⟩
  | case5 _ _ _ hval =>
    rintro ⟨⟩
    exact .inl ⟨hval, rfl⟩
  | case8 _ _ _ hval payee hp hupd | case9 _ _ _ hval payee hp _ hupd =>
    rintro ⟨⟩
    exact .inr ⟨payee, _, hval, hp, hupd, rfl⟩

end

end

end LotteryWinnersCalculator

namespace BlockIndexParameters

/-- A new block's list comes from its parent's and from its own minting transaction. -/
theorem extendChain_winners (h : params.extendChain prev block = some chain) :
    ∃ tx previous data, params.coinMintingTransaction block (newHeight prev) = some tx ∧
      (params.lotteryCalculator prev).calculateUpdatedLotteryWinners tx previous
        (newHeight prev) = some data ∧
      previous.getLotteryCoinstakes = prev.winners ∧
      chain.winners = data.getLotteryCoinstakes := by
  obtain ⟨winners, hwin, rfl⟩ := extendChain_eq_some.mp h
  unfold updateBlockIndexLotteryWinners at hwin
  obtain ⟨tx, htx, hdata⟩ := bind_eq_some_iff.mp hwin
  refine ⟨tx, _, winners, htx, hdata, ?_, rfl⟩
  cases prev with
  | nil => rfl
  | cons parent rest => rfl

/-- Nothing is listed up to the start of the lottery, nor at a lottery block. -/
theorem winners_nil (h : params.chainOf blocks = some chain) (htip : blocks.length = nHeight + 1)
    (hr : nHeight ≤ params.chainParams.nLotteryBlockStartBlock ∨
      params.chainParams.isValidLotteryBlockHeight nHeight = true) :
    chain.winners = [] := by
  induction blocks using List.reverseRecOn generalizing chain nHeight with
  | nil =>
    cases h
    rfl
  | append_singleton blocks block ih =>
    obtain ⟨prev, hprev, hex⟩ := (chainOf_append blocks block).mp h
    obtain ⟨hlen, hhts⟩ := chainOf_heights hprev
    rw [length_append, length_singleton] at htip
    have hht : newHeight prev = nHeight := by
      rw [newHeight_eq hhts, hlen]
      omega
    obtain ⟨tx, previous, data, -, hdata, hp, hc⟩ := extendChain_winners hex
    rw [hht] at hdata
    rw [hc]
    by_cases he : nHeight ≤ 0 ∨
        params.chainParams.isValidLotteryBlockHeight nHeight = true
    · exact calculateUpdated_reset hdata he
    · obtain ⟨hpos, hlot⟩ := not_or.mp he
      rcases hr with hst | hlot'
      · rw [calculateUpdated_waits hdata (by omega)
          (Bool.eq_false_iff.mpr hlot) hst, hp]
        exact ih hprev (by omega : (blocks.length : Int) = nHeight - 1 + 1) (.inl (by omega))
      · exact absurd hlot' hlot

/-! ### Tickets -/

/-- The coinstake a block takes part with in the lottery, and the script it pays. -/
def ticketOf (params : BlockIndexParameters) (block : CBlock) (nHeight : Int) :
    Option LotteryCoinstake :=
  (params.coinMintingTransaction block nHeight).bind fun tx =>
    if (params.lotteryCalculator []).isCoinstakeValidForLottery tx nHeight = some true then
      (LotteryWinnersCalculator.payingOutput tx).map fun payee => (tx.hash, payee.scriptPubKey)
    else
      none

/-- The tickets of a chain's blocks above one height and up to another, with their heights. -/
def tickets (params : BlockIndexParameters) (blocks : List CBlock) (last nHeight : Int) :
    List (Int × LotteryCoinstake) :=
  blocks.zipIdx.filterMap fun (block, i) =>
    if last < i ∧ i ≤ nHeight then (params.ticketOf block i).map fun c => ((i : Int), c)
    else none

theorem mem_tickets (h : ticket ∈ params.tickets blocks last nHeight) :
    last < ticket.1 ∧ ticket.1 ≤ nHeight := by
  obtain ⟨⟨block, i⟩, -, hsome⟩ := mem_filterMap.mp h
  by_cases hin : last < (i : Int) ∧ (i : Int) ≤ nHeight
  · simp only [if_pos hin] at hsome
    obtain ⟨c, -, rfl⟩ := map_eq_some_iff.mp hsome
    exact hin
  · simp only [if_neg hin] at hsome
    cases hsome

theorem tickets_self (blocks : List CBlock) (last : Int) :
    params.tickets blocks last last = [] := by
  cases hlist : params.tickets blocks last last with
  | nil => rfl
  | cons ticket rest =>
    have hmem := mem_tickets (hlist ▸ mem_cons_self)
    omega

theorem tickets_append (blocks : List CBlock) (block : CBlock) (hl : last < blocks.length) :
    params.tickets (blocks ++ [block]) last ((blocks ++ [block]).length - 1)
      = params.tickets blocks last (blocks.length - 1)
        ++ ((params.ticketOf block blocks.length).map
          fun c => ((blocks.length : Int), c)).toList := by
  have hht : (((blocks ++ [block]).length : Nat) : Int) - 1 = blocks.length := by
    rw [length_append, length_singleton]
    omega
  rw [hht]
  unfold tickets
  rw [zipIdx_append, filterMap_append]
  congr 1
  · refine filterMap_congr ?_
    intro entry he
    have hlt := snd_lt_of_mem_zipIdx he
    have hiff : (last < (entry.2 : Int) ∧ (entry.2 : Int) ≤ blocks.length) ↔
        (last < (entry.2 : Int) ∧ (entry.2 : Int) ≤ (blocks.length : Int) - 1) := by omega
    simp only [hiff]
  · have hin : last < (blocks.length : Int) ∧ (blocks.length : Int) ≤ blocks.length :=
      ⟨hl, le_refl _⟩
    simp only [zipIdx_singleton, filterMap_cons, filterMap_nil, Nat.zero_add, if_pos hin]
    cases params.ticketOf block blocks.length with
    | none => rfl
    | some c => rfl

theorem tickets_take (blocks : List CBlock) (last : Int) (k : Nat) :
    params.tickets blocks last k = params.tickets (blocks.take (k + 1)) last k := by
  have hs : params.tickets (blocks.take (k + 1) ++ blocks.drop (k + 1)) last k
      = params.tickets (blocks.take (k + 1)) last k := by
    unfold tickets
    rw [zipIdx_append, filterMap_append]
    have hr : ((blocks.drop (k + 1)).zipIdx (0 + (blocks.take (k + 1)).length)).filterMap
        (fun entry : CBlock × Nat => if last < (entry.2 : Int) ∧ (entry.2 : Int) ≤ (k : Int) then
          (params.ticketOf entry.1 entry.2).map fun c => ((entry.2 : Int), c) else none)
        = [] := by
      rw [filterMap_eq_nil_iff]
      intro entry he
      have hge := le_snd_of_mem_zipIdx he
      have hdrop : (blocks.drop (k + 1)).length ≠ 0 := by
        intro hzero
        rw [length_eq_zero_iff.mp hzero] at he
        cases he
      rw [length_drop] at hdrop
      rw [length_take] at hge
      rw [if_neg (by omega)]
    exact (congrArg _ hr).trans (append_nil _)
  rw [← hs, take_append_drop]

/-! ### Steps of a cycle -/

open Ranking LotteryWinnersCalculator

theorem atHeight_eq_cons {h : Int} {block : CBlockIndex} (hr : chain.atHeight h = block :: older) :
    0 ≤ h := by
  unfold CChain.atHeight at hr
  by_contra hneg
  rw [if_pos (.inl (by omega))] at hr
  cases hr

/-- The parent of a block sees the same last lottery block. -/
theorem getLastLottery_eq (hl : params.chainParams.LastLottery nHeight last)
    (hpos : 0 < nHeight) {pindex : BlockPointer} (hr : prev.atHeight last = pindex) :
    (params.lotteryCalculator prev).getLastLotteryBlockIndexBeforeHeight nHeight = pindex := by
  unfold getLastLotteryBlockIndexBeforeHeight
  rw [lastLotteryHeight_eq hl hpos prev]
  exact hr

/-- A block added inside a cycle, on a chain that still reads the same last lottery block. -/
structure CycleStep (params : BlockIndexParameters) (last : Int)
    (lastLottery : CBlockIndex) (blocks : List CBlock) (block : CBlock)
    (prev chain : CChain) : Prop where
  built : params.chainOf blocks = some prev
  extended : params.extendChain prev block = some chain
  follows : params.chainParams.LastLottery blocks.length last
  notLottery : params.chainParams.isValidLotteryBlockHeight blocks.length = false
  positive : 0 < (blocks.length : Int)
  ranks : ∃ older, prev.atHeight last = lastLottery :: older

theorem CycleStep.started (h : params.CycleStep last lastLottery blocks block prev chain) :
    params.chainParams.nLotteryBlockStartBlock < blocks.length :=
  lt_of_le_of_lt h.follows.started h.follows.lt

theorem atHeight_atHeight {n : Nat} {h : Int} (hn : n < chain.length) (hle : h ≤ n) :
    CChain.atHeight (chain.atHeight n) h = chain.atHeight h := by
  have hpart : chain.atHeight (n : Int) = chain.drop (chain.length - 1 - n) := by
    unfold CChain.atHeight
    rw [if_neg (by omega), Int.toNat_natCast]
  rw [hpart]
  unfold CChain.atHeight
  by_cases hneg : h < 0
  · rw [if_pos (.inl hneg), if_pos (.inl hneg)]
  · rw [length_drop, if_neg (by omega), if_neg (by omega), drop_drop]
    congr 1
    omega

/-- A block of a chain inside a lottery cycle, with the lottery block that ranks its coinstakes. -/
structure InCycle (params : BlockIndexParameters) (blocks : List CBlock) (chain : CChain)
    (nHeight : Nat) (last : Int) (lastLottery : CBlockIndex) : Prop where
  built : params.chainOf blocks = some chain
  height : nHeight < blocks.length
  follows : params.chainParams.LastLottery nHeight last
  notLottery : params.chainParams.isValidLotteryBlockHeight nHeight = false
  ranks : (chain.atHeight last).head? = some lastLottery

theorem InCycle.last_nonneg {nHeight : Nat}
    (h : params.InCycle blocks chain nHeight last lastLottery) : 0 ≤ last := by
  obtain ⟨older, hr⟩ := List.head?_eq_some_iff.mp h.ranks
  exact atHeight_eq_cons hr

/--
Induction over the blocks of a cycle: what holds of the last lottery block with its empty
list, and is kept by every block added in the cycle, holds of every block of the cycle.
-/
theorem InCycle.induction {P : List CBlock → CChain → Prop} {nHeight : Nat}
    (h : params.InCycle blocks chain nHeight last lastLottery)
    (hbase : ∀ blocks chain, params.chainOf blocks = some chain →
      (blocks.length : Int) = last + 1 → chain.winners = [] → P blocks chain)
    (hstep : ∀ blocks block prev chain,
      params.CycleStep last lastLottery blocks block prev chain →
        P blocks prev → P (blocks ++ [block]) chain) :
    P (blocks.take (nHeight + 1)) (chain.atHeight nHeight) := by
  have hpos := h.last_nonneg
  have hlt := h.follows.lt
  induction nHeight with
  | zero => omega
  | succ n ih =>
    have hht := h.height
    have hlen := (chainOf_heights h.built).1
    obtain ⟨older, hr⟩ := List.head?_eq_some_iff.mp h.ranks
    have hprev := chainOf_take h.built (Nat.lt_of_succ_lt hht)
    have hc := chainOf_take h.built hht
    rw [← take_append_getElem hht] at hc ⊢
    obtain ⟨prev, hprev', he⟩ := (chainOf_append _ _).mp hc
    obtain rfl := Option.some.inj (hprev.symm.trans hprev')
    have htip : ((blocks.take (n + 1)).length : Int) = (n + 1 : Nat) := by
      rw [length_take_of_le (by omega)]
    refine hstep _ _ _ _ ⟨hprev, he, htip ▸ h.follows, htip ▸ h.notLottery, by omega, older,
      ?_⟩ ?_
    · rw [atHeight_atHeight (by omega) (by omega), hr]
    -- the parent is the last lottery block itself or a block of the same cycle
    by_cases hfst : last = n
    · exact hbase _ _ hprev (by omega)
        (winners_nil hprev (by omega) (h.follows.lottery.imp_left le_of_eq))
    · exact ih ⟨h.built, by omega, h.follows.mono (by omega) (by omega),
        h.follows.none _ (by omega) (by omega), h.ranks⟩ (by omega)

/-- A block of a cycle updates its parent's list, or keeps it. -/
theorem winners_step (h : params.CycleStep last lastLottery blocks block prev chain) :
    ∃ tx, params.coinMintingTransaction block blocks.length = some tx ∧
      (((params.lotteryCalculator prev).isCoinstakeValidForLottery tx blocks.length
          = some false ∧ chain.winners = prev.winners) ∨
        ∃ payee updated,
          (params.lotteryCalculator prev).isCoinstakeValidForLottery tx blocks.length
            = some true ∧
          payingOutput tx = some payee ∧
          (params.lotteryCalculator prev).updateCoinstakes blocks.length
            (prev.winners ++ [(tx.hash, payee.scriptPubKey)]) = some updated ∧
          chain.winners = updated.getD prev.winners) := by
  obtain ⟨hlen, hhts⟩ := chainOf_heights h.built
  have hht : newHeight prev = blocks.length := by
    rw [newHeight_eq hhts, hlen]
  obtain ⟨tx, previous, data, htx, hdata, hprev, hc⟩ := extendChain_winners h.extended
  rw [hht] at htx hdata
  refine ⟨tx, htx, ?_⟩
  have hadds := calculateUpdated_adds hdata h.positive h.notLottery
    h.started
  rw [hprev] at hadds
  rw [hc]
  exact hadds

/-- A block of a cycle adds its ticket to its parent's list, or has none and keeps it. -/
theorem winners_ticket (hsps : params.ticketMinValues = none)
    (h : params.CycleStep last lastLottery blocks block prev chain) :
    (params.ticketOf block blocks.length = none ∧ chain.winners = prev.winners) ∨
      ∃ x updated, params.ticketOf block blocks.length = some x ∧
        (params.lotteryCalculator prev).updateCoinstakes blocks.length (prev.winners ++ [x])
          = some updated ∧
        chain.winners = updated.getD prev.winners := by
  obtain ⟨tx, htx, hc⟩ := winners_step h
  rw [isCoinstakeValid_congr hsps prev []] at hc
  unfold ticketOf
  rw [htx, bind_some]
  rcases hc with ⟨hval, hs⟩ | ⟨payee, updated, hval, hp, hupd, hwin⟩
  · left
    rw [hval, if_neg (by decide)]
    exact ⟨rfl, hs⟩
  · right
    rw [hval, if_pos rfl, hp]
    exact ⟨_, updated, rfl, hupd, hwin⟩

/--
Induction over the tickets of a cycle: what holds of the empty list without a ticket, and is kept
by blocks without a ticket and by updates with one, holds of every list of the cycle.
-/
theorem InCycle.ticket_induction (hsps : params.ticketMinValues = none) {nHeight : Nat}
    {Q : List (Int × LotteryCoinstake) → CChain → Prop}
    (h : params.InCycle blocks chain nHeight last lastLottery)
    (hnil : ∀ chain : CChain, chain.winners = [] → Q [] chain)
    (hkeep : ∀ tickets blocks block prev chain,
      params.CycleStep last lastLottery blocks block prev chain →
        chain.winners = prev.winners → Q tickets prev → Q tickets chain)
    (hadd : ∀ tickets blocks block prev chain x updated,
      params.CycleStep last lastLottery blocks block prev chain →
        (params.lotteryCalculator prev).updateCoinstakes blocks.length (prev.winners ++ [x])
          = some updated → chain.winners = updated.getD prev.winners →
        ((tickets ++ [((blocks.length : Int), x)]).map fun t => t.2.1).Nodup →
        (∀ earlier ∈ tickets, earlier.1 < blocks.length) → Q tickets prev →
          Q (tickets ++ [((blocks.length : Int), x)]) chain)
    (hdist : ((params.tickets blocks last nHeight).map fun t => t.2.1).Nodup) :
    Q (params.tickets blocks last nHeight) (chain.atHeight nHeight) := by
  have htips := h.induction (P := fun blocks chain =>
    ((params.tickets blocks last (blocks.length - 1)).map fun t => t.2.1).Nodup →
      Q (params.tickets blocks last (blocks.length - 1)) chain) ?_ ?_
  · have htip : ((blocks.take (nHeight + 1)).length : Int) - 1 = nHeight := by
      rw [length_take_of_le h.height]
      omega
    rw [htip, ← tickets_take] at htips
    exact htips hdist
  · intro blocks chain _ hlen hwin _
    rw [hlen, Int.add_sub_cancel, tickets_self]
    exact hnil chain hwin
  · intro blocks block prev chain hstep ih hdist
    rw [tickets_append blocks block hstep.follows.lt] at hdist ⊢
    have hpar := ih (hdist.sublist ((sublist_append_left _ _).map _))
    rcases winners_ticket hsps hstep
      with ⟨hn, hs⟩ | ⟨x, updated, ht, hupd, hwin⟩
    · rw [hn, map_none, toList_none, append_nil]
      exact hkeep _ blocks block prev chain hstep hs hpar
    · rw [ht, map_some, toList_some] at hdist ⊢
      refine hadd _ blocks block prev chain x updated hstep hupd hwin hdist ?_ hpar
      intro earlier he
      have hr := mem_tickets he
      omega

/-! ### The best eleven -/

/-- The score of a coinstake under the block that ranks it. -/
def ticketScore (params : BlockIndexParameters) (lastLottery : CBlockIndex)
    (coinstake : LotteryCoinstake) : Nat :=
  (params.calculateLotteryScore coinstake.1 lastLottery.phashBlock).toNat

/-- A ticket ranks before another by its score, and by its height where they are equal. -/
def RanksBefore (params : BlockIndexParameters) (lastLottery : CBlockIndex)
    (first second : Int × LotteryCoinstake) : Prop :=
  params.ticketScore lastLottery second.2
      < params.ticketScore lastLottery first.2 ∨
    (params.ticketScore lastLottery first.2
        = params.ticketScore lastLottery second.2 ∧
      first.1 < second.1)

/-- A list of winners is the best eleven of the tickets. -/
def BestEleven (params : BlockIndexParameters) (lastLottery : CBlockIndex)
    (tickets : List (Int × LotteryCoinstake)) (winners : LotteryCoinstakes) : Prop :=
  ∃ ranked : List (Int × LotteryCoinstake), ranked.Perm tickets ∧
    ranked.Pairwise (params.RanksBefore lastLottery) ∧
    winners = (ranked.map Prod.snd).take 11

variable {tickets : List (Int × LotteryCoinstake)} {winners : LotteryCoinstakes}

theorem descending_of_ranked {ranked : List (Int × LotteryCoinstake)}
    (h : ranked.Pairwise (params.RanksBefore lastLottery)) :
    Descending (fun ticket => params.ticketScore lastLottery ticket.2) ranked := by
  refine h.imp ?_
  intro a b hab
  rcases hab with hlt | ⟨heq, -⟩
  · exact le_of_lt hlt
  · exact le_of_eq heq.symm

section

variable (h : params.BestEleven lastLottery tickets winners)

include h

/-- One more ticket, of a greater height, among the best eleven. -/
theorem BestEleven.place (hht : ∀ earlier ∈ tickets, earlier.1 < ticket.1) :
    params.BestEleven lastLottery (tickets ++ [ticket])
      ((Ranking.place (params.ticketScore lastLottery) ticket.2 winners).take 11) := by
  obtain ⟨ranked, hperm, hr, rfl⟩ := h
  have hdesc := descending_of_ranked hr
  refine ⟨Ranking.place (fun t => params.ticketScore lastLottery t.2) ticket ranked,
    ?_, ?_, ?_⟩
  · exact ((place_perm _ ticket ranked).trans (hperm.cons ticket)).trans
      (perm_append_singleton ticket tickets).symm
  · refine place_pairwise hdesc hr ?_ ?_
    · intro earlier hmem hle
      rcases lt_or_eq_of_le hle with hlt | heq
      · exact .inl hlt
      · exact .inr ⟨heq.symm, hht earlier (hperm.mem_iff.mp hmem)⟩
    · intro earlier _ hlt
      exact .inl hlt
  · rw [map_place Prod.snd (params.ticketScore lastLottery), take_place]

theorem BestEleven.length_le : winners.length ≤ 11 := by
  obtain ⟨ranked, -, -, rfl⟩ := h
  exact length_take_le 11 _

theorem BestEleven.descending : Descending (params.ticketScore lastLottery) winners := by
  obtain ⟨ranked, -, hr, rfl⟩ := h
  have hall : Descending (params.ticketScore lastLottery) (ranked.map Prod.snd) :=
    pairwise_map.mpr (descending_of_ranked hr)
  exact hall.sublist (take_sublist 11 _)

/-- The winners are tickets, each at most once. -/
theorem BestEleven.distinctHashes (hdist : ((tickets ++ [ticket]).map fun t => t.2.1).Nodup) :
    DistinctHashes (winners ++ [ticket.2]) := by
  obtain ⟨ranked, hperm, -, rfl⟩ := h
  have hsub : (((ranked.map Prod.snd).take 11 ++ [ticket.2]).map Prod.fst).Sublist
      ((ranked ++ [ticket]).map fun t => t.2.1) := by
    rw [map_append, map_append]
    refine List.Sublist.append ?_ (List.Sublist.refl _)
    have htake := (take_sublist 11 (ranked.map Prod.snd)).map Prod.fst
    rwa [List.map_map] at htake
  have hnd : ((ranked ++ [ticket]).map fun t => t.2.1).Nodup :=
    ((hperm.append_right [ticket]).map fun t => t.2.1).nodup_iff.mpr hdist
  exact hnd.sublist hsub

end

/--
**The best eleven.**  Before uniform winners the list of every block of a cycle is the
best eleven of the coinstakes that took part in the cycle up to it, ranked by the score
under the last lottery block and by height where the scores are equal.
-/
theorem winners_are_best_eleven (params : BlockIndexParameters)
    (hsps : params.ticketMinValues = none) (blocks : List CBlock) (chain : CChain)
    (nHeight : Nat) (last : Int) (lastLottery : CBlockIndex)
    (hc : params.InCycle blocks chain nHeight last lastLottery)
    (hfork : Fork.UniformLotteryWinners.isActive lastLottery = false)
    (hdist : ((params.tickets blocks last nHeight).map fun t => t.2.1).Nodup) :
    params.BestEleven lastLottery (params.tickets blocks last nHeight)
      (chain.atHeight nHeight).winners := by
  refine hc.ticket_induction hsps (Q := fun tickets chain =>
    params.BestEleven lastLottery tickets chain.winners) ?_ ?_ ?_ hdist
  · intro chain hnil
    rw [hnil]
    exact ⟨[], List.Perm.refl _, List.Pairwise.nil, rfl⟩
  · intro tickets blocks block prev chain _ hs hpar
    rw [hs]
    exact hpar
  · intro tickets blocks block prev chain x updated hstep hupd hwin hdist hhts
      hpar
    obtain ⟨older, hprev⟩ := hstep.ranks
    have hhs := hpar.distinctHashes hdist
    obtain ⟨r, hr, hlist⟩ := updateCoinstakes_nextList
      (getLastLottery_eq hstep.follows hstep.positive hprev) (by rw [hfork, Bool.false_and]) hhs
      hpar.descending
    rw [hfork, nextList_plain hhs hpar.length_le] at hlist
    rw [hupd] at hr
    cases hr
    rw [hwin, hlist]
    exact hpar.place hhts

/-- Sixteen blocks, of which the last fourteen take part in the first cycle. -/
def firstCycleBlocks : List CBlock :=
  (List.range 16).map fun i => ticketBlock (i + 1) i

/-- A node with a lottery from block 1 on, in cycles of twenty blocks. -/
def earlyLotteryNode : BlockIndexParameters :=
  rankingNode { regTestParams with
    nLotteryBlockStartBlock := 1, nLotteryBlockCycle := 20, nLastPOWBlock := 0 }

/-- The fourteen tickets up to block 15 are more than fit into the list. -/
theorem winners_are_best_eleven_early :
    let chain := (earlyLotteryNode.chainOf firstCycleBlocks).getD []
    ∃ lastLottery, earlyLotteryNode.InCycle firstCycleBlocks chain 15 1 lastLottery ∧
      (earlyLotteryNode.tickets firstCycleBlocks 1 15).length = 14 ∧
      earlyLotteryNode.BestEleven lastLottery
        (earlyLotteryNode.tickets firstCycleBlocks 1 15) (chain.atHeight 15).winners := by
  intro chain
  have hne : chain.atHeight 1 ≠ [] := by decide +kernel
  have hfork : ∀ block ∈ (chain.atHeight 1).head?,
      Fork.UniformLotteryWinners.isActive block = false := by decide +kernel
  have hc : earlyLotteryNode.InCycle firstCycleBlocks chain 15 1
      ((chain.atHeight 1).head hne) := by
    refine ⟨by decide +kernel, by decide, ⟨by decide, by decide, by decide, ?_⟩, by decide,
      List.head?_eq_some_head hne⟩
    intro h hlow hhigh
    interval_cases h <;> decide
  exact ⟨_, hc, by decide +kernel, winners_are_best_eleven earlyLotteryNode rfl _ _ _ _ _
    hc (hfork _ hc.ranks) (by decide +kernel)⟩

end BlockIndexParameters

end Divi
