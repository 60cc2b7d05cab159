/-
Lottery winners on competing branches.

The winners of a block are computed once, when the block is added, with look-ups by
height in the chain that is active then.  As long as that chain has the same blocks at
those heights as the block's own branch, the index ends up as if every block had been
added while its own branch was active.  On another branch the look-ups find other blocks.
-/
import Divi.BlockIndex

namespace Divi

open LotteryWinnersCalculator List Option

variable {nHeight : Int} {first second activeChain chain : CChain} {tx : CTransaction}
  {mapBlockIndex : BlockMap} {block : CBlock} {payee : CTxOut}

/-! ### What is looked up -/

namespace LotteryWinnersCalculator

variable {calculator other : LotteryWinnersCalculator}

theorem vetoLoop_congr {paymentScript : CScript} {heights : List Int} (h : ∀ height ∈ heights,
      calculator.activeChain.atHeight height = other.activeChain.atHeight height) :
    calculator.vetoLoop paymentScript heights = other.vetoLoop paymentScript heights := by
  induction heights with
  | nil => rfl
  | cons height rest ih =>
    have hr := ih fun later hl => h later (mem_cons_of_mem _ hl)
    simp only [vetoLoop, h height mem_cons_self, hr]

end LotteryWinnersCalculator

namespace BlockIndexParameters

variable (params : BlockIndexParameters)

/-- The last lottery height before a height. -/
def lastLotteryHeight (nHeight : Int) : Int :=
  (params.lotteryCalculator []).lastLotteryHeight nHeight

/-- The heights whose winners are vetoed. -/
def vetoHeights (nHeight : Int) : List Int :=
  (params.lotteryCalculator []).vetoHeights nHeight

/-- Two chains have the same blocks where the winners of a height are computed from. -/
@[mk_iff]
structure ReadsAlike (nHeight : Int) (first second : CChain) : Prop where
  lastLottery : first.atHeight (params.lastLotteryHeight nHeight)
    = second.atHeight (params.lastLotteryHeight nHeight)
  vetoed : ∀ block ∈ (second.atHeight (params.lastLotteryHeight nHeight)).head?,
    Fork.UniformLotteryWinners.isActive block = true →
      ∀ height ∈ params.vetoHeights nHeight, first.atHeight height = second.atHeight height

/-- The winners of a block are computed from the list of its parent and its own coinstake. -/
@[mk_iff]
structure Recomputes (tx : CTransaction) (nHeight : Int) : Prop where
  notLottery : params.chainParams.isValidLotteryBlockHeight nHeight = false
  started : params.chainParams.nLotteryBlockStartBlock < nHeight
  takesPart : (params.lotteryCalculator []).isCoinstakeValidForLottery tx nHeight = some true

/--
What is asked of a step: the block has a transaction that can win, and where winners
are computed, the active chain agrees with the block's own branch.
-/
@[mk_iff]
structure StepReadsAlike (mapBlockIndex : BlockMap) (block : CBlock) (activeChain : CChain) :
    Prop where
  mints : ((params.coinMintingTransaction block (newHeight (parentOf mapBlockIndex block))).bind
    LotteryWinnersCalculator.payingOutput).isSome = true
  alike : ∀ tx ∈
    params.coinMintingTransaction block (newHeight (parentOf mapBlockIndex block)),
      params.Recomputes tx (newHeight (parentOf mapBlockIndex block)) →
        params.ReadsAlike (newHeight (parentOf mapBlockIndex block)) activeChain
          (parentOf mapBlockIndex block)

/-- Every step of a sequence of additions is such a step. -/
def StepsReadAlike : BlockMap → List (CBlock × CChain) → Prop
  | _, [] => True
  | mapBlockIndex, (block, activeChain) :: rest =>
    params.StepReadsAlike mapBlockIndex block activeChain ∧
      match params.addToBlockIndex activeChain mapBlockIndex block with
      | none => True
      | some next => StepsReadAlike next rest

instance (nHeight : Int) (first second : CChain) :
    Decidable (params.ReadsAlike nHeight first second) :=
  decidable_of_iff _ (params.readsAlike_iff nHeight first second).symm

instance (tx : CTransaction) (nHeight : Int) : Decidable (params.Recomputes tx nHeight) :=
  decidable_of_iff _ (params.recomputes_iff tx nHeight).symm

instance (mapBlockIndex : BlockMap) (block : CBlock) (activeChain : CChain) :
    Decidable (params.StepReadsAlike mapBlockIndex block activeChain) :=
  decidable_of_iff _ (params.stepReadsAlike_iff mapBlockIndex block activeChain).symm

instance decidableStepsReadAlike : (mapBlockIndex : BlockMap) →
    (additions : List (CBlock × CChain)) →
      Decidable (params.StepsReadAlike mapBlockIndex additions)
  | _, [] => isTrue trivial
  | mapBlockIndex, (block, activeChain) :: rest =>
    @instDecidableAnd (params.StepReadsAlike mapBlockIndex block activeChain) _ _ <|
      match params.addToBlockIndex activeChain mapBlockIndex block with
      | none => isTrue trivial
      | some next => decidableStepsReadAlike next rest

variable {params}

/-! ### Reading alike -/

theorem updateCoinstakes_congr (h : params.ReadsAlike nHeight first second)
    (coinstakes : LotteryCoinstakes) :
    (params.lotteryCalculator first).updateCoinstakes nHeight coinstakes
      = (params.lotteryCalculator second).updateCoinstakes nHeight coinstakes := by
  have hl : (params.lotteryCalculator first).getLastLotteryBlockIndexBeforeHeight nHeight
      = (params.lotteryCalculator second).getLastLotteryBlockIndexBeforeHeight nHeight :=
    h.lastLottery
  unfold updateCoinstakes
  rw [hl]
  cases hblk : (params.lotteryCalculator second).getLastLotteryBlockIndexBeforeHeight
      nHeight with
  | nil => rfl
  | cons lastLottery older =>
    cases hu : Fork.UniformLotteryWinners.isActive lastLottery with
    | false =>
      simp only [hu, Bool.false_and]
      rfl
    | true =>
      -- the winners before the last lottery blocks only matter once the fork is active
      have hmem : lastLottery
          ∈ (second.atHeight (params.lastLotteryHeight nHeight)).head? := by
        have hr : second.atHeight (params.lastLotteryHeight nHeight)
            = lastLottery :: older := hblk
        rw [hr]
        rfl
      have hveto : ∀ script,
          (params.lotteryCalculator first).isPaymentScriptVetoed script nHeight
            = (params.lotteryCalculator second).isPaymentScriptVetoed script nHeight := by
        intro script
        exact vetoLoop_congr (h.vetoed lastLottery hmem hu)
      simp only [hveto]
      rfl

/-- With no spork active the ticket price does not depend on the chain. -/
theorem isCoinstakeValid_congr (hsps : params.ticketMinValues = none)
    (first second : CChain) (tx : CTransaction) (nHeight : Int) :
    (params.lotteryCalculator first).isCoinstakeValidForLottery tx nHeight
      = (params.lotteryCalculator second).isCoinstakeValidForLottery tx nHeight := by
  have hmin : ∀ chain, (params.lotteryCalculator chain).minimumCoinstakeForTicket nHeight
      = 10000 := by
    intro chain
    simp only [minimumCoinstakeForTicket, lotteryCalculator, hsps]
  simp only [isCoinstakeValidForLottery, hmin]

theorem calculateUpdated_congr (hsps : params.ticketMinValues = none)
    (h : params.Recomputes tx nHeight → params.ReadsAlike nHeight first second)
    (previous : LotteryCoinstakeData) :
    (params.lotteryCalculator first).calculateUpdatedLotteryWinners tx previous nHeight
      = (params.lotteryCalculator second).calculateUpdatedLotteryWinners tx previous
        nHeight := by
  unfold calculateUpdatedLotteryWinners
  rw [isCoinstakeValid_congr hsps first [], isCoinstakeValid_congr hsps second []]
  by_cases hgen : nHeight ≤ 0
  · rw [if_pos hgen, if_pos hgen]
  rw [if_neg hgen, if_neg hgen]
  by_cases hlot : params.chainParams.isValidLotteryBlockHeight nHeight = true
  · exact (if_pos hlot).trans (if_pos hlot).symm
  refine (if_neg hlot).trans (Eq.trans ?_ (if_neg hlot).symm)
  by_cases hst : nHeight ≤ params.chainParams.nLotteryBlockStartBlock
  · exact (if_pos hst).trans (if_pos hst).symm
  refine (if_neg hst).trans (Eq.trans ?_ (if_neg hst).symm)
  cases ht : (params.lotteryCalculator []).isCoinstakeValidForLottery tx nHeight with
  | none => rfl
  | some valid =>
    cases valid with
    | false => rfl
    | true =>
      have hr := h ⟨by simpa using hlot, by omega, ht⟩
      simp only [updateCoinstakes_congr hr]

theorem StepReadsAlike.exists_mint (h : params.StepReadsAlike mapBlockIndex block activeChain) :
    ∃ tx payee, params.coinMintingTransaction block (newHeight (parentOf mapBlockIndex block))
        = some tx ∧ payingOutput tx = some payee := by
  obtain ⟨payee, hp⟩ := isSome_iff_exists.mp h.mints
  obtain ⟨tx, htx, hout⟩ := bind_eq_some_iff.mp hp
  exact ⟨tx, payee, htx, hout⟩

theorem addToBlockIndex_congr (hsps : params.ticketMinValues = none)
    (h : params.StepReadsAlike mapBlockIndex block activeChain) :
    params.addToBlockIndex activeChain mapBlockIndex block
      = params.addToBlockIndex (parentOf mapBlockIndex block) mapBlockIndex block := by
  obtain ⟨tx, payee, htx, -⟩ := h.exists_mint
  have hwin : params.updateBlockIndexLotteryWinners activeChain block
        (parentOf mapBlockIndex block) (newHeight (parentOf mapBlockIndex block))
      = params.updateBlockIndexLotteryWinners (parentOf mapBlockIndex block) block
        (parentOf mapBlockIndex block) (newHeight (parentOf mapBlockIndex block)) := by
    simp only [updateBlockIndexLotteryWinners, htx, bind_eq_bind, bind_some]
    exact calculateUpdated_congr hsps (h.alike tx htx) _
  simp only [addToBlockIndex, hwin]

/-! ### A block's own branch -/

theorem lastLotteryHeight_lt (hc : 0 < params.chainParams.nLotteryBlockCycle)
    (hst : params.chainParams.nLotteryBlockStartBlock < nHeight)
    (hpos : 0 ≤ params.chainParams.nLotteryBlockStartBlock) :
    0 ≤ params.lastLotteryHeight nHeight ∧ params.lastLotteryHeight nHeight < nHeight := by
  have hlen : params.chainParams.getLotteryBlockPaymentCycle nHeight
      = params.chainParams.nLotteryBlockCycle := by
    unfold CChainParams.getLotteryBlockPaymentCycle CChainParams.superblockCycleLength
    split <;> rfl
  have hlt := Int.mul_ediv_self_le (x := nHeight - 1)
    (k := params.chainParams.nLotteryBlockCycle) (by omega)
  have hv : params.lastLotteryHeight nHeight
      = max params.chainParams.nLotteryBlockStartBlock
        (params.chainParams.nLotteryBlockCycle
          * ((nHeight - 1) / params.chainParams.nLotteryBlockCycle)) := by
    show max _ (params.chainParams.getLotteryBlockPaymentCycle nHeight *
      (nHeight - 1).tdiv (params.chainParams.getLotteryBlockPaymentCycle nHeight)) = _
    rw [hlen, Int.tdiv_eq_ediv_of_nonneg (by omega)]
    rfl
  rw [hv]
  constructor
  · exact le_max_of_le_left hpos
  · exact max_lt hst (by omega)

theorem atHeight_ne_nil (hpos : 0 ≤ nHeight) (hlt : nHeight < chain.length) :
    chain.atHeight nHeight ≠ [] := by
  unfold CChain.atHeight
  rw [if_neg (by omega)]
  intro hnil
  have hlen := congrArg List.length hnil
  simp only [length_drop, length_nil] at hlen
  omega

theorem updateCoinstakes_isSome (h : chain.atHeight (params.lastLotteryHeight nHeight) ≠ [])
    (coinstakes : LotteryCoinstakes) :
    ∃ updated, (params.lotteryCalculator chain).updateCoinstakes nHeight coinstakes
      = some updated := by
  have hr : (params.lotteryCalculator chain).getLastLotteryBlockIndexBeforeHeight nHeight
      ≠ [] := h
  unfold updateCoinstakes
  cases hblk : (params.lotteryCalculator chain).getLastLotteryBlockIndexBeforeHeight
      nHeight with
  | nil => exact absurd hblk hr
  | cons lastLottery older =>
    simp only
    split
    · exact ⟨_, rfl⟩
    · exact ⟨_, rfl⟩

theorem calculateUpdated_isSome (hp : payingOutput tx = some payee)
    (hr : params.chainParams.nLotteryBlockStartBlock < nHeight →
      chain.atHeight (params.lastLotteryHeight nHeight) ≠ []) (previous : LotteryCoinstakeData)
    :
    ∃ data, (params.lotteryCalculator chain).calculateUpdatedLotteryWinners tx previous nHeight
      = some data := by
  fun_cases calculateUpdatedLotteryWinners (params.lotteryCalculator chain) tx previous
    nHeight with
  | case4 _ _ _ hn => simp [isCoinstakeValidForLottery, hp] at hn
  | case6 _ _ _ _ hn => cases hn.symm.trans hp
  | case7 _ _ hst _ other _ hn =>
    obtain ⟨updated, hupd⟩ := updateCoinstakes_isSome (hr (lt_of_not_ge hst))
      (previous.getLotteryCoinstakes ++ [(tx.hash, other.scriptPubKey)])
    cases hn.symm.trans hupd
  | _ => exact ⟨_, rfl⟩

/-- Every path of the index counts its heights down to zero. -/
def PathsOK (mapBlockIndex : BlockMap) : Prop :=
  ∀ hash path, mapBlockIndex.lookup hash = some path → BlockPointer.HeightsOK path

theorem parentOf_heights (h : PathsOK mapBlockIndex) (block : CBlock) :
    (parentOf mapBlockIndex block).HeightsOK := by
  unfold parentOf
  cases hpath : mapBlockIndex.lookup block.hashPrevBlock with
  | none => exact trivial
  | some path => exact h _ path hpath

theorem newHeight_eq {pprev : BlockPointer} (h : pprev.HeightsOK) :
    newHeight pprev = (pprev.length : Int) := by
  cases pprev with
  | nil => rfl
  | cons prev rest =>
    have hht : prev.nHeight = (rest.length : Int) := h.1
    simp [newHeight, hht]

theorem newBlockIndex_nHeight (block : CBlock) (pprev : BlockPointer) :
    (params.newBlockIndex block pprev).nHeight = newHeight pprev := by
  cases pprev with
  | nil => rfl
  | cons prev rest => rfl

/-- A block is always added while its own branch is active, and keeps the paths in order. -/
theorem addToBlockIndex_own (hc : 0 < params.chainParams.nLotteryBlockCycle)
    (hpos : 0 ≤ params.chainParams.nLotteryBlockStartBlock) (hpa : PathsOK mapBlockIndex)
    (htx : params.coinMintingTransaction block (newHeight (parentOf mapBlockIndex block))
      = some tx) (hp : payingOutput tx = some payee) :
    ∃ next, params.addToBlockIndex (parentOf mapBlockIndex block) mapBlockIndex block
      = some next ∧ PathsOK next := by
  have hhts := parentOf_heights hpa block
  unfold addToBlockIndex
  cases mapBlockIndex.lookup block.hash with
  | some path => exact ⟨mapBlockIndex, rfl, hpa⟩
  | none =>
    obtain ⟨winners, hwin⟩ : ∃ winners,
        params.updateBlockIndexLotteryWinners (parentOf mapBlockIndex block) block
          (parentOf mapBlockIndex block) (newHeight (parentOf mapBlockIndex block))
            = some winners := by
      simp only [updateBlockIndexLotteryWinners, htx, bind_eq_bind, bind_some]
      refine calculateUpdated_isSome hp ?_ _
      intro hst
      obtain ⟨hlow, hhigh⟩ := lastLotteryHeight_lt hc hst hpos
      exact atHeight_ne_nil hlow (newHeight_eq hhts ▸ hhigh)
    simp only [hwin]
    refine ⟨_, rfl, ?_⟩
    intro hash path hpath
    by_cases hh : hash = block.hash
    · rw [hh, Finmap.lookup_insert] at hpath
      cases hpath
      exact ⟨(newBlockIndex_nHeight block _).trans (newHeight_eq hhts), hhts⟩
    · rw [Finmap.lookup_insert_of_ne _ hh] at hpath
      exact hpa hash path hpath

/-! ### Whole sequences -/

theorem addBlocks_own (hc : 0 < params.chainParams.nLotteryBlockCycle)
    (hpos : 0 ≤ params.chainParams.nLotteryBlockStartBlock)
    (hsps : params.ticketMinValues = none) (hpa : PathsOK mapBlockIndex)
    {additions : List (CBlock × CChain)} (h : params.StepsReadAlike mapBlockIndex additions) :
    ∃ final, params.addBlocks mapBlockIndex additions = some final ∧
      params.addBlocksOnOwnBranch mapBlockIndex (additions.map Prod.fst) = some final := by
  induction additions generalizing mapBlockIndex with
  | nil => exact ⟨mapBlockIndex, rfl, rfl⟩
  | cons addition rest ih =>
    obtain ⟨block, activeChain⟩ := addition
    obtain ⟨hstep, hr⟩ := h
    obtain ⟨tx, payee, htx, hp⟩ := hstep.exists_mint
    obtain ⟨next, hown, hp'⟩ := addToBlockIndex_own hc hpos hpa htx hp
    have ha := (addToBlockIndex_congr hsps hstep).trans hown
    simp only [ha] at hr
    obtain ⟨final, hf, hf'⟩ := ih hp' hr
    refine ⟨final, ?_, ?_⟩
    · simp only [addBlocks, ha, hf]
    · simp [addBlocksOnOwnBranch, hown, hf']

/--
**Winners depend on the branch only.**  Whatever the order of the additions and the
chains that are active, the index is the one that results when every block is added
while its own branch is active, as long as each active chain has the blocks of the
branch at the heights that are looked up.
-/
theorem lottery_winners_of_own_branch (params : BlockIndexParameters)
    (hc : 0 < params.chainParams.nLotteryBlockCycle)
    (hst : 0 ≤ params.chainParams.nLotteryBlockStartBlock) (hsps : params.ticketMinValues = none)
    (additions : List (CBlock × CChain)) (hread : params.StepsReadAlike ∅ additions) :
    ∃ final, params.addBlocks ∅ additions = some final ∧
      params.addBlocksOnOwnBranch ∅ (additions.map Prod.fst) = some final := by
  refine addBlocks_own hc hst hsps ?_ hread
  intro hash path hpath
  cases hpath

/-- A node that ranks a coinstake by the exclusive or of its hash and the lottery block's. -/
def rankingNode (chainParams : CChainParams) : BlockIndexParameters where
  chainParams := chainParams
  stakeModifierHash := fun proof _ => proof
  stakeModifierSeed := 0
  calculateLotteryScore := fun coinstake lastLottery => coinstake ^^^ lastLottery

/-- A block on a parent, with a coinstake that takes part in the lottery. -/
def ticketBlock (hash parent : Nat) : CBlock where
  hash := BitVec.ofNat 256 hash
  hashPrevBlock := BitVec.ofNat 256 parent
  nTime := 100
  vtx := [
    { hash := BitVec.ofNat 256 (hash + 1000)
      vin := [{ prevout := COutPoint.null }]
      vout := [⟨20000 * COIN, [UInt8.ofNat hash]⟩] },
    { hash := BitVec.ofNat 256 hash
      vin := [{ prevout := ⟨9, 0⟩ }]
      vout := [CTxOut.empty, ⟨20000 * COIN, [UInt8.ofNat hash]⟩] }]

/-- The path of a block in the index of the given blocks. -/
def pathIn (params : BlockIndexParameters) (blocks : List CBlock) (tip : Nat) : CChain :=
  ((params.addBlocksOnOwnBranch ∅ blocks).bind fun mapBlockIndex =>
    mapBlockIndex.lookup (BitVec.ofNat 256 tip)).getD []

/-- Two branches that part above the last lottery height, the first one active throughout. -/
theorem lottery_winners_of_late_fork :
    let node := rankingNode { regTestParams with nLotteryBlockStartBlock := 1, nLastPOWBlock := 0 }
    let blocks := [ticketBlock 1 0, ticketBlock 2 1, ticketBlock 3 2, ticketBlock 4 2,
      ticketBlock 5 4]
    let additions := blocks.zip ([0, 1, 2, 3, 3].map (pathIn node blocks))
    ∃ final, node.addBlocks ∅ additions = some final ∧
      node.addBlocksOnOwnBranch ∅ (additions.map Prod.fst) = some final :=
  lottery_winners_of_own_branch _ (by decide) (by decide) rfl _ (by decide +kernel)

/-- Blocks up to height 100, then two branches of three and two blocks. -/
def forkedBlocks : List CBlock :=
  (List.range 101).map (fun i => ticketBlock (i + 1) i) ++
    [ticketBlock 202 101, ticketBlock 203 202, ticketBlock 204 203,
      ticketBlock 301 101, ticketBlock 302 301]

/-- The winners of a further block on the second branch while a given block is the tip. -/
def winnersWhenActive (tip : Nat) : Option LotteryCoinstakes := do
  let mapBlockIndex ← (rankingNode regTestParams).addBlocksOnOwnBranch ∅ forkedBlocks
  let activeChain ← mapBlockIndex.lookup (BitVec.ofNat 256 tip)
  let next ← (rankingNode regTestParams).addToBlockIndex activeChain mapBlockIndex
    (ticketBlock 303 302)
  let path ← next.lookup (BitVec.ofNat 256 303)
  let added ← path.head?
  some added.vLotteryWinnersCoinstakes.getLotteryCoinstakes

/-- The branches part below the last lottery height: the other branch reverses the ranking. -/
theorem winners_of_other_branch :
    winnersWhenActive 302 = some [(302, [46]), (303, [47])] ∧
      winnersWhenActive 204 = some [(303, [47]), (302, [46])] := by
  decide +kernel

end BlockIndexParameters

end Divi
