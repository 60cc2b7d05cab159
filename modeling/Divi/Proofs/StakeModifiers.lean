/-
Two nodes that compute the stake modifiers of one chain.

The modifier of block 1 is the address of a string literal, which may differ from node
to node.  It is only ever used to choose among the candidates for the first modifier
generated after it: if both addresses order the selection hashes of the candidates that
can compete for a round alike, the chosen blocks are the same ones, and from that
modifier on the nodes compute the same values.
-/
import Divi.Kernel

namespace Divi

open CBlockIndex List Option

variable {m₁ m₂ : BitVec 64} {stop : Int} {candidates candidates' : List CBlockIndex}
  {p₁ p₂ : BlockPointer} {hash : uint256 → BitVec 64 → uint256}

/-! ### The order of the candidates -/

namespace CBlockIndex

theorem sortsBefore_total (a b : CBlockIndex) : a.sortsBefore b ∨ b.sortsBefore a := by
  rcases lt_trichotomy a.nTime b.nTime with hlt | heq | hgt
  · exact .inl (.inl hlt)
  · rcases BitVec.le_total a.phashBlock b.phashBlock with hle | hle
    · exact .inl (.inr ⟨heq, hle⟩)
    · exact .inr (.inr ⟨heq.symm, hle⟩)
  · exact .inr (.inl hgt)

theorem sortsBefore_trans {a b c : CBlockIndex} (hab : a.sortsBefore b) (hbc : b.sortsBefore c) :
    a.sortsBefore c := by
  rcases hab with hlt | ⟨heq, hle⟩
  · rcases hbc with hlt' | ⟨heq', -⟩
    · exact .inl (by omega)
    · exact .inl (by omega)
  · rcases hbc with hlt' | ⟨heq', hle'⟩
    · exact .inl (by omega)
    · exact .inr ⟨heq.trans heq', BitVec.le_trans hle hle'⟩

theorem nTime_le_of_sortsBefore {a b : CBlockIndex} (h : a.sortsBefore b) : a.nTime ≤ b.nTime := by
  rcases h with hlt | ⟨heq, -⟩
  · omega
  · omega

end CBlockIndex

theorem recentBlocks_sorted (pindexPrev : BlockPointer) :
    (getRecentBlocksSortedByIncreasingTimestamp pindexPrev).Pairwise
      fun a b => a.nTime ≤ b.nTime := by
  have htot : Std.Total sortsBefore := ⟨sortsBefore_total⟩
  have ht : IsTrans CBlockIndex sortsBefore :=
    ⟨fun _ _ _ => sortsBefore_trans⟩
  unfold getRecentBlocksSortedByIncreasingTimestamp
  split
  · exact List.Pairwise.nil
  · exact (pairwise_insertionSort _ _).imp nTime_le_of_sortsBefore

/-! ### Two modifiers that order the candidates alike -/

/-- The selection hashes of blocks up to a time compare alike under two modifiers. -/
def OrdersAlike (hash : uint256 → BitVec 64 → uint256) (m₁ m₂ : BitVec 64) (stop : Int)
    (candidates : List CBlockIndex) : Prop :=
  ∀ a ∈ candidates, ∀ b ∈ candidates, a.nTime ≤ stop → b.nTime ≤ stop →
    (selectionHash hash m₁ a < selectionHash hash m₁ b ↔
      selectionHash hash m₂ a < selectionHash hash m₂ b)
  deriving Decidable

theorem OrdersAlike.mono {stop' : Int} {l l' : List CBlockIndex} (h : OrdersAlike hash m₁ m₂ stop l)
    (hstop : stop' ≤ stop) (hsub : l' ⊆ l) : OrdersAlike hash m₁ m₂ stop' l' := by
  intro a ha b hb hta htb
  exact h a (hsub ha) b (hsub hb) (by omega) (by omega)

/-! ### What the selection reads of a block -/

namespace CBlockIndex

/-- A block without its modifier. -/
def bare (pindex : CBlockIndex) : CBlockIndex := { pindex with nStakeModifier := 0 }

end CBlockIndex

open CBlockIndex (bare)

/-- Lists of the same blocks but for their modifiers. -/
abbrev SameBlocks : List CBlockIndex → List CBlockIndex → Prop :=
  List.Forall₂ fun a b => ∃ modifier, b = { a with nStakeModifier := modifier }

theorem sameBlocks_of_bare {l₁ l₂ : List CBlockIndex} (h : l₁.map bare = l₂.map bare) :
    SameBlocks l₁ l₂ := by
  have hbare : List.Forall₂ (fun a b => bare a = bare b) l₁ l₂ := by
    rw [← forall₂_map_right_iff (f := bare), ← forall₂_map_left_iff (f := bare), forall₂_eq_eq_eq]
    exact h
  refine hbare.imp fun a b hab => ⟨b.nStakeModifier, ?_⟩
  cases a
  cases b
  simpa [bare] using hab.symm

theorem recentBlocks_bare (pindexPrev : BlockPointer) :
    getRecentBlocksSortedByIncreasingTimestamp (pindexPrev.map bare)
      = (getRecentBlocksSortedByIncreasingTimestamp pindexPrev).map bare := by
  cases pindexPrev with
  | nil => rfl
  | cons prev rest =>
    have hsort : ∀ l : List CBlockIndex, (l.insertionSort sortsBefore).map bare
        = (l.map bare).insertionSort sortsBefore :=
      fun l => map_insertionSort _ _ _ _ (fun _ _ _ _ => Iff.rfl)
    unfold getRecentBlocksSortedByIncreasingTimestamp
    simp only [map_cons]
    rw [hsort, map_reverse, ← map_cons, takeWhile_map]
    rfl

/-- Chains that only differ in modifiers have the same candidates to select from. -/
theorem recentBlocks_same (h : p₁.map bare = p₂.map bare) :
    SameBlocks (getRecentBlocksSortedByIncreasingTimestamp p₁)
      (getRecentBlocksSortedByIncreasingTimestamp p₂) :=
  sameBlocks_of_bare (by rw [← recentBlocks_bare, ← recentBlocks_bare, h])

/-- From a best block on, both modifiers end up with the same one. -/
theorem selectLoop_best {selected : List uint256} {l l' : List CBlockIndex} {best : CBlockIndex}
    (hs : SameBlocks l l') (hsort : (best :: l).Pairwise fun a b => a.nTime ≤ b.nTime)
    (ha : OrdersAlike hash m₁ m₂ stop (best :: l)) (modifier : BitVec 64) :
    ((selectLoop hash selected stop m₁ l (some (best, selectionHash hash m₁ best))).map
        (·.1.phashBlock))
      = (selectLoop hash selected stop m₂ l' (some ({ best with nStakeModifier := modifier },
          selectionHash hash m₂ best))).map (·.1.phashBlock) := by
  induction hs generalizing best modifier with
  | nil => rfl
  | @cons block _ rest rest' hblk hs ih =>
    obtain ⟨modifier', rfl⟩ := hblk
    obtain ⟨hbest, hr⟩ := pairwise_cons.mp hsort
    obtain ⟨hl, hr'⟩ := pairwise_cons.mp hr
    have hskip : (best :: rest).Pairwise fun a b => a.nTime ≤ b.nTime :=
      pairwise_cons.mpr ⟨(forall_mem_cons.mp hbest).2, hr'⟩
    have hkeep : OrdersAlike hash m₁ m₂ stop (best :: rest) := ha.mono le_rfl
      (cons_subset_cons best (subset_cons_self block rest))
    have hh : selectionHash hash m₂ { block with nStakeModifier := modifier' }
        = selectionHash hash m₂ block := rfl
    simp only [selectLoop, hh]
    by_cases hlate : block.nTime > stop
    · rw [if_pos hlate, if_pos hlate]
      rfl
    rw [if_neg hlate, if_neg hlate]
    by_cases hsel : block.phashBlock ∈ selected
    · rw [if_pos hsel, if_pos hsel]
      exact ih hskip hkeep modifier
    rw [if_neg hsel, if_neg hsel]
    -- both are early enough to be compared, since the best one is not later
    have hc := ha block (mem_cons_of_mem _ mem_cons_self) best
      mem_cons_self (by omega) (by have := hbest block mem_cons_self; omega)
    by_cases hlt : selectionHash hash m₁ block < selectionHash hash m₁ best
    · rw [if_pos hlt, if_pos (hc.mp hlt)]
      exact ih hr (ha.mono le_rfl (subset_cons_self _ _)) modifier'
    · rw [if_neg hlt, if_neg (mt hc.mpr hlt)]
      exact ih hskip hkeep modifier

theorem selectBlock_alike (selected : List uint256) (hs : SameBlocks candidates candidates')
    (hsort : candidates.Pairwise fun a b => a.nTime ≤ b.nTime)
    (ha : OrdersAlike hash m₁ m₂ stop candidates) :
    (selectBlockFromCandidates hash candidates selected stop m₁).map phashBlock
      = (selectBlockFromCandidates hash candidates' selected stop m₂).map
        phashBlock := by
  simp only [selectBlockFromCandidates, Option.map_map]
  induction hs with
  | nil => rfl
  | @cons block _ rest rest' hblk hs ih =>
    obtain ⟨modifier, rfl⟩ := hblk
    simp only [selectLoop]
    by_cases hsel : block.phashBlock ∈ selected
    · rw [if_pos hsel, if_pos hsel]
      exact ih (List.pairwise_cons.mp hsort).2 (ha.mono le_rfl (List.subset_cons_self _ _))
    · rw [if_neg hsel, if_neg hsel]
      exact selectLoop_best hs hsort ha modifier

/-- Where the interval of the last of the given rounds stops. -/
def lastStop (start : Int) (rounds : List Nat) : Int :=
  start + (rounds.map getStakeModifierSelectionIntervalSection).sum

theorem selectRounds_alike (hs : SameBlocks candidates candidates')
    (hsort : candidates.Pairwise fun a b => a.nTime ≤ b.nTime)
    {rounds : List Nat} {state : SelectionRounds}
    (ha : OrdersAlike hash m₁ m₂ (lastStop state.nSelectionIntervalStop rounds) candidates) :
    rounds.foldlM (selectRound hash candidates m₁) state
      = rounds.foldlM (selectRound hash candidates' m₂) state := by
  induction rounds generalizing state with
  | nil => rfl
  | cons nRound rest ih =>
    have hsum : lastStop state.nSelectionIntervalStop (nRound :: rest) = lastStop
        (state.nSelectionIntervalStop + getStakeModifierSelectionIntervalSection nRound) rest := by
      simp only [lastStop, map_cons, sum_cons]
      omega
    rw [hsum] at ha
    have hl : 0 ≤ (rest.map getStakeModifierSelectionIntervalSection).sum := by
      refine sum_nonneg ?_
      intro x hx
      obtain ⟨n, -, rfl⟩ := mem_map.mp hx
      exact Int.natCast_nonneg _
    have hblk := selectBlock_alike state.mapSelectedBlocks hs hsort
      (ha.mono (le_add_of_nonneg_right hl) (List.Subset.refl _))
    simp only [foldlM_cons, selectRound]
    cases hnext : selectBlockFromCandidates hash candidates state.mapSelectedBlocks
        (state.nSelectionIntervalStop + getStakeModifierSelectionIntervalSection nRound) m₁ with
    | none =>
      rw [hnext, eq_comm] at hblk
      rw [map_eq_none_iff.mp hblk]
      rfl
    | some pindex =>
      rw [hnext, eq_comm] at hblk
      obtain ⟨pindex', hsel, hh⟩ := map_eq_some_iff.mp hblk
      simp only [hsel, bind_eq_bind, bind_some, getStakeEntropyBit, hh]
      exact ih ha

/-! ### Two nodes -/

variable {s₁ s₂ : BitVec 64}

/-- One block as two nodes have it: only modifiers differ, and of those that were generated
only that of block 1, which is the node's own. -/
structure Twins (s₁ s₂ : BitVec 64) (b₁ b₂ : CBlockIndex) : Prop where
  bare : b₁.bare = b₂.bare
  first : b₁.nHeight = 1 →
    b₁.fGeneratedStakeModifier = true ∧ b₁.nStakeModifier = s₁ ∧ b₂.nStakeModifier = s₂
  later : 2 ≤ b₁.nHeight → b₁.fGeneratedStakeModifier = true →
    b₁.nStakeModifier = b₂.nStakeModifier

namespace Twins

variable {b₁ b₂ : CBlockIndex} (h : Twins s₁ s₂ b₁ b₂)

include h

theorem nHeight : b₁.nHeight = b₂.nHeight := by
  simpa only [CBlockIndex.bare] using congrArg CBlockIndex.nHeight h.bare

theorem nTime : b₁.nTime = b₂.nTime := by
  simpa only [CBlockIndex.bare] using congrArg CBlockIndex.nTime h.bare

theorem phashBlock : b₁.phashBlock = b₂.phashBlock := by
  simpa only [CBlockIndex.bare] using congrArg CBlockIndex.phashBlock h.bare

theorem generated : b₁.fGeneratedStakeModifier = b₂.fGeneratedStakeModifier := by
  simpa only [CBlockIndex.bare] using congrArg CBlockIndex.fGeneratedStakeModifier h.bare

end Twins

theorem getLast_twins (h : List.Forall₂ (Twins s₁ s₂) p₁ p₂) :
    List.Forall₂ (Twins s₁ s₂) (getLastBlockIndexWithGeneratedStakeModifier p₁)
      (getLastBlockIndexWithGeneratedStakeModifier p₂) := by
  induction h with
  | nil => exact List.Forall₂.nil
  | @cons b₁ b₂ rest₁ rest₂ hblk hr ih =>
    cases hr with
    | nil => exact List.Forall₂.cons hblk List.Forall₂.nil
    | @cons c₁ c₂ older₁ older₂ hprev holder =>
      simp only [getLastBlockIndexWithGeneratedStakeModifier, ← hblk.generated]
      by_cases hgen : b₁.fGeneratedStakeModifier = true
      · rw [if_pos hgen, if_pos hgen]
        exact List.Forall₂.cons hblk (List.Forall₂.cons hprev holder)
      · rw [if_neg hgen, if_neg hgen]
        exact ih

/-- Above genesis the walk back stops at block 1 at the latest. -/
theorem getLast_height {pindex : BlockPointer} (hhts : pindex.HeightsOK)
    (hfst : ∀ b ∈ pindex, b.nHeight = 1 → b.fGeneratedStakeModifier = true)
    (hlen : 2 ≤ pindex.length) {last : CBlockIndex} {older : BlockPointer}
    (hl : getLastBlockIndexWithGeneratedStakeModifier pindex = last :: older) :
    1 ≤ last.nHeight := by
  induction pindex with
  | nil => cases hl
  | cons block rest ih =>
    cases rest with
    | nil => simp at hlen
    | cons prev older' =>
      have hblk : block.nHeight = ((prev :: older').length : Int) := hhts.1
      simp only [getLastBlockIndexWithGeneratedStakeModifier] at hl
      by_cases hgen : block.fGeneratedStakeModifier = true
      · rw [if_pos hgen] at hl
        cases hl
        rw [hblk, length_cons]
        omega
      · rw [if_neg hgen] at hl
        refine ih hhts.2 (fun b hb => hfst b (mem_cons_of_mem _ hb)) ?_ hl
        -- block 1 generated its modifier, so this one is higher
        by_contra hs
        refine hgen (hfst block mem_cons_self ?_)
        rw [hblk]
        simp only [length_cons] at hs ⊢
        omega

/--
Where the next modifier is generated from that of block 1, the seeds order the candidates
that can compete for a round alike.
-/
def SeedsOrderAlike (hash : uint256 → BitVec 64 → uint256) (s₁ s₂ : BitVec 64)
    (pindexPrev : BlockPointer) : Prop :=
  ∀ prev ∈ pindexPrev.head?,
    ∀ last ∈ (getLastBlockIndexWithGeneratedStakeModifier pindexPrev).head?,
      last.nHeight = 1 →
        last.nTime.tdiv MODIFIER_INTERVAL < prev.nTime.tdiv MODIFIER_INTERVAL →
          OrdersAlike hash s₁ s₂
            (lastStop (nSelectionIntervalStart prev) (List.range
              (min 64 (getRecentBlocksSortedByIncreasingTimestamp pindexPrev).length)))
            (getRecentBlocksSortedByIncreasingTimestamp pindexPrev)
  deriving Decidable

theorem bare_eq_of_twins (h : List.Forall₂ (Twins s₁ s₂) p₁ p₂) : p₁.map bare = p₂.map bare := by
  induction h with
  | nil => rfl
  | cons hblk hr ih => rw [map_cons, map_cons, hblk.bare, ih]

theorem first_of_twins (h : List.Forall₂ (Twins s₁ s₂) p₁ p₂) :
    ∀ b ∈ p₁, b.nHeight = 1 → b.fGeneratedStakeModifier = true := by
  induction h with
  | nil =>
    intro b hb
    cases hb
  | cons hblk hr ih =>
    intro b hb hht
    rcases mem_cons.mp hb with rfl | hb
    · exact (hblk.first hht).1
    · exact ih b hb hht

/-- Where a modifier is due, both nodes select the same one. -/
theorem select_twins {a₁ a₂ l₁ l₂ : CBlockIndex} {r₁ r₂ o₁ o₂ : BlockPointer}
    (h : List.Forall₂ (Twins s₁ s₂) (a₁ :: r₁) (a₂ :: r₂))
    (hhts : BlockPointer.HeightsOK (a₁ :: r₁)) (hlen : 1 ≤ r₁.length)
    (hse : SeedsOrderAlike hash s₁ s₂ (a₁ :: r₁))
    (hl₁ : getLastBlockIndexWithGeneratedStakeModifier (a₁ :: r₁) = l₁ :: o₁)
    (hl₂ : getLastBlockIndexWithGeneratedStakeModifier (a₂ :: r₂) = l₂ :: o₂)
    (hgen : l₁.fGeneratedStakeModifier = true)
    (hdue : l₁.nTime.tdiv MODIFIER_INTERVAL < a₁.nTime.tdiv MODIFIER_INTERVAL) :
    selectStakeModifier hash (getRecentBlocksSortedByIncreasingTimestamp (a₁ :: r₁))
        (nSelectionIntervalStart a₁) l₁.nStakeModifier
      = selectStakeModifier hash (getRecentBlocksSortedByIncreasingTimestamp (a₂ :: r₂))
        (nSelectionIntervalStart a₂) l₂.nStakeModifier := by
  have hla : Twins s₁ s₂ l₁ l₂ := by
    have ht := getLast_twins h
    rw [hl₁, hl₂] at ht
    exact (forall₂_cons.mp ht).1
  have hst : nSelectionIntervalStart a₁ = nSelectionIntervalStart a₂ := by
    unfold nSelectionIntervalStart
    rw [(forall₂_cons.mp h).1.nTime]
  rw [← hst]
  have hht := getLast_height hhts (first_of_twins h)
    (by simp only [length_cons]; omega) hl₁
  have hsa := recentBlocks_same (bare_eq_of_twins h)
  unfold selectStakeModifier
  rw [← hsa.length_eq]
  refine congrArg (Option.map _) (selectRounds_alike hsa (recentBlocks_sorted _) ?_)
  rcases (by omega : l₁.nHeight = 1 ∨ 2 ≤ l₁.nHeight) with hone | htwo
  · obtain ⟨-, hs₁, hs₂⟩ := hla.first hone
    rw [hs₁, hs₂]
    exact hse a₁ rfl l₁ (by rw [hl₁]; rfl) hone hdue
  · rw [hla.later htwo hgen]
    exact fun _ _ _ _ _ _ => Iff.rfl

/-- The next modifier on a chain of at least two blocks. -/
theorem computeNext_twins (h : List.Forall₂ (Twins s₁ s₂) p₁ p₂) (hhts : p₁.HeightsOK)
    (hlen : 2 ≤ p₁.length) (hs : SeedsOrderAlike hash s₁ s₂ p₁) :
    (computeNextStakeModifier hash s₁ p₁).fGeneratedStakeModifier
        = (computeNextStakeModifier hash s₂ p₂).fGeneratedStakeModifier ∧
      ((computeNextStakeModifier hash s₁ p₁).fGeneratedStakeModifier = true →
        (computeNextStakeModifier hash s₁ p₁).nStakeModifier
          = (computeNextStakeModifier hash s₂ p₂).nStakeModifier) := by
  cases h with
  | nil => simp at hlen
  | @cons a₁ a₂ r₁ r₂ hprev hre =>
    have hr : 1 ≤ r₁.length := by
      simp only [length_cons] at hlen
      omega
    have hne : a₁.nHeight ≠ 0 := by
      have hht : a₁.nHeight = (r₁.length : Int) := hhts.1
      omega
    have ht := getLast_twins (List.Forall₂.cons hprev hre)
    simp only [computeNextStakeModifier, ← hprev.nHeight, if_neg hne]
    cases hl₁ : getLastBlockIndexWithGeneratedStakeModifier (a₁ :: r₁) with
    | nil =>
      rw [hl₁, forall₂_nil_left_iff] at ht
      simp [ht]
    | cons l₁ o₁ =>
      rw [hl₁] at ht
      obtain ⟨l₂, o₂, hla, -, hl₂⟩ := forall₂_cons_left_iff.mp ht
      simp only [hl₂, ← hla.generated, ← hla.nTime, ← hprev.nTime]
      by_cases hgen : l₁.fGeneratedStakeModifier = true
      · by_cases hdue : l₁.nTime.tdiv MODIFIER_INTERVAL ≥ a₁.nTime.tdiv MODIFIER_INTERVAL
        · simp [hgen, hdue]
        · have hsel := select_twins (List.Forall₂.cons hprev hre) hhts hr hs hl₁ hl₂
            hgen (by omega)
          have hfork : Fork.HardenedStakeModifier.isActive a₂
              = Fork.HardenedStakeModifier.isActive a₁ := by
            simp only [Fork.isActive, hprev.nTime]
          simp only [hgen, Bool.not_true, Bool.false_eq_true, if_false, hdue, hsel, hfork,
            hprev.phashBlock]
          cases selectStakeModifier hash (getRecentBlocksSortedByIncreasingTimestamp (a₂ :: r₂))
              (nSelectionIntervalStart a₂) l₂.nStakeModifier with
          | none => simp
          | some nStakeModifierNew => cases Fork.HardenedStakeModifier.isActive a₁ <;> simp
      · simp [hgen]

/-! ### Whole chains -/

/-- The block after genesis has the seeds for modifiers. -/
theorem addStakedBlock_twins (h : List.Forall₂ (Twins s₁ s₂) p₁ p₂) (hhts : p₁.HeightsOK)
    (hs : SeedsOrderAlike hash s₁ s₂ p₁) (block : CBlockIndex) :
    List.Forall₂ (Twins s₁ s₂) (addStakedBlock hash s₁ p₁ block)
      (addStakedBlock hash s₂ p₂ block) := by
  refine List.Forall₂.cons ?_ h
  by_cases hlen : 2 ≤ p₁.length
  · obtain ⟨hf, hmod⟩ := computeNext_twins h hhts hlen hs
    refine ⟨?_, fun hone => ?_, fun _ => hmod⟩
    · simp only [setStakeModifiersForNewBlockIndex, bare, hf, h.length_eq]
    · replace hone : (p₁.length : Int) = 1 := hone
      omega
  · cases h with
    | nil =>
      exact ⟨rfl, fun hone => absurd hone (show ¬ (0 : Int) = 1 by decide), fun htwo =>
        absurd htwo (show ¬ (2 : Int) ≤ 0 by decide)⟩
    | @cons g₁ g₂ r₁ r₂ hgen hre =>
      have hr : r₁ = [] := by
        simp only [length_cons] at hlen
        exact eq_nil_of_length_eq_zero (by omega)
      subst hr
      obtain rfl := forall₂_nil_left_iff.mp hre
      have hzero : g₁.nHeight = 0 := hhts.1
      have hzero' : g₂.nHeight = 0 := hgen.nHeight ▸ hzero
      refine ⟨?_, fun _ => ?_, fun htwo => absurd htwo (show ¬ (2 : Int) ≤ 1 by decide)⟩
      · simp [setStakeModifiersForNewBlockIndex, bare, computeNextStakeModifier, hzero, hzero']
      · simp [setStakeModifiersForNewBlockIndex, computeNextStakeModifier, hzero, hzero']

/-- The chains of two nodes, as long as the seeds order alike where it matters. -/
theorem addStakedBlocks_twins (blocks : List CBlockIndex)
    (hs : ∀ added block, added ++ [block] <+: blocks →
      SeedsOrderAlike hash s₁ s₂ (addStakedBlocks hash s₁ added)) :
    List.Forall₂ (Twins s₁ s₂) (addStakedBlocks hash s₁ blocks) (addStakedBlocks hash s₂ blocks) ∧
      (addStakedBlocks hash s₁ blocks).HeightsOK := by
  induction blocks using List.reverseRecOn with
  | nil => exact ⟨List.Forall₂.nil, trivial⟩
  | append_singleton older block ih =>
    have hpre : older <+: older ++ [block] := prefix_append _ _
    obtain ⟨ht, hhts⟩ := ih fun added next ha =>
      hs added next (ha.trans hpre)
    have hstep : ∀ seed, addStakedBlocks hash seed (older ++ [block])
        = addStakedBlock hash seed (addStakedBlocks hash seed older) block := by
      intro seed
      simp [addStakedBlocks]
    rw [hstep, hstep]
    exact ⟨addStakedBlock_twins ht hhts (hs older block (prefix_refl _)) block,
      rfl, hhts⟩

/--
**Stake modifiers of two nodes.**  Along any chain on which the nodes' seeds order alike
the candidates for the first modifier after that of block 1, every modifier generated
from height 2 on is the same for both.
-/
theorem stake_modifiers_agree (hash : uint256 → BitVec 64 → uint256) (s₁ s₂ : BitVec 64)
    (blocks : List CBlockIndex) (hseeds : ∀ added block, added ++ [block] <+: blocks →
      SeedsOrderAlike hash s₁ s₂ (addStakedBlocks hash s₁ added)) {i : Nat} {b₁ b₂ : CBlockIndex}
    (hb₁ : (addStakedBlocks hash s₁ blocks)[i]? = some b₁)
    (hb₂ : (addStakedBlocks hash s₂ blocks)[i]? = some b₂) (hht : 2 ≤ b₁.nHeight)
    (hgen : b₁.fGeneratedStakeModifier = true) :
    b₂.fGeneratedStakeModifier = true ∧ b₁.nStakeModifier = b₂.nStakeModifier := by
  obtain ⟨ht, -⟩ := addStakedBlocks_twins blocks hseeds
  obtain ⟨hi₁, rfl⟩ := List.getElem?_eq_some_iff.mp hb₁
  obtain ⟨hi₂, rfl⟩ := List.getElem?_eq_some_iff.mp hb₂
  have hblk := ht.get hi₁ hi₂
  exact ⟨hblk.generated ▸ hgen, hblk.later hht hgen⟩

/-- A hash that reverses the order of the blocks for every modifier but zero. -/
def reversingHash (proof : uint256) (nStakeModifier : BitVec 64) : uint256 :=
  if nStakeModifier = 0 then proof else ~~~proof

/-- Proof-of-work blocks with given times, and hashes 2, 3, 4 and so on. -/
def timedBlocks (times : List Int) : List CBlockIndex :=
  times.mapIdx fun i nTime =>
    { phashBlock := BitVec.ofNat 256 (i + 2), nHeight := 0, nTime := nTime }

/-- A block a minute: no two blocks are ever old enough to compete. -/
theorem stake_modifiers_agree_minutely :
    ∃ b₁ b₂,
      (addStakedBlocks reversingHash 0 (timedBlocks [3600, 3660, 3720, 3780]))[0]? = some b₁ ∧
      (addStakedBlocks reversingHash 1 (timedBlocks [3600, 3660, 3720, 3780]))[0]? = some b₂ ∧
      2 ≤ b₁.nHeight ∧ b₁.fGeneratedStakeModifier = true ∧
      b₂.fGeneratedStakeModifier = true ∧ b₁.nStakeModifier = b₂.nStakeModifier := by
  have hs : ∀ added block, added ++ [block] <+: timedBlocks [3600, 3660, 3720, 3780] →
      SeedsOrderAlike reversingHash 0 1 (addStakedBlocks reversingHash 0 added) := by
    intro added block ha
    have hall : ∀ l ∈ (timedBlocks [3600, 3660, 3720, 3780]).inits,
        SeedsOrderAlike reversingHash 0 1 (addStakedBlocks reversingHash 0 l) := by
      decide +kernel
    exact hall added ((mem_inits _ _).mpr ((prefix_append _ _).trans ha))
  exact ⟨_, _, rfl, rfl, by decide +kernel, by decide +kernel,
    stake_modifiers_agree (i := 0) reversingHash 0 1 _ hs rfl rfl (by decide +kernel)
      (by decide +kernel)⟩

/-- Two blocks, and then none for half an hour: the first two compete for the first round. -/
theorem stake_modifiers_differ :
    ((addStakedBlocks reversingHash 0 (timedBlocks [3675, 3676, 5760, 5800])).map fun b =>
        (b.nHeight, b.fGeneratedStakeModifier, b.nStakeModifier))
      = [(3, true, 2), (2, false, 0), (1, true, 0), (0, true, 0)] ∧
    ((addStakedBlocks reversingHash 1 (timedBlocks [3675, 3676, 5760, 5800])).map fun b =>
        (b.nHeight, b.fGeneratedStakeModifier, b.nStakeModifier))
      = [(3, true, 1), (2, false, 1), (1, true, 1), (0, true, 0)] := by
  decide +kernel

end Divi
