/-
The modifier of a block, as the service finds it.

A block that does not generate a modifier gets the one of the last block before it that did.  So
on every chain of the tree the tip has the modifier of the last block that generated one, which
is where the walk of the service ends.
-/
import Divi.ProofOfStake

namespace Divi

variable {hash : uint256 → BitVec 64 → uint256} {seed : BitVec 64} {blocks : BlockMap}
  {pindex pprev prev older : BlockPointer} {last : CBlockIndex}

/-! ### The last block with a modifier of its own -/

/-- The part of a chain up to the last block that generated a modifier. -/
def lastGenerated (pindex : BlockPointer) : BlockPointer :=
  pindex.dropWhile fun block => !block.fGeneratedStakeModifier

theorem generated_of_lastGenerated (h : lastGenerated pindex = last :: older) :
    last.fGeneratedStakeModifier = true := by
  have hhead := List.head?_dropWhile_not
    (fun block : CBlockIndex => !block.fGeneratedStakeModifier) pindex
  unfold lastGenerated at h
  rw [h] at hhead
  simpa using hhead

/-- A walk that may end at genesis ends at the same block. -/
theorem getLast_eq_lastGenerated (h : lastGenerated pindex = last :: older) :
    getLastBlockIndexWithGeneratedStakeModifier pindex = last :: older := by
  induction pindex with
  | nil => cases h
  | cons block rest ih =>
    cases hgen : block.fGeneratedStakeModifier with
    | true =>
      rw [← h]
      cases rest with
      | nil => simp [getLastBlockIndexWithGeneratedStakeModifier, lastGenerated, hgen]
      | cons parent rest =>
        simp [getLastBlockIndexWithGeneratedStakeModifier, lastGenerated, hgen]
    | false =>
      have hr : lastGenerated rest = last :: older := by
        simpa [lastGenerated, hgen] using h
      cases rest with
      | nil => cases hr
      | cons parent rest =>
        simpa [getLastBlockIndexWithGeneratedStakeModifier, hgen] using ih hr

/-- A modifier that is not generated is that of the last block that generated one. -/
theorem computeNext_carries (hl : lastGenerated pprev = last :: older)
    (h : (computeNextStakeModifier hash seed pprev).fGeneratedStakeModifier = false) :
    (computeNextStakeModifier hash seed pprev).nStakeModifier = last.nStakeModifier := by
  cases pprev with
  | nil => cases hl
  | cons parent rest =>
    simp only [computeNextStakeModifier, getLast_eq_lastGenerated hl,
      generated_of_lastGenerated hl, Bool.not_true, Bool.false_eq_true, if_false] at h ⊢
    split at h
    next => cases h
    next hht =>
      rw [if_neg hht]
      split at h
      next htime => rw [if_pos htime]
      next htime =>
        rw [if_neg htime]
        generalize selectStakeModifier hash _ _ last.nStakeModifier = selection at h ⊢
        cases selection with
        | none => rfl
        | some modifier =>
          dsimp only at h
          split at h
          next => cases h
          next => cases h

/-! ### Trees -/

/-- The tip has the modifier of the last block that generated one. -/
def CarriesModifier (pindex : BlockPointer) : Prop :=
  ∃ last older, lastGenerated pindex = last :: older ∧
    pindex.head?.map CBlockIndex.nStakeModifier = some last.nStakeModifier

theorem CarriesModifier.addStakedBlock (h : pprev = [] ∨ CarriesModifier pprev)
    (block : CBlockIndex) : CarriesModifier (Divi.addStakedBlock hash seed pprev block) := by
  cases hgen : (computeNextStakeModifier hash seed pprev).fGeneratedStakeModifier with
  | true =>
    refine ⟨_, _, List.dropWhile_cons_of_neg ?_, rfl⟩
    simp [setStakeModifiersForNewBlockIndex, hgen]
  | false =>
    obtain rfl | ⟨last, older, hl, -⟩ := h
    · cases hgen
    · refine ⟨last, older, (List.dropWhile_cons_of_pos ?_).trans hl, ?_⟩
      · simp [setStakeModifiersForNewBlockIndex, hgen]
      · exact congrArg some (computeNext_carries hl hgen)

/-- The index of a tree of blocks, each with its modifier set from its parent. -/
inductive StakedTree (hash : uint256 → BitVec 64 → uint256) (seed : BitVec 64) : BlockMap → Prop
  | genesis (block : CBlockIndex) :
    StakedTree hash seed (.singleton block.phashBlock (addStakedBlock hash seed [] block))
  | add {blocks : BlockMap} {hashPrev : uint256} {pprev : BlockPointer} (block : CBlockIndex)
    (htree : StakedTree hash seed blocks) (hprev : blocks.lookup hashPrev = some pprev)
    (hnew : block.phashBlock ∉ blocks) :
    StakedTree hash seed (blocks.insert block.phashBlock (addStakedBlock hash seed pprev block))

theorem StakedTree.carriesModifier (h : StakedTree hash seed blocks) {blockHash : uint256}
    (hget : blocks.lookup blockHash = some pindex) : CarriesModifier pindex := by
  induction h generalizing blockHash pindex with
  | genesis block =>
    obtain rfl := (Finmap.mem_singleton _ _ _).mp (Finmap.mem_of_lookup_eq_some hget)
    rw [Finmap.lookup_singleton_eq] at hget
    cases hget
    exact .addStakedBlock (.inl rfl) block
  | @add blocks hashPrev pprev block htree hprev hnew ih =>
    by_cases hh : blockHash = block.phashBlock
    · rw [hh, Finmap.lookup_insert] at hget
      cases hget
      exact .addStakedBlock (.inr (ih hprev)) block
    · rw [Finmap.lookup_insert_of_ne _ hh] at hget
      exact ih hget

/-- **The service after the fork** returns the modifier of the block that it is asked for. -/
theorem getStakeModifier_of_hardened (htree : StakedTree hash seed blocks)
    (decorated : StakingData → UInt64 × Bool) {stakingData : StakingData} {b : CBlockIndex}
    (hb : blocks.lookup stakingData.blockHashOfChainTipBlock = some (b :: prev))
    (hact : Fork.HardenedStakeModifier.isActive b = true) :
    PoSStakeModifierService.getStakeModifier decorated blocks stakingData =
      (⟨b.nStakeModifier⟩, true) := by
  obtain ⟨last, older, hl, hmod⟩ := htree.carriesModifier hb
  unfold lastGenerated at hl
  simp only [PoSStakeModifierService.getStakeModifier, hb, hact, if_true, hl]
  rw [Option.some.inj hmod]

private def lateBlock (hash : uint256) : CBlockIndex :=
  { phashBlock := hash, nHeight := 0, nTime := 2000000000 }

/-- The tip carries the modifier of the block below it, which has the seed. -/
theorem getStakeModifier_of_hardened_carried :
    let add := addStakedBlock (fun _ _ => 0) 7
    let genesis := add [] (lateBlock 1)
    let pprev := add genesis (lateBlock 2)
    PoSStakeModifierService.getStakeModifier (fun _ => (5, true))
      (((Finmap.singleton 1 genesis).insert 2 pprev).insert 3 (add pprev (lateBlock 3)))
      ⟨0, 0, 0, ⟨0, 0⟩, 0, 3⟩ = (7, true) := by
  intro add genesis pprev
  have hgen : StakedTree (fun _ _ => 0) 7 _ := .genesis (lateBlock 1)
  have hseed := hgen.add (lateBlock 2) Finmap.lookup_singleton_eq (by decide)
  have htree := hseed.add (lateBlock 3) (Finmap.lookup_insert _) (by decide)
  exact (getStakeModifier_of_hardened htree _ (Finmap.lookup_insert _) rfl).trans rfl

end Divi
