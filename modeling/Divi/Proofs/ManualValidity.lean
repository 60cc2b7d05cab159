/-
What `InvalidateBlock` and `ReconsiderBlock` do.

Invalidation marks a block, takes the active chain below it with a mark on every block it
disconnects, and adds the candidates again that it may have lost.  Reconsideration takes the
flags from the descendants and the ancestors of a block, and adds those descendants to the
candidates that had a flag and are better than the tip.
-/
import Divi.Proofs.ActiveChain

namespace Divi

open ParentTree BlockEntry List Option

namespace ChainState

variable {pindex : BlockAddr} {st' : ChainState} {tree : BlockTree} {st : ChainState}

/-! ### Manual invalidation -/

/-- What `InvalidateBlock` does. -/
structure Invalidates (tree : BlockTree) (pindex : BlockAddr) (st st' : ChainState) : Prop where
  keeps : st.Keeps st'
  tip : st'.tip ∈ tree.line st.tip
  tip_off : pindex ∉ tree.line st'.tip
  failedValid : ∀ b, (st'.entry b).BLOCK_FAILED_VALID = true ↔
    (st.entry b).BLOCK_FAILED_VALID = true ∨ b = pindex
  failedChild_mono : ∀ b, (st.entry b).BLOCK_FAILED_CHILD = true →
    (st'.entry b).BLOCK_FAILED_CHILD = true
  failedChild : ∀ b, (st'.entry b).BLOCK_FAILED_CHILD = true →
    (st.entry b).BLOCK_FAILED_CHILD = true ∨ pindex ∈ tree.line b ∧ b ∈ tree.line st.tip
  candidates : ∀ b, b ∈ st'.setBlockIndexCandidates →
    b ∈ st.setBlockIndexCandidates ∨ b ∈ st.mapBlockIndex ∧ st'.mayBeCandidate tree b = true
  restored : ∀ b ∈ st.mapBlockIndex, st'.mayBeCandidate tree b = true →
    b ∈ st'.setBlockIndexCandidates

theorem Invalidates.failed_mono (h : Invalidates tree pindex st st') (b : BlockAddr)
    (hb : (st.entry b).failed = true) : (st'.entry b).failed = true := by
  have hval := h.failedValid b
  have hc := h.failedChild_mono b
  grind [failed]

theorem Invalidates.failed_of_failed (h : Invalidates tree pindex st st') (b : BlockAddr)
    (hb : (st'.entry b).failed = true) :
    (st.entry b).failed = true ∨ pindex ∈ tree.line b ∧ (b = pindex ∨ b ∈ tree.line st.tip) := by
  have hval := h.failedValid b
  have hc := h.failedChild b
  have hself : b ∈ tree.line b := self_mem_line b
  grind [failed]

/-- What its loop does. -/
structure Retreats (tree : BlockTree) (pindex : BlockAddr) (st st' : ChainState) : Prop where
  keeps : st.Keeps st'
  tip : st'.tip ∈ tree.line st.tip
  tip_off : pindex ∉ tree.line st'.tip
  failedValid : ∀ b, (st'.entry b).BLOCK_FAILED_VALID = (st.entry b).BLOCK_FAILED_VALID
  failedChild_mono : ∀ b, (st.entry b).BLOCK_FAILED_CHILD = true →
    (st'.entry b).BLOCK_FAILED_CHILD = true
  failedChild : ∀ b, (st'.entry b).BLOCK_FAILED_CHILD = true →
    (st.entry b).BLOCK_FAILED_CHILD = true ∨ pindex ∈ tree.line b ∧ b ∈ tree.line st.tip
  candidates : ∀ b ∈ st'.setBlockIndexCandidates, b ∈ st.setBlockIndexCandidates

theorem Retreats.refl (hoff : pindex ∉ tree.line st.tip) : Retreats tree pindex st st :=
  ⟨⟨rfl, rfl, fun _ => .refl _⟩, self_mem_line _, hoff, fun _ => rfl, fun _ hb => hb,
    fun _ hb => .inl hb, fun _ hb => hb⟩

/-- The tip above the block is marked and disconnected. -/
theorem Retreats.step {p : BlockAddr} {st : ChainState} (hon : pindex ∈ tree.line st.tip)
    (hpar : tree.parent st.tip = some p)
    (h : Retreats tree pindex { (st.setEntry st.tip { st.entry st.tip with
      BLOCK_FAILED_CHILD := true }).eraseCandidate st.tip with tip := p } st') :
    Retreats tree pindex st st' := by
  have he := fun c => entry_setEntry st st.tip c
    { st.entry st.tip with BLOCK_FAILED_CHILD := true }
  have hkeep : ∀ c, (st.entry c).Keeps ((st.setEntry st.tip
      { st.entry st.tip with BLOCK_FAILED_CHILD := true }).entry c) :=
    keeps_setEntry ⟨le_refl _, rfl, rfl, rfl, rfl⟩
  constructor
  · refine Keeps.trans ?_ h.keeps
    exact ⟨rfl, rfl, hkeep⟩
  · exact parent_mem_line hpar h.tip
  · exact h.tip_off
  · intro b
    have hval := h.failedValid b
    simp only [eraseCandidate, he] at hval
    grind
  · intro b hb
    refine h.failedChild_mono b ?_
    simp only [eraseCandidate, he]
    grind
  · intro b hb
    have hc := h.failedChild b hb
    have hlt : b ∈ tree.line p → b ∈ tree.line st.tip := parent_mem_line hpar
    have hself : st.tip ∈ tree.line st.tip := self_mem_line _
    simp only [eraseCandidate, he] at hc
    grind
  · intro b hb
    exact mem_of_mem_filter (h.candidates b hb)

theorem disconnectThrough_spec {fuel : Nat} {st : ChainState}
    (h : st.disconnectThrough tree pindex fuel = some st') : Retreats tree pindex st st' := by
  induction fuel generalizing st with
  | zero =>
    unfold disconnectThrough at h
    split at h
    · cases h
    next hoff =>
      cases h
      rw [contains_iff] at hoff
      exact .refl hoff
  | succ fuel ih =>
    unfold disconnectThrough at h
    split at h
    next hon =>
      rw [contains_iff] at hon
      obtain ⟨next, hnext, hr⟩ := bind_eq_some_iff.mp h
      obtain ⟨p, hpar, rfl⟩ := map_eq_some_iff.mp hnext
      exact .step hon hpar (ih hr)
    next hoff =>
      cases h
      rw [contains_iff] at hoff
      exact .refl hoff

theorem mayBeCandidate_iff {b : BlockAddr} : st.mayBeCandidate tree b = true ↔
    (st.entry b).failed = false ∧ BLOCK_VALID_TRANSACTIONS ≤ (st.entry b).nValidity ∧
      (st.entry b).nChainTx ≠ 0 ∧ st.rank tree st.tip ≤ st.rank tree b := by
  unfold mayBeCandidate isValid
  rw [Bool.and_eq_true, not_worse_iff]
  simp [and_assoc]

theorem foldl_insertCandidate (tree : BlockTree) (st : ChainState) (known : List BlockAddr) :
    ∃ candidates, known.foldl (fun st b =>
        if st.mayBeCandidate tree b then st.insertCandidate b else st) st =
        { st with setBlockIndexCandidates := candidates } ∧
      ∀ b, b ∈ candidates ↔ b ∈ st.setBlockIndexCandidates ∨
        b ∈ known ∧ st.mayBeCandidate tree b = true := by
  induction known generalizing st with
  | nil => exact ⟨_, rfl, by simp⟩
  | cons c known ih =>
    rw [foldl_cons]
    split
    next hc =>
      obtain ⟨candidates, heq, hmem⟩ := ih (st.insertCandidate c)
      refine ⟨candidates, heq, fun b => ?_⟩
      have hs : (st.insertCandidate c).mayBeCandidate tree b = st.mayBeCandidate tree b := rfl
      rw [hmem, hs]
      simp only [insertCandidate, mem_insert_iff, mem_cons]
      grind
    next hc =>
      obtain ⟨candidates, heq, hmem⟩ := ih st
      refine ⟨candidates, heq, fun b => ?_⟩
      grind

theorem invalidateBlock_spec (h : st.invalidateBlock tree pindex = some st') :
    Invalidates tree pindex st st' := by
  unfold invalidateBlock at h
  obtain ⟨next, hnext, rfl⟩ := map_eq_some_iff.mp h
  have hr := disconnectThrough_spec hnext
  obtain ⟨candidates, heq, hmem⟩ := foldl_insertCandidate tree next next.mapBlockIndex
  have he := fun c => entry_setEntry st pindex c
    { st.entry pindex with BLOCK_FAILED_VALID := true }
  have hkeep : st.Keeps next := by
    refine Keeps.trans ?_ hr.keeps
    exact ⟨rfl, rfl, keeps_setEntry ⟨le_refl _, rfl, rfl, rfl, rfl⟩⟩
  rw [hkeep.known] at hmem
  unfold restoreCandidates
  rw [heq]
  constructor
  · exact ⟨hkeep.known, hkeep.unlinked, hkeep.entry⟩
  · exact hr.tip
  · exact hr.tip_off
  · intro b
    have hval := hr.failedValid b
    simp only [eraseCandidate, he] at hval
    grind
  · intro b hb
    refine hr.failedChild_mono b ?_
    simp only [eraseCandidate, he]
    grind
  · intro b hb
    have hc := hr.failedChild b hb
    have htip : (st.setEntry pindex { st.entry pindex with BLOCK_FAILED_VALID := true }).tip =
        st.tip := rfl
    simp only [eraseCandidate, he, htip] at hc
    grind
  · intro b hb
    exact ((hmem b).mp hb).imp_left fun hin => mem_of_mem_filter (hr.candidates b hin)
  · intro b hb hmay
    exact (hmem b).mpr (.inr ⟨hb, hmay⟩)

/-! ### Reconsideration -/

/-- The blocks whose flags `ReconsiderBlock` clears. -/
def Related (tree : BlockTree) (pindex b : BlockAddr) : Prop :=
  pindex ∈ tree.line b ∨ b ∈ tree.line pindex

/-- What `ReconsiderBlock` does, if only known blocks have failed. -/
structure Reconsiders (tree : BlockTree) (pindex : BlockAddr) (st st' : ChainState) :
    Prop where
  keeps : st.Keeps st'
  tip : st'.tip = st.tip
  failedValid : ∀ b, (st'.entry b).BLOCK_FAILED_VALID = true ↔
    (st.entry b).BLOCK_FAILED_VALID = true ∧ ¬Related tree pindex b
  failedChild : ∀ b, (st'.entry b).BLOCK_FAILED_CHILD = true ↔
    (st.entry b).BLOCK_FAILED_CHILD = true ∧ ¬Related tree pindex b
  candidates : ∀ b, b ∈ st'.setBlockIndexCandidates ↔ b ∈ st.setBlockIndexCandidates ∨
    (st.entry b).failed = true ∧ pindex ∈ tree.line b ∧
      BLOCK_VALID_TRANSACTIONS ≤ (st.entry b).nValidity ∧ (st.entry b).nChainTx ≠ 0 ∧
      st.rank tree st.tip < st.rank tree b

theorem Reconsiders.failed_iff (h : Reconsiders tree pindex st st') (b : BlockAddr) :
    (st'.entry b).failed = true ↔ (st.entry b).failed = true ∧ ¬Related tree pindex b := by
  have hval := h.failedValid b
  have hc := h.failedChild b
  grind [failed]

theorem ancestor_beq_iff {b : BlockAddr} :
    (tree.ancestor b (tree.height pindex) == some pindex) = true ↔ pindex ∈ tree.line b := by
  rw [beq_iff_eq, ancestor_eq_some_iff]
  exact ⟨fun h => h.1, fun h => ⟨h, rfl⟩⟩

/-- What the first loop does with the blocks it has visited. -/
structure Clears (tree : BlockTree) (pindex : BlockAddr) (visited : List BlockAddr)
    (st st' : ChainState) : Prop where
  known : st'.mapBlockIndex = st.mapBlockIndex
  unlinked : st'.mapBlocksUnlinked = st.mapBlocksUnlinked
  tip : st'.tip = st.tip
  entry : ∀ b, st'.entry b =
    if b ∈ visited ∧ pindex ∈ tree.line b then (st.entry b).clearFailed else st.entry b
  candidates : ∀ b, b ∈ st'.setBlockIndexCandidates ↔ b ∈ st.setBlockIndexCandidates ∨
    b ∈ visited ∧ (st.entry b).failed = true ∧ pindex ∈ tree.line b ∧
      BLOCK_VALID_TRANSACTIONS ≤ (st.entry b).nValidity ∧ (st.entry b).nChainTx ≠ 0 ∧
      st.rank tree st.tip < st.rank tree b

theorem Clears.keeps {visited : List BlockAddr} (h : Clears tree pindex visited st st') :
    st.Keeps st' := by
  refine ⟨h.known, h.unlinked, fun b => ?_⟩
  rw [h.entry]
  split_ifs
  · exact keeps_clearFailed _
  · exact .refl _

theorem clears_reconsiderEntry (tree : BlockTree) (pindex : BlockAddr) (st : ChainState)
    (c : BlockAddr) : Clears tree pindex [c] st (st.reconsiderEntry tree pindex c) := by
  have he := fun b => entry_setEntry st c b (st.entry c).clearFailed
  have hrank : (st.setEntry c (st.entry c).clearFailed).rank tree = st.rank tree :=
    rank_congr fun b => (keeps_setEntry (keeps_clearFailed _) b).nSequenceId
  unfold reconsiderEntry
  split
  next hc =>
    rw [Bool.and_eq_true, ancestor_beq_iff, Bool.not_eq_true', ← Bool.not_eq_true,
      isValid_eq_true, not_and] at hc
    obtain ⟨hinv, hline⟩ := hc
    have hself : (st.setEntry c (st.entry c).clearFailed).entry c = (st.entry c).clearFailed := by
      rw [he, if_pos rfl]
    have hf : ∀ b, (if b = c then (st.entry c).clearFailed else st.entry b) =
        if b ∈ [c] ∧ pindex ∈ tree.line b then (st.entry b).clearFailed else st.entry b := by
      grind
    dsimp only
    split
    next hi =>
      simp only [hself, Bool.and_eq_true, worse_iff, hrank, isValid_eq_true] at hi
      obtain ⟨⟨⟨-, hval⟩, hlink⟩, hbe⟩ := hi
      refine ⟨rfl, rfl, rfl, fun b => (he b).trans (hf b), fun b => ?_⟩
      have hfail : (st.entry c).failed = true := by
        by_contra hnot
        exact hinv (Bool.not_eq_true _ ▸ hnot) hval
      simp only [insertCandidate, setEntry, mem_insert_iff, mem_singleton]
      refine ⟨?_, ?_⟩
      · rintro (rfl | hb)
        · exact .inr ⟨rfl, hfail, hline, hval, of_decide_eq_true hlink, hbe⟩
        · exact .inl hb
      · rintro (hb | ⟨rfl, -⟩)
        · exact .inr hb
        · exact .inl rfl
    next hi =>
      simp only [hself, Bool.and_eq_true, worse_iff, hrank, isValid_eq_true] at hi
      refine ⟨rfl, rfl, rfl, fun b => (he b).trans (hf b), fun b => ⟨.inl, ?_⟩⟩
      rintro (hb | ⟨hb, -, -, hval, hlink, hbe⟩)
      · exact hb
      · obtain rfl := mem_singleton.mp hb
        exact absurd ⟨⟨⟨rfl, hval⟩, decide_eq_true hlink⟩, hbe⟩ hi
  next hc =>
    rw [Bool.and_eq_true, ancestor_beq_iff, Bool.not_eq_true', ← Bool.not_eq_true,
      isValid_eq_true] at hc
    refine ⟨rfl, rfl, rfl, fun b => ?_, fun b => ?_⟩
    · split_ifs with hb
      · obtain ⟨hb, hline⟩ := hb
        obtain rfl := mem_singleton.mp hb
        have hval : (st.entry b).failed = false := by grind
        exact (clearFailed_eq_self hval).symm
      · rfl
    · refine ⟨.inl, ?_⟩
      rintro (hb | ⟨hb, hfail, hline, -⟩)
      · exact hb
      · grind

theorem foldl_reconsiderEntry (tree : BlockTree) (pindex : BlockAddr) (st : ChainState)
    (visited : List BlockAddr) :
    Clears tree pindex visited st (visited.foldl (reconsiderEntry tree pindex) st) := by
  induction visited generalizing st with
  | nil => exact ⟨rfl, rfl, rfl, by simp, by simp⟩
  | cons c visited ih =>
    have hfst := clears_reconsiderEntry tree pindex st c
    have hr := ih (st.reconsiderEntry tree pindex c)
    have hrank : (st.reconsiderEntry tree pindex c).rank tree = st.rank tree := hfst.keeps.rank
    rw [foldl_cons]
    refine ⟨hr.known.trans hfst.known, hr.unlinked.trans hfst.unlinked,
      hr.tip.trans hfst.tip, fun b => ?_, fun b => ?_⟩
    · have := hfst.entry b
      rw [hr.entry, hfst.entry]
      grind [clearFailed_clearFailed]
    · rw [hr.candidates, hfst.candidates, hrank, hfst.tip, hfst.entry]
      have hclr : (st.entry b).clearFailed.failed = false := rfl
      grind

theorem foldl_clearAncestor (st : ChainState) (line : List BlockAddr) :
    line.foldl clearAncestor st = { st with
      entry := fun b => if b ∈ line then (st.entry b).clearFailed else st.entry b } := by
  induction line generalizing st with
  | nil => simp
  | cons c line ih =>
    rw [foldl_cons, ih]
    have hstep : st.clearAncestor c = st.setEntry c (st.entry c).clearFailed := by
      unfold clearAncestor
      split_ifs with hfail
      · rfl
      · rw [clearFailed_eq_self (Bool.not_eq_true _ ▸ hfail)]
        simp [setEntry]
    rw [hstep]
    simp only [setEntry, ChainState.mk.injEq, true_and, and_true]
    funext b
    grind [clearFailed_clearFailed]

theorem reconsiderBlock_spec (pindex : BlockAddr)
    (hk : ∀ b, (st.entry b).failed = true → b ∈ st.mapBlockIndex) :
    Reconsiders tree pindex st (st.reconsiderBlock tree pindex) := by
  have hclr := foldl_reconsiderEntry tree pindex st st.mapBlockIndex
  have hval : ∀ entry : BlockEntry, entry.clearFailed.BLOCK_FAILED_VALID = false := fun _ => rfl
  have hc : ∀ entry : BlockEntry, entry.clearFailed.BLOCK_FAILED_CHILD = false := fun _ => rfl
  have he := hclr.entry
  unfold reconsiderBlock
  rw [foldl_clearAncestor]
  refine ⟨⟨hclr.known, hclr.unlinked, fun b => (hclr.keeps.entry b).trans ?_⟩,
    hclr.tip, fun b => ?_, fun b => ?_, fun b => ?_⟩
  · dsimp only
    split_ifs
    · exact keeps_clearFailed _
    · exact .refl _
  · have hfail : (st.entry b).BLOCK_FAILED_VALID = true → b ∈ st.mapBlockIndex :=
      fun hb => hk b (by simp [failed, hb])
    grind [Related]
  · have hfail : (st.entry b).BLOCK_FAILED_CHILD = true → b ∈ st.mapBlockIndex :=
      fun hb => hk b (by simp [failed, hb])
    grind [Related]
  · dsimp only
    rw [hclr.candidates]
    exact or_congr_right ⟨fun hb => hb.2, fun hb => ⟨hk b hb.1, hb⟩⟩

end ChainState

end Divi
