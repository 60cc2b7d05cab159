/-
What the arrival of headers and blocks keeps.

A block with data is linked (`nChainTx` is set) once all of its ancestors have data.  Until
then it waits in `mapBlocksUnlinked`, or in the queue of `ReceivedBlockTransactions` once its
parent is linked, unless its parent had failed when it arrived.  `AcceptBlock` lets no data in
that is late in this sense.
-/
import Divi.Proofs.ActiveChain

namespace Divi

open ParentTree List

/-- The number of transactions of a block and all below it. -/
def BlockTree.txCount (tree : BlockTree) (b : BlockAddr) : Nat :=
  ((tree.line b).map tree.vtxSize).sum

namespace ChainState

variable {tree : BlockTree} {late : Prop} {queue : List BlockAddr} {st st' : ChainState}
  {b p : BlockAddr} {fuel : Nat}

/-- How entries, the unlinked blocks and the queue fit together, if the data of a block may or
may not come after the block or its parent has failed. -/
structure Linked (tree : BlockTree) (late : Prop) (queue : List BlockAddr) (st : ChainState) :
    Prop where
  root : (st.entry tree.root).nChainTx ≠ 0
  parent_known : ∀ b p, b ∈ st.mapBlockIndex → tree.parent b = some p → p ∈ st.mapBlockIndex
  known_tree : ∀ b, b ∈ st.mapBlockIndex → BLOCK_VALID_TREE ≤ (st.entry b).nValidity
  data_known : ∀ b, (st.entry b).BLOCK_HAVE_DATA = true → b ∈ st.mapBlockIndex
  data_valid : ∀ b, (st.entry b).BLOCK_HAVE_DATA = true →
    (late → (st.entry b).failed = false) → BLOCK_VALID_TRANSACTIONS ≤ (st.entry b).nValidity
  data_tx : ∀ b, (st.entry b).BLOCK_HAVE_DATA = true →
    (st.entry b).nTx = tree.vtxSize b % 2 ^ 32 ∧ tree.txCount b % 2 ^ 32 ≠ 0
  linked_tx : ∀ b, (st.entry b).nChainTx ≠ 0 → (st.entry b).nChainTx = tree.txCount b % 2 ^ 32
  linked_data : ∀ b, (st.entry b).nChainTx ≠ 0 → (st.entry b).BLOCK_HAVE_DATA = true
  linked_parent : ∀ b p, (st.entry b).nChainTx ≠ 0 → tree.parent b = some p →
    (st.entry p).nChainTx ≠ 0
  waiting : ∀ b p, (st.entry b).BLOCK_HAVE_DATA = true → (st.entry b).nChainTx = 0 →
    tree.parent b = some p →
      b ∈ queue ∨ (p, b) ∈ st.mapBlocksUnlinked ∨ late ∧ (st.entry p).failed = true
  unlinked : ∀ b p, (p, b) ∈ st.mapBlocksUnlinked → tree.parent b = some p ∧
    (st.entry b).BLOCK_HAVE_DATA = true ∧ (st.entry b).nChainTx = 0 ∧ (st.entry p).nChainTx = 0
  queued : ∀ b, b ∈ queue → (st.entry b).BLOCK_HAVE_DATA = true ∧ (st.entry b).nChainTx = 0 ∧
    ∀ p, tree.parent b = some p → (st.entry p).nChainTx ≠ 0
  nodup : (queue ++ st.mapBlocksUnlinked.map Prod.snd).Nodup

namespace Linked

theorem line_linked (h : Linked tree late queue st) {a : BlockAddr} (ha : a ∈ tree.line b)
    (hb : (st.entry b).nChainTx ≠ 0) : (st.entry a).nChainTx ≠ 0 :=
  of_mem_line (P := fun a => (st.entry a).nChainTx ≠ 0) h.linked_parent hb ha

/-- With nothing queued, a block with all data below is linked, unless it came late. -/
theorem linked_of_line (h : Linked tree late [] st)
    (hline : ∀ a ∈ tree.line b, (st.entry a).BLOCK_HAVE_DATA = true ∧
      (late → (st.entry a).failed = false)) : (st.entry b).nChainTx ≠ 0 := by
  induction b using climb with
  | root => exact h.root
  | child b p hpar ih =>
    have hp := ih fun a ha => hline a (parent_mem_line hpar ha)
    intro hzero
    rcases h.waiting b p (hline b (self_mem_line b)).1 hzero hpar with
      hq | hw | ⟨hlate, hfail⟩
    · cases hq
    · exact hp (h.unlinked b p hw).2.2.2
    · rw [(hline p (parent_mem_line hpar (self_mem_line p))).2 hlate] at hfail
      cases hfail

/-- Flags may be set; they may be cleared only where no data came late. -/
theorem keeps (h : Linked tree late queue st) (hkeep : st.Keeps st')
    (hfail : late → ∀ b, (st.entry b).failed = true → (st'.entry b).failed = true) :
    Linked tree late queue st' := by
  have he := hkeep.entry
  constructor
  · rw [(he _).nChainTx]
    exact h.root
  · rw [hkeep.known]
    exact h.parent_known
  · intro b hb
    rw [hkeep.known] at hb
    exact (h.known_tree b hb).trans (he b).nValidity
  · intro b
    rw [hkeep.known, (he b).data]
    exact h.data_known b
  · intro b hdata hval
    rw [(he b).data] at hdata
    refine (h.data_valid b hdata fun hlate => ?_).trans (he b).nValidity
    rw [← Bool.not_eq_true]
    intro hb
    have hval' := hval hlate
    rw [hfail hlate b hb] at hval'
    cases hval'
  · intro b
    rw [(he b).data, (he b).nTx]
    exact h.data_tx b
  · intro b
    rw [(he b).nChainTx]
    exact h.linked_tx b
  · intro b
    rw [(he b).data, (he b).nChainTx]
    exact h.linked_data b
  · intro b p
    rw [(he b).nChainTx, (he p).nChainTx]
    exact h.linked_parent b p
  · intro b p
    rw [(he b).data, (he b).nChainTx, hkeep.unlinked]
    intro hdata hzero hpar
    exact (h.waiting b p hdata hzero hpar).imp_right
      (Or.imp_right fun hlate => ⟨hlate.1, hfail hlate.1 p hlate.2⟩)
  · intro b p
    rw [hkeep.unlinked, (he b).data, (he b).nChainTx, (he p).nChainTx]
    exact h.unlinked b p
  · intro b hb
    rw [(he b).data, (he b).nChainTx]
    simp only [(he _).nChainTx]
    exact h.queued b hb
  · rw [hkeep.unlinked]
    exact h.nodup

end Linked

/-! ### Headers -/

theorem acceptBlockHeader_eq_some (h : st.acceptBlockHeader tree b = some st') :
    b ∈ st.mapBlockIndex ∧ (st.entry b).failed = false ∧ st' = st ∨ b ∉ st.mapBlockIndex ∧
      ∃ p, tree.parent b = some p ∧ p ∈ st.mapBlockIndex ∧ (st.entry p).failed = false ∧
        st' = st.addToBlockIndex b := by
  revert h
  fun_cases acceptBlockHeader tree st b with
  | case1 | case3 | case4 => nofun
  | case2 hold hval =>
    rintro ⟨⟩
    exact .inl ⟨hold, Bool.not_eq_true _ ▸ hval, rfl⟩
  | case5 hnew p hpar hp =>
    rintro ⟨⟩
    rw [not_or, not_not, Bool.not_eq_true] at hp
    exact .inr ⟨hnew, p, hpar, hp.1, hp.2, rfl⟩

theorem entry_addToBlockIndex (st : ChainState) (b c : BlockAddr) :
    (st.addToBlockIndex b).entry c =
      if c = b then { nValidity := BLOCK_VALID_TREE } else st.entry c :=
  entry_setEntry ..

theorem Linked.addToBlockIndex (h : Linked tree late queue st) (hnew : b ∉ st.mapBlockIndex)
    (hpar : tree.parent b = some p) (hp : p ∈ st.mapBlockIndex) :
    Linked tree late queue (st.addToBlockIndex b) := by
  have hk : (st.addToBlockIndex b).mapBlockIndex = st.mapBlockIndex ++ [b] := rfl
  have hu : (st.addToBlockIndex b).mapBlocksUnlinked = st.mapBlocksUnlinked := rfl
  have ho : ∀ c ∈ st.mapBlockIndex, (st.addToBlockIndex b).entry c = st.entry c := by
    intro c hc
    rw [entry_addToBlockIndex, if_neg (by rintro rfl; exact hnew hc)]
  have hself : (st.addToBlockIndex b).entry b = { nValidity := BLOCK_VALID_TREE } := by
    rw [entry_addToBlockIndex, if_pos rfl]
  have he : ∀ c, (st.addToBlockIndex b).entry c = st.entry c ∨ c = b := by
    intro c
    rw [entry_addToBlockIndex]
    split_ifs with hc
    · exact .inr hc
    · exact .inl rfl
  have hdata := h.data_known
  constructor
  · rw [ho _ (h.data_known _ (h.linked_data _ h.root))]
    exact h.root
  · rw [hk]
    intro c q hc hq
    have := h.parent_known c q
    grind
  · intro c hc
    have := h.known_tree c
    grind
  · intro c
    grind
  · intro c
    have := h.data_valid c
    grind
  · intro c
    have := h.data_tx c
    grind
  · intro c
    have := h.linked_tx c
    grind
  · intro c
    have := h.linked_data c
    grind
  · intro c q hc hq
    have := h.linked_parent c q
    have := h.linked_data q
    grind
  · intro c q
    have := h.waiting c q
    have := h.parent_known c q
    grind
  · intro c q
    have := h.unlinked c q
    grind
  · intro c hc
    have := h.queued c hc
    have := h.linked_data
    grind
  · exact h.nodup

/-! ### Blocks -/

/-- Linking a block sets its number of transactions and its place in the order of arrival, and
makes it a candidate unless it is worse than the tip. -/
structure Links (tree : BlockTree) (st st' : ChainState) (b : BlockAddr) : Prop where
  known : st'.mapBlockIndex = st.mapBlockIndex
  unlinked : st'.mapBlocksUnlinked = st.mapBlocksUnlinked
  tip : st'.tip = st.tip
  entry : ∀ c, st'.entry c =
    if c = b then { st.entry b with
      nChainTx := (st.nChainTxPrev tree b + (st.entry b).nTx) % 2 ^ 32
      nSequenceId := st.nBlockSequenceId }
    else st.entry c
  candidates : ∀ c, c ∈ st'.setBlockIndexCandidates ↔
    c ∈ st.setBlockIndexCandidates ∨ c = b ∧ st'.rank tree st.tip ≤ st'.rank tree b

theorem links_linkBlock (tree : BlockTree) (st : ChainState) (b : BlockAddr) :
    Links tree st (st.linkBlock tree b) b := by
  unfold linkBlock
  dsimp only
  split
  next hw =>
    refine ⟨rfl, rfl, rfl, fun c => entry_setEntry .., fun c => ?_⟩
    rw [worse_iff] at hw
    refine ⟨.inl, ?_⟩
    rintro (hc | ⟨-, hle⟩)
    · exact hc
    · exact absurd hle (not_le.mpr hw)
  next hw =>
    refine ⟨rfl, rfl, rfl, fun c => entry_setEntry .., fun c => ?_⟩
    rw [worse_iff, not_lt] at hw
    simp only [insertCandidate, mem_insert_iff]
    refine ⟨?_, ?_⟩
    · rintro (rfl | hc)
      · exact .inr ⟨rfl, hw⟩
      · exact .inl hc
    · rintro (hc | ⟨rfl, -⟩)
      · exact .inr hc
      · exact .inl rfl

namespace Links

variable (h : Links tree st st' b)

include h

theorem of_ne {c : BlockAddr} (hc : c ≠ b) : st'.entry c = st.entry c := by
  rw [h.entry, if_neg hc]

/-- What linking leaves alone in an entry. -/
theorem same (c : BlockAddr) : (st'.entry c).BLOCK_HAVE_DATA = (st.entry c).BLOCK_HAVE_DATA ∧
      (st'.entry c).nTx = (st.entry c).nTx ∧ (st'.entry c).nValidity = (st.entry c).nValidity ∧
      (st'.entry c).BLOCK_FAILED_VALID = (st.entry c).BLOCK_FAILED_VALID ∧
      (st'.entry c).BLOCK_FAILED_CHILD = (st.entry c).BLOCK_FAILED_CHILD := by
  rw [h.entry]
  split_ifs with hc
  · rw [hc]
    exact ⟨rfl, rfl, rfl, rfl, rfl⟩
  · exact ⟨rfl, rfl, rfl, rfl, rfl⟩

theorem failed (c : BlockAddr) : (st'.entry c).failed = (st.entry c).failed := by
  obtain ⟨-, -, -, hval, hc⟩ := h.same c
  unfold BlockEntry.failed
  rw [hval, hc]

end Links

/-- The counter of a linked block is that of its line. -/
theorem Linked.nChainTx_self (h : Linked tree late (b :: queue) st) (hl : Links tree st st' b) :
    (st'.entry b).nChainTx = tree.txCount b % 2 ^ 32 ∧ (st'.entry b).nChainTx ≠ 0 := by
  obtain ⟨hdata, hzero, hpars⟩ := h.queued b mem_cons_self
  obtain ⟨htx, hcnt⟩ := h.data_tx b hdata
  have hroot : b ≠ tree.root := by
    rintro rfl
    exact h.root hzero
  obtain ⟨p, hpar⟩ := exists_parent hroot
  have hsum : tree.txCount b = tree.vtxSize b + tree.txCount p := by
    rw [BlockTree.txCount, line_child hpar, map_cons, sum_cons]
    rfl
  have hself : (st'.entry b).nChainTx = tree.txCount b % 2 ^ 32 := by
    rw [hl.entry, if_pos rfl]
    simp only [nChainTxPrev, hpar, h.linked_tx p (hpars p hpar), htx, hsum]
    omega
  exact ⟨hself, hself ▸ hcnt⟩

theorem mem_takeUnlinked {c : BlockAddr} :
    c ∈ (st.takeUnlinked b).1 ↔ (b, c) ∈ st.mapBlocksUnlinked := by
  simp [takeUnlinked]

theorem mem_unlinked_takeUnlinked {c : BlockAddr} :
    (p, c) ∈ (st.takeUnlinked b).2.mapBlocksUnlinked ↔ (p, c) ∈ st.mapBlocksUnlinked ∧ p ≠ b := by
  simp [takeUnlinked]

theorem takeUnlinked_perm (st : ChainState) (b : BlockAddr) :
    ((st.takeUnlinked b).1 ++ (st.takeUnlinked b).2.mapBlocksUnlinked.map Prod.snd).Perm
      (st.mapBlocksUnlinked.map Prod.snd) := by
  have hperm := filter_append_perm (fun link => decide (link.1 = b)) st.mapBlocksUnlinked
  simpa [takeUnlinked] using hperm.map Prod.snd

theorem Linked.linkBlock (h : Linked tree late (b :: queue) st) (hl : Links tree st st' b) :
    Linked tree late (queue ++ (st'.takeUnlinked b).1) (st'.takeUnlinked b).2 := by
  obtain ⟨hdata, hzero, hpars⟩ := h.queued b mem_cons_self
  obtain ⟨hcnt, hself⟩ := h.nChainTx_self hl
  have ho := @hl.of_ne
  have hs := hl.same
  have hfail := hl.failed
  have hmem : ∀ c, c ∈ (st'.takeUnlinked b).1 ↔ (b, c) ∈ st.mapBlocksUnlinked := by
    intro c
    rw [mem_takeUnlinked, hl.unlinked]
  have hr : ∀ c p, (p, c) ∈ (st'.takeUnlinked b).2.mapBlocksUnlinked ↔
      (p, c) ∈ st.mapBlocksUnlinked ∧ p ≠ b := by
    intro c p
    rw [mem_unlinked_takeUnlinked, hl.unlinked]
  -- the block is neither queued twice nor unlinked
  obtain ⟨hf, hnd⟩ := nodup_cons.mp h.nodup
  have hq : ∀ c ∈ queue, c ≠ b := by
    rintro c hc rfl
    exact hf (mem_append_left _ hc)
  have hk : (st'.takeUnlinked b).2.mapBlockIndex = st.mapBlockIndex := hl.known
  have he : ∀ c, (st'.takeUnlinked b).2.entry c = st'.entry c := fun c => rfl
  constructor
  · have := h.root
    grind
  · rw [hk]
    exact h.parent_known
  · have := h.known_tree
    grind
  · have := h.data_known
    grind
  · have := h.data_valid
    grind
  · have := h.data_tx
    grind
  · have := h.linked_tx
    grind
  · have := h.linked_data
    grind
  · have := h.linked_parent
    grind
  · have := h.waiting
    grind
  · have := h.unlinked
    grind
  · have := h.queued
    have := h.unlinked
    grind
  · have hperm := (st'.takeUnlinked_perm b).append_left queue
    rw [hl.unlinked, ← append_assoc] at hperm
    exact hperm.nodup_iff.mpr hnd

/-- Every round takes a block from those queued or unlinked. -/
theorem processQueue_returns (hfuel : queue.length + st.mapBlocksUnlinked.length ≤ fuel) :
    ∃ st', st.processQueue tree fuel queue = some st' := by
  fun_induction processQueue tree fuel queue st with
  | case1 fuel st => exact ⟨st, rfl⟩
  | case2 b queue st => simp at hfuel
  | case3 fuel b queue st result ih =>
    refine ih ?_
    have hperm := ((st.linkBlock tree b).takeUnlinked_perm b).length_eq
    rw [(links_linkBlock tree st b).unlinked] at hperm
    simp only [length_append, length_map, length_cons, result] at hperm hfuel ⊢
    omega

theorem processQueue_rule {P : List BlockAddr → ChainState → Prop}
    (hstep : ∀ b queue st st', P (b :: queue) st → Links tree st st' b →
      P (queue ++ (st'.takeUnlinked b).1) (st'.takeUnlinked b).2) (hP : P queue st)
    (h : st.processQueue tree fuel queue = some st') : P [] st' := by
  fun_induction processQueue tree fuel queue st with
  | case1 fuel st => exact Option.some.inj h ▸ hP
  | case2 b queue st => cases h
  | case3 fuel b queue st result ih =>
    exact ih (hstep b queue st _ hP (links_linkBlock tree st b)) h

/-- The data of a block has come, and it is not linked yet. -/
structure Receives (tree : BlockTree) (st st' : ChainState) (b : BlockAddr) : Prop where
  known : st'.mapBlockIndex = st.mapBlockIndex
  candidates : st'.setBlockIndexCandidates = st.setBlockIndexCandidates
  tip : st'.tip = st.tip
  of_ne : ∀ c, c ≠ b → st'.entry c = st.entry c
  data : (st'.entry b).BLOCK_HAVE_DATA = true
  nTx : (st'.entry b).nTx = tree.vtxSize b % 2 ^ 32
  nChainTx : (st'.entry b).nChainTx = 0
  nValidity : (st.entry b).nValidity ≤ (st'.entry b).nValidity
  valid : (st'.entry b).failed = false → BLOCK_VALID_TRANSACTIONS ≤ (st'.entry b).nValidity
  failedValid : (st'.entry b).BLOCK_FAILED_VALID = (st.entry b).BLOCK_FAILED_VALID
  failedChild : (st'.entry b).BLOCK_FAILED_CHILD = (st.entry b).BLOCK_FAILED_CHILD

namespace Receives

variable (h : Receives tree st st' b)

include h

theorem flags (c : BlockAddr) :
    (st'.entry c).BLOCK_FAILED_VALID = (st.entry c).BLOCK_FAILED_VALID ∧
      (st'.entry c).BLOCK_FAILED_CHILD = (st.entry c).BLOCK_FAILED_CHILD := by
  by_cases hc : c = b
  · rw [hc]
    exact ⟨h.failedValid, h.failedChild⟩
  · rw [h.of_ne c hc]
    exact ⟨rfl, rfl⟩

theorem failed (c : BlockAddr) : (st'.entry c).failed = (st.entry c).failed := by
  unfold BlockEntry.failed
  rw [(h.flags c).1, (h.flags c).2]

theorem wait (links : List (BlockAddr × BlockAddr)) :
    Receives tree st { st' with mapBlocksUnlinked := links } b :=
  ⟨h.known, h.candidates, h.tip, h.of_ne, h.data, h.nTx, h.nChainTx, h.nValidity, h.valid,
    h.failedValid, h.failedChild⟩

end Receives

theorem receives_setEntry (tree : BlockTree) (st : ChainState) (b : BlockAddr) :
    Receives tree st (st.setEntry b (BlockEntry.raiseValidity { st.entry b with
      nTx := tree.vtxSize b % 2 ^ 32
      nChainTx := 0
      BLOCK_HAVE_DATA := true } BLOCK_VALID_TRANSACTIONS)) b := by
  have hself : ∀ entry : BlockEntry, (st.setEntry b entry).entry b = entry := by
    intro entry
    rw [entry_setEntry, if_pos rfl]
  have hkeep := BlockEntry.keeps_raiseValidity { st.entry b with
    nTx := tree.vtxSize b % 2 ^ 32
    nChainTx := 0
    BLOCK_HAVE_DATA := true } BLOCK_VALID_TRANSACTIONS
  constructor
  · rfl
  · rfl
  · rfl
  · intro c hc
    rw [entry_setEntry, if_neg hc]
  · rw [hself, hkeep.data]
  · rw [hself, hkeep.nTx]
  · rw [hself, hkeep.nChainTx]
  · rw [hself]
    exact hkeep.nValidity
  · rw [hself]
    exact BlockEntry.le_raiseValidity _ _
  · rw [hself, BlockEntry.failedValid_raiseValidity]
  · rw [hself, BlockEntry.failedChild_raiseValidity]

/-- A block whose data comes is put into the queue, waits for its parent, or is left alone if
the parent has failed. -/
theorem receivedBlockTransactions_cases (h : st.receivedBlockTransactions tree b = some st') :
    ∃ next, Receives tree st next b ∧
      ((∀ p, tree.parent b = some p → (next.entry p).nChainTx ≠ 0) ∧
          next.mapBlocksUnlinked = st.mapBlocksUnlinked ∧
          (∃ fuel, next.processQueue tree fuel [b] = some st') ∨
        ∃ p, tree.parent b = some p ∧ ((next.entry p).nChainTx = 0 ∧
            next.mapBlocksUnlinked = st.mapBlocksUnlinked ++ [(p, b)] ∧ next = st' ∨
          (next.entry p).isValid BLOCK_VALID_TREE = false ∧
            next.mapBlocksUnlinked = st.mapBlocksUnlinked ∧ next = st')) := by
  have hrecv := receives_setEntry tree st b
  unfold receivedBlockTransactions at h
  dsimp only at h
  split at h
  next hpar => exact ⟨_, hrecv, .inl ⟨by simp [hpar], rfl, _, h⟩⟩
  next p hpar =>
    split at h
    next hlink => exact ⟨_, hrecv, .inl ⟨by simpa [hpar] using hlink, rfl, _, h⟩⟩
    next hlink =>
      rw [ne_eq, not_not] at hlink
      split at h
      next =>
        cases h
        exact ⟨_, hrecv.wait (st.mapBlocksUnlinked ++ [(p, b)]),
          .inr ⟨p, hpar, .inl ⟨hlink, rfl, rfl⟩⟩⟩
      next hval =>
        cases h
        exact ⟨_, hrecv, .inr ⟨p, hpar, .inr ⟨Bool.not_eq_true _ ▸ hval, rfl, rfl⟩⟩⟩

theorem receivedBlockTransactions_returns (tree : BlockTree) (st : ChainState)
    (b : BlockAddr) : ∃ st', st.receivedBlockTransactions tree b = some st' := by
  have hq : ∀ st : ChainState, ∃ st',
      st.processQueue tree (st.mapBlocksUnlinked.length + 1) [b] = some st' := by
    intro st
    refine processQueue_returns ?_
    rw [length_singleton, Nat.add_comm]
  unfold receivedBlockTransactions
  dsimp only
  split
  · exact hq _
  · split
    · exact hq _
    · split <;> exact ⟨_, rfl⟩

/-- The arrival of data sets no flags and clears none. -/
theorem receivedBlockTransactions_flags (h : st.receivedBlockTransactions tree b = some st')
    (c : BlockAddr) :
    (st'.entry c).BLOCK_FAILED_VALID = (st.entry c).BLOCK_FAILED_VALID ∧
      (st'.entry c).BLOCK_FAILED_CHILD = (st.entry c).BLOCK_FAILED_CHILD := by
  obtain ⟨next, hrecv, hca⟩ := receivedBlockTransactions_cases h
  rcases hca with ⟨-, -, fuel, hp⟩ | ⟨p, -, ⟨-, -, rfl⟩ | ⟨-, -, rfl⟩⟩
  · refine processQueue_rule (P := fun _ next =>
      (next.entry c).BLOCK_FAILED_VALID = (st.entry c).BLOCK_FAILED_VALID ∧
        (next.entry c).BLOCK_FAILED_CHILD = (st.entry c).BLOCK_FAILED_CHILD) ?_
      (hrecv.flags c) hp
    rintro b queue st st' ⟨hval, hc⟩ hl
    obtain ⟨-, -, -, hval', hc'⟩ := hl.same c
    exact ⟨hval'.trans hval, hc'.trans hc⟩
  · exact hrecv.flags c
  · exact hrecv.flags c

theorem Linked.receives (h : Linked tree late [] st) (hrecv : Receives tree st st' b)
    (hpar : tree.parent b = some p) (hk : b ∈ st.mapBlockIndex)
    (hdata : (st.entry b).BLOCK_HAVE_DATA = false) (hlate : late ∨ (st.entry b).failed = false)
    (hcnt : tree.txCount b % 2 ^ 32 ≠ 0) (hcase : queue = [b] ∧ (st'.entry p).nChainTx ≠ 0 ∧
        st'.mapBlocksUnlinked = st.mapBlocksUnlinked ∨
      queue = [] ∧ (st'.entry p).nChainTx = 0 ∧
        st'.mapBlocksUnlinked = st.mapBlocksUnlinked ++ [(p, b)] ∨
      queue = [] ∧ (late ∧ (st'.entry p).failed = true) ∧
        st'.mapBlocksUnlinked = st.mapBlocksUnlinked) : Linked tree late queue st' := by
  have hfail := hrecv.failed
  obtain ⟨hsameKnown, -, -, ho, hdata', htx, hzero, hle, hval, -, -⟩ := hrecv
  have hu : (st.entry b).nChainTx = 0 := by
    by_contra hl
    rw [h.linked_data b hl] at hdata
    cases hdata
  have hf : ∀ q, (q, b) ∉ st.mapBlocksUnlinked := by
    intro q hq
    rw [(h.unlinked b q hq).2.1] at hdata
    cases hdata
  constructor
  · have := h.root
    grind
  · rw [hsameKnown]
    exact h.parent_known
  · have := h.known_tree
    grind
  · have := h.data_known
    grind
  · have := h.data_valid
    grind
  · have := h.data_tx
    grind
  · have := h.linked_tx
    grind
  · have := h.linked_data
    grind
  · have := h.linked_parent
    grind
  · have := h.waiting
    grind
  · have := h.unlinked
    grind
  · have := h.queued
    grind
  · have hnd : (st.mapBlocksUnlinked.map Prod.snd).Nodup := h.nodup
    have hnew : b ∉ st.mapBlocksUnlinked.map Prod.snd := by
      intro hb
      obtain ⟨⟨q, c⟩, hlink, rfl⟩ := mem_map.mp hb
      exact hf q hlink
    rcases hcase with ⟨rfl, -, hs⟩ | ⟨rfl, -, hs⟩ | ⟨rfl, -, hs⟩
    · rw [hs]
      exact nodup_cons.mpr ⟨hnew, hnd⟩
    · rw [hs, map_append, nil_append]
      exact nodup_append.mpr (by simpa using ⟨hnd, fun c hc => by grind⟩)
    · rw [hs]
      exact hnd

/-! ### Blocks with their headers -/

/-- What holds when a header was accepted. -/
theorem acceptBlockHeader_accepted (h : st.acceptBlockHeader tree b = some st') :
    b ∈ st'.mapBlockIndex ∧ (st'.entry b).failed = false ∧
      ∀ c ∈ st.mapBlockIndex, st'.entry c = st.entry c := by
  rcases acceptBlockHeader_eq_some h with ⟨hold, hval, rfl⟩ | ⟨hnew, p, -, -, -, rfl⟩
  · exact ⟨hold, hval, fun _ _ => rfl⟩
  · have he := entry_addToBlockIndex st b
    refine ⟨mem_append_right _ (mem_singleton_self b), ?_, fun c hc => ?_⟩
    · rw [he, if_pos rfl]
      rfl
    · rw [he, if_neg]
      rintro rfl
      exact hnew hc

/-- Data is taken when neither the block nor its parent has failed. -/
structure TakesData (tree : BlockTree) (st st' : ChainState) (b : BlockAddr) : Prop where
  known : b ∈ st.mapBlockIndex
  data : (st.entry b).BLOCK_HAVE_DATA = false
  valid : (st.entry b).failed = false
  parent_valid : ∀ p, tree.parent b = some p → (st.entry p).failed = false
  received : st.receivedBlockTransactions tree b = some st'

/-- `AcceptBlock` rejects the block, takes the header only, or takes the data as well. -/
theorem acceptBlock_cases (h : st.acceptBlock tree b = some st') :
    st' = st ∨ ∃ next, st.acceptBlockHeader tree b = some next ∧
      (st' = next ∨ TakesData tree next st' b) := by
  have hdata : (∀ p, tree.parent b = some p →
      p ∈ st.mapBlockIndex ∧ (st.entry p).failed = false) →
      st.acceptBlockData tree b = some st' → st' = st ∨ ∃ next,
        st.acceptBlockHeader tree b = some next ∧ (st' = next ∨ TakesData tree next st' b) := by
    intro hpar h
    unfold acceptBlockData at h
    split at h
    next => exact .inl (Option.some.inj h).symm
    next next hhdr =>
      obtain ⟨hk, hval, hs⟩ := acceptBlockHeader_accepted hhdr
      refine .inr ⟨next, hhdr, ?_⟩
      split at h
      · exact .inl (Option.some.inj h).symm
      next hnew =>
        refine .inr ⟨hk, Bool.not_eq_true _ ▸ hnew, hval, fun p hp => ?_, h⟩
        rw [hs p (hpar p hp).1]
        exact (hpar p hp).2
  unfold acceptBlock at h
  split at h
  next hn =>
    refine hdata (fun p hp => ?_) h
    rw [hn] at hp
    cases hp
  next p hpar =>
    split at h
    · exact .inl (Option.some.inj h).symm
    next hp =>
      rw [not_or, not_not, Bool.not_eq_true] at hp
      refine hdata (fun q hq => ?_) h
      obtain rfl := Option.some.inj (hpar.symm.trans hq)
      exact hp

end ChainState

end Divi
