/-
What the steps of chain activation do.

The comparator of the candidate set is the order of `rank`, in which a block comes after its
ancestors.  Choosing a chain only marks blocks above failed ones and drops candidates that
cannot be used; a step towards a chain connects the blocks of one path until one of them is
invalid or the old tip is passed, whatever the size of the batches.
-/
import Divi.ActiveChain
import Mathlib.Data.List.TakeWhile

namespace Divi

open ParentTree List Option

variable {st st' next : ChainState} {m fork pa pb b a : BlockAddr}
  {path connected : List BlockAddr} {fuel : Nat} {refused : Option BlockAddr}

namespace BlockEntry

/-- Nothing but the flags of failure changes, and the level of validity only grows. -/
structure Keeps (entry entry' : BlockEntry) : Prop where
  nValidity : entry.nValidity ≤ entry'.nValidity
  data : entry'.BLOCK_HAVE_DATA = entry.BLOCK_HAVE_DATA
  nTx : entry'.nTx = entry.nTx
  nChainTx : entry'.nChainTx = entry.nChainTx
  nSequenceId : entry'.nSequenceId = entry.nSequenceId

theorem Keeps.refl (entry : BlockEntry) : entry.Keeps entry := ⟨le_refl _, rfl, rfl, rfl, rfl⟩

theorem Keeps.trans {entry entry' entry'' : BlockEntry} (h : entry.Keeps entry')
    (h' : entry'.Keeps entry'') : entry.Keeps entry'' :=
  ⟨h.nValidity.trans h'.nValidity, h'.data.trans h.data, h'.nTx.trans h.nTx,
    h'.nChainTx.trans h.nChainTx, h'.nSequenceId.trans h.nSequenceId⟩

section

variable (entry : BlockEntry) (nUpTo : Nat)

theorem keeps_raiseValidity : entry.Keeps (entry.raiseValidity nUpTo) := by
  unfold raiseValidity
  split_ifs with hf hlt
  · exact .refl entry
  · exact ⟨hlt.le, rfl, rfl, rfl, rfl⟩
  · exact .refl entry

theorem le_raiseValidity (h : (entry.raiseValidity nUpTo).failed = false) :
    nUpTo ≤ (entry.raiseValidity nUpTo).nValidity := by
  unfold raiseValidity at h ⊢
  split_ifs at h ⊢ with hf hlt
  · rw [hf] at h
    cases h
  · exact le_refl _
  · exact not_lt.mp hlt

theorem failedChild_raiseValidity :
    (entry.raiseValidity nUpTo).BLOCK_FAILED_CHILD = entry.BLOCK_FAILED_CHILD := by
  unfold raiseValidity
  split_ifs <;> rfl

theorem failedValid_raiseValidity :
    (entry.raiseValidity nUpTo).BLOCK_FAILED_VALID = entry.BLOCK_FAILED_VALID := by
  unfold raiseValidity
  split_ifs <;> rfl

end

theorem clearFailed_eq_self {entry : BlockEntry} (h : entry.failed = false) :
    entry.clearFailed = entry := by
  obtain ⟨hval, hc⟩ := Bool.or_eq_false_iff.mp h
  unfold clearFailed
  rw [← hval]
  nth_rewrite 2 [hval]
  rw [← hc]

theorem clearFailed_clearFailed (entry : BlockEntry) :
    entry.clearFailed.clearFailed = entry.clearFailed := rfl

theorem keeps_clearFailed (entry : BlockEntry) : entry.Keeps entry.clearFailed :=
  ⟨le_refl _, rfl, rfl, rfl, rfl⟩

theorem isValid_eq_true {entry : BlockEntry} {nUpTo : Nat} :
    entry.isValid nUpTo = true ↔ entry.failed = false ∧ nUpTo ≤ entry.nValidity := by
  simp [isValid]

end BlockEntry

namespace ChainState

variable {tree : BlockTree}

/-! ### The order of the candidates -/

section

variable (tree : BlockTree) (st : ChainState) (pa pb : BlockAddr)

theorem worse_iff : st.worse tree pa pb = true ↔ st.rank tree pa < st.rank tree pb := by
  unfold rank worse
  rw [Prod.Lex.toLex_lt_toLex, Prod.Lex.toLex_lt_toLex, OrderDual.toDual_lt_toDual,
    OrderDual.toDual_lt_toDual, OrderDual.toDual_inj]
  split_ifs <;> grind

theorem not_worse_iff : (!st.worse tree pa pb) = true ↔ st.rank tree pb ≤ st.rank tree pa := by
  rw [Bool.not_eq_true', ← Bool.not_eq_true, worse_iff, not_lt]

end

theorem rank_lt_of_work (h : tree.nChainWork pa < tree.nChainWork pb) :
    st.rank tree pa < st.rank tree pb := by
  unfold rank
  rw [Prod.Lex.toLex_lt_toLex]
  exact .inl h

theorem work_le_of_rank (h : st.rank tree pa ≤ st.rank tree pb) :
    tree.nChainWork pa ≤ tree.nChainWork pb := by
  by_contra hlt
  exact absurd h (not_le.mpr (rank_lt_of_work (not_le.mp hlt)))

theorem rank_injective : Function.Injective (st.rank tree) := by
  intro pa pb h
  unfold rank at h
  simp only [EmbeddingLike.apply_eq_iff_eq, Prod.mk.injEq] at h
  exact h.2.2

theorem rank_congr (h : ∀ b, (st'.entry b).nSequenceId = (st.entry b).nSequenceId) :
    st'.rank tree = st.rank tree := by
  funext b
  simp only [rank, h b]

theorem work_lt_child {p : BlockAddr} (h : tree.parent b = some p) :
    tree.nChainWork p < tree.nChainWork b := by
  have hp := tree.proof_pos b
  rw [tree.work_child h]
  omega

theorem rank_le_of_mem_line (h : a ∈ tree.line b) : st.rank tree a ≤ st.rank tree b := by
  rcases eq_or_lt_of_mem_line (fun _ _ hpar => work_lt_child hpar) h with rfl | hlt
  · exact le_refl _
  · exact (rank_lt_of_work hlt).le

/-! ### The active chain -/

theorem contains_iff : st.contains tree b = true ↔ b ∈ tree.line st.tip := by
  unfold contains
  rw [beq_iff_eq, ancestor_eq_some_iff]
  exact ⟨fun h => h.1, fun h => ⟨h, rfl⟩⟩

section

variable (h : tree.Meets m st.tip fork path)

include h

theorem contains_path (hb : b ∈ path.reverse) : st.contains tree b = false := by
  rw [← Bool.not_eq_true, contains_iff]
  exact h.off b (mem_reverse.mp hb)

theorem contains_fork : st.contains tree fork = true := contains_iff.mpr h.mem

/-- From a block down to the active chain is the way up from the fork, reversed. -/
theorem offChain_eq : st.offChain tree m = path.reverse := by
  obtain ⟨below, hlt⟩ := line_eq_cons tree.toParentTree fork
  unfold offChain
  rw [h.line, takeWhile_append_of_pos (fun b hb => by rw [contains_path h hb]; rfl), hlt,
    takeWhile_cons_of_neg (by rw [contains_fork h]; decide), append_nil]

theorem find_contains : (tree.line m).find? (st.contains tree) = some fork := by
  obtain ⟨below, hlt⟩ := line_eq_cons tree.toParentTree fork
  have hn : path.reverse.find? (st.contains tree) = none := by
    rw [List.find?_eq_none]
    intro b hb
    rw [contains_path h hb]
    decide
  rw [h.line, List.find?_append, hn, hlt, List.find?_cons_of_pos (contains_fork h)]
  rfl

/-- The jump to the height of the active chain does not jump over the fork. -/
theorem findFork_eq : st.findFork tree m = some fork := by
  unfold findFork
  by_cases hhigh : tree.height m > tree.height st.tip
  · obtain ⟨b, hb⟩ := exists_ancestor (Nat.le_of_lt hhigh)
    obtain ⟨hmem, hht⟩ := ancestor_eq_some_iff.mp hb
    obtain ⟨fork', path', h'⟩ := exists_meets tree.toParentTree b st.tip
    have hdown : fork ∈ tree.line b := by
      rcases mem_line_total h.fork_mem hmem with hfork | hb'
      · exact hfork
      · have hle := height_le_of_mem_line h.mem
        rcases height_lt_of_mem_line hb' with rfl | hlt
        · exact self_mem_line b
        · omega
    have hs : fork' = fork := by
      have hup : fork' ∈ tree.line fork := h.mem_fork (line_trans hmem h'.fork_mem) h'.mem
      exact line_antisymm (h'.mem_fork hdown h.mem) hup
    rw [if_pos hhigh, hb, bind_some, find_contains h', hs]
  · rw [if_neg hhigh, bind_some, find_contains h]

end

/-! ### What activation leaves alone -/

structure Keeps (st st' : ChainState) : Prop where
  known : st'.mapBlockIndex = st.mapBlockIndex
  unlinked : st'.mapBlocksUnlinked = st.mapBlocksUnlinked
  entry : ∀ b, (st.entry b).Keeps (st'.entry b)

theorem Keeps.trans {st'' : ChainState} (h : st.Keeps st') (h' : st'.Keeps st'') : st.Keeps st'' :=
  ⟨h'.known.trans h.known, h'.unlinked.trans h.unlinked, fun b => (h.entry b).trans (h'.entry b)⟩

theorem entry_setEntry (st : ChainState) (b c : BlockAddr) (entry : BlockEntry) :
    (st.setEntry b entry).entry c = if c = b then entry else st.entry c :=
  Function.update_apply ..

theorem keeps_setEntry {entry : BlockEntry} (h : (st.entry b).Keeps entry) (c : BlockAddr) :
    (st.entry c).Keeps ((st.setEntry b entry).entry c) := by
  rw [entry_setEntry]
  split_ifs with hc
  · rw [hc]
    exact h
  · exact .refl _

theorem Keeps.rank (h : st.Keeps st') : st'.rank tree = st.rank tree :=
  rank_congr fun b => (h.entry b).nSequenceId

/-! ### Choosing the chain to work towards -/

section

variable (st)

/-- Some blocks marked as descendants of a failed one. -/
def flagChildren (above : List BlockAddr) : ChainState :=
  { st with
    entry := fun b =>
      if b ∈ above then { st.entry b with BLOCK_FAILED_CHILD := true } else st.entry b }

/-- Some blocks put back to wait for their parents. -/
def waitAgain (tree : BlockTree) (above : List BlockAddr) : ChainState :=
  { st with
    mapBlocksUnlinked := st.mapBlocksUnlinked ++
      above.filterMap fun b => (tree.parent b).map fun pprev => (pprev, b) }

def withoutCandidates (gone : List BlockAddr) : ChainState :=
  { st with setBlockIndexCandidates := st.setBlockIndexCandidates.filter (· ∉ gone) }

end

theorem foldl_dropFailed (tree : BlockTree) (fFailedChain : Bool) (above : List BlockAddr)
    (st : ChainState) :
    above.foldl (dropFailed tree fFailedChain) st = (if fFailedChain then st.flagChildren above
        else st.waitAgain tree above).withoutCandidates above := by
  induction above generalizing st with
  | nil => cases fFailedChain <;> simp [flagChildren, waitAgain, withoutCandidates]
  | cons b above ih =>
    rw [foldl_cons, ih]
    cases fFailedChain with
    | true =>
      simp only [dropFailed, eraseCandidate, setEntry, flagChildren, withoutCandidates, if_true,
        List.filter_filter, List.mem_cons, ChainState.mk.injEq, true_and, and_true]
      refine ⟨?_, ?_⟩
      · funext c
        by_cases hc : c = b <;> simp [hc]
      · exact List.filter_congr fun c _ => by simp [Bool.and_comm]
    | false =>
      simp only [dropFailed, eraseCandidate, waitAgain, withoutCandidates, List.filter_filter,
        Bool.false_eq_true, if_false]
      cases hpar : tree.parent b <;> simp [hpar, Bool.and_comm]

/-- What a round of `FindMostWorkChain` finds and does that does not end the loop. -/
structure Round (tree : BlockTree) (st st' : ChainState) (m test : BlockAddr)
    (above : List BlockAddr) : Prop where
  best : st.bestCandidate tree = some m
  line : ∃ below, tree.line m = above ++ test :: below
  unusable : st.usable test = false
  result : st' = (if (st.entry test).failed then st.flagChildren above
    else st.waitAgain tree above).withoutCandidates (above ++ [test])

namespace Round

variable {test : BlockAddr} {above : List BlockAddr} (h : Round tree st st' m test above)

include h

theorem best_mem : m ∈ st.setBlockIndexCandidates := argmax_mem h.best

theorem gone_mem_line (hb : b ∈ above ++ [test]) : b ∈ tree.line m := by
  obtain ⟨below, hline⟩ := h.line
  rw [hline, append_cons]
  exact mem_append_left _ hb

/-- All that goes is on top of the block that cannot be used. -/
theorem test_mem_line (hb : b ∈ above ++ [test]) : test ∈ tree.line b := by
  obtain ⟨below, hline⟩ := h.line
  have hp := line_pairwise tree.toParentTree m
  rcases mem_append.mp hb with ha | htest
  · rw [hline, pairwise_append] at hp
    exact hp.2.2 b ha test mem_cons_self
  · rw [mem_singleton.mp htest]
    exact self_mem_line test

theorem best_gone : m ∈ above ++ [test] := by
  obtain ⟨below, hline⟩ := h.line
  obtain ⟨below', hm⟩ := line_eq_cons tree.toParentTree m
  rw [hm] at hline
  cases above with
  | nil =>
    obtain ⟨rfl, -⟩ := List.cons.inj hline
    exact mem_singleton_self m
  | cons b above =>
    obtain ⟨rfl, -⟩ := List.cons.inj hline
    exact mem_cons_self

theorem candidates : st'.setBlockIndexCandidates =
    st.setBlockIndexCandidates.filter (· ∉ above ++ [test]) := by
  rw [h.result]
  split <;> rfl

theorem mem_candidates :
    b ∈ st'.setBlockIndexCandidates ↔ b ∈ st.setBlockIndexCandidates ∧ b ∉ above ++ [test] := by
  rw [h.candidates, mem_filter, decide_eq_true_eq]

theorem tip : st'.tip = st.tip := by
  rw [h.result]
  split <;> rfl

theorem known : st'.mapBlockIndex = st.mapBlockIndex := by
  rw [h.result]
  split <;> rfl

theorem failedValid (b : BlockAddr) :
    (st'.entry b).BLOCK_FAILED_VALID = (st.entry b).BLOCK_FAILED_VALID := by
  rw [h.result]
  split
  · simp only [withoutCandidates, flagChildren]
    split_ifs <;> rfl
  · rfl

/-- Only blocks above a failed one are marked. -/
theorem failedChild (b : BlockAddr) (hb : (st'.entry b).BLOCK_FAILED_CHILD = true) :
    (st.entry b).BLOCK_FAILED_CHILD = true ∨ b ∈ above ∧ (st.entry test).failed = true := by
  rw [h.result] at hb
  split at hb
  next hf =>
    simp only [withoutCandidates, flagChildren] at hb
    split_ifs at hb with ha
    · exact .inr ⟨ha, hf⟩
    · exact .inl hb
  · exact .inl hb

theorem unlinked {p : BlockAddr} (hb : (p, b) ∈ st'.mapBlocksUnlinked) :
    (p, b) ∈ st.mapBlocksUnlinked ∨ b ∈ above := by
  rw [h.result] at hb
  split at hb
  · exact .inl hb
  · refine (mem_append.mp hb).imp_right fun hnew => ?_
    obtain ⟨c, hc, hlink⟩ := mem_filterMap.mp hnew
    obtain ⟨q, -, heq⟩ := map_eq_some_iff.mp hlink
    obtain ⟨-, rfl⟩ := Prod.mk.inj heq
    exact hc

section

variable (hf : (st.entry test).failed = true)

include hf

theorem entry (b : BlockAddr) : st'.entry b =
    if b ∈ above then { st.entry b with BLOCK_FAILED_CHILD := true } else st.entry b := by
  rw [h.result, if_pos hf]
  rfl

theorem keeps : st.Keeps st' := by
  refine ⟨?_, ?_, fun b => ?_⟩
  · rw [h.result, if_pos hf]
    rfl
  · rw [h.result, if_pos hf]
    rfl
  · rw [h.entry hf]
    split_ifs
    · exact ⟨le_refl _, rfl, rfl, rfl, rfl⟩
    · exact .refl _

theorem failed_mono (b : BlockAddr) (hb : (st.entry b).failed = true) :
    (st'.entry b).failed = true := by
  rw [h.entry hf]
  split_ifs
  · exact Bool.or_true _
  · exact hb

theorem failed_of_failed (b : BlockAddr) (hb : (st'.entry b).failed = true) :
    (st.entry b).failed = true ∨ test ∈ tree.line b := by
  rw [h.entry hf] at hb
  split_ifs at hb with ha
  · exact .inr (h.test_mem_line (mem_append_left _ ha))
  · exact .inl hb

end

theorem length_lt : st'.setBlockIndexCandidates.length < st.setBlockIndexCandidates.length := by
  rw [h.candidates]
  refine length_filter_lt_length_iff_exists.mpr ⟨m, h.best_mem, ?_⟩
  rw [decide_eq_true_eq]
  exact not_not_intro h.best_gone

end Round

/-- A round finds no candidate, a candidate with a block below that is not linked, a candidate
to work towards, or one whose chain it drops. -/
theorem findLoop_cases (tree : BlockTree) (fuel : Nat) (st : ChainState) :
    st.bestCandidate tree = none ∧ st.findLoop tree (fuel + 1) = some (none, st) ∨
      ∃ m, st.bestCandidate tree = some m ∧
        ((∃ b ∈ tree.line m, (st.entry b).nChainTx = 0) ∧ st.findLoop tree (fuel + 1) = none ∨
          (∀ b ∈ st.offChain tree m, st.usable b = true) ∧
            st.findLoop tree (fuel + 1) = some (some m, st) ∨
          ∃ st' test above, Round tree st st' m test above ∧
            st.findLoop tree (fuel + 1) = st'.findLoop tree fuel) := by
  cases hbest : st.bestCandidate tree with
  | none =>
    refine .inl ⟨rfl, ?_⟩
    simp only [findLoop, hbest]
  | some m =>
    refine .inr ⟨m, rfl, ?_⟩
    have hs := takeWhile_append_dropWhile (p := st.usable) (l := st.offChain tree m)
    obtain ⟨below, hlt⟩ : st.offChain tree m <+: tree.line m := takeWhile_prefix _
    simp only [findLoop, hbest]
    split
    next hass =>
      refine .inl ⟨?_, rfl⟩
      have hmem : ∀ b ∈ (st.offChain tree m).takeWhile st.usable ++
          ((st.offChain tree m).dropWhile st.usable).take 1, b ∈ tree.line m := by
        intro b hb
        rw [← hlt, ← hs]
        refine mem_append_left _ ?_
        rcases mem_append.mp hb with ha | htest
        · exact List.mem_append_left _ ha
        · exact List.mem_append_right _ (List.mem_of_mem_take htest)
      simp only [Bool.not_eq_true', List.all_eq_false] at hass
      obtain ⟨b, hb, hfail⟩ := hass
      refine ⟨b, hmem b hb, ?_⟩
      grind
    next =>
      cases hdrop : (st.offChain tree m).dropWhile st.usable with
      | nil =>
        refine .inr (.inl ⟨?_, rfl⟩)
        exact dropWhile_eq_nil_iff.mp hdrop
      | cons test rest =>
        refine .inr (.inr ⟨_, test, (st.offChain tree m).takeWhile st.usable, ?_, rfl⟩)
        rw [hdrop] at hs
        refine ⟨hbest, ⟨rest ++ below, ?_⟩, ?_, ?_⟩
        · rw [← hlt]
          nth_rewrite 1 [← hs]
          rw [append_assoc]
          rfl
        · have hhead := List.head?_dropWhile_not st.usable (st.offChain tree m)
          rw [hdrop] at hhead
          simpa using hhead
        · rw [foldl_dropFailed]
          simp [withoutCandidates, eraseCandidate, Bool.and_comm]

/-- What every round keeps holds in the end, and the result is a candidate to work towards. -/
theorem findLoop_rule {P : ChainState → Prop}
    (hr : ∀ st st' m test above, P st → Round tree st st' m test above → P st')
    {result : Option BlockAddr} (hP : P st) (h : st.findLoop tree fuel = some (result, st')) :
    P st' ∧ st'.bestCandidate tree = result ∧
      ∀ m, result = some m → ∀ b ∈ st'.offChain tree m, st'.usable b = true := by
  induction fuel generalizing st with
  | zero => cases h
  | succ fuel ih =>
    rcases findLoop_cases tree fuel st with ⟨hbest, hn⟩ | ⟨m, hbest, ⟨-, ha⟩ |
      ⟨hu, hsome⟩ | ⟨next, test, above, hnext, heq⟩⟩
    · obtain ⟨rfl, rfl⟩ : none = result ∧ st = st' := by simpa using hn.symm.trans h
      exact ⟨hP, hbest, nofun⟩
    · cases ha.symm.trans h
    · obtain ⟨rfl, rfl⟩ : some m = result ∧ st = st' := by simpa using hsome.symm.trans h
      refine ⟨hP, hbest, ?_⟩
      rintro m' ⟨⟩
      exact hu
    · exact ih (hr _ _ _ _ _ hP hnext) (heq ▸ h)

/-- Every round removes the best candidate. -/
theorem findLoop_returns {P : ChainState → Prop}
    (hr : ∀ st st' m test above, P st → Round tree st st' m test above → P st')
    (hlink : ∀ st, P st → ∀ m ∈ st.setBlockIndexCandidates, ∀ b ∈ tree.line m,
      (st.entry b).nChainTx ≠ 0) (hP : P st) (hfuel : st.setBlockIndexCandidates.length < fuel) :
    ∃ result, st.findLoop tree fuel = some result := by
  induction fuel generalizing st with
  | zero => omega
  | succ fuel ih =>
    rcases findLoop_cases tree fuel st with ⟨hbest, hn⟩ | ⟨m, hbest, ⟨ha, -⟩ |
      ⟨hu, hsome⟩ | ⟨next, test, above, hnext, heq⟩⟩
    · exact ⟨_, hn⟩
    · obtain ⟨b, hb, hzero⟩ := ha
      exact absurd hzero (hlink st hP m (argmax_mem hbest) b hb)
    · exact ⟨_, hsome⟩
    · rw [heq]
      refine ih (hr _ _ _ _ _ hP hnext) ?_
      have hlt := hnext.length_lt
      omega

/-! ### Working towards it -/

theorem disconnectTo_eq (hfork : fork ∈ tree.line st.tip)
    (hfuel : tree.height st.tip ≤ fuel + tree.height fork) :
    st.disconnectTo tree fork fuel = some { st with tip := fork } := by
  induction fuel generalizing st with
  | zero =>
    rcases height_lt_of_mem_line hfork with heq | hlt
    · simp [disconnectTo, heq]
    · omega
  | succ fuel ih =>
    by_cases htip : st.tip = fork
    · simp [disconnectTo, ← htip]
    · have hne : st.tip ≠ tree.root := by
        intro hroot
        rw [hroot, line_root, mem_singleton] at hfork
        exact htip (hroot.trans hfork.symm)
      obtain ⟨p, hpar⟩ := exists_parent hne
      have hht := tree.height_child hpar
      have hb := mem_line_parent hpar hfork (Ne.symm htip)
      have hr := @ih { st with tip := p } hb (by simp only; omega)
      simpa [disconnectTo, disconnectTip, htip, hpar] using hr

section

variable {verdict : BlockAddr → Bool} {pindexOldTip : BlockAddr}

theorem connectBlocks_append (first rest : List BlockAddr) (st : ChainState) :
    st.connectBlocks tree verdict pindexOldTip (first ++ rest) =
      (st.connectBlocks tree verdict pindexOldTip first).bind fun
        | (st', false) => some (st', false)
        | (st', true) => st'.connectBlocks tree verdict pindexOldTip rest := by
  induction first generalizing st with
  | nil => rfl
  | cons b first ih =>
    simp only [cons_append, connectBlocks]
    split
    · rfl
    · split
      · rfl
      · cases (st.connectTip b).pruneBlockIndexCandidates tree with
        | none => rfl
        | some next =>
          dsimp only
          split
          · rfl
          · exact ih next

theorem vpindexToConnect_eq {first rest : List BlockAddr} (h : tree.Climbs a (first ++ rest)) :
    vpindexToConnect tree ((first ++ rest).getLastD a) (tree.height a)
      (tree.height a + first.length) = first := by
  obtain ⟨hfst, hr⟩ := h.append
  have hmem : first.getLastD a ∈ tree.line ((first ++ rest).getLastD a) := by
    rw [getLastD_append]
    exact hr.start_mem_line
  have hline : ((tree.line (first.getLastD a)).takeWhile fun b => tree.height b ≠ tree.height a) =
      first.reverse := by
    obtain ⟨below, hbe⟩ := line_eq_cons tree.toParentTree a
    rw [hfst.line_last, takeWhile_append_of_pos, hbe, takeWhile_cons_of_neg]
    · exact append_nil _
    · simp
    · intro b hb
      have hlt := hfst.height_lt (mem_reverse.mp hb)
      simp; omega
  simp only [vpindexToConnect, ancestor_eq_some_iff.mpr ⟨hmem, hfst.height_last⟩, hline,
    reverse_reverse]

/-- The size of the batches does not matter. -/
theorem connectBatches_eq (h : tree.Climbs a path) (hfuel : path.length < fuel) (st : ChainState) :
    st.connectBatches tree verdict pindexOldTip (path.getLastD a) fuel (tree.height a) =
      (st.connectBlocks tree verdict pindexOldTip path).map Prod.fst := by
  induction fuel generalizing a path st with
  | zero => omega
  | succ fuel ih =>
    have hht := h.height_last
    unfold connectBatches
    by_cases hdone : tree.height a = tree.height (path.getLastD a)
    · obtain rfl : path = [] := eq_nil_of_length_eq_zero (by omega)
      rw [if_pos hdone]
      rfl
    · obtain ⟨first, rest, rfl, hlen⟩ : ∃ first rest, path = first ++ rest ∧
          first.length = min 32 path.length :=
        ⟨path.take 32, path.drop 32, (take_append_drop 32 path).symm, length_take⟩
      have htgt : min (tree.height a + 32) (tree.height ((first ++ rest).getLastD a)) =
          tree.height a + first.length := by
        omega
      obtain ⟨hfst, hr⟩ := h.append
      rw [if_neg hdone, htgt]
      dsimp only
      rw [vpindexToConnect_eq h, connectBlocks_append]
      rcases st.connectBlocks tree verdict pindexOldTip first with - | ⟨next, _ | _⟩
      · rfl
      · rfl
      · rw [length_append] at hfuel hht hlen
        have hnext := ih hr (by omega) next
        rw [← getLastD_append, hfst.height_last] at hnext
        exact hnext

theorem activateBestChainStep_eq (h : tree.Meets m st.tip fork path) :
    st.activateBestChainStep tree verdict m =
      (({ st with tip := fork } : ChainState).connectBlocks tree verdict st.tip path).map
        Prod.fst := by
  have hht := h.climbs.height_last
  have hfuel : path.length < tree.height m + 1 := by
    rw [h.last] at hht
    omega
  rw [← connectBatches_eq h.climbs hfuel, h.last]
  unfold activateBestChainStep
  rw [findFork_eq h]
  simp only [bind_eq_bind, bind_some, disconnectTo_eq h.mem (Nat.le_add_right _ _)]

/-- Some blocks were connected, and then perhaps one was refused. -/
structure Advances (tree : BlockTree) (verdict : BlockAddr → Bool) (st st' : ChainState)
    (connected : List BlockAddr) (refused : Option BlockAddr) : Prop where
  keeps : st.Keeps st'
  tip : st'.tip = connected.getLastD st.tip
  valid : ∀ b ∈ connected, verdict b = true
  invalid : ∀ b, refused = some b → verdict b = false
  failedChild : ∀ b, (st'.entry b).BLOCK_FAILED_CHILD = (st.entry b).BLOCK_FAILED_CHILD
  failedValid : ∀ b, (st'.entry b).BLOCK_FAILED_VALID = true ↔
    (st.entry b).BLOCK_FAILED_VALID = true ∨ refused = some b
  candidates : ∀ b, b ∈ st'.setBlockIndexCandidates ↔ b ∈ st.setBlockIndexCandidates ∧
    (∀ c ∈ connected, st.rank tree c ≤ st.rank tree b) ∧ refused ≠ some b

theorem Advances.refl (tree : BlockTree) (verdict : BlockAddr → Bool) (st : ChainState) :
    Advances tree verdict st st [] none where
  keeps := ⟨rfl, rfl, fun b => .refl _⟩
  tip := rfl
  valid := nofun
  invalid := nofun
  failedChild := fun b => rfl
  failedValid := by simp
  candidates := by simp

theorem Advances.failed_mono (h : Advances tree verdict st st' connected refused) (b : BlockAddr)
    (hb : (st.entry b).failed = true) : (st'.entry b).failed = true := by
  have hval := h.failedValid b
  have hc := h.failedChild b
  grind [BlockEntry.failed]

theorem Advances.failed_of_failed (h : Advances tree verdict st st' connected refused)
    (b : BlockAddr) (hb : (st'.entry b).failed = true) :
    (st.entry b).failed = true ∨ refused = some b := by
  have hval := h.failedValid b
  have hc := h.failedChild b
  grind [BlockEntry.failed]

theorem Advances.cons (h : Advances tree verdict st next [b] none)
    (h' : Advances tree verdict next st' connected refused) :
    Advances tree verdict st st' (b :: connected) refused where
  keeps := h.keeps.trans h'.keeps
  tip := by rw [h'.tip, h.tip, getLastD_cons, getLastD_cons, getLastD_nil]
  valid := by
    intro c hc
    rcases mem_cons.mp hc with rfl | hr
    · exact h.valid c (mem_singleton_self c)
    · exact h'.valid c hr
  invalid := h'.invalid
  failedChild := fun c => (h'.failedChild c).trans (h.failedChild c)
  failedValid := by
    intro c
    rw [h'.failedValid, h.failedValid]
    simp
  candidates := by
    intro c
    rw [h'.candidates, h.candidates, h.keeps.rank]
    simp [and_assoc]

theorem advances_invalidBlockFound (hb : verdict b = false) :
    Advances tree verdict st (st.invalidBlockFound b) [] (some b) where
  keeps := ⟨rfl, rfl, keeps_setEntry ⟨le_refl _, rfl, rfl, rfl, rfl⟩⟩
  tip := rfl
  valid := nofun
  invalid := by
    rintro c ⟨⟩
    exact hb
  failedChild := by
    intro c
    by_cases hc : c = b <;> simp [invalidBlockFound, eraseCandidate, entry_setEntry, hc]
  failedValid := by
    intro c
    rw [some_inj, eq_comm (a := b)]
    by_cases hc : c = b <;> simp [invalidBlockFound, eraseCandidate, entry_setEntry, hc]
  candidates := by
    intro c
    rw [ne_eq, some_inj, eq_comm (a := b)]
    simp [invalidBlockFound, eraseCandidate, setEntry]

theorem advances_connectTip (hb : verdict b = true)
    (h : (st.connectTip b).pruneBlockIndexCandidates tree = some next) :
    Advances tree verdict st next [b] none := by
  have hkeep := keeps_setEntry (BlockEntry.keeps_raiseValidity (st.entry b) BLOCK_VALID_SCRIPTS)
  have hrank : (st.connectTip b).rank tree = st.rank tree :=
    rank_congr fun c => (hkeep c).nSequenceId
  unfold pruneBlockIndexCandidates at h
  dsimp only at h
  split at h
  · cases h
  · cases h
    refine ⟨⟨rfl, rfl, hkeep⟩, rfl, ?_, nofun, ?_, ?_, ?_⟩
    · intro c hc
      rw [mem_singleton.mp hc]
      exact hb
    · intro c
      by_cases hc : c = b <;>
        simp [connectTip, entry_setEntry, hc, BlockEntry.failedChild_raiseValidity]
    · intro c
      by_cases hc : c = b <;>
        simp [connectTip, entry_setEntry, hc, BlockEntry.failedValid_raiseValidity]
    · intro c
      rw [mem_filter, not_worse_iff, hrank]
      simp [connectTip, setEntry]

/-- A candidate that is not worse than the block survives. -/
theorem exists_prune_connectTip (hm : m ∈ st.setBlockIndexCandidates)
    (hrank : st.rank tree b ≤ st.rank tree m) :
    ∃ next, (st.connectTip b).pruneBlockIndexCandidates tree = some next := by
  have hs : (st.connectTip b).rank tree = st.rank tree :=
    rank_congr fun c => (keeps_setEntry (BlockEntry.keeps_raiseValidity ..) c).nSequenceId
  have hmem : m ∈ (st.connectTip b).setBlockIndexCandidates.filter
      fun c => !(st.connectTip b).worse tree c (st.connectTip b).tip := by
    rw [List.mem_filter, not_worse_iff, hs]
    exact ⟨hm, hrank⟩
  unfold pruneBlockIndexCandidates
  rw [if_neg (by rw [List.isEmpty_iff]; exact List.ne_nil_of_mem hmem)]
  exact ⟨_, rfl⟩

/-- Connecting ends with the path, after the old tip was passed, or with a block refused. -/
theorem connectBlocks_spec {fContinue : Bool}
    (h : st.connectBlocks tree verdict pindexOldTip path = some (st', fContinue)) :
    ∃ connected rest refused, path = connected ++ rest ∧
      Advances tree verdict st st' connected refused ∧
      (∀ b, refused = some b → rest.head? = some b) ∧
      (rest = [] ∨ tree.nChainWork pindexOldTip < tree.nChainWork st'.tip ∨
        ∃ b, refused = some b) := by
  revert h
  fun_induction connectBlocks tree verdict pindexOldTip path st with
  | case1 st =>
    rintro ⟨⟩
    exact ⟨[], [], none, rfl, .refl tree verdict _, nofun, .inl rfl⟩
  | case2 => nofun
  | case3 b path st _ hver =>
    rintro ⟨⟩
    exact ⟨[], b :: path, some b, rfl, advances_invalidBlockFound (by simpa using hver),
      fun c hc => hc, .inr (.inr ⟨b, rfl⟩)⟩
  | case4 => nofun
  | case5 b path st _ hver next hnext hwork =>
    rintro ⟨⟩
    exact ⟨[b], path, none, rfl, advances_connectTip (by simpa using hver) hnext, nofun,
      .inr (.inl hwork)⟩
  | case6 b path st _ hver next hnext _ ih =>
    intro h
    obtain ⟨connected, rest, refused, rfl, hr, hend⟩ := ih h
    exact ⟨b :: connected, rest, refused, rfl,
      (advances_connectTip (by simpa using hver) hnext).cons hr, hend⟩

/-- With the end of the path among the candidates, the assertions hold. -/
theorem connectBlocks_returns (h : tree.Climbs st.tip path)
    (hl : path.getLastD st.tip ∈ st.setBlockIndexCandidates) :
    ∃ result, st.connectBlocks tree verdict pindexOldTip path = some result := by
  induction path generalizing st with
  | nil => exact ⟨_, rfl⟩
  | cons b path ih =>
    obtain ⟨hpar, hcl⟩ := h
    rw [getLastD_cons] at hl
    unfold connectBlocks
    rw [if_neg (not_not_intro hpar)]
    cases hver : verdict b with
    | false => exact ⟨_, rfl⟩
    | true =>
      have hbest : st.rank tree b ≤ st.rank tree (path.getLastD b) :=
        rank_le_of_mem_line hcl.start_mem_line
      obtain ⟨next, hnext⟩ := exists_prune_connectTip hl hbest
      have hstep := advances_connectTip hver hnext
      simp only [Bool.not_true, Bool.false_eq_true, if_false, hnext]
      split
      · exact ⟨_, rfl⟩
      · have htip : next.tip = b := hstep.tip
        refine ih ?_ ?_
        · rw [htip]
          exact hcl
        · rw [htip, hstep.candidates]
          refine ⟨hl, ?_, nofun⟩
          intro c hc
          rw [mem_singleton.mp hc]
          exact hbest

end

end ChainState

/-! ### A tree to run it on -/

theorem log2_parent (b : Nat) (hb : b ≠ 0) : (b + 1).log2 = ((b - 1) / 2 + 1).log2 + 1 := by
  have hhalf : (b + 1) / 2 = (b - 1) / 2 + 1 := by omega
  rw [Nat.log2_def, if_pos (by omega), hhalf]

/-- Block `b` has the children `2 b + 1` and `2 b + 2`, and every block one unit of work. -/
def binaryTree : BlockTree where
  root := 0
  parent b := if b = 0 then none else some ((b - 1) / 2)
  height b := (b + 1).log2
  parent_root := rfl
  eq_root := by
    intro b hb
    by_contra hne
    rw [if_neg hne] at hb
    cases hb
  height_root := by decide
  height_child := by
    intro b p hpar
    split_ifs at hpar with hroot
    cases hpar
    exact log2_parent b hroot
  getBlockProof _ := 1
  nChainWork b := (b + 1).log2 + 1
  vtxSize _ := 1
  proof_pos _ := Nat.one_pos
  work_root := by decide
  work_child := by
    intro b p hpar
    split_ifs at hpar with hroot
    cases hpar
    exact congrArg (· + 1) (log2_parent b hroot)
  vtxSize_pos _ := Nat.one_pos
  vtxSize_root := rfl

end Divi
