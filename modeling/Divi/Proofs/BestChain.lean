/-
Activation ends at the best chain.

Every linked block without a failure flag that is not worse than a reference is a candidate.
Between calls the reference is the tip.  During activation the tip may fall behind it when a
block does not connect, and the loop goes on until it has caught up.  As the reference is not
above a barred block, activation ends with the best of all blocks that are not.
-/
import Divi.Proofs.Activation
import Divi.Proofs.ManualValidity

namespace Divi

open ChainEvent List Option ParentTree

variable {b : BlockAddr} {fuel : Nat}
  {tree : BlockTree} {late : Prop} {verdict : BlockAddr → Bool}
  {bar : BlockAddr → Prop} {ref : BlockAddr} {queue : List BlockAddr} {st st' : ChainState}
  {events : List ChainEvent}

namespace ChainState

/-- The candidates against a reference, given which blocks are barred. -/
structure Ready (tree : BlockTree) (verdict : BlockAddr → Bool) (bar : BlockAddr → Prop)
    (ref : BlockAddr) (st : ChainState) : Prop extends Sound tree verdict bar st where
  complete : ∀ b, (st.entry b).nChainTx ≠ 0 → (st.entry b).failed = false →
    st.rank tree ref ≤ st.rank tree b → b ∈ st.setBlockIndexCandidates
  ref_linked : (st.entry ref).nChainTx ≠ 0
  ref_clear : Clear tree bar ref
  tip_le : st.rank tree st.tip ≤ st.rank tree ref

namespace Ready

section

variable (h : Ready tree verdict bar ref st)

include h

theorem ref_mem : ref ∈ st.setBlockIndexCandidates :=
  h.complete ref h.ref_linked (h.not_failed h.ref_clear) (le_refl _)

/-- The best candidate is the best of all linked blocks without a flag. -/
theorem le_best {m : BlockAddr} (hbest : st.bestCandidate tree = some m)
    (hlink : (st.entry b).nChainTx ≠ 0) (hval : (st.entry b).failed = false) :
    st.rank tree b ≤ st.rank tree m := by
  rcases le_total (st.rank tree ref) (st.rank tree b) with hle | hle
  · exact le_of_mem_argmax (h.complete b hlink hval hle) hbest
  · exact hle.trans (le_of_mem_argmax h.ref_mem hbest)

/-- The reference may go up, if the candidates that are not worse stay. -/
theorem move {ref' : BlockAddr} (hs : Sound tree verdict bar st') (hkeep : st.Keeps st')
    (hmono : ∀ b, (st.entry b).failed = true → (st'.entry b).failed = true)
    (hc : ∀ b ∈ st.setBlockIndexCandidates, (st'.entry b).failed = false →
      st.rank tree ref' ≤ st.rank tree b → b ∈ st'.setBlockIndexCandidates)
    (href : (st.entry ref').nChainTx ≠ 0) (hrefClear : Clear tree bar ref')
    (hle : st.rank tree ref ≤ st.rank tree ref')
    (htipLe : st.rank tree st'.tip ≤ st.rank tree ref') :
    Ready tree verdict bar ref' st' := by
  refine ⟨hs, fun b hlink hval hrank => ?_, ?_, hrefClear, ?_⟩
  · rw [(hkeep.entry b).nChainTx] at hlink
    rw [hkeep.rank] at hrank
    have hpre : (st.entry b).failed = false := by
      rw [← Bool.not_eq_true]
      intro hfail
      rw [hmono b hfail] at hval
      cases hval
    exact hc b (h.complete b hlink hpre (hle.trans hrank)) hval hrank
  · rw [(hkeep.entry _).nChainTx]
    exact href
  · rw [hkeep.rank]
    exact htipLe

/-- Whatever a round drops has a flag after it. -/
theorem round {m test : BlockAddr} {above : List BlockAddr}
    (hs : Sound tree verdict bar st') (hr : Round tree st st' m test above)
    (hfail : (st.entry test).failed = true) : Ready tree verdict bar ref st' := by
  have hmono := hr.failed_mono hfail
  refine h.move hs (hr.keeps hfail) hmono ?_ h.ref_linked h.ref_clear (le_refl _) ?_
  · intro b hb hval _
    refine hr.mem_candidates.mpr ⟨hb, fun hgone => ?_⟩
    rcases mem_append.mp hgone with ha | htest
    · rw [hr.entry hfail, if_pos ha] at hval
      simp [BlockEntry.failed] at hval
    · rw [mem_singleton.mp htest, hmono test hfail] at hval
      cases hval
  · rw [hr.tip]
    exact h.tip_le

/-- Unless the tip passes the reference, it stays. -/
theorem step {m fork : BlockAddr} {connected rest : List BlockAddr}
    {refused : Option BlockAddr} (hs : Sound tree verdict bar st')
    (hstep : Step tree verdict st st' m fork connected rest refused) :
    ∃ ref', Ready tree verdict bar ref' st' := by
  have htip := hs.tip_linked
  rw [(hstep.keeps.entry _).nChainTx] at htip
  obtain ⟨ref', hca, hle, htipLe⟩ : ∃ ref', (ref' = ref ∨ ref' = st'.tip) ∧
      st.rank tree ref ≤ st.rank tree ref' ∧ st.rank tree st'.tip ≤ st.rank tree ref' := by
    rcases le_total (st.rank tree st'.tip) (st.rank tree ref) with hle | hle
    · exact ⟨ref, .inl rfl, le_refl _, hle⟩
    · exact ⟨st'.tip, .inr rfl, hle, le_refl _⟩
  refine ⟨ref', h.move hs hstep.keeps hstep.advances.failed_mono ?_ ?_ ?_ hle htipLe⟩
  · intro b hb hval hrank
    refine hstep.candidates_iff.mpr ⟨hb, fun c hc => ?_, fun hnew => ?_⟩
    · exact (hstep.connected_le_tip hc).trans (htipLe.trans hrank)
    · have hf := (hstep.advances.failedValid b).mpr (.inr hnew)
      simp [BlockEntry.failed, hf] at hval
  · rcases hca with rfl | rfl
    · exact h.ref_linked
    · exact htip
  · rcases hca with rfl | rfl
    · exact h.ref_clear
    · exact hs.tip_clear

/-- When activation returns, the tip is the best candidate, and the reference again. -/
theorem activateBestChain (hlink : Linked tree late [] st)
    (hact : st.activateBestChain tree verdict fuel = some st') :
    Follows tree late verdict bar st st' ∧ Ready tree verdict bar st'.tip st' ∧
      st'.bestCandidate tree = some st'.tip := by
  have hro : ∀ next st' m test above, Follows tree late verdict bar st next →
      (∃ ref, Ready tree verdict bar ref next) → Round tree next st' m test above →
      (next.entry test).failed = true → ∃ ref, Ready tree verdict bar ref st' := by
    rintro next st' m test above hfol ⟨ref, hr⟩ hro hfail
    exact ⟨ref, hr.round (hfol.round hro).sound hro hfail⟩
  have hstep : ∀ next st' m fork connected rest refused, Follows tree late verdict bar st next →
      (∃ ref, Ready tree verdict bar ref next) →
      Step tree verdict next st' m fork connected rest refused →
      ∃ ref, Ready tree verdict bar ref st' := by
    rintro next st' m fork connected rest refused hfol ⟨ref, hr⟩ hstep
    exact hr.step (hfol.step hstep).sound hstep
  obtain ⟨hfol, ⟨ref', hr⟩, hend⟩ :=
    activateBestChain_follows hro hstep hlink h.toSound ⟨ref, h⟩ hact
  have hmem := hr.ref_mem
  have hbest : st'.bestCandidate tree = some st'.tip := by
    refine hend.resolve_left fun hn => ?_
    rw [argmax_eq_none.mp hn] at hmem
    cases hmem
  have href : ref' = st'.tip :=
    rank_injective ((le_of_mem_argmax hmem hbest).antisymm hr.tip_le)
  rw [href] at hr
  exact ⟨hfol, hr, hbest⟩

end

end Ready

/-- Between calls the reference is the tip. -/
theorem Sound.ready (h : Sound tree verdict bar st)
    (hc : ∀ b, (st.entry b).nChainTx ≠ 0 → (st.entry b).failed = false →
      st.rank tree st.tip ≤ st.rank tree b → b ∈ st.setBlockIndexCandidates) :
    Ready tree verdict bar st.tip st :=
  ⟨h, hc, h.tip_linked, h.tip_clear, le_refl _⟩

/-! ### Arrival of headers and blocks -/

section

variable (h : Ready tree verdict bar st.tip st)

include h

/-- The entry of a block that is not linked may change. -/
theorem Ready.arrive (hc : st'.setBlockIndexCandidates = st.setBlockIndexCandidates)
    (htip : st'.tip = st.tip) (hk : ∀ b ∈ st.mapBlockIndex, b ∈ st'.mapBlockIndex)
    (hfail : ∀ b ∈ st.mapBlockIndex, (st'.entry b).failed = (st.entry b).failed)
    (hf : ∀ b, (st'.entry b).failed = true → (st.entry b).failed = true)
    (ho : ∀ b, (st'.entry b).nChainTx ≠ 0 ∨ (st.entry b).nChainTx ≠ 0 →
      st'.entry b = st.entry b) : Ready tree verdict bar st'.tip st' := by
  have hrank : ∀ b, (st.entry b).nChainTx ≠ 0 → st'.rank tree b = st.rank tree b := by
    intro b hb
    simp only [rank, ho b (.inr hb)]
  have htipRank := hrank _ h.tip_linked
  refine Sound.ready ⟨?_, ?_, ?_, ?_, ?_, ?_, ?_⟩ ?_
  · exact h.bar_invalid
  · intro b hb
    refine (h.bar_cases b hb).imp_right fun hold => ⟨?_, hk b hold.2⟩
    rw [hfail b hold.2]
    exact hold.1
  · intro b hb
    exact h.failed_bar b (hf b hb)
  · rw [hc]
    intro b hb
    have hlink := h.candidate_linked b hb
    rw [ho b (.inr hlink)]
    exact hlink
  · rw [hc, htip]
    intro b hb
    rw [htipRank, hrank b (h.candidate_linked b hb)]
    exact h.candidate_above b hb
  · rw [htip, ho _ (.inr h.tip_linked)]
    exact h.tip_linked
  · rw [htip]
    exact h.tip_clear
  · rw [hc, htip]
    intro b hlink hval hle
    have hs := ho b (.inl hlink)
    rw [hs] at hlink hval
    rw [htipRank, hrank b hlink] at hle
    exact h.complete b hlink hval hle

theorem Ready.addToBlockIndex (hlink : Linked tree late queue st) (hnew : b ∉ st.mapBlockIndex) :
    Ready tree verdict bar (st.addToBlockIndex b).tip (st.addToBlockIndex b) := by
  have he := entry_addToBlockIndex st b
  have hzero : (st.entry b).nChainTx = 0 := by
    by_contra hne
    exact hnew (hlink.data_known b (hlink.linked_data b hne))
  refine h.arrive rfl rfl (fun c hc => mem_append_left _ hc) ?_ ?_ ?_
  · grind
  · grind [BlockEntry.failed]
  · grind

theorem Ready.receives (hlink : Linked tree late queue st)
    (hdata : (st.entry b).BLOCK_HAVE_DATA = false) (hrecv : Receives tree st st' b) :
    Ready tree verdict bar st'.tip st' := by
  have hzero : (st.entry b).nChainTx = 0 := by
    by_contra hne
    rw [hlink.linked_data b hne] at hdata
    cases hdata
  refine h.arrive hrecv.candidates hrecv.tip ?_ ?_ ?_ ?_
  · rw [hrecv.known]
    exact fun c hc => hc
  · exact fun c _ => hrecv.failed c
  · intro c hc
    rw [← hrecv.failed c]
    exact hc
  · have := hrecv.of_ne
    have := hrecv.nChainTx
    grind

/-- Linking a block makes it a candidate where it has to be one. -/
theorem Ready.linkBlock (hlink : Linked tree late (b :: queue) st) (hl : Links tree st st' b)
    :
    Ready tree verdict bar st'.tip st' := by
  obtain ⟨hdata, hzero, -⟩ := hlink.queued b mem_cons_self
  have hself := (hlink.nChainTx_self hl).2
  have hne : ∀ c, (st.entry c).nChainTx ≠ 0 → c ≠ b := by
    rintro c hc rfl
    exact hc hzero
  have hrank : ∀ c, c ≠ b → st'.rank tree c = st.rank tree c := by
    intro c hc
    simp only [rank, hl.of_ne hc]
  have htip := hne _ h.tip_linked
  refine Sound.ready ⟨?_, ?_, ?_, ?_, ?_, ?_, ?_⟩ ?_
  · exact h.bar_invalid
  · intro c hc
    rw [hl.failed, hl.known]
    exact h.bar_cases c hc
  · intro c hc
    rw [hl.failed] at hc
    exact h.failed_bar c hc
  · intro c hc
    rcases (hl.candidates c).mp hc with hold | ⟨rfl, -⟩
    · have hch := h.candidate_linked c hold
      rw [hl.of_ne (hne c hch)]
      exact hch
    · exact hself
  · intro c hc
    rw [hl.tip]
    rcases (hl.candidates c).mp hc with hold | ⟨rfl, hle⟩
    · rw [hrank _ htip, hrank c (hne c (h.candidate_linked c hold))]
      exact h.candidate_above c hold
    · exact hle
  · rw [hl.tip, hl.of_ne htip]
    exact h.tip_linked
  · rw [hl.tip]
    exact h.tip_clear
  · intro c hch hval hle
    rw [hl.tip] at hle
    by_cases hc : c = b
    · subst hc
      exact (hl.candidates c).mpr (.inr ⟨rfl, hle⟩)
    · rw [hrank _ htip, hrank c hc] at hle
      rw [hl.of_ne hc] at hch hval
      exact (hl.candidates c).mpr (.inl (h.complete c hch hval hle))

end

theorem Ready.takeUnlinked (h : Ready tree verdict bar ref st) :
    Ready tree verdict bar ref (st.takeUnlinked b).2 :=
  ⟨⟨h.bar_invalid, h.bar_cases, h.failed_bar, h.candidate_linked, h.candidate_above,
    h.tip_linked, h.tip_clear⟩, h.complete, h.ref_linked, h.ref_clear, h.tip_le⟩

/-- What holds between the events. -/
structure Settled (tree : BlockTree) (late : Prop) (verdict : BlockAddr → Bool)
    (bar : BlockAddr → Prop) (st : ChainState) : Prop where
  linked : Linked tree late [] st
  ready : Ready tree verdict bar st.tip st

theorem Settled.acceptBlockHeader (h : Settled tree late verdict bar st)
    (hacc : st.acceptBlockHeader tree b = some st') : Settled tree late verdict bar st' := by
  rcases acceptBlockHeader_eq_some hacc with ⟨-, -, rfl⟩ | ⟨hnew, p, hpar, hp, -, rfl⟩
  · exact h
  · exact ⟨h.linked.addToBlockIndex hnew hpar hp, h.ready.addToBlockIndex h.linked hnew⟩

theorem Settled.processQueue (hlink : Linked tree late queue st)
    (hr : Ready tree verdict bar st.tip st) (h : st.processQueue tree fuel queue = some st') :
    Settled tree late verdict bar st' := by
  have hend : Linked tree late [] st' ∧ Ready tree verdict bar st'.tip st' := by
    refine processQueue_rule (P := fun queue st => Linked tree late queue st ∧
      Ready tree verdict bar st.tip st) ?_ ⟨hlink, hr⟩ h
    rintro b queue st st' ⟨hlink, hr⟩ hl
    exact ⟨hlink.linkBlock hl, (hr.linkBlock hlink hl).takeUnlinked⟩
  exact ⟨hend.1, hend.2⟩

theorem Settled.receivedBlockTransactions (h : Settled tree late verdict bar st)
    (hk : b ∈ st.mapBlockIndex) (hdata : (st.entry b).BLOCK_HAVE_DATA = false)
    (hlate : late ∨ (st.entry b).failed = false ∧
      ∀ p, tree.parent b = some p → (st.entry p).failed = false)
    (hcnt : tree.txCount b % 2 ^ 32 ≠ 0)
    (hre : st.receivedBlockTransactions tree b = some st') :
    Settled tree late verdict bar st' := by
  have hroot : b ≠ tree.root := by
    rintro rfl
    rw [h.linked.linked_data _ h.linked.root] at hdata
    cases hdata
  obtain ⟨next, hrecv, hca⟩ := receivedBlockTransactions_cases hre
  have hr := h.ready.receives h.linked hdata hrecv
  have hself := hlate.imp_right And.left
  rcases hca with ⟨hc, hs, fuel, hq⟩ |
    ⟨p, hpar, ⟨hzero, hs, rfl⟩ | ⟨hval, hs, rfl⟩⟩
  · obtain ⟨p, hpar⟩ := exists_parent hroot
    exact .processQueue (h.linked.receives hrecv hpar hk hdata hself hcnt
      (.inl ⟨rfl, hc p hpar, hs⟩)) hr hq
  · exact ⟨h.linked.receives hrecv hpar hk hdata hself hcnt
      (.inr (.inl ⟨rfl, hzero, hs⟩)), hr⟩
  · have hfail : (st.entry p).failed = true := by
      have htree := h.linked.known_tree p (h.linked.parent_known b p hk hpar)
      have hne : p ≠ b := by
        rintro rfl
        exact self_notMem_line_parent hpar (self_mem_line p)
      rw [hrecv.of_ne p hne] at hval
      simp only [BlockEntry.isValid, Bool.and_eq_false_iff, Bool.not_eq_false',
        decide_eq_false_iff_not] at hval
      exact hval.resolve_right (not_not_intro htree)
    refine ⟨h.linked.receives hrecv hpar hk hdata hself hcnt
      (.inr (.inr ⟨rfl, ⟨?_, ?_⟩, hs⟩)), hr⟩
    · refine hlate.resolve_right fun hnot => ?_
      rw [hnot.2 p hpar] at hfail
      cases hfail
    · rw [hrecv.failed]
      exact hfail

theorem Settled.acceptBlock (h : Settled tree late verdict bar st)
    (hcnt : tree.txCount b % 2 ^ 32 ≠ 0)
    (hacc : st.acceptBlock tree b = some st') : Settled tree late verdict bar st' := by
  rcases acceptBlock_cases hacc with rfl | ⟨next, hhdr, rfl | ht⟩
  · exact h
  · exact h.acceptBlockHeader hhdr
  · exact (h.acceptBlockHeader hhdr).receivedBlockTransactions ht.known ht.data
      (.inr ⟨ht.valid, ht.parent_valid⟩) hcnt ht.received

/-- After activation the tip is better than all other linked blocks without a flag. -/
theorem Settled.activateBestChain (h : Settled tree late verdict bar st)
    (hact : st.activateBestChain tree verdict fuel = some st') :
    Settled tree late verdict bar st' ∧ st'.bestCandidate tree = some st'.tip := by
  obtain ⟨hfol, hr, hbest⟩ := h.ready.activateBestChain h.linked hact
  exact ⟨⟨hfol.linked, hr⟩, hbest⟩

/-! ### Manual invalidation -/

/-- The block is barred from now on, and what may be the best chain without it is a candidate
again. -/
theorem Settled.invalidates {pindex : BlockAddr} (h : Settled tree late verdict bar st)
    (hk : pindex ∈ st.mapBlockIndex) (hinv : Invalidates tree pindex st st') :
    Settled tree late verdict (fun a => bar a ∨ a = pindex) st' := by
  have hkeep := hinv.keeps
  have hrank : st'.rank tree = st.rank tree := hkeep.rank
  have hlink := h.linked.keeps hkeep fun _ => hinv.failed_mono
  have hfail : ∀ b, (st'.entry b).failed = true → ∃ a ∈ tree.line b, bar a ∨ a = pindex := by
    intro b hb
    rcases hinv.failed_of_failed b hb with hold | ⟨hnew, -⟩
    · obtain ⟨a, ha, hbar⟩ := h.ready.failed_bar b hold
      exact ⟨a, ha, .inl hbar⟩
    · exact ⟨pindex, hnew, .inr rfl⟩
  have htip : (st'.entry st'.tip).nChainTx ≠ 0 := by
    rw [(hkeep.entry _).nChainTx]
    exact h.linked.line_linked hinv.tip h.ready.tip_linked
  have hclr : Clear tree (fun a => bar a ∨ a = pindex) st'.tip := by
    rintro a ha (hbar | rfl)
    · exact h.ready.tip_clear a (line_trans hinv.tip ha) hbar
    · exact hinv.tip_off ha
  refine ⟨hlink, Sound.ready ⟨?_, ?_, hfail, ?_, ?_, htip, hclr⟩ ?_⟩
  · intro b hb hver
    exact .inl (h.ready.bar_invalid b hb hver)
  · rw [hkeep.known]
    rintro b (hbar | rfl)
    · exact (h.ready.bar_cases b hbar).imp_right (And.imp_left (hinv.failed_mono b))
    · have hf := (hinv.failedValid b).mpr (.inr rfl)
      exact .inr ⟨by simp only [BlockEntry.failed, hf, Bool.true_or], hk⟩
  · intro b hb
    rcases hinv.candidates b hb with hold | ⟨-, hmay⟩
    · rw [(hkeep.entry b).nChainTx]
      exact h.ready.candidate_linked b hold
    · exact (mayBeCandidate_iff.mp hmay).2.2.1
  · intro b hb
    rcases hinv.candidates b hb with hold | ⟨-, hmay⟩
    · rw [hrank]
      exact (rank_le_of_mem_line hinv.tip).trans (h.ready.candidate_above b hold)
    · exact (mayBeCandidate_iff.mp hmay).2.2.2
  · intro b hc hval hle
    have hdata := hlink.linked_data b hc
    refine hinv.restored b ?_ (mayBeCandidate_iff.mpr
      ⟨hval, hlink.data_valid b hdata fun _ => hval, hc, hle⟩)
    rw [← hkeep.known]
    exact hlink.data_known b hdata

/-! ### Runs -/

/-- Whether a block other than genesis does not connect or was invalidated. -/
def Barred (tree : BlockTree) (verdict : BlockAddr → Bool) (invalidated : List BlockAddr)
    (a : BlockAddr) : Prop :=
  a ≠ tree.root ∧ (verdict a = false ∨ a ∈ invalidated)

theorem settled_initial (tree : BlockTree) (late : Prop) (verdict : BlockAddr → Bool) :
    Settled tree late verdict (Barred tree verdict []) (initial tree) := by
  have hroot : ((initial tree).entry tree.root) = {
      nValidity := BLOCK_VALID_SCRIPTS
      BLOCK_HAVE_DATA := true
      nTx := 1
      nChainTx := 1
      nSequenceId := 1 } := by
    simp [initial, tree.vtxSize_root]
  have ho : ∀ b, b ≠ tree.root → (initial tree).entry b = {} := by
    intro b hb
    simp [initial, hb]
  have htx := tree.vtxSize_root
  have hcnt : tree.txCount tree.root = 1 := by simp [BlockTree.txCount, line_root, htx]
  have hk : (initial tree).mapBlockIndex = [tree.root] := rfl
  have hc : (initial tree).setBlockIndexCandidates = [tree.root] := rfl
  have hu : (initial tree).mapBlocksUnlinked = [] := rfl
  have htip : (initial tree).tip = tree.root := rfl
  have hpar := tree.parent_root
  have hclr : Clear tree (Barred tree verdict []) tree.root := by
    intro a ha hbar
    rw [line_root, mem_singleton] at ha
    exact hbar.1 ha
  have hfail : ∀ b, ((initial tree).entry b).failed = false := by
    intro b
    by_cases hb : b = tree.root
    · rw [hb, hroot]
      rfl
    · rw [ho b hb]
      rfl
  refine ⟨?_, ?_⟩
  · constructor <;> grind [BLOCK_VALID_TREE, BLOCK_VALID_SCRIPTS, BLOCK_VALID_TRANSACTIONS]
  · refine Sound.ready ?_ ?_
    · constructor <;> grind [Barred]
    · grind

end ChainState

/-- The blocks that are invalidated by hand in a run. -/
def ChainEvent.invalidated (events : List ChainEvent) : List BlockAddr :=
  events.filterMap fun
    | .invalidate b => some b
    | _ => none

theorem ChainEvent.invalidated_append (events events' : List ChainEvent) :
    invalidated (events ++ events') = invalidated events ++ invalidated events' :=
  filterMap_append

/-- No block is reconsidered, every activation finds the same blocks valid, and no block arrives
at which the 32-bit counter of the transactions of its line is back at zero. -/
def ChainEvent.Under (tree : BlockTree) (verdict : BlockAddr → Bool) : ChainEvent → Prop
  | .blockData b | .accept b => tree.txCount b % 2 ^ 32 ≠ 0
  | .activate verdict' _ => verdict' = verdict
  | .reconsider _ => False
  | _ => True

/-- Data comes with `AcceptBlock` only, which checks the parent. -/
def ChainEvent.Checked : ChainEvent → Prop
  | .blockData _ => False
  | _ => True

namespace ChainState

theorem Settled.applyEvent {invalidated : List BlockAddr} {event : ChainEvent}
    (h : Settled tree late verdict (Barred tree verdict invalidated) st)
    (hev : event.Under tree verdict) (hlate : late ∨ event.Checked)
    (hstep : st.applyEvent tree event = some st') :
    Settled tree late verdict (Barred tree verdict (invalidated ++ ChainEvent.invalidated [event]))
      st' := by
  cases event with
  | header b =>
    rw [show ChainEvent.invalidated [.header b] = [] from rfl, append_nil]
    cases hstep
    cases hacc : st.acceptBlockHeader tree b with
    | none => exact h
    | some next => exact h.acceptBlockHeader hacc
  | blockData b =>
    rw [show ChainEvent.invalidated [.blockData b] = [] from rfl, append_nil]
    obtain ⟨hb, hstep⟩ := ite_none_right_eq_some.mp hstep
    rw [Bool.not_eq_true] at hb
    exact h.receivedBlockTransactions hb.1 hb.2 (hlate.imp_right False.elim) hev hstep
  | accept b =>
    rw [show ChainEvent.invalidated [.accept b] = [] from rfl, append_nil]
    exact h.acceptBlock hev hstep
  | activate verdict' fuel =>
    obtain rfl : verdict' = verdict := hev
    rw [show ChainEvent.invalidated [.activate verdict' fuel] = [] from rfl, append_nil]
    exact (h.activateBestChain hstep).1
  | invalidate b =>
    rw [show ChainEvent.invalidated [.invalidate b] = [b] from rfl]
    obtain ⟨hk, hstep⟩ := ite_none_right_eq_some.mp hstep
    have hinv := invalidateBlock_spec hstep
    have hroot : b ≠ tree.root := by
      rintro rfl
      exact hinv.tip_off (root_mem_line _)
    have hbar : Barred tree verdict (invalidated ++ [b]) =
        fun a => Barred tree verdict invalidated a ∨ a = b := by
      funext a
      simp only [Barred, mem_append, mem_singleton, eq_iff_iff]
      grind
    rw [hbar]
    exact h.invalidates hk hinv
  | reconsider b => exact hev.elim

theorem Settled.run {invalidated : List BlockAddr}
    (h : Settled tree late verdict (Barred tree verdict invalidated) st)
    (hevs : ∀ event ∈ events, event.Under tree verdict)
    (hlate : ∀ event ∈ events, late ∨ event.Checked) (hrun : st.run tree events = some st') :
    Settled tree late verdict (Barred tree verdict (invalidated ++ ChainEvent.invalidated events))
      st' := by
  induction events generalizing st invalidated with
  | nil =>
    cases hrun
    simpa [ChainEvent.invalidated] using h
  | cons event events ih =>
    obtain ⟨next, hnext, hr⟩ := bind_eq_some_iff.mp hrun
    have hset := h.applyEvent (hevs event mem_cons_self)
      (hlate event mem_cons_self) hnext
    have hend := ih hset (fun e he => hevs e (mem_cons_of_mem event he))
      (fun e he => hlate e (mem_cons_of_mem event he)) hr
    rw [append_assoc, ← invalidated_append] at hend
    exact hend

/-- Genesis cannot be disconnected. -/
theorem root_notMem_invalidated (hrun : st.run tree events = some st') :
    tree.root ∉ invalidated events := by
  induction events generalizing st with
  | nil => exact not_mem_nil
  | cons event events ih =>
    obtain ⟨next, hnext, hr⟩ := bind_eq_some_iff.mp hrun
    have hev : tree.root ∉ invalidated [event] := by
      intro hmem
      obtain ⟨e, he, hroot⟩ := mem_filterMap.mp hmem
      obtain rfl := mem_singleton.mp he
      cases e with
      | invalidate b =>
        obtain rfl : b = tree.root := Option.some.inj hroot
        obtain ⟨-, hnext⟩ := ite_none_right_eq_some.mp hnext
        exact (invalidateBlock_spec hnext).tip_off (root_mem_line _)
      | _ => cases hroot
    rw [← singleton_append, invalidated_append, mem_append]
    exact not_or.mpr ⟨hev, ih hr⟩

/-- A block whose whole line has data, connects and was never invalidated. -/
def Eligible (tree : BlockTree) (verdict : BlockAddr → Bool) (invalidated : List BlockAddr)
    (st : ChainState) (b : BlockAddr) : Prop :=
  ∀ a ∈ tree.line b, (st.entry a).BLOCK_HAVE_DATA = true ∧ verdict a = true ∧ a ∉ invalidated

/-- Whatever happened before, activation returns, and then no eligible block has more work than
the tip. -/
theorem activation_reaches_most_work {tree : BlockTree} {verdict : BlockAddr → Bool}
    {events : List ChainEvent} {st : ChainState} (hevs : ∀ event ∈ events, event.Under tree verdict)
    (hrun : (initial tree).run tree events = some st) :
    (∃ fuel st', st.activateBestChain tree verdict fuel = some st') ∧
      ∀ fuel st', st.activateBestChain tree verdict fuel = some st' →
        (verdict tree.root = true →
          Eligible tree verdict (ChainEvent.invalidated events) st' st'.tip) ∧
        ∀ b, Eligible tree verdict (ChainEvent.invalidated events) st' b →
          tree.nChainWork b ≤ tree.nChainWork st'.tip := by
  have hset := (settled_initial tree True verdict).run hevs
    (fun event _ => .inl trivial) hrun
  refine ⟨⟨_, activateBestChain_returns hset.linked hset.ready.toSound
    (Nat.lt_succ_self _)⟩, ?_⟩
  intro fuel st' hret
  obtain ⟨⟨hlink, hr⟩, hbest⟩ := hset.activateBestChain hret
  refine ⟨?_, ?_⟩
  · intro hroot a ha
    have hc := hlink.line_linked ha hr.tip_linked
    have hclr := hr.tip_clear a ha
    refine ⟨hlink.linked_data a hc, ?_⟩
    by_cases hgen : a = tree.root
    · rw [hgen]
      exact ⟨hroot, root_notMem_invalidated hrun⟩
    · have hnot := not_and.mp hclr hgen
      rw [not_or, Bool.not_eq_false] at hnot
      exact hnot
  · intro b hb
    have hclr : Clear tree (Barred tree verdict (invalidated events)) b := by
      rintro a ha ⟨-, hver | hinv⟩
      · rw [(hb a ha).2.1] at hver
        cases hver
      · exact (hb a ha).2.2 hinv
    have hc : (st'.entry b).nChainTx ≠ 0 := by
      refine hlink.linked_of_line fun a ha => ⟨(hb a ha).1, fun _ => ?_⟩
      exact hr.not_failed (hclr.of_mem_line ha)
    exact work_le_of_rank (hr.le_best hbest hc (hr.not_failed hclr))

/-- Block 1 is connected first and then invalidated, and block 6 does not connect. -/
def forkEvents : List ChainEvent :=
  [.header 1, .header 2, .header 5, .header 6, .blockData 6, .blockData 1,
    .activate (· != 6) 5, .invalidate 1, .blockData 5, .blockData 2]

theorem forkEvents_under : ∀ event ∈ forkEvents, event.Under binaryTree (· != 6) := by
  simp only [forkEvents, forall_mem_cons, Under, not_mem_nil, false_imp_iff, implies_true]
  decide

theorem activation_reaches_most_work_fork :
    ∃ st st', (initial binaryTree).run binaryTree forkEvents = some st ∧
      st.activateBestChain binaryTree (· != 6) 5 = some st' ∧ st'.tip = 5 ∧
      ∀ b, Eligible binaryTree (· != 6) [1] st' b →
        binaryTree.nChainWork b ≤ binaryTree.nChainWork 5 := by
  obtain ⟨st, hrun, st', hact, htip⟩ :
      ∃ st ∈ (initial binaryTree).run binaryTree forkEvents,
        ∃ st' ∈ st.activateBestChain binaryTree (· != 6) 5, st'.tip = 5 := by
    decide
  refine ⟨st, st', hrun, hact, htip, fun b hb => ?_⟩
  rw [← htip]
  exact ((activation_reaches_most_work forkEvents_under hrun).2 5 st' hact).2 b hb

/-- With the transactions of block 2 the counter is back at zero. -/
def overflowTree : BlockTree :=
  { binaryTree with
    vtxSize := fun b => if b = 2 then 2 ^ 32 - 1 else 1
    vtxSize_pos := by
      intro b
      split_ifs <;> omega
    vtxSize_root := rfl }

/-- Block 2 is linked, but as its counter is zero block 5 waits for it. -/
theorem activation_misses_overflow :
    ∃ st ∈ (initial overflowTree).run overflowTree
        [.header 1, .header 2, .header 5, .blockData 1, .activate (fun _ => true) 5, .blockData 2,
          .blockData 5],
      ∃ st' ∈ st.activateBestChain overflowTree (fun _ => true) 5,
        Eligible overflowTree (fun _ => true) [] st' 5 ∧
          overflowTree.nChainWork st'.tip < overflowTree.nChainWork 5 := by
  unfold Eligible
  decide

/-! ### What holds after every run -/

section

variable (hevs : ∀ event ∈ events, event.Under tree verdict)
  (hrun : (initial tree).run tree events = some st)

include hevs hrun

/-- In whatever order blocks arrive, a block is linked once its whole line has data, and the
blocks with data that are not linked are those that wait. -/
theorem arrival_exact (hchk : ∀ event ∈ events, event.Checked) (b : BlockAddr) :
    ((st.entry b).nChainTx ≠ 0 ↔ ∀ a ∈ tree.line b, (st.entry a).BLOCK_HAVE_DATA = true) ∧
      ∀ p, (p, b) ∈ st.mapBlocksUnlinked ↔ tree.parent b = some p ∧
        (st.entry b).BLOCK_HAVE_DATA = true ∧ (st.entry b).nChainTx = 0 := by
  have h := ((settled_initial tree False verdict).run hevs
    (fun event hev => .inr (hchk event hev)) hrun).linked
  refine ⟨⟨?_, ?_⟩, fun p => ⟨?_, ?_⟩⟩
  · intro hb a ha
    exact h.linked_data a (h.line_linked ha hb)
  · intro hline
    exact h.linked_of_line fun a ha => ⟨hline a ha, False.elim⟩
  · intro hw
    obtain ⟨hpar, hdata, hzero, -⟩ := h.unlinked b p hw
    exact ⟨hpar, hdata, hzero⟩
  · rintro ⟨hpar, hdata, hzero⟩
    simpa using h.waiting b p hdata hzero hpar

/-- Candidates are linked and not worse than the tip, and of the blocks without a flag all such
are candidates.  No block of the active chain has a flag. -/
theorem candidates_exact :
    (∀ b ∈ st.setBlockIndexCandidates, (st.entry b).nChainTx ≠ 0 ∧ !st.worse tree b st.tip) ∧
    (∀ b, (st.entry b).failed = false → (st.entry b).nChainTx ≠ 0 → !st.worse tree b st.tip →
      b ∈ st.setBlockIndexCandidates) ∧
    ∀ a ∈ tree.line st.tip, (st.entry a).failed = false := by
  have h := ((settled_initial tree True verdict).run hevs (fun _ _ => .inl trivial) hrun).ready
  simp only [not_worse_iff]
  refine ⟨fun b hb => ⟨h.candidate_linked b hb, h.candidate_above b hb⟩, ?_, ?_⟩
  · intro b hval hlink
    exact h.complete b hlink hval
  · intro a ha
    exact h.not_failed (h.tip_clear.of_mem_line ha)

end

theorem arrival_exact_waiting : ∃ st ∈ (initial binaryTree).run binaryTree [.header 1, .accept 3],
    (1, 3) ∈ st.mapBlocksUnlinked := by
  have hrun : (initial binaryTree).run binaryTree [.header 1, .accept 3] = some _ := rfl
  have hevs : ∀ event ∈ [header 1, .accept 3], event.Under binaryTree fun _ => true := by
    simp only [forall_mem_cons, Under, not_mem_nil, false_imp_iff, implies_true]
    decide
  exact ⟨_, hrun, ((arrival_exact hevs hrun (by simp [Checked]) 3).2 1).mpr (by decide)⟩

theorem candidates_exact_fork : ∃ st ∈ (initial binaryTree).run binaryTree forkEvents,
    5 ∈ st.setBlockIndexCandidates := by
  have hrun : (initial binaryTree).run binaryTree forkEvents = some _ := rfl
  exact ⟨_, hrun,
    (candidates_exact forkEvents_under hrun).2.1 5 (by decide) (by decide) (by decide)⟩

end ChainState

end Divi
