/-
What processing blocks again after a change of the verdicts comes to.

In a synchronised state the tip is the only candidate, and every better linked block has a
flag.  `ReprocessBlocks` takes the flags from the rejected blocks and what is above them, which
makes candidates again of those that are better than the tip.  Then it disconnects blocks, but
what was pruned from the candidates for being worse than the old tip stays away.  So activation
only works towards the old tip and better blocks.  If one of them is valid it ends at the best
chain.  If not, it ends below the block that failed last.
-/
import Divi.Proofs.BestChain
import Divi.Proofs.FailureFlags

namespace Divi

open ParentTree List Option

variable {event : ChainEvent} {b : BlockAddr} {fuel : Nat}
  {tree : BlockTree} {verdict verdict' : BlockAddr → Bool} {recent : List BlockAddr}
  {st st' start next : ChainState} {events : List ChainEvent}

/-- Blocks are accepted and the best chain is activated, with the same blocks valid and no 32-bit
counter of transactions back at zero. -/
def ChainEvent.Syncs (tree : BlockTree) (verdict : BlockAddr → Bool) : ChainEvent → Prop
  | .header _ => True
  | .accept b => tree.txCount b % 2 ^ 32 ≠ 0
  | .activate verdict' _ => verdict' = verdict
  | _ => False

theorem ChainEvent.Syncs.under (h : event.Syncs tree verdict) : event.Under tree verdict := by
  cases event with
  | activate => exact h
  | accept => exact h
  | blockData => exact h.elim
  | reconsider => exact h.elim
  | _ => trivial

theorem ChainEvent.Syncs.checked (h : event.Syncs tree verdict) : event.Checked := by
  cases event with
  | blockData => exact h.elim
  | _ => trivial

theorem ChainEvent.invalidated_of_syncs (h : ∀ event ∈ events, event.Syncs tree verdict) :
    invalidated events = [] := by
  refine filterMap_eq_nil_iff.mpr fun event hev => ?_
  cases event with
  | invalidate => exact (h _ hev).elim
  | _ => rfl

namespace ChainState

/-! ### Synchronised states -/

/-- Where the blocks are that `ConnectTip` failed on: all below was connected then. -/
def BelowFailedClear (tree : BlockTree) (bar : BlockAddr → Prop) (st : ChainState) : Prop :=
  ∀ b p, (st.entry b).BLOCK_FAILED_VALID = true → tree.parent b = some p → Clear tree bar p

namespace BelowFailedClear

variable {bar : BlockAddr → Prop}

section

variable (h : BelowFailedClear tree bar st)

include h

theorem of_flags (hf : ∀ b, (st'.entry b).BLOCK_FAILED_VALID = true →
      (st.entry b).BLOCK_FAILED_VALID = true) : BelowFailedClear tree bar st' :=
  fun b p hb => h b p (hf b hb)

theorem acceptBlockHeader (hacc : st.acceptBlockHeader tree b = some st') :
    BelowFailedClear tree bar st' := by
  rcases acceptBlockHeader_eq_some hacc with ⟨-, -, rfl⟩ | ⟨-, p, -, -, -, rfl⟩
  · exact h
  · refine h.of_flags fun c hc => ?_
    rw [entry_addToBlockIndex] at hc
    split_ifs at hc
    exact hc

theorem acceptBlock (hacc : st.acceptBlock tree b = some st') :
    BelowFailedClear tree bar st' := by
  rcases acceptBlock_cases hacc with rfl | ⟨next, hhdr, rfl | ht⟩
  · exact h
  · exact h.acceptBlockHeader hhdr
  · refine (h.acceptBlockHeader hhdr).of_flags fun c hc => ?_
    rw [← (receivedBlockTransactions_flags ht.received c).1]
    exact hc

theorem activateBestChain {late : Prop} (hlink : Linked tree late [] st)
    (hs : Sound tree verdict bar st) (hact : st.activateBestChain tree verdict fuel = some st') :
    BelowFailedClear tree bar st' := by
  refine (activateBestChain_follows ?_ ?_ hlink hs h hact).2.1
  · intro next st' m test above _ h hr _
    exact h.of_flags fun b hb => (hr.failedValid b).symm.trans hb
  · intro next st' m fork connected rest refused hfol h hstep b p hb hpar
    rcases (hstep.advances.failedValid b).mp hb with hold | hnew
    · exact h b p hold hpar
    · obtain rfl := Option.some.inj ((hstep.parent_refused hnew).symm.trans hpar)
      exact (hfol.step hstep).sound.tip_clear

end

end BelowFailedClear

/-- What holds while blocks are accepted and the best chain is activated. -/
structure Syncing (tree : BlockTree) (verdict : BlockAddr → Bool) (st : ChainState) : Prop
    extends Settled tree False verdict (Barred tree verdict []) st where
  indexed : Indexed tree st
  below_failed : BelowFailedClear tree (Barred tree verdict []) st

theorem syncing_initial (tree : BlockTree) (verdict : BlockAddr → Bool) :
    Syncing tree verdict (initial tree) := by
  refine ⟨settled_initial tree False verdict, .initial tree, fun b p hb => ?_⟩
  by_cases hroot : b = tree.root <;> simp [initial, hroot] at hb

theorem Syncing.applyEvent (h : Syncing tree verdict st) (hev : event.Syncs tree verdict)
    (hstep : st.applyEvent tree event = some st') : Syncing tree verdict st' := by
  have hset := h.toSettled.applyEvent hev.under (.inr hev.checked) hstep
  rw [ChainEvent.invalidated_of_syncs (by simpa using hev), append_nil] at hset
  refine ⟨hset, h.indexed.applyEvent hstep, ?_⟩
  cases event with
  | header b =>
    cases hstep
    cases hacc : st.acceptBlockHeader tree b with
    | none => exact h.below_failed
    | some next => exact h.below_failed.acceptBlockHeader hacc
  | accept b => exact h.below_failed.acceptBlock hstep
  | activate verdict' fuel =>
    obtain rfl : verdict' = verdict := hev
    exact h.below_failed.activateBestChain h.linked h.ready.toSound hstep
  | blockData b => exact hev.elim
  | invalidate b => exact hev.elim
  | reconsider b => exact hev.elim

/-- What holds when activation has returned in the end. -/
structure Synced (tree : BlockTree) (verdict : BlockAddr → Bool) (st : ChainState) : Prop
    extends Syncing tree verdict st where
  best : st.bestCandidate tree = some st.tip

theorem synced_run (hevs : ∀ event ∈ events, event.Syncs tree verdict)
    (hrun : (initial tree).run tree (events ++ [.activate verdict fuel]) = some st) :
    Synced tree verdict st := by
  obtain ⟨before, hpre, hact⟩ := runFrom_concat_eq_some.mp hrun
  have hs : Syncing tree verdict before :=
    runFrom_invariant_of_mem (fun event hev _ _ h => h.applyEvent (hevs event hev))
      (syncing_initial tree verdict) hpre
  have hl : (ChainEvent.activate verdict fuel).Syncs tree verdict := rfl
  exact ⟨hs.applyEvent hl hact, (hs.activateBestChain hact).2⟩

namespace Synced

variable (h : Synced tree verdict st)

include h

theorem tip_mem : st.tip ∈ st.setBlockIndexCandidates := argmax_mem h.best

theorem eq_tip (hb : b ∈ st.setBlockIndexCandidates) : b = st.tip :=
  rank_injective ((le_of_mem_argmax hb h.best).antisymm (h.ready.candidate_above b hb))

/-- A better block that is linked would be a candidate, had it not failed. -/
theorem failed_of_better (hlink : (st.entry b).nChainTx ≠ 0)
    (hbe : st.rank tree st.tip < st.rank tree b) : (st.entry b).failed = true := by
  rw [← Bool.not_eq_false]
  intro hval
  have hb := h.eq_tip (h.ready.complete b hlink hval hbe.le)
  rw [hb] at hbe
  exact lt_irrefl _ hbe

theorem line_not_failed {a : BlockAddr} (ha : a ∈ tree.line st.tip) :
    (st.entry a).failed = false :=
  h.ready.not_failed (h.ready.tip_clear.of_mem_line ha)

/-- No ancestor of a block that `ConnectTip` failed on has a flag. -/
theorem mem_line_of_related {r a : BlockAddr} (hr : (st.entry r).BLOCK_FAILED_VALID = true)
    (ha : (st.entry a).failed = true) (hre : Related tree r a) : r ∈ tree.line a := by
  rcases hre with hab | hlt
  · exact hab
  · by_cases hself : a = r
    · rw [hself]
      exact self_mem_line r
    · have hroot : r ≠ tree.root := by
        rintro rfl
        rw [line_root, mem_singleton] at hlt
        exact hself hlt
      obtain ⟨p, hpar⟩ := exists_parent hroot
      have hclr := h.below_failed r p hr hpar
      have hval := h.ready.not_failed (hclr.of_mem_line (mem_line_parent hpar hlt hself))
      rw [hval] at ha
      cases ha

end Synced

/-! ### Reconsidering the rejected blocks -/

/-- The flag of a block, if it has one, goes with the rejected blocks. -/
def Forgiven (tree : BlockTree) (recent : List BlockAddr) (st : ChainState)
    (a : BlockAddr) : Prop :=
  (st.entry a).failed = true → ∃ r ∈ recent, r ∈ tree.line a
  deriving Decidable

/-- What reconsidering some blocks does that no flags are below. -/
structure Forgives (tree : BlockTree) (recent : List BlockAddr) (st st' : ChainState) :
    Prop where
  keeps : st.Keeps st'
  tip : st'.tip = st.tip
  failed : ∀ b, (st'.entry b).failed = true ↔ ¬Forgiven tree recent st b
  candidates : ∀ b, b ∈ st'.setBlockIndexCandidates ↔ b ∈ st.setBlockIndexCandidates ∨
    (st.entry b).failed = true ∧ (∃ r ∈ recent, r ∈ tree.line b) ∧ (st.entry b).nChainTx ≠ 0 ∧
      st.rank tree st.tip < st.rank tree b

theorem foldl_reconsiderBlock_spec (hk : ∀ b, (st.entry b).failed = true → b ∈ st.mapBlockIndex)
    (hval : ∀ b, (st.entry b).nChainTx ≠ 0 →
      BLOCK_VALID_TRANSACTIONS ≤ (st.entry b).nValidity)
    (hab : ∀ r ∈ recent, ∀ a, (st.entry a).failed = true → Related tree r a →
      r ∈ tree.line a) : Forgives tree recent st (recent.foldl (reconsiderBlock tree) st) := by
  induction recent generalizing st with
  | nil =>
    refine ⟨⟨rfl, rfl, fun _ => .refl _⟩, rfl, fun b => ?_, fun b => ?_⟩
    · simp [Forgiven]
    · simp
  | cons r recent ih =>
    have hfst : Reconsiders tree r st (st.reconsiderBlock tree r) := reconsiderBlock_spec r hk
    have hfail := hfst.failed_iff
    have he := hfst.keeps.entry
    have hr := @ih (st.reconsiderBlock tree r) (fun b hb => by
        rw [hfst.keeps.known]
        exact hk b ((hfail b).mp hb).1)
      (fun b hb => by
        rw [(he b).nChainTx] at hb
        exact (hval b hb).trans (he b).nValidity)
      (fun r' hr' a ha => hab r' (mem_cons_of_mem r hr') a ((hfail a).mp ha).1)
    rw [foldl_cons]
    refine ⟨hfst.keeps.trans hr.keeps, hr.tip.trans hfst.tip, fun b => ?_, fun b => ?_⟩
    · rw [hr.failed]
      simp only [Forgiven, hfail b]
      grind [Related]
    · rw [hr.candidates, hfst.candidates, hfst.keeps.rank, hfst.tip, hfail, (he b).nChainTx]
      grind [Related]

/-! ### Disconnecting blocks -/

theorem foldlM_disconnectTip (tree : BlockTree) (rounds : List Nat) (st : ChainState) :
    rounds.foldlM (fun st _ => st.disconnectTip tree) st =
      (tree.stepsDown rounds.length st.tip).map fun b => { st with tip := b } := by
  induction rounds generalizing st with
  | nil => rfl
  | cons round rounds ih =>
    rw [foldlM_cons, disconnectTip, length_cons, stepsDown]
    cases hpar : tree.parent st.tip with
    | none => rfl
    | some p => exact ih { st with tip := p }

theorem disconnectBlocksAndReprocess_eq {blocks : Nat} (h : blocks < tree.height st.tip) :
    ∃ b ∈ tree.line st.tip, tree.height b + (blocks + 1) = tree.height st.tip ∧
      st.disconnectBlocksAndReprocess tree blocks = some { st with tip := b } := by
  obtain ⟨b, hb⟩ := exists_ancestor (Nat.sub_le (tree.height st.tip) (blocks + 1))
  obtain ⟨hline, hht⟩ := ancestor_eq_some_iff.mp hb
  have hsum : tree.height b + (blocks + 1) = tree.height st.tip := by omega
  refine ⟨b, hline, hsum, ?_⟩
  have hdown := stepsDown_of_mem hline
  rw [← hsum, Nat.add_sub_cancel_left] at hdown
  rw [disconnectBlocksAndReprocess, foldlM_disconnectTip, length_range, hdown]
  rfl

/-- The state in which `ReprocessBlocks` activates the best chain. -/
structure Rewound (tree : BlockTree) (verdict' : BlockAddr → Bool)
    (recent : List BlockAddr) (st start : ChainState) : Prop where
  keeps : st.Keeps start
  failed : ∀ b, (start.entry b).failed = true ↔ ¬Forgiven tree recent st b
  candidates : ∀ b, b ∈ start.setBlockIndexCandidates ↔ (st.entry b).nChainTx ≠ 0 ∧
    st.rank tree st.tip ≤ st.rank tree b ∧ Forgiven tree recent st b
  tip : start.tip ∈ tree.line st.tip
  tip_valid : ∀ a ∈ tree.line start.tip, verdict' a = true

theorem Synced.rewound (h : Synced tree verdict st) (hforg : Forgives tree recent st st')
    (hb : b ∈ tree.line st.tip) (hval : ∀ a ∈ tree.line b, verdict' a = true) :
    Rewound tree verdict' recent st { st' with tip := b } := by
  refine ⟨⟨hforg.keeps.known, hforg.keeps.unlinked, hforg.keeps.entry⟩,
    hforg.failed, fun c => ?_, hb, hval⟩
  rw [hforg.candidates]
  constructor
  · rintro (hold | ⟨hfail, hr, hlink, hbe⟩)
    · rw [h.eq_tip hold]
      refine ⟨h.ready.tip_linked, le_refl _, fun hfail => ?_⟩
      rw [h.line_not_failed (self_mem_line _)] at hfail
      cases hfail
    · exact ⟨hlink, hbe.le, fun _ => hr⟩
  · rintro ⟨hlink, hle, hf⟩
    rcases hle.eq_or_lt with heq | hlt
    · rw [← rank_injective heq]
      exact .inl h.tip_mem
    · have hfail := h.failed_of_better hlink hlt
      exact .inr ⟨hfail, hf hfail, hlink, hlt⟩

theorem Synced.reprocessBlocks_eq {mapRejectedBlocks : List (BlockAddr × Int)} {getTime : Int}
    {nBlocks : Nat} (h : Synced tree verdict st)
    (hrej : ∀ rejected ∈ mapRejectedBlocks, rejected.1 ∈ st.mapBlockIndex →
      (st.entry rejected.1).BLOCK_FAILED_VALID = true) (hdeep : nBlocks < tree.height st.tip)
    (hval : ∀ a ∈ tree.line st.tip, tree.height a + (nBlocks + 1) ≤ tree.height st.tip →
      verdict' a = true) :
    ∃ start, Rewound tree verdict' (st.recentlyRejected mapRejectedBlocks getTime nBlocks) st
        start ∧
      ∀ fuel, st.reprocessBlocks tree verdict' mapRejectedBlocks getTime nBlocks fuel =
        start.activateBestChain tree verdict' fuel := by
  have hm : ∀ r ∈ st.recentlyRejected mapRejectedBlocks getTime nBlocks,
      (st.entry r).BLOCK_FAILED_VALID = true := by
    intro r hr
    obtain ⟨rejected, hmem, rfl⟩ := mem_map.mp hr
    obtain ⟨hin, hre⟩ := mem_filter.mp hmem
    exact hrej rejected hin (of_decide_eq_true hre).2
  have hforg : Forgives tree (st.recentlyRejected mapRejectedBlocks getTime nBlocks) st _ :=
    foldl_reconsiderBlock_spec h.indexed.failed
      (fun b hb => h.linked.data_valid b (h.linked.linked_data b hb) False.elim)
      (fun r hr a => h.mem_line_of_related (hm r hr))
  have hdeep' := hdeep
  rw [← hforg.tip] at hdeep'
  obtain ⟨b, hb, hht, hdisc⟩ := disconnectBlocksAndReprocess_eq hdeep'
  rw [hforg.tip] at hb hht
  refine ⟨_, h.rewound hforg hb fun a ha => ?_, fun fuel => ?_⟩
  · refine hval a (line_trans hb ha) ?_
    have hle := height_le_of_mem_line ha
    omega
  · simp [reprocessBlocks, hdisc]

/-! ### What activation works towards -/

/-- A linked block that is not worse than the tip, and whose flags all go. -/
def Target (tree : BlockTree) (recent : List BlockAddr) (st : ChainState)
    (c : BlockAddr) : Prop :=
  (st.entry c).nChainTx ≠ 0 ∧ st.rank tree st.tip ≤ st.rank tree c ∧
    ∀ a ∈ tree.line c, Forgiven tree recent st a
  deriving Decidable

/-- A block that may be the tip afterwards: its whole line has data, is valid and has no flags
that stay. -/
def Admissible (tree : BlockTree) (verdict' : BlockAddr → Bool) (recent : List BlockAddr)
    (st : ChainState) (b : BlockAddr) : Prop :=
  ∀ a ∈ tree.line b, (st.entry a).BLOCK_HAVE_DATA = true ∧ verdict' a = true ∧
    Forgiven tree recent st a

/-- The first invalid block on the way to a target. -/
def Breaks (tree : BlockTree) (verdict' : BlockAddr → Bool) (recent : List BlockAddr)
    (st : ChainState) (x p : BlockAddr) : Prop :=
  tree.parent x = some p ∧ verdict' x = false ∧ (∀ a ∈ tree.line p, verdict' a = true) ∧
    ∃ c, Target tree recent st c ∧ x ∈ tree.line c

/-- There is a target above the first block that is better than all above the second. -/
def Before (tree : BlockTree) (recent : List BlockAddr) (st : ChainState)
    (y x : BlockAddr) : Prop :=
  ∃ c, Target tree recent st c ∧ y ∈ tree.line c ∧
    ∀ c', Target tree recent st c' → x ∈ tree.line c' → st.rank tree c' < st.rank tree c

/-- Some target is valid, or nothing admissible has more work than what is below the last
block to break. -/
def Recovers (tree : BlockTree) (verdict' : BlockAddr → Bool) (recent : List BlockAddr)
    (st : ChainState) : Prop :=
  (∃ c, Target tree recent st c ∧ ∀ a ∈ tree.line c, verdict' a = true) ∨
    ∃ x p, Breaks tree verdict' recent st x p ∧
      (∀ y q, Breaks tree verdict' recent st y q → y ≠ x → Before tree recent st y x) ∧
      ∀ g, Admissible tree verdict' recent st g → tree.nChainWork g ≤ tree.nChainWork p

/-- The line has data, is valid and has no flags. -/
def Free (tree : BlockTree) (verdict' : BlockAddr → Bool) (st : ChainState)
    (b : BlockAddr) : Prop :=
  ∀ a ∈ tree.line b, (st.entry a).BLOCK_HAVE_DATA = true ∧ verdict' a = true ∧
    (st.entry a).failed = false
  deriving Decidable

/-- No free block has more work than the tip, which is one. -/
def MostWork (tree : BlockTree) (verdict' : BlockAddr → Bool) (st : ChainState) : Prop :=
  Free tree verdict' st st.tip ∧
    ∀ b, Free tree verdict' st b → tree.nChainWork b ≤ tree.nChainWork st.tip

/-- Blocks that do not connect any more, and blocks whose flags stay. -/
def Bars (tree : BlockTree) (verdict' : BlockAddr → Bool) (recent : List BlockAddr)
    (st : ChainState) (a : BlockAddr) : Prop :=
  verdict' a = false ∨ ¬Forgiven tree recent st a

theorem clear_bars_iff : Clear tree (Bars tree verdict' recent st) b ↔
    ∀ a ∈ tree.line b, verdict' a = true ∧ Forgiven tree recent st a := by
  simp [Clear, Bars]

namespace Synced

variable (h : Synced tree verdict st)

include h

theorem forgiven_line {a : BlockAddr} (ha : a ∈ tree.line st.tip) :
    Forgiven tree recent st a := by
  intro hfail
  rw [h.line_not_failed ha] at hfail
  cases hfail

theorem target_tip : Target tree recent st st.tip :=
  ⟨h.ready.tip_linked, le_refl _, fun _ ha => h.forgiven_line ha⟩

theorem admissible_iff : Admissible tree verdict' recent st b ↔
    (st.entry b).nChainTx ≠ 0 ∧ Clear tree (Bars tree verdict' recent st) b := by
  rw [clear_bars_iff]
  constructor
  · intro hb
    refine ⟨h.linked.linked_of_line fun a ha => ⟨(hb a ha).1, False.elim⟩, fun a ha => ?_⟩
    exact (hb a ha).2
  · rintro ⟨hlink, hclr⟩ a ha
    exact ⟨h.linked.linked_data a (h.linked.line_linked ha hlink), hclr a ha⟩

variable (hst : Rewound tree verdict' recent st start)

include hst

theorem linked_start : Linked tree False [] start := h.linked.keeps hst.keeps False.elim

theorem sound_start : Sound tree verdict' (Bars tree verdict' recent st) start := by
  have hrank : start.rank tree = st.rank tree := hst.keeps.rank
  constructor
  · exact fun b _ hb => .inl hb
  · refine fun b hb => hb.imp_right fun hs => ?_
    have hfail := (hst.failed b).mpr hs
    refine ⟨hfail, ?_⟩
    rw [hst.keeps.known]
    refine h.indexed.failed b ?_
    by_contra hval
    exact hs fun hb => absurd hb hval
  · intro b hb
    exact ⟨b, self_mem_line b, .inr ((hst.failed b).mp hb)⟩
  · intro b hb
    rw [(hst.keeps.entry b).nChainTx]
    exact ((hst.candidates b).mp hb).1
  · intro b hb
    rw [hrank]
    exact (rank_le_of_mem_line hst.tip).trans ((hst.candidates b).mp hb).2.1
  · rw [(hst.keeps.entry _).nChainTx]
    exact h.linked.line_linked hst.tip h.ready.tip_linked
  · rw [clear_bars_iff]
    exact fun a ha => ⟨hst.tip_valid a ha, h.forgiven_line (line_trans hst.tip ha)⟩

variable (hfol : Follows tree False verdict' (Bars tree verdict' recent st) start st')

include hfol

theorem free_iff : Free tree verdict' st' b ↔ Admissible tree verdict' recent st b := by
  have hkeep := hst.keeps.trans hfol.keeps
  constructor
  · intro hb a ha
    obtain ⟨hdata, hval, hf⟩ := hb a ha
    rw [(hkeep.entry a).data] at hdata
    refine ⟨hdata, hval, ?_⟩
    by_contra hs
    rw [hfol.failed_mono a ((hst.failed a).mpr hs)] at hf
    cases hf
  · intro hb a ha
    have hclr := ((h.admissible_iff).mp hb).2.of_mem_line ha
    rw [(hkeep.entry a).data]
    exact ⟨(hb a ha).1, (hb a ha).2.1, hfol.sound.not_failed hclr⟩

theorem admissible_tip : Admissible tree verdict' recent st st'.tip := by
  have hlink := hfol.sound.tip_linked
  rw [((hst.keeps.trans hfol.keeps).entry _).nChainTx] at hlink
  exact h.admissible_iff.mpr ⟨hlink, hfol.sound.tip_clear⟩

theorem mostWork_iff : MostWork tree verdict' st' ↔
    ∀ g, Admissible tree verdict' recent st g → tree.nChainWork g ≤ tree.nChainWork st'.tip := by
  unfold MostWork
  simp only [h.free_iff hst hfol]
  exact and_iff_right (h.admissible_tip hst hfol)

end Synced

/-- Towards a valid target activation goes as far as it can. -/
theorem Synced.mostWork_of_target {c : BlockAddr} (h : Synced tree verdict st)
    (hst : Rewound tree verdict' recent st start) (htgt : Target tree recent st c)
    (hval : ∀ a ∈ tree.line c, verdict' a = true)
    (hact : start.activateBestChain tree verdict' fuel = some st') :
    MostWork tree verdict' st' := by
  obtain ⟨hlink, hle, hforg⟩ := htgt
  have hrank : start.rank tree = st.rank tree := hst.keeps.rank
  have hr : Ready tree verdict' (Bars tree verdict' recent st) c start := by
    refine ⟨h.sound_start hst, fun b hb hf hbe => ?_, ?_, ?_, ?_⟩
    · rw [(hst.keeps.entry b).nChainTx] at hb
      rw [hrank] at hbe
      refine (hst.candidates b).mpr ⟨hb, hle.trans hbe, ?_⟩
      by_contra hs
      rw [(hst.failed b).mpr hs] at hf
      cases hf
    · rw [(hst.keeps.entry c).nChainTx]
      exact hlink
    · exact clear_bars_iff.mpr fun a ha => ⟨hval a ha, hforg a ha⟩
    · rw [hrank]
      exact (rank_le_of_mem_line hst.tip).trans hle
  obtain ⟨hfol, hr', hbest⟩ := hr.activateBestChain (h.linked_start hst) hact
  refine (h.mostWork_iff hst hfol).mpr fun g hg => ?_
  obtain ⟨hg, hclr⟩ := h.admissible_iff.mp hg
  rw [← ((hst.keeps.trans hfol.keeps).entry g).nChainTx] at hg
  exact work_le_of_rank (hr'.le_best hbest hg (hr'.not_failed hclr))

/-! ### When no target is valid -/

theorem Breaks.unique {x y p q c : BlockAddr} (hx : Breaks tree verdict' recent st x p)
    (hy : Breaks tree verdict' recent st y q) (hxc : x ∈ tree.line c) (hyc : y ∈ tree.line c) :
    x = y := by
  have hlt : ∀ {x y p q}, Breaks tree verdict' recent st x p →
      Breaks tree verdict' recent st y q → x ∈ tree.line y → x = y := by
    intro x y p q hx hy hmem
    by_contra hne
    have hval := hy.2.2.1 x (mem_line_parent hy.1 hmem hne)
    rw [hx.2.1] at hval
    cases hval
  rcases mem_line_total hxc hyc with hmem | hmem
  · exact hlt hx hy hmem
  · exact (hlt hy hx hmem).symm

/-- Without a valid target, nothing on the active chain is as good as the old tip. -/
theorem Rewound.lt_tip (h : Rewound tree verdict' recent st start)
    (hfol : Follows tree False verdict' (Bars tree verdict' recent st) start next)
    (hn : ∀ c, Target tree recent st c → ¬∀ a ∈ tree.line c, verdict' a = true)
    (hb : b ∈ tree.line next.tip) : st.rank tree b < st.rank tree st.tip := by
  have hclr := hfol.sound.tip_clear.of_mem_line hb
  have hlink := hfol.linked.line_linked hb hfol.sound.tip_linked
  rw [((h.keeps.trans hfol.keeps).entry b).nChainTx] at hlink
  rw [clear_bars_iff] at hclr
  refine lt_of_not_ge fun hle => ?_
  exact hn b ⟨hlink, hle, fun a ha => (hclr a ha).2⟩ fun a ha => (hclr a ha).1

/-- The blocks refused so far, the last first, and what is left to work towards. -/
structure Tracks (tree : BlockTree) (verdict' : BlockAddr → Bool) (recent : List BlockAddr)
    (st : ChainState) (refused : List BlockAddr) (next : ChainState) : Prop where
  breaks : ∀ x ∈ refused, ∃ p, Breaks tree verdict' recent st x p
  refused_failed : ∀ x ∈ refused, (next.entry x).failed = true
  failed : ∀ a, (next.entry a).failed = true →
    (∃ b ∈ tree.line a, ¬Forgiven tree recent st b) ∨ ∃ x ∈ refused, x ∈ tree.line a
  candidates : ∀ c ∈ next.setBlockIndexCandidates, (st.entry c).nChainTx ≠ 0 ∧
    st.rank tree st.tip ≤ st.rank tree c
  complete : ∀ c, Target tree recent st c → (∀ x ∈ refused, x ∉ tree.line c) →
    c ∈ next.setBlockIndexCandidates
  ordered : refused.Pairwise fun x y => Before tree recent st y x
  ahead : ∀ x ∈ refused, ∃ c, Target tree recent st c ∧ x ∈ tree.line c ∧
    ∀ c', Target tree recent st c' → (∀ y ∈ refused, y ∉ tree.line c') →
      st.rank tree c' < st.rank tree c
  tip : (∃ c, Target tree recent st c ∧ ∀ x ∈ refused, x ∉ tree.line c) ∨
    ∃ x earlier, refused = x :: earlier ∧ tree.parent x = some next.tip

namespace Tracks

variable {refused : List BlockAddr}

theorem nil (h : Synced tree verdict st) (hst : Rewound tree verdict' recent st start) :
    Tracks tree verdict' recent st [] start := by
  refine ⟨nofun, nofun, fun a ha => ?_, fun c hc => ?_, fun c hc _ => ?_, .nil, nofun, ?_⟩
  · exact .inl ⟨a, self_mem_line a, (hst.failed a).mp ha⟩
  · obtain ⟨hlink, hle, -⟩ := (hst.candidates c).mp hc
    exact ⟨hlink, hle⟩
  · obtain ⟨hlink, hle, hforg⟩ := hc
    exact (hst.candidates c).mpr ⟨hlink, hle, hforg c (self_mem_line c)⟩
  · exact .inl ⟨st.tip, h.target_tip, nofun⟩

theorem round {m test : BlockAddr} {above : List BlockAddr}
    (h : Tracks tree verdict' recent st refused next)
    (hr : Round tree next st' m test above) (hfail : (next.entry test).failed = true) :
    Tracks tree verdict' recent st refused st' := by
  refine ⟨h.breaks, fun x hx => hr.failed_mono hfail x (h.refused_failed x hx), fun a ha => ?_,
    fun c hc => h.candidates c (hr.mem_candidates.mp hc).1, fun c hc hoff => ?_, h.ordered,
    h.ahead, ?_⟩
  · rcases hr.failed_of_failed hfail a ha with hold | htest
    · exact h.failed a hold
    · rcases h.failed test hfail with ⟨b, hb, hs⟩ | ⟨x, hx, hline⟩
      · exact .inl ⟨b, line_trans htest hb, hs⟩
      · exact .inr ⟨x, hx, line_trans htest hline⟩
  · refine hr.mem_candidates.mpr ⟨h.complete c hc hoff, fun hgone => ?_⟩
    have htest := hr.test_mem_line hgone
    rcases h.failed test hfail with ⟨b, hb, hs⟩ | ⟨x, hx, hline⟩
    · exact hs (hc.2.2 b (line_trans htest hb))
    · exact hoff x hx (line_trans htest hline)
  · rw [hr.tip]
    exact h.tip

section

variable {m fork : BlockAddr} {connected rest : List BlockAddr} {failing : Option BlockAddr}
  (h : Tracks tree verdict' recent st refused next)
  (hst : Rewound tree verdict' recent st start)
  (hfol : Follows tree False verdict' (Bars tree verdict' recent st) start next)
  (hstep : Step tree verdict' next st' m fork connected rest failing)
  (hn : ∀ c, Target tree recent st c → ¬∀ a ∈ tree.line c, verdict' a = true)

include h hst hfol hstep

/-- A step goes towards a target on whose line no block was refused. -/
theorem best_target : Target tree recent st m ∧ ∀ x ∈ refused, x ∉ tree.line m := by
  have hline : ∀ a ∈ tree.line m, (next.entry a).failed = false := by
    intro a ha
    rw [hstep.meets.line] at ha
    rcases mem_append.mp ha with hpath | hfork
    · exact hstep.path_not_failed (mem_reverse.mp hpath)
    · exact hfol.sound.not_failed
        (hfol.sound.tip_clear.of_mem_line (line_trans hstep.meets.mem hfork))
  obtain ⟨hlink, hle⟩ := h.candidates m hstep.best_mem
  refine ⟨⟨hlink, hle, fun a ha => ?_⟩, fun x hx hmem => ?_⟩
  · by_contra hs
    have hfail := hfol.failed_mono a ((hst.failed a).mpr hs)
    rw [hline a ha] at hfail
    cases hfail
  · have hfail := h.refused_failed x hx
    rw [hline x hmem] at hfail
    cases hfail

include hn

/-- No target is pruned. -/
theorem stays {c : BlockAddr} (hc : Target tree recent st c)
    (hoff : ∀ x ∈ refused, x ∉ tree.line c) (hfail : failing ≠ some c) :
    c ∈ st'.setBlockIndexCandidates := by
  refine hstep.candidates_iff.mpr ⟨h.complete c hc hoff, fun b hb => ?_, hfail⟩
  rw [(hst.keeps.trans hfol.keeps).rank]
  have hline : b ∈ tree.line st'.tip := by
    rw [hstep.line_tip]
    exact mem_append_left _ (mem_reverse.mpr hb)
  exact (hst.lt_tip (hfol.step hstep) hn hline).le.trans hc.2.1

theorem step_none (hfail : failing = none) : Tracks tree verdict' recent st refused st' := by
  obtain ⟨htgt, hoff⟩ := h.best_target hst hfol hstep
  refine ⟨h.breaks, fun x hx => hstep.advances.failed_mono x (h.refused_failed x hx),
    fun a ha => ?_, fun c hc => h.candidates c (hstep.candidates_iff.mp hc).1,
    fun c hc hoff => ?_, h.ordered, h.ahead, .inl ⟨m, htgt, hoff⟩⟩
  · rcases hstep.advances.failed_of_failed a ha with hold | hnew
    · exact h.failed a hold
    · rw [hfail] at hnew
      cases hnew
  · exact h.stays hst hfol hstep hn hc hoff (by rw [hfail]; exact nofun)

theorem step_some {x : BlockAddr} (hfail : failing = some x) :
    Tracks tree verdict' recent st (x :: refused) st' := by
  obtain ⟨htgt, hoff⟩ := h.best_target hst hfol hstep
  have hxm := hstep.path_mem_line (hstep.refused_mem hfail)
  have hrank : next.rank tree = st.rank tree := (hst.keeps.trans hfol.keeps).rank
  have hbr : Breaks tree verdict' recent st x st'.tip := by
    refine ⟨hstep.parent_refused hfail, hstep.advances.invalid x hfail, fun a ha => ?_,
      m, htgt, hxm⟩
    exact (clear_bars_iff.mp (hfol.step hstep).sound.tip_clear a ha).1
  -- a target above the block had none of the others on its line
  have hf : ∀ c, x ∈ tree.line c → ∀ y ∈ refused, y ∉ tree.line c := by
    intro c hxc y hy hyc
    obtain ⟨q, hq⟩ := h.breaks y hy
    have hfa := h.refused_failed y hy
    rw [← hbr.unique hq hxc hyc, hstep.path_not_failed (hstep.refused_mem hfail)] at hfa
    cases hfa
  have hcons : ∀ {c}, (∀ y ∈ x :: refused, y ∉ tree.line c) → ∀ y ∈ refused, y ∉ tree.line c :=
    fun hc y hy => hc y (mem_cons_of_mem x hy)
  have hself : ∀ {c}, (∀ y ∈ x :: refused, y ∉ tree.line c) → x ∉ tree.line c :=
    fun hc => hc x mem_cons_self
  constructor
  · exact forall_mem_cons.mpr ⟨⟨_, hbr⟩, h.breaks⟩
  · refine forall_mem_cons.mpr ⟨?_, fun y hy => ?_⟩
    · have hfl := (hstep.advances.failedValid x).mpr (.inr hfail)
      simp [BlockEntry.failed, hfl]
    · exact hstep.advances.failed_mono y (h.refused_failed y hy)
  · intro a ha
    rcases hstep.advances.failed_of_failed a ha with hold | hnew
    · rcases h.failed a hold with hs | ⟨y, hy, hline⟩
      · exact .inl hs
      · exact .inr ⟨y, mem_cons_of_mem x hy, hline⟩
    · obtain rfl := Option.some.inj (hfail.symm.trans hnew)
      exact .inr ⟨x, mem_cons_self, self_mem_line x⟩
  · exact fun c hc => h.candidates c (hstep.candidates_iff.mp hc).1
  · intro c hc hc'
    refine h.stays hst hfol hstep hn hc (hcons hc') fun hx => ?_
    obtain rfl := Option.some.inj (hfail.symm.trans hx)
    exact hself hc' (self_mem_line x)
  · refine pairwise_cons.mpr ⟨fun y hy => ?_, h.ordered⟩
    obtain ⟨c, hc, hyc, hb⟩ := h.ahead y hy
    exact ⟨c, hc, hyc, fun c' hc' hxc' => hb c' hc' (hf c' hxc')⟩
  · refine forall_mem_cons.mpr ⟨⟨m, htgt, hxm, fun c hc hc' => ?_⟩, fun y hy => ?_⟩
    · have hle := le_of_mem_argmax (h.complete c hc (hcons hc')) hstep.best
      rw [hrank] at hle
      refine hle.lt_of_ne fun heq => hself hc' ?_
      rw [rank_injective heq]
      exact hxm
    · obtain ⟨c, hc, hyc, hb⟩ := h.ahead y hy
      exact ⟨c, hc, hyc, fun c' hc' hoff' => hb c' hc' (hcons hoff')⟩
  · exact .inr ⟨x, refused, rfl, hstep.parent_refused hfail⟩

end

/-- In the end all targets have a refused block on their lines, and the tip is below the one
refused last. -/
theorem ends (h : Tracks tree verdict' recent st refused st')
    (hst : Rewound tree verdict' recent st start)
    (hfol : Follows tree False verdict' (Bars tree verdict' recent st) start st')
    (hn : ∀ c, Target tree recent st c → ¬∀ a ∈ tree.line c, verdict' a = true)
    (hend : st'.bestCandidate tree = none ∨ st'.bestCandidate tree = some st'.tip) :
    ∃ x, Breaks tree verdict' recent st x st'.tip ∧
      ∀ y q, Breaks tree verdict' recent st y q → y ≠ x → Before tree recent st y x := by
  have he : st'.setBlockIndexCandidates = [] := by
    refine argmax_eq_none.mp (hend.resolve_right fun hbest => ?_)
    have hle := (h.candidates _ (argmax_mem hbest)).2
    exact absurd hle (not_le.mpr (hst.lt_tip hfol hn (self_mem_line _)))
  have hall : ∀ c, Target tree recent st c → ∃ x ∈ refused, x ∈ tree.line c := by
    intro c hc
    by_contra hoff
    have hmem := h.complete c hc fun x hx hline => hoff ⟨x, hx, hline⟩
    rw [he] at hmem
    cases hmem
  rcases h.tip with ⟨c, hc, hoff⟩ | ⟨x, earlier, rfl, hpar⟩
  · obtain ⟨x, hx, hline⟩ := hall c hc
    exact absurd hline (hoff x hx)
  · obtain ⟨p, hb⟩ := h.breaks x mem_cons_self
    obtain rfl := Option.some.inj (hpar.symm.trans hb.1)
    refine ⟨x, hb, fun y q hy hne => ?_⟩
    obtain ⟨c, hc, hyc⟩ := hy.2.2.2
    obtain ⟨z, hz, hzc⟩ := hall c hc
    obtain ⟨p', hz'⟩ := h.breaks z hz
    rw [← hy.unique hz' hyc hzc] at hz
    refine (pairwise_cons.mp h.ordered).1 y ?_
    exact (mem_cons.mp hz).resolve_left hne

end Tracks

theorem Synced.ends_below_last (h : Synced tree verdict st)
    (hst : Rewound tree verdict' recent st start)
    (hn : ∀ c, Target tree recent st c → ¬∀ a ∈ tree.line c, verdict' a = true)
    (hact : start.activateBestChain tree verdict' fuel = some st') :
    Follows tree False verdict' (Bars tree verdict' recent st) start st' ∧
      ∃ x, Breaks tree verdict' recent st x st'.tip ∧
        ∀ y q, Breaks tree verdict' recent st y q → y ≠ x → Before tree recent st y x := by
  let P := fun next => ∃ refused, Tracks tree verdict' recent st refused next
  have hr : ∀ next st' m test above,
      Follows tree False verdict' (Bars tree verdict' recent st) start next → P next →
      Round tree next st' m test above → (next.entry test).failed = true → P st' := by
    rintro next st' m test above - ⟨refused, ht⟩ hr hf
    exact ⟨refused, ht.round hr hf⟩
  have hstep : ∀ next st' m fork connected rest failing,
      Follows tree False verdict' (Bars tree verdict' recent st) start next → P next →
      Step tree verdict' next st' m fork connected rest failing → P st' := by
    rintro next st' m fork connected rest failing hfol ⟨refused, ht⟩ hstep
    cases hfail : failing with
    | none => exact ⟨refused, ht.step_none hst hfol hstep hn hfail⟩
    | some x => exact ⟨x :: refused, ht.step_some hst hfol hstep hn hfail⟩
  obtain ⟨hfol, ⟨refused, ht⟩, hend⟩ := activateBestChain_follows hr hstep
    (h.linked_start hst) (h.sound_start hst) ⟨[], .nil h hst⟩ hact
  exact ⟨hfol, ht.ends hst hfol hn hend⟩

theorem Before.asymm {x y : BlockAddr} (h : Before tree recent st y x) :
    ¬Before tree recent st x y := by
  rintro ⟨c, hc, hxc, hb⟩
  obtain ⟨c', hc', hyc', hb'⟩ := h
  exact lt_asymm (hb c' hc' hyc') (hb' c hc hxc)

theorem Synced.mostWork_iff_recovers (h : Synced tree verdict st)
    (hst : Rewound tree verdict' recent st start)
    (hact : start.activateBestChain tree verdict' fuel = some st') :
    MostWork tree verdict' st' ↔ Recovers tree verdict' recent st := by
  by_cases hsome : ∃ c, Target tree recent st c ∧ ∀ a ∈ tree.line c, verdict' a = true
  · obtain ⟨c, htgt, hval⟩ := hsome
    exact iff_of_true (h.mostWork_of_target hst htgt hval hact)
      (.inl ⟨c, htgt, hval⟩)
  · have hn : ∀ c, Target tree recent st c → ¬∀ a ∈ tree.line c, verdict' a = true :=
      fun c htgt hval => hsome ⟨c, htgt, hval⟩
    obtain ⟨hfol, x, hb, hl⟩ := h.ends_below_last hst hn hact
    rw [h.mostWork_iff hst hfol, Recovers, or_iff_right hsome]
    constructor
    · exact fun hwork => ⟨x, st'.tip, hb, hl, hwork⟩
    · rintro ⟨y, q, hy, hyl, hwork⟩
      have heq : y = x := by
        by_contra hne
        exact (hl y q hy hne).asymm (hyl x st'.tip hb (Ne.symm hne))
      rw [heq] at hy
      obtain rfl := Option.some.inj (hb.1.symm.trans hy.1)
      exact hwork

/-- After the verdicts have changed, `ReprocessBlocks` returns, and it ends at the best chain
exactly if it recovers. -/
theorem reprocess_most_work_iff {tree : BlockTree} {verdict verdict' : BlockAddr → Bool}
    {events : List ChainEvent} {fuel₀ : Nat} {st : ChainState}
    {mapRejectedBlocks : List (BlockAddr × Int)} {getTime : Int} {nBlocks : Nat}
    (hevs : ∀ event ∈ events, event.Syncs tree verdict)
    (hrun : (initial tree).run tree (events ++ [.activate verdict fuel₀]) = some st)
    (hrejected : ∀ rejected ∈ mapRejectedBlocks, rejected.1 ∈ st.mapBlockIndex →
      (st.entry rejected.1).BLOCK_FAILED_VALID = true) (hdeep : nBlocks < tree.height st.tip)
    (hval : ∀ a ∈ tree.line st.tip, tree.height a + (nBlocks + 1) ≤ tree.height st.tip →
      verdict' a = true) :
    (∃ fuel st', st.reprocessBlocks tree verdict' mapRejectedBlocks getTime nBlocks fuel =
        some st') ∧
      ∀ fuel st', st.reprocessBlocks tree verdict' mapRejectedBlocks getTime nBlocks fuel =
        some st' →
        (MostWork tree verdict' st' ↔
          Recovers tree verdict' (st.recentlyRejected mapRejectedBlocks getTime nBlocks) st) := by
  have hs := synced_run hevs hrun
  obtain ⟨start, hst, hsa⟩ := hs.reprocessBlocks_eq hrejected hdeep hval
  refine ⟨⟨start.toDo tree + 1, ?_⟩, fun fuel st' hret => ?_⟩
  · rw [hsa]
    exact activateBestChain_returns (hs.linked_start hst) (hs.sound_start hst)
      (Nat.lt_succ_self _)
  · rw [hsa] at hret
    exact hs.mostWork_iff_recovers hst hret

/-- The chain of blocks 2, 5 and 11 arrives after that of 1 and 3, but block 2 is rejected. -/
def rejectedEvents : List ChainEvent :=
  [.accept 1, .accept 3, .activate (· != 2) 5, .accept 2, .accept 5, .accept 11]

theorem reprocess_most_work_rejected :
    ∃ st st', (initial binaryTree).run binaryTree
        (rejectedEvents ++ [.activate (· != 2) 5]) = some st ∧ st.tip = 3 ∧
      st.reprocessBlocks binaryTree (fun _ => true) [(2, 0)] 0 1 5 = some st' ∧ st'.tip = 11 ∧
      MostWork binaryTree (fun _ => true) st' := by
  obtain ⟨st, hrun, htip, hfail, hr, htgt, st', hret, htip'⟩ :
      ∃ st ∈ (initial binaryTree).run binaryTree (rejectedEvents ++ [.activate (· != 2) 5]),
        st.tip = 3 ∧ (st.entry 2).BLOCK_FAILED_VALID = true ∧
        st.recentlyRejected [(2, 0)] 0 1 = [2] ∧ Target binaryTree [2] st 11 ∧
        ∃ st' ∈ st.reprocessBlocks binaryTree (fun _ => true) [(2, 0)] 0 1 5, st'.tip = 11 := by
    decide
  have hevs : ∀ event ∈ rejectedEvents, event.Syncs binaryTree (· != 2) := by
    simp only [rejectedEvents, forall_mem_cons, ChainEvent.Syncs, not_mem_nil, false_imp_iff,
      implies_true]
    decide
  have hdeep : 1 < binaryTree.height st.tip := by
    rw [htip]
    decide
  have hiff := (reprocess_most_work_iff hevs hrun (by simpa using fun _ => hfail) hdeep
    fun _ _ _ => rfl).2 5 st' hret
  refine ⟨st, st', hrun, htip, hret, htip', hiff.mpr (.inl ⟨11, ?_, fun _ _ => rfl⟩)⟩
  rw [hr]
  exact htgt

/-- Blocks 1 and 3 are on top of each other, and block 2 competes with them. -/
def competingEvents : List ChainEvent :=
  [.accept 1, .accept 3, .accept 2]

/-- Block 1 is not valid any more.  Block 2 has the most work of the valid ones, but genesis is
the tip in the end. -/
theorem reprocess_stays_at_genesis :
    ∃ st st', (initial binaryTree).run binaryTree
        (competingEvents ++ [.activate (fun _ => true) 5]) = some st ∧ st.tip = 3 ∧
      st.reprocessBlocks binaryTree (· != 1) [] 0 1 5 = some st' ∧ st'.tip = 0 ∧
      Free binaryTree (· != 1) st' 2 ∧ ¬MostWork binaryTree (· != 1) st' := by
  obtain ⟨st, hrun, htip, st', hret, htip', hfree⟩ :
      ∃ st ∈ (initial binaryTree).run binaryTree
        (competingEvents ++ [.activate (fun _ => true) 5]), st.tip = 3 ∧
        ∃ st' ∈ st.reprocessBlocks binaryTree (· != 1) [] 0 1 5,
          st'.tip = 0 ∧ Free binaryTree (· != 1) st' 2 := by
    decide
  refine ⟨st, st', hrun, htip, hret, htip', hfree, fun hmost => ?_⟩
  have hle := hmost.2 2 hfree
  rw [htip'] at hle
  revert hle
  decide

end ChainState

end Divi
