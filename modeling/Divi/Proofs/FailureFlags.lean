/-
Where the flag for descendants of failed blocks stands.

`FindMostWorkChain` and `InvalidateBlock` set `BLOCK_FAILED_CHILD` on blocks above a failed one
only.  `ReconsiderBlock` takes the flags from the ancestors of a block and from its descendants,
but not from the other descendants of those ancestors, which keep the flag without its cause.
-/
import Divi.Proofs.Activation
import Divi.Proofs.ManualValidity

namespace Divi

open ParentTree List Option

namespace ChainState

variable {b pindex : BlockAddr} {fuel : Nat} {verdict : BlockAddr → Bool}
  {tree : BlockTree} {st st' : ChainState}

/-! ### Everything concerns known blocks -/

/-- All that the state refers to is in the map. -/
structure Indexed (tree : BlockTree) (st : ChainState) : Prop where
  parent : ∀ b p, b ∈ st.mapBlockIndex → tree.parent b = some p → p ∈ st.mapBlockIndex
  failed : ∀ b, (st.entry b).failed = true → b ∈ st.mapBlockIndex
  candidates : ∀ b ∈ st.setBlockIndexCandidates, b ∈ st.mapBlockIndex
  unlinked : ∀ b p, (p, b) ∈ st.mapBlocksUnlinked → b ∈ st.mapBlockIndex
  tip : st.tip ∈ st.mapBlockIndex

namespace Indexed

theorem line (h : Indexed tree st) {a : BlockAddr} (hb : b ∈ st.mapBlockIndex)
    (ha : a ∈ tree.line b) : a ∈ st.mapBlockIndex :=
  of_mem_line (P := (· ∈ st.mapBlockIndex)) h.parent hb ha

theorem initial (tree : BlockTree) : Indexed tree (initial tree) := by
  have hroot := tree.parent_root
  refine ⟨?_, ?_, fun b hb => hb, nofun, mem_singleton_self _⟩
  · intro b p hb hpar
    rw [mem_singleton.mp hb, hroot] at hpar
    cases hpar
  · intro b hb
    by_cases hb' : b = tree.root
    · exact mem_singleton.mpr hb'
    · simp [ChainState.initial, hb', BlockEntry.failed] at hb

section

variable (h : Indexed tree st)

include h

theorem acceptBlockHeader (hacc : st.acceptBlockHeader tree b = some st') :
    Indexed tree st' := by
  rcases acceptBlockHeader_eq_some hacc with ⟨-, -, rfl⟩ | ⟨hnew, p, hpar, hp, -, rfl⟩
  · exact h
  · have hk : (st.addToBlockIndex b).mapBlockIndex = st.mapBlockIndex ++ [b] := rfl
    have he := entry_addToBlockIndex st b
    refine ⟨?_, ?_, fun c hc => mem_append_left _ (h.candidates c hc),
      fun c q hc => mem_append_left _ (h.unlinked c q hc), mem_append_left _ h.tip⟩
    · have := h.parent
      grind
    · have := h.failed
      grind [BlockEntry.failed]

/-- With the same map, only what is new has to be looked up. -/
theorem same_map (hmap : st'.mapBlockIndex = st.mapBlockIndex)
    (hfail : ∀ b, (st'.entry b).failed = true → b ∈ st.mapBlockIndex)
    (hc : ∀ b ∈ st'.setBlockIndexCandidates, b ∈ st.mapBlockIndex)
    (hu : ∀ b p, (p, b) ∈ st'.mapBlocksUnlinked → b ∈ st.mapBlockIndex)
    (htip : st'.tip ∈ st.mapBlockIndex) : Indexed tree st' := by
  rw [← hmap] at hfail hc hu htip
  refine ⟨?_, hfail, hc, hu, htip⟩
  rw [hmap]
  exact h.parent

theorem linkBlock (hb : b ∈ st.mapBlockIndex) (hl : Links tree st st' b) :
    Indexed tree (st'.takeUnlinked b).2 := by
  refine h.same_map hl.known ?_ ?_ ?_ ?_
  · intro c hc
    refine h.failed c ?_
    rw [← hl.failed]
    exact hc
  · intro c hc
    rcases (hl.candidates c).mp hc with hold | ⟨rfl, -⟩
    · exact h.candidates c hold
    · exact hb
  · intro c p hc
    refine h.unlinked c p ?_
    rw [← hl.unlinked]
    exact (mem_unlinked_takeUnlinked.mp hc).1
  · rw [show (st'.takeUnlinked b).2.tip = st.tip from hl.tip]
    exact h.tip

theorem processQueue {queue : List BlockAddr} (hq : ∀ c ∈ queue, c ∈ st.mapBlockIndex)
    (hp : st.processQueue tree fuel queue = some st') : Indexed tree st' := by
  refine (processQueue_rule (P := fun queue st => Indexed tree st ∧
    ∀ c ∈ queue, c ∈ st.mapBlockIndex) ?_ ⟨h, hq⟩ hp).1
  rintro b queue st st' ⟨h, hq⟩ hl
  refine ⟨h.linkBlock (hq b mem_cons_self) hl, ?_⟩
  intro c hc
  rw [show (st'.takeUnlinked b).2.mapBlockIndex = st.mapBlockIndex from hl.known]
  rcases mem_append.mp hc with hold | hnew
  · exact hq c (mem_cons_of_mem b hold)
  · rw [mem_takeUnlinked, hl.unlinked] at hnew
    exact h.unlinked c b hnew

theorem receives (hb : b ∈ st.mapBlockIndex) (hrecv : Receives tree st st' b)
    (hu : ∀ c p, (p, c) ∈ st'.mapBlocksUnlinked →
      (p, c) ∈ st.mapBlocksUnlinked ∨ c = b) : Indexed tree st' := by
  refine h.same_map hrecv.known ?_ ?_ ?_ ?_
  · intro c hc
    refine h.failed c ?_
    rw [← hrecv.failed]
    exact hc
  · rw [hrecv.candidates]
    exact h.candidates
  · intro c p hc
    rcases hu c p hc with hold | rfl
    · exact h.unlinked c p hold
    · exact hb
  · rw [hrecv.tip]
    exact h.tip

theorem round {m test : BlockAddr} {above : List BlockAddr}
    (hr : Round tree st st' m test above) : Indexed tree st' := by
  have ha : ∀ b ∈ above, b ∈ st.mapBlockIndex := by
    intro b hb
    exact h.line (h.candidates m hr.best_mem) (hr.gone_mem_line (mem_append_left _ hb))
  refine h.same_map hr.known ?_ ?_ ?_ ?_
  · intro b hb
    rcases Bool.or_eq_true_iff.mp hb with hval | hc
    · rw [hr.failedValid] at hval
      exact h.failed b (Bool.or_eq_true_iff.mpr (.inl hval))
    · rcases hr.failedChild b hc with hold | ⟨hnew, -⟩
      · exact h.failed b (Bool.or_eq_true_iff.mpr (.inr hold))
      · exact ha b hnew
  · intro b hb
    exact h.candidates b (hr.mem_candidates.mp hb).1
  · intro b p hb
    rcases hr.unlinked hb with hold | hnew
    · exact h.unlinked b p hold
    · exact ha b hnew
  · rw [hr.tip]
    exact h.tip

theorem step {m fork : BlockAddr} {connected rest : List BlockAddr}
    {refused : Option BlockAddr} (hstep : Step tree verdict st st' m fork connected rest refused) :
    Indexed tree st' := by
  have hline : ∀ b ∈ tree.line m, b ∈ st.mapBlockIndex := fun b hb =>
    h.line (h.candidates m hstep.best_mem) hb
  refine h.same_map hstep.keeps.known ?_ ?_ ?_ (hline _ hstep.tip_mem_line)
  · intro b hb
    rcases hstep.advances.failed_of_failed b hb with hold | hnew
    · exact h.failed b hold
    · exact hline b (hstep.path_mem_line (hstep.refused_mem hnew))
  · intro b hb
    exact h.candidates b (hstep.candidates_iff.mp hb).1
  · intro b p hb
    rw [hstep.keeps.unlinked] at hb
    exact h.unlinked b p hb

theorem invalidates (hp : pindex ∈ st.mapBlockIndex)
    (hinv : Invalidates tree pindex st st') : Indexed tree st' := by
  refine h.same_map hinv.keeps.known ?_ ?_ ?_ (h.line h.tip hinv.tip)
  · intro b hb
    rcases hinv.failed_of_failed b hb with hold | ⟨-, rfl | hnew⟩
    · exact h.failed b hold
    · exact hp
    · exact h.line h.tip hnew
  · intro b hb
    rcases hinv.candidates b hb with hold | ⟨hk, -⟩
    · exact h.candidates b hold
    · exact hk
  · rw [hinv.keeps.unlinked]
    exact h.unlinked

theorem reconsiders (hr : Reconsiders tree pindex st st') : Indexed tree st' := by
  refine h.same_map hr.keeps.known ?_ ?_ ?_ ?_
  · intro b hb
    exact h.failed b ((hr.failed_iff b).mp hb).1
  · intro b hb
    rcases (hr.candidates b).mp hb with hold | ⟨hfail, -⟩
    · exact h.candidates b hold
    · exact h.failed b hfail
  · rw [hr.keeps.unlinked]
    exact h.unlinked
  · rw [hr.tip]
    exact h.tip

theorem receivedBlockTransactions (hb : b ∈ st.mapBlockIndex)
    (hr : st.receivedBlockTransactions tree b = some st') : Indexed tree st' := by
  obtain ⟨next, hrecv, hca⟩ := receivedBlockTransactions_cases hr
  rcases hca with ⟨-, hs, fuel, hq⟩ | ⟨p, -, ⟨-, hw, rfl⟩ | ⟨-, hs, rfl⟩⟩
  · refine processQueue (h.receives hb hrecv ?_) ?_ hq
    · rw [hs]
      exact fun c q hc => .inl hc
    · intro c hc
      rw [hrecv.known, mem_singleton.mp hc]
      exact hb
  · refine h.receives hb hrecv ?_
    rw [hw]
    intro c q hc
    refine (mem_append.mp hc).imp_right fun hnew => ?_
    exact (Prod.mk.inj (mem_singleton.mp hnew)).2
  · refine h.receives hb hrecv ?_
    rw [hs]
    exact fun c q hc => .inl hc

theorem activateBestChain (hact : st.activateBestChain tree verdict fuel = some st') :
    Indexed tree st' := by
  refine (activateBestChain_rule ?_ ?_ h hact).1
  · intro st st' m test above h hr
    exact h.round hr
  · intro st st' m fork connected rest refused h hstep
    exact h.step hstep

theorem applyEvent {event : ChainEvent} (hstep : st.applyEvent tree event = some st') :
    Indexed tree st' := by
  cases event with
  | header b =>
    cases hstep
    cases hacc : st.acceptBlockHeader tree b with
    | none => exact h
    | some next => exact h.acceptBlockHeader hacc
  | blockData b =>
    obtain ⟨hb, hstep⟩ := ite_none_right_eq_some.mp hstep
    exact h.receivedBlockTransactions hb.1 hstep
  | accept b =>
    rcases acceptBlock_cases hstep with rfl | ⟨next, hhdr, rfl | ht⟩
    · exact h
    · exact h.acceptBlockHeader hhdr
    · exact (h.acceptBlockHeader hhdr).receivedBlockTransactions ht.known ht.received
  | activate verdict fuel => exact h.activateBestChain hstep
  | invalidate b =>
    obtain ⟨hb, hstep⟩ := ite_none_right_eq_some.mp hstep
    exact h.invalidates hb (invalidateBlock_spec hstep)
  | reconsider b =>
    obtain ⟨-, hstep⟩ := ite_none_right_eq_some.mp hstep
    cases hstep
    exact h.reconsiders (reconsiderBlock_spec b h.failed)

end

end Indexed

/-! ### The cause of the flag -/

/-- Every block marked as a descendant of a failed block is on top of one, or is one itself. -/
def Caused (tree : BlockTree) (st : ChainState) : Prop :=
  ∀ b, (st.entry b).BLOCK_FAILED_CHILD = true →
    ∃ a ∈ tree.line b, (st.entry a).BLOCK_FAILED_VALID = true

namespace Caused

theorem initial (tree : BlockTree) : Caused tree (initial tree) := by
  intro b hb
  by_cases hroot : b = tree.root <;> simp [ChainState.initial, hroot] at hb

section

variable (h : Caused tree st)

include h

/-- Nothing else is marked, and no cause is lost. -/
theorem change (hc : ∀ b, (st'.entry b).BLOCK_FAILED_CHILD = true →
      (st.entry b).BLOCK_FAILED_CHILD = true ∨
        ∃ a ∈ tree.line b, (st'.entry a).BLOCK_FAILED_VALID = true)
    (hval : ∀ b, (st.entry b).BLOCK_FAILED_VALID = true →
      (st'.entry b).BLOCK_FAILED_VALID = true) : Caused tree st' := by
  intro b hb
  rcases hc b hb with hold | hnew
  · obtain ⟨a, ha, hca⟩ := h b hold
    exact ⟨a, ha, hval a hca⟩
  · exact hnew

theorem of_failed (hb : (st.entry b).failed = true) :
    ∃ a ∈ tree.line b, (st.entry a).BLOCK_FAILED_VALID = true := by
  rcases Bool.or_eq_true_iff.mp hb with hval | hc
  · exact ⟨b, self_mem_line b, hval⟩
  · exact h b hc

theorem acceptBlockHeader (hidx : Indexed tree st)
    (hacc : st.acceptBlockHeader tree b = some st') : Caused tree st' := by
  rcases acceptBlockHeader_eq_some hacc with ⟨-, -, rfl⟩ | ⟨hnew, -, -, -, -, rfl⟩
  · exact h
  · have he := entry_addToBlockIndex st b
    have hfail := hidx.failed
    refine h.change ?_ ?_
    · grind
    · grind [BlockEntry.failed]

theorem receivedBlockTransactions (hrecv : st.receivedBlockTransactions tree b = some st') :
    Caused tree st' := by
  have hf := receivedBlockTransactions_flags hrecv
  refine h.change (fun c hc => .inl ?_) (fun c hc => (hf c).1.trans hc)
  rw [← (hf c).2]
  exact hc

theorem activateBestChain (hact : st.activateBestChain tree verdict fuel = some st') :
    Caused tree st' := by
  refine (activateBestChain_rule ?_ ?_ h hact).1
  · intro st st' m test above h hr
    have hval := hr.failedValid
    refine h.change (fun b hb => ?_) (fun b hb => (hval b).trans hb)
    refine (hr.failedChild b hb).imp_right fun ⟨hab, hfail⟩ => ?_
    obtain ⟨a, ha, hc⟩ := h.of_failed hfail
    exact ⟨a, line_trans (hr.test_mem_line (mem_append_left _ hab)) ha,
      (hval a).trans hc⟩
  · intro st st' m fork connected rest refused h hstep
    refine h.change (fun b hb => .inl ?_) (fun b hb => ?_)
    · exact (hstep.advances.failedChild b).symm.trans hb
    · exact (hstep.advances.failedValid b).mpr (.inl hb)

theorem invalidates (hinv : Invalidates tree pindex st st') : Caused tree st' := by
  refine h.change (fun b hb => ?_) (fun b hb => (hinv.failedValid b).mpr (.inl hb))
  refine (hinv.failedChild b hb).imp_right fun hnew => ?_
  exact ⟨pindex, hnew.1, (hinv.failedValid pindex).mpr (.inr rfl)⟩

end

end Caused

/-- A marked block that `ReconsiderBlock` passes over has a cause that it passes over too. -/
def LeavesCause (tree : BlockTree) (st : ChainState) : ChainEvent → Prop
  | .reconsider b => ∀ c, (st.entry c).BLOCK_FAILED_CHILD = true → ¬Related tree b c →
      ∃ a ∈ tree.line c, (st.entry a).BLOCK_FAILED_VALID = true ∧ a ∉ tree.line b
  | _ => True

theorem Reconsiders.caused_iff (h : Reconsiders tree pindex st st') :
    Caused tree st' ↔ LeavesCause tree st (.reconsider pindex) := by
  -- what is below a block without the reconsidered one below cannot be above that
  have hab : ∀ a c, a ∈ tree.line c → ¬Related tree pindex c →
      (¬Related tree pindex a ↔ a ∉ tree.line pindex) := by
    intro a c ha hc
    unfold Related at hc ⊢
    rw [not_or]
    exact and_iff_right fun hlt => hc (.inl (line_trans ha hlt))
  constructor
  · intro hcau c hch hc
    obtain ⟨a, ha, hca⟩ := hcau c ((h.failedChild c).mpr ⟨hch, hc⟩)
    obtain ⟨hval, hr⟩ := (h.failedValid a).mp hca
    exact ⟨a, ha, hval, (hab a c ha hc).mp hr⟩
  · intro hl c hch
    obtain ⟨hch, hc⟩ := (h.failedChild c).mp hch
    obtain ⟨a, ha, hval, hoff⟩ := hl c hch hc
    exact ⟨a, ha, (h.failedValid a).mpr ⟨hval, (hab a c ha hc).mpr hoff⟩⟩

theorem Caused.applyEvent_iff {event : ChainEvent} (h : Caused tree st)
    (hidx : Indexed tree st) (hstep : st.applyEvent tree event = some st') :
    Caused tree st' ↔ LeavesCause tree st event := by
  cases event with
  | header b =>
    refine iff_of_true ?_ trivial
    cases hstep
    cases hacc : st.acceptBlockHeader tree b with
    | none => exact h
    | some next => exact h.acceptBlockHeader hidx hacc
  | blockData b =>
    refine iff_of_true ?_ trivial
    obtain ⟨-, hstep⟩ := ite_none_right_eq_some.mp hstep
    exact h.receivedBlockTransactions hstep
  | accept b =>
    refine iff_of_true ?_ trivial
    rcases acceptBlock_cases hstep with rfl | ⟨next, hhdr, rfl | ht⟩
    · exact h
    · exact h.acceptBlockHeader hidx hhdr
    · exact (h.acceptBlockHeader hidx hhdr).receivedBlockTransactions ht.received
  | activate verdict fuel => exact iff_of_true (h.activateBestChain hstep) trivial
  | invalidate b =>
    refine iff_of_true ?_ trivial
    obtain ⟨-, hstep⟩ := ite_none_right_eq_some.mp hstep
    exact h.invalidates (invalidateBlock_spec hstep)
  | reconsider b =>
    obtain ⟨-, hstep⟩ := ite_none_right_eq_some.mp hstep
    cases hstep
    exact (reconsiderBlock_spec b hidx.failed).caused_iff

/-- Along a run every mark has its cause if and only if no `ReconsiderBlock` leaves a mark whose
causes it takes away. -/
theorem failed_child_caused_iff (tree : BlockTree) (events : List ChainEvent) :
    (∀ before after st, events = before ++ after →
        (initial tree).run tree before = some st → Caused tree st) ↔
      ∀ before event after st st', events = before ++ event :: after →
        (initial tree).run tree before = some st → st.applyEvent tree event = some st' →
          LeavesCause tree st event := by
  refine runFrom_always_iff (I := Indexed tree) (Q := Caused tree)
    (C := fun event st => LeavesCause tree st event) ?_ ?_ (.initial tree) (.initial tree) events
  · intro st event st' h hstep
    exact h.applyEvent hstep
  · intro st event st' hidx h hstep
    exact h.applyEvent_iff hidx hstep

/-- Blocks 3 and 4 have the parent 1, which is invalidated while 3 is the tip. -/
def siblingEvents : List ChainEvent :=
  [.header 1, .header 3, .header 4, .blockData 1, .blockData 3, .blockData 4,
    .activate (fun _ => true) 5, .invalidate 1, .activate (fun _ => true) 5]

/-- Reconsidering the block that was invalidated leaves nothing. -/
theorem failed_child_caused_invalidated :
    ∃ st, (initial binaryTree).run binaryTree (siblingEvents ++ [.reconsider 1]) = some st ∧
      Caused binaryTree st := by
  obtain ⟨st, hrun⟩ := isSome_iff_exists.mp
    (by decide : ((initial binaryTree).run binaryTree (siblingEvents ++ [.reconsider 1])).isSome)
  refine ⟨st, hrun, (failed_child_caused_iff binaryTree (siblingEvents ++ [.reconsider 1])).mpr ?_
    (siblingEvents ++ [.reconsider 1]) [] st (append_nil _).symm hrun⟩
  intro before event after mid next hevs hmid _
  have hs : ∀ event ∈ siblingEvents, LeavesCause binaryTree mid event := by
    simp [siblingEvents, LeavesCause]
  rcases eq_nil_or_concat after with rfl | ⟨after, last, rfl⟩
  · obtain ⟨rfl, hl⟩ := append_inj' hevs rfl
    obtain rfl := (List.cons.inj hl).1
    have hmap : ∀ st ∈ (initial binaryTree).run binaryTree siblingEvents,
        st.mapBlockIndex = [0, 1, 3, 4] := by
      decide
    have hr : ∀ c ∈ [0, 1, 3, 4], 1 ∈ binaryTree.line c ∨ c ∈ binaryTree.line 1 := by
      decide
    have hidx := runFrom_invariant (fun st event st' h hstep => Indexed.applyEvent h hstep)
      (Indexed.initial binaryTree) hmid
    intro c hch hc
    refine absurd (hr c ?_) hc
    rw [← hmap mid hmid]
    exact hidx.failed c (Bool.or_eq_true_iff.mpr (.inr hch))
  · rw [concat_eq_append, ← cons_append, ← append_assoc] at hevs
    refine hs event ?_
    rw [(append_inj' hevs rfl).1]
    exact mem_append_right _ mem_cons_self

/-- Reconsidering block 3 takes the flags from block 1 below it, but not from block 4. -/
theorem sibling_keeps_flag :
    ∃ st, (initial binaryTree).run binaryTree (siblingEvents ++ [.reconsider 3]) = some st ∧
      (st.entry 4).BLOCK_FAILED_CHILD = true ∧
      ∀ a ∈ binaryTree.line 4, (st.entry a).BLOCK_FAILED_VALID = false := by
  show ∃ st ∈ (initial binaryTree).run binaryTree (siblingEvents ++ [.reconsider 3]), _
  decide

end ChainState

end Divi
