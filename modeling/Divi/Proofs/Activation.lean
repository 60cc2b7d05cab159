/-
Activation of the best chain as rounds and steps.

A round of `FindMostWorkChain` drops a chain that cannot be used; a step connects blocks
towards the best candidate.  What both keep holds when activation returns, and then the tip is
the best candidate or there is none.

Some blocks are barred: a block other than genesis that does not connect, or one that has
failed for a reason of its own.  No barred block is ever on the active chain, and every failure
flag is on top of a barred block.  Activation returns because every step that does not reach
its candidate has a known block fail or gets beyond the work of the old tip.
-/
import Divi.Proofs.BlockArrival
import Mathlib.Algebra.Order.BigOperators.Group.List
import Mathlib.Algebra.Order.Group.Nat

namespace Divi

open ParentTree List Option

variable {b test : BlockAddr} {fuel : Nat} {above : List BlockAddr} {next : ChainState}
  {tree : BlockTree} {late : Prop} {verdict : BlockAddr → Bool}
  {bar : BlockAddr → Prop} {queue connected rest : List BlockAddr} {st st' : ChainState}
  {m fork : BlockAddr} {refused : Option BlockAddr}

namespace ChainState

/-! ### Steps -/

/-- What a step towards the best candidate finds and does. -/
structure Step (tree : BlockTree) (verdict : BlockAddr → Bool) (st st' : ChainState)
    (m fork : BlockAddr) (connected rest : List BlockAddr)
    (refused : Option BlockAddr) : Prop where
  best : st.bestCandidate tree = some m
  usable : ∀ b ∈ connected ++ rest, st.usable b = true
  meets : tree.Meets m st.tip fork (connected ++ rest)
  advances : Advances tree verdict { st with tip := fork } st' connected refused
  head : ∀ b, refused = some b → rest.head? = some b
  progress : rest = [] ∨ tree.nChainWork st.tip < tree.nChainWork st'.tip ∨ ∃ b, refused = some b

namespace Step

variable (h : Step tree verdict st st' m fork connected rest refused)

include h

theorem best_mem : m ∈ st.setBlockIndexCandidates := argmax_mem h.best

theorem keeps : st.Keeps st' :=
  ⟨h.advances.keeps.known, h.advances.keeps.unlinked, h.advances.keeps.entry⟩

theorem path_mem_line (hb : b ∈ connected ++ rest) : b ∈ tree.line m := by
  rw [← h.meets.last]
  exact h.meets.climbs.mem_line hb

theorem path_ne_root (hb : b ∈ connected ++ rest) : b ≠ tree.root := by
  rintro rfl
  exact h.meets.off _ hb (root_mem_line _)

theorem path_not_failed (hb : b ∈ connected ++ rest) : (st.entry b).failed = false := by
  have hu := h.usable b hb
  simp only [ChainState.usable, Bool.and_eq_true, Bool.not_eq_true'] at hu
  exact hu.1

theorem refused_mem (hb : refused = some b) : b ∈ connected ++ rest :=
  mem_append_right _ (mem_of_mem_head? (h.head b hb))

theorem tip_mem_line : st'.tip ∈ tree.line m := by
  have hl := h.meets.last
  rw [getLastD_append] at hl
  rw [h.advances.tip, ← hl]
  exact h.meets.climbs.append.2.start_mem_line

/-- The line of the new tip has the connected blocks on top of a part of the active chain. -/
theorem line_tip : tree.line st'.tip = connected.reverse ++ tree.line fork := by
  rw [h.advances.tip]
  exact h.meets.climbs.append.1.line_last

theorem parent_refused (hb : refused = some b) : tree.parent b = some st'.tip := by
  have hc := h.meets.climbs.append.2
  have hhead := h.head b hb
  rw [h.advances.tip]
  cases rest with
  | nil => cases hhead
  | cons c rest =>
    obtain rfl : c = b := Option.some.inj hhead
    exact hc.1

theorem candidates_iff : b ∈ st'.setBlockIndexCandidates ↔
    b ∈ st.setBlockIndexCandidates ∧ (∀ c ∈ connected, st.rank tree c ≤ st.rank tree b) ∧
      refused ≠ some b :=
  h.advances.candidates b

theorem connected_le_tip {c : BlockAddr} (hc : c ∈ connected) :
    st.rank tree c ≤ st.rank tree st'.tip := by
  refine rank_le_of_mem_line ?_
  rw [h.line_tip]
  exact mem_append_left _ (mem_reverse.mpr hc)

/-- The new tip is no better than the candidates that are left. -/
theorem tip_le (ha : ∀ b ∈ st.setBlockIndexCandidates, st.rank tree st.tip ≤ st.rank tree b)
    (hb : b ∈ st'.setBlockIndexCandidates) : st.rank tree st'.tip ≤ st.rank tree b := by
  obtain ⟨hpre, hconn, -⟩ := h.candidates_iff.mp hb
  rcases eq_nil_or_concat connected with rfl | ⟨initial, last, rfl⟩
  · rw [h.advances.tip]
    exact (rank_le_of_mem_line h.meets.mem).trans (ha b hpre)
  · rw [h.advances.tip, concat_eq_append, getLastD_concat]
    exact hconn last (by simp)

/-- A candidate that is reached is still the best one. -/
theorem best_of_tip (htip : st'.tip = m) : st'.bestCandidate tree = some m := by
  have hm : m ∈ st'.setBlockIndexCandidates := by
    refine h.candidates_iff.mpr ⟨h.best_mem, fun c hc => ?_, fun hr => ?_⟩
    · exact rank_le_of_mem_line (h.path_mem_line (mem_append_left _ hc))
    · have hpar := h.parent_refused hr
      rw [htip] at hpar
      exact self_notMem_line_parent hpar (self_mem_line m)
  obtain ⟨m', hm'⟩ : ∃ m', st'.bestCandidate tree = some m' := by
    refine ne_none_iff_exists'.mp fun hn => ?_
    rw [argmax_eq_none.mp hn] at hm
    cases hm
  have hle := le_of_mem_argmax hm hm'
  have hge := le_of_mem_argmax (h.candidates_iff.mp (argmax_mem hm')).1 h.best
  rw [h.keeps.rank] at hle
  rw [hm', rank_injective (hge.antisymm hle)]

/-- A step reaches its candidate, passes the old tip, or has a block fail. -/
theorem reaches_or : st'.tip = m ∨ tree.nChainWork st.tip < tree.nChainWork st'.tip ∨
    ∃ b ∈ tree.line m, (st.entry b).failed = false ∧ (st'.entry b).failed = true := by
  rcases h.progress with rfl | hwork | ⟨b, hb⟩
  · left
    rw [h.advances.tip, ← h.meets.last, append_nil]
  · exact .inr (.inl hwork)
  · have hpath := h.refused_mem hb
    refine .inr (.inr ⟨b, h.path_mem_line hpath, h.path_not_failed hpath, ?_⟩)
    have hf := (h.advances.failedValid b).mpr (.inr hb)
    simp [BlockEntry.failed, hf]

end Step

theorem exists_step (hbest : st.bestCandidate tree = some m)
    (hu : ∀ b ∈ st.offChain tree m, st.usable b = true)
    (h : st.activateBestChainStep tree verdict m = some st') :
    ∃ fork connected rest refused, Step tree verdict st st' m fork connected rest refused := by
  obtain ⟨fork, path, hm⟩ := exists_meets tree.toParentTree m st.tip
  rw [activateBestChainStep_eq hm] at h
  obtain ⟨⟨next, fContinue⟩, hconn, rfl⟩ := map_eq_some_iff.mp h
  obtain ⟨connected, rest, refused, rfl, ha, hhead, hp⟩ := connectBlocks_spec hconn
  refine ⟨fork, connected, rest, refused, hbest, fun b hb => ?_, hm, ha, hhead,
    hp⟩
  refine hu b ?_
  rw [offChain_eq hm, mem_reverse]
  exact hb

theorem activateBestChainStep_returns (verdict : BlockAddr → Bool)
    (hm : m ∈ st.setBlockIndexCandidates) :
    ∃ st', st.activateBestChainStep tree verdict m = some st' := by
  obtain ⟨fork, path, hme⟩ := exists_meets tree.toParentTree m st.tip
  obtain ⟨⟨st', fContinue⟩, hret⟩ : ∃ result,
      ({ st with tip := fork } : ChainState).connectBlocks tree verdict st.tip path =
        some result := by
    refine connectBlocks_returns hme.climbs ?_
    rw [hme.last]
    exact hm
  refine ⟨st', ?_⟩
  rw [activateBestChainStep_eq hme, hret]
  rfl

/-! ### The loop -/

section

variable {P : ChainState → Prop}
  (hr : ∀ st st' m test above, P st → Round tree st st' m test above → P st')
  (hstep : ∀ st st' m fork connected rest refused, P st →
    Step tree verdict st st' m fork connected rest refused → P st')

include hr hstep

/-- What every round and every step keeps holds when activation returns, and the tip is the best
candidate unless there is none. -/
theorem activateBestChain_rule (hP : P st) (h : st.activateBestChain tree verdict fuel = some st') :
    P st' ∧ (st'.bestCandidate tree = none ∨ st'.bestCandidate tree = some st'.tip) := by
  revert h
  fun_induction activateBestChain tree verdict fuel st with
  | case1 | case2 | case5 => nofun
  | case3 fuel st found hfind =>
    rintro ⟨⟩
    obtain ⟨hf, hbest, -⟩ := findLoop_rule hr hP hfind
    exact ⟨hf, .inl hbest⟩
  | case4 fuel st found hfind =>
    rintro ⟨⟩
    obtain ⟨hf, hbest, -⟩ := findLoop_rule hr hP hfind
    exact ⟨hf, .inr hbest⟩
  | case6 fuel st found next hfind _ hnext =>
    rintro ⟨⟩
    obtain ⟨hf, hbest, hu⟩ := findLoop_rule hr hP hfind
    obtain ⟨fork, connected, rest, refused, ht⟩ := exists_step hbest (hu _ rfl) hnext
    exact ⟨hstep _ _ _ _ _ _ _ hf ht, .inr (ht.best_of_tip rfl)⟩
  | case7 fuel st m found hfind _ next hnext _ ih =>
    obtain ⟨hf, hbest, hu⟩ := findLoop_rule hr hP hfind
    obtain ⟨fork, connected, rest, refused, ht⟩ := exists_step hbest (hu m rfl) hnext
    exact ih (hstep _ _ _ _ _ _ _ hf ht)

end

/-! ### Barred blocks -/

/-- No block of the line is barred. -/
def Clear (tree : BlockTree) (bar : BlockAddr → Prop) (b : BlockAddr) : Prop :=
  ∀ a ∈ tree.line b, ¬bar a

theorem Clear.of_mem_line {a : BlockAddr} (h : Clear tree bar b) (ha : a ∈ tree.line b) :
    Clear tree bar a :=
  fun c hc => h c (line_trans ha hc)

/-- The active chain and the flags, given which blocks are barred. -/
structure Sound (tree : BlockTree) (verdict : BlockAddr → Bool) (bar : BlockAddr → Prop)
    (st : ChainState) : Prop where
  bar_invalid : ∀ b, b ≠ tree.root → verdict b = false → bar b
  bar_cases : ∀ b, bar b → verdict b = false ∨ (st.entry b).failed = true ∧ b ∈ st.mapBlockIndex
  failed_bar : ∀ b, (st.entry b).failed = true → ∃ a ∈ tree.line b, bar a
  candidate_linked : ∀ b ∈ st.setBlockIndexCandidates, (st.entry b).nChainTx ≠ 0
  candidate_above : ∀ b ∈ st.setBlockIndexCandidates, st.rank tree st.tip ≤ st.rank tree b
  tip_linked : (st.entry st.tip).nChainTx ≠ 0
  tip_clear : Clear tree bar st.tip

theorem Round.failed (h : Round tree st st' m test above) (hlink : Linked tree late queue st)
    (hc : ∀ b ∈ st.setBlockIndexCandidates, (st.entry b).nChainTx ≠ 0) :
    (st.entry test).failed = true := by
  have htest : (st.entry test).nChainTx ≠ 0 :=
    hlink.line_linked (h.gone_mem_line (mem_append_right _ (mem_singleton_self test)))
      (hc m h.best_mem)
  have hu := h.unusable
  unfold usable at hu
  rw [hlink.linked_data test htest, Bool.and_true, Bool.not_eq_false'] at hu
  exact hu

namespace Sound

theorem not_failed (h : Sound tree verdict bar st) (hb : Clear tree bar b) :
    (st.entry b).failed = false := by
  rw [← Bool.not_eq_true]
  intro hfail
  obtain ⟨a, ha, hbar⟩ := h.failed_bar b hfail
  exact hb a ha hbar

/-- What a step of activation has to say to be followed. -/
theorem move (h : Sound tree verdict bar st) (hkeep : st.Keeps st')
    (hmono : ∀ b, (st.entry b).failed = true → (st'.entry b).failed = true)
    (hfail : ∀ b, (st'.entry b).failed = true →
      (st.entry b).failed = true ∨ ∃ a ∈ tree.line b, bar a)
    (hc : ∀ b ∈ st'.setBlockIndexCandidates, b ∈ st.setBlockIndexCandidates ∧
      st.rank tree st'.tip ≤ st.rank tree b)
    (htip : (st.entry st'.tip).nChainTx ≠ 0) (htipClear : Clear tree bar st'.tip) :
    Sound tree verdict bar st' := by
  constructor
  · exact h.bar_invalid
  · intro b hb
    rw [hkeep.known]
    exact (h.bar_cases b hb).imp_right (And.imp_left (hmono b))
  · intro b hb
    rcases hfail b hb with hold | hnew
    · exact h.failed_bar b hold
    · exact hnew
  · intro b hb
    rw [(hkeep.entry b).nChainTx]
    exact h.candidate_linked b (hc b hb).1
  · intro b hb
    rw [hkeep.rank]
    exact (hc b hb).2
  · rw [(hkeep.entry _).nChainTx]
    exact htip
  · exact htipClear

theorem round (h : Sound tree verdict bar st) (hr : Round tree st st' m test above)
    (hfail : (st.entry test).failed = true) : Sound tree verdict bar st' := by
  obtain ⟨a, ha, hbar⟩ := h.failed_bar test hfail
  refine h.move (hr.keeps hfail) (hr.failed_mono hfail) ?_ ?_ ?_ ?_
  · intro b hb
    refine (hr.failed_of_failed hfail b hb).imp_right fun htest => ?_
    exact ⟨a, line_trans htest ha, hbar⟩
  · intro b hb
    rw [hr.tip]
    have hpre := (hr.mem_candidates.mp hb).1
    exact ⟨hpre, h.candidate_above b hpre⟩
  · rw [hr.tip]
    exact h.tip_linked
  · rw [hr.tip]
    exact h.tip_clear

section

variable (h : Sound tree verdict bar st)
  (hstep : Step tree verdict st st' m fork connected rest refused)

include h hstep

/-- Blocks that connect and had not failed are not barred. -/
theorem step_tip_clear : Clear tree bar st'.tip := by
  intro a ha hbar
  rw [hstep.line_tip] at ha
  rcases mem_append.mp ha with hconn | hfork
  · rw [mem_reverse] at hconn
    rcases h.bar_cases a hbar with hver | ⟨hfail, -⟩
    · rw [hstep.advances.valid a hconn] at hver
      cases hver
    · rw [hstep.path_not_failed (mem_append_left _ hconn)] at hfail
      cases hfail
  · exact h.tip_clear a (line_trans hstep.meets.mem hfork) hbar

theorem refused_bar (hb : refused = some b) : bar b :=
  h.bar_invalid b (hstep.path_ne_root (hstep.refused_mem hb)) (hstep.advances.invalid b hb)

theorem step (hlink : Linked tree late queue st) : Sound tree verdict bar st' := by
  refine h.move hstep.keeps hstep.advances.failed_mono ?_ ?_ ?_ (h.step_tip_clear hstep)
  · intro b hb
    refine (hstep.advances.failed_of_failed b hb).imp_right fun hnew => ?_
    exact ⟨b, self_mem_line b, h.refused_bar hstep hnew⟩
  · intro b hb
    exact ⟨(hstep.candidates_iff.mp hb).1, hstep.tip_le h.candidate_above hb⟩
  · exact hlink.line_linked hstep.tip_mem_line (h.candidate_linked m hstep.best_mem)

end

end Sound

/-- What holds between the rounds and steps of an activation. -/
structure Follows (tree : BlockTree) (late : Prop) (verdict : BlockAddr → Bool)
    (bar : BlockAddr → Prop) (st st' : ChainState) : Prop where
  linked : Linked tree late [] st'
  sound : Sound tree verdict bar st'
  keeps : st.Keeps st'
  failed_mono : ∀ b, (st.entry b).failed = true → (st'.entry b).failed = true

namespace Follows

theorem refl (hlink : Linked tree late [] st) (hs : Sound tree verdict bar st) :
    Follows tree late verdict bar st st :=
  ⟨hlink, hs, ⟨rfl, rfl, fun _ => .refl _⟩, fun _ hb => hb⟩

section

variable (h : Follows tree late verdict bar st next)

include h

theorem trans (h' : Follows tree late verdict bar next st') :
    Follows tree late verdict bar st st' :=
  ⟨h'.linked, h'.sound, h.keeps.trans h'.keeps, fun b hb => h'.failed_mono b (h.failed_mono b hb)⟩

theorem round (hr : Round tree next st' m test above) :
    Follows tree late verdict bar st st' := by
  have hfail := hr.failed h.linked h.sound.candidate_linked
  have hmono := hr.failed_mono hfail
  exact h.trans ⟨h.linked.keeps (hr.keeps hfail) fun _ => hmono,
    h.sound.round hr hfail, hr.keeps hfail, hmono⟩

theorem step (hstep : Step tree verdict next st' m fork connected rest refused) :
    Follows tree late verdict bar st st' :=
  h.trans ⟨h.linked.keeps hstep.keeps fun _ => hstep.advances.failed_mono,
    h.sound.step hstep h.linked, hstep.keeps, hstep.advances.failed_mono⟩

end

end Follows

/-- The rule for activation, with what holds anyway. -/
theorem activateBestChain_follows {P : ChainState → Prop}
    (hr : ∀ next st' m test above, Follows tree late verdict bar st next → P next →
      Round tree next st' m test above → (next.entry test).failed = true → P st')
    (hstep : ∀ next st' m fork connected rest refused, Follows tree late verdict bar st next →
      P next → Step tree verdict next st' m fork connected rest refused → P st')
    (hlink : Linked tree late [] st) (hs : Sound tree verdict bar st) (hP : P st)
    (h : st.activateBestChain tree verdict fuel = some st') :
    Follows tree late verdict bar st st' ∧ P st' ∧
      (st'.bestCandidate tree = none ∨ st'.bestCandidate tree = some st'.tip) := by
  rw [← and_assoc]
  refine activateBestChain_rule (P := fun next => Follows tree late verdict bar st next ∧ P next)
    ?_ ?_ ⟨.refl hlink hs, hP⟩ h
  · rintro next st' m test above ⟨hfol, hP⟩ hnext
    exact ⟨hfol.round hnext, hr next st' m test above hfol hP hnext
      (hnext.failed hfol.linked hfol.sound.candidate_linked)⟩
  · rintro next st' m fork connected rest refused ⟨hfol, hP⟩ hnext
    exact ⟨hfol.step hnext, hstep next st' m fork connected rest refused hfol hP hnext⟩

/-! ### Termination -/

/-- The blocks that have not failed. -/
def unfailed (st : ChainState) : Nat :=
  st.mapBlockIndex.countP fun b => !(st.entry b).failed

/-- More work than any known block has. -/
def workBound (tree : BlockTree) (st : ChainState) : Nat :=
  (st.mapBlockIndex.map tree.nChainWork).sum

/-- What every round of activation but the last lowers. -/
def toDo (tree : BlockTree) (st : ChainState) : Nat :=
  st.unfailed * (st.workBound tree + 1) + (st.workBound tree - tree.nChainWork st.tip)

namespace Follows

variable (h : Follows tree late verdict bar st st')

include h

theorem unfailed_le : st'.unfailed ≤ st.unfailed := by
  unfold unfailed
  rw [h.keeps.known]
  refine countP_mono_left fun b _ hb => ?_
  rw [Bool.not_eq_true', ← Bool.not_eq_true] at hb ⊢
  exact fun hfail => hb (h.failed_mono b hfail)

theorem unfailed_lt (hb : b ∈ st.mapBlockIndex) (hpre : (st.entry b).failed = false)
    (ha : (st'.entry b).failed = true) : st'.unfailed < st.unfailed := by
  have hboth : st.mapBlockIndex.filter (fun c => !(st'.entry c).failed) =
      (st.mapBlockIndex.filter fun c => !(st.entry c).failed).filter
        fun c => !(st'.entry c).failed := by
    rw [List.filter_filter]
    refine filter_congr fun c _ => ?_
    have hmono := h.failed_mono c
    grind
  unfold unfailed
  rw [h.keeps.known, countP_eq_length_filter, countP_eq_length_filter, hboth]
  refine length_filter_lt_length_iff_exists.mpr ⟨b, ?_, ?_⟩
  · rw [mem_filter, hpre]
    exact ⟨hb, rfl⟩
  · rw [ha]
    decide

theorem workBound_eq : st'.workBound tree = st.workBound tree := by
  unfold workBound
  rw [h.keeps.known]

theorem work_tip_le : tree.nChainWork st'.tip ≤ st'.workBound tree := by
  have hk := h.linked.data_known _ (h.linked.linked_data _ h.sound.tip_linked)
  exact le_sum_of_mem (mem_map_of_mem hk)

theorem toDo_le (htip : st'.tip = st.tip) : st'.toDo tree ≤ st.toDo tree := by
  unfold toDo
  rw [h.workBound_eq, htip]
  exact Nat.add_le_add_right (Nat.mul_le_mul_right _ h.unfailed_le) _

theorem toDo_lt (hp : tree.nChainWork st.tip < tree.nChainWork st'.tip ∨
      ∃ b ∈ st.mapBlockIndex, (st.entry b).failed = false ∧ (st'.entry b).failed = true) :
    st'.toDo tree < st.toDo tree := by
  have hwork := h.work_tip_le
  unfold toDo
  rw [h.workBound_eq] at hwork ⊢
  rcases hp with hh | ⟨b, hb, hpre, ha⟩
  · have hle := Nat.mul_le_mul_right (st.workBound tree + 1) h.unfailed_le
    omega
  · have hlt := Nat.mul_le_mul_right (st.workBound tree + 1) (h.unfailed_lt hb hpre ha)
    rw [Nat.succ_mul] at hlt
    omega

end Follows

theorem findMostWorkChain_returns (hlink : Linked tree late [] st)
    (hs : Sound tree verdict bar st) :
    ∃ result st', st.findMostWorkChain tree = some (result, st') ∧
      Follows tree late verdict bar st st' ∧ st'.tip = st.tip ∧ st'.bestCandidate tree = result ∧
      ∀ m, result = some m → ∀ b ∈ st'.offChain tree m, st'.usable b = true := by
  let P := fun next => Follows tree late verdict bar st next ∧ next.tip = st.tip
  have hr : ∀ st st' m test above, P st → Round tree st st' m test above → P st' := by
    rintro st st' m test above ⟨hfol, htip⟩ hr
    exact ⟨hfol.round hr, hr.tip.trans htip⟩
  have ha : ∀ st, P st → ∀ m ∈ st.setBlockIndexCandidates, ∀ b ∈ tree.line m,
      (st.entry b).nChainTx ≠ 0 := by
    rintro st ⟨hfol, -⟩ m hm b hb
    exact hfol.linked.line_linked hb (hfol.sound.candidate_linked m hm)
  have hst : P st := ⟨.refl hlink hs, rfl⟩
  obtain ⟨⟨result, st'⟩, hret⟩ := findLoop_returns hr ha hst (Nat.lt_succ_self _)
  obtain ⟨⟨hfol, htip⟩, hbest, hu⟩ := findLoop_rule hr hst hret
  exact ⟨result, st', hret, hfol, htip, hbest, hu⟩

theorem activateBestChain_returns (hlink : Linked tree late [] st)
    (hs : Sound tree verdict bar st) (hfuel : st.toDo tree < fuel) :
    ∃ st', st.activateBestChain tree verdict fuel = some st' := by
  induction fuel generalizing st with
  | zero => omega
  | succ fuel ih =>
    obtain ⟨result, found, hfind, hf, htip, hbest, hu⟩ :=
      findMostWorkChain_returns hlink hs
    unfold activateBestChain
    simp only [hfind]
    cases result with
    | none => exact ⟨_, rfl⟩
    | some m =>
      dsimp only
      split
      · exact ⟨_, rfl⟩
      · obtain ⟨next, hnext⟩ := activateBestChainStep_returns verdict (argmax_mem hbest)
        obtain ⟨fork, connected, rest, refused, hstep⟩ := exists_step hbest (hu m rfl) hnext
        simp only [hnext]
        split
        · exact ⟨_, rfl⟩
        next hgo =>
          have hfol := (Follows.refl hf.linked hf.sound).step hstep
          refine ih hfol.linked hfol.sound ?_
          have hk : ∀ b ∈ tree.line m, b ∈ found.mapBlockIndex := by
            intro b hb
            have hc := hf.linked.line_linked hb
              (hf.sound.candidate_linked m hstep.best_mem)
            exact hf.linked.data_known b (hf.linked.linked_data b hc)
          have hl := hfol.toDo_lt <| (hstep.reaches_or.resolve_left (Ne.symm hgo)).imp_right
            fun ⟨b, hb, hfl⟩ => ⟨b, hk b hb, hfl⟩
          have hle := hf.toDo_le htip
          omega

end ChainState

end Divi
