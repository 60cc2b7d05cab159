/-
Whether the order of spork messages matters.

Messages of one id never touch another id, so the run of a manager splits into one history
per id: `Histories.recordAll` for a multi-value spork, `Histories.keepNewest` for the
others.  Both depend on the order only through messages of equal time.  A later message of
the same time is not newer, so the first one stays; and `std::sort` may leave messages of
the same time in the order they were added, so the last one counts.
-/
import Divi.Lib.Histories
import Divi.Proofs.SporkSignatures
import Divi.SporkValues

namespace Divi

open SortBy List Option CSporkManager CSporkMessage Histories CSporkManager

variable {key : SporkKey} {T : Type} {msgs order order' : List CSporkMessage}
  {spork : CSporkMessage} {nSporkID nHeight : Int} {pSporkDB : Finmap fun _ : Int => CSporkMessage}
  {sorting : SortBy fun spork : CSporkMessage => spork.nTimeSigned}
  {nActivationBlockHeight : T → Int} {fromString : StdString → T}

namespace CSporkManager

variable {mgr : CSporkManager}

/-! ### One history per id -/

/-- What a message makes of the messages of its id. -/
def nextSporks (key : SporkKey) (sorting : SortBy fun spork : CSporkMessage => spork.nTimeSigned)
    (sporks : List CSporkMessage) (spork : CSporkMessage) : List CSporkMessage :=
  if isMultiValueSpork spork.nSporkID then
    Histories.record (CSporkMessage.getHash key) sorting sporks spork
  else
    Histories.keepNewest (fun spork => spork.nTimeSigned) sporks spork

/-- A message with a valid signature, as a node that is synchronized meets it: only one that is not
newer, or known, is not added. -/
theorem nextSporks_eq [Decidable (mgr.Accepts key {} spork)] (hdb : mgr.pSporkDB.isSome)
    (hsig : spork.checkSignature key = true) :
    nextSporks key sorting (mgr.activeSporks spork.nSporkID) spork =
      if mgr.Accepts key {} spork then
        withSpork sorting (mgr.activeSporks spork.nSporkID) spork
      else mgr.activeSporks spork.nSporkID := by
  have hacc : mgr.Accepts key {} spork ↔
      (mgr.isNewerSpork spork = true ∨ isMultiValueSpork spork.nSporkID = true) ∧
        mgr.NewTo key spork :=
    ⟨fun h => ⟨h.wanted, h.newTo⟩, fun h => ⟨rfl, rfl, h.1, hsig, hdb, h.2⟩⟩
  unfold nextSporks withSpork
  cases hmul : isMultiValueSpork spork.nSporkID with
  | true =>
    have hk : ((mgr.activeSporks spork.nSporkID).any
        fun other => spork.getHash key = other.getHash key) = true ↔ ¬ mgr.NewTo key spork := by
      simp [not_newTo_iff, hmul]
    rw [if_pos rfl, if_pos rfl, record]
    by_cases hnew : mgr.NewTo key spork
    · rw [if_neg (not_not.mpr hnew ∘ hk.mp), if_pos (hacc.mpr ⟨.inr hmul, hnew⟩)]
    · rw [if_pos (hk.mpr hnew), if_neg fun h => hnew h.newTo]
  | false =>
    have hnew : mgr.NewTo key spork := fun hmul' => absurd hmul' (by simp [hmul])
    simp only [hacc, hnew, hmul, keepNewest, isNewerSpork, Bool.false_eq_true,
      or_false, and_true, if_false]
    cases (mgr.activeSporks spork.nSporkID).getLast? with
    | none => simp
    | some last => simp

theorem activeSporks_processSpork (sorting : SortBy fun spork : CSporkMessage => spork.nTimeSigned)
    (hdb : mgr.pSporkDB.isSome) (hsig : spork.checkSignature key = true) :
    (mgr.processSpork key sorting {} spork).1.pSporkDB.isSome ∧
      ∀ nSporkID, (mgr.processSpork key sorting {} spork).1.activeSporks nSporkID =
        if nSporkID = spork.nSporkID then
          nextSporks key sorting (mgr.activeSporks nSporkID) spork
        else mgr.activeSporks nSporkID := by
  classical
  have hnext := @nextSporks_eq key spork sorting mgr _ hdb hsig
  by_cases hacc : mgr.Accepts key {} spork
  · obtain ⟨pSporkDB, hpSporkDB⟩ := isSome_iff_exists.mp hdb
    rw [if_pos hacc] at hnext
    rw [processSpork_of_accepts hacc hpSporkDB]
    refine ⟨rfl, fun nSporkID => ?_⟩
    rw [activeSporks_insert mgr rfl, ← hnext]
    split
    next hid => rw [hid]
    next => rfl
  · obtain ⟨hs, hsameDB⟩ := processSpork_of_not_accepts sorting hacc
    rw [if_neg hacc] at hnext
    refine ⟨hsameDB ▸ hdb, fun nSporkID => ?_⟩
    rw [activeSporks_of_mapSporksActive hs]
    split
    next hid => rw [hid, hnext]
    next => rfl

/-- A manager without sporks, on a database, after some messages in their order. -/
def processed (key : SporkKey) (sorting : SortBy fun spork : CSporkMessage => spork.nTimeSigned)
    (pSporkDB : Finmap fun _ : Int => CSporkMessage) (msgs : List CSporkMessage) :
    CSporkManager :=
  (fresh pSporkDB).processSporks key sorting (msgs.map fun spork => ({}, spork))

/-- **The run of the manager is one run per id.** -/
theorem activeSporks_processed (pSporkDB : Finmap fun _ : Int => CSporkMessage)
    (hsigs : ∀ spork ∈ msgs, spork.checkSignature key = true) :
    (processed key sorting pSporkDB msgs).pSporkDB.isSome ∧
      ∀ nSporkID, (processed key sorting pSporkDB msgs).activeSporks nSporkID =
        (msgs.filter (·.nSporkID = nSporkID)).foldl (nextSporks key sorting) [] := by
  induction msgs using List.reverseRecOn with
  | nil => exact ⟨rfl, fun _ => rfl⟩
  | append_singleton msgs spork ih =>
    obtain ⟨hdb, hact⟩ := ih fun other ho =>
      hsigs other (mem_append_left _ ho)
    have hstep : processed key sorting pSporkDB (msgs ++ [spork]) =
        ((processed key sorting pSporkDB msgs).processSpork key sorting {} spork).1 := by
      simp [processed, processSporks]
    obtain ⟨hdb', hact'⟩ := activeSporks_processSpork sorting hdb (hsigs spork (by simp))
    rw [hstep]
    refine ⟨hdb', fun nSporkID => ?_⟩
    rw [hact', hact, filter_append, foldl_append]
    by_cases hid : nSporkID = spork.nSporkID
    · simp [hid]
    · simp [hid, Ne.symm hid]

/-- The messages of one id. -/
def ofID (msgs : List CSporkMessage) (nSporkID : Int) : List CSporkMessage :=
  msgs.filter (·.nSporkID = nSporkID)

theorem mem_ofID :
    spork ∈ ofID msgs nSporkID ↔ spork ∈ msgs ∧ spork.nSporkID = nSporkID := by
  simp [ofID]

/-- The step of a history for messages of one id. -/
theorem foldl_nextSporks {f : List CSporkMessage → CSporkMessage → List CSporkMessage}
    (hf : ∀ sporks spork, spork.nSporkID = nSporkID → nextSporks key sorting sporks spork =
      f sporks spork) :
    (ofID msgs nSporkID).foldl (nextSporks key sorting) [] =
      (ofID msgs nSporkID).foldl f [] :=
  foldl_ext _ _ _ fun sporks spork hsp => hf sporks spork (mem_ofID.mp hsp).2

section

variable (pSporkDB : Finmap fun _ : Int => CSporkMessage)
  (hsigs : ∀ spork ∈ msgs, spork.checkSignature key = true)

include hsigs

theorem activeSporks_multi (hmul : isMultiValueSpork nSporkID = true) :
    (processed key sorting pSporkDB msgs).activeSporks nSporkID =
      recordAll (getHash key) sorting (ofID msgs nSporkID) := by
  rw [(activeSporks_processed pSporkDB hsigs).2]
  refine foldl_nextSporks fun sporks spork hid => ?_
  rw [nextSporks, hid, if_pos hmul]

theorem activeSporks_single (hs : isMultiValueSpork nSporkID = false) :
    (processed key sorting pSporkDB msgs).activeSporks nSporkID =
      (ofID msgs nSporkID).foldl (keepNewest fun spork => spork.nTimeSigned) [] := by
  rw [(activeSporks_processed pSporkDB hsigs).2]
  refine foldl_nextSporks fun sporks spork hid => ?_
  rw [nextSporks, hid, hs, if_neg Bool.false_ne_true]

end

end CSporkManager

/-! ### The value at a block -/

section

variable [Inhabited T]

/-- Entries that are not signed before the block do not matter. -/
theorem getActiveMultiValueSpork_filter (entries : List (T × Int)) (nHeight nBlockTime : Int) :
    getActiveMultiValueSpork nActivationBlockHeight (entries.filter (·.2 < nBlockTime)) nHeight
        nBlockTime =
      getActiveMultiValueSpork nActivationBlockHeight entries nHeight nBlockTime := by
  unfold getActiveMultiValueSpork
  rw [foldl_filter]
  congr 1
  funext active entry
  by_cases hsig : entry.2 < nBlockTime
  · simp [hsig]
  · simp [hsig]

/-- The last entry that is activated and signed before the block counts. -/
theorem getActiveMultiValueSpork_last {before after : List (T × Int)} {entry : T × Int}
    {nBlockTime : Int} (hht : nActivationBlockHeight entry.1 ≤ nHeight)
    (htime : entry.2 < nBlockTime) (ha : ∀ other ∈ after, nBlockTime ≤ other.2) :
    getActiveMultiValueSpork nActivationBlockHeight (before ++ entry :: after) nHeight nBlockTime =
      entry.1 := by
  have hn : after.filter (·.2 < nBlockTime) = [] := by
    rw [filter_eq_nil_iff]
    intro other ho
    simpa using ha other ho
  rw [← getActiveMultiValueSpork_filter, filter_append,
    filter_cons_of_pos (by simpa using htime), hn]
  unfold getActiveMultiValueSpork
  rw [foldl_append, foldl_cons, foldl_nil, if_pos ⟨hht, htime⟩]

end

/-! ### Orders of messages -/

/-- No two of the messages have a hash in common unless they have all fields in common. -/
def NoHashCollision (key : SporkKey) (msgs : List CSporkMessage) : Prop :=
  ∀ a ∈ msgs, ∀ b ∈ msgs, a.getHash key = b.getHash key →
    a.toSporkFields = b.toSporkFields

/-- Two managers give a multi-value spork the same value at every height and block time. -/
def SameMultiValue {T : Type} [Inhabited T] (fromString : StdString → T)
    (nActivationBlockHeight : T → Int) (nSporkID : Int) (mgr mgr' : CSporkManager) : Prop :=
  ∀ nHeight nBlockTime, nBlockTime < 2 ^ 63 →
    mgr.activeMultiValue fromString nActivationBlockHeight nSporkID nHeight nBlockTime =
      mgr'.activeMultiValue fromString nActivationBlockHeight nSporkID nHeight nBlockTime

/-- Two managers agree on every value. -/
structure SameValues (mgr mgr' : CSporkManager) : Prop where
  single : ∀ nSporkID, isMultiValueSpork nSporkID = false →
    mgr.getSporkValue nSporkID = mgr'.getSporkValue nSporkID
  blockPayments : SameMultiValue BlockPaymentSporkValue.fromString
    BlockPaymentSporkValue.nActivationBlockHeight SPORK_13_BLOCK_PAYMENTS mgr mgr'
  txFee : SameMultiValue TxFeeSporkValue.fromString
    TxFeeSporkValue.nActivationBlockHeight SPORK_14_TX_FEE mgr mgr'
  blockValue : SameMultiValue BlockSubsiditySporkValue.fromString
    BlockSubsiditySporkValue.nActivationBlockHeight SPORK_15_BLOCK_VALUE mgr mgr'
  lotteryTicket : SameMultiValue LotteryTicketMinValueSporkValue.fromString
    LotteryTicketMinValueSporkValue.nActivationBlockHeight SPORK_16_LOTTERY_TICKET_MIN_VALUE
    mgr mgr'

/-- Messages of a multi-value spork that are signed at the same time, and not so late that no
block can come after them, stand for the same value. -/
def TiesDecodeAlike {T : Type} (fromString : StdString → T) (nSporkID : Int)
    (msgs : List CSporkMessage) : Prop :=
  ∀ a ∈ msgs, ∀ b ∈ msgs, a.nSporkID = nSporkID → b.nSporkID = nSporkID →
    a.nTimeSigned = b.nTimeSigned → a.nTimeSigned + 1 < 2 ^ 63 →
      fromString a.strValue = fromString b.strValue

/-- The newest messages of a single-value spork have the same value. -/
def NewestAlike (msgs : List CSporkMessage) : Prop :=
  ∀ a ∈ msgs, ∀ b ∈ msgs, isMultiValueSpork a.nSporkID = false →
    a.nSporkID = b.nSporkID → a.nTimeSigned = b.nTimeSigned →
    (∀ c ∈ msgs, c.nSporkID = a.nSporkID → c.nTimeSigned ≤ a.nTimeSigned) →
      a.strValue = b.strValue

/-- Messages signed at the same time do not contradict each other where it matters. -/
structure TiesAgree (msgs : List CSporkMessage) : Prop where
  single : NewestAlike msgs
  blockPayments :
    TiesDecodeAlike BlockPaymentSporkValue.fromString SPORK_13_BLOCK_PAYMENTS msgs
  txFee : TiesDecodeAlike TxFeeSporkValue.fromString SPORK_14_TX_FEE msgs
  blockValue :
    TiesDecodeAlike BlockSubsiditySporkValue.fromString SPORK_15_BLOCK_VALUE msgs
  lotteryTicket : TiesDecodeAlike LotteryTicketMinValueSporkValue.fromString
    SPORK_16_LOTTERY_TICKET_MIN_VALUE msgs

section

variable (hsigs : ∀ spork ∈ msgs, spork.checkSignature key = true)

include hsigs

theorem signatures_of_perm (h : order.Perm msgs) :
    ∀ spork ∈ order, spork.checkSignature key = true :=
  fun spork hsp => hsigs spork (h.mem_iff.mp hsp)

/-! ### Single values -/

theorem getSporkValue_eq_of_newestAlike (hn : NewestAlike msgs)
    (hord : order.Perm msgs) (hord' : order'.Perm msgs)
    (hs : isMultiValueSpork nSporkID = false) :
    (processed key sorting pSporkDB order).getSporkValue nSporkID =
      (processed key sorting pSporkDB order').getSporkValue nSporkID := by
  have hperm : (ofID order nSporkID).Perm (ofID order' nSporkID) :=
    (hord.trans hord'.symm).filter _
  simp only [getSporkValue, hs, Bool.false_eq_true, if_false,
    activeSporks_single pSporkDB (signatures_of_perm hsigs hord) hs,
    activeSporks_single pSporkDB (signatures_of_perm hsigs hord') hs]
  by_cases he : ofID order nSporkID = []
  · have he' : ofID order' nSporkID = [] := perm_nil.mp (he ▸ hperm.symm)
    rw [he, he']
  · have he' : ofID order' nSporkID ≠ [] :=
      fun h => he (perm_nil.mp (h ▸ hperm))
    obtain ⟨a, ha, hfold, hle⟩ := foldl_keepNewest_spec
      (fun spork : CSporkMessage => spork.nTimeSigned) he
    obtain ⟨b, hb, hfold', hle'⟩ := foldl_keepNewest_spec
      (fun spork : CSporkMessage => spork.nTimeSigned) he'
    obtain ⟨haMem, haID⟩ := mem_ofID.mp ha
    obtain ⟨hbMem, hbID⟩ := mem_ofID.mp hb
    rw [hfold, hfold']
    refine hn a (hord.mem_iff.mp haMem) b (hord'.mem_iff.mp hbMem) (haID ▸ hs)
      (haID.trans hbID.symm) ?_ ?_
    · exact le_antisymm (hle' a (hperm.mem_iff.mp ha)) (hle b (hperm.mem_iff.mpr hb))
    · intro c hc hcID
      exact hle c (mem_ofID.mpr ⟨hord.mem_iff.mpr hc, hcID.trans haID⟩)

/-- A newest message that comes first gives the value. -/
theorem getSporkValue_first (sorting : SortBy fun spork : CSporkMessage => spork.nTimeSigned)
    (pSporkDB : Finmap fun _ : Int => CSporkMessage) (hmem : spork ∈ msgs)
    (hs : isMultiValueSpork spork.nSporkID = false)
    (hn : ∀ c ∈ msgs, c.nSporkID = spork.nSporkID → c.nTimeSigned ≤ spork.nTimeSigned) :
    (processed key sorting pSporkDB (spork :: msgs.erase spork)).getSporkValue
      spork.nSporkID = spork.strValue := by
  have hperm : (spork :: msgs.erase spork).Perm msgs := (perm_cons_erase hmem).symm
  have hfst : ofID (spork :: msgs.erase spork) spork.nSporkID =
      spork :: ofID (msgs.erase spork) spork.nSporkID := by
    simp [ofID]
  simp only [getSporkValue, hs, Bool.false_eq_true, if_false,
    activeSporks_single pSporkDB (signatures_of_perm hsigs hperm) hs]
  rw [hfst, foldl_keepNewest_cons]
  · rfl
  · intro c hc
    obtain ⟨hcMem, hcID⟩ := mem_ofID.mp hc
    exact hn c (mem_of_mem_erase hcMem) hcID

/-! ### Multiple values -/

variable (hha : NoHashCollision key msgs)

include hha

theorem sameMultiValue_of_tiesDecodeAlike [Inhabited T] (hmul : isMultiValueSpork nSporkID = true)
    (hties : TiesDecodeAlike fromString nSporkID msgs) (hord : order.Perm msgs)
    (hord' : order'.Perm msgs) :
    SameMultiValue fromString nActivationBlockHeight nSporkID (processed key sorting pSporkDB order)
      (processed key sorting pSporkDB order') := by
  intro nHeight nBlockTime hlate
  simp only [activeMultiValue, getMultiValueSpork, hmul, if_true,
    activeSporks_multi pSporkDB (signatures_of_perm hsigs hord) hmul,
    activeSporks_multi pSporkDB (signatures_of_perm hsigs hord') hmul]
  have hperm : (ofID order nSporkID).Perm (ofID order' nSporkID) :=
    (hord.trans hord'.symm).filter _
  have hrecs := recordAll_records (getHash key) sorting
    (ofID order nSporkID)
  have hrecs' := recordAll_records (getHash key) sorting
    (ofID order' nSporkID)
  generalize recordAll (getHash key) sorting
    (ofID order nSporkID) = history at hrecs
  generalize recordAll (getHash key) sorting
    (ofID order' nSporkID) = history' at hrecs'
  have hs : ∀ x ∈ history, x ∈ msgs ∧ x.nSporkID = nSporkID := by
    intro x hx
    obtain ⟨hxOrder, hxID⟩ := mem_ofID.mp (hrecs.subset x hx)
    exact ⟨hord.mem_iff.mp hxOrder, hxID⟩
  have hes : (convertMultiValueSporkVector fromString history).Perm
      (convertMultiValueSporkVector fromString history') := by
    refine hrecs.map_perm hrecs' hperm ?_
    intro x hx y hy heq
    have hf := hha x (hord.mem_iff.mp (mem_ofID.mp hx).1) y
      (hord.mem_iff.mp (mem_ofID.mp hy).1) heq
    rw [hf]
  have hsort : ∀ source : List CSporkMessage,
      (source.Pairwise fun a b => a.nTimeSigned ≤ b.nTimeSigned) →
      ((convertMultiValueSporkVector fromString source).filter (·.2 < nBlockTime)).Pairwise
        fun a b => a.2 ≤ b.2 := by
    intro source hs
    refine List.Pairwise.filter _ ?_
    unfold convertMultiValueSporkVector
    rw [pairwise_map]
    exact hs
  have heq := eq_of_perm_of_sorted (hes.filter (·.2 < nBlockTime))
    (hsort history hrecs.sorted) (hsort history' hrecs'.sorted) (by
      intro a ha b hb htime
      obtain ⟨haMem, haLate⟩ := mem_filter.mp ha
      obtain ⟨x, hx, rfl⟩ := mem_map.mp haMem
      obtain ⟨y, hy, rfl⟩ := mem_map.mp (mem_filter.mp hb).1
      obtain ⟨hxMem, hxID⟩ := hs x hx
      obtain ⟨hyMem, hyID⟩ := hs y hy
      have hpre : x.nTimeSigned < nBlockTime := by simpa using haLate
      have hv := hties x hxMem y hyMem hxID hyID htime (by omega)
      exact Prod.ext hv htime)
  rw [← getActiveMultiValueSpork_filter (convertMultiValueSporkVector fromString history), heq,
    getActiveMultiValueSpork_filter]

/-- With a stable sort, the message that comes last among those of its time gives the value. -/
theorem activeMultiValue_last [Inhabited T] (nActivationBlockHeight : T → Int)
    (pSporkDB : Finmap fun _ : Int => CSporkMessage) (hmem : spork ∈ msgs)
    (hmul : isMultiValueSpork spork.nSporkID = true)
    (hht : nActivationBlockHeight (fromString spork.strValue) ≤ nHeight) :
    ∃ order, order.Perm msgs ∧
      (processed key (insertion _) pSporkDB order).activeMultiValue fromString
        nActivationBlockHeight spork.nSporkID nHeight (spork.nTimeSigned + 1) =
      fromString spork.strValue := by
  -- First the other messages, then those with the fields of this one.
  obtain ⟨others, first, repeated, hperm, hc, hos⟩ :=
    exists_perm_last (getHash key) hmem
  have hfi : ∀ other ∈ first :: repeated, other.toSporkFields = spork.toSporkFields := by
    intro other ho
    have hotherMem := hperm.mem_iff.mp (mem_append_right others ho)
    exact hha other hotherMem spork hmem (hc other ho)
  have hfst := hfi first mem_cons_self
  have hofID : ofID (others ++ first :: repeated) spork.nSporkID =
      ofID others spork.nSporkID ++ first :: repeated := by
    have hall : ofID (first :: repeated) spork.nSporkID = first :: repeated := by
      refine filter_eq_self.mpr fun other ho => ?_
      simp [hfi other ho]
    rw [ofID, filter_append]
    exact congrArg _ hall
  have hf : first.getHash key ∉
      (ofID others spork.nSporkID).map (getHash key) := by
    intro hin
    obtain ⟨other, ho, heq⟩ := mem_map.mp hin
    exact hos other (mem_ofID.mp ho).1 (heq.trans (hc first mem_cons_self))
  have hr : ∀ other ∈ repeated, other.getHash key = first.getHash key := by
    intro other ho
    rw [hc other (mem_cons_of_mem first ho), hc first mem_cons_self]
  obtain ⟨before, after, hh, ha⟩ := recordAll_insertion_append
    (getHash key) (fun spork : CSporkMessage => spork.nTimeSigned)
    (ofID others spork.nSporkID) hf hr
  refine ⟨others ++ first :: repeated, hperm, ?_⟩
  simp only [activeMultiValue, getMultiValueSpork, hmul, if_true,
    activeSporks_multi pSporkDB (signatures_of_perm hsigs hperm) hmul]
  have htime : first.nTimeSigned = spork.nTimeSigned := by rw [hfst]
  have hv : first.strValue = spork.strValue := by rw [hfst]
  rw [hofID, hh, convertMultiValueSporkVector, map_append, map_cons,
    getActiveMultiValueSpork_last (by rw [hv]; exact hht) (by omega), hv]
  intro other ho
  obtain ⟨x, hx, rfl⟩ := mem_map.mp ho
  have hl := ha x hx
  omega

theorem tiesDecodeAlike_of_sameMultiValue [Inhabited T] (hmul : isMultiValueSpork nSporkID = true)
    (hs : ∀ order order', order.Perm msgs → order'.Perm msgs →
      SameMultiValue fromString nActivationBlockHeight nSporkID
        (processed key (insertion _) ∅ order)
        (processed key (insertion _) ∅ order')) :
    TiesDecodeAlike fromString nSporkID msgs := by
  intro a ha b hb haID hbID htime hlate
  have hmultiA : isMultiValueSpork a.nSporkID = true := haID ▸ hmul
  have hmultiB : isMultiValueSpork b.nSporkID = true := hbID ▸ hmul
  obtain ⟨order, hord, hv⟩ := activeMultiValue_last hsigs hha
    nActivationBlockHeight ∅ ha hmultiA
    (le_max_left (nActivationBlockHeight (fromString a.strValue))
      (nActivationBlockHeight (fromString b.strValue)))
  obtain ⟨order', hord', hv'⟩ := activeMultiValue_last hsigs hha
    nActivationBlockHeight ∅ hb hmultiB
    (le_max_right (nActivationBlockHeight (fromString a.strValue))
      (nActivationBlockHeight (fromString b.strValue)))
  rw [haID] at hv
  rw [hbID, ← htime] at hv'
  exact hv.symm.trans ((hs order order' hord hord' _ _ hlate).trans hv')

/--
**When spork messages converge.**  Any two orders of the messages lead to the same values,
whatever `std::sort` makes of messages of equal time, if and only if the newest messages of
every single-value spork have the same value, and messages of a multi-value spork that were
signed at the same time decode to the same value.
-/
theorem sporks_converge_iff :
    (∀ (sorting : SortBy fun spork : CSporkMessage => spork.nTimeSigned)
      (pSporkDB : Finmap fun _ : Int => CSporkMessage) (order order' : List CSporkMessage),
      order.Perm msgs → order'.Perm msgs →
        SameValues (CSporkManager.processed key sorting pSporkDB order)
          (CSporkManager.processed key sorting pSporkDB order')) ↔
      TiesAgree msgs := by
  constructor
  · intro hsa
    have hst := fun order order' (hord : order.Perm msgs)
      (hord' : order'.Perm msgs) => hsa (insertion _) ∅ order order' hord hord'
    refine ⟨?_, ?_, ?_, ?_, ?_⟩
    · intro a ha b hb hs hid htime hn
      have hfst := getSporkValue_first hsigs (insertion _) ∅ ha hs hn
      have hfst' := getSporkValue_first hsigs (insertion _) ∅ hb (hid ▸ hs)
        fun c hc hcID => htime ▸ hn c hc (hcID.trans hid.symm)
      rw [← hid] at hfst'
      rw [← hfst, ← hfst']
      exact (hst _ _ (perm_cons_erase ha).symm (perm_cons_erase hb).symm).single
        a.nSporkID hs
    · exact tiesDecodeAlike_of_sameMultiValue hsigs hha (by decide)
        fun order order' hord hord' => (hst order order' hord hord').blockPayments
    · exact tiesDecodeAlike_of_sameMultiValue hsigs hha (by decide)
        fun order order' hord hord' => (hst order order' hord hord').txFee
    · exact tiesDecodeAlike_of_sameMultiValue hsigs hha (by decide)
        fun order order' hord hord' => (hst order order' hord hord').blockValue
    · exact tiesDecodeAlike_of_sameMultiValue hsigs hha (by decide)
        fun order order' hord hord' => (hst order order' hord hord').lotteryTicket
  · intro hties sorting pSporkDB order order' hord hord'
    exact {
      single := fun nSporkID hs =>
        getSporkValue_eq_of_newestAlike hsigs hties.single hord hord' hs
      blockPayments := sameMultiValue_of_tiesDecodeAlike hsigs hha (by decide)
        hties.blockPayments hord hord'
      txFee := sameMultiValue_of_tiesDecodeAlike hsigs hha (by decide)
        hties.txFee hord hord'
      blockValue := sameMultiValue_of_tiesDecodeAlike hsigs hha (by decide)
        hties.blockValue hord hord'
      lotteryTicket := sameMultiValue_of_tiesDecodeAlike hsigs hha (by decide)
        hties.lotteryTicket hord hord' }

end

/-! ### Messages of the same second -/

/-- A key that accepts every signature; no two of the values below have the same length. -/
def lengthKey : SporkKey where
  signMessage := fun _ => some []
  verifyMessage := fun _ _ => true
  getHash := fun fields => BitVec.ofNat 256 (fields.strValue.length + 1000 * fields.nSporkID.toNat)

/-- A message that only says what is below. -/
def sporkAt (nSporkID : Int) (strValue : String) (nTimeSigned : Int) : CSporkMessage :=
  ⟨⟨nSporkID, strValue.toList, nTimeSigned⟩, []⟩

/-- A spork and its revocation, and two block values, one second after the other. -/
def orderedSporks : List CSporkMessage :=
  [sporkAt SPORK_8_MASTERNODE_PAYMENT_ENFORCEMENT "0" 100,
    sporkAt SPORK_8_MASTERNODE_PAYMENT_ENFORCEMENT "4070908800" 101,
    sporkAt SPORK_15_BLOCK_VALUE "900;525600" 102,
    sporkAt SPORK_15_BLOCK_VALUE "1000;525600" 103]

theorem sporks_converge_ordered :
    SameValues (CSporkManager.processed lengthKey (SortBy.insertion _) ∅ orderedSporks)
      (CSporkManager.processed lengthKey (SortBy.insertion _) ∅ orderedSporks.reverse) := by
  have hsigs : ∀ spork ∈ orderedSporks, spork.checkSignature lengthKey = true :=
    fun _ _ => rfl
  refine (sporks_converge_iff hsigs (by unfold NoHashCollision; decide +kernel)).mpr ?_
    _ _ _ _ (List.Perm.refl _) orderedSporks.reverse_perm
  exact ⟨by unfold NewestAlike; decide +kernel, by unfold TiesDecodeAlike; decide +kernel,
    by unfold TiesDecodeAlike; decide +kernel, by unfold TiesDecodeAlike; decide +kernel,
    by unfold TiesDecodeAlike; decide +kernel⟩

/-- Of two messages of one second, the first decides a single value and the last a block's. -/
theorem sporks_of_one_second_diverge :
    (CSporkManager.processed lengthKey (SortBy.insertion _) ∅
        [sporkAt SPORK_8_MASTERNODE_PAYMENT_ENFORCEMENT "0" 100,
          sporkAt SPORK_8_MASTERNODE_PAYMENT_ENFORCEMENT "4070908800" 100]).getSporkValue
        SPORK_8_MASTERNODE_PAYMENT_ENFORCEMENT = "0".toList ∧
      (CSporkManager.processed lengthKey (SortBy.insertion _) ∅
        [sporkAt SPORK_8_MASTERNODE_PAYMENT_ENFORCEMENT "4070908800" 100,
          sporkAt SPORK_8_MASTERNODE_PAYMENT_ENFORCEMENT "0" 100]).getSporkValue
        SPORK_8_MASTERNODE_PAYMENT_ENFORCEMENT = "4070908800".toList ∧
      (CSporkManager.processed lengthKey (SortBy.insertion _) ∅
        [sporkAt SPORK_15_BLOCK_VALUE "900;525600" 100,
          sporkAt SPORK_15_BLOCK_VALUE "1000;525600" 100]).activeMultiValue
        BlockSubsiditySporkValue.fromString BlockSubsiditySporkValue.nActivationBlockHeight
        SPORK_15_BLOCK_VALUE 525600 101 = ⟨1000, 525600⟩ ∧
      (CSporkManager.processed lengthKey (SortBy.insertion _) ∅
        [sporkAt SPORK_15_BLOCK_VALUE "1000;525600" 100,
          sporkAt SPORK_15_BLOCK_VALUE "900;525600" 100]).activeMultiValue
        BlockSubsiditySporkValue.fromString BlockSubsiditySporkValue.nActivationBlockHeight
        SPORK_15_BLOCK_VALUE 525600 101 = ⟨900, 525600⟩ := by
  decide +kernel

end Divi
