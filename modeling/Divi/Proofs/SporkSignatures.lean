/-
Which sporks a node can be made to accept.

The text under a signature is the id, the value and the time one after the other, with
nothing between them.  A signature therefore covers every way of cutting that text into
an id, a value and a time: what is stored is what was signed as long as the messages are
cut where the signed ones are, and not otherwise.
-/
import Divi.Spork

namespace Divi

open CSporkManager List Option

variable {key : SporkKey} {next mgr : CSporkManager} {nSporkID : Int}
  {sporks : List CSporkMessage} {spork stored : CSporkMessage} {signed : SporkFields → Prop}

namespace CSporkManager

variable {sorting : SortBy fun spork : CSporkMessage => spork.nTimeSigned}

/-! ### What a message can add -/

theorem activeSporks_insert (mgr : CSporkManager)
    (h : next.mapSporksActive = mgr.mapSporksActive.insert nSporkID sporks) (other : Int) :
    next.activeSporks other =
      if other = nSporkID then sporks else mgr.activeSporks other := by
  unfold activeSporks
  rw [h]
  by_cases ho : other = nSporkID
  · rw [ho, Finmap.lookup_insert, if_pos rfl, getD_some]
  · rw [Finmap.lookup_insert_of_ne _ ho, if_neg ho]

/-- A message of a multi-value spork is added unless one of its hash is there already. -/
def NewTo (key : SporkKey) (mgr : CSporkManager) (spork : CSporkMessage) : Prop :=
  isMultiValueSpork spork.nSporkID = true →
    ∀ other ∈ mgr.activeSporks spork.nSporkID, spork.getHash key ≠ other.getHash key

theorem not_newTo_iff : ¬ mgr.NewTo key spork ↔ isMultiValueSpork spork.nSporkID = true ∧
      ∃ other ∈ mgr.activeSporks spork.nSporkID, spork.getHash key = other.getHash key := by
  unfold NewTo
  push Not
  rfl

/-- The messages of an id once one more is added. -/
def withSpork (sorting : SortBy fun spork : CSporkMessage => spork.nTimeSigned)
    (sporks : List CSporkMessage) (spork : CSporkMessage) : List CSporkMessage :=
  if isMultiValueSpork spork.nSporkID then sorting.sort (sporks ++ [spork]) else [spork]

theorem mem_withSpork (h : stored ∈ withSpork sorting sporks spork) :
    stored = spork ∨ stored ∈ sporks := by
  unfold withSpork at h
  split at h
  · rcases mem_append.mp (sorting.mem_sort.mp h) with hold | hnew
    · exact .inr hold
    · exact .inl (mem_singleton.mp hnew)
  · exact .inl (mem_singleton.mp h)

theorem withSpork_nil (spork : CSporkMessage) : withSpork sorting [] spork = [spork] := by
  unfold withSpork
  split
  · exact perm_singleton.mp (sorting.perm _)
  · rfl

theorem addActiveSpork_of_newTo (h : mgr.NewTo key spork) :
    mgr.addActiveSpork key sorting spork = some { mgr with
      mapSporksActive := mgr.mapSporksActive.insert spork.nSporkID
        (withSpork sorting (mgr.activeSporks spork.nSporkID) spork) } := by
  unfold addActiveSpork withSpork
  by_cases hmul : isMultiValueSpork spork.nSporkID = true
  · have hn : ((mgr.activeSporks spork.nSporkID).any
        fun other => spork.getHash key = other.getHash key) = false := by
      rw [List.any_eq_false]
      intro other ho
      simpa using h hmul other ho
    simp [hmul, hn]
  · simp [hmul]

theorem addActiveSpork_of_not_newTo (h : ¬ mgr.NewTo key spork) :
    mgr.addActiveSpork key sorting spork = none := by
  obtain ⟨hmul, other, ho, hh⟩ := not_newTo_iff.mp h
  have hany : ((mgr.activeSporks spork.nSporkID).any
      fun other => spork.getHash key = other.getHash key) = true :=
    any_eq_true.mpr ⟨other, ho, by simpa using hh⟩
  simp [addActiveSpork, hmul, hany]

/-- All that it takes for a message to be added and written to the database. -/
structure Accepts (key : SporkKey) (mgr : CSporkManager) (context : SporkContext)
    (spork : CSporkMessage) : Prop where
  full : context.fLiteMode = false
  synced : context.hasTip = true
  wanted : mgr.isNewerSpork spork = true ∨ isMultiValueSpork spork.nSporkID = true
  signature : spork.checkSignature key = true
  database : mgr.pSporkDB.isSome
  newTo : mgr.NewTo key spork

theorem processSpork_of_accepts {context : SporkContext} (h : mgr.Accepts key context spork)
    {pSporkDB : Finmap fun _ : Int => CSporkMessage} (hdb : mgr.pSporkDB = some pSporkDB) :
    mgr.processSpork key sorting context spork =
      ({ mapSporksActive := mgr.mapSporksActive.insert spork.nSporkID
          (withSpork sorting (mgr.activeSporks spork.nSporkID) spork)
         mapSporks := mgr.mapSporks.insert (spork.getHash key) spork
         pSporkDB := some (pSporkDB.insert spork.nSporkID spork) }, .added) := by
  have hseen : (!mgr.isNewerSpork spork && !isMultiValueSpork spork.nSporkID) = false := by
    rcases h.wanted with hn | hmul
    · simp [hn]
    · simp [hmul]
  have hnew : NewTo key
      { mgr with mapSporks := mgr.mapSporks.insert (spork.getHash key) spork } spork :=
    h.newTo
  simp only [processSpork, h.full, h.synced, hseen, h.signature, hdb, Bool.false_eq_true,
    Bool.not_true, if_false]
  rw [hdb] at hnew
  rw [addActiveSpork_of_newTo hnew]
  rfl

theorem processSpork_of_not_accepts
    (sorting : SortBy fun spork : CSporkMessage => spork.nTimeSigned) {context : SporkContext}
    (h : ¬ mgr.Accepts key context spork) :
    (mgr.processSpork key sorting context spork).1.mapSporksActive = mgr.mapSporksActive ∧
      (mgr.processSpork key sorting context spork).1.pSporkDB = mgr.pSporkDB := by
  unfold processSpork
  split_ifs with hlite hs hseen hsig
  iterate 4 exact ⟨rfl, rfl⟩
  split
  next => exact ⟨rfl, rfl⟩
  next pSporkDB hdb =>
    have hk : ¬ NewTo key
        { mgr with mapSporks := mgr.mapSporks.insert (spork.getHash key) spork } spork := by
      intro hnew
      refine h ⟨by simpa using hlite, by simpa using hs, ?_, by simpa using hsig,
        by rw [hdb]; rfl, hnew⟩
      by_contra hn
      simp only [not_or, Bool.not_eq_true] at hn
      simp [hn] at hseen
    simp [addActiveSpork_of_not_newTo hk]

theorem activeSporks_of_mapSporksActive (h : next.mapSporksActive = mgr.mapSporksActive)
    (nSporkID : Int) : next.activeSporks nSporkID = mgr.activeSporks nSporkID := by
  unfold activeSporks
  rw [h]

/-- A message adds itself at most, and only with a signature that verifies. -/
theorem mem_processSpork {context : SporkContext}
    (h : stored ∈ (mgr.processSpork key sorting context spork).1.activeSporks nSporkID) :
    (stored = spork ∧ spork.checkSignature key = true) ∨
      stored ∈ mgr.activeSporks nSporkID := by
  by_cases hacc : mgr.Accepts key context spork
  · obtain ⟨pSporkDB, hdb⟩ := isSome_iff_exists.mp hacc.database
    rw [processSpork_of_accepts hacc hdb, activeSporks_insert mgr rfl] at h
    split at h
    case isTrue hid =>
      rcases mem_withSpork h with hself | hold
      · exact .inl ⟨hself, hacc.signature⟩
      · rw [hid]
        exact .inr hold
    case isFalse => exact .inr h
  · have hs := (processSpork_of_not_accepts sorting hacc).1
    rw [activeSporks_of_mapSporksActive hs] at h
    exact .inr h

/-- A sequence of messages stores messages of the sequence whose signatures verify. -/
theorem mem_processSporks {msgs : List (SporkContext × CSporkMessage)}
    (h : stored ∈ (mgr.processSporks key sorting msgs).activeSporks nSporkID) :
    (stored ∈ msgs.map Prod.snd ∧ stored.checkSignature key = true) ∨
      stored ∈ mgr.activeSporks nSporkID := by
  induction msgs generalizing mgr with
  | nil => exact .inr h
  | cons message rest ih =>
    rcases ih h with ⟨hmem, hsig⟩ | hsto
    · exact .inl ⟨mem_cons_of_mem _ hmem, hsig⟩
    · rcases mem_processSpork hsto with ⟨rfl, hsig⟩ | hold
      · exact .inl ⟨mem_cons_self, hsig⟩
      · exact .inr hold

/-- A manager without sporks, on a database. -/
def fresh (pSporkDB : Finmap fun _ : Int => CSporkMessage) : CSporkManager :=
  { pSporkDB := some pSporkDB }

theorem activeSporks_fresh (pSporkDB : Finmap fun _ : Int => CSporkMessage) (nSporkID : Int) :
    (fresh pSporkDB).activeSporks nSporkID = [] := rfl

/-- Without earlier sporks a signature that verifies is all it takes. -/
theorem processSpork_fresh (pSporkDB : Finmap fun _ : Int => CSporkMessage)
    (hsig : spork.checkSignature key = true) :
    spork ∈ ((fresh pSporkDB).processSpork key sorting {} spork).1.activeSporks spork.nSporkID := by
  have hacc : (fresh pSporkDB).Accepts key {} spork :=
    ⟨rfl, rfl, .inl rfl, hsig, rfl, fun _ _ ho => nomatch ho⟩
  rw [processSpork_of_accepts hacc rfl, activeSporks_insert (fresh pSporkDB) rfl, if_pos rfl,
    activeSporks_fresh, withSpork_nil]
  exact mem_singleton_self spork

end CSporkManager

/-! ### Signed sporks -/

section

variable (key : SporkKey) (signed : SporkFields → Prop)

/-- A signature only verifies for a text that was signed. -/
def Unforgeable : Prop :=
  ∀ vchSig text, key.verifyMessage vchSig text = true →
    ∃ fields, signed fields ∧ fields.strMessage = text

/-- The id and the time take up as much of the text in both. -/
structure SameWidths (a b : SporkFields) : Prop where
  nSporkID : (lexicalCast a.nSporkID).length = (lexicalCast b.nSporkID).length
  nTimeSigned : (lexicalCast a.nTimeSigned).length = (lexicalCast b.nTimeSigned).length

/-- If the text was signed, then for fields that cut it where these fields do. -/
def CutAsSigned (fields : SporkFields) : Prop :=
  (∃ original, signed original ∧ original.strMessage = fields.strMessage) →
    ∃ original, signed original ∧ original.strMessage = fields.strMessage ∧
      SameWidths original fields

end

/-- A text and where it is cut determine the fields. -/
theorem SporkFields.eq_of_strMessage {a b : SporkFields} (htext : a.strMessage = b.strMessage)
    (hw : SameWidths a b) : a = b := by
  obtain ⟨hid, hv, htime⟩ := Decimal.pieces_eq htext hw.nSporkID hw.nTimeSigned
  cases a
  cases b
  simp only at hid hv htime
  rw [hid, hv, htime]

theorem cutAsSigned_of_signed {fields : SporkFields} (h : signed fields) :
    CutAsSigned signed fields :=
  fun _ => ⟨fields, h, rfl, rfl, rfl⟩

/--
**What can be stored.**  For any set of messages the network may deliver, in any order
and as often as it likes: only fields that the holder of the key signed are ever stored
if and only if no message with a signature that verifies cuts a signed text elsewhere.
-/
theorem stored_sporks_signed_iff {key : SporkKey} {signed : SporkFields → Prop}
    (hunforgeable : Unforgeable key signed)
    (sorting : SortBy fun spork : CSporkMessage => spork.nTimeSigned)
    (pSporkDB : Finmap fun _ : Int => CSporkMessage) (delivered : Set CSporkMessage) :
    (∀ msgs : List (CSporkManager.SporkContext × CSporkMessage),
        (∀ message ∈ msgs, message.2 ∈ delivered) → ∀ nSporkID,
          ∀ stored ∈ ((CSporkManager.fresh pSporkDB).processSporks key sorting
            msgs).activeSporks nSporkID, signed stored.toSporkFields) ↔
      ∀ spork ∈ delivered, spork.checkSignature key = true →
        CutAsSigned signed spork.toSporkFields := by
  constructor
  · intro h spork hsp hsig
    refine cutAsSigned_of_signed (h [({}, spork)] ?_ spork.nSporkID spork ?_)
    · intro message hm
      rw [mem_singleton.mp hm]
      exact hsp
    · exact processSpork_fresh pSporkDB hsig
  · intro h msgs hme nSporkID stored hsto
    rcases mem_processSporks hsto with ⟨hmem, hsig⟩ | hold
    · obtain ⟨message, hm, rfl⟩ := mem_map.mp hmem
      obtain ⟨original, hs, htext, hw⟩ :=
        h message.2 (hme message hm) hsig (hunforgeable _ _ hsig)
      rw [← SporkFields.eq_of_strMessage htext hw]
      exact hs
    · rw [activeSporks_fresh] at hold
      cases hold

/-- The payment enforcement time, as signed in September 2020. -/
def enforcementSpork : SporkFields :=
  { nSporkID := SPORK_8_MASTERNODE_PAYMENT_ENFORCEMENT
    strValue := "1537971708".toList
    nTimeSigned := 1600000000 }

/-- A key that was used once, for that spork. -/
def enforcementKey : SporkKey :=
  { signMessage := fun text => if text = enforcementSpork.strMessage then some [1] else none
    verifyMessage := fun vchSig text => vchSig = [1] ∧ text = enforcementSpork.strMessage
    getHash := fun fields => BitVec.ofInt 256 fields.nTimeSigned }

theorem enforcementKey_unforgeable : Unforgeable enforcementKey (· = enforcementSpork) := by
  intro vchSig text hv
  simp only [enforcementKey, decide_eq_true_eq] at hv
  exact ⟨enforcementSpork, rfl, hv.2.symm⟩

/-- Relaying the original is harmless. -/
theorem stored_sporks_signed_original :
    Unforgeable enforcementKey (· = enforcementSpork) ∧
      ∀ msgs : List (CSporkManager.SporkContext × CSporkMessage),
        (∀ message ∈ msgs, message.2 ∈ {spork | spork.toSporkFields = enforcementSpork}) →
          ∀ nSporkID, ∀ stored ∈ ((CSporkManager.fresh ∅).processSporks enforcementKey
            (SortBy.insertion _) msgs).activeSporks nSporkID,
              stored.toSporkFields = enforcementSpork := by
  refine ⟨enforcementKey_unforgeable, ?_⟩
  refine (stored_sporks_signed_iff enforcementKey_unforgeable (SortBy.insertion _) ∅
    {spork | spork.toSporkFields = enforcementSpork}).mpr ?_
  intro spork hsp _
  exact cutAsSigned_of_signed hsp

/-- The last digit of the value moved to the front of the time. -/
def shiftedSpork : CSporkMessage :=
  { nSporkID := SPORK_8_MASTERNODE_PAYMENT_ENFORCEMENT
    strValue := "153797170".toList
    nTimeSigned := 81600000000
    vchSig := [1] }

/-- The signature of the original carries over, and the forgery is newer than anything. -/
theorem shifted_spork_stored :
    Unforgeable enforcementKey (· = enforcementSpork) ∧
      ((CSporkManager.fresh ∅).processSpork enforcementKey (SortBy.insertion _) {}
        shiftedSpork).2 = .added ∧
      shiftedSpork ∈ ((CSporkManager.fresh ∅).processSporks enforcementKey (SortBy.insertion _)
        [({}, shiftedSpork)]).activeSporks SPORK_8_MASTERNODE_PAYMENT_ENFORCEMENT ∧
      shiftedSpork.toSporkFields ≠ enforcementSpork :=
  ⟨enforcementKey_unforgeable, by decide +kernel, by decide +kernel, by decide +kernel⟩

end Divi
