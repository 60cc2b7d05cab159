/-
What of the sporks of a node survives a restart.

The database keeps one message per id, the one that `ProcessSpork` added last.  That is all
there is of a single-value spork, but not of a multi-value spork with a second message; and
`UpdateSpork` writes nothing, so what a node issues itself is lost.
-/
import Divi.Lib.Runs
import Divi.Proofs.SporkConvergence

namespace Divi

open CSporkManager List Option

variable {nSporkID adjustedTime chainHeight : Int} {mgr next : CSporkManager}
  {spork : CSporkMessage} {key : SporkKey}
  {sorting : SortBy fun spork : CSporkMessage => spork.nTimeSigned}
  {pSporkDB : Finmap fun _ : Int => CSporkMessage} {strValue : StdString}

/-- The ids that are in use. -/
def IsKnownSpork (nSporkID : Int) : Prop :=
  getSporkNameByID nSporkID ≠ "Unknown"

/-- The loop of `LoadSporksFromDB` passes all of them. -/
theorem IsKnownSpork.bounds (h : IsKnownSpork nSporkID) :
    CSporkManager.SPORK_START ≤ nSporkID ∧ nSporkID ≤ CSporkManager.SPORK_END := by
  by_contra hout
  have hne : ∀ id, CSporkManager.SPORK_START ≤ id → id ≤ CSporkManager.SPORK_END →
      nSporkID ≠ id := by
    intro id hst hend heq
    exact hout ⟨heq ▸ hst, heq ▸ hend⟩
  apply h
  simp (disch := decide) only [getSporkNameByID, hne, if_false]

theorem isKnownSpork_of_multi (h : isMultiValueSpork nSporkID = true) : IsKnownSpork nSporkID := by
  simp only [isMultiValueSpork, Bool.or_eq_true, beq_iff_eq] at h
  rcases h with ((rfl | rfl) | rfl) | rfl <;> simp [IsKnownSpork] <;> decide

/-- A spork message that arrives, or a spork that the node issues. -/
inductive SporkEvent
  | process (context : CSporkManager.SporkContext) (spork : CSporkMessage)
  | update (nSporkID : Int) (strValue : StdString) (adjustedTime chainHeight : Int)

namespace CSporkManager

/-- `UpdateSpork` leaves everything as it is if it fails. -/
def handle (key : SporkKey) (sorting : SortBy fun spork : CSporkMessage => spork.nTimeSigned)
    (mgr : CSporkManager) : SporkEvent → CSporkManager
  | .process context spork => (mgr.processSpork key sorting context spork).1
  | .update nSporkID strValue adjustedTime chainHeight =>
    (mgr.updateSpork key sorting nSporkID strValue adjustedTime chainHeight).getD mgr

/-! ### Loading -/

theorem rememberSpork_of_newTo (h : mgr.NewTo key spork) :
    mgr.rememberSpork key sorting spork = { mgr with
        mapSporks := mgr.mapSporks.insert (spork.getHash key) spork
        mapSporksActive := mgr.mapSporksActive.insert spork.nSporkID
          (withSpork sorting (mgr.activeSporks spork.nSporkID) spork) } := by
  have hnew : NewTo key
      { mgr with mapSporks := mgr.mapSporks.insert (spork.getHash key) spork } spork := h
  simp only [rememberSpork, addActiveSpork_of_newTo hnew, getD_some]
  rfl

theorem rememberSpork_of_not_newTo (h : ¬ mgr.NewTo key spork) :
    mgr.rememberSpork key sorting spork =
      { mgr with mapSporks := mgr.mapSporks.insert (spork.getHash key) spork } := by
  have hk : ¬ NewTo key
      { mgr with mapSporks := mgr.mapSporks.insert (spork.getHash key) spork } spork := h
  simp [rememberSpork, addActiveSpork_of_not_newTo hk]

theorem pSporkDB_rememberSpork (mgr : CSporkManager) (spork : CSporkMessage) :
    (mgr.rememberSpork key sorting spork).pSporkDB = mgr.pSporkDB := by
  by_cases hnew : mgr.NewTo key spork
  · rw [rememberSpork_of_newTo hnew]
  · rw [rememberSpork_of_not_newTo hnew]

theorem activeSporks_rememberSpork (h : mgr.NewTo key spork) (nSporkID : Int) :
    (mgr.rememberSpork key sorting spork).activeSporks nSporkID =
      if nSporkID = spork.nSporkID then withSpork sorting (mgr.activeSporks spork.nSporkID) spork
      else mgr.activeSporks nSporkID := by
  rw [rememberSpork_of_newTo h]
  exact activeSporks_insert mgr rfl nSporkID

theorem activeSporks_rememberSpork_known (h : ¬ mgr.NewTo key spork) (nSporkID : Int) :
    (mgr.rememberSpork key sorting spork).activeSporks nSporkID =
      mgr.activeSporks nSporkID := by
  rw [rememberSpork_of_not_newTo h]
  rfl

/-- Every message is under its own id, as `WriteSpork` is called. -/
def WellKeyed (pSporkDB : Finmap fun _ : Int => CSporkMessage) : Prop :=
  ∀ nSporkID spork, pSporkDB.lookup nSporkID = some spork → spork.nSporkID = nSporkID

theorem WellKeyed.insert (h : WellKeyed pSporkDB) (spork : CSporkMessage) :
    WellKeyed (pSporkDB.insert spork.nSporkID spork) := by
  intro nSporkID stored hsto
  by_cases hid : nSporkID = spork.nSporkID
  · rw [hid, Finmap.lookup_insert] at hsto
    rw [← Option.some.inj hsto, hid]
  · rw [Finmap.lookup_insert_of_ne _ hid] at hsto
    exact h nSporkID stored hsto

theorem pSporkDB_loadSpork (mgr : CSporkManager) (nSporkID : Int) :
    (loadSpork key sorting mgr nSporkID).pSporkDB = mgr.pSporkDB := by
  unfold loadSpork
  split
  · rfl
  · split
    · rfl
    · exact pSporkDB_rememberSpork mgr _

section

variable (hke : WellKeyed pSporkDB)

include hke

/-- A round of the loop gives an id without messages the one in the database. -/
theorem activeSporks_loadSpork_self (hdb : mgr.pSporkDB = some pSporkDB)
    (hk : IsKnownSpork nSporkID) (he : mgr.activeSporks nSporkID = []) :
    (loadSpork key sorting mgr nSporkID).activeSporks nSporkID =
      (pSporkDB.lookup nSporkID).toList := by
  unfold loadSpork
  rw [hdb, bind_some, if_neg hk]
  split
  case h_1 hn => rw [hn, he, toList_none]
  case h_2 spork hsp =>
    have hsporkID := hke nSporkID spork hsp
    have hnew : mgr.NewTo key spork := by
      intro _ other ho
      rw [hsporkID, he] at ho
      cases ho
    rw [activeSporks_rememberSpork hnew, if_pos hsporkID.symm, hsporkID, he, withSpork_nil,
      hsp, toList_some]

theorem activeSporks_loadSpork_of_ne (hdb : mgr.pSporkDB = some pSporkDB) {loaded : Int}
    (hid : nSporkID ≠ loaded) :
    (loadSpork key sorting mgr loaded).activeSporks nSporkID =
      mgr.activeSporks nSporkID := by
  unfold loadSpork
  rw [hdb, bind_some]
  split
  · rfl
  · split
    · rfl
    · rename_i spork hsp
      have hsporkID := hke loaded spork hsp
      by_cases hnew : mgr.NewTo key spork
      · rw [activeSporks_rememberSpork hnew, if_neg (hsporkID ▸ hid)]
      · rw [activeSporks_rememberSpork_known hnew]

theorem activeSporks_foldl_loadSpork (hdb : mgr.pSporkDB = some pSporkDB)
    (hk : IsKnownSpork nSporkID) {ids : List Int} (hnd : ids.Nodup)
    (he : ∀ loaded ∈ ids, mgr.activeSporks loaded = []) :
    (ids.foldl (loadSpork key sorting) mgr).activeSporks nSporkID =
      if nSporkID ∈ ids then (pSporkDB.lookup nSporkID).toList
      else mgr.activeSporks nSporkID := by
  induction ids generalizing mgr with
  | nil => rfl
  | cons loaded ids ih =>
    obtain ⟨hnotMem, hnd⟩ := nodup_cons.mp hnd
    have hr : ∀ other ∈ ids, (loadSpork key sorting mgr loaded).activeSporks other = [] := by
      intro other ho
      have hne : other ≠ loaded := fun heq => hnotMem (heq ▸ ho)
      rw [activeSporks_loadSpork_of_ne hke hdb hne]
      exact he other (mem_cons_of_mem loaded ho)
    rw [foldl_cons, ih ((pSporkDB_loadSpork mgr loaded).trans hdb) hnd hr]
    by_cases hmem : nSporkID ∈ ids
    · rw [if_pos hmem, if_pos (mem_cons_of_mem loaded hmem)]
    · rw [if_neg hmem]
      by_cases hid : nSporkID = loaded
      · subst hid
        rw [if_pos mem_cons_self,
          activeSporks_loadSpork_self hke hdb hk (he nSporkID mem_cons_self)]
      · rw [activeSporks_loadSpork_of_ne hke hdb hid,
          if_neg (fun h => (mem_cons.mp h).elim hid hmem)]

/-- **A restarted node** has the message in the database of each id that is in use. -/
theorem activeSporks_loadSporksFromDB (hk : IsKnownSpork nSporkID) :
    ((fresh pSporkDB).loadSporksFromDB key sorting).activeSporks nSporkID =
      (pSporkDB.lookup nSporkID).toList := by
  have hnd : ((List.range (SPORK_END - SPORK_START + 1).toNat).map
      fun i : Nat => SPORK_START + i).Nodup := by decide
  obtain ⟨hst, hend⟩ := hk.bounds
  have hmem : nSporkID ∈ (List.range (SPORK_END - SPORK_START + 1).toNat).map
      fun i : Nat => SPORK_START + i :=
    mem_map.mpr ⟨(nSporkID - SPORK_START).toNat, mem_range.mpr (by omega), by omega⟩
  unfold loadSporksFromDB
  rw [activeSporks_foldl_loadSpork hke rfl hk hnd fun _ _ => rfl, if_pos hmem]

end

theorem pSporkDB_loadSporksFromDB (mgr : CSporkManager) :
    (mgr.loadSporksFromDB key sorting).pSporkDB = mgr.pSporkDB := by
  refine List.foldlRecOn (motive := fun loaded : CSporkManager =>
    loaded.pSporkDB = mgr.pSporkDB) _ _ rfl ?_
  intro loaded hl nSporkID _
  exact (pSporkDB_loadSpork loaded nSporkID).trans hl

end CSporkManager

/-! ### What survives -/

/-- What a list of messages says, and when it was signed. -/
def signedValues (sporks : List CSporkMessage) : List (StdString × Int) :=
  sporks.map fun spork => (spork.strValue, spork.nTimeSigned)

namespace CSporkManager

/-- A new manager on the database of this one, once it has loaded it. -/
def restarted (key : SporkKey) (sorting : SortBy fun spork : CSporkMessage => spork.nTimeSigned)
    (mgr : CSporkManager) : CSporkManager :=
  CSporkManager.loadSporksFromDB key sorting { pSporkDB := mgr.pSporkDB }

/-- A restart would not change what the manager holds for the ids in use. -/
def SurvivesRestart (key : SporkKey)
    (sorting : SortBy fun spork : CSporkMessage => spork.nTimeSigned) (mgr : CSporkManager) :
    Prop :=
  ∀ nSporkID, IsKnownSpork nSporkID →
    signedValues ((mgr.restarted key sorting).activeSporks nSporkID) =
      signedValues (mgr.activeSporks nSporkID)

/-- There is a database, and its messages are under their own ids. -/
def HasDatabase (mgr : CSporkManager) : Prop :=
  ∃ pSporkDB, mgr.pSporkDB = some pSporkDB ∧ WellKeyed pSporkDB

/-- An event after which a restart still changes nothing. -/
def KeepsStored (key : SporkKey) : SporkEvent → CSporkManager → Prop
  | .process context spork, mgr =>
    isMultiValueSpork spork.nSporkID = true → context.fLiteMode = false → context.hasTip = true →
      spork.checkSignature key = true → mgr.activeSporks spork.nSporkID = [] ∨
        ∃ other ∈ mgr.activeSporks spork.nSporkID, spork.getHash key = other.getHash key
  | .update nSporkID strValue adjustedTime chainHeight, mgr =>
    let fields : SporkFields := ⟨nSporkID, strValue, adjustedTime⟩
    IsKnownSpork nSporkID → mgr.isNewerSpork { fields with vchSig := [] } = true →
      CSporkMessage.sign key fields = none ∨
        isMultiValueSpork nSporkID = true ∧
          (getActivationHeightHelper nSporkID strValue < chainHeight + 10 ∨
            ∃ other ∈ mgr.activeSporks nSporkID, key.getHash fields = other.getHash key)

theorem restarted_eq (h : next.pSporkDB = mgr.pSporkDB) :
    next.restarted key sorting = mgr.restarted key sorting := by
  unfold restarted
  rw [h]

theorem activeSporks_restarted (hdb : mgr.pSporkDB = some pSporkDB)
    (hke : WellKeyed pSporkDB) (hk : IsKnownSpork nSporkID) :
    (mgr.restarted key sorting).activeSporks nSporkID = (pSporkDB.lookup nSporkID).toList := by
  unfold restarted
  rw [hdb]
  exact activeSporks_loadSporksFromDB hke hk

/-- Nothing that matters has changed. -/
theorem survivesRestart_of_same
    (hact : ∀ nSporkID, next.activeSporks nSporkID = mgr.activeSporks nSporkID)
    (hdb : next.pSporkDB = mgr.pSporkDB) (h : mgr.SurvivesRestart key sorting) :
    next.SurvivesRestart key sorting := by
  intro nSporkID hk
  rw [restarted_eq hdb, hact]
  exact h nSporkID hk

theorem length_withSpork {sporks : List CSporkMessage}
    (hmul : isMultiValueSpork spork.nSporkID = true) :
    (withSpork sorting sporks spork).length = sporks.length + 1 := by
  rw [withSpork, if_pos hmul, (sorting.perm _).length_eq, length_append, length_singleton]

theorem length_signedValues (sporks : List CSporkMessage) :
    (signedValues sporks).length = sporks.length :=
  length_map _

/-- A message that is written to the database replaces what was there of its id. -/
theorem survivesRestart_processSpork (hdb : mgr.HasDatabase)
    (h : mgr.SurvivesRestart key sorting) (context : SporkContext) (spork : CSporkMessage) :
    (mgr.processSpork key sorting context spork).1.SurvivesRestart key sorting ↔
      KeepsStored key (.process context spork) mgr := by
  obtain ⟨pSporkDB, hpSporkDB, hke⟩ := hdb
  by_cases hacc : mgr.Accepts key context spork
  · rw [processSpork_of_accepts hacc hpSporkDB]
    constructor
    · intro hsurv hmul _ _ _
      left
      have hk := isKnownSpork_of_multi hmul
      have hvs := hsurv spork.nSporkID hk
      rw [activeSporks_restarted rfl (hke.insert spork) hk, Finmap.lookup_insert,
        activeSporks_insert mgr rfl, if_pos rfl] at hvs
      have hlen := congrArg List.length hvs
      rw [length_signedValues, length_signedValues, length_withSpork hmul] at hlen
      simpa using hlen
    · intro hkeep nSporkID hk
      rw [activeSporks_restarted rfl (hke.insert spork) hk, activeSporks_insert mgr rfl]
      by_cases hid : nSporkID = spork.nSporkID
      · rw [if_pos hid, hid, Finmap.lookup_insert, toList_some]
        by_cases hmul : isMultiValueSpork spork.nSporkID = true
        · have he : mgr.activeSporks spork.nSporkID = [] := by
            refine (hkeep hmul hacc.full hacc.synced hacc.signature).resolve_right ?_
            rintro ⟨other, ho, hh⟩
            exact hacc.newTo hmul other ho hh
          rw [he, withSpork_nil]
        · rw [withSpork, if_neg hmul]
      · rw [if_neg hid, Finmap.lookup_insert_of_ne _ hid, ← h nSporkID hk,
          activeSporks_restarted hpSporkDB hke hk]
  · obtain ⟨hact, hsameDB⟩ := processSpork_of_not_accepts sorting hacc
    refine iff_of_true
      (survivesRestart_of_same (activeSporks_of_mapSporksActive hact) hsameDB h) ?_
    intro hmul hfull hs hsig
    right
    have hk : ¬ mgr.NewTo key spork := fun hnew =>
      hacc ⟨hfull, hs, .inr hmul, hsig, by rw [hpSporkDB]; rfl, hnew⟩
    exact (not_newTo_iff.mp hk).2

theorem updateSpork_eq_some_iff :
    mgr.updateSpork key sorting nSporkID strValue adjustedTime chainHeight = some next ↔
      mgr.isNewerSpork ⟨⟨nSporkID, strValue, adjustedTime⟩, []⟩ = true ∧
        ¬ (isMultiValueSpork nSporkID = true ∧
          getActivationHeightHelper nSporkID strValue < chainHeight + 10) ∧
        ∃ spork, CSporkMessage.sign key ⟨nSporkID, strValue, adjustedTime⟩ = some spork ∧
          mgr.rememberSpork key sorting spork = next := by
  simp only [updateSpork, Bool.not_eq_true', Bool.and_eq_true, decide_eq_true_eq]
  split
  case isTrue holder => simp [holder]
  case isFalse hn =>
    split
    case isTrue hsoon => simp [hsoon]
    case isFalse hlate =>
      split
      case h_1 hsign => simp [hsign]
      case h_2 spork hsign => simp [hsign, hn, hlate]

theorem toSporkFields_of_sign {fields : SporkFields}
    (h : CSporkMessage.sign key fields = some spork) : spork.toSporkFields = fields := by
  unfold CSporkMessage.sign at h
  split at h
  · cases h
  · split at h
    · cases h
      rfl
    · cases h

/-- A newer message is not what is there. -/
theorem signedValues_withSpork_ne (hn : mgr.isNewerSpork spork = true) :
    signedValues (withSpork sorting (mgr.activeSporks spork.nSporkID) spork) ≠
      signedValues (mgr.activeSporks spork.nSporkID) := by
  intro heq
  by_cases hmul : isMultiValueSpork spork.nSporkID = true
  · have hlen := congrArg List.length heq
    rw [length_signedValues, length_signedValues, length_withSpork hmul] at hlen
    omega
  · rw [withSpork, if_neg hmul] at heq
    unfold isNewerSpork at hn
    generalize mgr.activeSporks spork.nSporkID = sporks at heq hn
    obtain ⟨other, rfl⟩ : ∃ other, sporks = [other] := by
      rw [← length_eq_one_iff, ← length_signedValues, ← heq]
      rfl
    simp only [signedValues, map_cons, map_nil, List.cons.injEq, Prod.mk.injEq, and_true] at heq
    simp [heq] at hn

theorem keepsStored_of_refused
    (h : mgr.updateSpork key sorting nSporkID strValue adjustedTime chainHeight = none) :
    KeepsStored key (.update nSporkID strValue adjustedTime chainHeight) mgr := by
  intro hk hn
  by_contra hnot
  obtain ⟨hsign, hlate⟩ := not_or.mp hnot
  obtain ⟨spork, hsp⟩ := ne_none_iff_exists'.mp hsign
  have hsome : mgr.updateSpork key sorting nSporkID strValue adjustedTime chainHeight =
      some (mgr.rememberSpork key sorting spork) := updateSpork_eq_some_iff.mpr
    ⟨hn, fun hsoon => hlate ⟨hsoon.1, .inl hsoon.2⟩, spork, hsp, rfl⟩
  rw [hsome] at h
  cases h

/-- A spork that the node issues is not written to the database. -/
theorem survivesRestart_update (h : mgr.SurvivesRestart key sorting) (nSporkID : Int)
    (strValue : StdString) (adjustedTime chainHeight : Int) :
    (mgr.handle key sorting (.update nSporkID strValue adjustedTime chainHeight)).SurvivesRestart
        key sorting ↔
      KeepsStored key (.update nSporkID strValue adjustedTime chainHeight) mgr := by
  simp only [handle]
  cases hupd : mgr.updateSpork key sorting nSporkID strValue adjustedTime chainHeight with
  | none => exact iff_of_true h (keepsStored_of_refused hupd)
  | some next =>
    obtain ⟨hn, hlate, spork, hsign, rfl⟩ := updateSpork_eq_some_iff.mp hupd
    have hf := toSporkFields_of_sign hsign
    have hid : spork.nSporkID = nSporkID := by rw [hf]
    have hh : spork.getHash key = key.getHash ⟨nSporkID, strValue, adjustedTime⟩ := by
      rw [CSporkMessage.getHash, hf]
    have hsporkNewer : mgr.isNewerSpork spork = true := by
      have htime : spork.nTimeSigned = adjustedTime := by rw [hf]
      unfold isNewerSpork at hn ⊢
      rw [hid, htime]
      exact hn
    rw [getD_some]
    by_cases hnew : mgr.NewTo key spork
    · constructor
      · -- The new message is there, and not in the database.
        intro hsurv hk _
        exfalso
        have hvs := hsurv nSporkID hk
        rw [restarted_eq (pSporkDB_rememberSpork mgr spork), h nSporkID hk,
          activeSporks_rememberSpork hnew, if_pos hid.symm, ← hid] at hvs
        exact signedValues_withSpork_ne hsporkNewer hvs.symm
      · intro hkeep other hk
        have hne : other ≠ spork.nSporkID := by
          intro heq
          have hos := hkeep (hid ▸ heq ▸ hk) hn
          rcases hos with hno | ⟨hmul, hsoon | ⟨stored, hsto, hstoredHash⟩⟩
          · rw [hsign] at hno
            cases hno
          · exact hlate ⟨hmul, hsoon⟩
          · exact hnew (hid ▸ hmul) stored (hid ▸ hsto) (hh.trans hstoredHash)
        rw [restarted_eq (pSporkDB_rememberSpork mgr spork), activeSporks_rememberSpork hnew,
          if_neg hne]
        exact h other hk
    · obtain ⟨hmul, stored, hsto, hstoredHash⟩ := not_newTo_iff.mp hnew
      refine iff_of_true (survivesRestart_of_same (activeSporks_rememberSpork_known hnew)
        (pSporkDB_rememberSpork mgr spork) h) ?_
      intro _ _
      exact .inr ⟨hid ▸ hmul, .inr ⟨stored, hid ▸ hsto, hh ▸ hstoredHash⟩⟩

theorem HasDatabase.handle (h : mgr.HasDatabase) (event : SporkEvent) :
    (mgr.handle key sorting event).HasDatabase := by
  obtain ⟨pSporkDB, hpSporkDB, hke⟩ := h
  cases event with
  | process context spork =>
    simp only [CSporkManager.handle]
    by_cases hacc : mgr.Accepts key context spork
    · rw [processSpork_of_accepts hacc hpSporkDB]
      exact ⟨_, rfl, hke.insert spork⟩
    · have hs := (processSpork_of_not_accepts sorting hacc).2
      exact ⟨pSporkDB, hs.trans hpSporkDB, hke⟩
  | update nSporkID strValue adjustedTime chainHeight =>
    simp only [CSporkManager.handle]
    cases hupd : mgr.updateSpork key sorting nSporkID strValue adjustedTime chainHeight with
    | none => exact ⟨pSporkDB, hpSporkDB, hke⟩
    | some next =>
      obtain ⟨-, -, spork, -, rfl⟩ := updateSpork_eq_some_iff.mp hupd
      exact ⟨pSporkDB, (pSporkDB_rememberSpork mgr spork).trans hpSporkDB, hke⟩

end CSporkManager

/--
**When a restart changes nothing.**  Start a node on any database.  After each of a sequence of
messages and sporks that it issues, a restart leaves the values and times of every id in use as
they are if and only if no message adds a second one to a multi-value spork, and no spork that
the node issues is added.
-/
theorem sporks_survive_restart_iff (key : SporkKey)
    (sorting : SortBy fun spork : CSporkMessage => spork.nTimeSigned)
    {pSporkDB : Finmap fun _ : Int => CSporkMessage} (hke : CSporkManager.WellKeyed pSporkDB)
    (events : List SporkEvent) :
    (∀ before after, events = before ++ after →
      (before.foldl (CSporkManager.handle key sorting)
        ((CSporkManager.fresh pSporkDB).loadSporksFromDB key sorting)).SurvivesRestart
          key sorting) ↔
      ∀ before event after, events = before ++ event :: after →
        CSporkManager.KeepsStored key event
          (before.foldl (CSporkManager.handle key sorting)
            ((CSporkManager.fresh pSporkDB).loadSporksFromDB key sorting)) := by
  have hdb : ((fresh pSporkDB).loadSporksFromDB key sorting).pSporkDB =
      some pSporkDB := pSporkDB_loadSporksFromDB _
  refine foldl_always_iff (I := CSporkManager.HasDatabase)
    (fun mgr event hI => hI.handle event) ?_ ⟨pSporkDB, hdb, hke⟩ ?_ events
  · intro mgr event hI hsurv
    cases event with
    | process context spork =>
      exact survivesRestart_processSpork hI hsurv context spork
    | update nSporkID strValue adjustedTime chainHeight =>
      exact survivesRestart_update hsurv nSporkID strValue adjustedTime chainHeight
  · intro nSporkID _
    unfold restarted
    rw [hdb]
    rfl

/-- A spork and its revocation. -/
def revokedSpork : List SporkEvent :=
  [.process {} (sporkAt SPORK_8_MASTERNODE_PAYMENT_ENFORCEMENT "0" 100),
    .process {} (sporkAt SPORK_8_MASTERNODE_PAYMENT_ENFORCEMENT "4070908800" 101)]

/-- With a first block value after it. -/
def receivedSporks : List SporkEvent :=
  revokedSpork ++ [.process {} (sporkAt SPORK_15_BLOCK_VALUE "900;525600" 102)]

/-- A node that starts with an empty database. -/
def startedNode : CSporkManager :=
  (CSporkManager.fresh ∅).loadSporksFromDB lengthKey (SortBy.insertion _)

theorem sporks_survive_restart_received :
    (receivedSporks.foldl (CSporkManager.handle lengthKey (SortBy.insertion _))
      startedNode).SurvivesRestart lengthKey (SortBy.insertion _) := by
  have hke : CSporkManager.WellKeyed ∅ := by
    intro nSporkID spork hget
    cases hget
  refine (sporks_survive_restart_iff lengthKey (SortBy.insertion _) hke receivedSporks).mpr ?_
    receivedSporks [] (append_nil _).symm
  intro before event after hevs
  rcases eq_nil_or_concat after with rfl | ⟨after, last, rfl⟩
  · obtain ⟨rfl, hl⟩ := append_inj' hevs rfl
    obtain rfl := (List.cons.inj hl).1
    intro _ _ _ _
    left
    decide +kernel
  · -- The messages before are of a single-value spork.
    have hs : ∀ event ∈ revokedSpork, ∀ mgr,
        CSporkManager.KeepsStored lengthKey event mgr := by
      simp [revokedSpork, CSporkManager.KeepsStored, sporkAt, isMultiValueSpork,
        SPORK_8_MASTERNODE_PAYMENT_ENFORCEMENT, SPORK_13_BLOCK_PAYMENTS, SPORK_14_TX_FEE,
        SPORK_15_BLOCK_VALUE, SPORK_16_LOTTERY_TICKET_MIN_VALUE]
    rw [concat_eq_append, ← cons_append, ← append_assoc] at hevs
    refine hs event ?_ _
    rw [(append_inj' hevs rfl).1]
    exact mem_append_right _ mem_cons_self

/-- Of two block values the second one is left, even if the first one is newer, and of a spork
that the node issued itself nothing is left. -/
theorem sporks_lost_on_restart :
    let node := [SporkEvent.process {} (sporkAt SPORK_15_BLOCK_VALUE "1000;525600" 103),
        .process {} (sporkAt SPORK_15_BLOCK_VALUE "900;525600" 102),
        .update SPORK_8_MASTERNODE_PAYMENT_ENFORCEMENT "0".toList 104 500].foldl
      (CSporkManager.handle lengthKey (SortBy.insertion _)) startedNode
    signedValues (node.activeSporks SPORK_15_BLOCK_VALUE) =
        [("900;525600".toList, 102), ("1000;525600".toList, 103)] ∧
      signedValues ((node.restarted lengthKey (SortBy.insertion _)).activeSporks
        SPORK_15_BLOCK_VALUE) = [("900;525600".toList, 102)] ∧
      signedValues (node.activeSporks SPORK_8_MASTERNODE_PAYMENT_ENFORCEMENT) =
        [("0".toList, 104)] ∧
      signedValues ((node.restarted lengthKey (SortBy.insertion _)).activeSporks
        SPORK_8_MASTERNODE_PAYMENT_ENFORCEMENT) = [] := by
  decide +kernel

end Divi
