/-
Which broadcasts get their masternode into the list.

A broadcast is recorded under a hash of its time and its collateral key.  The collateral itself is
not hashed, so that two broadcasts for different collaterals of one key that were signed in the
same second have the same hash, and the second one is taken for seen.
-/
import Divi.MasternodeManager

namespace Divi

open CMasternodeBroadcast List

namespace MasternodeNetworkMessageManager

variable {ctx : MasternodeContext} {network : MasternodeNetworkMessageManager}

@[simp] theorem masternodes_recordBroadcast (mnb : CMasternodeBroadcast) :
    (network.recordBroadcast ctx mnb).masternodes = network.masternodes := by
  unfold recordBroadcast
  dsimp only
  split
  · rfl
  · rfl

@[simp] theorem masternodes_recordPing (mnp : CMasternodePing) :
    (network.recordPing ctx mnp).masternodes = network.masternodes := by
  unfold recordPing
  dsimp only
  split
  · rfl
  · split
    · rfl
    · rfl

/-! ### Clearing the seen broadcasts -/

section Clearing

variable {seen : List CMasternodeBroadcast} {sync sync' : Finmap fun _ : uint256 => Int}

/-- The hashes of some broadcasts are erased from a map, and nothing else is. -/
def Erases (ctx : MasternodeContext) (erased : CMasternodeBroadcast → Prop)
    (sync sync' : Finmap fun _ : uint256 => Int) : Prop :=
  ∀ hash n, sync'.lookup hash = some n ↔ sync.lookup hash = some n ∧
    ∀ mnb, erased mnb → getHash ctx mnb ≠ hash

/-- The broadcast before this one is timed out. -/
def FollowsTimedOut (ctx : MasternodeContext) (seen : List CMasternodeBroadcast)
    (mnb : CMasternodeBroadcast) : Prop :=
  ∃ prev, [prev, mnb] <:+: seen ∧ timedOut ctx prev = true

theorem followsTimedOut_cons {mnb next : CMasternodeBroadcast} :
    FollowsTimedOut ctx (mnb :: seen) next ↔
      seen.head? = some next ∧ timedOut ctx mnb = true ∨ FollowsTimedOut ctx seen next := by
  constructor
  · rintro ⟨prev, hi, hout⟩
    rcases infix_cons_iff.mp hi with hfst | hr
    · obtain ⟨rfl, tail, rfl⟩ := cons_prefix_cons.mp hfst
      exact .inl ⟨rfl, hout⟩
    · exact .inr ⟨prev, hr, hout⟩
  · rintro (⟨hhead, hout⟩ | ⟨prev, hr, hout⟩)
    · obtain ⟨tail, rfl⟩ := List.head?_eq_some_iff.mp hhead
      exact ⟨mnb, ⟨[], tail, rfl⟩, hout⟩
    · exact ⟨prev, infix_cons hr, hout⟩

theorem clearTimedOut_eq_none {last : CMasternodeBroadcast} (hl : [last] <:+ seen)
    (hout : timedOut ctx last = true) :
    clearTimedOutMasternodeBroadcasts ctx seen sync = none := by
  induction seen generalizing sync with
  | nil => cases suffix_nil.mp hl
  | cons mnb rest ih =>
    rw [clearTimedOutMasternodeBroadcasts]
    rcases suffix_cons_iff.mp hl with heq | hr
    · obtain ⟨rfl, rfl⟩ := List.cons.inj heq
      rw [if_pos hout]
      rfl
    · split
      · cases rest.head? with
        | none => rfl
        | some next => exact ih hr
      · rw [ih hr]
        rfl

theorem clearTimedOut_erases (sync : Finmap fun _ : uint256 => Int)
    (hl : ∀ last, [last] <:+ seen → timedOut ctx last = false) :
    ∃ sync', clearTimedOutMasternodeBroadcasts ctx seen sync =
        some (seen.filter fun mnb => !timedOut ctx mnb, sync') ∧
      Erases ctx (FollowsTimedOut ctx seen) sync sync' := by
  induction seen generalizing sync with
  | nil => exact ⟨sync, rfl, by simp [Erases, FollowsTimedOut]⟩
  | cons mnb rest ih =>
    have hr : ∀ last, [last] <:+ rest → timedOut ctx last = false :=
      fun last h => hl last (h.trans (suffix_cons mnb rest))
    unfold Erases at ih ⊢
    simp only [followsTimedOut_cons]
    cases hout : timedOut ctx mnb with
    | false =>
      obtain ⟨sync', hclr, he⟩ := ih sync hr
      refine ⟨sync', by simp [clearTimedOutMasternodeBroadcasts, hout, hclr], ?_⟩
      simpa using he
    | true =>
      cases rest with
      | nil =>
        rw [hl mnb suffix_rfl] at hout
        cases hout
      | cons next rest =>
        obtain ⟨sync', hclr, he⟩ := ih (sync.erase (getHash ctx next)) hr
        refine ⟨sync', by simpa [clearTimedOutMasternodeBroadcasts, hout] using hclr, ?_⟩
        intro hash n
        rw [he hash n]
        by_cases hnext : hash = getHash ctx next
        · subst hnext
          rw [Finmap.lookup_erase]
          exact iff_of_false (fun h => nomatch h.1) fun h => h.2 next (.inl ⟨rfl, rfl⟩) rfl
        · simp [Finmap.lookup_erase_ne hnext, Ne.symm hnext, or_imp, forall_and]

/-- Among broadcasts with different hashes, it is decided by the entries of the map which of them
are erased. -/
theorem erases_iff {erased erased' : CMasternodeBroadcast → Prop}
    (hseen : ∀ ⦃a⦄, a ∈ seen → ∀ ⦃b⦄, b ∈ seen → getHash ctx a = getHash ctx b → a = b)
    (h : Erases ctx erased sync sync') (hmem : ∀ mnb, erased mnb → mnb ∈ seen)
    (hmem' : ∀ mnb, erased' mnb → mnb ∈ seen) :
    Erases ctx erased' sync sync' ↔
      ∀ mnb ∈ seen, getHash ctx mnb ∈ sync → (erased' mnb ↔ erased mnb) := by
  unfold Erases at h ⊢
  simp only [h]
  constructor
  · intro hs mnb hmnb hsync
    obtain ⟨n, hn⟩ := Finmap.mem_iff.mp hsync
    have hself : ∀ {erased : CMasternodeBroadcast → Prop}, (∀ x, erased x → x ∈ seen) →
        ((∀ x, erased x → getHash ctx x ≠ getHash ctx mnb) ↔ ¬erased mnb) := by
      refine fun hmem => ⟨fun ho h => ho mnb h rfl, fun hnot x hx heq => hnot ?_⟩
      rwa [← hseen (hmem x hx) hmnb heq]
    have hiff := hs (getHash ctx mnb) n
    rw [and_iff_right hn, and_iff_right hn, hself hmem, hself hmem', not_iff_not] at hiff
    exact hiff.symm
  · intro hs hash n
    refine and_congr_right fun hn => forall_congr' fun x => ?_
    have hx : x ∈ seen → getHash ctx x = hash → (erased' x ↔ erased x) := by
      rintro hx rfl
      exact hs x hx (Finmap.mem_iff.mpr ⟨n, hn⟩)
    exact ⟨fun h hx' heq => h ((hx (hmem' x hx') heq).mp hx') heq,
      fun h hx' heq => h ((hx (hmem x hx') heq).mpr hx') heq⟩

/-- The timed out broadcasts are cleared from both maps, and nothing else is, if and only if the
last one is not timed out and each one with an entry in `mapSeenSyncMNB` is timed out exactly if
the one before it is. -/
theorem clearTimedOut_exact_iff (ctx : MasternodeContext) (seen : SeenBroadcasts ctx)
    (mapSeenSyncMNB : Finmap fun _ : uint256 => Int) :
    (∃ sync, clearTimedOutMasternodeBroadcasts ctx seen.entries mapSeenSyncMNB =
        some (seen.entries.filter fun mnb => !timedOut ctx mnb, sync) ∧
      Erases ctx (fun mnb => mnb ∈ seen.entries ∧ timedOut ctx mnb = true) mapSeenSyncMNB sync) ↔
    (∀ last, [last] <:+ seen.entries → timedOut ctx last = false) ∧
      ∀ mnb ∈ seen.entries, getHash ctx mnb ∈ mapSeenSyncMNB →
        (timedOut ctx mnb = true ↔ FollowsTimedOut ctx seen.entries mnb) := by
  have hfol : ∀ mnb, FollowsTimedOut ctx seen.entries mnb → mnb ∈ seen.entries :=
    fun mnb ⟨_, hi, _⟩ => hi.subset (by simp)
  have hinj :=
    inj_on_of_nodup_map (pairwise_map.mpr (seen.sorted.imp BitVec.ne_of_lt))
  by_cases hl : ∀ last, [last] <:+ seen.entries → timedOut ctx last = false
  · obtain ⟨sync, hclr, he⟩ := clearTimedOut_erases mapSeenSyncMNB hl
    simp only [hclr, Option.some.injEq, Prod.mk.injEq, true_and, exists_eq_left']
    rw [erases_iff hinj he hfol fun _ h => h.1, and_iff_right hl]
    refine forall₂_congr fun mnb hmnb => ?_
    rw [and_iff_right hmnb]
  · refine iff_of_false ?_ fun h => hl h.1
    rintro ⟨sync, hclr, -⟩
    push Not at hl
    obtain ⟨last, hsuf, hout⟩ := hl
    rw [clearTimedOut_eq_none hsuf (Bool.eq_true_of_not_eq_false hout)] at hclr
    cases hclr

end Clearing

end MasternodeNetworkMessageManager

namespace CMasternodeMan

variable {ctx : MasternodeContext} {man : CMasternodeMan} {mnb : CMasternodeBroadcast}

/-- The checks of `ProcessBroadcast` on a broadcast that is not seen before. -/
structure PassesChecks (ctx : MasternodeContext) (man : CMasternodeMan)
    (mnb : CMasternodeBroadcast) : Prop where
  context : (checkMasternodeBroadcastContext ctx mnb).1 = true
  association : isVinAssociatedWithPubkey ctx mnb.vin mnb.pubKeyCollateralAddress mnb.nTier = true
  inputs : (man.localActiveMasternode.isOurBroadcast mnb true ||
    man.checkInputsForMasternode ctx mnb) = true
  ping : (checkPing ctx mnb (man.localActiveMasternode.isOurBroadcast mnb true)).1 = true

@[simp] theorem vin_check (mn : CMasternode) (forceCheck : Bool) :
    (mn.check ctx forceCheck).vin = mn.vin := by
  unfold CMasternode.check
  dsimp only
  repeat' split
  all_goals rfl

theorem checkAndUpdatePing_cases (ctx : MasternodeContext) (mn : CMasternode)
    (mnp : CMasternodePing) (skipPingChainSyncCheck : Bool) :
    (checkAndUpdatePing ctx mn mnp skipPingChainSyncCheck).1 = false ∨
    checkAndUpdatePing ctx mn mnp skipPingChainSyncCheck =
      ((CMasternode.check ctx { mn with lastPing := mnp } true).isEnabled,
        CMasternode.check ctx { mn with lastPing := mnp } true, 0) := by
  unfold checkAndUpdatePing
  dsimp only
  repeat' split
  all_goals first
    | exact .inl rfl
    | exact .inr rfl

/-- With a valid ping the masternode of a broadcast is enabled. -/
theorem checkPing_accepted {isOurBroadcast : Bool}
    (h : (checkPing ctx mnb isOurBroadcast).1 = true) :
    (checkPing ctx mnb isOurBroadcast).2.1.isEnabled = true ∧
      (checkPing ctx mnb isOurBroadcast).2.1.vin = mnb.vin := by
  have hcheckPing : checkPing ctx mnb isOurBroadcast = checkAndUpdatePing ctx
      { CMasternode.ofBroadcast mnb with lastPing := {} } mnb.lastPing isOurBroadcast := rfl
  rw [hcheckPing] at h ⊢
  obtain hr | hc := checkAndUpdatePing_cases ctx
    { CMasternode.ofBroadcast mnb with lastPing := {} } mnb.lastPing isOurBroadcast
  · rw [hr] at h
    cases h
  · rw [hc] at h ⊢
    exact ⟨h, vin_check _ true⟩

/-- An enabled masternode with a new collateral is added at the end. -/
theorem masternodes_add {mn : CMasternode} (he : mn.isEnabled = true)
    (hnew : man.network.find mn.vin = none) :
    (man.add mn).network.masternodes = man.network.masternodes ++ [mn] := by
  unfold add
  rw [he, hnew]
  rfl

theorem masternodes_acceptBroadcast (mn : CMasternode) (isOurBroadcast : Bool) :
    (man.acceptBroadcast ctx mn mnb isOurBroadcast).network.masternodes =
      (man.add mn).network.masternodes := by
  unfold acceptBroadcast recordSeenPing
  split
  · simp
  · simp

section

variable (hk : man.network.broadcastIsKnown (getHash ctx mnb) = false)
  (hnew : man.network.find mnb.vin = none) (hchk : PassesChecks ctx man mnb)

include hk hnew hchk

/-- One for a new collateral that passes the checks is accepted. -/
theorem processBroadcast_new :
    man.processBroadcast ctx mnb = (true, 0, man.acceptBroadcast ctx
        (checkPing ctx mnb (man.localActiveMasternode.isOurBroadcast mnb true)).2.1 mnb
        (man.localActiveMasternode.isOurBroadcast mnb true)) := by
  have hupd : man.updateMasternodeFromBroadcast ctx mnb = (.MN_NOT_FOUND, man) := by
    rw [updateMasternodeFromBroadcast, hnew]
  have hins : (!man.localActiveMasternode.isOurBroadcast mnb true &&
      !man.checkInputsForMasternode ctx mnb) = false := by
    rw [← Bool.not_or, hchk.inputs, Bool.not_true]
  unfold processBroadcast
  simp [hk, hchk.context, hupd, hchk.association, hins, hchk.ping, hnew]

theorem find_processBroadcast_new :
    ∃ mn, (man.processBroadcast ctx mnb).2.2.network.find mnb.vin = some mn := by
  obtain ⟨he, hvin⟩ := checkPing_accepted hchk.ping
  rw [processBroadcast_new hk hnew hchk]
  refine ⟨(checkPing ctx mnb (man.localActiveMasternode.isOurBroadcast mnb true)).2.1, ?_⟩
  unfold MasternodeNetworkMessageManager.find at hnew ⊢
  rw [masternodes_acceptBroadcast, masternodes_add he (by rw [hvin]; exact hnew),
    List.find?_append, hnew, hvin.symm]
  simp

end

/-- Every broadcast is recorded under its own hash. -/
def KeyedByHash (ctx : MasternodeContext) (man : CMasternodeMan) : Prop :=
  ∀ hash seen, man.network.mapSeenMasternodeBroadcast.lookup hash = some seen →
    hash = CMasternodeBroadcast.getHash ctx seen

/-- A recorded broadcast was signed at the time of another one, for the same collateral key. -/
def RecordsTimeAndKey (man : CMasternodeMan) (mnb : CMasternodeBroadcast) : Prop :=
  ∃ hash seen, man.network.mapSeenMasternodeBroadcast.lookup hash = some seen ∧
    seen.sigTime = mnb.sigTime ∧ seen.pubKeyCollateralAddress = mnb.pubKeyCollateralAddress

theorem broadcastIsKnown_iff (hkeys : KeyedByHash ctx man)
    (hinj : ∀ hash seen, man.network.mapSeenMasternodeBroadcast.lookup hash = some seen →
      getHash ctx seen = getHash ctx mnb →
        seen.sigTime = mnb.sigTime ∧ seen.pubKeyCollateralAddress = mnb.pubKeyCollateralAddress) :
    man.network.broadcastIsKnown (getHash ctx mnb) = true ↔
      man.RecordsTimeAndKey mnb := by
  rw [MasternodeNetworkMessageManager.broadcastIsKnown, decide_eq_true_iff, Finmap.mem_iff]
  constructor
  · rintro ⟨seen, hseen⟩
    exact ⟨_, seen, hseen, hinj _ seen hseen (hkeys _ seen hseen).symm⟩
  · rintro ⟨hash, seen, hseen, htime, hkey⟩
    refine ⟨seen, ?_⟩
    rw [getHash, ← htime, ← hkey, ← getHash, ← hkeys hash seen hseen, hseen]

/-- After a broadcast for a new collateral that passes the checks, the collateral is in the list if
and only if the broadcast was not seen before.  If hashes of different times or keys differ, it was
seen if and only if a recorded broadcast has its time and its key. -/
theorem processBroadcast_lists_iff (ctx : MasternodeContext) (man : CMasternodeMan)
    (mnb : CMasternodeBroadcast) (hnew : man.network.find mnb.vin = none)
    (hchk : PassesChecks ctx man mnb) :
    ((∃ mn, (man.processBroadcast ctx mnb).2.2.network.find mnb.vin = some mn) ↔
      ¬ man.network.broadcastIsKnown (CMasternodeBroadcast.getHash ctx mnb)) ∧
    (KeyedByHash ctx man →
      (∀ hash seen, man.network.mapSeenMasternodeBroadcast.lookup hash = some seen →
        CMasternodeBroadcast.getHash ctx seen = CMasternodeBroadcast.getHash ctx mnb →
          seen.sigTime = mnb.sigTime ∧
          seen.pubKeyCollateralAddress = mnb.pubKeyCollateralAddress) →
      ((∃ mn, (man.processBroadcast ctx mnb).2.2.network.find mnb.vin = some mn) ↔
        ¬ man.RecordsTimeAndKey mnb)) := by
  have hl : (∃ mn, (man.processBroadcast ctx mnb).2.2.network.find mnb.vin = some mn) ↔
      ¬ man.network.broadcastIsKnown (getHash ctx mnb) := by
    constructor
    · rintro ⟨mn, hfind⟩ hk
      rw [processBroadcast, if_pos hk, hnew] at hfind
      cases hfind
    · intro hu
      exact find_processBroadcast_new (Bool.eq_false_iff.mpr hu) hnew hchk
  refine ⟨hl, ?_⟩
  intro hkeys hinj
  rw [hl, broadcastIsKnown_iff hkeys hinj]

/-! ### Two collaterals of one key -/

/-- A transaction with two outputs that pay one key the amount of a tier. -/
def collateralTransaction : CTransaction where
  hash := 7
  vin := []
  vout := List.replicate 2
    ⟨100 * COIN, TransactionCreator.getScriptForDestination (List.replicate 20 0)⟩

/-- The broadcast for one of the outputs, signed at a time. -/
def collateralBroadcast (n : Nat) (sigTime : Int) : CMasternodeBroadcast where
  vin := { prevout := ⟨7, n⟩ }
  addr := ⟨[], 0⟩
  pubKeyCollateralAddress := []
  pubKeyMasternode := []
  signature := []
  sigTime := sigTime
  protocolVersion := 70915
  nTier := .COPPER
  lastPing := { vin := { prevout := ⟨7, n⟩ }, blockHash := 0, sigTime := 2000 }

/-- A chain of twenty blocks, with the transaction in the first one. -/
def collateralChain : CChain :=
  (List.range 20).reverse.map fun h => { phashBlock := BitVec.ofNat 256 h, nHeight := h }

def collateralContext : MasternodeContext where
  getTime := 2000
  getAdjustedTime := 2000
  shutdownRequested := false
  activeProtocol := 70915
  protocolVersion := 70915
  masternodeCollateralMap _ := some (100 * COIN)
  chainActive := collateralChain
  mapBlockIndex hash := some (collateralChain.atHeight hash.toNat)
  getTransaction _ := some (collateralTransaction, 0)
  getCoins _ := some { vout := collateralTransaction.vout }
  hashes :=
    { ripemd160 _ := List.replicate 20 0
      sha1 _ := List.replicate 20 0
      sha256 _ := List.replicate 32 0
      hash160 _ := List.replicate 20 0
      hash256 _ := List.replicate 32 0
      ripemd160_length _ := List.length_replicate
      sha1_length _ := List.length_replicate
      sha256_length _ := List.length_replicate
      hash160_length _ := List.length_replicate
      hash256_length _ := List.length_replicate }
  broadcastHash sigTime _ := BitVec.ofInt 256 sigTime
  pingHash _ sigTime := BitVec.ofInt 256 sigTime
  verifyMessage _ _ _ := true
  serviceToString _ := []
  vinToString _ := []
  hashToString _ := []

/-- The manager after the broadcast for the first output, signed at 1000. -/
def firstCollateral : CMasternodeMan :=
  (processBroadcast collateralContext {} (collateralBroadcast 0 1000)).2.2

/-- The broadcast for the second output is accepted if it is signed a second later. -/
theorem processBroadcast_lists_second :
    ∃ mn, (firstCollateral.processBroadcast collateralContext
      (collateralBroadcast 1 1001)).2.2.network.find (collateralBroadcast 1 1001).vin = some mn :=
  (processBroadcast_lists_iff collateralContext firstCollateral (collateralBroadcast 1 1001) rfl
    ⟨rfl, rfl, rfl, rfl⟩).1.mpr (by decide)

/-- Signed in the same second it is taken for seen, although it passes the checks. -/
theorem processBroadcast_loses_second :
    firstCollateral.network.find (collateralBroadcast 1 1000).vin = none ∧
    PassesChecks collateralContext firstCollateral (collateralBroadcast 1 1000) ∧
    (firstCollateral.processBroadcast collateralContext
      (collateralBroadcast 1 1000)).2.2.network.find (collateralBroadcast 1 1000).vin = none :=
  ⟨rfl, ⟨rfl, rfl, rfl, rfl⟩, rfl⟩

end CMasternodeMan

namespace MasternodeNetworkMessageManager

open CMasternodeMan

/-- Of two broadcasts the first is timed out: it goes, but the hash of the second goes with it.
Alone it makes the end of the map be read. -/
theorem clearTimedOut_erases_next :
    ∃ sync, clearTimedOutMasternodeBroadcasts { collateralContext with getTime := 20000 }
        [collateralBroadcast 0 1000, { collateralBroadcast 1 1001 with lastPing.sigTime := 19000 }]
        ((Finmap.singleton 1000 1).insert 1001 1) =
          some ([{ collateralBroadcast 1 1001 with lastPing.sigTime := 19000 }], sync) ∧
      sync.lookup 1000 = some 1 ∧ sync.lookup 1001 = none ∧
      clearTimedOutMasternodeBroadcasts { collateralContext with getTime := 20000 }
        [collateralBroadcast 0 1000] (Finmap.singleton 1000 1) = none :=
  ⟨_, rfl, rfl, rfl, rfl⟩

end MasternodeNetworkMessageManager

end Divi
