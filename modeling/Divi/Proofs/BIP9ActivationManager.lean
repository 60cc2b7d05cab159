/-
Rolling back a deployment without a tracker.

`addBIP` enters the name and the deployment before it asks for a tracker, and takes them out again
if there is none.  The name is only entered if it is new, but it is always taken out, so that a
deployment that had it before is not found any more.
-/
import Divi.BIP9ActivationManager

namespace Divi.BIP9ActivationManager

variable {τ : Type} {calls : I_BIP9ActivationStateTracker τ} {mgr after : BIP9ActivationManager τ}
  {bip : BIP9Deployment}

/-- What `networkEnabledBIP` answers. -/
def answer (calls : I_BIP9ActivationStateTracker τ) (mgr : BIP9ActivationManager τ)
    (bipName : String) (chainTip : BlockPointer) : Option Bool :=
  (mgr.networkEnabledBIP calls bipName chainTip).map Prod.fst

theorem answer_of_lookup_none {bipName : String}
    (h : mgr.bipIndexByName.lookup bipName = none) (chainTip : BlockPointer) :
    mgr.answer calls bipName chainTip = some false := by
  rw [answer, networkEnabledBIP, h]
  rfl

/-- Only the index of the name and the trackers matter for an answer. -/
theorem answer_congr {bipName : String}
    (ht : after.bip9ActivationTrackers = mgr.bip9ActivationTrackers)
    (hget : after.bipIndexByName.lookup bipName = mgr.bipIndexByName.lookup bipName)
    (chainTip : BlockPointer) :
    after.answer calls bipName chainTip = mgr.answer calls bipName chainTip := by
  unfold answer networkEnabledBIP
  rw [hget, ht]
  cases mgr.bipIndexByName.lookup bipName with
  | none => rfl
  | some index =>
    -- the managers differ, but not in what is answered
    simp [bind]

/-- Taking out a name that may have been entered leaves the other names. -/
theorem lookup_erase_enter (index : Finmap fun _ : String => Nat) (name other : String)
    (position : Nat) :
    ((if name ∈ index then index else index.insert name position).erase name).lookup other =
      if other = name then none else index.lookup other := by
  by_cases ho : other = name
  · rw [if_pos ho, ho, Finmap.lookup_erase]
  · rw [if_neg ho, Finmap.lookup_erase_ne ho]
    split
    next => rfl
    next => exact Finmap.lookup_insert_of_ne _ ho

/-- Without a tracker nothing changes but that the name is gone, if the bit was free. -/
theorem addBIP_null (h : mgr.addBIP bip none = some after) :
    after.bip9ActivationTrackers = mgr.bip9ActivationTrackers ∧
    after.knownBIPs = mgr.knownBIPs ∧
    ∀ bipName, after.bipIndexByName.lookup bipName =
      if mgr.bitIsFree bip ∧ bipName = bip.deploymentName then none
      else mgr.bipIndexByName.lookup bipName := by
  unfold addBIP at h
  unfold bitIsFree
  split at h
  next hl =>
    cases h
    refine ⟨rfl, rfl, fun bipName => (if_neg ?_).symm⟩
    rw [decide_eq_false (by omega), Bool.false_and]
    exact fun hfree => Bool.false_ne_true hfree.1
  next hs =>
    rw [decide_eq_true (by omega), Bool.true_and]
    obtain ⟨-, h⟩ := Option.ite_none_left_eq_some.mp h
    dsimp only at h
    split at h
    next hfree =>
      rw [List.dropLast_concat] at h
      cases h
      refine ⟨rfl, rfl, fun bipName => ?_⟩
      simp only [beq_iff_eq.mpr hfree, true_and]
      exact lookup_erase_enter _ _ _ _
    next hused =>
      cases h
      refine ⟨rfl, rfl, fun bipName => (if_neg ?_).symm⟩
      exact fun hfree => hused (beq_iff_eq.mp hfree.1)

/-- A call of `addBIP` for which there is no tracker changes no answer if and only if its bit was
not free, or every query for its name was answered by false before. -/
theorem addBIP_null_unobservable_iff (calls : I_BIP9ActivationStateTracker τ)
    (mgr after : BIP9ActivationManager τ) (bip : BIP9Deployment)
    (h : mgr.addBIP bip none = some after) :
    (∀ bipName chainTip,
      after.answer calls bipName chainTip = mgr.answer calls bipName chainTip ∧
      after.getBIPStatus bipName = mgr.getBIPStatus bipName) ↔
    (mgr.bitIsFree bip →
      ∀ chainTip, mgr.answer calls bip.deploymentName chainTip = some false) := by
  obtain ⟨ht, hk, hget⟩ := addBIP_null h
  constructor
  · intro hs hfree chainTip
    rw [← (hs bip.deploymentName chainTip).1]
    apply answer_of_lookup_none
    rw [hget, if_pos ⟨hfree, rfl⟩]
  · intro hf bipName chainTip
    refine ⟨?_, by rw [getBIPStatus, hk, getBIPStatus]⟩
    by_cases hgone : mgr.bitIsFree bip ∧ bipName = bip.deploymentName
    · obtain ⟨hfree, rfl⟩ := hgone
      rw [hf hfree chainTip]
      apply answer_of_lookup_none
      rw [hget, if_pos ⟨hfree, rfl⟩]
    · apply answer_congr ht
      rw [hget, if_neg hgone]

/-- A deployment that is always active. -/
def standingDeployment (deploymentName : String) (bit : Int) : BIP9Deployment :=
  { deploymentName := deploymentName, bit := bit, nStartTime := BIP9Deployment.ALWAYS_ACTIVE,
    nTimeout := 100, nPeriod := 10, threshold := 8 }

/-- Its tracker, before the first call. -/
def standingTracker : CachedBIP9ActivationStateTracker × ThresholdConditionCache :=
  (⟨standingDeployment "standing" 1, fun _ => 0⟩, ∅)

/-- The manager after it is added. -/
def standingManager :
    BIP9ActivationManager (CachedBIP9ActivationStateTracker × ThresholdConditionCache) :=
  { bip9ActivationTrackers := [standingTracker]
    knownBIPs := [standingDeployment "standing" 1]
    bitfieldOfBipsInUse := 2
    bipIndexByName := (∅ : Finmap fun _ : String => Nat).insert "standing" 0 }

/-- Without a tracker for a new name nothing changes. -/
theorem addBIP_null_unobservable_new_name :
    ∃ after, standingManager.addBIP (standingDeployment "other" 2) none = some after ∧
      standingManager.bitIsFree (standingDeployment "other" 2) ∧
      ∀ bipName chainTip,
        after.answer CachedBIP9ActivationStateTracker.calls bipName chainTip =
          standingManager.answer CachedBIP9ActivationStateTracker.calls bipName chainTip ∧
        after.getBIPStatus bipName = standingManager.getBIPStatus bipName :=
  ⟨_, rfl, rfl, (addBIP_null_unobservable_iff CachedBIP9ActivationStateTracker.calls
    standingManager _ (standingDeployment "other" 2) rfl).mpr fun _ _ => rfl⟩

/-- Adding the name again for another bit, without a tracker, turns the deployment off. -/
theorem addBIP_null_turns_off :
    ∃ after,
      addBIP {} (standingDeployment "standing" 1) (some standingTracker) = some standingManager ∧
      standingManager.addBIP (standingDeployment "standing" 2) none = some after ∧
      standingManager.answer CachedBIP9ActivationStateTracker.calls "standing" [] = some true ∧
      after.answer CachedBIP9ActivationStateTracker.calls "standing" [] = some false :=
  ⟨_, rfl, rfl, rfl, rfl⟩

end Divi.BIP9ActivationManager
