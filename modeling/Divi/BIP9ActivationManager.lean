/-
The deployments of soft forks that a node knows, with a tracker for each.

A tracker is an object of its own, made by a factory, which may also return null.  It keeps its
cache, so that the vector of caches is left out.  A call of a tracker need not return.
-/
import Divi.BIP9ActivationTracker

namespace Divi

/-- The calls of a tracker, with what they leave of it. -/
structure I_BIP9ActivationStateTracker (τ : Type) where
  update : τ → BlockPointer → Option τ
  getLastCachedStatePriorToBlockIndex : τ → BlockPointer → Option (ThresholdState × τ)

/-- A tracker with its cache. -/
def CachedBIP9ActivationStateTracker.calls :
    I_BIP9ActivationStateTracker (CachedBIP9ActivationStateTracker × ThresholdConditionCache) where
  update tracker blockIndex :=
    (tracker.1.update tracker.2 blockIndex).map fun cache => (tracker.1, cache)
  getLastCachedStatePriorToBlockIndex tracker blockIndex :=
    (tracker.1.getLastCachedStatePriorToBlockIndex tracker.2 blockIndex).map
      fun (state, cache) => (state, tracker.1, cache)

/-- The trackers of all deployments. -/
structure BIP9ActivationManager (τ : Type) where
  bip9ActivationTrackers : List τ := []
  knownBIPs : List BIP9Deployment := []
  bitfieldOfBipsInUse : BitVec 32 := 0
  bipIndexByName : Finmap (fun _ : String => Nat) := ∅

namespace BIP9ActivationManager

def MAXIMUM_SIMULTANEOUS_DEPLOYMENTS : Int := 29

/-- Whether a deployment is known. -/
inductive BIPStatus
  | UNKNOWN_BIP
  | IN_PROGRESS
  deriving DecidableEq, Repr

variable {τ : Type} (calls : I_BIP9ActivationStateTracker τ) (mgr : BIP9ActivationManager τ)

/-- The answer, and the manager, whose tracker may have changed; an index past the trackers has no
result. -/
def networkEnabledBIP (bipName : String) (chainTip : BlockPointer) :
    Option (Bool × BIP9ActivationManager τ) :=
  match mgr.bipIndexByName.lookup bipName with
  | none => some (false, mgr)
  | some index => do
    let tracker ← mgr.bip9ActivationTrackers[index]?
    let tracker ← calls.update tracker chainTip
    let (result, tracker) ← calls.getLastCachedStatePriorToBlockIndex tracker chainTip
    some (result == .ACTIVE,
      { mgr with bip9ActivationTrackers := mgr.bip9ActivationTrackers.set index tracker })

/-- Looks a deployment up by name. -/
def getBIPStatus (bipName : String) : BIPStatus :=
  if mgr.knownBIPs.any fun bip => bip.deploymentName = bipName then .IN_PROGRESS
  else .UNKNOWN_BIP

/-- Adds a deployment for which the factory returns a tracker or null.  A shift by a negative
number has no result. -/
def addBIP (bip : BIP9Deployment) (created : Option τ) : Option (BIP9ActivationManager τ) :=
  if bip.bit ≥ MAXIMUM_SIMULTANEOUS_DEPLOYMENTS then
    some mgr
  else if bip.bit < 0 then
    none
  else
    let bipMask : BitVec 32 := 1 <<< bip.bit.toNat
    if bipMask &&& mgr.bitfieldOfBipsInUse = 0 then
      -- the map keeps an entry that is there
      let bipIndexByName :=
        if bip.deploymentName ∈ mgr.bipIndexByName then mgr.bipIndexByName
        else mgr.bipIndexByName.insert bip.deploymentName mgr.knownBIPs.length
      let knownBIPs := mgr.knownBIPs ++ [bip]
      match created with
      | none =>
        some { mgr with
          bipIndexByName := bipIndexByName.erase bip.deploymentName
          knownBIPs := knownBIPs.dropLast }
      | some tracker =>
        some
          { bip9ActivationTrackers := mgr.bip9ActivationTrackers ++ [tracker]
            knownBIPs := knownBIPs
            bitfieldOfBipsInUse := mgr.bitfieldOfBipsInUse ||| bipMask
            bipIndexByName := bipIndexByName }
    else
      some mgr

/-- The bit of a deployment is none of those in use. -/
def bitIsFree (bip : BIP9Deployment) : Bool :=
  bip.bit < MAXIMUM_SIMULTANEOUS_DEPLOYMENTS &&
    (1 <<< bip.bit.toNat : BitVec 32) &&& mgr.bitfieldOfBipsInUse == 0

end BIP9ActivationManager

end Divi
