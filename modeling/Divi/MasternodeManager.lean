/-
The list of masternodes, and how a broadcast changes it.

A broadcast that was recorded under its hash is not looked at again.  The peer that sent it is
punished by the number that is returned with the answer.  The address manager, the synchronisation
and the relaying of messages are left out.
-/
import Divi.CreateTransaction
import Divi.Masternodes

namespace Divi

/-! ### Seen messages -/

/-- The masternodes, and the messages seen. -/
structure MasternodeNetworkMessageManager where
  masternodes : List CMasternode := []
  mapSeenMasternodeBroadcast : Finmap (fun _ : uint256 => CMasternodeBroadcast) := ∅
  mapSeenMasternodePing : Finmap (fun _ : uint256 => CMasternodePing) := ∅

namespace MasternodeNetworkMessageManager

variable (ctx : MasternodeContext) (network : MasternodeNetworkMessageManager)

/-- A broadcast with this hash was seen. -/
def broadcastIsKnown (hash : uint256) : Bool :=
  hash ∈ network.mapSeenMasternodeBroadcast

/-- The masternode of a collateral. -/
def find (vin : CTxIn) : Option CMasternode :=
  network.masternodes.find? fun mn => mn.vin.prevout = vin.prevout

/-- Remembers a new broadcast. -/
def recordBroadcast (mnb : CMasternodeBroadcast) : MasternodeNetworkMessageManager :=
  let hash := CMasternodeBroadcast.getHash ctx mnb
  if network.broadcastIsKnown hash then network
  else { network with
    mapSeenMasternodeBroadcast := network.mapSeenMasternodeBroadcast.insert hash mnb }

/-- The ping is also written to the broadcast of its masternode. -/
def recordPing (mnp : CMasternodePing) : MasternodeNetworkMessageManager :=
  let network := { network with
    mapSeenMasternodePing := network.mapSeenMasternodePing.insert (mnp.getHash ctx) mnp }
  match network.find mnp.vin with
  | none => network
  | some mn =>
    let mnbHash := CMasternodeBroadcast.getHash ctx mn
    match network.mapSeenMasternodeBroadcast.lookup mnbHash with
    | none => network
    | some mnb => { network with
        mapSeenMasternodeBroadcast :=
          network.mapSeenMasternodeBroadcast.insert mnbHash { mnb with lastPing := mnp } }

/-- The entries of a map of broadcasts in the order of their keys, which are their hashes. -/
structure SeenBroadcasts (ctx : MasternodeContext) where
  entries : List CMasternodeBroadcast
  sorted : entries.Pairwise fun a b =>
    CMasternodeBroadcast.getHash ctx a < CMasternodeBroadcast.getHash ctx b

/-- The last ping is older than twice the time of removal. -/
def timedOut (mnb : CMasternodeBroadcast) : Bool :=
  mnb.lastPing.sigTime < ctx.getTime - MASTERNODE_REMOVAL_SECONDS * 2

/-- The maps that are left.  The iterator is moved on before the hash is read through it, so that
`mapSeenSyncMNB` loses the entry of the next broadcast; with no next one the end of the map is
read, `none`. -/
def clearTimedOutMasternodeBroadcasts :
    List CMasternodeBroadcast → Finmap (fun _ : uint256 => Int) →
      Option (List CMasternodeBroadcast × Finmap fun _ : uint256 => Int)
  | [], mapSeenSyncMNB => some ([], mapSeenSyncMNB)
  | mnb :: rest, mapSeenSyncMNB =>
    if timedOut ctx mnb then
      rest.head?.bind fun next => clearTimedOutMasternodeBroadcasts rest
        (mapSeenSyncMNB.erase (CMasternodeBroadcast.getHash ctx next))
    else (clearTimedOutMasternodeBroadcasts rest mapSeenSyncMNB).map (Prod.map (mnb :: ·) id)

end MasternodeNetworkMessageManager

/-! ### The masternode that this node runs -/

/-- The masternode that this node runs. -/
structure CActiveMasternode where
  fMasterNode : Bool := false
  /-- The status is `ACTIVE_MASTERNODE_STARTED`. -/
  isStarted : Bool := false
  vin : CTxIn := CTxIn.null
  pubKeyMasternode : valtype := []
  /-- The collateral is one of the configured ones. -/
  isThisMasternodeCollateral : CTxIn → Bool := fun _ => false

namespace CActiveMasternode

variable (activeMasternode : CActiveMasternode)

/-- The conditional binds weaker than the conjunctions around it. -/
def isOurBroadcast (mnb : CMasternodeBroadcast) (checkConfig : Bool) : Bool :=
  if activeMasternode.fMasterNode && (checkConfig && activeMasternode.vin == CTxIn.null) then
    activeMasternode.isThisMasternodeCollateral mnb.vin
  else
    mnb.vin.prevout == activeMasternode.vin.prevout &&
      mnb.pubKeyMasternode == activeMasternode.pubKeyMasternode

/-- The node's own masternode starts. -/
def enablePinging (newVin : CTxIn) : CActiveMasternode :=
  if !activeMasternode.fMasterNode then activeMasternode
  else if activeMasternode.isStarted then activeMasternode
  else if !activeMasternode.isThisMasternodeCollateral newVin then activeMasternode
  else { activeMasternode with isStarted := true, vin := newVin }

end CActiveMasternode

/-! ### The manager -/

/-- The masternode manager. -/
structure CMasternodeMan where
  network : MasternodeNetworkMessageManager := {}
  localActiveMasternode : CActiveMasternode := {}

namespace CMasternodeMan

/-- What became of an update. -/
inductive MnUpdateStatus
  | MN_UPDATED
  | MN_UPDATE_INVALID
  | MN_CANT_BE_UPDATED
  | MN_NOT_FOUND
  deriving DecidableEq, Repr

variable (ctx : MasternodeContext) (man : CMasternodeMan)

/-- The collateral pays the key the amount of the tier. -/
def isVinAssociatedWithPubkey (vin : CTxIn) (pubkey : valtype) (nMasternodeTier : MasternodeTier) :
    Bool :=
  let payee := TransactionCreator.getScriptForDestination (CPubKey.getID ctx.hashes pubkey)
  let nCollateral := CMasternode.getTierCollateralAmount ctx nMasternodeTier
  match ctx.getTransaction vin.prevout.hash with
  | none => false
  | some (txVin, _) =>
    match txVin.vout[vin.prevout.n]? with
    | none => false
    | some output => output.nValue == nCollateral && output.scriptPubKey == payee

variable (mnb : CMasternodeBroadcast)

/-- The answer, and the punishment. -/
def checkMasternodeBroadcastContext : Bool × Int :=
  if mnb.sigTime > ctx.getAdjustedTime + 60 * 60 then (false, 1)
  else if !CMasternode.isTierValid mnb.nTier then (false, 20)
  else if mnb.protocolVersion < ctx.activeProtocol then (false, 0)
  else if !mnb.vin.scriptSig.isEmpty then (false, 0)
  else if !CMasternodeBroadcast.verifySignature ctx mnb mnb.pubKeyCollateralAddress then
    (false, 100)
  else (true, 0)

/-- The collateral of a masternode that is not known to be enabled must be unspent, and confirmed
before the broadcast was signed. -/
def checkInputsForMasternode : Bool :=
  if (man.network.find mnb.vin).any CMasternode.isEnabled then true
  else if mnb.isCoinSpent ctx then false
  else
    match mnb.computeMasternodeConfirmationBlockIndex ctx with
    | [] => false
    | pindexConf :: _ => !(pindexConf.nTime > mnb.sigTime)

/-- The answer, what is left of the masternode, and the punishment. -/
def checkAndUpdatePing (mn : CMasternode) (mnp : CMasternodePing) (skipPingChainSyncCheck : Bool) :
    Bool × CMasternode × Int :=
  if mnp.sigTime > ctx.getAdjustedTime + 60 * 60 then (false, mn, 1)
  else if mnp.sigTime ≤ ctx.getAdjustedTime - 60 * 60 then (false, mn, 1)
  else if mn.protocolVersion < ctx.activeProtocol then (false, mn, 0)
  else if mn.isTooEarlyToReceivePingUpdate ctx mnp.sigTime then (false, mn, 0)
  else if !mnp.verifySignature ctx mn.pubKeyMasternode then (false, mn, 33)
  else
    let inChain :=
      match ctx.mapBlockIndex mnp.blockHash with
      | some (block :: _) => !(block.nHeight < ctx.chainActive.height - 24)
      | _ => false
    if !skipPingChainSyncCheck && !inChain then (false, mn, 0)
    else
      let mn := CMasternode.check ctx { mn with lastPing := mnp } true
      (mn.isEnabled, mn, 0)

/-- The first masternode with a collateral becomes another one. -/
def replaceFound (vin : CTxIn) (mn : CMasternode) : CMasternodeMan :=
  { man with network := { man.network with
      masternodes := man.network.masternodes.set
        (man.network.masternodes.findIdx fun mn => mn.vin.prevout = vin.prevout) mn } }

/-- Remembers a ping. -/
def recordSeenPing (mnp : CMasternodePing) : CMasternodeMan :=
  { man with network := man.network.recordPing ctx mnp }

/-- The fields that a broadcast replaces. -/
def updateWithNewBroadcast (masternode : CMasternode) : CMasternode :=
  { masternode with
    pubKeyMasternode := mnb.pubKeyMasternode
    pubKeyCollateralAddress := mnb.pubKeyCollateralAddress
    sigTime := mnb.sigTime
    signature := mnb.signature
    protocolVersion := mnb.protocolVersion
    addr := mnb.addr
    lastTimeChecked := 0 }

/-- A newer broadcast updates an enabled masternode. -/
def updateMasternodeFromBroadcast : MnUpdateStatus × CMasternodeMan :=
  match man.network.find mnb.vin with
  | none => (.MN_NOT_FOUND, man)
  | some pmn =>
    if pmn.sigTime > mnb.sigTime then (.MN_UPDATE_INVALID, man)
    else if !pmn.isEnabled then (.MN_CANT_BE_UPDATED, man)
    else if pmn.pubKeyCollateralAddress = mnb.pubKeyCollateralAddress ∧
        ¬ ctx.getAdjustedTime - pmn.sigTime < MASTERNODE_MIN_MNB_SECONDS ∧
        mnb.sigTime > pmn.sigTime then
      let pmn := updateWithNewBroadcast mnb pmn
      let man := man.replaceFound mnb.vin pmn
      let ping := if mnb.lastPing.same {} then (false, pmn, 0)
        else checkAndUpdatePing ctx pmn mnb.lastPing false
      let pmn := ping.2.1
      let man := man.replaceFound mnb.vin pmn
      let man := if ping.1 then man.recordSeenPing ctx pmn.lastPing else man
      (.MN_UPDATED, man.replaceFound mnb.vin (pmn.check ctx false))
    else (.MN_UPDATED, man)

/-- Removes the masternode of an input. -/
def remove (vin : CTxIn) : CMasternodeMan :=
  { man with network := { man.network with
      masternodes := man.network.masternodes.eraseP fun mn => mn.vin = vin } }

/-- Adds an enabled masternode whose collateral is new. -/
def add (mn : CMasternode) : CMasternodeMan :=
  if !mn.isEnabled then man
  else
    match man.network.find mn.vin with
    | some _ => man
    | none => { man with network := { man.network with
        masternodes := man.network.masternodes ++ [mn] } }

/-- What is left to do for a masternode that passes all checks and is not in the list. -/
def acceptBroadcast (mn : CMasternode) (mnb : CMasternodeBroadcast) (isOurBroadcast : Bool) :
    CMasternodeMan :=
  let man := man.add mn
  let man := { man with network := man.network.recordBroadcast ctx mnb }
  let man := man.recordSeenPing ctx mnb.lastPing
  if isOurBroadcast && mnb.protocolVersion == ctx.protocolVersion then
    { man with localActiveMasternode := man.localActiveMasternode.enablePinging mnb.vin }
  else man

/-- The masternode of a broadcast, with its ping if that is valid; and the punishment. -/
def checkPing (isOurBroadcast : Bool) : Bool × CMasternode × Int :=
  let mn := { CMasternode.ofBroadcast mnb with lastPing := {} }
  if mn.isEnabled then checkAndUpdatePing ctx mn mnb.lastPing isOurBroadcast else (true, mn, 0)

/-- The answer, the punishment and what is left. -/
def processBroadcast : Bool × Int × CMasternodeMan :=
  if man.network.broadcastIsKnown (CMasternodeBroadcast.getHash ctx mnb) then (true, 0, man)
  else
    let context := checkMasternodeBroadcastContext ctx mnb
    if !context.1 then (false, context.2, man)
    else
      let update := man.updateMasternodeFromBroadcast ctx mnb
      let man := update.2
      if update.1 = .MN_UPDATE_INVALID then (false, 0, man)
      else if !isVinAssociatedWithPubkey ctx mnb.vin mnb.pubKeyCollateralAddress mnb.nTier then
        (false, 33, man)
      else
        let isOurBroadcast := man.localActiveMasternode.isOurBroadcast mnb true
        if !isOurBroadcast && !man.checkInputsForMasternode ctx mnb then (false, 0, man)
        else
          let ping := checkPing ctx mnb isOurBroadcast
          if !ping.1 then (false, ping.2.2, man)
          else
            match man.network.find mnb.vin with
            | none => (true, 0, man.acceptBroadcast ctx ping.2.1 mnb isOurBroadcast)
            | some pmn =>
              if pmn.isEnabled then (true, 0, man)
              else
                (true, 0, (man.remove mnb.vin).acceptBroadcast ctx ping.2.1 mnb isOurBroadcast)

end CMasternodeMan

end Divi
