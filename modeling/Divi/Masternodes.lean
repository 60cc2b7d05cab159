/-
Masternodes: what a node keeps of one, the check of its state, and its score.

What is read of the rest of the node (the clocks, the active chain, the coins, the transactions)
is a `MasternodeContext`, and so are the hash functions and the texts that are signed.  A tier
outside of the enumeration is `INVALID`, as which every function treats it.
-/
import Divi.Script.Sign
import Divi.Uint256

namespace Divi

/-- The tiers, by collateral. -/
inductive MasternodeTier
  | COPPER
  | SILVER
  | GOLD
  | PLATINUM
  | DIAMOND
  | INVALID
  deriving DecidableEq, Repr

/-- `CTxIn()`. -/
def CTxIn.null : CTxIn := { prevout := COutPoint.null }

/-- A sign of life. -/
structure CMasternodePing where
  vin : CTxIn := CTxIn.null
  blockHash : uint256 := 0
  sigTime : Int := 0
  signature : valtype := []
  deriving DecidableEq, Repr

/-- `operator==`, which leaves out the time and the signature. -/
def CMasternodePing.same (a b : CMasternodePing) : Bool :=
  a.vin = b.vin && a.blockHash = b.blockHash

/-- An address on the network. -/
structure CService where
  ip : List UInt8
  port : Nat
  deriving DecidableEq, Repr

/-- What `Check` makes of a masternode. -/
inductive MasternodeState
  | MASTERNODE_ENABLED
  | MASTERNODE_EXPIRED
  | MASTERNODE_REMOVE
  | MASTERNODE_VIN_SPENT
  deriving DecidableEq, Repr

/-- An entry of the masternode list. -/
structure CMasternode where
  vin : CTxIn
  addr : CService
  pubKeyCollateralAddress : valtype
  pubKeyMasternode : valtype
  signature : valtype
  activeState : MasternodeState := .MASTERNODE_ENABLED
  /-- The time of the broadcast. -/
  sigTime : Int
  protocolVersion : Int
  nTier : MasternodeTier
  lastPing : CMasternodePing := {}
  lastTimeChecked : Int := 0
  deriving DecidableEq, Repr

/-- A broadcast is a masternode, as it is sent. -/
abbrev CMasternodeBroadcast := CMasternode

def MASTERNODE_MIN_CONFIRMATIONS : Int := 15

def MASTERNODE_MIN_MNP_SECONDS : Int := 10 * 60

def MASTERNODE_MIN_MNB_SECONDS : Int := 5 * 60

def MASTERNODE_EXPIRATION_SECONDS : Int := 120 * 60

def MASTERNODE_REMOVAL_SECONDS : Int := 130 * 60

def MASTERNODE_CHECK_SECONDS : Int := 5

/-- What is read of the node and its chain. -/
structure MasternodeContext where
  getTime : Int
  getAdjustedTime : Int
  shutdownRequested : Bool
  activeProtocol : Int
  /-- `PROTOCOL_VERSION`, which can be set. -/
  protocolVersion : Int
  masternodeCollateralMap : MasternodeTier → Option Int
  chainActive : CChain
  /-- The entry of a hash; a null pointer is `[]`. -/
  mapBlockIndex : uint256 → Option BlockPointer
  /-- `GetTransaction`: the transaction and the hash of its block. -/
  getTransaction : uint256 → Option (CTransaction × uint256)
  /-- `pcoinsTip->GetCoins`. -/
  getCoins : uint256 → Option CCoins
  hashes : ScriptHashes
  /-- The hash of the time and the key of a broadcast. -/
  broadcastHash : Int → valtype → uint256
  /-- The hash of the input and the time of a ping. -/
  pingHash : CTxIn → Int → uint256
  /-- `VerifyMessage`, by the ID of the key, the signature and the text. -/
  verifyMessage : valtype → valtype → valtype → Bool
  serviceToString : CService → valtype
  vinToString : CTxIn → valtype
  hashToString : uint256 → valtype

/-- The decimal digits of a number, `lexical_cast`. -/
def decimalText (n : Int) : valtype :=
  (toString n).toList.map fun c => UInt8.ofNat c.toNat

namespace CMasternodePing

variable (ctx : MasternodeContext) (mnp : CMasternodePing)

/-- The text a ping signs. -/
def getMessageToSign : valtype :=
  ctx.vinToString mnp.vin ++ ctx.hashToString mnp.blockHash ++ decimalText mnp.sigTime

/-- The hash of a ping. -/
def getHash : uint256 :=
  ctx.pingHash mnp.vin mnp.sigTime

/-- The ping is signed with a key. -/
def verifySignature (pubKey : valtype) : Bool :=
  ctx.verifyMessage (CPubKey.getID ctx.hashes pubKey) mnp.signature (mnp.getMessageToSign ctx)

end CMasternodePing

namespace CMasternodeBroadcast

variable (ctx : MasternodeContext) (mnb : CMasternodeBroadcast)

/-- The text a broadcast signs. -/
def getMessageToSign : valtype :=
  ctx.serviceToString mnb.addr ++ decimalText mnb.sigTime ++ mnb.pubKeyCollateralAddress ++
    mnb.pubKeyMasternode ++ decimalText mnb.protocolVersion

/-- The hash of a broadcast. -/
def getHash : uint256 :=
  ctx.broadcastHash mnb.sigTime mnb.pubKeyCollateralAddress

/-- The broadcast is signed with a key. -/
def verifySignature (pubKey : valtype) : Bool :=
  ctx.verifyMessage (CPubKey.getID ctx.hashes pubKey) mnb.signature
    (CMasternodeBroadcast.getMessageToSign ctx mnb)

end CMasternodeBroadcast

namespace CMasternode

variable (ctx : MasternodeContext) (mn : CMasternode)

/-- The masternode of a broadcast. -/
def ofBroadcast (mnb : CMasternodeBroadcast) : CMasternode :=
  { mnb with activeState := .MASTERNODE_ENABLED, lastTimeChecked := 0 }

/-- The masternode takes part. -/
def isEnabled : Bool :=
  mn.activeState = .MASTERNODE_ENABLED

variable (tier : MasternodeTier)

/-- A tier other than `INVALID`. -/
def isTierValid : Bool :=
  match tier with
  | .COPPER | .SILVER | .GOLD | .PLATINUM | .DIAMOND => true
  | .INVALID => false

/-- The collateral of a tier. -/
def getTierCollateralAmount : Int :=
  (ctx.masternodeCollateralMap tier).getD 0

/-! ### The score -/

/-- How often a tier draws. -/
def getHashRoundsForTierMasternodes : Nat :=
  match tier with
  | .COPPER => 20
  | .SILVER => 63
  | .GOLD => 220
  | .PLATINUM => 690
  | .DIAMOND => 2400
  | .INVALID => 0

/-- The highest of the hashes of the rounds, by the hash of the seed, the collateral and the number
of the round. -/
def calculateScore (scoreHash : uint256 → uint256 → Nat → BaseUint 8) (seedHash : uint256) :
    BaseUint 8 :=
  let aux := mn.vin.prevout.hash + BitVec.ofNat 256 mn.vin.prevout.n
  (List.range (getHashRoundsForTierMasternodes mn.nTier)).foldl
    (fun r i =>
      let next := scoreHash seedHash aux i
      if next.compareTo r < 0 then r else next)
    BaseUint.zero

/-! ### The state -/

/-- A time of -1 stands for the present one. -/
def timeSinceLastPingIsWithin (timeWindow now : Int) : Bool :=
  let now := if now = -1 then ctx.getAdjustedTime else now
  if mn.lastPing.same {} then false
  else now - mn.lastPing.sigTime < timeWindow

/-- The last ping is too recent. -/
def isTooEarlyToReceivePingUpdate (now : Int) : Bool :=
  mn.timeSinceLastPingIsWithin ctx (MASTERNODE_MIN_MNP_SECONDS - 60) now

/-- An unspent output of the expected amount. -/
def collateralIsExpectedAmount (outpoint : COutPoint) (expectedAmount : Int) : Bool :=
  match ctx.getCoins outpoint.hash with
  | none => false
  | some coins =>
    -- an index past 2^31 is negative as an int
    if outpoint.n ≥ 2 ^ 31 then false
    else
      match coins.vout[outpoint.n]? with
      | none => false
      | some out => !out.isNull && out.nValue == expectedAmount

/-- The collateral, -1 without a tier. -/
def getCollateralAmount : Int :=
  if isTierValid tier then getTierCollateralAmount ctx tier else -1

/-- The collateral is gone. -/
def isCoinSpent : Bool :=
  !collateralIsExpectedAmount ctx mn.vin.prevout (getCollateralAmount ctx mn.nTier)

/-- `CMasternodeMan::Check`. -/
def check (forceCheck : Bool) : CMasternode :=
  if ctx.shutdownRequested then mn
  else if !forceCheck && ctx.getTime - mn.lastTimeChecked < MASTERNODE_CHECK_SECONDS then mn
  else
    let mn := { mn with lastTimeChecked := ctx.getTime }
    if mn.activeState = .MASTERNODE_VIN_SPENT then mn
    else if !mn.timeSinceLastPingIsWithin ctx MASTERNODE_REMOVAL_SECONDS (-1) then
      { mn with activeState := .MASTERNODE_REMOVE }
    else if !mn.timeSinceLastPingIsWithin ctx MASTERNODE_EXPIRATION_SECONDS (-1) then
      { mn with activeState := .MASTERNODE_EXPIRED }
    else if mn.isCoinSpent ctx then { mn with activeState := .MASTERNODE_VIN_SPENT }
    else { mn with activeState := .MASTERNODE_ENABLED }

/-! ### The block of the collateral -/

/-- A block of the active chain. -/
def chainContains (pindex : BlockPointer) : Bool :=
  match pindex with
  | [] => false
  | block :: _ => ctx.chainActive.atHeight block.nHeight == pindex

/-- The block of the collateral in the active chain; null if there is none.  The cache of the source
is never written to. -/
def computeCollateralBlockIndex : BlockPointer :=
  match ctx.getTransaction mn.vin.prevout.hash with
  | none => []
  | some (_, hashBlock) =>
    match ctx.mapBlockIndex hashBlock with
    | none => []
    | some pindex => if chainContains ctx pindex then pindex else []

/-- The block that gives the collateral enough confirmations. -/
def computeMasternodeConfirmationBlockIndex : BlockPointer :=
  match mn.computeCollateralBlockIndex ctx with
  | [] => []
  | block :: _ => ctx.chainActive.atHeight (block.nHeight + MASTERNODE_MIN_CONFIRMATIONS - 1)

end CMasternode

end Divi
