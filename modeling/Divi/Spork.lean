/-
Spork messages and the manager that keeps the active ones.

Texts are lists of characters.  The signature scheme, the hash of a message and
`std::sort` are parameters: of the last it is only known that it sorts.  What executing
a spork does outside of the manager (fee settings, reconsidering blocks) is left out.
-/
import Divi.Primitives
import Divi.Lib.Decimal
import Divi.Lib.Sorting
import Mathlib.Data.Finmap

namespace Divi

/-- A `std::string`, character by character. -/
abbrev StdString := List Char

/-! ### Spork ids -/

/-- The ids of the sporks. -/
def SPORK_2_SWIFTTX_ENABLED : Int := 10001
def SPORK_3_SWIFTTX_BLOCK_FILTERING : Int := 10002
def SPORK_5_INSTANTSEND_MAX_VALUE : Int := 10004
def SPORK_8_MASTERNODE_PAYMENT_ENFORCEMENT : Int := 10007
def SPORK_9_SUPERBLOCKS_ENABLED : Int := 10008
def SPORK_10_MASTERNODE_PAY_UPDATED_NODES : Int := 10009
def SPORK_12_RECONSIDER_BLOCKS : Int := 10011
def SPORK_13_BLOCK_PAYMENTS : Int := 10012
def SPORK_14_TX_FEE : Int := 10013
def SPORK_15_BLOCK_VALUE : Int := 10014
def SPORK_16_LOTTERY_TICKET_MIN_VALUE : Int := 10015

/-- All values of these sporks are kept, each from a height on. -/
def isMultiValueSpork (nSporkID : Int) : Bool :=
  SPORK_13_BLOCK_PAYMENTS == nSporkID || SPORK_14_TX_FEE == nSporkID ||
    SPORK_15_BLOCK_VALUE == nSporkID || SPORK_16_LOTTERY_TICKET_MIN_VALUE == nSporkID

/-! ### Messages -/

/-- The three fields that are signed. -/
structure SporkFields where
  nSporkID : Int
  strValue : StdString
  nTimeSigned : Int
  deriving DecidableEq, Repr

/-- The fields with a signature. -/
structure CSporkMessage extends SporkFields where
  vchSig : valtype
  deriving DecidableEq, Repr

/-- `boost::lexical_cast<std::string>` of an integer. -/
def lexicalCast (z : Int) : StdString := Decimal.render z

/-- The text that `Sign` signs and `CheckSignature` verifies. -/
def SporkFields.strMessage (fields : SporkFields) : StdString :=
  lexicalCast fields.nSporkID ++ fields.strValue ++ lexicalCast fields.nTimeSigned

/-- `CObfuScationSigner` with the spork key, and the hash of a message without its signature. -/
structure SporkKey where
  /-- `none` if there is no valid private key, or signing fails. -/
  signMessage : StdString → Option valtype
  verifyMessage : valtype → StdString → Bool
  getHash : SporkFields → uint256

namespace CSporkMessage

variable (key : SporkKey)

/-- The message with its signature, if signing succeeds and the signature verifies. -/
def sign (fields : SporkFields) : Option CSporkMessage :=
  match key.signMessage fields.strMessage with
  | none => none
  | some vchSig =>
    if key.verifyMessage vchSig fields.strMessage then
      some { fields with vchSig := vchSig }
    else
      none

/-- The signature is the one of the spork key. -/
def checkSignature (spork : CSporkMessage) : Bool :=
  key.verifyMessage spork.vchSig spork.strMessage

/-- The hash of the fields. -/
def getHash (spork : CSporkMessage) : uint256 :=
  key.getHash spork.toSporkFields

end CSporkMessage

/-! ### The manager -/

/-- The state of the manager, with the messages known to the node by their hashes. -/
structure CSporkManager where
  mapSporksActive : Finmap (fun _ : Int => List CSporkMessage) := ∅
  mapSporks : Finmap (fun _ : uint256 => CSporkMessage) := ∅
  /-- The database, if it is allocated. -/
  pSporkDB : Option (Finmap fun _ : Int => CSporkMessage) := none

namespace CSporkManager

variable (key : SporkKey) (sorting : SortBy fun spork : CSporkMessage => spork.nTimeSigned)
  (mgr : CSporkManager)

/-- `mapSporksActive[nSporkID]`, which is empty if there is no entry. -/
def activeSporks (nSporkID : Int) : List CSporkMessage :=
  (mgr.mapSporksActive.lookup nSporkID).getD []

/-- The list for the id of a message once it is added, `none` if it was there already. -/
def addActiveSpork (spork : CSporkMessage) : Option CSporkManager :=
  let sporks := mgr.activeSporks spork.nSporkID
  if isMultiValueSpork spork.nSporkID then
    if sporks.any fun other => spork.getHash key = other.getHash key then
      none
    else
      some { mgr with
        mapSporksActive := mgr.mapSporksActive.insert spork.nSporkID
          (sorting.sort (sporks ++ [spork])) }
  else
    some { mgr with
      mapSporksActive := mgr.mapSporksActive.insert spork.nSporkID [spork] }

/-- Signed after the last value known. -/
def isNewerSpork (spork : CSporkMessage) : Bool :=
  match (mgr.activeSporks spork.nSporkID).getLast? with
  | none => true
  | some last => last.nTimeSigned < spork.nTimeSigned

/-- What became of a message. -/
inductive SporkOutcome
  | ignored
  | seen
  | invalidSignature
  | noDatabase
  | known
  | added
  deriving DecidableEq, Repr

/-- The state of the node a message meets. -/
structure SporkContext where
  fLiteMode : Bool := false
  hasTip : Bool := true

/-- The handling of a `spork` message. -/
def processSpork (context : SporkContext) (spork : CSporkMessage) :
    CSporkManager × SporkOutcome :=
  if context.fLiteMode then
    (mgr, .ignored)
  else if !context.hasTip then
    (mgr, .ignored)
  else if !mgr.isNewerSpork spork && !isMultiValueSpork spork.nSporkID then
    (mgr, .seen)
  else if !spork.checkSignature key then
    (mgr, .invalidSignature)
  else
    match mgr.pSporkDB with
    | none => (mgr, .noDatabase)
    | some pSporkDB =>
      let mgr := { mgr with
        mapSporks := mgr.mapSporks.insert (spork.getHash key) spork }
      match mgr.addActiveSpork key sorting spork with
      | none => (mgr, .known)
      | some mgr =>
        ({ mgr with pSporkDB := some (pSporkDB.insert spork.nSporkID spork) }, .added)

/-- A sequence of messages, each with the state of the node it meets. -/
def processSporks (msgs : List (SporkContext × CSporkMessage)) : CSporkManager :=
  msgs.foldl (fun mgr message =>
    (mgr.processSpork key sorting message.1 message.2).1) mgr

end CSporkManager

end Divi
