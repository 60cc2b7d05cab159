/-
The values of sporks: how they are decoded and looked up, issued by the node itself, and
loaded from the database.

A multi-value spork keeps the history of its messages, and its value at a block is the
last one that is activated and signed before that block.  A single-value spork keeps the
message signed last.
-/
import Divi.Lib.Checked
import Divi.LotteryWinners
import Divi.Spork

namespace Divi

/-! ### Decoding -/

/-- `boost::lexical_cast<int>`: `none` is a `bad_lexical_cast`. -/
def lexicalCastInt (token : StdString) : Option Int :=
  let parseDigits (digits : List Char) : Option Int :=
    if digits ≠ [] ∧ digits.all Char.isDigit then some (Nat.ofDigitChars 10 digits 0) else none
  match token with
  | '-' :: digits => (parseDigits digits).bind fun n => Checked.check 32 (-n)
  | '+' :: digits => (parseDigits digits).bind (Checked.check 32)
  | digits => (parseDigits digits).bind (Checked.check 32)

/-- The values up to the first token that is not a number. -/
def parseTokens : List StdString → List Int
  | [] => []
  | token :: tokens =>
    match lexicalCastInt token with
    | none => []
    | some value => value :: parseTokens tokens

/-- The numbers between semicolons. -/
def parseDataPayload (strDataPayload : StdString) : List Int :=
  parseTokens (strDataPayload.splitOn ';')

/-- Numbers with semicolons between them. -/
def buildDataPayload (values : List Int) : StdString :=
  [';'].intercalate (values.map lexicalCast)

/-- `FromString`, the default for a wrong count. -/
def BlockPaymentSporkValue.fromString (strData : StdString) : BlockPaymentSporkValue :=
  match parseDataPayload strData with
  | [stake, masternode, treasury, proposals, charity, activation] =>
    ⟨stake, masternode, treasury, proposals, charity, activation⟩
  | _ => {}

/-- `FromString` of a block value. -/
def BlockSubsiditySporkValue.fromString (strData : StdString) : BlockSubsiditySporkValue :=
  match parseDataPayload strData with
  | [subsidity, activation] => ⟨subsidity, activation⟩
  | _ => {}

/-- `FromString` of a least stake. -/
def LotteryTicketMinValueSporkValue.fromString (strData : StdString) :
    LotteryTicketMinValueSporkValue :=
  match parseDataPayload strData with
  | [value, activation] => ⟨value, activation⟩
  | _ => {}

/-- The fields in the order of the text. -/
def BlockPaymentSporkValue.values (v : BlockPaymentSporkValue) : List Int :=
  [v.nStakeReward, v.nMasternodeReward, v.nTreasuryReward, v.nProposalsReward, v.nCharityReward,
    v.nActivationBlockHeight]

def BlockPaymentSporkValue.toString (v : BlockPaymentSporkValue) : StdString :=
  buildDataPayload v.values

def BlockSubsiditySporkValue.values (v : BlockSubsiditySporkValue) : List Int :=
  [v.nBlockSubsidity, v.nActivationBlockHeight]

def BlockSubsiditySporkValue.toString (v : BlockSubsiditySporkValue) : StdString :=
  buildDataPayload v.values

def LotteryTicketMinValueSporkValue.values (v : LotteryTicketMinValueSporkValue) : List Int :=
  [v.nEntryTicketValue, v.nActivationBlockHeight]

def LotteryTicketMinValueSporkValue.toString (v : LotteryTicketMinValueSporkValue) : StdString :=
  buildDataPayload v.values

/-- Fees set by a spork. -/
structure TxFeeSporkValue where
  nTxValueMultiplier : Int := -1
  nTxSizeMultiplier : Int := -1
  nMaxFee : Int := -1
  nMinFeePerKb : Int := -1
  nActivationBlockHeight : Int := 0
  deriving DecidableEq, Repr

instance : Inhabited TxFeeSporkValue := ⟨{}⟩

/-- Six values are asked for, of which the last is not used. -/
def TxFeeSporkValue.fromString (strData : StdString) : TxFeeSporkValue :=
  match parseDataPayload strData with
  | [valueMultiplier, sizeMultiplier, maxFee, minFeePerKb, activation, _] =>
    ⟨valueMultiplier, sizeMultiplier, maxFee, minFeePerKb, activation⟩
  | _ => {}

def TxFeeSporkValue.values (v : TxFeeSporkValue) : List Int :=
  [v.nTxValueMultiplier, v.nTxSizeMultiplier, v.nMaxFee, v.nMinFeePerKb, v.nActivationBlockHeight]

def TxFeeSporkValue.toString (v : TxFeeSporkValue) : StdString :=
  buildDataPayload v.values

/-- The activation height in the value of a multi-value spork. -/
def getActivationHeightHelper (nSporkID : Int) (strValue : StdString) : Int :=
  if nSporkID = SPORK_13_BLOCK_PAYMENTS then
    (BlockPaymentSporkValue.fromString strValue).nActivationBlockHeight
  else if nSporkID = SPORK_14_TX_FEE then
    (TxFeeSporkValue.fromString strValue).nActivationBlockHeight
  else if nSporkID = SPORK_15_BLOCK_VALUE then
    (BlockSubsiditySporkValue.fromString strValue).nActivationBlockHeight
  else if nSporkID = SPORK_16_LOTTERY_TICKET_MIN_VALUE then
    (LotteryTicketMinValueSporkValue.fromString strValue).nActivationBlockHeight
  else 0

/-! ### Looking values up -/

/-- `mapSporkDefaults`. -/
def mapSporkDefaults (nSporkID : Int) : Option StdString :=
  if nSporkID = SPORK_2_SWIFTTX_ENABLED then some "0".toList
  else if nSporkID = SPORK_3_SWIFTTX_BLOCK_FILTERING then some "0".toList
  else if nSporkID = SPORK_5_INSTANTSEND_MAX_VALUE then some "1000".toList
  else if nSporkID = SPORK_8_MASTERNODE_PAYMENT_ENFORCEMENT then some "1537971708".toList
  else if nSporkID = SPORK_9_SUPERBLOCKS_ENABLED then some "4070908800".toList
  else if nSporkID = SPORK_10_MASTERNODE_PAY_UPDATED_NODES then some "4070908800".toList
  else if nSporkID = SPORK_12_RECONSIDER_BLOCKS then some "0".toList
  else none

/-- The name of an id, or `Unknown`. -/
def getSporkNameByID (nSporkID : Int) : String :=
  if nSporkID = SPORK_2_SWIFTTX_ENABLED then "SPORK_2_SWIFTTX_ENABLED"
  else if nSporkID = SPORK_3_SWIFTTX_BLOCK_FILTERING then "SPORK_3_SWIFTTX_BLOCK_FILTERING"
  else if nSporkID = SPORK_5_INSTANTSEND_MAX_VALUE then "SPORK_5_INSTANTSEND_MAX_VALUE"
  else if nSporkID = SPORK_8_MASTERNODE_PAYMENT_ENFORCEMENT then
    "SPORK_8_MASTERNODE_PAYMENT_ENFORCEMENT"
  else if nSporkID = SPORK_9_SUPERBLOCKS_ENABLED then "SPORK_9_SUPERBLOCKS_ENABLED"
  else if nSporkID = SPORK_10_MASTERNODE_PAY_UPDATED_NODES then
    "SPORK_10_MASTERNODE_PAY_UPDATED_NODES"
  else if nSporkID = SPORK_12_RECONSIDER_BLOCKS then "SPORK_12_RECONSIDER_BLOCKS"
  else if nSporkID = SPORK_13_BLOCK_PAYMENTS then "SPORK_13_BLOCK_PAYMENTS"
  else if nSporkID = SPORK_14_TX_FEE then "SPORK_14_TX_FEE"
  else if nSporkID = SPORK_15_BLOCK_VALUE then "SPORK_15_BLOCK_VALUE"
  else if nSporkID = SPORK_16_LOTTERY_TICKET_MIN_VALUE then "SPORK_16_LOTTERY_TICKET_MIN_VALUE"
  else "Unknown"

/-- `ConvertMultiValueSporkVector`. -/
def convertMultiValueSporkVector {T : Type} (fromString : StdString → T)
    (vMultiValueSpork : List CSporkMessage) : List (T × Int) :=
  vMultiValueSpork.map fun spork => (fromString spork.strValue, spork.nTimeSigned)

namespace CSporkManager

variable (key : SporkKey) (sorting : SortBy fun spork : CSporkMessage => spork.nTimeSigned)
  (mgr : CSporkManager)

/-- All values of a multi-value spork. -/
def getMultiValueSpork (nSporkID : Int) : List CSporkMessage :=
  if isMultiValueSpork nSporkID then mgr.activeSporks nSporkID else []

/-- The newest value; a single-value spork has a default. -/
def getSporkValue (nSporkID : Int) : StdString :=
  if isMultiValueSpork nSporkID then
    match (mgr.getMultiValueSpork nSporkID).getLast? with
    | none => []
    | some spork => spork.strValue
  else
    match (mgr.activeSporks nSporkID).head? with
    | some spork => spork.strValue
    | none => (mapSporkDefaults nSporkID).getD []

/-- The value of a multi-value spork at a height and block time, decoded as its users do. -/
def activeMultiValue {T : Type} [Inhabited T] (fromString : StdString → T)
    (nActivationBlockHeight : T → Int) (nSporkID nHeight nBlockTime : Int) : T :=
  getActiveMultiValueSpork nActivationBlockHeight
    (convertMultiValueSporkVector fromString (mgr.getMultiValueSpork nSporkID))
    nHeight nBlockTime

/-! ### Issuing a spork -/

/-- `mapSporks[hash] = spork; AddActiveSpork(spork)`, whether or not it was there already. -/
def rememberSpork (spork : CSporkMessage) : CSporkManager :=
  let mgr := { mgr with mapSporks := mgr.mapSporks.insert (spork.getHash key) spork }
  (mgr.addActiveSpork key sorting spork).getD mgr

/-- What the node issues at its adjusted time, at a height of its chain; `none` if it fails. -/
def updateSpork (nSporkID : Int) (strValue : StdString) (adjustedTime chainHeight : Int) :
    Option CSporkManager :=
  let fields : SporkFields := ⟨nSporkID, strValue, adjustedTime⟩
  if !mgr.isNewerSpork { fields with vchSig := [] } then
    none
  else if isMultiValueSpork nSporkID &&
      decide (getActivationHeightHelper nSporkID strValue < chainHeight + 10) then
    none
  else
    match CSporkMessage.sign key fields with
    | none => none
    | some spork => some (mgr.rememberSpork key sorting spork)

/-! ### Loading from the database -/

def SPORK_START : Int := SPORK_2_SWIFTTX_ENABLED
def SPORK_END : Int := SPORK_16_LOTTERY_TICKET_MIN_VALUE

/-- One round of the loop over the ids. -/
def loadSpork (mgr : CSporkManager) (nSporkID : Int) : CSporkManager :=
  if getSporkNameByID nSporkID = "Unknown" then
    mgr
  else
    match mgr.pSporkDB.bind (·.lookup nSporkID) with
    | none => mgr
    | some spork => mgr.rememberSpork key sorting spork

/-- `LoadSporksFromDB`: every id that has a record. -/
def loadSporksFromDB : CSporkManager :=
  ((List.range (SPORK_END - SPORK_START + 1).toNat).map fun i : Nat => SPORK_START + i).foldl
    (loadSpork key sorting) mgr

end CSporkManager

end Divi
