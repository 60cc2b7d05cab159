/-
Who a block pays beside its staker: filling a coinstake with the payments that are
due, and checking that a transaction makes them.

The two addresses are fixed texts; how an address becomes a script is a parameter of
the populator, `scriptForAddress`, and so are the facts it reads from the rest of the
node (sync state, settings, sporks, votes).

A treasury height comes before a lottery height, and a masternode is paid at all others.
Each output that is due is looked for by itself, so one output can stand for two.
-/
import Divi.MasternodePayments

namespace Divi

/-- The addresses that the treasury and the charity are paid at. -/
def TREASURY_PAYMENT_ADDRESS : String := "DPhJsztbZafDc1YeyrRqSjmKjkmLJpQpUn"

def CHARITY_PAYMENT_ADDRESS : String := "DPujt2XAdHyRcZNB5ySZBBVKjzY2uXZGYq"

def TREASURY_PAYMENT_ADDRESS_TESTNET : String := "xw7G6toCcLr2J7ZK8zTfVRhAPiNc8AyxCd"

def CHARITY_PAYMENT_ADDRESS_TESTNET : String := "y8zytdJziDeXcdk48Wv7LH6FgnF4zDiXM5"

/-- The treasury's address on a network. -/
def treasuryPaymentAddress (chainParams : CChainParams) : String :=
  if chainParams.networkID = .MAIN then TREASURY_PAYMENT_ADDRESS
  else TREASURY_PAYMENT_ADDRESS_TESTNET

/-- The charity's address on a network. -/
def charityPaymentAddress (chainParams : CChainParams) : String :=
  if chainParams.networkID = .MAIN then CHARITY_PAYMENT_ADDRESS
  else CHARITY_PAYMENT_ADDRESS_TESTNET

/-! ### Lottery payments -/

variable (rewards : CBlockRewards)

/-- Half of the lottery's part goes to the first winner. -/
def nBigReward : Int :=
  rewards.nLotteryReward.tdiv 2

/-- A tenth of that goes to each of the other winners. -/
def nSmallReward : Int :=
  (nBigReward rewards).tdiv 10

/-- The output due to each winner: half the reward to the first, a tenth of it to the others. -/
def lotteryPayments (winners : LotteryCoinstakes) : List CTxOut :=
  winners.mapIdx fun i winner =>
    ⟨if i = 0 then nBigReward rewards else nSmallReward rewards, winner.2⟩

/-- Every winner's output is searched on its own among all the outputs. -/
def isValidLotteryPayment (tx : CTransaction)
    (vRequiredWinnersCoinstake : LotteryCoinstakes) : Bool :=
  if vRequiredWinnersCoinstake.isEmpty then
    true
  else
    (lotteryPayments rewards vRequiredWinnersCoinstake).all fun outPayment =>
      tx.vout.contains outPayment

/-! ### `BlockIncentivesPopulator` -/

/-- What payments are computed and checked with. -/
structure BlockIncentivesPopulator where
  chainParams : CChainParams
  sporks : SubsidySporks := {}
  /-- `GetScriptForDestination(CBitcoinAddress(address).Get())`. -/
  scriptForAddress : String → CScript
  masternodePayments : CMasternodePayments := {}
  /-- `masternodeSync_.IsSynced()`. -/
  isSynced : Bool := true
  /-- The `-override_mnpayee` setting. -/
  overrideMnpayee : Bool := false
  /-- Whether `SPORK_8_MASTERNODE_PAYMENT_ENFORCEMENT` is active. -/
  masternodePaymentEnforcement : Bool := false

namespace BlockIncentivesPopulator

variable (pop : BlockIncentivesPopulator)

/-- The rewards at a height. -/
def getBlockSubsidity (nHeight : Int) : Option CBlockRewards :=
  pop.chainParams.getBlockSubsidity pop.sporks nHeight

/-- The two outputs of a treasury block. -/
def treasuryPayments (rewards : CBlockRewards) : List CTxOut :=
  [⟨rewards.nTreasuryReward,
      pop.scriptForAddress (treasuryPaymentAddress pop.chainParams)⟩,
    ⟨rewards.nCharityReward,
      pop.scriptForAddress (charityPaymentAddress pop.chainParams)⟩]

/-- The outputs for treasury and charity are there. -/
def isValidTreasuryPayment (rewards : CBlockRewards) (tx : CTransaction) : Bool :=
  (pop.treasuryPayments rewards).all fun outPayment => tx.vout.contains outPayment

/-- Appends the outputs for treasury and charity. -/
def fillTreasuryPayment (tx : CTransaction) (nHeight : Int) : Option CTransaction := do
  let rewards ← pop.getBlockSubsidity nHeight
  some { tx with vout := tx.vout ++ pop.treasuryPayments rewards }

/-- Appends an output for each winner. -/
def fillLotteryPayment (tx : CTransaction) (rewards : CBlockRewards) (tip : CBlockIndex) :
    CTransaction :=
  { tx with vout := tx.vout ++
      lotteryPayments rewards tip.vLotteryWinnersCoinstakes.getLotteryCoinstakes }

/-- `FillBlockPayee`: appends what is due in the block after the tip. -/
def fillBlockPayee (txNew : CTransaction) (payments : CBlockRewards) (chainTip : BlockPointer) :
    Option CTransaction :=
  match chainTip with
  | [] => none
  | tip :: _ =>
    if pop.chainParams.isValidTreasuryBlockHeight (tip.nHeight + 1) then
      pop.fillTreasuryPayment txNew (tip.nHeight + 1)
    else if pop.chainParams.isValidLotteryBlockHeight (tip.nHeight + 1) then
      some (fillLotteryPayment txNew payments tip)
    else
      some (pop.masternodePayments.fillBlockPayee chainTip txNew payments)

/-- The most a block of the height may mint, by the rewards it is checked against. -/
def expectedMintCombined (nExpectedValue : CBlockRewards) (nHeight : Int) : Int :=
  nExpectedValue.nStakeReward + nExpectedValue.nMasternodeReward +
    if pop.chainParams.isValidTreasuryBlockHeight nHeight then
      nExpectedValue.nTreasuryReward + nExpectedValue.nCharityReward
    else if pop.chainParams.isValidLotteryBlockHeight nHeight then
      nExpectedValue.nLotteryReward
    else 0

/-- No more is minted than expected. -/
def isBlockValueValid (nExpectedValue : CBlockRewards) (nMinted : Int) (nHeight : Int) :
    Bool :=
  !(nMinted > pop.expectedMintCombined nExpectedValue nHeight)

/-- The masternode that the votes name is paid, where that is enforced. -/
def hasValidMasternodePayee (txNew : CTransaction) (pindex : BlockPointer) : Option Bool :=
  if !pop.isSynced then
    some true
  else match pindex with
  | [] => none
  | block :: _ =>
    if block.nHeight ≤ 100 then
      some true
    else match getBlockHashForScoring pindex 0 with
    | none => some false
    | some seedHash => do
      let valid ← pop.masternodePayments.isTransactionValid pop.getBlockSubsidity
        txNew seedHash
      if valid || pop.overrideMnpayee then
        some true
      else
        some (!pop.masternodePaymentEnforcement)

/-- `HasValidPayees`: the outputs that are due are there. -/
def hasValidPayees (txNew : CTransaction) (pindex : BlockPointer) : Option Bool :=
  match pindex with
  | [] => none
  | block :: pprev =>
    if pop.chainParams.isValidTreasuryBlockHeight block.nHeight then do
      let rewards ← pop.getBlockSubsidity block.nHeight
      some (pop.isValidTreasuryPayment rewards txNew)
    else if pop.chainParams.isValidLotteryBlockHeight block.nHeight then do
      let rewards ← pop.getBlockSubsidity block.nHeight
      let parent ← pprev.head?
      some (isValidLotteryPayment rewards txNew
        parent.vLotteryWinnersCoinstakes.getLotteryCoinstakes)
    else
      pop.hasValidMasternodePayee txNew pindex

end BlockIncentivesPopulator

end Divi
