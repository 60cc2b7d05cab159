/-
The lottery winners attached to a block index.

The list of a block is its parent's list with the block's own coinstake added, ranked by
a score keyed with the hash of the last lottery block, and cut off after eleven.  That
block, and the earlier winners whose scripts are vetoed, are looked up by height in the
chain that is active when the block is added.

`calculateLotteryScore` stands for the hash that ranks coinstakes.  Reading a block or an
output that is not there is `none`.
-/
import Divi.Kernel
import Divi.Subsidy

namespace Divi

/-- The least stake that takes part in the lottery. -/
structure LotteryTicketMinValueSporkValue where
  nEntryTicketValue : Int := 0
  nActivationBlockHeight : Int := 0
  deriving DecidableEq, Repr

/-- `IsValid` of a least stake. -/
def LotteryTicketMinValueSporkValue.isValid (v : LotteryTicketMinValueSporkValue) : Bool :=
  v.nActivationBlockHeight > 0 && v.nEntryTicketValue > 0

instance : Inhabited LotteryTicketMinValueSporkValue := ⟨{}⟩

/-- The score and the place of a coinstake. -/
structure RankAwareScore where
  score : uint256
  rank : Nat
  isDuplicateScript : Bool
  deriving DecidableEq, Repr

/-- A map from coinstakes to their scores, with the entries in the order they were added. -/
abbrev RankedScoreAwareCoinstakes := List (uint256 × RankAwareScore)

/-- What winners are computed with. -/
structure LotteryWinnersCalculator where
  chainParams : CChainParams
  activeChain : CChain
  calculateLotteryScore : uint256 → uint256 → uint256
  /-- The decoded values of `SPORK_16_LOTTERY_TICKET_MIN_VALUE`, if it is active. -/
  ticketMinValues : Option (List (LotteryTicketMinValueSporkValue × Int)) := none
  adjustedTime : Int := 0

namespace RankedScoreAwareCoinstakes

variable (ranked : RankedScoreAwareCoinstakes)

/-- `find(hash)->second`; every coinstake that is looked up was added. -/
def entryOf (hash : uint256) : RankAwareScore :=
  (ranked.lookup hash).getD ⟨0, 0, false⟩

/-- `emplace`, which leaves an entry that is there alone. -/
def emplace (hash : uint256) (score : RankAwareScore) : RankedScoreAwareCoinstakes :=
  match ranked.lookup hash with
  | some _ => ranked
  | none => ranked ++ [(hash, score)]

end RankedScoreAwareCoinstakes

namespace LotteryWinnersCalculator

variable (calculator : LotteryWinnersCalculator)

def startOfLotteryBlocks : Int := calculator.chainParams.nLotteryBlockStartBlock

/-! ### Which coinstakes take part -/

/-- The least stake at a height, in coins. -/
def minimumCoinstakeForTicket (nHeight : Int) : Int :=
  match calculator.ticketMinValues with
  | none => 10000
  | some vValues =>
    let nBlockTime := match calculator.activeChain.atHeight nHeight with
      | [] => calculator.adjustedTime
      | block :: _ => block.nTime
    let activeSpork := getActiveMultiValueSpork
      LotteryTicketMinValueSporkValue.nActivationBlockHeight vValues nHeight nBlockTime
    if activeSpork.isValid then activeSpork.nEntryTicketValue else 10000

/-- The output whose script a winning coinstake is paid to. -/
def payingOutput (tx : CTransaction) : Option CTxOut :=
  if tx.isCoinBase then tx.vout[0]? else tx.vout[1]?

/-- A coinstake that pays more than the least stake takes part. -/
def isCoinstakeValidForLottery (tx : CTransaction) (nHeight : Int) : Option Bool := do
  let payee ← payingOutput tx
  let nAmount := if tx.isCoinBase then payee.nValue else
    (tx.vout.map fun out => if out.scriptPubKey = payee.scriptPubKey then out.nValue else 0).sum
  some (nAmount > calculator.minimumCoinstakeForTicket nHeight * COIN)

/-! ### Look-ups in the active chain -/

/-- The height of the last lottery block before a height. -/
def lastLotteryHeight (blockHeight : Int) : Int :=
  let lotteryBlockPaymentCycle := calculator.chainParams.getLotteryBlockPaymentCycle blockHeight
  max calculator.startOfLotteryBlocks
    (lotteryBlockPaymentCycle * (blockHeight - 1).tdiv lotteryBlockPaymentCycle)

/-- The last lottery block before a height. -/
def getLastLotteryBlockIndexBeforeHeight (blockHeight : Int) : BlockPointer :=
  calculator.activeChain.atHeight (calculator.lastLotteryHeight blockHeight)

/-- The heights right before the last lottery blocks, whose winners are vetoed. -/
def vetoHeights (blockHeight : Int) : List Int :=
  [0, 1, 2].map fun lotteryCycleCount => calculator.lastLotteryHeight blockHeight -
    calculator.chainParams.getLotteryBlockPaymentCycle blockHeight * lotteryCycleCount - 1

/-- Goes through the heights until a script is found, or there is no block. -/
def vetoLoop (paymentScript : CScript) : List Int → Bool
  | [] => false
  | height :: rest =>
    match calculator.activeChain.atHeight height with
    | [] => false
    | block :: _ =>
      if block.vLotteryWinnersCoinstakes.getLotteryCoinstakes.any
          fun coinstake => coinstake.2 = paymentScript then
        true
      else
        vetoLoop paymentScript rest

/-- A script that won one of the last lotteries is left out. -/
def isPaymentScriptVetoed (paymentScript : CScript) (blockHeight : Int) : Bool :=
  calculator.vetoLoop paymentScript (calculator.vetoHeights blockHeight)

/-! ### Ranking -/

/-- Adds a coinstake to the map, with the scripts met so far. -/
def rankStep (lastLotteryBlockHash : uint256)
    (state : RankedScoreAwareCoinstakes × List CScript) (coinstake : LotteryCoinstake) :
    RankedScoreAwareCoinstakes × List CScript :=
  (state.1.emplace coinstake.1 {
      score := calculator.calculateLotteryScore coinstake.1 lastLotteryBlockHash
      rank := state.1.length
      isDuplicateScript := coinstake.2 ∈ state.2 },
    coinstake.2 :: state.2)

/-- The candidates with their scores and places. -/
def computeRankedScoreAwareCoinstakes (lastLotteryBlockHash : uint256)
    (updatedCoinstakes : LotteryCoinstakes) : RankedScoreAwareCoinstakes :=
  (updatedCoinstakes.foldl (calculator.rankStep lastLotteryBlockHash) ([], [])).1

/-- `std::stable_sort` with the best score first. -/
def sortCoinstakesByScore (ranked : RankedScoreAwareCoinstakes)
    (updatedCoinstakes : LotteryCoinstakes) : LotteryCoinstakes :=
  if ranked.length > 1 then
    updatedCoinstakes.insertionSort fun lhs rhs =>
      (ranked.entryOf rhs.1).score ≤ (ranked.entryOf lhs.1).score
  else
    updatedCoinstakes

/-- Drops the last element that satisfies a test, `none` if there is none. -/
def eraseLast (test : LotteryCoinstake → Bool) (coinstakes : LotteryCoinstakes) :
    Option LotteryCoinstakes :=
  let reversed := coinstakes.reverse
  if reversed.any test then some (reversed.eraseP test).reverse else none

/-- Whether the list changed, and the list without its superfluous element. -/
def topElevenBestCoinstakesNeedUpdating (trimDuplicates : Bool)
    (ranked : RankedScoreAwareCoinstakes) (updatedCoinstakes : LotteryCoinstakes) :
    Bool × LotteryCoinstakes :=
  let shouldUpdateCoinstakeData : Bool :=
    if ranked.length > 1 then
      match updatedCoinstakes.getLast? with
      | none => true
      | some worst => (ranked.entryOf worst.1).rank ≠ 11
    else
      ranked.length > 0
  if updatedCoinstakes.length > 11 then
    let trimmed := if trimDuplicates then
        eraseLast (fun coinstake => (ranked.entryOf coinstake.1).isDuplicateScript)
          updatedCoinstakes
      else
        none
    match trimmed with
    | some coinstakes => (true, coinstakes)
    | none => (shouldUpdateCoinstakeData, updatedCoinstakes.dropLast)
  else
    (shouldUpdateCoinstakeData, updatedCoinstakes)

/-- The new list if it changed; the last coinstake of the given one is the block's own. -/
def updateCoinstakes (nextBlockHeight : Int) (updatedCoinstakes : LotteryCoinstakes) :
    Option (Option LotteryCoinstakes) :=
  match calculator.getLastLotteryBlockIndexBeforeHeight nextBlockHeight with
  | [] => none
  | lastLottery :: _ =>
    let uniform := Fork.UniformLotteryWinners.isActive lastLottery
    let ownScript := (updatedCoinstakes.getLast?.map Prod.snd).getD []
    if uniform && calculator.isPaymentScriptVetoed ownScript nextBlockHeight then
      some none
    else
      let ranked := calculator.computeRankedScoreAwareCoinstakes lastLottery.phashBlock
        updatedCoinstakes
      let (needsUpdate, coinstakes) := topElevenBestCoinstakesNeedUpdating uniform ranked
        (sortCoinstakesByScore ranked updatedCoinstakes)
      some (if needsUpdate then some coinstakes else none)

/-- `CalculateUpdatedLotteryWinners`: the list of a block from the one of its parent. -/
def calculateUpdatedLotteryWinners (coinMintTransaction : CTransaction)
    (previousBlockLotteryCoinstakeData : LotteryCoinstakeData) (nHeight : Int) :
    Option LotteryCoinstakeData :=
  if nHeight ≤ 0 then
    some {}
  else if calculator.chainParams.isValidLotteryBlockHeight nHeight then
    some { heightOfDataStorage := nHeight }
  else if nHeight ≤ calculator.startOfLotteryBlocks then
    some previousBlockLotteryCoinstakeData.getShallowCopy
  else
    match calculator.isCoinstakeValidForLottery coinMintTransaction nHeight with
    | none => none
    | some false => some previousBlockLotteryCoinstakeData.getShallowCopy
    | some true =>
      match payingOutput coinMintTransaction with
      | none => none
      | some payee =>
        match calculator.updateCoinstakes nHeight
            (previousBlockLotteryCoinstakeData.getLotteryCoinstakes ++
              [(coinMintTransaction.hash, payee.scriptPubKey)]) with
        | none => none
        | some none => some previousBlockLotteryCoinstakeData.getShallowCopy
        | some (some coinstakes) =>
          some { storage := coinstakes, heightOfDataStorage := nHeight }

end LotteryWinnersCalculator

end Divi
