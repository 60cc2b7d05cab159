/-
The chain parameters, and the heights at which superblocks fall.

`CChainParams` keeps the fields the modelled code reads.  The values of the three
networks that are really run are spelled out below it, from `chainparams.cpp`.

Amounts and heights are unbounded integers here, so `transitionHeight` is the exact product of
the two cycles; in the source it is an `int`.  C++'s `%` truncates towards zero,
which is `Int.tmod`, and its `/` on integers is `Int.tdiv`.
-/
import Mathlib.Tactic

namespace Divi

/-- The number of smallest units in one coin. -/
def COIN : Int := 100000000

/-- The networks of `chainparamsbase.h`. -/
inductive Network
  | MAIN
  | TESTNET
  | REGTEST
  | UNITTEST
  deriving DecidableEq, Repr

/-- The parameters of a network that the model reads. -/
structure CChainParams where
  networkID : Network
  premineAmt : Int
  nSubsidyHalvingInterval : Int
  nMaturity : Int
  nMaxMoneyOut : Int
  nLastPOWBlock : Int
  nLotteryBlockStartBlock : Int
  nLotteryBlockCycle : Int
  nTreasuryPaymentsStartBlock : Int
  nTreasuryPaymentsCycle : Int
  deriving DecidableEq, Repr

def mainParams : CChainParams where
  networkID := .MAIN
  premineAmt := 617222416 * COIN
  nSubsidyHalvingInterval := 60 * 24 * 365
  nMaturity := 20
  nMaxMoneyOut := 2534320700 * COIN
  nLastPOWBlock := 100
  nLotteryBlockStartBlock := 101
  nLotteryBlockCycle := 60 * 24 * 7
  nTreasuryPaymentsStartBlock := 101
  nTreasuryPaymentsCycle := 60 * 24 * 7 + 1

def testNetParams : CChainParams where
  networkID := .TESTNET
  premineAmt := 617222416 * COIN
  nSubsidyHalvingInterval := 1000
  nMaturity := 1
  nMaxMoneyOut := 2535000000 * COIN
  nLastPOWBlock := 100
  nLotteryBlockStartBlock := 101
  nLotteryBlockCycle := 200
  nTreasuryPaymentsStartBlock := 102
  nTreasuryPaymentsCycle := 201

def regTestParams : CChainParams where
  networkID := .REGTEST
  premineAmt := 1250 * COIN
  nSubsidyHalvingInterval := 100
  nMaturity := 20
  nMaxMoneyOut := 2535000000 * COIN
  nLastPOWBlock := 100
  nLotteryBlockStartBlock := 101
  nLotteryBlockCycle := 10
  nTreasuryPaymentsStartBlock := 102
  nTreasuryPaymentsCycle := 50

/-! ### `Legacy` -/

namespace Legacy

/-- Multiples of the lottery cycle. -/
def isValidLotteryBlockHeight (nBlockHeight : Int) (chainParams : CChainParams) : Bool :=
  nBlockHeight ≥ chainParams.nLotteryBlockStartBlock &&
    nBlockHeight.tmod chainParams.nLotteryBlockCycle == 0

/-- Multiples of the treasury cycle. -/
def isValidTreasuryBlockHeight (nBlockHeight : Int) (chainParams : CChainParams) : Bool :=
  nBlockHeight ≥ chainParams.nTreasuryPaymentsStartBlock &&
    nBlockHeight.tmod chainParams.nTreasuryPaymentsCycle == 0

end Legacy

/-! ### `SuperblockHeightValidator`

The validator is built from the parameters alone, so its two derived members are
functions of them and its methods take the parameters as their receiver.
-/

namespace CChainParams

variable (chainParams : CChainParams)

/-- Where the two schedules become one. -/
def transitionHeight : Int :=
  chainParams.nLotteryBlockCycle * chainParams.nTreasuryPaymentsCycle

/-- The cycle of both payments from there on. -/
def superblockCycleLength : Int :=
  chainParams.nLotteryBlockCycle

/-- Lottery heights before and after the switch. -/
def isValidLotteryBlockHeight (nBlockHeight : Int) : Bool :=
  if nBlockHeight < chainParams.transitionHeight then
    Legacy.isValidLotteryBlockHeight nBlockHeight chainParams
  else
    (nBlockHeight - chainParams.transitionHeight).tmod
      chainParams.superblockCycleLength == 0

/-- After the switch the treasury follows the lottery by a block. -/
def isValidTreasuryBlockHeight (nBlockHeight : Int) : Bool :=
  if nBlockHeight < chainParams.transitionHeight then
    Legacy.isValidTreasuryBlockHeight nBlockHeight chainParams
  else
    chainParams.isValidLotteryBlockHeight (nBlockHeight - 1)

/-- The blocks a treasury payment is for. -/
def getTreasuryBlockPaymentCycle (nBlockHeight : Int) : Int :=
  if nBlockHeight < chainParams.transitionHeight then
    chainParams.nTreasuryPaymentsCycle
  else if nBlockHeight ≤ chainParams.transitionHeight + 1 then
    chainParams.nTreasuryPaymentsCycle + 1
  else
    chainParams.superblockCycleLength

/-- The blocks a lottery payment is for. -/
def getLotteryBlockPaymentCycle (nBlockHeight : Int) : Int :=
  if nBlockHeight < chainParams.transitionHeight then
    chainParams.nLotteryBlockCycle
  else
    chainParams.superblockCycleLength

end CChainParams

end Divi
