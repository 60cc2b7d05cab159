/-
What `HasValidPayees` guarantees the winners of a lottery.

The validator looks for every winner's output on its own, so it accepts exactly the
transactions whose outputs contain the required ones as a set.  The producer appends
one output per winner.  The two agree as long as no payment is required twice; when
two of the later winners share a script, one output serves both.
-/
import Divi.BlockIncentives
import Divi.Lib.Matching

namespace Divi

open Matching

/-! ### What the two checks accept -/

theorem isValidLotteryPayment_iff (rewards : CBlockRewards) (tx : CTransaction)
    (winners : LotteryCoinstakes) :
    isValidLotteryPayment rewards tx winners = true ↔
      ∀ out ∈ lotteryPayments rewards winners, out ∈ tx.vout := by
  unfold isValidLotteryPayment
  cases winners with
  | nil => simp [lotteryPayments]
  | cons winner rest => simp

namespace BlockIncentivesPopulator

variable {pop : BlockIncentivesPopulator}

theorem isValidTreasuryPayment_iff (rewards : CBlockRewards) (tx : CTransaction) :
    pop.isValidTreasuryPayment rewards tx = true ↔
      ∀ out ∈ pop.treasuryPayments rewards, out ∈ tx.vout := by
  simp [isValidTreasuryPayment]

/--
The outputs `HasValidPayees` looks for at a superblock; at a height of both kinds
the treasury has precedence.
-/
def checkedPayments (pop : BlockIncentivesPopulator) (rewards : CBlockRewards)
    (block parent : CBlockIndex) : List CTxOut :=
  if pop.chainParams.isValidTreasuryBlockHeight block.nHeight then
    pop.treasuryPayments rewards
  else
    lotteryPayments rewards parent.vLotteryWinnersCoinstakes.getLotteryCoinstakes

theorem hasValidPayees_iff_of_lottery {rewards : CBlockRewards} {block parent : CBlockIndex}
    {prev : BlockPointer}
    (hlot : pop.chainParams.isValidLotteryBlockHeight block.nHeight = true)
    (hrew : pop.getBlockSubsidity block.nHeight = some rewards) (tx : CTransaction) :
    pop.hasValidPayees tx (block :: parent :: prev) = some true ↔
      ∀ out ∈ pop.checkedPayments rewards block parent, out ∈ tx.vout := by
  unfold hasValidPayees checkedPayments
  by_cases htrs : pop.chainParams.isValidTreasuryBlockHeight block.nHeight = true
  · simp only [htrs, if_true, hrew, Option.bind_eq_bind, Option.bind_some, Option.some.injEq]
    exact isValidTreasuryPayment_iff rewards tx
  · simp only [htrs, Bool.false_eq_true, if_false, hlot, if_true, hrew,
      Option.bind_eq_bind, Option.bind_some, List.head?_cons, Option.some.injEq]
    exact isValidLotteryPayment_iff rewards tx _

/-! ### When every winner is paid -/

/--
**When an accepted transaction pays every winner separately.**

At a lottery height, every transaction that `HasValidPayees` accepts has an output of
its own for each winner exactly when no two winners are due the same amount to the
same script.  Where the height is a treasury height as well, only the treasury's two
outputs are looked for, so the winners' would have to be among them.
-/
theorem winners_paid_separately_iff (pop : BlockIncentivesPopulator)
    (rewards : CBlockRewards) (block parent : CBlockIndex) (prev : BlockPointer)
    (hlot : pop.chainParams.isValidLotteryBlockHeight block.nHeight = true)
    (hrew : pop.getBlockSubsidity block.nHeight = some rewards) :
    (∀ tx : CTransaction, pop.hasValidPayees tx (block :: parent :: prev) = some true →
      Assigned (lotteryPayments rewards parent.vLotteryWinnersCoinstakes.getLotteryCoinstakes)
        tx.vout) ↔
    (lotteryPayments rewards parent.vLotteryWinnersCoinstakes.getLotteryCoinstakes).Nodup ∧
      (pop.chainParams.isValidTreasuryBlockHeight block.nHeight = true →
        ∀ out ∈ lotteryPayments rewards parent.vLotteryWinnersCoinstakes.getLotteryCoinstakes,
          out ∈ pop.treasuryPayments rewards) := by
  have hl := forall_assigned_iff
    (lotteryPayments rewards parent.vLotteryWinnersCoinstakes.getLotteryCoinstakes)
    (pop.checkedPayments rewards block parent)
  have hchk : (∀ out ∈
        lotteryPayments rewards parent.vLotteryWinnersCoinstakes.getLotteryCoinstakes,
          out ∈ pop.checkedPayments rewards block parent) ↔
      (pop.chainParams.isValidTreasuryBlockHeight block.nHeight = true →
        ∀ out ∈ lotteryPayments rewards parent.vLotteryWinnersCoinstakes.getLotteryCoinstakes,
          out ∈ pop.treasuryPayments rewards) := by
    unfold checkedPayments
    by_cases htrs : pop.chainParams.isValidTreasuryBlockHeight block.nHeight = true
    · simp [htrs]
    · simp [htrs]
  rw [← hchk, ← hl]
  constructor
  · intro h vout hvout
    exact h { hash := 0, vin := [], vout := vout }
      ((hasValidPayees_iff_of_lottery hlot hrew _).mpr hvout)
  · intro h tx htx
    exact h tx.vout ((hasValidPayees_iff_of_lottery hlot hrew tx).mp htx)

/-! ### Two winners with one script on the main network -/

def mainPopulator : BlockIncentivesPopulator where
  chainParams := mainParams
  scriptForAddress := fun address => address.toUTF8.toList

/-- Three winners; the second and the third stake from the same script. -/
def sharedScriptWinners : LotteryCoinstakes := [(1, [0x51]), (2, [0x52]), (3, [0x52])]

def sharedScriptParent : CBlockIndex where
  phashBlock := 1
  nHeight := 20159
  vLotteryWinnersCoinstakes := { storage := sharedScriptWinners }

def lotteryBlock : CBlockIndex where
  phashBlock := 2
  nHeight := 20160

/-- The subsidy of the lottery block, with the reward of a whole cycle. -/
def lotteryBlockRewards : CBlockRewards where
  nStakeReward := 45600000000
  nMasternodeReward := 54000000000
  nTreasuryReward := 0
  nCharityReward := 0
  nLotteryReward := 504000 * COIN
  nProposalsReward := 0

/-- Pays the first winner, and the other two with one output. -/
def underpayingTx : CTransaction where
  hash := 3
  vin := []
  vout := [⟨252000 * COIN, [0x51]⟩, ⟨25200 * COIN, [0x52]⟩]

theorem winners_paid_separately_main :
    mainPopulator.chainParams.isValidLotteryBlockHeight lotteryBlock.nHeight = true ∧
    mainPopulator.getBlockSubsidity lotteryBlock.nHeight = some lotteryBlockRewards ∧
    ¬ (∀ tx : CTransaction,
      mainPopulator.hasValidPayees tx [lotteryBlock, sharedScriptParent] = some true →
        Assigned (lotteryPayments lotteryBlockRewards sharedScriptWinners) tx.vout) := by
  have hlot : mainPopulator.chainParams.isValidLotteryBlockHeight lotteryBlock.nHeight
      = true := by decide
  have hrew : mainPopulator.getBlockSubsidity lotteryBlock.nHeight
      = some lotteryBlockRewards := by decide
  refine ⟨hlot, hrew, fun h => ?_⟩
  have hnd := (winners_paid_separately_iff mainPopulator lotteryBlockRewards lotteryBlock
    sharedScriptParent [] hlot hrew).mp h
  exact absurd hnd.1 (by decide)

/-- An accepted transaction with two outputs for three winners. -/
theorem underpaying_accepted :
    mainPopulator.hasValidPayees underpayingTx [lotteryBlock, sharedScriptParent] = some true ∧
    mainPopulator.getBlockSubsidity lotteryBlock.nHeight = some lotteryBlockRewards ∧
    ¬ Assigned (lotteryPayments lotteryBlockRewards sharedScriptWinners) underpayingTx.vout := by
  refine ⟨by decide, by decide, fun h => ?_⟩
  exact absurd (h.nodup (by decide)) (by decide)

end BlockIncentivesPopulator

end Divi
