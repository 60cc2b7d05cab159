/-
Selecting coins with the smallest fee.

Coins that suffice alone come first, those with a small signature before the others, and then the
coins that are worth most beyond the fee for their signature.  They are taken until they cover the
outputs, a change that is not dust and the fee so far; only then the fee is raised by what the size
asks for.

The estimate of a signature's size is a parameter, and `std::sort` is one that is only known to
sort.  The set of selected coins is a list in which no outpoint comes twice.
-/
import Divi.Fees

namespace Divi

/-- A coin and the bytes its signature takes. -/
structure InputToSpendAndSigSize where
  output : COutput
  sigSize : Nat

namespace InputToSpendAndSigSize

def value (input : InputToSpendAndSigSize) : Int :=
  input.output.value

/-- The order of selection. -/
def less (feeRate : CFeeRate) (totalAmountNeeded : Int) (inputA inputB : InputToSpendAndSigSize) :
    Bool :=
  let gapA := inputA.value - feeRate.getFee inputA.sigSize
  let gapB := inputB.value - feeRate.getFee inputB.sigSize
  if gapA ≥ totalAmountNeeded ∧ gapB ≥ totalAmountNeeded then
    inputA.sigSize < inputB.sigSize
  else
    gapA > gapB || (gapA = gapB && inputA.sigSize < inputB.sigSize)

end InputToSpendAndSigSize

/-- The selection with its fee rates and its sort. -/
structure MinimumFeeCoinSelectionAlgorithm where
  calculator : FeeAndPriorityCalculator
  maxTxFee : Int
  maxBytesNeededForScriptSig : CScript → Nat
  /-- `std::sort` with the order for an amount that is needed. -/
  sort : Int → List InputToSpendAndSigSize → List InputToSpendAndSigSize
  sort_perm : ∀ totalAmountNeeded inputs, (sort totalAmountNeeded inputs).Perm inputs
  sort_sorted : ∀ totalAmountNeeded inputs, (sort totalAmountNeeded inputs).Pairwise fun a b =>
    InputToSpendAndSigSize.less calculator.minimumRelayTransactionFee totalAmountNeeded b a = false

namespace MinimumFeeCoinSelectionAlgorithm

variable (alg : MinimumFeeCoinSelectionAlgorithm)

/-- The fee rate that is quoted. -/
def minRelayTxFee : CFeeRate :=
  alg.calculator.getFeeRateQuote

/-- The bytes of a change output. -/
def nominalChangeOutputSize : Nat := 34

/-- `inputsSelected.insert`. -/
def insertCoin (inputsSelected : List COutput) (output : COutput) : List COutput :=
  if inputsSelected.any fun other => other.outpoint = output.outpoint then inputsSelected
  else inputsSelected ++ [output]

/-- The loop over the inputs. -/
def selectFrom (totalAmountNeeded fees : Int) (inputsSelected : List COutput)
    (amountCovered : Int) (cummulativeByteSize : Nat) :
    List InputToSpendAndSigSize → Option (List COutput × Int)
  | [] => some ([], fees)
  | input :: inputs =>
    match Checked.check 64 (amountCovered + input.value) with
    | none => none
    | some amountCovered =>
      if (cummulativeByteSize + input.sigSize) % 2 ^ 32 ≥ MAX_STANDARD_TX_SIZE then
        some ([], fees)
      else if amountCovered ≥ totalAmountNeeded then
        (Checked.check 64 (fees + min (alg.minRelayTxFee.getFee
          ((cummulativeByteSize + input.sigSize) % 2 ^ 32)) alg.maxTxFee)).map fun fees =>
            (insertCoin inputsSelected input.output, fees)
      else
        selectFrom totalAmountNeeded fees (insertCoin inputsSelected input.output) amountCovered
          ((cummulativeByteSize + input.sigSize) % 2 ^ 32) inputs

/-- The coins with the sizes of their signatures. -/
def inputsToSpend (vCoins : List COutput) : List InputToSpendAndSigSize :=
  vCoins.map fun output =>
    { output := output, sigSize := alg.maxBytesNeededForScriptSig output.scriptPubKey }

/-- The selected coins, and the fees as they are left. -/
def selectCoins (tx : CMutableTransaction) (vCoins : List COutput) (fees : Int) :
    Option (List COutput × Int) := do
  let nTargetValue := tx.getValueOut
  let maximumAmountAvailable ← vCoins.foldlM (fun amount input =>
    Checked.check 64 (amount + input.value)) 0
  let minimumNoDustChange ← alg.calculator.minimumValueForNonDust
  let withChange ← Checked.check 64 (nTargetValue + minimumNoDustChange)
  let totalAmountNeeded ← Checked.check 64 (withChange + fees)
  if totalAmountNeeded > maximumAmountAvailable then
    return ([], fees)
  else
    alg.selectFrom totalAmountNeeded fees [] 0
      ((tx.getSerializeSize + nominalChangeOutputSize) % 2 ^ 32)
      (alg.sort totalAmountNeeded (alg.inputsToSpend vCoins))

end MinimumFeeCoinSelectionAlgorithm

end Divi
