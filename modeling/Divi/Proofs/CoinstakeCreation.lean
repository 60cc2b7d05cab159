/-
A coinstake that the wallet builds passes the checks of the next block.

The producer splits the stake or adds coins to it, and appends the payments that are
due.  Its outputs exceed its inputs by the staking reward and those payments, whichever
way it went, and where it spends from a vault the outputs that are counted for the vault
hold the stake and the reward.
-/
import Divi.PoSTransactionCreator
import Divi.Proofs.BlockPayees
import Divi.Proofs.VaultRecognition

namespace Divi

open BlockIncentivesPopulator List Option StakableCoin

variable {script : CScript} {tx : CTransaction} {rewards : CBlockRewards} {view : CCoinsViewCache}
  {coins added : List StakableCoin} {creator : PoSTransactionCreator}
  {stakeSplit nStakeReward : Int} {kernel : StakableCoin} {tip : CBlockIndex}
  {payments : List CTxOut} {isVaultScript : Bool}

/-! ### Vaults among the supported scripts -/

/-- **A vault is never taken for a key or a key hash.** -/
theorem not_vault_of_isSupportedScript (h : isSupportedScript script = some false) :
    isStakingVaultScript script = false := by
  by_contra hva
  obtain ⟨o, v, ho, hv, rfl⟩ := eq_createStakingVaultScript (Bool.eq_true_of_not_eq_false hva)
  have hcan : CScript.CanPush 0x14 20 := by decide
  rw [isSupportedScript, ← vaultWith_direct ho hv, extract_vaultWith ho hv hcan hcan] at h
  cases h

/-- No vault among the inputs leaves nothing to check. -/
theorem scanVaultInputs_none {inputs : List CTxIn} (hnot : isStakingVaultScript script = false)
    (h : InputsPay view script inputs) (value : Int) :
    ∃ sum, scanVaultInputs view inputs ⟨value, none⟩ = some (some ⟨sum, none⟩) := by
  induction inputs generalizing value with
  | nil => exact ⟨value, rfl⟩
  | cons input rest ih =>
    obtain ⟨out, hout, hscr⟩ := h input mem_cons_self
    obtain ⟨sum, hsum⟩ := ih h.tail (value + out.nValue)
    refine ⟨sum, ?_⟩
    rw [← hsum]
    simp [scanVaultInputs, hout, hscr, hnot]

theorem checkCoinstakeForVaults_of_not_vault (hnot : isStakingVaultScript script = false)
    (h : InputsPay view script tx.vin) (rewards : CBlockRewards) :
    checkCoinstakeForVaults tx rewards view = some true := by
  obtain ⟨sum, hscan⟩ := scanVaultInputs_none hnot h 0
  unfold checkCoinstakeForVaults
  by_cases hs : tx.isCoinStake = true
  · simp [hs, hscan]
  · simp [hs]

/-! ### Coins that are spent -/

/-- The value of a list of coins. -/
def coinsValue (coins : List StakableCoin) : Int :=
  (coins.map StakableCoin.value).sum

@[simp] theorem coinsValue_nil : coinsValue [] = 0 := rfl

@[simp] theorem coinsValue_cons (coin : StakableCoin) (coins : List StakableCoin) :
    coinsValue (coin :: coins) = coin.value + coinsValue coins := by
  simp [coinsValue]

theorem StakableCoin.utxo_not_null (coin : StakableCoin) : coin.utxo.isNull = false := by
  have hr := coin.inRange
  have hsize := coin.size_lt
  have hn : (coin.utxo.n == 2 ^ 32 - 1) = false := by
    rw [beq_eq_false_iff_ne]
    omega
  rw [COutPoint.isNull, hn, Bool.and_false]

section

variable (hvi : ∀ coin ∈ coins, view.getOutputFor coin.input = some coin.getTxOut)

include hvi

theorem mapM_getOutputFor_coins : (coins.map input).mapM view.getOutputFor
      = some (coins.map getTxOut) := by
  induction coins with
  | nil => rfl
  | cons coin rest ih =>
    rw [map_cons, mapM_cons, hvi coin mem_cons_self,
      ih fun c hc => hvi c (mem_cons_of_mem _ hc)]
    rfl

theorem inputsPay_coins (hscr : ∀ coin ∈ coins, coin.script = script) :
    InputsPay view script (coins.map input) := by
  intro input hi
  obtain ⟨coin, hcoin, rfl⟩ := mem_map.mp hi
  exact ⟨coin.getTxOut, hvi coin hcoin, hscr coin hcoin⟩

end

namespace PoSTransactionCreator

/-! ### The stake -/

/-- The loop takes the first of the candidates, up to the number of inputs. -/
theorem combineLoop_eq (nCombineThreshold : Int) (candidates : List StakableCoin)
    (vin : List CTxIn) (nCredit : Int) (hvin : vin.length ≤ MAX_KERNEL_COMBINED_INPUTS) :
    ∃ taken, taken.Sublist candidates ∧
      combineLoop nCombineThreshold candidates vin nCredit
        = (vin ++ taken.map input, nCredit + coinsValue taken) ∧
      vin.length + taken.length ≤ MAX_KERNEL_COMBINED_INPUTS := by
  induction candidates generalizing vin nCredit with
  | nil => exact ⟨[], List.Sublist.refl _, by simp [combineLoop], hvin⟩
  | cons pcoin rest ih =>
    rw [combineLoop]
    split
    case isTrue => exact ⟨[], nil_sublist _, by simp, hvin⟩
    case isFalse hgo =>
      have hroom : (vin ++ [pcoin.input]).length ≤ MAX_KERNEL_COMBINED_INPUTS := by
        rw [length_append, length_singleton]
        omega
      obtain ⟨taken, hsub, hloop, hsize⟩ := ih (vin ++ [pcoin.input]) (nCredit + pcoin.value) hroom
      refine ⟨pcoin :: taken, hsub.cons_cons pcoin, ?_, ?_⟩
      · rw [hloop, map_cons, coinsValue_cons, Int.add_assoc, append_assoc, singleton_append]
      · rw [length_append, length_singleton] at hsize
        rw [length_cons]
        omega

/--
What the stake consists of: the kernel and the coins added to it, and the outputs that
hold their value and the reward.  A stake is split only above the threshold.
-/
structure Stake (creator : PoSTransactionCreator) (stakeSplit nStakeReward : Int)
    (kernel : StakableCoin) (added : List StakableCoin) (outs : List CTxOut) : Prop where
  mem : ∀ coin ∈ added, coin ∈ creator.stakedCoins.asSet
  script : ∀ coin ∈ added, coin.script = kernel.script
  nodup : ((kernel :: added).map StakableCoin.utxo).Nodup
  size : (kernel :: added).length ≤ MAX_KERNEL_COMBINED_INPUTS
  outs_eq : outs = [⟨coinsValue (kernel :: added) + nStakeReward, kernel.script⟩] ∨
    ∃ first second, outs = [⟨first, kernel.script⟩, ⟨second, kernel.script⟩] ∧
      first + second = coinsValue (kernel :: added) + nStakeReward ∧
      ∀ bound, 0 ≤ bound → 2 * bound ≤ stakeSplit → bound ≤ first ∧ bound ≤ second

/-- The kernel alone, with one output for the stake and the reward. -/
theorem Stake.single (creator : PoSTransactionCreator) (stakeSplit nStakeReward : Int)
    (kernel : StakableCoin) :
    creator.Stake stakeSplit nStakeReward kernel []
      [⟨kernel.value + nStakeReward, kernel.script⟩] where
  mem := by simp
  script := by simp
  nodup := by simp
  size := by simp [MAX_KERNEL_COMBINED_INPUTS]
  outs_eq := .inl (by simp)

/-- The kernel alone, with the stake and the reward in two halves. -/
theorem Stake.split (h : kernel.value + nStakeReward > stakeSplit) :
    creator.Stake stakeSplit nStakeReward kernel []
      [⟨(kernel.value + nStakeReward).tdiv 2, kernel.script⟩,
        ⟨kernel.value + nStakeReward - (kernel.value + nStakeReward).tdiv 2, kernel.script⟩] where
  mem := by simp
  script := by simp
  nodup := by simp
  size := by simp [MAX_KERNEL_COMBINED_INPUTS]
  outs_eq := by
    refine .inr ⟨_, _, rfl, ?_, ?_⟩
    · rw [coinsValue_cons, coinsValue_nil]
      omega
    · intro bound hbd hs
      rw [Int.tdiv_eq_ediv_of_nonneg (by omega)]
      omega

/-- The kernel with coins of the same script from other transactions. -/
theorem Stake.combined {nCredit nCombineThreshold : Int}
    (hsub : added.Sublist (creator.sorting.sort (creator.combineCandidates kernel.script
      kernel.utxo.hash nCredit nCombineThreshold)))
    (hsize : 1 + added.length ≤ MAX_KERNEL_COMBINED_INPUTS) :
    creator.Stake stakeSplit nStakeReward kernel added
      [⟨kernel.value + nStakeReward + coinsValue added, kernel.script⟩] := by
  have hcand : ∀ coin ∈ added, coin ∈ creator.stakedCoins.asSet ∧
      coin.script = kernel.script ∧ coin.tx.hash ≠ kernel.utxo.hash := by
    intro coin hcoin
    have hmem := creator.sorting.mem_sort.mp (hsub.subset hcoin)
    obtain ⟨hset, hcond⟩ := mem_filter.mp hmem
    obtain ⟨hscr, hh, -⟩ := of_decide_eq_true hcond
    exact ⟨hset, hscr, hh⟩
  refine ⟨fun coin hcoin => (hcand coin hcoin).1,
    fun coin hcoin => (hcand coin hcoin).2.1, ?_, ?_, .inl ?_⟩
  · rw [map_cons, nodup_cons]
    constructor
    · intro hk
      obtain ⟨coin, hcoin, hutxo⟩ := mem_map.mp hk
      have hh := (hcand coin hcoin).2.2
      rw [← coin.hash_eq, hutxo] at hh
      exact hh rfl
    · -- the candidates are a rearranged part of a set
      have hpart : ((creator.combineCandidates kernel.script kernel.utxo.hash nCredit
          nCombineThreshold).map utxo).Nodup :=
        (filter_sublist.map _).nodup creator.stakedCoins.nodup
      exact (hsub.map _).nodup (((creator.sorting.perm _).map _).nodup_iff.mpr hpart)
  · rw [length_cons]
    omega
  · rw [coinsValue_cons, Int.add_right_comm]

/-- **Splitting or combining** turns the kernel into a stake. -/
theorem splitOrCombineUTXOS_spec (creator : PoSTransactionCreator) (stakeSplit : Int)
    (hrew : creator.incentives.getBlockSubsidity (tip.nHeight + 1) = some rewards)
    (kernel : StakableCoin) (txNew : CTransaction) :
    ∃ added outs, creator.splitOrCombineUTXOS stakeSplit tip
        (setSuportedStakingScript kernel (markTransactionAsCoinstake txNew)) kernel
        = some { txNew with
            vin := (kernel :: added).map input
            vout := CTxOut.empty :: outs } ∧
      creator.Stake stakeSplit rewards.nStakeReward kernel added outs := by
  simp only [splitOrCombineUTXOS, hrew, bind_eq_bind, bind_some]
  by_cases hs : kernel.value + rewards.nStakeReward > stakeSplit
  · rw [if_pos hs]
    exact ⟨[], _, rfl, Stake.split hs⟩
  · rw [if_neg hs]
    by_cases hc : creator.autocombine = true
    · rw [if_pos hc]
      obtain ⟨taken, hsub, hloop, hsize⟩ := combineLoop_eq (stakeSplit.tdiv 2)
        (creator.sorting.sort (creator.combineCandidates kernel.script kernel.utxo.hash
          (kernel.value + rewards.nStakeReward) (stakeSplit.tdiv 2)))
        [kernel.input] (kernel.value + rewards.nStakeReward) (by simp [MAX_KERNEL_COMBINED_INPUTS])
      refine ⟨taken, _, ?_, Stake.combined hsub hsize⟩
      have hu : creator.combineUtxos stakeSplit
          (setSuportedStakingScript kernel (markTransactionAsCoinstake txNew))
          (kernel.value + rewards.nStakeReward)
          = some ({ setSuportedStakingScript kernel (markTransactionAsCoinstake txNew) with
              vin := [kernel.input] ++ taken.map input },
            kernel.value + rewards.nStakeReward + coinsValue taken) := by
        exact congrArg (fun r : List CTxIn × Int => some
          (({ setSuportedStakingScript kernel (markTransactionAsCoinstake txNew) with
            vin := r.1 } : CTransaction), r.2)) hloop
      rw [hu]
      rfl
    · rw [if_neg hc]
      exact ⟨[], _, rfl, Stake.single creator stakeSplit rewards.nStakeReward kernel⟩

section

variable {outs : List CTxOut}

section

variable (h : creator.Stake stakeSplit nStakeReward kernel added outs)

include h

theorem Stake.totalValue_outs : totalValue outs = coinsValue (kernel :: added) + nStakeReward := by
  rcases h.outs_eq with rfl | ⟨first, second, rfl, hsum, -⟩
  · simp
  · simp only [totalValue_cons, totalValue_nil]
    omega

/-- Whatever is appended to it, the outputs counted for a vault hold the stake. -/
theorem Stake.vaultOutput_ge (hs : 2 * MIN_FOR_SPLITTING ≤ stakeSplit) (payments : List CTxOut)
    :
    ∃ rewardOut after, outs ++ payments = rewardOut :: after ∧
      rewardOut.scriptPubKey = kernel.script ∧
      coinsValue (kernel :: added) + nStakeReward ≤ vaultOutput kernel.script rewardOut after := by
  rcases h.outs_eq with rfl | ⟨first, second, rfl, hsum, hbd⟩
  · exact ⟨_, payments, rfl, rfl, le_vaultOutput kernel.script _ payments⟩
  · obtain ⟨hfst, hsnd⟩ := hbd MIN_FOR_SPLITTING (by decide) hs
    refine ⟨_, _, rfl, rfl, ?_⟩
    have hboth : vaultOutput kernel.script ⟨first, kernel.script⟩
        (⟨second, kernel.script⟩ :: payments) = first + second :=
      if_pos ⟨hfst, hsnd, rfl⟩
    exact le_of_eq (hsum.symm.trans hboth.symm)

theorem Stake.script_all : ∀ coin ∈ kernel :: added, coin.script = kernel.script := by
  intro coin hcoin
  rcases mem_cons.mp hcoin with rfl | hcoin
  · rfl
  · exact h.script coin hcoin

theorem Stake.mem_all (hk : kernel ∈ creator.stakedCoins.asSet) :
    ∀ coin ∈ kernel :: added, coin ∈ creator.stakedCoins.asSet := by
  intro coin hcoin
  rcases mem_cons.mp hcoin with rfl | hcoin
  · exact hk
  · exact h.mem coin hcoin

theorem Stake.isCoinStake (hvin : tx.vin = (kernel :: added).map input)
    (hvout : tx.vout = CTxOut.empty :: (outs ++ payments)) : tx.isCoinStake = true := by
  have hnull : kernel.input.prevout.isNull = false := kernel.utxo_not_null
  rw [CTransaction.isCoinStake, hvin, hvout]
  rcases h.outs_eq with rfl | ⟨first, second, rfl, -⟩
  · simp [hnull, CTxOut.empty, CTxOut.isEmpty]
  · simp [hnull, CTxOut.empty, CTxOut.isEmpty]

end

/-- **A stake returns to its vault**, if it was taken from one. -/
theorem Stake.checkCoinstakeForVaults {stakesplitthreshold : Int}
    (h : creator.Stake (stakeSplitFor stakesplitthreshold isVaultScript) rewards.nStakeReward
      kernel added outs) (hsu : isSupportedScript kernel.script = some isVaultScript)
    (hvi : ∀ coin ∈ kernel :: added, view.getOutputFor coin.input = some coin.getTxOut)
    (hvin : tx.vin = (kernel :: added).map input)
    (hvout : tx.vout = CTxOut.empty :: (outs ++ payments))
    (hva : view.getValueIn tx = some (coinsValue (kernel :: added))) :
    Divi.checkCoinstakeForVaults tx rewards view = some true := by
  have hpay : InputsPay view kernel.script tx.vin := by
    rw [hvin]
    exact inputsPay_coins hvi h.script_all
  cases hv : Divi.isStakingVaultScript kernel.script with
  | false => exact checkCoinstakeForVaults_of_not_vault hv hpay rewards
  | true =>
    cases isVaultScript with
    | false =>
      rw [not_vault_of_isSupportedScript hsu] at hv
      cases hv
    | true =>
      have hs : 2 * MIN_FOR_SPLITTING ≤ stakeSplitFor stakesplitthreshold true :=
        le_max_of_le_right (by decide)
      obtain ⟨rewardOut, after, hout, hscr, hge⟩ := h.vaultOutput_ge hs payments
      rw [hout] at hvout
      exact (checkCoinstakeForVaults_iff hv
        (Stake.isCoinStake h hvin (hout ▸ hvout)) hpay hva rewards hvout).mpr ⟨hscr, hge⟩

end

/-- The transaction that is built, by its parts: the stake and the payments behind it. -/
theorem createProofOfStake_spec {block : CBlockIndex} {rest : BlockPointer}
    (htip : creator.incentives.PayableTip tip rest) (hblk : block.nHeight = tip.nHeight + 1)
    (hrew : creator.incentives.getBlockSubsidity (tip.nHeight + 1) = some rewards)
    (hmn : 0 ≤ rewards.nMasternodeReward) (hlot : 0 ≤ rewards.nLotteryReward)
    (hv : 0 < kernel.value) (hsu : isSupportedScript kernel.script = some isVaultScript)
    (txNew : CTransaction) :
    ∃ tx added outs payments, creator.createProofOfStake (tip :: rest) kernel txNew = some tx ∧
      tx.vin = (kernel :: added).map input ∧
      tx.vout = CTxOut.empty :: (outs ++ payments) ∧
      creator.Stake (stakeSplitFor creator.stakesplitthreshold isVaultScript)
        rewards.nStakeReward kernel added outs ∧
      rewards.nStakeReward + totalValue payments
        ≤ creator.incentives.expectedMintCombined rewards block.nHeight ∧
      creator.incentives.hasValidPayees tx (block :: tip :: rest) = some true := by
  obtain ⟨added, outs, hb, hs⟩ := creator.splitOrCombineUTXOS_spec
    (stakeSplitFor creator.stakesplitthreshold isVaultScript) hrew kernel txNew
  obtain ⟨payments, hfill, hcost, hp⟩ := fillBlockPayee_spec htip
    hblk hrew hmn hlot { txNew with
      vin := (kernel :: added).map input
      vout := CTxOut.empty :: outs }
  have hnz : ¬ kernel.value = 0 := by omega
  refine ⟨{ txNew with
      vin := (kernel :: added).map input
      vout := CTxOut.empty :: (outs ++ payments) },
    added, outs, payments, ?_, rfl, rfl, hs, ?_, ?_⟩
  · simp only [createProofOfStake, List.head?_cons, bind_eq_bind, bind_some,
      hsu, if_neg hnz, hb, appendBlockRewardPayoutsToTransaction, hrew]
    exact hfill
  · rw [hblk]
    exact hcost
  · refine hp _ ?_
    intro out hout
    exact mem_cons_of_mem _ (mem_append_right _ hout)

theorem getValueIn_coins (hvi : ∀ coin ∈ coins, view.getOutputFor coin.input = some coin.getTxOut)
    (hvin : tx.vin = coins.map input) (hs : tx.isCoinStake = true) :
    view.getValueIn tx = some (coinsValue coins) := by
  rw [CCoinsViewCache.getValueIn, coinstake_not_coinbase hs, hvin,
    mapM_getOutputFor_coins hvi, coinsValue]
  simp only [Bool.false_eq_true, if_false, Option.map_some, List.map_map]
  rfl

/--
**A coinstake that is built is accepted.**

On a tip that the next block can be built on, without subsidy sporks, the coinstake for
a kernel of the staked coins exists, mints no more than the block may, has valid payees,
returns a vault's stake, and spends at most the allowed number of different coins, all of
the kernel's script.
-/
theorem created_coinstake_accepted (creator : PoSTransactionCreator) (view : CCoinsViewCache)
    (tip block : CBlockIndex) (rest : BlockPointer) (kernel : StakableCoin) (txNew : CTransaction)
    (isVaultScript : Bool) (htip : creator.incentives.PayableTip tip rest)
    (hblk : block.nHeight = tip.nHeight + 1) (hsps : creator.incentives.sporks.Inactive)
    (hpow : 1 ≤ creator.incentives.chainParams.nLastPOWBlock)
    (hc : 0 ≤ creator.incentives.chainParams.nLotteryBlockCycle)
    (hview : ∀ coin ∈ creator.stakedCoins.asSet,
      view.getOutputFor coin.input = some coin.getTxOut)
    (hkernel : kernel ∈ creator.stakedCoins.asSet) (hv : 0 < kernel.value)
    (hsupported : isSupportedScript kernel.script = some isVaultScript) :
    ∃ rewards tx nValueIn,
      creator.incentives.getBlockSubsidity block.nHeight = some rewards ∧
      creator.createProofOfStake (tip :: rest) kernel txNew = some tx ∧
      view.getValueIn tx = some nValueIn ∧
      creator.incentives.isBlockValueValid rewards (totalValue tx.vout - nValueIn) block.nHeight
        = true ∧
      creator.incentives.hasValidPayees tx (block :: tip :: rest) = some true ∧
      checkCoinstakeForVaults tx rewards view = some true ∧
      (tx.vin.map CTxIn.prevout).Nodup ∧
      InputsPay view kernel.script tx.vin ∧
      tx.vin.length ≤ MAX_KERNEL_COMBINED_INPUTS := by
  have hhigh := htip.high
  obtain ⟨rewards, hrew, hmn, hlot⟩ :=
    CChainParams.getBlockSubsidity_inactive hsps hpow hc (by omega : 0 ≤ tip.nHeight + 1)
  obtain ⟨tx, added, outs, payments, hcr, hvin, hvout, hs, hcost, hp⟩ :=
    createProofOfStake_spec htip hblk hrew hmn hlot hv hsupported txNew
  have hviewAll : ∀ coin ∈ kernel :: added, view.getOutputFor coin.input = some coin.getTxOut :=
    fun coin hcoin => hview coin (hs.mem_all hkernel coin hcoin)
  have hin := getValueIn_coins hviewAll hvin (hs.isCoinStake hvin hvout)
  refine ⟨rewards, tx, coinsValue (kernel :: added), ?_, hcr, hin, ?_, hp,
    hs.checkCoinstakeForVaults hsupported hviewAll hvin hvout hin, ?_, ?_, ?_⟩
  · rw [hblk]
    exact hrew
  · have hout : totalValue tx.vout
        = coinsValue (kernel :: added) + rewards.nStakeReward + totalValue payments := by
      rw [hvout, totalValue_cons, totalValue_append, hs.totalValue_outs]
      exact Int.zero_add _
    have hmint : ¬ totalValue tx.vout - coinsValue (kernel :: added)
        > creator.incentives.expectedMintCombined rewards block.nHeight := by
      omega
    simp only [isBlockValueValid, hmint, decide_false, Bool.not_false]
  · rw [hvin, List.map_map]
    exact hs.nodup
  · rw [hvin]
    exact inputsPay_coins hviewAll hs.script_all
  · rw [hvin, length_map]
    exact hs.size

/-! ### A vault that is split on the main network -/

/-- A chain of the given length, whose blocks are named by their height. -/
def heightChain : Nat → BlockPointer
  | 0 => []
  | n + 1 => { phashBlock := BitVec.ofNat 256 n, nHeight := n } :: heightChain n

theorem heightChain_length (n : Nat) : (heightChain n).length = n := by
  induction n with
  | zero => rfl
  | succ n ih => rw [heightChain, length_cons, ih]

theorem heightChain_heightsOK (n : Nat) : BlockPointer.HeightsOK (heightChain n) := by
  induction n with
  | zero => trivial
  | succ n ih =>
    refine ⟨?_, ih⟩
    rw [heightChain_length]

/-- A transaction with two outputs to a vault. -/
def vaultFunding : CTransaction where
  hash := 7
  vin := []
  vout := [⟨30000 * COIN, BlockIncentivesPopulator.exampleVault⟩,
    ⟨5 * COIN, BlockIncentivesPopulator.exampleVault⟩]

def vaultCoin : StakableCoin where
  tx := vaultFunding
  utxo := ⟨7, 0⟩
  hash_eq := rfl
  inRange := by decide
  size_lt := by decide

/-- Seven votes for one payee of the block above height 101, and one for another. -/
def votedPayments : CMasternodePayments where
  mapMasternodeBlocks := Finmap.singleton 1
    { nBlockHeight := 102, vecPayments := [⟨[0x51], 7⟩, ⟨[0x52], 1⟩] }

def vaultCreator : PoSTransactionCreator where
  incentives := { BlockIncentivesPopulator.mainPopulator with masternodePayments := votedPayments }
  stakedCoins := { asSet := [vaultCoin], nodup := by decide }
  sorting := SortBy.insertion StakableCoin.value

def vaultView : CCoinsViewCache where
  cacheCoins := Finmap.singleton 7 { vout := vaultFunding.vout, nHeight := 1 }

theorem vaultCreator_payableTip :
    vaultCreator.incentives.PayableTip { phashBlock := 101, nHeight := 101 } (heightChain 101) where
  heights := heightChain_heightsOK 102
  high := le_refl _
  winners := by decide
  votes := by
    intro seedHash payees hseed hp
    have hone : getBlockHashForScoring (heightChain 102) 1 = some 1 := by decide +kernel
    obtain rfl := Option.some.inj (hone.symm.trans hseed)
    obtain rfl := Option.some.inj (Finmap.lookup_singleton_eq.symm.trans hp)
    rfl

theorem created_coinstake_accepted_vault :
    ∃ rewards tx nValueIn,
      vaultCreator.incentives.getBlockSubsidity 102 = some rewards ∧
      vaultCreator.createProofOfStake (heightChain 102) vaultCoin vaultFunding = some tx ∧
      vaultView.getValueIn tx = some nValueIn ∧
      vaultCreator.incentives.isBlockValueValid rewards (totalValue tx.vout - nValueIn) 102
        = true ∧
      vaultCreator.incentives.hasValidPayees tx ({ phashBlock := 102, nHeight := 102 } ::
        heightChain 102) = some true ∧
      checkCoinstakeForVaults tx rewards vaultView = some true ∧
      (tx.vin.map CTxIn.prevout).Nodup ∧
      InputsPay vaultView vaultCoin.script tx.vin ∧
      tx.vin.length ≤ MAX_KERNEL_COMBINED_INPUTS := by
  refine created_coinstake_accepted vaultCreator vaultView { phashBlock := 101, nHeight := 101 }
    { phashBlock := 102, nHeight := 102 } (heightChain 101) vaultCoin vaultFunding true
    vaultCreator_payableTip rfl ⟨rfl, rfl⟩ (by decide) (by decide) ?_ (mem_singleton.mpr rfl)
    (by decide) (by decide)
  intro coin hcoin
  obtain rfl := mem_singleton.mp hcoin
  rfl

end PoSTransactionCreator

end Divi
