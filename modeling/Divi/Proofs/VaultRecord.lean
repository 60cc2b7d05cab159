/-
The record of the vault manager, and the coins it offers.

A transaction that is recorded with a block of the active chain is confirmed, and one that is
recorded without a block is at best in the memory pool.  The coins are gone through in the order
of their outpoints, so that an output is returned exactly if its script has fewer eligible coins
before it than the limit.  One more transaction in the record adds its outputs to what is offered
and takes away what it spends: `Adds`.
-/
import Divi.Proofs.BlockMerkleTree
import Divi.Proofs.VaultCoins

namespace Divi

open List Option

/-! ### Confirmations -/

/-- The block is in the active chain, and its index entry has its Merkle root. -/
structure ChainContext.HasBlock (ctx : ChainContext) (block : CBlock) : Prop where
  hash_ne_zero : block.hash ≠ 0
  indexed : ∃ pindex pprev, ctx.blockIndices.lookup block.hash = some (pindex :: pprev) ∧
    pindex.phashBlock = block.hash ∧ ctx.activeChain.contains (pindex :: pprev) = true
  merkleRoot : ctx.hashMerkleRoot block.hash = block.buildMerkleTree ctx.hashes.merkleHash

namespace CMerkleTx

variable {ctx : ChainContext} {tx : CTransaction} {block : CBlock}

theorem height_of_contains {chain : CChain} {pindex : CBlockIndex} {pprev : BlockPointer}
    (h : chain.contains (pindex :: pprev) = true) : pindex.nHeight ≤ chain.height := by
  have hat : chain.atHeight pindex.nHeight = pindex :: pprev := eq_of_beq h
  unfold CChain.atHeight at hat
  split at hat
  next => cases hat
  next hr =>
    unfold CChain.height
    omega

/-- A transaction that comes with a block of the active chain is confirmed. -/
theorem confirmed_of_hasBlock (hblk : ctx.HasBlock block) (htx : tx ∈ block.vtx) :
    1 ≤ (setMerkleBranch { tx := tx } ctx.hashes block).getNumberOfBlockConfirmations ctx := by
  obtain ⟨pindex, pprev, hget, -, hmem⟩ := hblk.indexed
  have hht := height_of_contains hmem
  have hf : (block.vtx.findIdx? fun other => other.hash = tx.hash).isSome := by
    rw [List.findIdx?_isSome, List.any_eq_true]
    exact ⟨tx, htx, by simp⟩
  obtain ⟨i, hi⟩ := isSome_iff_exists.mp hf
  obtain ⟨hlt, hh, -⟩ := List.findIdx?_eq_some_iff_getElem.mp hi
  have hb : setMerkleBranch { tx := tx } ctx.hashes block =
      { tx := tx
        hashBlock := block.hash
        vMerkleBranch := block.getMerkleBranch ctx.hashes.merkleHash i
        nIndex := i } := by
    simp only [setMerkleBranch, hi]
  have hroot : CBlock.checkMerkleBranch ctx.hashes.merkleHash tx.hash
      (block.getMerkleBranch ctx.hashes.merkleHash i) i = ctx.hashMerkleRoot block.hash := by
    rw [← of_decide_eq_true hh, CBlock.checkMerkleBranch_getMerkleBranch _ hlt, hblk.merkleRoot]
  have hint : getNumberOfBlockConfirmationsINTERNAL
      (setMerkleBranch { tx := tx } ctx.hashes block) ctx =
        ctx.activeChain.height - pindex.nHeight + 1 := by
    have hk : ¬ (block.hash = 0 ∨ (i : Int) = -1) := not_or.mpr ⟨hblk.hash_ne_zero, by omega⟩
    rw [hb, getNumberOfBlockConfirmationsINTERNAL, if_neg hk]
    simp [hget, hmem, hroot]
  unfold getNumberOfBlockConfirmations
  simp only
  split
  next hzero => omega
  next => omega

/-- A transaction that comes without a block is at best in the memory pool. -/
theorem confirmations_of_unconfirmed :
    ({ tx := tx } : CMerkleTx).getNumberOfBlockConfirmations ctx =
      if ctx.inMempool tx.hash then 0 else -1 := by
  have hi : ({ tx := tx } : CMerkleTx).getNumberOfBlockConfirmationsINTERNAL ctx = 0 := by
    simp [getNumberOfBlockConfirmationsINTERNAL]
  unfold getNumberOfBlockConfirmations
  rw [hi]
  cases ctx.inMempool tx.hash with
  | true => simp
  | false => simp

end CMerkleTx

namespace VaultManager

variable {mgr mgr' : VaultManager} {ctx : ChainContext}

/-! ### The coins of a record -/

/-- The recorded transaction with a hash. -/
def txAt (mgr : VaultManager) (hash : uint256) : Option CTransaction :=
  (mgr.tracker.merkleTxAt hash).map CMerkleTx.tx

/-- All recorded outputs, in the order of the record. -/
def recordedCoins (mgr : VaultManager) : List Coin :=
  mgr.mapWallet.toList.flatMap outputsOf

/-- A recorded output is offered by the loops. -/
def offers (mgr : VaultManager) (ctx : ChainContext) (coin : Coin) : Bool :=
  match mgr.tracker.merkleTxAt coin.1.hash with
  | none => false
  | some mtx => !isSkipped ctx { toCMerkleTx := mtx } &&
      !mgr.tracker.isSpent ctx coin.1.hash coin.1.n

theorem merkleTxAt_of_mem_toList {entry : uint256 × CWalletTx}
    (he : entry ∈ mgr.mapWallet.toList) :
    mgr.tracker.merkleTxAt entry.1 = some entry.2.toCMerkleTx := by
  have hat : mgr.mapWallet[entry.1]? = some entry.2 :=
    Std.TreeMap.mem_toList_iff_getElem?_eq_some.mp he
  exact congrArg (Option.map CWalletTx.toCMerkleTx) hat

theorem flatMap_offered_eq :
    mgr.mapWallet.toList.flatMap (mgr.offered ctx) =
      mgr.recordedCoins.filter (mgr.offers ctx) := by
  rw [recordedCoins, filter_flatMap]
  refine flatMap_congr fun entry he => ?_
  have ho : ∀ coin ∈ outputsOf entry, mgr.offers ctx coin =
      (!isSkipped ctx entry.2 && !mgr.tracker.isSpent ctx coin.1.hash coin.1.n) := by
    intro coin hcoin
    unfold offers
    rw [(mem_outputsOf.mp hcoin).1, merkleTxAt_of_mem_toList he]
    rfl
  rw [filter_congr ho, offered]
  cases isSkipped ctx entry.2 with
  | true => simp
  | false => simp

theorem mem_keys_iff {hash : uint256} :
    hash ∈ mgr.mapWallet.keys ↔ (mgr.txAt hash).isSome := by
  rw [Std.TreeMap.mem_keys, Std.TreeMap.mem_iff_contains, mapWallet,
    WalletTransactionRecord.contains_iff, txAt, isSome_map]
  rfl

/-- The outputs of a recorded transaction. -/
def coinsAt (mgr : VaultManager) (hash : uint256) : List Coin :=
  match mgr.txAt hash with
  | none => []
  | some tx => outputsOf (hash, { tx := tx })

theorem recordedCoins_eq : mgr.recordedCoins = mgr.mapWallet.keys.flatMap mgr.coinsAt := by
  rw [← Std.TreeMap.map_fst_toList_eq_keys, flatMap_map, recordedCoins]
  refine flatMap_congr fun entry he => ?_
  simp only [coinsAt, txAt, merkleTxAt_of_mem_toList he, map_some]
  rfl

/-- A record that has some of the transactions of another one. -/
theorem recordedCoins_filter {p : uint256 → Bool}
    (h : ∀ hash, mgr.txAt hash = if p hash then mgr'.txAt hash else none) :
    mgr.recordedCoins = mgr'.recordedCoins.filter fun coin => p coin.1.hash := by
  have hkeys : mgr.mapWallet.keys = mgr'.mapWallet.keys.filter p := by
    have : Std.Antisymm fun a b : uint256 => compare a b = .lt :=
      ⟨fun a b hab hba => absurd hba (Std.OrientedCmp.not_lt_of_lt hab)⟩
    have : Std.Irrefl fun a b : uint256 => compare a b = .lt := ⟨fun a haa => by simp at haa⟩
    refine List.Pairwise.eq_of_mem_iff Std.TreeMap.ordered_keys
      (Std.TreeMap.ordered_keys.filter p) fun hash => ?_
    rw [mem_filter, mem_keys_iff, mem_keys_iff, h hash]
    cases p hash with
    | true => simp
    | false => simp
  rw [recordedCoins_eq, recordedCoins_eq, hkeys, filter_flatMap]
  induction mgr'.mapWallet.keys with
  | nil => rfl
  | cons hash keys ih =>
    have hmine : ∀ coin ∈ mgr'.coinsAt hash, coin.1.hash = hash := by
      intro coin hcoin
      unfold coinsAt at hcoin
      split at hcoin
      next => cases hcoin
      next => exact (mem_outputsOf.mp hcoin).1
    rw [flatMap_cons, ← ih]
    cases hp : p hash with
    | true =>
      have hall : (mgr'.coinsAt hash).filter (fun coin => p coin.1.hash) =
          mgr'.coinsAt hash :=
        filter_eq_self.mpr fun coin hcoin => by rw [hmine coin hcoin, hp]
      have hs : mgr.coinsAt hash = mgr'.coinsAt hash := by
        simp [coinsAt, h hash, hp]
      rw [filter_cons_of_pos hp, flatMap_cons, hall, hs]
    | false =>
      have hn : (mgr'.coinsAt hash).filter (fun coin => p coin.1.hash) = [] :=
        filter_eq_nil_iff.mpr fun coin hcoin => by rw [hmine coin hcoin, hp]; simp
      rw [filter_cons_of_neg (by simp [hp]), hn, nil_append]

/-! ### The order of the coins -/

/-- The order of outpoints, which is the one in which the loops go through them. -/
def Before (outpoint other : COutPoint) : Prop :=
  outpoint.hash < other.hash ∨ outpoint.hash = other.hash ∧ outpoint.n < other.n
  deriving Decidable

theorem Before.asymm {outpoint other : COutPoint} (h : Before outpoint other) :
    ¬ Before other outpoint := by
  intro h'
  obtain hlt | ⟨heq, hlt⟩ := h
  · obtain hlt' | ⟨heq', -⟩ := h'
    · exact BitVec.lt_asymm hlt hlt'
    · exact BitVec.lt_irrefl _ (heq' ▸ hlt)
  · obtain hlt' | ⟨-, hlt'⟩ := h'
    · exact BitVec.lt_irrefl _ (heq ▸ hlt')
    · omega

theorem pairwise_recordedCoins :
    mgr.recordedCoins.Pairwise fun coin other => Before coin.1 other.1 := by
  rw [recordedCoins, pairwise_flatMap]
  constructor
  · intro entry _
    unfold outputsOf
    rw [pairwise_map]
    have hpos : (entry.2.tx.vout.zipIdx.map Prod.snd).Pairwise (· < ·) := by
      rw [zipIdx_map_snd]
      exact pairwise_lt_range' 1
    exact (pairwise_map.mp hpos).imp fun hlt => .inr ⟨rfl, hlt⟩
  · refine Std.TreeMap.ordered_keys_toList.imp fun hlt coin hcoin other ho => .inl ?_
    rw [(mem_outputsOf.mp hcoin).1, (mem_outputsOf.mp ho).1]
    exact compareOfLessAndEq_eq_lt.mp hlt

/-- The outputs that are offered. -/
def offeredCoins (mgr : VaultManager) (ctx : ChainContext) : List Coin :=
  mgr.recordedCoins.filter (mgr.offers ctx)

theorem getUTXOs_eq :
    mgr.getUTXOs ctx = ((Quotas.takeWithin Prod.snd (quotas mgr.managedScriptsLimits)
        (mgr.offeredCoins ctx)).map Prod.fst).toFinset := by
  rw [offeredCoins, ← flatMap_offered_eq]
  exact collected_eq _

theorem mem_offeredCoins {coin : Coin} :
    coin ∈ mgr.offeredCoins ctx ↔ coin.1 ∈ mgr.eligibleFor ctx coin.2 := by
  rw [offeredCoins, ← flatMap_offered_eq]
  exact mem_offered_iff (List.Perm.refl _)

theorem nodup_offeredCoins : ((mgr.offeredCoins ctx).map Prod.fst).Nodup := by
  rw [offeredCoins, ← flatMap_offered_eq]
  exact nodup_offered (List.Perm.refl _)

/-- The coins of a script that come first and have a property. -/
theorem countP_offeredCoins {q : COutPoint → Prop} [DecidablePred q] (script : CScript) :
    (mgr.offeredCoins ctx).countP (fun coin => q coin.1 ∧ coin.2 = script) =
      Set.ncard { outpoint ∈ mgr.eligibleFor ctx script | q outpoint } := by
  have hset : { outpoint ∈ mgr.eligibleFor ctx script | q outpoint } =
      { outpoint | (outpoint, script) ∈ (mgr.offeredCoins ctx).filter fun coin => q coin.1 } := by
    ext outpoint
    simp [mem_filter, mem_offeredCoins]
  rw [hset, ncard_coins (nodup_offeredCoins.sublist (filter_sublist.map _)), countP_filter]
  refine countP_congr fun coin _ => ?_
  simp [and_comm]

/-! ### A new transaction in the record -/

/-- The manager has one more transaction than before. -/
structure Adds (mgr mgr' : VaultManager) (mtx : CMerkleTx) : Prop where
  sound : mgr.tracker.Sound
  sound' : mgr'.tracker.Sound
  limits : mgr'.managedScriptsLimits = mgr.managedScriptsLimits
  isNew : mgr.tracker.merkleTxAt mtx.tx.hash = none
  added : mgr'.tracker.merkleTxAt =
    Function.update mgr.tracker.merkleTxAt mtx.tx.hash (some mtx)

namespace Adds

variable {mtx : CMerkleTx} (h : mgr.Adds mgr' mtx)

include h

theorem txAt_eq :
    mgr'.txAt = Function.update mgr.txAt mtx.tx.hash (some mtx.tx) := by
  funext hash
  unfold txAt
  rw [h.added]
  by_cases hh : hash = mtx.tx.hash
  · simp [hh]
  · simp [hh]

theorem recordedCoins_eq_filter :
    mgr.recordedCoins =
      mgr'.recordedCoins.filter fun coin => coin.1.hash ≠ mtx.tx.hash := by
  refine recordedCoins_filter (p := fun hash => decide (hash ≠ mtx.tx.hash)) fun hash => ?_
  rw [h.txAt_eq]
  by_cases hh : hash = mtx.tx.hash
  · simp [hh, txAt, h.isNew]
  · simp [hh]

theorem isSpent_iff {hash : uint256} {n : Nat} : mgr'.tracker.isSpent ctx hash n = true ↔
      mgr.tracker.isSpent ctx hash n = true ∨
        mtx.tx.Spends ⟨hash, n⟩ ∧ 0 ≤ mtx.getNumberOfBlockConfirmations ctx := by
  rw [h.sound.isSpent_iff, h.sound'.isSpent_iff, h.added]
  constructor
  · intro ⟨wtxid, other, hat, hsp⟩
    by_cases hh : wtxid = mtx.tx.hash
    · rw [hh, Function.update_self] at hat
      exact .inr (Option.some.inj hat ▸ hsp)
    · rw [Function.update_of_ne hh] at hat
      exact .inl ⟨wtxid, other, hat, hsp⟩
  · intro hs
    obtain ⟨wtxid, other, hat, hsp⟩ | hsp := hs
    · have hh : wtxid ≠ mtx.tx.hash := by
        intro heq
        rw [heq, h.isNew] at hat
        cases hat
      exact ⟨wtxid, other, by rw [Function.update_of_ne hh]; exact hat, hsp⟩
    · exact ⟨mtx.tx.hash, mtx, Function.update_self .., hsp⟩

theorem offers_iff_of_ne {coin : Coin} (hne : coin.1.hash ≠ mtx.tx.hash) :
    mgr'.offers ctx coin = true ↔
      mgr.offers ctx coin = true ∧
        ¬ (mtx.tx.Spends coin.1 ∧ 0 ≤ mtx.getNumberOfBlockConfirmations ctx) := by
  have hsp := @isSpent_iff _ _ ctx _ h coin.1.hash coin.1.n
  unfold offers
  rw [h.added, Function.update_of_ne hne]
  cases mgr.tracker.merkleTxAt coin.1.hash with
  | none => simp
  | some other =>
    simp [← Bool.not_eq_true, hsp, and_assoc]

theorem not_offers_of_spends {coin : Coin} (hs : mtx.tx.Spends coin.1)
    (hconf : 0 ≤ mtx.getNumberOfBlockConfirmations ctx) :
    mgr'.offers ctx coin = false := by
  have hsp : mgr'.tracker.isSpent ctx coin.1.hash coin.1.n = true :=
    h.isSpent_iff.mpr (.inr ⟨hs, hconf⟩)
  unfold offers
  split
  next => rfl
  next => simp [hsp]

theorem not_offers_own_of_unconfirmed {coin : Coin} (hown : coin.1.hash = mtx.tx.hash)
    (hu : mtx.getNumberOfBlockConfirmations ctx < 1) :
    mgr'.offers ctx coin = false := by
  unfold offers
  rw [h.added, hown, Function.update_self]
  simp [isSkipped, hu]

end Adds

theorem mem_getUTXOs {outpoint : COutPoint} (hmem : outpoint ∈ mgr.getUTXOs ctx) :
    ∃ coin, coin.1 = outpoint ∧ coin ∈ mgr.recordedCoins ∧ mgr.offers ctx coin = true := by
  rw [getUTXOs_eq] at hmem
  obtain ⟨coin, hcoin, hfst⟩ := mem_map.mp (mem_toFinset.mp hmem)
  exact ⟨coin, hfst, mem_filter.mp ((Quotas.takeWithin_sublist _ _).subset hcoin)⟩

/-- Outputs that are not returned can be left out. -/
theorem getUTXOs_eq_filter {p : Coin → Bool}
    (h : ∀ coin : Coin, coin.1 ∈ mgr.getUTXOs ctx → p coin = true) :
    mgr.getUTXOs ctx = ((Quotas.takeWithin Prod.snd (quotas mgr.managedScriptsLimits)
        ((mgr.offeredCoins ctx).filter p)).map Prod.fst).toFinset := by
  have ht : ∀ coin ∈ Quotas.takeWithin Prod.snd (quotas mgr.managedScriptsLimits)
      (mgr.offeredCoins ctx), p coin = true := by
    intro coin hcoin
    refine h coin ?_
    rw [getUTXOs_eq]
    exact mem_toFinset.mpr (mem_map_of_mem hcoin)
  rw [Quotas.takeWithin_filter ht]
  exact getUTXOs_eq

/-! ### Coins beyond the limits -/

theorem pairwise_offeredCoins :
    (mgr.offeredCoins ctx).Pairwise fun coin other => Before coin.1 other.1 :=
  pairwise_recordedCoins.filter _

/-- None of some outputs is returned if the limit of each is used up before. -/
theorem forall_not_returned_iff {p before : COutPoint → Prop}
    (hpre : ∀ outpoint, p outpoint → ∀ other, before other → Before other outpoint)
    (hnot : ∀ outpoint, p outpoint → ∀ other, Before other outpoint → ¬ p other → before other) :
    (∀ outpoint ∈ mgr.getUTXOs ctx, ¬ p outpoint) ↔
      ∀ script limit, mgr.managedScriptsLimits[script]? = some limit →
        ∀ outpoint ∈ mgr.eligibleFor ctx script, p outpoint →
          limit ≤ Set.ncard { other ∈ mgr.eligibleFor ctx script | before other } := by
  classical
  simp only [getUTXOs_eq, List.mem_toFinset, List.mem_map, forall_exists_index, and_imp,
    forall_apply_eq_imp_iff₂]
  rw [Quotas.forall_not_taken_iff (p := fun coin : Coin => p coin.1)
    (R := fun coin other : Coin => Before coin.1 other.1) Before.asymm pairwise_offeredCoins
    (fun coin hp other hb => hpre coin.1 hp other.1 hb)
    (fun coin hp other hR hnp => hnot coin.1 hp other.1 hR hnp)]
  simp only [countP_offeredCoins]
  constructor
  · intro h script limit hlim outpoint helig hp
    have hle := h (outpoint, script) (mem_offeredCoins.mpr helig) hp
    rwa [quotas, hlim] at hle
  · intro h coin hcoin hp
    unfold quotas
    cases hlim : mgr.managedScriptsLimits[coin.2]? with
    | none => exact Nat.zero_le _
    | some limit => exact h coin.2 limit hlim coin.1 (mem_offeredCoins.mp hcoin) hp

/-- The coins that the transaction spends are beyond the limits of their scripts. -/
def SpendsBeyondLimits (mgr : VaultManager) (ctx : ChainContext) (tx : CTransaction) : Prop :=
  ∀ outpoint script limit, tx.Spends outpoint → outpoint ∈ mgr.eligibleFor ctx script →
    mgr.managedScriptsLimits[script]? = some limit →
    limit ≤ Set.ncard { other ∈ mgr.eligibleFor ctx script | Before other outpoint }

theorem forall_not_spends_iff {tx : CTransaction} :
    (∀ outpoint ∈ mgr.getUTXOs ctx, ¬ tx.Spends outpoint) ↔
      mgr.SpendsBeyondLimits ctx tx := by
  have hone : ∀ outpoint, outpoint ∉ mgr.getUTXOs ctx ↔
      ∀ script limit, mgr.managedScriptsLimits[script]? = some limit →
        outpoint ∈ mgr.eligibleFor ctx script →
          limit ≤ Set.ncard { other ∈ mgr.eligibleFor ctx script | Before other outpoint } := by
    intro outpoint
    have h := @forall_not_returned_iff mgr ctx (· = outpoint) (Before · outpoint)
      (fun _ heq other ho => heq ▸ ho) (fun _ heq other ho _ => heq ▸ ho)
    constructor
    · intro hnot script limit hlim helig
      exact h.mp (fun other hmem heq => hnot (heq ▸ hmem)) script limit hlim outpoint helig rfl
    · intro hb hmem
      refine h.mpr (fun script limit hlim other helig heq => ?_) outpoint hmem rfl
      exact hb script limit hlim (heq ▸ helig)
  constructor
  · intro h outpoint script limit hsp helig hlim
    exact (hone outpoint).mp (fun hmem => h outpoint hmem hsp) script limit hlim helig
  · intro h outpoint hmem hsp
    refine (hone outpoint).mpr (fun script limit hlim helig => ?_) hmem
    exact h outpoint script limit hsp helig hlim

/-- With its block the transaction is immature, or its outputs are spent or beyond the limits of
their scripts. -/
def OutputsBeyondLimits (mgr : VaultManager) (ctx : ChainContext) (mtx : CMerkleTx) :
    Prop :=
  0 < mtx.getBlocksToMaturity ctx ∨
    ∀ n output limit, mtx.tx.vout[n]? = some output →
      mgr.tracker.isSpent ctx mtx.tx.hash n = false →
      ¬ mtx.tx.Spends ⟨mtx.tx.hash, n⟩ →
      mgr.managedScriptsLimits[output.scriptPubKey]? = some limit →
      limit ≤ Set.ncard { other ∈ mgr.eligibleFor ctx output.scriptPubKey |
        other.hash < mtx.tx.hash ∧ ¬ mtx.tx.Spends other }

namespace Adds

variable {mtx : CMerkleTx} (h : mgr.Adds mgr' mtx)
  (hconf : 1 ≤ mtx.getNumberOfBlockConfirmations ctx)

include h hconf

theorem mem_eligibleFor_of_ne {outpoint : COutPoint} (hne : outpoint.hash ≠ mtx.tx.hash)
    (script : CScript) :
    outpoint ∈ mgr'.eligibleFor ctx script ↔
      outpoint ∈ mgr.eligibleFor ctx script ∧ ¬ mtx.tx.Spends outpoint := by
  have hrec : (outpoint, script) ∈ mgr'.recordedCoins ↔
      (outpoint, script) ∈ mgr.recordedCoins := by
    rw [h.recordedCoins_eq_filter]
    simp [hne]
  have hpos : 0 ≤ mtx.getNumberOfBlockConfirmations ctx := by omega
  rw [← @mem_offeredCoins mgr' ctx (outpoint, script),
    ← @mem_offeredCoins mgr ctx (outpoint, script), offeredCoins, offeredCoins, mem_filter,
    mem_filter, hrec, @offers_iff_of_ne _ _ ctx _ h (outpoint, script) hne]
  simp [hpos, and_assoc]

theorem mem_eligibleFor_own {n : Nat} (script : CScript) :
    ⟨mtx.tx.hash, n⟩ ∈ mgr'.eligibleFor ctx script ↔
      ¬ 0 < mtx.getBlocksToMaturity ctx ∧
      ∃ output, mtx.tx.vout[n]? = some output ∧
        mgr.tracker.isSpent ctx mtx.tx.hash n = false ∧
        ¬ mtx.tx.Spends ⟨mtx.tx.hash, n⟩ ∧ output.scriptPubKey = script := by
  have hsp : mgr'.tracker.isSpent ctx mtx.tx.hash n = false ↔
      mgr.tracker.isSpent ctx mtx.tx.hash n = false ∧
        ¬ mtx.tx.Spends ⟨mtx.tx.hash, n⟩ := by
    have hpos : 0 ≤ mtx.getNumberOfBlockConfirmations ctx := by omega
    rw [← Bool.not_eq_true, h.isSpent_iff, not_or, Bool.not_eq_true]
    simp [hpos]
  have hat : mgr'.tracker.merkleTxAt mtx.tx.hash = some mtx := by
    rw [h.added, Function.update_self]
  obtain ⟨own, hown, hme⟩ := map_eq_some_iff.mp hat
  have hma : ((mtx.tx.isCoinBase ∨ mtx.tx.isCoinStake) ∧
      0 < mtx.getBlocksToMaturity ctx) ↔ 0 < mtx.getBlocksToMaturity ctx := by
    refine and_iff_right_of_imp fun hpos => ?_
    unfold CMerkleTx.getBlocksToMaturity at hpos
    split at hpos
    next => omega
    next hkind =>
      rw [Bool.not_eq_true', Bool.not_eq_false, Bool.or_eq_true] at hkind
      exact hkind
  constructor
  · intro ⟨output, ⟨⟨wtx, hwtx, hvout, _, hm⟩, hun⟩, hscr⟩
    obtain rfl : own = wtx := Option.some.inj (hown.symm.trans hwtx)
    rw [hme] at hvout hm
    exact ⟨mt hma.mpr hm, output, hvout, (hsp.mp hun).1, (hsp.mp hun).2,
      hscr⟩
  · intro ⟨hm, output, hvout, hun, hnot, hscr⟩
    refine ⟨output, ⟨⟨own, hown, ?_⟩, hsp.mpr ⟨hun, hnot⟩⟩, hscr⟩
    rw [hme]
    exact ⟨hvout, hconf, mt hma.mp hm⟩

theorem forall_not_own_iff :
    (∀ outpoint ∈ mgr'.getUTXOs ctx, outpoint.hash ≠ mtx.tx.hash) ↔
      mgr.OutputsBeyondLimits ctx mtx := by
  have hret := @forall_not_returned_iff mgr' ctx (fun outpoint =>
      outpoint.hash = mtx.tx.hash) (fun outpoint => outpoint.hash < mtx.tx.hash)
    (fun outpoint hown other hlt => .inl (hown ▸ hlt))
    (fun outpoint hown other hpre ho =>
      hpre.elim (fun hlt => hown ▸ hlt) fun heq => absurd (heq.1.trans hown) ho)
  have hpre : ∀ script, { other ∈ mgr'.eligibleFor ctx script |
        other.hash < mtx.tx.hash } =
      { other ∈ mgr.eligibleFor ctx script |
        other.hash < mtx.tx.hash ∧ ¬ mtx.tx.Spends other } := by
    intro script
    ext other
    constructor
    · intro ⟨helig, hlt⟩
      have hne : other.hash ≠ mtx.tx.hash := fun heq => BitVec.lt_irrefl _ (heq ▸ hlt)
      obtain ⟨hold, hnot⟩ := (h.mem_eligibleFor_of_ne hconf hne script).mp helig
      exact ⟨hold, hlt, hnot⟩
    · intro ⟨hold, hlt, hnot⟩
      have hne : other.hash ≠ mtx.tx.hash := fun heq => BitVec.lt_irrefl _ (heq ▸ hlt)
      exact ⟨(h.mem_eligibleFor_of_ne hconf hne script).mpr ⟨hold, hnot⟩, hlt⟩
  rw [hret, h.limits]
  simp only [hpre]
  constructor
  · intro hb
    by_cases himm : 0 < mtx.getBlocksToMaturity ctx
    · exact .inl himm
    · refine .inr fun n output limit hvout hun hnot hlim => ?_
      refine hb _ limit hlim ⟨mtx.tx.hash, n⟩ ?_ rfl
      exact (h.mem_eligibleFor_own hconf _).mpr ⟨himm, output, hvout, hun, hnot, rfl⟩
  · intro hb script limit hlim outpoint helig hown
    have hs : outpoint = ⟨mtx.tx.hash, outpoint.n⟩ := by rw [← hown]
    rw [hs, h.mem_eligibleFor_own hconf] at helig
    obtain ⟨himm, output, hvout, hun, hnot, rfl⟩ := helig
    exact (hb.resolve_left himm) _ output limit hvout hun hnot hlim

end Adds

end VaultManager

end Divi
