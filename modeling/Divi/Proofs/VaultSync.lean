/-
What the vault manager learns from the transactions it is told about.

A transaction is recorded once, with the block of the call that records it.  Recorded with a
block of the active chain it is confirmed, and what it spends is not returned any more.  Recorded
without a block it stays unconfirmed, also when it is synchronised with its block later.  A
transaction without an output to a managed script is not recorded at all, whatever it spends.
-/
import Divi.Proofs.VaultRecord

namespace Divi

open SpentOutputTracker List Option

variable {after : VaultManager} {tx : CTransaction} {mtx : CMerkleTx} {hashes : WalletHashes}
  {event : VaultCall} {calls : List VaultCall}

/-- The transaction and the block of a call. -/
def VaultCall.synchronised : VaultCall → Option (CTransaction × Option CBlock)
  | .addManagedScript _ _ => none
  | .syncTransaction tx pblock _ => some (tx, pblock)

namespace VaultManager

variable {mgr : VaultManager} {ctx : ChainContext}

/-! ### The same transaction with and without its block -/

section SeenTwice

variable {seen : VaultManager} (hseen : mgr.Adds seen { tx := tx })
  (ha : mgr.Adds after mtx) (htx : mtx.tx = tx)

include hseen

section

include ha htx

theorem recordedCoins_seen : seen.recordedCoins = after.recordedCoins := by
  have h : seen.recordedCoins = after.recordedCoins.filter fun _ => true := by
    refine recordedCoins_filter (p := fun _ => true) fun hash => ?_
    rw [hseen.txAt_eq, ha.txAt_eq, htx]
    rfl
  rw [h, filter_true]

/-- The coins differ in the outputs of the transaction and in what it spends. -/
theorem getUTXOs_seen_iff (hconf : 1 ≤ mtx.getNumberOfBlockConfirmations ctx) :
    seen.getUTXOs ctx = after.getUTXOs ctx ↔
      (∀ outpoint ∈ after.getUTXOs ctx, outpoint.hash ≠ tx.hash) ∧
        ∀ outpoint ∈ seen.getUTXOs ctx, ¬ tx.Spends outpoint := by
  have hu : ({ tx := tx } : CMerkleTx).getNumberOfBlockConfirmations ctx < 1 := by
    rw [CMerkleTx.confirmations_of_unconfirmed]
    split
    next => decide
    next => decide
  have hown : ∀ outpoint ∈ seen.getUTXOs ctx, outpoint.hash ≠ tx.hash := by
    intro outpoint hmem heq
    obtain ⟨coin, rfl, -, hof⟩ := mem_getUTXOs hmem
    rw [hseen.not_offers_own_of_unconfirmed heq hu] at hof
    cases hof
  have hsp : ∀ outpoint ∈ after.getUTXOs ctx, ¬ tx.Spends outpoint := by
    intro outpoint hmem hs
    obtain ⟨coin, rfl, -, hof⟩ := mem_getUTXOs hmem
    rw [ha.not_offers_of_spends (htx ▸ hs) (by omega)] at hof
    cases hof
  constructor
  · intro heq
    exact ⟨heq ▸ hown, heq ▸ hsp⟩
  · intro ⟨hown', hsp'⟩
    classical
    -- both take the same from what is neither an output nor an input of the transaction
    rw [@getUTXOs_eq_filter seen ctx (fun coin => coin.1.hash ≠ tx.hash ∧ ¬ tx.Spends coin.1)
        fun coin hcoin => decide_eq_true ⟨hown _ hcoin, hsp' _ hcoin⟩,
      @getUTXOs_eq_filter after ctx (fun coin => coin.1.hash ≠ tx.hash ∧ ¬ tx.Spends coin.1)
        fun coin hcoin => decide_eq_true ⟨hown' _ hcoin, hsp _ hcoin⟩,
      hseen.limits, ha.limits, offeredCoins, offeredCoins, recordedCoins_seen hseen ha htx,
      List.filter_filter, List.filter_filter]
    congr 4
    funext coin
    by_cases ho : coin.1.hash ≠ tx.hash ∧ ¬ tx.Spends coin.1
    · have hof : seen.offers ctx coin = after.offers ctx coin := by
        rw [Bool.eq_iff_iff, hseen.offers_iff_of_ne ho.1, ha.offers_iff_of_ne (htx ▸ ho.1), htx]
        simp [ho.2]
      rw [hof]
    · simp [ho]

end

/-- Of what the transaction spends nothing is returned as long as it is in the memory pool, and
otherwise it is returned as before. -/
theorem spends_seen_iff : (∀ outpoint ∈ seen.getUTXOs ctx, ¬ tx.Spends outpoint) ↔
      ctx.inMempool tx.hash = true ∨ ∀ outpoint ∈ mgr.getUTXOs ctx, ¬ tx.Spends outpoint := by
  have hconf := @CMerkleTx.confirmations_of_unconfirmed ctx tx
  cases hpool : ctx.inMempool tx.hash with
  | true =>
    rw [hpool, if_pos rfl] at hconf
    refine iff_of_true ?_ (.inl rfl)
    intro outpoint hmem hsp
    obtain ⟨coin, rfl, -, ho⟩ := mem_getUTXOs hmem
    rw [hseen.not_offers_of_spends hsp (by omega)] at ho
    cases ho
  | false =>
    rw [hpool] at hconf
    have hs : seen.getUTXOs ctx = mgr.getUTXOs ctx := by
      rw [getUTXOs_eq, getUTXOs_eq, hseen.limits, offeredCoins, offeredCoins,
        hseen.recordedCoins_eq_filter, List.filter_filter]
      congr 4
      funext coin
      by_cases hown : coin.1.hash = tx.hash
      · rw [hseen.not_offers_own_of_unconfirmed hown (by omega)]
        simp [hown]
      · have hun : ¬ (tx.Spends coin.1 ∧
            0 ≤ ({ tx := tx } : CMerkleTx).getNumberOfBlockConfirmations ctx) := by
          rw [hconf]
          simp
        rw [Bool.eq_iff_iff, hseen.offers_iff_of_ne hown, and_iff_left hun]
        simp [hown]
    rw [hs]
    simp

end SeenTwice

/-! ### Calls -/

section Calls

variable {pblock : Option CBlock} {adjustedTime : Int}

theorem merkleTxFor_tx : (merkleTxFor hashes tx pblock).tx = tx := by
  unfold merkleTxFor CMerkleTx.setMerkleBranch
  split
  next => rfl
  next =>
    split
    next => rfl
    next => rfl

/-- Nothing happens for a transaction without an output to a managed script. -/
theorem syncTransaction_of_not_paysManaged (h : mgr.paysManaged tx = false) :
    mgr.syncTransaction hashes tx pblock adjustedTime = some mgr := by
  simp [syncTransaction, h]

theorem syncTransaction_of_recorded (hpays : mgr.paysManaged tx = true)
    (hrec : (mgr.tracker.merkleTxAt tx.hash).isSome) :
    mgr.syncTransaction hashes tx pblock adjustedTime = some { mgr with
        transactionOrderingIndex := (mgr.transactionOrderingIndex + 1) % 2 ^ 64 } := by
  unfold syncTransaction
  rw [if_pos hpays, updateSpends_of_recorded (by rwa [merkleTxFor_tx])]
  rfl

theorem adds_of_syncTransaction (hs : mgr.tracker.Sound)
    (hpays : mgr.paysManaged tx = true) (hnew : mgr.tracker.merkleTxAt tx.hash = none)
    (h : mgr.syncTransaction hashes tx pblock adjustedTime = some after) :
    mgr.Adds after (merkleTxFor hashes tx pblock) := by
  unfold syncTransaction at h
  rw [if_pos hpays] at h
  obtain ⟨result, hupd, rfl⟩ := map_eq_some_iff.mp h
  refine ⟨hs, hs.updateSpends hupd, rfl, by rwa [merkleTxFor_tx], ?_⟩
  obtain ⟨hrec, -⟩ | ⟨-, ha, -⟩ := updateSpends_cases hupd
  · rw [merkleTxFor_tx, hnew] at hrec
    cases hrec
  · exact ha

/-- Whether the call returns does not depend on the block and the time. -/
theorem syncTransaction_isSome_congr (pblock' : Option CBlock) (adjustedTime' : Int) :
    (mgr.syncTransaction hashes tx pblock' adjustedTime').isSome =
      (mgr.syncTransaction hashes tx pblock adjustedTime).isSome := by
  cases hpays : mgr.paysManaged tx with
  | false => rw [syncTransaction_of_not_paysManaged hpays, syncTransaction_of_not_paysManaged hpays]
  | true =>
    cases hat : mgr.tracker.merkleTxAt tx.hash with
    | some _ =>
      rw [syncTransaction_of_recorded hpays (by rw [hat]; rfl),
        syncTransaction_of_recorded hpays (by rw [hat]; rfl)]
    | none =>
      unfold syncTransaction
      rw [if_pos hpays, if_pos hpays, updateSpends_of_new (by rwa [merkleTxFor_tx]),
        updateSpends_of_new (by rwa [merkleTxFor_tx])]
      simp only [isSome_map, merkleTxFor_tx]
      refine addToSpends_isSome_congr tx rfl
        (withTransaction_position_congr ?_ rfl)
      rw [addedTx_toCMerkleTx, addedTx_toCMerkleTx, merkleTxFor_tx, merkleTxFor_tx]

theorem sound_of_call (hs : mgr.tracker.Sound)
    (h : mgr.call hashes event = some after) : after.tracker.Sound := by
  cases event with
  | addManagedScript script limit =>
    cases h
    exact hs
  | syncTransaction tx pblock adjustedTime =>
    change mgr.syncTransaction hashes tx pblock adjustedTime = some after at h
    unfold syncTransaction at h
    split at h
    next =>
      obtain ⟨result, hupd, rfl⟩ := map_eq_some_iff.mp h
      exact hs.updateSpends hupd
    next =>
      cases h
      exact hs

theorem sound_of_ofDatabase {managedScripts : Std.TreeMap CScript Nat compare}
    {transactions : List CWalletTx}
    (h : ofDatabase hashes managedScripts transactions adjustedTime = some after) :
    after.tracker.Sound := by
  unfold ofDatabase at h
  have hst : ({ managedScriptsLimits := managedScripts } : VaultManager).tracker.Sound :=
    SpentOutputTracker.Sound.empty
  generalize ({ managedScriptsLimits := managedScripts } : VaultManager) = start at h hst
  induction transactions generalizing start with
  | nil => exact Option.some.inj h ▸ hst
  | cons wtx transactions ih =>
    obtain ⟨next, hnext, hr⟩ := bind_eq_some_iff.mp h
    obtain ⟨result, hupd, rfl⟩ := map_eq_some_iff.mp hnext
    exact ih _ hr (hst.updateSpends hupd)

end Calls

/-- The manager after some calls. -/
def run (hashes : WalletHashes) (mgr : VaultManager) (calls : List VaultCall) :
    Option VaultManager :=
  runFrom (fun mgr event => mgr.call hashes event) mgr calls

theorem sound_of_run (hs : mgr.tracker.Sound) (h : mgr.run hashes calls = some after) :
    after.tracker.Sound :=
  runFrom_invariant (fun _ _ _ hs hcall => sound_of_call hs hcall) hs h

/-- A state of a manager: after some calls on one that was loaded from a database. -/
def Reachable (hashes : WalletHashes) (mgr : VaultManager) : Prop :=
  ∃ managedScripts transactions adjustedTime start calls,
    ofDatabase hashes managedScripts transactions adjustedTime = some start ∧
    start.run hashes calls = some mgr

theorem Reachable.sound (h : Reachable hashes mgr) : mgr.tracker.Sound := by
  obtain ⟨managedScripts, transactions, adjustedTime, start, calls, hst, hrun⟩ := h
  exact sound_of_run (sound_of_ofDatabase hst) hrun

/-- **A transaction that is seen before its block.** -/
theorem getUTXOs_seen_unconfirmed_iff {after : VaultManager} {tx : CTransaction} {block : CBlock}
    {seenTime adjustedTime : Int} (hreach : Reachable ctx.hashes mgr)
    (hblk : ctx.HasBlock block) (htx : tx ∈ block.vtx)
    (ha : mgr.syncTransaction ctx.hashes tx (some block) adjustedTime = some after) :
    ∃ seen, (mgr.syncTransaction ctx.hashes tx none seenTime).bind
        (fun mgr => mgr.syncTransaction ctx.hashes tx (some block) adjustedTime) =
          some seen ∧
      (seen.getUTXOs ctx = after.getUTXOs ctx ↔
        (mgr.txAt tx.hash).isSome ∨ mgr.paysManaged tx = false ∨
          mgr.OutputsBeyondLimits ctx (merkleTxFor ctx.hashes tx (some block)) ∧
            (ctx.inMempool tx.hash = true ∨ mgr.SpendsBeyondLimits ctx tx)) := by
  cases hpays : mgr.paysManaged tx with
  | false =>
    rw [syncTransaction_of_not_paysManaged hpays] at ha ⊢
    rw [bind_some, syncTransaction_of_not_paysManaged hpays]
    exact ⟨after, ha, by simp⟩
  | true =>
    cases hat : mgr.tracker.merkleTxAt tx.hash with
    | some mtx =>
      have hrec : (mgr.tracker.merkleTxAt tx.hash).isSome := by rw [hat]; rfl
      rw [syncTransaction_of_recorded hpays hrec] at ha ⊢
      cases ha
      refine ⟨_, syncTransaction_of_recorded hpays hrec, iff_of_true rfl (.inl ?_)⟩
      rw [txAt, isSome_map]
      exact hrec
    | none =>
      have hret : (mgr.syncTransaction ctx.hashes tx none seenTime).isSome := by
        rw [syncTransaction_isSome_congr none seenTime, ha]
        rfl
      obtain ⟨seen, hseen⟩ := isSome_iff_exists.mp hret
      have hadds := adds_of_syncTransaction hreach.sound hpays hat hseen
      have hadds' := adds_of_syncTransaction hreach.sound hpays hat ha
      have hpays' : seen.paysManaged tx = true := by
        unfold paysManaged
        rw [hadds.limits]
        exact hpays
      have hrec : (seen.tracker.merkleTxAt tx.hash).isSome := by
        rw [hadds.added]
        simp [merkleTxFor]
      rw [hseen, bind_some, syncTransaction_of_recorded hpays' hrec]
      refine ⟨_, rfl, ?_⟩
      have hconf := CMerkleTx.confirmed_of_hasBlock hblk htx
      have hiff := getUTXOs_seen_iff hadds hadds' merkleTxFor_tx hconf
      have hown := hadds'.forall_not_own_iff hconf
      rw [merkleTxFor_tx] at hown
      rw [hown, spends_seen_iff hadds, forall_not_spends_iff] at hiff
      have hnew : (mgr.txAt tx.hash).isSome = false := by simp [txAt, hat]
      simp only [hnew, Bool.false_eq_true, Bool.true_eq_false, false_or]
      exact hiff

/-! ### Two blocks -/

/-- A coin of the script `[0x51]`. -/
private def managedCoin : CTransaction :=
  { hash := 1, vin := [{ prevout := ⟨9, 0⟩ }], vout := [{ nValue := 5, scriptPubKey := [0x51] }] }

variable (script : CScript)

/-- Spends the coin and pays a script. -/
private def coinSpender : CTransaction :=
  { hash := 2, vin := [{ prevout := ⟨1, 0⟩ }], vout := [{ nValue := 5, scriptPubKey := script }] }

private def coinBlock : CBlock :=
  { hash := 11, hashPrevBlock := 0, nTime := 0, vtx := [managedCoin] }

private def spenderBlock : CBlock :=
  { hash := 12, hashPrevBlock := 11, nTime := 0, vtx := [coinSpender script] }

private def twoBlocks : CChain :=
  [{ phashBlock := 12, nHeight := 1 }, { phashBlock := 11, nHeight := 0 }]

private def twoBlockContext : ChainContext :=
  { chainParams := regTestParams
    activeChain := twoBlocks
    blockIndices := (Finmap.singleton 11 twoBlocks.tail).insert 12 twoBlocks
    hashMerkleRoot := fun hash => if hash = 11 then 1 else 2
    inMempool := fun _ => false
    hashes := { merkleHash := fun _ right => right, getBareTxid := CTransaction.hash } }

private theorem hasBlock_coinBlock : twoBlockContext.HasBlock coinBlock :=
  ⟨by decide, ⟨_, _, rfl, rfl, rfl⟩, rfl⟩

private theorem hasBlock_spenderBlock :
    twoBlockContext.HasBlock (spenderBlock script) :=
  ⟨by simp [spenderBlock], ⟨_, _, rfl, rfl, rfl⟩, rfl⟩

private def managing (limit : Nat) : VaultManager :=
  addManagedScript {} [0x51] limit

private theorem managing_reachable (limit : Nat) :
    Reachable twoBlockContext.hashes (managing limit) :=
  ⟨∅, [], 0, {}, [.addManagedScript [0x51] limit], rfl, rfl⟩

/-- Another coin of the script, in the second block. -/
private def laterCoin : CTransaction :=
  { managedCoin with hash := 2, vin := [{ prevout := ⟨9, 1⟩ }] }

private def laterBlock : CBlock :=
  { hash := 12, hashPrevBlock := 11, nTime := 0, vtx := [laterCoin] }

/-- The limit of one coin is used up, so it does not matter that the later coin was seen before its
block. -/
theorem getUTXOs_seen_unconfirmed_beyond_limit :
    ∃ mgr seen after,
      (managing 1).syncTransaction twoBlockContext.hashes managedCoin (some coinBlock) 0 =
        some mgr ∧
      mgr.syncTransaction twoBlockContext.hashes laterCoin (some laterBlock) 0 = some after ∧
      (mgr.syncTransaction twoBlockContext.hashes laterCoin none 0).bind
        (fun mgr => mgr.syncTransaction twoBlockContext.hashes laterCoin
          (some laterBlock) 0) = some seen ∧
      seen.getUTXOs twoBlockContext = after.getUTXOs twoBlockContext := by
  obtain ⟨mgr, hmgr⟩ : ∃ mgr, (managing 1).syncTransaction twoBlockContext.hashes
      managedCoin (some coinBlock) 0 = some mgr := ⟨_, rfl⟩
  have hr : Reachable twoBlockContext.hashes mgr :=
    ⟨∅, [], 0, {}, [.addManagedScript [0x51] 1, .syncTransaction managedCoin (some coinBlock) 0],
      rfl, hmgr⟩
  have hblk : twoBlockContext.HasBlock laterBlock :=
    ⟨by decide, ⟨_, _, rfl, rfl, rfl⟩, rfl⟩
  cases hmgr
  obtain ⟨seen, hseen, hiff⟩ := @getUTXOs_seen_unconfirmed_iff _ _ _ laterCoin _ 0 0
    hr hblk (mem_singleton_self laterCoin) rfl
  refine ⟨_, seen, _, rfl, rfl, hseen, hiff.mpr (.inr (.inr ⟨.inr ?_, .inr ?_⟩))⟩
  · intro n output limit hout _ _ hlim
    obtain rfl : output = { nValue := 5, scriptPubKey := [0x51] } :=
      mem_singleton.mp (mem_of_getElem? hout)
    obtain rfl : limit = 1 := (Option.some.inj hlim).symm
    rw [← countP_offeredCoins]
    decide +kernel
  · refine forall_not_spends_iff.mp ?_
    decide

/-- A confirmed coin that was seen before its block is not returned. -/
theorem getUTXOs_misses_coin_seen_unconfirmed :
    ∃ seen after, Reachable twoBlockContext.hashes (managing 3) ∧
      twoBlockContext.HasBlock coinBlock ∧ managedCoin ∈ coinBlock.vtx ∧
      (managing 3).syncTransaction twoBlockContext.hashes managedCoin (some coinBlock) 0 =
        some after ∧
      ((managing 3).syncTransaction twoBlockContext.hashes managedCoin none 0).bind
        (fun mgr => mgr.syncTransaction twoBlockContext.hashes managedCoin
          (some coinBlock) 0) = some seen ∧
      after.getUTXOs twoBlockContext = {⟨1, 0⟩} ∧ seen.getUTXOs twoBlockContext = ∅ :=
  ⟨_, _, managing_reachable 3, hasBlock_coinBlock, mem_singleton_self _, rfl, rfl, by decide,
    by decide⟩

/-! ### All transactions of the active chain -/

theorem merkleTxAt_of_call {hash : uint256} (hat : mgr.tracker.merkleTxAt hash = some mtx)
    (h : mgr.call hashes event = some after) :
    after.tracker.merkleTxAt hash = some mtx := by
  cases event with
  | addManagedScript script limit =>
    cases h
    exact hat
  | syncTransaction tx pblock adjustedTime =>
    change mgr.syncTransaction hashes tx pblock adjustedTime = some after at h
    unfold syncTransaction at h
    split at h
    next =>
      obtain ⟨result, hupd, rfl⟩ := map_eq_some_iff.mp h
      obtain ⟨-, hs⟩ | ⟨hnew, ha, -⟩ := updateSpends_cases hupd
      · rw [hs]
        exact hat
      · have hne : hash ≠ (merkleTxFor hashes tx pblock).tx.hash := by
          intro heq
          rw [heq, hnew] at hat
          cases hat
        rw [ha, Function.update_of_ne hne]
        exact hat
    next =>
      cases h
      exact hat

/-- Every transaction of the active chain is synchronised with its block, in block order. -/
structure Synchronised (ctx : ChainContext) (blocks : List CBlock) (calls : List VaultCall) :
    Prop where
  chain : ctx.activeChain.map CBlockIndex.phashBlock = (blocks.map CBlock.hash).reverse
  hasBlock : ∀ block ∈ blocks, ctx.HasBlock block
  inOrder : List.Sublist (blocks.flatMap fun block => block.vtx.map fun tx => (tx, some block))
    (calls.filterMap VaultCall.synchronised)

/-- An output of a recorded transaction that pays a managed script. -/
def IsManagedCoin (mgr : VaultManager) (outpoint : COutPoint) : Prop :=
  ∃ tx output, mgr.txAt outpoint.hash = some tx ∧ tx.vout[outpoint.n]? = some output ∧
    output.scriptPubKey ∈ mgr.managedScriptsLimits

/-- The call that records the transaction comes with its block. -/
def RecordedWithBlock (hashes : WalletHashes) (blocks : List CBlock) (calls : List VaultCall)
    (tx : CTransaction) : Prop :=
  ∃ block ∈ blocks, tx ∈ block.vtx ∧ ∃ before adjustedTime after mgr,
    calls = before ++ .syncTransaction tx (some block) adjustedTime :: after ∧
    run hashes {} before = some mgr ∧ mgr.paysManaged tx = true ∧
    mgr.txAt tx.hash = none

/-- A transaction that is recorded with its block is known to be confirmed ever after. -/
theorem RecordedWithBlock.confirmed {blocks : List CBlock}
    (h : RecordedWithBlock ctx.hashes blocks calls tx)
    (hblks : ∀ block ∈ blocks, ctx.HasBlock block) (hrun : run ctx.hashes {} calls = some mgr)
    :
    ∃ mtx, mgr.tracker.merkleTxAt tx.hash = some mtx ∧ mtx.tx = tx ∧
      1 ≤ mtx.getNumberOfBlockConfirmations ctx := by
  obtain ⟨block, hblk, htx, before, adjustedTime, after, start, rfl, hpre, hpays, hnew⟩ := h
  unfold run at hpre hrun
  rw [runFrom_append, hpre, bind_some] at hrun
  obtain ⟨next, hnext, hr⟩ := bind_eq_some_iff.mp hrun
  have hs : start.tracker.Sound := sound_of_run SpentOutputTracker.Sound.empty hpre
  have hadds := adds_of_syncTransaction hs hpays (map_eq_none_iff.mp hnew) hnext
  have hat : next.tracker.merkleTxAt tx.hash =
      some (merkleTxFor ctx.hashes tx (some block)) := by
    rw [hadds.added, merkleTxFor_tx, Function.update_self]
  have hkept : mgr.tracker.merkleTxAt tx.hash =
      some (merkleTxFor ctx.hashes tx (some block)) :=
    runFrom_invariant (fun _ _ _ hat hcall => merkleTxAt_of_call hat hcall) hat hr
  exact ⟨_, hkept, merkleTxFor_tx, CMerkleTx.confirmed_of_hasBlock (hblks block hblk) htx⟩

/-- **No coin that the active chain spends is returned**, if the transactions that spend managed
coins are recorded with their blocks. -/
theorem not_mem_getUTXOs_of_spends {blocks : List CBlock} {calls : List VaultCall}
    (hsync : Synchronised ctx blocks calls) (hrun : run ctx.hashes {} calls = some mgr)
    (hspenders : ∀ block ∈ blocks, ∀ tx ∈ block.vtx, ∀ outpoint, tx.Spends outpoint →
      mgr.IsManagedCoin outpoint → RecordedWithBlock ctx.hashes blocks calls tx) :
    ∀ block ∈ blocks, ∀ tx ∈ block.vtx, ∀ outpoint, tx.Spends outpoint →
      outpoint ∉ mgr.getUTXOs ctx := by
  intro block hblk tx htx outpoint hspe hmem
  obtain ⟨output, helig, hm⟩ := (getUTXOs_exact mgr ctx).1.eligible outpoint hmem
  obtain ⟨wtx, hat, hvout, -⟩ := helig.recorded
  have hcoin : mgr.IsManagedCoin outpoint :=
    ⟨wtx.tx, output, congrArg (Option.map CMerkleTx.tx ∘ Option.map CWalletTx.toCMerkleTx) hat,
      hvout, hm⟩
  obtain ⟨mtx, hrec, rfl, hconf⟩ :=
    (hspenders block hblk tx htx outpoint hspe hcoin).confirmed hsync.hasBlock hrun
  have hs : mgr.tracker.Sound :=
    sound_of_run SpentOutputTracker.Sound.empty hrun
  have hsp : mgr.tracker.isSpent ctx outpoint.hash outpoint.n = true :=
    hs.isSpent_iff.mpr ⟨_, mtx, hrec, hspe, by omega⟩
  rw [helig.unspent] at hsp
  cases hsp

private def vaultCalls : List VaultCall :=
  [.addManagedScript [0x51] 3, .syncTransaction managedCoin (some coinBlock) 0,
    .syncTransaction (coinSpender script) (some (spenderBlock script)) 0]

private theorem twoBlocks_synchronised :
    Synchronised twoBlockContext [coinBlock, spenderBlock script] (vaultCalls script) where
  chain := rfl
  hasBlock := by
    intro block hblk
    simp only [mem_cons, not_mem_nil, or_false] at hblk
    obtain rfl | rfl := hblk
    · exact hasBlock_coinBlock
    · exact hasBlock_spenderBlock script
  inOrder := List.Sublist.refl _

/-- The transaction that spends the coin pays a managed script itself. -/
theorem not_mem_getUTXOs_of_managed_spender :
    ∃ mgr, run twoBlockContext.hashes {} (vaultCalls [0x51]) = some mgr ∧
      ⟨1, 0⟩ ∉ mgr.getUTXOs twoBlockContext := by
  refine ⟨_, rfl, not_mem_getUTXOs_of_spends (twoBlocks_synchronised [0x51]) rfl ?_
    (spenderBlock [0x51]) (by decide) (coinSpender [0x51]) (by decide) ⟨1, 0⟩ (by decide)⟩
  intro block hblk tx htx outpoint hsp hcoin
  simp only [mem_cons, not_mem_nil, or_false] at hblk
  obtain rfl | rfl := hblk
  · obtain rfl := mem_singleton.mp htx
    exact ⟨coinBlock, by decide, htx, [.addManagedScript [0x51] 3], 0, _, _, rfl, rfl, by decide,
      by decide⟩
  · obtain rfl := mem_singleton.mp htx
    exact ⟨spenderBlock [0x51], by decide, htx,
      [.addManagedScript [0x51] 3, .syncTransaction managedCoin (some coinBlock) 0], 0, _, _, rfl,
      rfl, by decide, by decide⟩

/-- The coin is spent in the active chain by a transaction that pays another script. -/
theorem getUTXOs_returns_spent_coin :
    ∃ mgr, Synchronised twoBlockContext [coinBlock, spenderBlock [0x52]] (vaultCalls [0x52]) ∧
      run twoBlockContext.hashes {} (vaultCalls [0x52]) = some mgr ∧
      (coinSpender [0x52]).Spends ⟨1, 0⟩ ∧ ⟨1, 0⟩ ∈ mgr.getUTXOs twoBlockContext :=
  ⟨_, twoBlocks_synchronised _, rfl, by decide, by decide⟩

end VaultManager

end Divi
