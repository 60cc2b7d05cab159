/-
Cached balances after `RecomputeCachedQuantities`.

Every getter reads one cached amount, and all flags but that of the immature credit are reset, so
that the other getters compute anew.  The immature credit is still the one of the query that
computed it, and is right exactly if the credit has not changed since then, or if the transaction
is not immature any more.
-/
import Divi.Proofs.WalletSigning
import Divi.WalletBalances

namespace Divi

open CachedAmount WalletState

variable {cached : CachedAmount} {wallet : WalletState} {wtx : CWalletTx}

/-! ### One getter -/

namespace CachedAmount

variable {fUseCache : Bool}

theorem read_cached (h : (fUseCache && cached.fCached) = true) (compute : Option Int) :
    cached.read fUseCache compute = (some cached.nCached, cached) :=
  if_pos h

/-- An amount that is computed is cached, unless there is an exception. -/
theorem read_computed (h : (fUseCache && cached.fCached) = false) (compute : Option Int) :
    cached.read fUseCache compute =
      (compute, (compute.map fun amount => ⟨true, amount⟩).getD cached) := by
  unfold read
  rw [h, if_neg Bool.false_ne_true]
  cases compute with
  | none => rfl
  | some amount => rfl

theorem read_of_not_cached (h : cached.fCached = false) (compute : Option Int) :
    (cached.read fUseCache compute).1 = compute := by
  rw [read_computed (by rw [h, Bool.and_false])]

end CachedAmount

/-- The credit whose cached value a reset leaves in place. -/
def WalletState.spendableCredit (wallet : WalletState) (wtx : CWalletTx) : Option Int :=
  wallet.computeCredit wtx .ISMINE_SPENDABLE false

section

/-- Without a cached amount, every getter gives what it computes. -/
theorem WalletState.get_of_not_cached (h : cached.fCached = false) (fUseCache : Bool)
    (quantity : Quantity) :
    (wallet.get wtx cached fUseCache quantity).1 = (wallet.get wtx {} false quantity).1 := by
  have hr : ∀ use use' compute, (cached.read use compute).1 =
      (read {} use' compute).1 := by
    intro use use' compute
    rw [read_of_not_cached h, read_of_not_cached rfl]
  cases quantity with
  | immatureCredit =>
    simp only [get, getImmatureCredit]
    split
    · exact hr _ _ _
    · rfl
  | availableCredit =>
    simp only [get, getAvailableCredit]
    split
    · rfl
    · exact hr _ _ _
  | immatureWatchCredit =>
    simp only [get, getImmatureWatchOnlyCredit]
    split
    · exact hr _ _ _
    · rfl
  | availableWatchCredit =>
    simp only [get, getAvailableWatchOnlyCredit]
    split
    · rfl
    · exact hr _ _ _
  | change => exact hr _ _ _

theorem WalletState.getImmatureCredit_uncached :
    (wallet.getImmatureCredit wtx {} false).1 =
      if wallet.isImmature wtx then wallet.spendableCredit wtx else some 0 := by
  rw [getImmatureCredit, apply_ite Prod.fst, read_of_not_cached rfl, spendableCredit]

end

/-! ### Histories -/

namespace BalanceEvent

/-- The state in which the immature credit in the cache was computed: that of the last query that
had to compute it. -/
def takes (taken : Option (WalletState × CWalletTx)) :
    BalanceEvent → Option (WalletState × CWalletTx)
  | .query wallet wtx .immatureCredit fUseCache =>
    if wallet.isImmature wtx && (wallet.spendableCredit wtx).isSome &&
        !(fUseCache && taken.isSome) then
      some (wallet, wtx)
    else
      taken
  | _ => taken

end BalanceEvent

def creditTakenFrom (history : List BalanceEvent) : Option (WalletState × CWalletTx) :=
  history.foldl BalanceEvent.takes none

/-- A cached amount is the credit of the state it was taken from. -/
structure CachedAmount.TakenFrom (cached : CachedAmount)
    (taken : Option (WalletState × CWalletTx)) : Prop where
  flag : cached.fCached = taken.isSome
  amount : ∀ source, taken = some source →
    source.1.spendableCredit source.2 = some cached.nCached

namespace CachedQuantities

variable {cached : CachedQuantities} {taken : Option (WalletState × CWalletTx)}

theorem takenFrom_apply (h : (cached .immatureCredit).TakenFrom taken) (event : BalanceEvent) :
    (cached.apply event .immatureCredit).TakenFrom (event.takes taken) := by
  cases event with
  | recomputeCachedQuantities => exact h
  | query wallet wtx quantity fUseCache =>
    by_cases hq : quantity = .immatureCredit
    · subst hq
      simp only [apply, Function.update_self, WalletState.get, WalletState.getImmatureCredit,
        BalanceEvent.takes]
      cases himm : wallet.isImmature wtx with
      | false => exact h
      | true =>
        cases huse : fUseCache && taken.isSome with
        | true =>
          rw [read_cached (by rw [h.flag, huse])]
          simpa using h
        | false =>
          rw [read_computed (by rw [h.flag, huse])]
          show CachedAmount.TakenFrom (((wallet.spendableCredit wtx).map _).getD _) _
          cases hc : wallet.spendableCredit wtx with
          | none => simpa using h
          | some amount =>
            refine ⟨rfl, ?_⟩
            intro source hs
            cases hs
            exact hc
    · have ho : BalanceEvent.takes taken (.query wallet wtx quantity fUseCache) = taken := by
        cases quantity with
        | immatureCredit => exact absurd rfl hq
        | _ => rfl
      rw [ho, apply, Function.update_of_ne (Ne.symm hq)]
      exact h

theorem takenFrom_foldl (history : List BalanceEvent)
    (h : (cached .immatureCredit).TakenFrom taken) :
    (history.foldl apply cached .immatureCredit).TakenFrom
      (history.foldl BalanceEvent.takes taken) := by
  induction history generalizing cached taken with
  | nil => exact h
  | cons event history ih => exact ih (takenFrom_apply h event)

/-- The getters of some quantities are called. -/
def queries (cached : CachedQuantities) (wallet : WalletState) (wtx : CWalletTx)
    (quantities : List Quantity) : CachedQuantities :=
  quantities.foldl (fun cached quantity => cached.apply (.query wallet wtx quantity true)) cached

/-- A getter has no effect on the cached amounts of others. -/
theorem queries_of_notMem {quantities : List Quantity} {quantity : Quantity}
    (h : quantity ∉ quantities) :
    cached.queries wallet wtx quantities quantity = cached quantity := by
  induction quantities generalizing cached with
  | nil => rfl
  | cons first rest ih =>
    obtain ⟨hfst, hr⟩ := not_or.mp (mt List.mem_cons.mpr h)
    exact (ih hr).trans (Function.update_of_ne hfst _ _)

/-- After any history and a reset, the first call of each getter gives the uncached amount if and
only if the transaction is not immature, or its credit is the one of the state in which the cached
immature credit was computed. -/
theorem first_query_uncached_iff (history : List BalanceEvent) (wallet : WalletState)
    (wtx : CWalletTx) :
    (∀ (earlier : List Quantity) (quantity : Quantity), quantity ∉ earlier →
      (wallet.get wtx (((history.foldl apply init).recomputeCachedQuantities.queries wallet wtx
        earlier) quantity) true quantity).1 = (wallet.get wtx {} false quantity).1) ↔
      (wallet.isImmature wtx = true → ∀ source, creditTakenFrom history = some source →
        source.1.spendableCredit source.2 = wallet.spendableCredit wtx) := by
  have ht : (history.foldl apply init .immatureCredit).TakenFrom (creditTakenFrom history) :=
    takenFrom_foldl history ⟨rfl, fun source hs => by cases hs⟩
  have hv : ∀ source, creditTakenFrom history = some source →
      (wallet.getImmatureCredit wtx (history.foldl apply init .immatureCredit) true).1 =
        if wallet.isImmature wtx then source.1.spendableCredit source.2 else some 0 := by
    intro source hs
    have hf := ht.flag
    rw [hs, Option.isSome_some] at hf
    rw [getImmatureCredit, read_cached (by rw [hf, Bool.and_self]), apply_ite Prod.fst,
      ht.amount source hs]
  constructor
  · intro h himm source hs
    have hfst := h [] .immatureCredit List.not_mem_nil
    change (wallet.getImmatureCredit wtx (history.foldl apply init .immatureCredit) true).1 =
      (wallet.getImmatureCredit wtx {} false).1 at hfst
    rw [hv source hs, getImmatureCredit_uncached, if_pos himm, if_pos himm] at hfst
    exact hfst
  · intro h earlier quantity hq
    rw [queries_of_notMem hq]
    cases quantity with
    | immatureCredit =>
      show (wallet.getImmatureCredit wtx (history.foldl apply init .immatureCredit) true).1 =
        (wallet.getImmatureCredit wtx {} false).1
      cases hs : creditTakenFrom history with
      | none =>
        have hf := ht.flag
        rw [hs] at hf
        exact get_of_not_cached hf true .immatureCredit
      | some source =>
        rw [hv source hs, getImmatureCredit_uncached]
        split
        next himm => exact h himm source hs
        next => rfl
    | _ => exact get_of_not_cached rfl true _

end CachedQuantities

/-! ### A key that is imported -/

/-- A coinbase transaction that pays a key, in the only block of the chain. -/
def payingCoinbase : CWalletTx where
  tx := { hash := 1, vin := [{ prevout := .null }]
          vout := [{ nValue := 50, scriptPubKey := soleKeyScript [0x14] }] }
  hashBlock := 11
  nIndex := 0

def coinbaseChain : BlockPointer := [{ phashBlock := 11, nHeight := 0 }]

/-- A wallet with some keys. -/
def walletWith (keystore : CKeyStore) : WalletState where
  hashes := paddingHashes
  keystore := keystore
  depth := 1
  tracker := {}
  chain :=
    { chainParams := regTestParams
      activeChain := coinbaseChain
      blockIndices := Finmap.singleton 11 coinbaseChain
      hashMerkleRoot := fun _ => 1
      inMempool := fun _ => false
      hashes := { merkleHash := fun _ right => right, getBareTxid := CTransaction.hash } }
  nChangeIndex _ := none

/-- The immature credit is asked for, the key of the output is imported, and the quantities are
reset: the getter still gives the credit without the key. -/
theorem immatureCredit_without_imported_key :
    let before := walletWith { soleKeyStore with haveKey := fun _ => false }
    let cached := CachedQuantities.init.apply (.query before payingCoinbase .immatureCredit true)
    ((walletWith soleKeyStore).get payingCoinbase
        (cached.recomputeCachedQuantities .immatureCredit) true .immatureCredit).1 = some 0 ∧
      ((walletWith soleKeyStore).get payingCoinbase {} false .immatureCredit).1 = some 50 := by
  decide

end Divi
