/-
The balances that a wallet asks of one of its transactions, and the amounts cached with it.

The amount and the flag of a quantity are one record here, and the quantities are an index to
them.  The cached debits and credits, which no getter below reads, are left out, and so are the
flags of `ComputeCredit` that no getter below sets.  `none` is an exception, for a value out of
range; it leaves the cache as it was.

Everything a wallet looks at besides the transaction is in one state: the keys, the spent outputs
and the chain.  `IsMine` looks as deep into redemption scripts as the state says.
-/
import Divi.WalletIsMine
import Divi.WalletTransactions

namespace Divi

/-- The bit of an answer of `IsMine`. -/
def isminetype.bit : isminetype → Nat
  | .ISMINE_NO => 0
  | .ISMINE_WATCH_ONLY => 1
  | .ISMINE_MULTISIG => 2
  | .ISMINE_SPENDABLE => 4

/-- An address. -/
inductive CTxDestination
  | CKeyID (id : valtype)
  | CScriptID (id : valtype)
  deriving DecidableEq, Repr

/-- The address of a script. -/
def extractDestination (hashes : ScriptHashes) (scriptPubKey : CScript) : Option CTxDestination :=
  match extractScriptPubKeyFormat scriptPubKey with
  | some (.TX_PUBKEY, vSolutions) =>
    let pubKey := CPubKey.ofBytes (vSolutions.headD [])
    if !CPubKey.isValid pubKey then none else some (.CKeyID (CPubKey.getID hashes pubKey))
  | some (.TX_PUBKEYHASH, vSolutions) => some (.CKeyID (vSolutions.headD []))
  | some (.TX_SCRIPTHASH, vSolutions) => some (.CScriptID (vSolutions.headD []))
  | _ => none

namespace CMerkleTx

/-- A transaction with confirmations. -/
def isInMainChain (mtx : CMerkleTx) (ctx : ChainContext) : Bool :=
  mtx.getNumberOfBlockConfirmationsINTERNAL ctx > 0

end CMerkleTx

/-! ### Cached amounts -/

/-- An amount and whether it was computed. -/
structure CachedAmount where
  fCached : Bool := false
  nCached : Int := 0
  deriving DecidableEq, Repr

/-- The cached amount, or the computed one, which is cached then. -/
def CachedAmount.read (cached : CachedAmount) (fUseCache : Bool) (compute : Option Int) :
    Option Int × CachedAmount :=
  if fUseCache && cached.fCached then
    (some cached.nCached, cached)
  else
    match compute with
    | none => (none, cached)
    | some amount => (some amount, ⟨true, amount⟩)

/-- The amounts that are cached. -/
inductive Quantity
  | immatureCredit
  | availableCredit
  | immatureWatchCredit
  | availableWatchCredit
  | change
  deriving DecidableEq, Repr

/-- The caches of a transaction. -/
abbrev CachedQuantities := Quantity → CachedAmount

namespace CachedQuantities

def init : CachedQuantities := fun _ => {}

/-- The flag of the immature credit is not among those that are reset. -/
def recomputeCachedQuantities (cached : CachedQuantities) : CachedQuantities
  | .immatureCredit => cached .immatureCredit
  | quantity => { cached quantity with fCached := false }

end CachedQuantities

/-! ### Getters -/

/-- What an amount depends on. -/
structure WalletState where
  hashes : ScriptHashes
  keystore : CKeyStore
  /-- How deep `IsMine` looks into redemption scripts. -/
  depth : Nat
  tracker : SpentOutputTracker
  chain : ChainContext
  /-- The `nChangeIndex` of a key in `mapHdPubKeys`. -/
  nChangeIndex : valtype → Option Nat

namespace WalletState

variable (wallet : WalletState) (wtx : CWalletTx)

/-- `MoneyRange` of the network. -/
def inMoneyRange (amount : Int) : Bool :=
  moneyRange amount wallet.chain.chainParams.nMaxMoneyOut

/-- `IsMine` of a script. -/
def isMine (scriptPubKey : CScript) : Option isminetype :=
  (Divi.isMine wallet.hashes wallet.keystore wallet.depth scriptPubKey).map Prod.fst

/-- An own output without an address, or to a key of the change chain. -/
def isChange (txout : CTxOut) : Option Bool :=
  (wallet.isMine txout.scriptPubKey).bind fun mine =>
    if mine = .ISMINE_NO then
      some false
    else
      match extractDestination wallet.hashes txout.scriptPubKey with
      | none => some true
      | some address =>
        if txout.scriptPubKey.isPayToPublicKeyHash then
          match address with
          | .CScriptID _ => none
          | .CKeyID keyID => some ((wallet.nChangeIndex keyID).any (· > 0))
        else
          some false

/-- `ComputeCredit` of an output. -/
def computeOutputCredit (txout : CTxOut) (filter : isminetype) : Option Int :=
  if !wallet.inMoneyRange txout.nValue then
    none
  else
    (wallet.isMine txout.scriptPubKey).map fun mine =>
      if mine.bit &&& filter.bit ≠ 0 then txout.nValue else 0

/-- `ComputeChange` of an output. -/
def computeOutputChange (txout : CTxOut) : Option Int :=
  if !wallet.inMoneyRange txout.nValue then
    none
  else
    (wallet.isChange txout).map fun change => if change then txout.nValue else 0

/-- A term is added to a sum that has to stay in the range. -/
def addInRange (sum : Int) (term : Option Int) : Option Int :=
  term.bind fun amount => if !wallet.inMoneyRange (sum + amount) then none else some (sum + amount)

/-- What the outputs of a kind are worth. -/
def computeCredit (filter : isminetype) (requireUnspent : Bool) : Option Int :=
  wtx.tx.vout.zipIdx.foldlM (fun nCredit (out, i) =>
    if requireUnspent && wallet.tracker.isSpent wallet.chain wtx.tx.hash i then
      some nCredit
    else
      wallet.addInRange nCredit (wallet.computeOutputCredit out filter)) 0

/-- What the change is worth. -/
def computeChange : Option Int :=
  wtx.tx.vout.foldlM (fun nChange out =>
    wallet.addInRange nChange (wallet.computeOutputChange out)) 0

/-- The condition of `GetImmatureCredit`. -/
def isImmature : Bool :=
  (wtx.tx.isCoinBase || wtx.tx.isCoinStake) && wtx.getBlocksToMaturity wallet.chain > 0 &&
    wtx.isInMainChain wallet.chain

variable (cached : CachedAmount) (fUseCache : Bool)

/-- What a young coinbase or coinstake is worth. -/
def getImmatureCredit : Option Int × CachedAmount :=
  if wallet.isImmature wtx then
    cached.read fUseCache (wallet.computeCredit wtx .ISMINE_SPENDABLE false)
  else
    (some 0, cached)

/-- What is not spent. -/
def getAvailableCredit : Option Int × CachedAmount :=
  if wtx.getBlocksToMaturity wallet.chain > 0 then (some 0, cached)
  else cached.read fUseCache (wallet.computeCredit wtx .ISMINE_SPENDABLE true)

/-- What is watched of a young coinbase. -/
def getImmatureWatchOnlyCredit : Option Int × CachedAmount :=
  if wtx.tx.isCoinBase && wtx.getBlocksToMaturity wallet.chain > 0 &&
      wtx.isInMainChain wallet.chain then
    cached.read fUseCache (wallet.computeCredit wtx .ISMINE_WATCH_ONLY false)
  else
    (some 0, cached)

/-- What is watched and not spent. -/
def getAvailableWatchOnlyCredit : Option Int × CachedAmount :=
  if wtx.tx.isCoinBase && wtx.getBlocksToMaturity wallet.chain > 0 then (some 0, cached)
  else cached.read fUseCache (wallet.computeCredit wtx .ISMINE_WATCH_ONLY true)

/-- The cache is always used. -/
def getChange : Option Int × CachedAmount :=
  cached.read true (wallet.computeChange wtx)

/-- The getter of a quantity. -/
def get : Quantity → Option Int × CachedAmount
  | .immatureCredit => wallet.getImmatureCredit wtx cached fUseCache
  | .availableCredit => wallet.getAvailableCredit wtx cached fUseCache
  | .immatureWatchCredit => wallet.getImmatureWatchOnlyCredit wtx cached fUseCache
  | .availableWatchCredit => wallet.getAvailableWatchOnlyCredit wtx cached fUseCache
  | .change => wallet.getChange wtx cached

end WalletState

/-! ### Histories -/

/-- What happens to the cached quantities of a transaction. -/
inductive BalanceEvent
  /-- A getter is called, in the state of the wallet and the record at that time. -/
  | query (wallet : WalletState) (wtx : CWalletTx) (quantity : Quantity) (fUseCache : Bool)
  | recomputeCachedQuantities

/-- The caches after an event. -/
def CachedQuantities.apply (cached : CachedQuantities) : BalanceEvent → CachedQuantities
  | .query wallet wtx quantity fUseCache =>
    Function.update cached quantity (wallet.get wtx (cached quantity) fUseCache quantity).2
  | .recomputeCachedQuantities => cached.recomputeCachedQuantities

end Divi
