/-
The layers of caches over the coins database.

A view is the database or a cache over another view.  A cache pulls what it is asked for
from its base, which may be a cache that then pulls it in turn, so reading changes the
layers below as well.  The two bits of an entry's flags are two fields.  A modification is
one step: the entry is fetched, changed through the modifier, and cleaned up when the
modifier is destroyed.
-/
import Divi.Coins

namespace Divi

/-- An entry of a cache. -/
structure CCoinsCacheEntry where
  coins : CCoins
  /-- Potentially different from the version in the parent view. -/
  DIRTY : Bool := false
  /-- The parent view does not have this entry, or it is pruned. -/
  FRESH : Bool := false

abbrev CCoinsMap := AList fun _ : uint256 => CCoinsCacheEntry

/-- A database under any number of caches. -/
inductive CCoinsView
  | db (coins : AList fun _ : uint256 => CCoins)
  | cache (cacheCoins : CCoinsMap) (base : CCoinsView)

namespace CCoinsView

/--
`GetCoins`, with the `FetchCoins` of a cache: what is not there is pulled from the base.
Reading from the database ends with a `Cleanup`.
-/
def getCoins : CCoinsView → uint256 → Option CCoins × CCoinsView
  | .db coins, txid => ((coins.lookup txid).map CCoins.cleanup, .db coins)
  | .cache cacheCoins base, txid =>
    match cacheCoins.lookup txid with
    | some entry => (some entry.coins, .cache cacheCoins base)
    | none =>
      match base.getCoins txid with
      | (none, base) => (none, .cache cacheCoins base)
      | (some tmp, base) =>
        (some tmp, .cache (cacheCoins.insert txid { coins := tmp, FRESH := tmp.isPruned }) base)

/-- `HaveCoins` of a cache. -/
def haveCoins (view : CCoinsView) (txid : uint256) : Bool × CCoinsView :=
  match view.getCoins txid with
  | (none, view) => (false, view)
  | (some coins, view) => (!coins.vout.isEmpty, view)

variable (cacheCoins : CCoinsMap)

/-- The entry `ModifyCoins` hands out, before it is marked, and the base after that. -/
def entryToModify (base : CCoinsView) (txid : uint256) :
    CCoinsCacheEntry × CCoinsView :=
  match cacheCoins.lookup txid with
  | some entry => (entry, base)
  | none =>
    match base.getCoins txid with
    | (none, base) => ({ coins := CCoins.cleared, FRESH := true }, base)
    | (some coins, base) => ({ coins := coins, FRESH := coins.isPruned }, base)

/-- The cache after the destructor of a modifier of `entry` that leaves `coins` behind. -/
def finishModification (txid : uint256) (entry : CCoinsCacheEntry)
    (coins : CCoins) : CCoinsMap :=
  if entry.FRESH && coins.cleanup.isPruned then
    cacheCoins.erase txid
  else
    cacheCoins.insert txid { entry with coins := coins.cleanup, DIRTY := true }

/-- `ModifyCoins` and what is done through the modifier; the coins handed out. -/
def modifyCoins (base : CCoinsView) (txid : uint256)
    (modification : CCoins → CCoins) : CCoins × CCoinsView :=
  let result := entryToModify cacheCoins base txid
  let coins := modification result.1.coins
  (result.1.coins, .cache (finishModification cacheCoins txid result.1 coins) result.2)

/-- One round of the loop of a cache's `BatchWrite`; `none` if its assertion fails. -/
def batchWriteEntry (txid : uint256) (entry : CCoinsCacheEntry) :
    Option CCoinsMap :=
  if entry.DIRTY then
    match cacheCoins.lookup txid with
    | none =>
      if !entry.coins.isPruned then
        if entry.FRESH then
          some (cacheCoins.insert txid { coins := entry.coins, DIRTY := true, FRESH := true })
        else
          none
      else
        some cacheCoins
    | some itUs =>
      if itUs.FRESH && entry.coins.isPruned then
        some (cacheCoins.erase txid)
      else
        some (cacheCoins.insert txid { itUs with coins := entry.coins, DIRTY := true })
  else
    some cacheCoins

/-- One round of the loop of the database's `BatchWrite`. -/
def batchWriteCoins (coins : AList fun _ : uint256 => CCoins) (txid : uint256)
    (entry : CCoinsCacheEntry) : AList fun _ : uint256 => CCoins :=
  if entry.DIRTY then
    if entry.coins.isPruned then coins.erase txid else coins.insert txid entry.coins
  else
    coins

/-- `BatchWrite`: the entries of the cache above. -/
def batchWrite (view : CCoinsView) (mapCoins : CCoinsMap) : Option CCoinsView :=
  match view with
  | .db coins =>
    some (.db (mapCoins.entries.foldl (fun coins it => batchWriteCoins coins it.1 it.2) coins))
  | .cache cacheCoins base =>
    (mapCoins.entries.foldlM (fun cacheCoins it => batchWriteEntry cacheCoins it.1 it.2)
      cacheCoins).map fun cacheCoins => .cache cacheCoins base

/-- `Flush` of a cache. -/
def flush (base : CCoinsView) : Option CCoinsView :=
  (base.batchWrite cacheCoins).map (.cache ∅)

end CCoinsView

/-! ### Sequences of calls -/

/-- A call on the top layer, or a change of the layers. -/
inductive CoinsCall
  | getCoins (txid : uint256)
  | accessCoins (txid : uint256)
  | haveCoins (txid : uint256)
  | modifyCoins (txid : uint256) (modification : CCoins → CCoins)
  | flush
  | discard
  | push

/-- What a caller gets to see. -/
inductive CoinsAnswer
  | coins (coins : Option CCoins)
  | have_ (answer : Bool)
  | done

namespace CCoinsView

/-- One call; `none` if an assertion fails or there is no cache to call. -/
def call : CCoinsView → CoinsCall → Option (CoinsAnswer × CCoinsView)
  | view, .push => some (.done, .cache ∅ view)
  | .cache cacheCoins base, .getCoins txid =>
    let result := (cache cacheCoins base).getCoins txid
    some (.coins result.1, result.2)
  -- the pointer that `AccessCoins` returns is read at once
  | .cache cacheCoins base, .accessCoins txid =>
    let result := (cache cacheCoins base).getCoins txid
    some (.coins result.1, result.2)
  | .cache cacheCoins base, .haveCoins txid =>
    let result := (cache cacheCoins base).haveCoins txid
    some (.have_ result.1, result.2)
  | .cache cacheCoins base, .modifyCoins txid modification =>
    let result := modifyCoins cacheCoins base txid modification
    some (.coins (some result.1), result.2)
  | .cache cacheCoins base, .flush => (flush cacheCoins base).map fun view => (.done, view)
  | .cache _ base, .discard => some (.done, base)
  | .db _, _ => none

/-- The answers to a sequence of calls. -/
def run (view : CCoinsView) : List CoinsCall → Option (List CoinsAnswer × CCoinsView)
  | [] => some ([], view)
  | op :: ops => do
    let (answer, view) ← view.call op
    let (answers, view) ← view.run ops
    some (answer :: answers, view)

end CCoinsView

end Divi
