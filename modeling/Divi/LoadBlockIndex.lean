/-
Recovering the unspent outputs after a shutdown that was not prepared.

`LoadBlockIndexDB` sorts all blocks it knows by height.  If the unspent outputs on disk are
behind, it applies blocks of that list to them, from the first one above the best block of the
outputs up to the height of the block it takes for the last one.

What is at the position of a block on disk is a parameter.  Flushing succeeds, and what else
`LoadBlockIndexDB` sets up is left out.
-/
import Divi.ActiveChain
import Divi.ConnectBlock

namespace Divi

open BlockValidation (CoinsTip)

/-- The blocks in `mapBlockIndex`: each with its parent, and under its own hash. -/
structure BlockStore where
  tree : ParentTree BlockAddr
  mapBlockIndex : List BlockAddr
  getBlockHash : BlockAddr → uint256
  nodup : mapBlockIndex.Nodup
  parent_mem : ∀ b ∈ mapBlockIndex, ∀ p, tree.parent b = some p → p ∈ mapBlockIndex
  hash_inj : ∀ a ∈ mapBlockIndex, ∀ b ∈ mapBlockIndex, getBlockHash a = getBlockHash b → a = b

/-- What is read before the recovery. -/
structure StartupFlags where
  fLastShutdownWasPrepared : Bool
  forcestart : Bool := false
  reindex : Bool := false
  deriving DecidableEq, Repr

/-- Why there are no recovered outputs. -/
inductive RecoveryFailure
  | error (strError : String)
  | assertion
  /-- Space for a negative number of elements is reserved. -/
  | lengthError
  /-- An element behind the end of a vector is read. -/
  | outOfRange
  deriving DecidableEq, Repr

namespace BlockStore

variable (store : BlockStore) (disk : BlockAddr → Option CBlock)

/-- Heights first, and then addresses. -/
def vSortedByHeight : List (Nat × BlockAddr) :=
  (store.mapBlockIndex.map fun pindex => (store.tree.height pindex, pindex)).insertionSort
    fun a b => toLex a ≤ toLex b

/-- A block whose hash is the expected one. -/
def readBlockFromDisk (pindex : BlockAddr) : Option CBlock :=
  match disk pindex with
  | none => none
  | some block => if block.hash ≠ store.getBlockHash pindex then none else some block

/-- The body of the loop: all transactions of a block. -/
def replayBlock (pindex : BlockAddr) (tip : CoinsTip) : Except RecoveryFailure CoinsTip :=
  match store.readBlockFromDisk disk pindex with
  | none => .error (.error "The wallet has been not been closed gracefully and has caused corruption of blocks stored to disk. Data directory is in an unusable state")
  | some block =>
    if block.vtx.isEmpty then
      .error .lengthError
    else
      match updateCoinsWithBlock (store.tree.height pindex) tip.view block.vtx with
      | none => .error .assertion
      | some (view, _) => .ok { view := view, hashBlock := block.hash }

/-- The loop at a block, with what comes after it in `vSortedByHeight`. -/
def replayLoop (nHeightLast : Nat) (pindex : BlockAddr) (tip : CoinsTip) :
    List (Nat × BlockAddr) → Except RecoveryFailure CoinsTip
  | [] =>
    match store.replayBlock disk pindex tip with
    | .error failure => .error failure
    | .ok tip => if store.tree.height pindex ≥ nHeightLast then .ok tip else .error .outOfRange
  | (_, next) :: rest =>
    match store.replayBlock disk pindex tip with
    | .error failure => .error failure
    | .ok tip =>
      if store.tree.height pindex ≥ nHeightLast then .ok tip
      else replayLoop nHeightLast next tip rest

/-- The search for the first block above the outputs; without one, the loop starts with the
first block of all at the last position. -/
def replay (nHeightLast : Nat) (pindexBest : BlockAddr) (tip : CoinsTip) :
    Except RecoveryFailure CoinsTip :=
  match store.vSortedByHeight.dropWhile (fun item => item.1 ≠ store.tree.height pindexBest + 1),
      store.vSortedByHeight with
  | (_, pindex) :: rest, _ => store.replayLoop disk nHeightLast pindex tip rest
  | [], (_, pindex) :: _ => store.replayLoop disk nHeightLast pindex tip []
  | [], [] => .error .outOfRange

/-- The part of `LoadBlockIndexDB` on `pcoinsTip`, with the `nHeightLast` of the last block
file. -/
def recoverCoins (flags : StartupFlags) (nHeightLast : Nat) (pcoinsTip : CoinsTip) :
    Except RecoveryFailure CoinsTip :=
  if !flags.fLastShutdownWasPrepared && !flags.forcestart && !flags.reindex then
    match store.vSortedByHeight[(nHeightLast + 1) % 2 ^ 32]? with
    | none => .ok pcoinsTip
    | some (_, pindexLastMeta) =>
      if pcoinsTip.hashBlock = store.getBlockHash pindexLastMeta then
        .ok pcoinsTip
      else
        match store.mapBlockIndex.find? fun b => store.getBlockHash b = pcoinsTip.hashBlock with
        | none => .error (.error "The wallet has been not been closed gracefully, causing the transaction database to be out of sync with the block database")
        | some pindexBest =>
          store.replay disk (store.tree.height pindexLastMeta) pindexBest pcoinsTip
  else
    .ok pcoinsTip

end BlockStore

end Divi
