/-
Block arrival, activation of the best chain, and manual (in)validation of blocks.

A `CBlockIndex *` is an address.  What never changes at an address is in a `BlockTree`: the
parent, the height, the work and the number of transactions.  What does change is in an
entry.  `chainActive` is given by its tip, whose line it is.

A set ordered by `CBlockIndexWorkComparator` is a list without order, with its last element
computed as the greatest.  Reading from disk and `DisconnectTip` succeed, and `ConnectTip`
fails exactly on the blocks with a negative verdict, as invalid and without the corruption
flag.  A failed assertion gives `none`, as does fuel that runs out.

A header gets its entry in `acceptBlockHeader`.  `receivedBlockTransactions` stores the data
of a block and links it, with all the blocks that waited for it, once its ancestors have
theirs.  `activateBestChain` then steps towards the best candidate until there is no better
one.  `invalidateBlock` and `reconsiderBlock` are the commands of an operator, and
`reprocessBlocks` gives recently rejected blocks another chance.  A history of a node is a
list of such events (`run`).
-/
import Divi.Lib.ParentTree
import Divi.Lib.Runs
import Mathlib.Algebra.Ring.Nat
import Mathlib.Data.List.MinMax
import Mathlib.Data.Prod.Lex

namespace Divi

/-- The address of a `CBlockIndex`. -/
abbrev BlockAddr := Nat

/-- What is fixed about all blocks. -/
structure BlockTree extends ParentTree BlockAddr where
  getBlockProof : BlockAddr → Nat
  nChainWork : BlockAddr → Nat
  /-- The number of transactions in the block. -/
  vtxSize : BlockAddr → Nat
  proof_pos : ∀ b, 0 < getBlockProof b
  work_root : nChainWork root = getBlockProof root
  work_child : ∀ {b p}, parent b = some p → nChainWork b = nChainWork p + getBlockProof b
  vtxSize_pos : ∀ b, 0 < vtxSize b
  /-- Genesis is fixed in `chainparams.cpp`. -/
  vtxSize_root : vtxSize root = 1

/-- The levels of `nValidity` that are used: the header is linked to its parents. -/
def BLOCK_VALID_TREE : Nat := 2

/-- The transactions of the block were checked. -/
def BLOCK_VALID_TRANSACTIONS : Nat := 3

/-- The block was connected. -/
def BLOCK_VALID_SCRIPTS : Nat := 5

/-- What changes about a block. -/
structure BlockEntry where
  /-- The `BLOCK_VALID_MASK` part of `nStatus`. -/
  nValidity : Nat := 0
  BLOCK_HAVE_DATA : Bool := false
  BLOCK_FAILED_VALID : Bool := false
  BLOCK_FAILED_CHILD : Bool := false
  nTx : Nat := 0
  nChainTx : Nat := 0
  nSequenceId : Nat := 0
  deriving DecidableEq, Repr

namespace BlockEntry

variable (entry : BlockEntry)

/-- `nStatus & BLOCK_FAILED_MASK`. -/
def failed : Bool :=
  entry.BLOCK_FAILED_VALID || entry.BLOCK_FAILED_CHILD

/-- No failure is known, and the checks have got as far as a level. -/
def isValid (nUpTo : Nat) : Bool :=
  !entry.failed && nUpTo ≤ entry.nValidity

/-- Failed entries keep their level, the others never lose any. -/
def raiseValidity (nUpTo : Nat) : BlockEntry :=
  if entry.failed then entry
  else if entry.nValidity < nUpTo then { entry with nValidity := nUpTo }
  else entry

/-- Both failure flags are taken back. -/
def clearFailed : BlockEntry :=
  { entry with BLOCK_FAILED_VALID := false, BLOCK_FAILED_CHILD := false }

end BlockEntry

/-- The globals of `main.cpp` that say which chain is active and which might be. -/
structure ChainState where
  /-- The blocks with an entry, in the order of the map. -/
  mapBlockIndex : List BlockAddr
  entry : BlockAddr → BlockEntry
  setBlockIndexCandidates : List BlockAddr
  mapBlocksUnlinked : List (BlockAddr × BlockAddr) := []
  /-- `chainActive.Tip()`. -/
  tip : BlockAddr
  nBlockSequenceId : Nat

namespace ChainState

/-- Replaces the entry of one block. -/
def setEntry (st : ChainState) (b : BlockAddr) (entry : BlockEntry) : ChainState :=
  { st with entry := Function.update st.entry b entry }

/-- Adds a candidate. -/
def insertCandidate (st : ChainState) (b : BlockAddr) : ChainState :=
  { st with setBlockIndexCandidates := st.setBlockIndexCandidates.insert b }

/-- Removes a candidate. -/
def eraseCandidate (st : ChainState) (b : BlockAddr) : ChainState :=
  { st with setBlockIndexCandidates := st.setBlockIndexCandidates.filter (· ≠ b) }

variable (tree : BlockTree)

/-- The connected genesis block. -/
def initial : ChainState where
  mapBlockIndex := [tree.root]
  entry := Function.update (fun _ => {}) tree.root {
    nValidity := BLOCK_VALID_SCRIPTS
    BLOCK_HAVE_DATA := true
    nTx := tree.vtxSize tree.root % 2 ^ 32
    nChainTx := tree.vtxSize tree.root % 2 ^ 32
    nSequenceId := 1 }
  setBlockIndexCandidates := [tree.root]
  tip := tree.root
  nBlockSequenceId := 2

variable (st : ChainState)

/-- `CBlockIndexWorkComparator`: whether the first block is worse. -/
def worse (pa pb : BlockAddr) : Bool :=
  if tree.nChainWork pa > tree.nChainWork pb then false
  else if tree.nChainWork pa < tree.nChainWork pb then true
  else if (st.entry pa).nSequenceId < (st.entry pb).nSequenceId then false
  else if (st.entry pa).nSequenceId > (st.entry pb).nSequenceId then true
  else if pa < pb then false
  else if pa > pb then true
  else false

/-- The place of a block in the order of the comparator. -/
def rank (b : BlockAddr) : ℕ ×ₗ ℕᵒᵈ ×ₗ ℕᵒᵈ :=
  toLex (tree.nChainWork b, toLex (OrderDual.toDual (st.entry b).nSequenceId, OrderDual.toDual b))

/-- `setBlockIndexCandidates.rbegin()`. -/
def bestCandidate : Option BlockAddr :=
  st.setBlockIndexCandidates.argmax (st.rank tree)

/-- `chainActive.Contains`. -/
def contains (b : BlockAddr) : Bool :=
  tree.ancestor st.tip (tree.height b) == some b

/-! ### Arrival of headers and blocks -/

/-- The new entry of a header whose parent is known. -/
def addToBlockIndex (b : BlockAddr) : ChainState :=
  { st.setEntry b (BlockEntry.raiseValidity {} BLOCK_VALID_TREE) with
    mapBlockIndex := st.mapBlockIndex ++ [b] }

/-- `AcceptBlockHeader`, for a header that passes the checks of its own; `none` if rejected. -/
def acceptBlockHeader (b : BlockAddr) : Option ChainState :=
  if b ∈ st.mapBlockIndex then
    if (st.entry b).failed then none else some st
  else
    match tree.parent b with
    | none => none
    | some pprev =>
      if pprev ∉ st.mapBlockIndex ∨ (st.entry pprev).failed then none
      else some (st.addToBlockIndex b)

/-- `pprev ? pprev->nChainTx : 0`. -/
def nChainTxPrev (b : BlockAddr) : Nat :=
  match tree.parent b with
  | none => 0
  | some pprev => (st.entry pprev).nChainTx

/-- What the loop of `ReceivedBlockTransactions` does with a block from the queue. -/
def linkBlock (b : BlockAddr) : ChainState :=
  let st := { st.setEntry b { st.entry b with
      nChainTx := (st.nChainTxPrev tree b + (st.entry b).nTx) % 2 ^ 32
      nSequenceId := st.nBlockSequenceId } with
    nBlockSequenceId := (st.nBlockSequenceId + 1) % 2 ^ 32 }
  if st.worse tree b st.tip then st else st.insertCandidate b

/-- The children that wait for a block, and the state without them waiting. -/
def takeUnlinked (b : BlockAddr) : List BlockAddr × ChainState :=
  ((st.mapBlocksUnlinked.filter fun link => link.1 = b).map Prod.snd,
    { st with mapBlocksUnlinked := st.mapBlocksUnlinked.filter fun link => link.1 ≠ b })

/-- The loop over the blocks whose ancestors now all have their data, with the descendants that
waited for them. -/
def processQueue : Nat → List BlockAddr → ChainState → Option ChainState
  | _, [], st => some st
  | 0, _ :: _, _ => none
  | fuel + 1, b :: queue, st =>
    let result := (st.linkBlock tree b).takeUnlinked b
    processQueue fuel (queue ++ result.1) result.2

/-- `ReceivedBlockTransactions`: stores the data of a block, which is linked with all that waited
for it, or waits for its parent, or neither if the parent failed. -/
def receivedBlockTransactions (b : BlockAddr) : Option ChainState :=
  let st := st.setEntry b (BlockEntry.raiseValidity { st.entry b with
    nTx := tree.vtxSize b % 2 ^ 32
    nChainTx := 0
    BLOCK_HAVE_DATA := true } BLOCK_VALID_TRANSACTIONS)
  match tree.parent b with
  | none => st.processQueue tree (st.mapBlocksUnlinked.length + 1) [b]
  | some pprev =>
    if (st.entry pprev).nChainTx ≠ 0 then
      st.processQueue tree (st.mapBlocksUnlinked.length + 1) [b]
    else if (st.entry pprev).isValid BLOCK_VALID_TREE then
      some { st with mapBlocksUnlinked := st.mapBlocksUnlinked ++ [(pprev, b)] }
    else
      some st

/-- The part of `AcceptBlock` behind the check of the parent. -/
def acceptBlockData (b : BlockAddr) : Option ChainState :=
  match st.acceptBlockHeader tree b with
  | none => some st
  | some st => if (st.entry b).BLOCK_HAVE_DATA then some st else st.receivedBlockTransactions tree b

/-- `AcceptBlock`, for a block that passes the checks of its own.  Left out is the case of a failed
parent that matches a checkpoint, which is reconsidered and activated. -/
def acceptBlock (b : BlockAddr) : Option ChainState :=
  match tree.parent b with
  | none => st.acceptBlockData tree b
  | some pprev =>
    if pprev ∉ st.mapBlockIndex ∨ (st.entry pprev).failed then some st
    else st.acceptBlockData tree b

/-! ### Choosing the chain to work towards -/

/-- From a block down to the active chain, the block first. -/
def offChain (b : BlockAddr) : List BlockAddr :=
  (tree.line b).takeWhile fun pindexTest => !st.contains tree pindexTest

/-- Neither failed nor without data. -/
def usable (b : BlockAddr) : Bool :=
  !(st.entry b).failed && (st.entry b).BLOCK_HAVE_DATA

/-- A step of the loop that removes the chain above a block that is not usable. -/
def dropFailed (fFailedChain : Bool) (st : ChainState) (pindexFailed : BlockAddr) : ChainState :=
  let st :=
    if fFailedChain then
      st.setEntry pindexFailed { st.entry pindexFailed with BLOCK_FAILED_CHILD := true }
    else
      match tree.parent pindexFailed with
      | none => st
      | some pprev =>
        { st with mapBlocksUnlinked := st.mapBlocksUnlinked ++ [(pprev, pindexFailed)] }
  st.eraseCandidate pindexFailed

/-- The rounds of `FindMostWorkChain`; each but the last removes a candidate. -/
def findLoop : Nat → ChainState → Option (Option BlockAddr × ChainState)
  | 0, _ => none
  | fuel + 1, st =>
    match st.bestCandidate tree with
    | none => some (none, st)
    | some pindexNew =>
      let path := st.offChain tree pindexNew
      let above := path.takeWhile st.usable
      let below := path.dropWhile st.usable
      if !(above ++ below.take 1).all
          fun b => (st.entry b).nChainTx ≠ 0 ∨ tree.height b = 0 then
        none
      else
        match below with
        | [] => some (some pindexNew, st)
        | pindexTest :: _ =>
          let st := above.foldl (dropFailed tree (st.entry pindexTest).failed) st
          findLoop fuel (st.eraseCandidate pindexTest)

/-- `FindMostWorkChain`: the best candidate with data all the way down, `none` inside if there is
none. -/
def findMostWorkChain : Option (Option BlockAddr × ChainState) :=
  st.findLoop tree (st.setBlockIndexCandidates.length + 1)

/-! ### Working towards it -/

/-- Drops the candidates that are worse than the tip; the assertion asks for one that is left. -/
def pruneBlockIndexCandidates : Option ChainState :=
  let candidates := st.setBlockIndexCandidates.filter fun b => !st.worse tree b st.tip
  if candidates.isEmpty then none else some { st with setBlockIndexCandidates := candidates }

/-- The tip moves to its parent. -/
def disconnectTip : Option ChainState :=
  (tree.parent st.tip).map fun pprev => { st with tip := pprev }

/-- `InvalidBlockFound`, without the corruption flag. -/
def invalidBlockFound (b : BlockAddr) : ChainState :=
  (st.setEntry b { st.entry b with BLOCK_FAILED_VALID := true }).eraseCandidate b

/-- A successful `ConnectTip`. -/
def connectTip (b : BlockAddr) : ChainState :=
  { st.setEntry b ((st.entry b).raiseValidity BLOCK_VALID_SCRIPTS) with tip := b }

variable (verdict : BlockAddr → Bool)

/-- Connects a batch of blocks; whether the outer loop continues after it. -/
def connectBlocks (pindexOldTip : BlockAddr) :
    List BlockAddr → ChainState → Option (ChainState × Bool)
  | [], st => some (st, true)
  | b :: rest, st =>
    if tree.parent b ≠ some st.tip then
      none
    else if !verdict b then
      some (st.invalidBlockFound b, false)
    else
      match (st.connectTip b).pruneBlockIndexCandidates tree with
      | none => none
      | some st =>
        if tree.nChainWork st.tip > tree.nChainWork pindexOldTip then some (st, false)
        else connectBlocks pindexOldTip rest st

/-- The ancestors above one height up to another, lowest first. -/
def vpindexToConnect (pindexMostWork : BlockAddr) (nHeight nTargetHeight : Nat) :
    List BlockAddr :=
  match tree.ancestor pindexMostWork nTargetHeight with
  | none => []
  | some pindexIter =>
    ((tree.line pindexIter).takeWhile fun b => tree.height b ≠ nHeight).reverse

/-- The outer loop of `ActivateBestChainStep`, in batches of 32 blocks. -/
def connectBatches (pindexOldTip pindexMostWork : BlockAddr) :
    Nat → Nat → ChainState → Option ChainState
  | 0, _, _ => none
  | fuel + 1, nHeight, st =>
    if nHeight = tree.height pindexMostWork then
      some st
    else
      let nTargetHeight := min (nHeight + 32) (tree.height pindexMostWork)
      match st.connectBlocks tree verdict pindexOldTip
          (vpindexToConnect tree pindexMostWork nHeight nTargetHeight) with
      | none => none
      | some (st, false) => some st
      | some (st, true) => connectBatches pindexOldTip pindexMostWork fuel nTargetHeight st

variable (st : ChainState)

/-- `chainActive.FindFork`, with the jump to the height of the active chain first. -/
def findFork (pindex : BlockAddr) : Option BlockAddr :=
  let start :=
    if tree.height pindex > tree.height st.tip then tree.ancestor pindex (tree.height st.tip)
    else some pindex
  start.bind fun b => (tree.line b).find? (st.contains tree)

/-- Disconnects blocks until the fork is the tip. -/
def disconnectTo (pindexFork : BlockAddr) : Nat → ChainState → Option ChainState
  | 0, st => if st.tip = pindexFork then some st else none
  | fuel + 1, st =>
    if st.tip = pindexFork then some st
    else (st.disconnectTip tree).bind (disconnectTo pindexFork fuel)

/-- Disconnects down to the fork, then connects towards the best candidate. -/
def activateBestChainStep (pindexMostWork : BlockAddr) :
    Option ChainState := do
  let pindexFork ← st.findFork tree pindexMostWork
  let next ← st.disconnectTo tree pindexFork (tree.height st.tip)
  next.connectBatches tree verdict st.tip pindexMostWork (tree.height pindexMostWork + 1)
    (tree.height pindexFork)

/-- The loop of `ActivateBestChain`; with enough fuel, the state when it returns true. -/
def activateBestChain : Nat → ChainState → Option ChainState
  | 0, _ => none
  | fuel + 1, st =>
    match st.findMostWorkChain tree with
    | none => none
    | some (none, st) => some st
    | some (some pindexMostWork, st) =>
      if pindexMostWork = st.tip then
        some st
      else
        match st.activateBestChainStep tree verdict pindexMostWork with
        | none => none
        | some st =>
          if pindexMostWork = st.tip then some st else activateBestChain fuel st

/-! ### Manual invalidation and reconsideration -/

/-- Marks and disconnects the tip while the block is in the active chain. -/
def disconnectThrough (pindex : BlockAddr) : Nat → ChainState → Option ChainState
  | 0, st => if st.contains tree pindex then none else some st
  | fuel + 1, st =>
    if st.contains tree pindex then
      let marked := st.setEntry st.tip { st.entry st.tip with BLOCK_FAILED_CHILD := true }
      ((marked.eraseCandidate st.tip).disconnectTip tree).bind (disconnectThrough pindex fuel)
    else
      some st

/-- Whether `InvalidateBlock` adds a block to the candidates again. -/
def mayBeCandidate (b : BlockAddr) : Bool :=
  (st.entry b).isValid BLOCK_VALID_TRANSACTIONS && (st.entry b).nChainTx ≠ 0 &&
    !st.worse tree b st.tip

/-- Every block that is as good as the tip and can be connected is a candidate again. -/
def restoreCandidates : ChainState :=
  st.mapBlockIndex.foldl
    (fun st b => if st.mayBeCandidate tree b then st.insertCandidate b else st) st

/-- `InvalidateBlock`: flags the block, disconnects the active blocks from it up, flagged as
descendants, and restores the candidates. -/
def invalidateBlock (pindex : BlockAddr) : Option ChainState :=
  let st := st.setEntry pindex { st.entry pindex with BLOCK_FAILED_VALID := true }
  let st := st.eraseCandidate pindex
  (st.disconnectThrough tree pindex (tree.height st.tip + 1)).map (restoreCandidates tree)

/-- What `ReconsiderBlock` does with a block of the map. -/
def reconsiderEntry (pindex : BlockAddr) (st : ChainState) (b : BlockAddr) : ChainState :=
  if !(st.entry b).isValid BLOCK_VALID_TRANSACTIONS &&
      tree.ancestor b (tree.height pindex) == some pindex then
    let st := st.setEntry b (st.entry b).clearFailed
    if (st.entry b).isValid BLOCK_VALID_TRANSACTIONS && (st.entry b).nChainTx ≠ 0 &&
        st.worse tree st.tip b then
      st.insertCandidate b
    else
      st
  else
    st

/-- What `ReconsiderBlock` does with the block and its ancestors in the end. -/
def clearAncestor (b : BlockAddr) : ChainState :=
  if (st.entry b).failed then st.setEntry b (st.entry b).clearFailed else st

/-- `ReconsiderBlock`: the flags of the block, its descendants and its ancestors are cleared. -/
def reconsiderBlock (pindex : BlockAddr) : ChainState :=
  let st := st.mapBlockIndex.foldl (reconsiderEntry tree pindex) st
  (tree.line pindex).foldl clearAncestor st

/-! ### Processing blocks again after a spork has changed -/

/-- `DisconnectBlocksAndReprocess`; its loop runs once more than asked for. -/
def disconnectBlocksAndReprocess (blocks : Nat) (st : ChainState) : Option ChainState :=
  (List.range (blocks + 1)).foldlM (fun st _ => st.disconnectTip tree) st

/-- The rejected blocks, with the times of their rejection, that `ReprocessBlocks` reconsiders. -/
def recentlyRejected (mapRejectedBlocks : List (BlockAddr × Int)) (getTime : Int)
    (nBlocks : Nat) (st : ChainState) : List BlockAddr :=
  (mapRejectedBlocks.filter fun rejected =>
    rejected.2 > getTime - nBlocks * 60 * 5 ∧ rejected.1 ∈ st.mapBlockIndex).map Prod.fst

/-- `ReprocessBlocks`: recently rejected blocks are reconsidered, the last blocks disconnected and
the best chain activated. -/
def reprocessBlocks (mapRejectedBlocks : List (BlockAddr × Int)) (getTime : Int)
    (nBlocks : Nat) (fuel : Nat) (st : ChainState) : Option ChainState :=
  let recent := st.recentlyRejected mapRejectedBlocks getTime nBlocks
  let st := recent.foldl (reconsiderBlock tree) st
  (st.disconnectBlocksAndReprocess tree nBlocks).bind (activateBestChain tree verdict fuel)

end ChainState

/-! ### Runs -/

/-- What happens to the chain state from outside. -/
inductive ChainEvent where
  | header (b : BlockAddr)
  /-- The data of a block arrives, whose header was accepted. -/
  | blockData (b : BlockAddr)
  /-- A block arrives, with its header. -/
  | accept (b : BlockAddr)
  | activate (verdict : BlockAddr → Bool) (fuel : Nat)
  | invalidate (b : BlockAddr)
  | reconsider (b : BlockAddr)

namespace ChainState

variable (tree : BlockTree)

/-- The state after an event, `none` if there is no such event or it does not return.  Left out is
`InvalidateBlock` of genesis, which sets flags and then fails to disconnect. -/
def applyEvent (st : ChainState) : ChainEvent → Option ChainState
  | .header b => some ((st.acceptBlockHeader tree b).getD st)
  | .blockData b =>
    if b ∈ st.mapBlockIndex ∧ ¬(st.entry b).BLOCK_HAVE_DATA then
      st.receivedBlockTransactions tree b
    else
      none
  | .accept b => st.acceptBlock tree b
  | .activate verdict fuel => st.activateBestChain tree verdict fuel
  | .invalidate b => if b ∈ st.mapBlockIndex then st.invalidateBlock tree b else none
  | .reconsider b => if b ∈ st.mapBlockIndex then some (st.reconsiderBlock tree b) else none

/-- A history of the node. -/
def run (st : ChainState) (events : List ChainEvent) : Option ChainState :=
  runFrom (applyEvent tree) st events

end ChainState

end Divi
