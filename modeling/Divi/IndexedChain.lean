/-
The active chain with its coins and indices, as blocks come and go at the tip.

The checks of `ConnectBlock` are a parameter: a block they refuse, or whose inputs are not there,
changes nothing.  Undo data is written when a block is connected for the first time and stays on
disk.  A disconnection that reports a problem leaves the chain and the coins as they were, but by
then the indices are updated.
-/
import Divi.Chain
import Divi.IndexUpdates
import Divi.Lib.Runs

namespace Divi

/-- An active chain with its outputs and its indices. -/
structure IndexedChain where
  /-- The blocks above genesis, the tip first. -/
  blocks : List CBlock := []
  view : CCoinsViewCache := {}
  /-- The undo data on disk, by the hash of the block. -/
  undoData : Finmap (fun _ : uint256 => List CTxUndo) := ∅
  dbs : IndexDatabases := {}

/-- What happens to the tip. -/
inductive TipEvent
  | connect (block : CBlock)
  | disconnect

namespace IndexedChain

variable (flags : IndexFlags) (checks : IndexedChain → CBlock → Bool) (chain : IndexedChain)

/-- `WriteUndoDataToDisk`. -/
def writeUndoDataToDisk (block : CBlock) (vtxundo : List CTxUndo) :
    Finmap (fun _ : uint256 => List CTxUndo) :=
  if (chain.undoData.lookup block.hash).isNone then
    chain.undoData.insert block.hash vtxundo
  else
    chain.undoData

/-- Connects a block that passes the checks. -/
def connectTip (block : CBlock) : IndexedChain :=
  if checks chain block then
    match connectBlockWithIndices flags (chain.blocks.length + 1) block.vtx chain.view
        chain.dbs with
    | none => chain
    | some (view, vtxundo, dbs) =>
      { blocks := block :: chain.blocks
        view := view
        undoData := chain.writeUndoDataToDisk block vtxundo
        dbs := dbs }
  else
    chain

/-- `DisconnectTip`, which calls `DisconnectBlock` without a `pfClean`; genesis stays. -/
def disconnectTip : Option IndexedChain :=
  match chain.blocks with
  | [] => some chain
  | block :: rest =>
    match chain.undoData.lookup block.hash with
    | none => some chain
    | some vtxundo => do
      let (success, view, dbs) ←
        disconnectBlock flags (rest.length + 1) block.vtx vtxundo chain.view chain.dbs
      if success then
        some { chain with blocks := rest, view := view, dbs := dbs }
      else
        some { chain with dbs := dbs }

def step : TipEvent → Option IndexedChain
  | .connect block => some (connectTip flags checks chain block)
  | .disconnect => disconnectTip flags chain

/-- The state after some events from genesis on. -/
def run (events : List TipEvent) : Option IndexedChain :=
  runFrom (step flags checks) {} events

end IndexedChain

end Divi
