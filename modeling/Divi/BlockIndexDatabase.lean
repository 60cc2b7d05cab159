/-
Storing the block index and loading it again.

A loaded block index lives on a heap, in which the address of an entry is the hash of its block:
`mapBlockIndex` has one entry for each hash, and a pointer is `none` where it is null.  An access
through a null pointer, and an error of the loading, have no result.

A record has the header of a block, but with the hash of the parent that was found, and the hash
under which the block is loaded is computed from that.  The bytes of a record are those of its
fields.  Chain work, transaction counts and the candidates for the active chain, which nothing
below reads, are left out.
-/
import Divi.BlockIndex
import Divi.Lib.Sorting

namespace Divi

/-! ### Records -/

/-- Lottery data as it is written: the coinstakes only where they are local. -/
structure LotteryCoinstakeRecord where
  storageIsLocal : Bool
  coinstakes : Option LotteryCoinstakes
  heightOfDataStorage : Int
  deriving DecidableEq, Repr

namespace LotteryCoinstakeData

/-- `SerializationOp` for writing. -/
def write (data : LotteryCoinstakeData) : LotteryCoinstakeRecord where
  storageIsLocal := data.storageIsLocal
  coinstakes := if data.storageIsLocal then some data.storage else none
  heightOfDataStorage := data.heightOfDataStorage

/-- `SerializationOp` for reading into a new object, which has an empty storage. -/
def read (record : LotteryCoinstakeRecord) : LotteryCoinstakeData where
  storage := record.coinstakes.getD []
  heightOfDataStorage := record.heightOfDataStorage
  storageIsLocal := record.storageIsLocal

/-- The height whose list is stored. -/
def height (data : LotteryCoinstakeData) : Int :=
  data.heightOfDataStorage

/-- A shared list is found again at the block that stores it. -/
def updateShallowDataStore (data other : LotteryCoinstakeData) : LotteryCoinstakeData :=
  if !data.storageIsLocal && other.storageIsLocal && other.height = data.heightOfDataStorage then
    { data with storage := other.storage }
  else
    data

end LotteryCoinstakeData

/-- A block index as it is stored. -/
structure CDiskBlockIndex where
  /-- The fields of the block index, apart from the lottery data. -/
  index : CBlockIndex
  vLotteryWinnersCoinstakes : LotteryCoinstakeRecord
  hashPrev : uint256
  hashNext : uint256 := 0
  deriving DecidableEq, Repr

namespace CDiskBlockIndex

/-- The record of a block on top of a path. -/
def ofBlockIndex (pindex : CBlockIndex) (pprev : BlockPointer) : CDiskBlockIndex where
  index := { pindex with vLotteryWinnersCoinstakes := {} }
  vLotteryWinnersCoinstakes := pindex.vLotteryWinnersCoinstakes.write
  hashPrev := match pprev with
    | [] => 0
    | prev :: _ => prev.phashBlock

/-- The fields as they are read. -/
def toBlockIndex (diskindex : CDiskBlockIndex) : CBlockIndex :=
  { diskindex.index with
    vLotteryWinnersCoinstakes := LotteryCoinstakeData.read diskindex.vLotteryWinnersCoinstakes }

end CDiskBlockIndex

/-! ### The heap -/

/-- A block index with its pointers. -/
structure BlockIndexNode where
  index : CBlockIndex
  pprev : Option uint256 := none
  pnext : Option uint256 := none
  pskip : Option uint256 := none
  deriving DecidableEq, Repr

/-- `mapBlockIndex`. -/
abbrev BlockHeap := Std.TreeMap uint256 BlockIndexNode

/-- Clears the lowest bit set. -/
def invertLowestOne (n : Int) : Int :=
  (n.toNat &&& (n - 1).toNat : Nat)

/-- The height a skip pointer leads to. -/
def getSkipHeight (height : Int) : Int :=
  if height < 2 then 0
  else if height % 2 = 1 then invertLowestOne (invertLowestOne (height - 1)) + 1
  else invertLowestOne height

namespace BlockHeap

/-- The loop of `GetAncestor`; every round lowers the height of the walk. -/
def walk (heap : BlockHeap) (height : Int) : Nat → Option uint256 → Int → Option (Option uint256)
  | 0, _, _ => none
  | fuel + 1, pindexWalk, heightWalk =>
    if heightWalk > height then
      match pindexWalk.bind (heap[·]?) with
      | none => none
      | some node =>
        let heightSkip := getSkipHeight heightWalk
        let heightSkipPrev := getSkipHeight (heightWalk - 1)
        if heightSkip = height ∨
            (heightSkip > height ∧
              ¬ (heightSkipPrev < heightSkip - 2 ∧ heightSkipPrev ≥ height)) then
          walk heap height fuel node.pskip heightSkip
        else
          walk heap height fuel node.pprev (heightWalk - 1)
    else
      some pindexWalk

/-- `GetAncestor` along skip pointers; the outer `none` is a null pointer followed. -/
def getAncestor (heap : BlockHeap) (pindex : uint256) (height : Int) : Option (Option uint256) :=
  match heap[pindex]? with
  | none => none
  | some node =>
    if height > node.index.nHeight ∨ height < 0 then some none
    else walk heap height ((node.index.nHeight - height).toNat + 1) (some pindex) node.index.nHeight

/-- `InsertBlockIndex`: the pointer, and the heap with a new entry if there was none. -/
def insertBlockIndex (heap : BlockHeap) (hash : uint256) : Option uint256 × BlockHeap :=
  if hash = 0 then (none, heap)
  else (some hash, heap.insertIfNew hash { index := { phashBlock := hash, nHeight := 0 } })

/-- `BuildSkip` of an entry that has a parent. -/
def buildSkip (heap : BlockHeap) (pindex pprev : uint256) (nHeight : Int) : Option BlockHeap :=
  (heap.getAncestor pprev (getSkipHeight nHeight)).map fun pskip =>
    heap.modify pindex fun node => { node with pskip := pskip }

/-- `updateShallowDataStore` with the data of the ancestor at a height. -/
def updateFromAncestor (heap : BlockHeap) (pindex : uint256) (height : Int) : Option BlockHeap :=
  match heap.getAncestor pindex height with
  | none => none
  | some pAncestor =>
    (pAncestor.bind (heap[·]?)).map fun ancestor =>
      heap.modify pindex fun node =>
        { node with
          index.vLotteryWinnersCoinstakes :=
            node.index.vLotteryWinnersCoinstakes.updateShallowDataStore
              ancestor.index.vLotteryWinnersCoinstakes }

end BlockHeap

/-! ### Loading -/

/-- What loading the index depends on. -/
structure BlockTreeParameters where
  nLastPOWBlock : Int
  /-- Whether the hash of a block meets the target in its header. -/
  checkProofOfWork : uint256 → Bool
  /-- The hash of the header of a block, with another hash of a parent in it. -/
  headerHash : uint256 → uint256 → uint256
  /-- `std::sort` of pairs of a height and a pointer: pointers of equal height come in any order. -/
  sortByHeight : (key : uint256 → Int) → SortBy key

namespace BlockTreeParameters

variable (params : BlockTreeParameters)

/-- `GetBlockHash` of a record. -/
def getBlockHash (diskindex : CDiskBlockIndex) : uint256 :=
  params.headerHash diskindex.index.phashBlock diskindex.hashPrev

/-- One record in the loop of `LoadBlockIndexGuts`. -/
def loadRecord (heap : BlockHeap) (diskindex : CDiskBlockIndex) : Option BlockHeap :=
  match heap.insertBlockIndex (params.getBlockHash diskindex) with
  | (none, _) => none
  | (some pindexNew, heap) =>
    let (pprev, heap) := heap.insertBlockIndex diskindex.hashPrev
    let (pnext, heap) := heap.insertBlockIndex diskindex.hashNext
    let index := { diskindex.toBlockIndex with phashBlock := pindexNew }
    if index.nHeight ≤ params.nLastPOWBlock ∧ !params.checkProofOfWork pindexNew then
      none
    else
      some (heap.modify pindexNew fun node =>
        { node with index := index, pprev := pprev, pnext := pnext })

/-- `LoadBlockIndexGuts`: the nodes of all records. -/
def loadBlockIndexGuts (records : List CDiskBlockIndex) : Option BlockHeap :=
  records.foldlM params.loadRecord ∅

/-- One block in the loop of `LoadBlockIndexDB`. -/
def linkBlock (heap : BlockHeap) (pindex : uint256) : Option BlockHeap :=
  match heap[pindex]? with
  | none => none
  | some node =>
    match node.pprev with
    | none => some heap
    | some pprev =>
      (heap.buildSkip pindex pprev node.index.nHeight).bind fun heap =>
        heap.updateFromAncestor pindex node.index.vLotteryWinnersCoinstakes.height

/-- The height by which an entry is sorted. -/
def heightIn (heap : BlockHeap) (pindex : uint256) : Int :=
  match heap[pindex]? with
  | none => 0
  | some node => node.index.nHeight

/-- The part of `LoadBlockIndexDB` that restores the entries of `mapBlockIndex`. -/
def loadBlockIndexDB (records : List CDiskBlockIndex) : Option BlockHeap := do
  let heap ← params.loadBlockIndexGuts records
  let vSortedByHeight := (params.sortByHeight (heightIn heap)).sort heap.keys
  vSortedByHeight.foldlM linkBlock heap

end BlockTreeParameters

end Divi
