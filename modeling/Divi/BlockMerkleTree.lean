/-
The Merkle tree of a block as `primitives/block.cpp` keeps it: all levels in one vector.

`BuildMerkleTree` puts the hashes of the transactions into `vMerkleTree` and appends the hashes of
their pairs level by level; `GetMerkleBranch` reads siblings out of that vector, which it builds
only if it is empty.  `j` is where a level starts and `nSize` how many nodes it has.  The hash of
two nodes is a parameter.
-/
import Divi.Chain

namespace Divi

/-- The `vMerkleTree` of a block, and `mutated`. -/
structure MerkleVector where
  vMerkleTree : List uint256
  mutated : Bool := false
  deriving DecidableEq, Repr

namespace MerkleVector

variable (hash : uint256 → uint256 → uint256)

/-- The body of the inner loop. -/
def pushPair (j nSize : Nat) (vector : MerkleVector) (i : Nat) : MerkleVector :=
  let i2 := min (i + 1) (nSize - 1)
  let left := vector.vMerkleTree.getD (j + i) 0
  let right := vector.vMerkleTree.getD (j + i2) 0
  -- two identical hashes at the end of the list at a particular level
  { vMerkleTree := vector.vMerkleTree ++ [hash left right]
    mutated := vector.mutated || decide (i2 = i + 1 ∧ i2 + 1 = nSize ∧ left = right) }

/-- The outer loop; the inner one takes every second position of the level. -/
def pushLevels (vector : MerkleVector) (j nSize : Nat) : MerkleVector :=
  if 1 < nSize then
    pushLevels ((List.range' 0 ((nSize + 1) / 2) 2).foldl (pushPair hash j nSize) vector)
      (j + nSize) ((nSize + 1) / 2)
  else
    vector
termination_by nSize

/-- What `BuildMerkleTree` returns. -/
def root (vector : MerkleVector) : uint256 := vector.vMerkleTree.getLast?.getD 0

/-- The loop of `GetMerkleBranch`. -/
def readSiblings (vMerkleTree : List uint256) (j nSize nIndex : Nat) : List uint256 :=
  if 1 < nSize then
    vMerkleTree.getD (j + min (nIndex ^^^ 1) (nSize - 1)) 0 ::
      readSiblings vMerkleTree (j + nSize) ((nSize + 1) / 2) (nIndex >>> 1)
  else
    []
termination_by nSize

end MerkleVector

namespace CBlock

variable (hash : uint256 → uint256 → uint256) (block : CBlock)

/-- `BuildMerkleTree`: all levels, the leaves first. -/
def buildMerkleVector : MerkleVector :=
  .pushLevels hash { vMerkleTree := block.vtx.map CTransaction.hash } 0 block.vtx.length

/-- `GetMerkleBranch`. -/
def readMerkleBranch (vMerkleTree : List uint256) (nIndex : Nat) : List uint256 :=
  let vMerkleTree :=
    if vMerkleTree.isEmpty then (block.buildMerkleVector hash).vMerkleTree else vMerkleTree
  MerkleVector.readSiblings vMerkleTree 0 block.vtx.length nIndex

end CBlock

end Divi
