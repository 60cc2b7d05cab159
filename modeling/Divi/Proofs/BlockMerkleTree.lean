/-
The Merkle tree of a block: branches lead to the root, and the root determines the transactions.

The vector of `BuildMerkleTree` has the levels of `Lib/MerkleTree.lean` one after the other, and
`mutated` says that one of them ends in twins: `buildMerkleVector_eq`.  What is read from the vector
is then the branch of that tree.
-/
import Divi.BlockMerkleTree
import Divi.WalletTransactions

namespace Divi

open MerkleTree List

variable {hash : uint256 → uint256 → uint256}

namespace MerkleVector

/-- The inner loop, from a position on: `before` are the nodes up to there. -/
theorem foldl_pushPair (before rest pushed : List uint256) (mutated : Bool) {j nSize i : Nat}
    (hst : before.length = j + i) (hsize : i + rest.length = nSize) :
    (List.range' i ((rest.length + 1) / 2) 2).foldl (pushPair hash j nSize)
        ⟨before ++ rest ++ pushed, mutated⟩ =
      ⟨before ++ rest ++ (pushed ++ nextLevel hash rest),
        mutated || endsInTwins rest⟩ := by
  induction rest using nextLevel.induct generalizing before pushed mutated i with
  | case1 => simp [nextLevel, endsInTwins]
  | case2 a =>
    have hself : min (i + 1) (nSize - 1) = i := by grind
    simp [pushPair, nextLevel, endsInTwins, hself, ← hst]
  | case3 a b rest ih =>
    have hnext : min (i + 1) (nSize - 1) = i + 1 := by grind
    have hpush : pushPair hash j nSize ⟨before ++ a :: b :: rest ++ pushed, mutated⟩ i =
        ⟨(before ++ [a, b]) ++ rest ++ (pushed ++ [hash a b]),
          mutated || decide (rest = [] ∧ a = b)⟩ := by
      have hend : i + 1 + 1 = nSize ↔ rest = [] := by
        rw [← length_eq_zero_iff]
        simp only [length_cons] at hsize
        omega
      simp [pushPair, hnext, hend, ← hst, ← Nat.add_assoc, List.getElem?_append]
    have hcnt : ((a :: b :: rest).length + 1) / 2 = (rest.length + 1) / 2 + 1 := by grind
    rw [hcnt, List.range'_succ, foldl_cons, hpush, ih _ _ _ (by grind) (by grind)]
    simp [nextLevel, endsInTwins, Bool.or_assoc]

theorem pushLevels_eq (before : List uint256) {level : List uint256} (mutated : Bool) {fuel : Nat}
    (hfuel : level.length ≤ fuel + 1) :
    pushLevels hash ⟨before ++ level, mutated⟩ before.length level.length =
      ⟨before ++ nodes hash fuel level,
        mutated || MerkleTree.mutated hash fuel level⟩ := by
  induction fuel generalizing before level mutated with
  | zero =>
    unfold pushLevels
    rw [if_neg (by omega)]
    simp [MerkleTree.nodes, MerkleTree.mutated]
  | succ fuel ih =>
    unfold pushLevels MerkleTree.nodes MerkleTree.mutated
    by_cases hle : level.length ≤ 1
    · simp [hle]
    · have hi := @foldl_pushPair hash before level [] mutated before.length level.length 0 rfl
        (Nat.zero_add _)
      rw [append_nil, nil_append] at hi
      have hlen := length_nextLevel hash level
      rw [if_pos (by omega), if_neg hle, if_neg hle, hi, ← hlen, ← length_append,
        ih _ _ (by omega)]
      simp [Bool.or_assoc]

theorem readSiblings_eq (before : List uint256) {level : List uint256} {fuel : Nat}
    (hfuel : level.length ≤ fuel + 1) (nIndex : Nat) :
    readSiblings (before ++ nodes hash fuel level) before.length level.length nIndex =
      branch hash fuel level nIndex := by
  induction fuel generalizing before level nIndex with
  | zero =>
    unfold readSiblings
    rw [if_neg (by omega), branch]
  | succ fuel ih =>
    unfold readSiblings branch nodes
    by_cases hle : level.length ≤ 1
    · simp [hle]
    · have hlen := length_nextLevel hash level
      have hr : min (nIndex ^^^ 1) (level.length - 1) < level.length := by omega
      rw [if_pos (by omega), if_neg hle, if_neg hle, ← append_assoc, ← hlen,
        ← length_append, ih _ (by omega), Nat.shiftRight_one]
      simp [List.getElem?_append, hr]

end MerkleVector

namespace CBlock

variable {block : CBlock}

theorem buildMerkleVector_eq (hash : uint256 → uint256 → uint256) (block : CBlock) :
    block.buildMerkleVector hash =
      ⟨nodes hash block.vtx.length (block.vtx.map CTransaction.hash),
        mutated hash block.vtx.length (block.vtx.map CTransaction.hash)⟩ := by
  have hl := @MerkleVector.pushLevels_eq hash [] (block.vtx.map CTransaction.hash) false
    block.vtx.length (by simp)
  simpa [buildMerkleVector] using hl

/-- The vector leads to the root of the tree. -/
theorem root_buildMerkleVector (hash : uint256 → uint256 → uint256) (block : CBlock) :
    (block.buildMerkleVector hash).root = block.buildMerkleTree hash := by
  rw [buildMerkleVector_eq, MerkleVector.root, getLast_nodes hash (by simp)]
  rfl

theorem readMerkleBranch_eq {vMerkleTree : List uint256}
    (hb : vMerkleTree = [] ∨ vMerkleTree = (block.buildMerkleVector hash).vMerkleTree)
    (nIndex : Nat) :
    block.readMerkleBranch hash vMerkleTree nIndex = block.getMerkleBranch hash nIndex := by
  have hr := @MerkleVector.readSiblings_eq hash [] (block.vtx.map CTransaction.hash)
    block.vtx.length (by simp) nIndex
  have hv : (if vMerkleTree.isEmpty then (block.buildMerkleVector hash).vMerkleTree
      else vMerkleTree) = (block.buildMerkleVector hash).vMerkleTree := by
    obtain rfl | rfl := hb
    · rfl
    · exact ite_self _
  rw [readMerkleBranch, hv, buildMerkleVector_eq]
  simpa [getMerkleBranch] using hr

theorem checkMerkleBranch_getMerkleBranch (hash : uint256 → uint256 → uint256) {i : Nat}
    (hi : i < block.vtx.length) :
    checkMerkleBranch hash block.vtx[i].hash (block.getMerkleBranch hash i) i =
      block.buildMerkleTree hash := by
  have hleaf : (block.vtx.map CTransaction.hash).getD i default = block.vtx[i].hash := by
    simp [List.getD, hi]
  have hroot : root hash block.vtx.length (block.vtx.map CTransaction.hash) =
      some (walk hash ((block.vtx.map CTransaction.hash).getD i default)
        (block.getMerkleBranch hash i) i) :=
    walk_branch hash (by simp) (by simpa using hi)
  unfold checkMerkleBranch buildMerkleTree
  rw [if_neg (by omega), hroot, hleaf]
  rfl

/-- **The branch of a transaction leads to the root**, with the vector already built or not. -/
theorem checkMerkleBranch_readMerkleBranch {vMerkleTree : List uint256}
    (hbuilt : vMerkleTree = [] ∨ vMerkleTree = (block.buildMerkleVector hash).vMerkleTree)
    {i : Nat} (hi : i < block.vtx.length) :
    checkMerkleBranch hash block.vtx[i].hash (block.readMerkleBranch hash vMerkleTree i) i =
      (block.buildMerkleVector hash).root := by
  rw [readMerkleBranch_eq hbuilt, checkMerkleBranch_getMerkleBranch hash hi, root_buildMerkleVector]

/-- A block with some transactions of which only the hashes matter. -/
def blockOf (nTime : Int) (ids : List uint256) : CBlock where
  hash := 0
  hashPrevBlock := 0
  nTime := nTime
  vtx := ids.map fun id => { hash := id, vin := [], vout := [] }

/-- A hash without collisions on the trees below. -/
def linearHash (a b : uint256) : uint256 := 3 * a + 5 * b + 7

theorem checkMerkleBranch_of_third :
    checkMerkleBranch linearHash 30 ((blockOf 0 [10, 20, 30]).readMerkleBranch linearHash [] 2) 2 =
      ((blockOf 0 [10, 20, 30]).buildMerkleVector linearHash).root :=
  @checkMerkleBranch_readMerkleBranch _ (blockOf 0 [10, 20, 30]) [] (.inl rfl) 2 (by decide)

/-- **The root determines the transactions** of blocks that are not mutated, if the hash is
injective on the nodes of their trees and yields none of their transaction ids. -/
theorem vtx_hashes_eq_of_root {other : CBlock} {nodes : Set uint256}
    (hnodes : ∀ x ∈ (block.buildMerkleVector hash).vMerkleTree ++
      (other.buildMerkleVector hash).vMerkleTree, x ∈ nodes)
    (hinj : ∀ a ∈ nodes, ∀ b ∈ nodes, ∀ c ∈ nodes, ∀ d ∈ nodes,
      hash a b = hash c d → a = c ∧ b = d)
    (hids : ∀ a ∈ nodes, ∀ b ∈ nodes, ∀ tx ∈ block.vtx ++ other.vtx, hash a b ≠ tx.hash)
    (hne : block.vtx ≠ []) (hne' : other.vtx ≠ [])
    (hblk : (block.buildMerkleVector hash).mutated = false)
    (ho : (other.buildMerkleVector hash).mutated = false)
    (hroot : (block.buildMerkleVector hash).root = (other.buildMerkleVector hash).root) :
    block.vtx.map CTransaction.hash = other.vtx.map CTransaction.hash := by
  have hsome (block : CBlock) (hne : block.vtx ≠ []) :
      root hash block.vtx.length (block.vtx.map CTransaction.hash) =
        some (block.buildMerkleVector hash).root := by
    rw [root_buildMerkleVector, buildMerkleTree, walk_branch hash (by simp)
      (i := 0) (by simpa using length_pos_iff.mpr hne)]
    rfl
  have hleaf : ∀ a ∈ nodes, ∀ b ∈ nodes, hash a b ∉ block.vtx.map CTransaction.hash ∧
      hash a b ∉ other.vtx.map CTransaction.hash := by grind
  have hr := hsome other hne'
  rw [← hroot] at hr
  rw [forall_mem_append] at hnodes
  rw [buildMerkleVector_eq] at hnodes hblk ho
  rw [buildMerkleVector_eq hash other] at hnodes
  exact root_injective hinj (by simp) (by simp) hnodes.1 hnodes.2 hleaf hblk ho
    (hsome block hne) hr

theorem vtx_hashes_eq_of_pair :
    (blockOf 0 [10, 20]).vtx.map CTransaction.hash =
      (blockOf 1 [10, 20]).vtx.map CTransaction.hash := by
  let nodes : List uint256 := [10, 20, 137]
  have hn (nTime : Int) :
      (blockOf nTime [10, 20]).buildMerkleVector linearHash = ⟨nodes, false⟩ := by
    rw [buildMerkleVector_eq]
    show (⟨MerkleTree.nodes linearHash 2 [10, 20], MerkleTree.mutated linearHash 2 [10, 20]⟩ :
      MerkleVector) = ⟨nodes, false⟩
    decide +kernel
  have hinj : (nodes.all fun a => nodes.all fun b => nodes.all fun c => nodes.all fun d =>
      linearHash a b = linearHash c d → a = c ∧ b = d) = true := by decide +kernel
  have hids : (nodes.all fun a => nodes.all fun b =>
      (blockOf 0 [10, 20, 10, 20]).vtx.all fun tx => linearHash a b ≠ tx.hash) = true := by
    decide +kernel
  simp only [all_eq_true, decide_eq_true_eq] at hinj hids
  refine @vtx_hashes_eq_of_root linearHash _ _ {x | x ∈ nodes} ?_ hinj hids (by decide) (by decide)
    (by rw [hn]) (by rw [hn]) (by rw [hn, hn])
  rw [hn, hn]
  exact fun x hx => (mem_append.mp hx).elim id id

end CBlock

end Divi
