/-
Block indices and chains of them.

A `CBlockIndex *` of the source is a node of a tree linked through `pprev`.  What is
ever read through such a pointer is the block and its ancestors, so the pointer is
modelled as that path: the block first, then its parent, and so on to genesis, with
`[]` for null.  `CChain` is the path of its tip.
-/
import Divi.Primitives

namespace Divi

/-! ### Lottery data attached to a block -/

/-- The hash of a coinstake and the script that is paid if it wins. -/
abbrev LotteryCoinstake := uint256 × CScript

/-- The list of winners, the best first. -/
abbrev LotteryCoinstakes := List LotteryCoinstake

/-- The winners of a block, its own or those of an ancestor. -/
structure LotteryCoinstakeData where
  storage : LotteryCoinstakes := []
  heightOfDataStorage : Int := 0
  storageIsLocal : Bool := true
  deriving DecidableEq, Repr

namespace LotteryCoinstakeData

def getLotteryCoinstakes (data : LotteryCoinstakeData) : LotteryCoinstakes :=
  data.storage

/-- The list of the parent, shared. -/
def getShallowCopy (data : LotteryCoinstakeData) : LotteryCoinstakeData :=
  { data with storageIsLocal := false }

end LotteryCoinstakeData

/-! ### Blocks -/

/-- A block, with the hash of its header as a field. -/
structure CBlock where
  hash : uint256
  hashPrevBlock : uint256
  nTime : Int
  vtx : List CTransaction
  deriving DecidableEq, Repr

/-- The second transaction is a coinstake. -/
def CBlock.isProofOfStake (block : CBlock) : Bool :=
  match block.vtx with
  | _ :: tx :: _ => tx.isCoinStake
  | _ => false

/-! ### Block indices -/

/-- What the index keeps of a block. -/
structure CBlockIndex where
  phashBlock : uint256
  nHeight : Int
  nTime : Int := 0
  /-- The `BLOCK_PROOF_OF_STAKE` bit of `nFlags`. -/
  fProofOfStake : Bool := false
  /-- The `BLOCK_STAKE_MODIFIER` bit of `nFlags`. -/
  fGeneratedStakeModifier : Bool := false
  nStakeModifier : BitVec 64 := 0
  nMint : Int := 0
  nMoneySupply : Int := 0
  vLotteryWinnersCoinstakes : LotteryCoinstakeData := {}
  deriving DecidableEq, Repr

/-- A pointer to a block index: the block and its ancestors, `[]` for null. -/
abbrev BlockPointer := List CBlockIndex

namespace BlockPointer

/-- `pprev`. -/
def pprev (pindex : BlockPointer) : BlockPointer :=
  pindex.tail

/--
`GetAncestor`: null above the block and below genesis, and otherwise as many steps
back as the heights differ.  The skip list of the source only shortens the walk.
-/
def getAncestor (pindex : BlockPointer) (height : Int) : BlockPointer :=
  match pindex with
  | [] => []
  | block :: _ =>
    if height > block.nHeight ∨ height < 0 then []
    else pindex.drop (block.nHeight - height).toNat

/-- Heights count down to genesis at zero. -/
def HeightsOK : BlockPointer → Prop
  | [] => True
  | block :: prev => block.nHeight = prev.length ∧ HeightsOK prev

instance decidableHeightsOK : (pindex : BlockPointer) → Decidable (HeightsOK pindex)
  | [] => isTrue trivial
  | block :: prev =>
    have := decidableHeightsOK prev
    inferInstanceAs (Decidable (block.nHeight = prev.length ∧ HeightsOK prev))

end BlockPointer

/-! ### Active chain -/

/-- The active chain, as the path of its tip. -/
abbrev CChain := BlockPointer

namespace CChain

/-- `Height()`, -1 if the chain is empty. -/
def height (chain : CChain) : Int :=
  (chain.length : Int) - 1

/-- The `[]` operator: the block of a height, null outside the chain. -/
def atHeight (chain : CChain) (nHeight : Int) : BlockPointer :=
  if nHeight < 0 ∨ nHeight ≥ chain.length then []
  else chain.drop (chain.length - 1 - nHeight.toNat)

end CChain

/-! ### Forks -/

/-- The changes of the rules that are active by time. -/
inductive Fork
  | TestByTimestamp
  | HardenedStakeModifier
  | UniformLotteryWinners
  deriving DecidableEq, Repr

def unixTimestampForDec31stMidnight : Int := 1609459199

namespace Fork

/-- When a fork starts. -/
def activationTime : Fork → Int
  | TestByTimestamp => 1000000000
  | HardenedStakeModifier => unixTimestampForDec31stMidnight
  | UniformLotteryWinners => unixTimestampForDec31stMidnight

/-- `ActivationState(pindex).IsActive(f)`; no fork can be overridden by hand. -/
def isActive (f : Fork) (pindex : CBlockIndex) : Bool :=
  pindex.nTime ≥ f.activationTime

end Fork

end Divi
