/-
Lottery data after a restart.

Most blocks only refer to an ancestor for their lottery data, by its height.  In every tree that
`AddToBlockIndex` builds, the ancestor of that height stores the data itself, and under its own
height (`DataOK`).  Loading restores the links from child to parent first, and then the skip list
and the data in the order of heights, so that the ancestors of a block are complete when it is
their turn to be read.
-/
import Divi.Proofs.SkipList

namespace Divi

open List hiding getElem?_modify

open BlockHeap Option LotteryCoinstakeData CDiskBlockIndex BlockIndexParameters

variable {data : LotteryCoinstakeData} {path prev : BlockPointer} {hash : uint256}
  {block : CBlockIndex} {activeChain : CChain} {heap : BlockHeap} {next final : BlockMap}
  {additions : List (CBlock × CChain)} {done : List CDiskBlockIndex} {node : BlockIndexNode}

/-! ### The tree that is stored -/

/-- The data of a block on top of a path is its own, stored under its height, or that of an
ancestor which stores it under its height. -/
def DataOK (block : CBlockIndex) (prev : BlockPointer) : Prop :=
  (block.vLotteryWinnersCoinstakes.storageIsLocal = true ∧
    block.vLotteryWinnersCoinstakes.heightOfDataStorage = block.nHeight) ∨
  (block.vLotteryWinnersCoinstakes.storageIsLocal = false ∧
    ∃ ancestor ∈ prev,
      ancestor.nHeight = block.vLotteryWinnersCoinstakes.heightOfDataStorage ∧
      ancestor.vLotteryWinnersCoinstakes.storageIsLocal = true ∧
      ancestor.vLotteryWinnersCoinstakes.heightOfDataStorage = ancestor.nHeight ∧
      ancestor.vLotteryWinnersCoinstakes.storage = block.vLotteryWinnersCoinstakes.storage)

theorem calculateUpdatedLotteryWinners_cases {calculator : LotteryWinnersCalculator}
    {tx : CTransaction} {previous : LotteryCoinstakeData} {nHeight : Int}
    (h : calculator.calculateUpdatedLotteryWinners tx previous nHeight = some data) :
    (nHeight ≤ 0 ∧ data = {}) ∨
      (data.storageIsLocal = true ∧ data.heightOfDataStorage = nHeight) ∨
      (0 < nHeight ∧ data = previous.getShallowCopy) := by
  revert h
  fun_cases LotteryWinnersCalculator.calculateUpdatedLotteryWinners calculator tx previous
    nHeight with
  | case1 hlow => exact fun h => .inl ⟨hlow, (Option.some.inj h).symm⟩
  | case2 | case9 =>
    rintro ⟨⟩
    exact .inr (.inl ⟨rfl, rfl⟩)
  | case4 | case6 | case7 => rintro ⟨⟩
  | _ =>
    rintro ⟨⟩
    exact .inr (.inr ⟨by omega, rfl⟩)

/-- The hash of the parent in the record of a block. -/
def parentHash (prev : BlockPointer) : uint256 :=
  prev.address.getD 0

section

variable (headerHash : uint256 → uint256 → uint256) (store : BlockMap)

/-- Every block of a path is in the index with its own path, and its header has its hash. -/
def PathOK : BlockPointer → Prop
  | [] => True
  | block :: prev =>
    store.lookup block.phashBlock = some (block :: prev) ∧ block.phashBlock ≠ 0 ∧
      headerHash block.phashBlock (parentHash prev) = block.phashBlock ∧
      block.nHeight = prev.length ∧ DataOK block prev ∧ PathOK prev

/-- The index of a tree of blocks. -/
def StoreOK : Prop :=
  ∀ hash path, store.lookup hash = some path →
    path.address = some hash ∧ PathOK headerHash store path

end

variable {headerHash : uint256 → uint256 → uint256} {store : BlockMap}

theorem PathOK.insert {newPath : BlockPointer} (h : PathOK headerHash store path)
    (hnew : store.lookup hash = none) : PathOK headerHash (store.insert hash newPath) path := by
  induction path with
  | nil => exact trivial
  | cons block prev ih =>
    obtain ⟨hget, hzero, hh, hht, hdata, hprev⟩ := h
    have hne : block.phashBlock ≠ hash := by
      intro heq
      rw [heq, hnew] at hget
      cases hget
    refine ⟨?_, hzero, hh, hht, hdata, ih hprev⟩
    rw [Finmap.lookup_insert_of_ne _ hne]
    exact hget

theorem PathOK.heights (h : PathOK headerHash store path) : BlockPointer.HeightsOK path := by
  induction path with
  | nil => exact trivial
  | cons block prev ih => exact ⟨h.2.2.2.1, ih h.2.2.2.2.2⟩

theorem PathOK.lookup_of_mem (h : PathOK headerHash store path) (hmem : block ∈ path) :
    ∃ prev, store.lookup block.phashBlock = some (block :: prev) ∧ prev.length < path.length := by
  induction path with
  | nil => cases hmem
  | cons first rest ih =>
    obtain rfl | hr := mem_cons.mp hmem
    · exact ⟨rest, h.1, Nat.lt_succ_self _⟩
    · obtain ⟨prev, hget, hlen⟩ := ih h.2.2.2.2.2 hr
      exact ⟨prev, hget, Nat.lt_succ_of_lt hlen⟩

/-- The blocks below a block have other hashes. -/
theorem PathOK.ne_of_mem_prev {other : CBlockIndex} (h : PathOK headerHash store (block :: prev))
    (ho : other ∈ prev) : other.phashBlock ≠ block.phashBlock := by
  intro heq
  obtain ⟨rest, hget, hlen⟩ := PathOK.lookup_of_mem h.2.2.2.2.2 ho
  rw [heq, h.1] at hget
  obtain ⟨-, rfl⟩ := List.cons.inj (Option.some.inj hget)
  exact absurd hlen (Nat.lt_irrefl _)

namespace BlockIndexParameters

variable {params : BlockIndexParameters}

/-- A block that is added to a tree: genesis, or a child of a block in the tree, with the hash of
its header. -/
@[mk_iff]
structure Attaches (headerHash : uint256 → uint256 → uint256) (store : BlockMap) (block : CBlock) :
    Prop where
  parent : block.hashPrevBlock = 0 ∨ ∃ path, store.lookup block.hashPrevBlock = some path
  hash_ne_zero : block.hash ≠ 0
  hash_eq : headerHash block.hash block.hashPrevBlock = block.hash

/-- Every block of a sequence is added to the tree of those before it. -/
def AllAttach (params : BlockIndexParameters) (headerHash : uint256 → uint256 → uint256) :
    BlockMap → List (CBlock × CChain) → Prop
  | _, [] => True
  | store, (block, activeChain) :: rest =>
    Attaches headerHash store block ∧
      match params.addToBlockIndex activeChain store block with
      | none => True
      | some next => AllAttach params headerHash next rest

instance (headerHash : uint256 → uint256 → uint256) (store : BlockMap) (block : CBlock) :
    Decidable (Attaches headerHash store block) :=
  have : Decidable (∃ path, store.lookup block.hashPrevBlock = some path) :=
    decidable_of_iff _ Option.isSome_iff_exists
  decidable_of_iff _ (attaches_iff headerHash store block).symm

instance decidableAllAttach (params : BlockIndexParameters)
    (headerHash : uint256 → uint256 → uint256) : (store : BlockMap) →
      (additions : List (CBlock × CChain)) →
        Decidable (params.AllAttach headerHash store additions)
  | _, [] => isTrue trivial
  | store, (block, activeChain) :: rest =>
    @instDecidableAnd (Attaches headerHash store block) _ _ <|
      match params.addToBlockIndex activeChain store block with
      | none => isTrue trivial
      | some next => decidableAllAttach params headerHash next rest

theorem newBlockIndex_phashBlock (block : CBlock) (pprev : BlockPointer) :
    (params.newBlockIndex block pprev).phashBlock = block.hash := by
  cases pprev with
  | nil => rfl
  | cons prev rest => rfl

/-- The data of a new block refers to an ancestor if that of its parent does. -/
theorem dataOK_of_updateBlockIndexLotteryWinners {block : CBlock} {index : CBlockIndex}
    (hprev : PathOK headerHash store prev) (hht : index.nHeight = prev.length)
    (h : params.updateBlockIndexLotteryWinners activeChain block prev index.nHeight =
      some index.vLotteryWinnersCoinstakes) : DataOK index prev := by
  obtain ⟨tx, -, hc⟩ := bind_eq_some_iff.mp h
  obtain ⟨hlow, he⟩ | hl | ⟨hpos, hs⟩ :=
    calculateUpdatedLotteryWinners_cases hc
  · left
    rw [he]
    exact ⟨rfl, by dsimp only; omega⟩
  · exact .inl hl
  · cases prev with
    | nil =>
      rw [hht] at hpos
      exact absurd hpos (lt_irrefl _)
    | cons parent rest =>
      right
      obtain ⟨-, -, -, -, hpar, -⟩ := hprev
      rw [hs]
      refine ⟨rfl, ?_⟩
      obtain ⟨hl, hsto⟩ | ⟨-, ancestor, hmem, hanc⟩ := hpar
      · exact ⟨parent, mem_cons_self, hsto.symm, hl, hsto, rfl⟩
      · exact ⟨ancestor, mem_cons_of_mem parent hmem, hanc⟩

/-- The path on which a block is put, and the hash of the parent in its record. -/
theorem parentOf_ok (hs : StoreOK headerHash store) {block : CBlock}
    (ha : Attaches headerHash store block) :
    PathOK headerHash store (parentOf store block) ∧
      parentHash (parentOf store block) = block.hashPrevBlock := by
  unfold parentOf
  cases hget : store.lookup block.hashPrevBlock with
  | some path =>
    obtain ⟨haddr, hpath⟩ := hs _ path hget
    refine ⟨hpath, ?_⟩
    rw [getD_some, parentHash, haddr, getD_some]
  | none =>
    refine ⟨trivial, ?_⟩
    obtain hzero | ⟨path, hpath⟩ := ha.parent
    · exact hzero.symm
    · rw [hpath] at hget
      cases hget

/-- A block that is in the index changes nothing; another one gets an entry on top of the path of
its parent. -/
theorem addToBlockIndex_cases {block : CBlock}
    (h : params.addToBlockIndex activeChain store block = some next) :
    next = store ∨
      ∃ index : CBlockIndex, store.lookup block.hash = none ∧ index.phashBlock = block.hash ∧
        index.nHeight = newHeight (parentOf store block) ∧
        params.updateBlockIndexLotteryWinners activeChain block (parentOf store block)
          index.nHeight = some index.vLotteryWinnersCoinstakes ∧
        next = store.insert block.hash (index :: parentOf store block) := by
  unfold addToBlockIndex at h
  split at h
  next => exact .inl (Option.some.inj h).symm
  next hnew =>
    dsimp only at h
    split at h
    next => cases h
    next winners hwin =>
      have hht := @newBlockIndex_nHeight params block (parentOf store block)
      rw [← hht] at hwin
      exact .inr ⟨{ params.newBlockIndex block (parentOf store block) with
          vLotteryWinnersCoinstakes := winners },
        hnew, newBlockIndex_phashBlock block (parentOf store block), hht, hwin,
        (Option.some.inj h).symm⟩

theorem storeOK_of_addToBlockIndex {block : CBlock} (hs : StoreOK headerHash store)
    (ha : Attaches headerHash store block)
    (h : params.addToBlockIndex activeChain store block = some next) :
    StoreOK headerHash next := by
  obtain ⟨hpar, hparentHash⟩ := parentOf_ok hs ha
  obtain rfl | ⟨index, hnew, hindexHash, hindexHeight, hwin, rfl⟩ := addToBlockIndex_cases h
  · exact hs
  · have hht : index.nHeight = ((parentOf store block).length : Int) :=
      hindexHeight.trans (newHeight_eq hpar.heights)
    intro hash path hpath
    by_cases hh : hash = block.hash
    · rw [hh, Finmap.lookup_insert] at hpath
      cases hpath
      refine ⟨?_, ?_, ?_, ?_, hht, ?_, hpar.insert hnew⟩
      · rw [hh, ← hindexHash]
        rfl
      · rw [hindexHash, Finmap.lookup_insert]
      · rw [hindexHash]
        exact ha.hash_ne_zero
      · rw [hindexHash, hparentHash]
        exact ha.hash_eq
      · exact dataOK_of_updateBlockIndexLotteryWinners hpar hht hwin
    · rw [Finmap.lookup_insert_of_ne _ hh] at hpath
      obtain ⟨haddr, hpathOK⟩ := hs hash path hpath
      exact ⟨haddr, hpathOK.insert hnew⟩

theorem storeOK_of_addBlocks (hs : StoreOK headerHash store)
    (hat : params.AllAttach headerHash store additions)
    (h : params.addBlocks store additions = some final) : StoreOK headerHash final := by
  induction additions generalizing store with
  | nil => exact Option.some.inj h ▸ hs
  | cons addition rest ih =>
    obtain ⟨hatt, hr⟩ := hat
    unfold addBlocks at h
    split at h
    next => cases h
    next next ha =>
      rw [ha] at hr
      exact ih (storeOK_of_addToBlockIndex hs hatt ha) hr h

theorem storeOK_empty : StoreOK headerHash ∅ := by
  intro hash path hpath
  cases hpath

end BlockIndexParameters

/-! ### Reading the records -/

theorem read_write_of_local (h : data.storageIsLocal = true) :
    LotteryCoinstakeData.read data.write = data := by
  cases data
  simp_all [LotteryCoinstakeData.read, LotteryCoinstakeData.write]

/-- Data that is not written comes back from the ancestor that stores it. -/
theorem updateShallowDataStore_restores {other : LotteryCoinstakeData}
    (h : data.storageIsLocal = true ∨ (data.storageIsLocal = false ∧
      other.storageIsLocal = true ∧ other.heightOfDataStorage = data.heightOfDataStorage ∧
      other.storage = data.storage)) :
    (read data.write).updateShallowDataStore other = data := by
  obtain hl | ⟨hsh, ho, hht, hs⟩ := h
  · simp [read_write_of_local hl, updateShallowDataStore, hl]
  · cases data
    simp_all [LotteryCoinstakeData.updateShallowDataStore, LotteryCoinstakeData.read, write, height]

/-- The entry of a block once its record is read. -/
def readNode (block : CBlockIndex) (prev : BlockPointer) : BlockIndexNode where
  index := { block with
    vLotteryWinnersCoinstakes := LotteryCoinstakeData.read block.vLotteryWinnersCoinstakes.write }
  pprev := prev.address

/-- One record for each block of the index, in any order. -/
structure RecordsOf (store : BlockMap) (records : List CDiskBlockIndex) : Prop where
  sound : ∀ record ∈ records, ∃ block prev, store.lookup block.phashBlock = some (block :: prev) ∧
    record = CDiskBlockIndex.ofBlockIndex block prev
  complete : ∀ block prev, store.lookup block.phashBlock = some (block :: prev) →
    CDiskBlockIndex.ofBlockIndex block prev ∈ records

theorem hashPrev_ofBlockIndex (block : CBlockIndex) (prev : BlockPointer) :
    (ofBlockIndex block prev).hashPrev = parentHash prev := by
  cases prev with
  | nil => rfl
  | cons parent rest => rfl

namespace BlockHeap

theorem getElem?_insertBlockIndex (heap : BlockHeap) (hne : hash ≠ 0) (key : uint256) :
    (heap.insertBlockIndex hash).2[key]? =
      if key = hash then some (heap[hash]?.getD { index := { phashBlock := hash, nHeight := 0 } })
      else heap[key]? := by
  rw [insertBlockIndex, if_neg hne, Std.TreeMap.getElem?_insertIfNew]
  by_cases hkey : key = hash
  · simp only [hkey, if_true, Std.TreeMap.mem_iff_isSome_getElem?]
    cases heap[hash]? with
    | none => simp
    | some node => simp
  · have hc : ¬ compare hash key = Ordering.eq := fun heq =>
      hkey (Std.LawfulEqOrd.eq_of_compare heq).symm
    rw [if_neg hkey, if_neg fun h => hc h.1]

/-- The entry of a block that was not there: `CBlockIndex()` with its hash. -/
def freshNode (hash : uint256) : BlockIndexNode where
  index := { phashBlock := hash, nHeight := 0 }

theorem insertBlockIndex_of_ne (heap : BlockHeap) (hne : hash ≠ 0) :
    heap.insertBlockIndex hash = (some hash, (heap.insertBlockIndex hash).2) := by
  rw [insertBlockIndex, if_neg hne]

/-- The parent of a block gets an entry if it has none. -/
theorem insertBlockIndex_parent (heap : BlockHeap) (hprev : PathOK headerHash store prev) :
    ∃ next, heap.insertBlockIndex (parentHash prev) = (prev.address, next) ∧
      ∀ key : uint256, next[key]? = heap[key]? ∨
        (heap[key]? = none ∧ prev.address = some key ∧ next[key]? = some (freshNode key)) := by
  cases prev with
  | nil => exact ⟨heap, if_pos rfl, fun key => .inl rfl⟩
  | cons parent rest =>
    have hpar : parentHash (parent :: rest) = parent.phashBlock := rfl
    rw [hpar]
    refine ⟨_, insertBlockIndex_of_ne heap hprev.2.1, fun key => ?_⟩
    rw [getElem?_insertBlockIndex heap hprev.2.1]
    split
    next hkey =>
      rw [hkey]
      cases he : heap[parent.phashBlock]? with
      | none => exact .inr ⟨rfl, rfl, rfl⟩
      | some node => exact .inl rfl
    next => exact .inl rfl

end BlockHeap

namespace BlockTreeParameters

variable {database : BlockTreeParameters}

/-- What is on the heap after some records. -/
structure Reading (store : BlockMap) (heap : BlockHeap) (done : List CDiskBlockIndex) : Prop where
  read : ∀ block prev, store.lookup block.phashBlock = some (block :: prev) →
    CDiskBlockIndex.ofBlockIndex block prev ∈ done →
    heap[block.phashBlock]? = some (readNode block prev)
  pskip_null : ∀ (hash : uint256) (node : BlockIndexNode), heap[hash]? = some node →
    node.pskip = none
  stored : ∀ (hash : uint256) (node : BlockIndexNode), heap[hash]? = some node →
    ∃ path, store.lookup hash = some path

/-- A record writes the entry of its block, and makes one for the parent if there is none. -/
theorem loadRecord_eq (hpath : PathOK database.headerHash store (block :: prev))
    (hwork : block.nHeight ≤ database.nLastPOWBlock →
      database.checkProofOfWork block.phashBlock = true)
    (hnull : ∀ node : BlockIndexNode, heap[block.phashBlock]? = some node → node.pskip = none) :
    ∃ next, database.loadRecord heap (ofBlockIndex block prev) = some next ∧
      next[block.phashBlock]? = some (readNode block prev) ∧
      ∀ key ≠ block.phashBlock, next[key]? = heap[key]? ∨
        (heap[key]? = none ∧ prev.address = some key ∧
          next[key]? = some (freshNode key)) := by
  obtain ⟨-, hne, hh, -, -, hprev⟩ := hpath
  have hblockHash : database.getBlockHash (ofBlockIndex block prev) =
      block.phashBlock := by
    rw [getBlockHash, hashPrev_ofBlockIndex]
    exact hh
  have hown := insertBlockIndex_of_ne heap hne
  have he := getElem?_insertBlockIndex heap hne
  generalize (heap.insertBlockIndex block.phashBlock).2 = heap1 at hown he
  obtain ⟨heap2, hpar, hheap2⟩ := insertBlockIndex_parent heap1 hprev
  have hp : ¬ (block.nHeight ≤ database.nLastPOWBlock ∧
      (!database.checkProofOfWork block.phashBlock) = true) := by
    rintro ⟨hlow, hfail⟩
    rw [hwork hlow] at hfail
    cases hfail
  have hl : database.loadRecord heap (ofBlockIndex block prev) =
      some (heap2.modify block.phashBlock fun node =>
        { node with
          index := (readNode block prev).index, pprev := prev.address, pnext := none }) := by
    unfold loadRecord
    rw [hblockHash, hown]
    dsimp only
    rw [hashPrev_ofBlockIndex, hpar]
    exact if_neg hp
  refine ⟨_, hl, ?_, ?_⟩
  · obtain ⟨node, hnode, hskip⟩ : ∃ node : BlockIndexNode, heap1[block.phashBlock]? = some node ∧
        node.pskip = none := by
      rw [he, if_pos rfl]
      refine ⟨_, rfl, ?_⟩
      cases hf : heap[block.phashBlock]? with
      | none => rfl
      | some node => exact hnull node hf
    have hkept : heap2[block.phashBlock]? = some node := by
      obtain hs | ⟨hn, -⟩ := hheap2 block.phashBlock
      · exact hs.trans hnode
      · rw [hnode] at hn
        cases hn
    rw [getElem?_modify, if_pos rfl, hkept, map_some, hskip]
    rfl
  · intro key hkey
    rw [getElem?_modify, if_neg hkey]
    have hheap1 := he key
    rw [if_neg hkey] at hheap1
    rw [← hheap1]
    exact hheap2 key

theorem reading_loadRecord (hs : StoreOK database.headerHash store)
    (hget : store.lookup block.phashBlock = some (block :: prev))
    (hwork : block.nHeight ≤ database.nLastPOWBlock →
      database.checkProofOfWork block.phashBlock = true) (h : Reading store heap done) :
    ∃ next, database.loadRecord heap (ofBlockIndex block prev) = some next ∧
      Reading store next (done ++ [ofBlockIndex block prev]) := by
  have hpath := (hs _ _ hget).2
  obtain ⟨next, hnext, hblk, hos⟩ := loadRecord_eq hpath hwork (h.pskip_null block.phashBlock)
  refine ⟨next, hnext, ?_, ?_, ?_⟩
  · intro other rest ho hmem
    by_cases hsa : other.phashBlock = block.phashBlock
    · rw [hsa, hget] at ho
      obtain ⟨rfl, rfl⟩ := List.cons.inj (Option.some.inj ho)
      exact hblk
    · have hdone : ofBlockIndex other rest ∈ done := by
        obtain hdone | hnew := mem_append.mp hmem
        · exact hdone
        · have hrec := congrArg (fun record => record.index.phashBlock) (mem_singleton.mp hnew)
          exact absurd hrec hsa
      have hr := h.read other rest ho hdone
      obtain hkept | ⟨hn, -⟩ := hos other.phashBlock hsa
      · rw [hkept]
        exact hr
      · rw [hr] at hn
        cases hn
  · intro hash node hnode
    by_cases hsa : hash = block.phashBlock
    · rw [hsa, hblk] at hnode
      rw [← Option.some.inj hnode]
      rfl
    · obtain hkept | ⟨-, -, hf⟩ := hos hash hsa
      · exact h.pskip_null hash node (hkept ▸ hnode)
      · rw [hf] at hnode
        rw [← Option.some.inj hnode]
        rfl
  · intro hash node hnode
    by_cases hsa : hash = block.phashBlock
    · exact ⟨_, hsa ▸ hget⟩
    · obtain hkept | ⟨-, hpar, -⟩ := hos hash hsa
      · exact h.stored hash node (hkept ▸ hnode)
      · cases prev with
        | nil => cases hpar
        | cons parent rest =>
          cases hpar
          exact ⟨_, hpath.2.2.2.2.2.1⟩

theorem reading_foldlM {todo : List CDiskBlockIndex} (hs : StoreOK database.headerHash store)
    (hwork : ∀ hash block prev, store.lookup hash = some (block :: prev) →
      block.nHeight ≤ database.nLastPOWBlock → database.checkProofOfWork hash = true)
    (hrecs : ∀ record ∈ todo, ∃ block prev,
      store.lookup block.phashBlock = some (block :: prev) ∧
        record = ofBlockIndex block prev) (h : Reading store heap done) :
    ∃ final, todo.foldlM database.loadRecord heap = some final ∧
      Reading store final (done ++ todo) := by
  induction todo generalizing heap done with
  | nil =>
    rw [append_nil]
    exact ⟨heap, rfl, h⟩
  | cons record todo ih =>
    obtain ⟨block, prev, hget, rfl⟩ := hrecs record mem_cons_self
    obtain ⟨next, hnext, hre⟩ :=
      reading_loadRecord hs hget (hwork _ block prev hget) h
    obtain ⟨final, hf, hall⟩ := ih (fun r hr => hrecs r (mem_cons_of_mem _ hr)) hre
    refine ⟨final, ?_, ?_⟩
    · rw [foldlM_cons, hnext]
      exact hf
    · rwa [append_assoc] at hall

/-! ### Linking the blocks -/

/-- Every block of a path has its entry back. -/
def Restored (heap : BlockHeap) (path : BlockPointer) : Prop :=
  ∀ block ∈ path, ∃ node : BlockIndexNode, heap[block.phashBlock]? = some node ∧ node.index = block

/-- What is on the heap after some blocks are linked. -/
structure Linking (store : BlockMap) (heap : BlockHeap) (done : List uint256) : Prop where
  linked : ∀ hash path, store.lookup hash = some path → hash ∈ done →
    BlockHeap.Linked heap path ∧ Restored heap path ∧ ∀ block ∈ path, block.phashBlock ∈ done
  unlinked : ∀ block prev, store.lookup block.phashBlock = some (block :: prev) →
    block.phashBlock ∉ done → heap[block.phashBlock]? = some (readNode block prev)
  stored : ∀ (hash : uint256) (node : BlockIndexNode), heap[hash]? = some node →
    ∃ path, store.lookup hash = some path

/-- The ancestor from which a block takes its data. -/
theorem exists_data_ancestor (hpath : PathOK headerHash store (block :: prev))
    (hlink : BlockHeap.Linked heap (block :: prev)) (hr : Restored heap prev)
    (he : heap[block.phashBlock]? = some node) :
    ∃ pAncestor ancestor,
      heap.getAncestor block.phashBlock block.vLotteryWinnersCoinstakes.heightOfDataStorage =
        some pAncestor ∧
      pAncestor.bind (heap[·]?) = some ancestor ∧
      (read block.vLotteryWinnersCoinstakes.write).updateShallowDataStore
        ancestor.index.vLotteryWinnersCoinstakes = block.vLotteryWinnersCoinstakes := by
  have hhts := hpath.heights
  have hblk : block.nHeight = (prev.length : Int) := hhts.1
  obtain ⟨hl, hht⟩ | ⟨hsh, ancestor, hmem, hht, hl, hsto, hs⟩ :=
    hpath.2.2.2.2.1
  · refine ⟨_, node, getAncestor_eq hlink hhts (by omega) (by omega), ?_,
      updateShallowDataStore_restores (.inl hl)⟩
    rw [hht, BlockPointer.getAncestor_self block prev (by omega)]
    exact he
  · obtain ⟨hlow, hhigh, hhead⟩ := hhts.2.getAncestor_of_mem hmem
    obtain ⟨found, hf, hidx⟩ := hr ancestor hmem
    refine ⟨_, found, getAncestor_eq hlink hhts (by omega) (by omega), ?_, ?_⟩
    · rw [← hht, hhts.getAncestor_cons hlow hhigh, BlockPointer.address, hhead]
      exact hf
    · rw [hidx]
      exact updateShallowDataStore_restores
        (.inr ⟨hsh, hl, hsto.trans hht, hs⟩)

theorem updateFromAncestor_eq {pindex : uint256} {height : Int} {pAncestor : Option uint256}
    {ancestor : BlockIndexNode} (hanc : heap.getAncestor pindex height = some pAncestor)
    (hf : pAncestor.bind (heap[·]?) = some ancestor) (he : heap[pindex]? = some node) :
    ∃ next, heap.updateFromAncestor pindex height = some next ∧
      next[pindex]? = some { node with
        index.vLotteryWinnersCoinstakes :=
          node.index.vLotteryWinnersCoinstakes.updateShallowDataStore
            ancestor.index.vLotteryWinnersCoinstakes } ∧
      ∀ key ≠ pindex, next[key]? = heap[key]? := by
  have hupd : heap.updateFromAncestor pindex height =
      some (heap.modify pindex fun node => { node with
        index.vLotteryWinnersCoinstakes :=
          node.index.vLotteryWinnersCoinstakes.updateShallowDataStore
            ancestor.index.vLotteryWinnersCoinstakes }) := by
    rw [updateFromAncestor, hanc]
    dsimp only
    rw [hf]
    rfl
  refine ⟨_, hupd, ?_, ?_⟩
  · rw [getElem?_modify, if_pos rfl, he]
    rfl
  · intro key hkey
    rw [getElem?_modify, if_neg hkey]

/-- Linking a block whose parent is linked gives it its pointers and its data back. -/
theorem linkBlock_eq (hpath : PathOK headerHash store (block :: prev))
    (hr : heap[block.phashBlock]? = some (readNode block prev))
    (hlink : BlockHeap.Linked heap prev) (hre : Restored heap prev) :
    ∃ next, linkBlock heap block.phashBlock = some next ∧
      BlockHeap.Linked next (block :: prev) ∧ Restored next (block :: prev) ∧
      ∀ key ≠ block.phashBlock, next[key]? = heap[key]? := by
  cases prev with
  | nil =>
    -- genesis stores its data itself
    have hl : block.vLotteryWinnersCoinstakes.storageIsLocal = true := by
      obtain ⟨hl, -⟩ | ⟨-, ancestor, hmem, -⟩ := hpath.2.2.2.2.1
      · exact hl
      · cases hmem
    have hidx : (readNode block []).index = block := by
      rw [readNode, read_write_of_local hl]
    refine ⟨heap, ?_, ⟨⟨_, hr, rfl, rfl, fun hne => absurd rfl hne⟩, trivial⟩, ?_,
      fun key _ => rfl⟩
    · unfold linkBlock
      rw [hr]
      rfl
    · intro b hb
      obtain rfl := mem_singleton.mp hb
      exact ⟨_, hr, hidx⟩
  | cons parent rest =>
    obtain ⟨skipped, pskip, hskip, hskipLinked, he, hskipOthers⟩ :=
      linked_buildSkip hpath.heights (fun b => hpath.ne_of_mem_prev) hr rfl rfl hlink
    have hskipRestored : Restored skipped (parent :: rest) := by
      intro b hb
      rw [hskipOthers _ (hpath.ne_of_mem_prev hb)]
      exact hre b hb
    obtain ⟨pAncestor, ancestor, hanc, hfo, hdata⟩ :=
      exists_data_ancestor hpath hskipLinked hskipRestored he
    obtain ⟨⟨linkedNode, hnode⟩, hprevLinked⟩ := id hskipLinked
    obtain rfl := Option.some.inj (he.symm.trans hnode.entry)
    obtain ⟨next, hnext, hf, hos⟩ := updateFromAncestor_eq hanc hfo he
    refine ⟨next, ?_, ⟨⟨_, hf, hnode.nHeight, hnode.pprev, hnode.pskip⟩, ?_⟩, ?_, ?_⟩
    · unfold linkBlock
      rw [hr]
      show (heap.buildSkip block.phashBlock parent.phashBlock block.nHeight).bind _ = _
      rw [hskip]
      exact hnext
    · exact hprevLinked.congr fun b hb => hos _ (hpath.ne_of_mem_prev hb)
    · intro b hb
      obtain rfl | hb := mem_cons.mp hb
      · refine ⟨_, hf, ?_⟩
        exact congrArg (fun data => { b with vLotteryWinnersCoinstakes := data }) hdata
      · rw [hos _ (hpath.ne_of_mem_prev hb)]
        exact hskipRestored b hb
    · intro key hkey
      rw [hos key hkey, hskipOthers key hkey]

theorem linking_linkBlock {done : List uint256} (hs : StoreOK headerHash store)
    (hget : store.lookup block.phashBlock = some (block :: prev)) (hnew : block.phashBlock ∉ done)
    (hpar : ∀ hash, prev.address = some hash → hash ∈ done) (h : Linking store heap done) :
    ∃ next, linkBlock heap block.phashBlock = some next ∧
      Linking store next (done ++ [block.phashBlock]) := by
  have hpath := (hs _ _ hget).2
  have hprev : BlockHeap.Linked heap prev ∧ Restored heap prev ∧
      ∀ b ∈ prev, b.phashBlock ∈ done := by
    cases prev with
    | nil => exact ⟨trivial, by simp [Restored], by simp⟩
    | cons parent rest =>
      exact h.linked parent.phashBlock _ hpath.2.2.2.2.2.1 (hpar _ rfl)
  obtain ⟨hlink, hr, ha⟩ := hprev
  obtain ⟨next, hnext, hblockLinked, hblockRestored, hos⟩ :=
    linkBlock_eq hpath (h.unlinked block prev hget hnew) hlink hr
  refine ⟨next, hnext, ?_, ?_, ?_⟩
  · intro hash path hh hmem
    by_cases hsa : hash = block.phashBlock
    · rw [hsa, hget] at hh
      cases hh
      refine ⟨hblockLinked, hblockRestored, ?_⟩
      intro b hb
      obtain rfl | hb := mem_cons.mp hb
      · exact mem_append_right _ mem_cons_self
      · exact mem_append_left _ (ha b hb)
    · have hdone : hash ∈ done := by
        obtain hdone | hl := mem_append.mp hmem
        · exact hdone
        · exact absurd (mem_singleton.mp hl) hsa
      obtain ⟨hotherLinked, hotherRestored, hotherDone⟩ := h.linked hash path hh hdone
      have hkept : ∀ b ∈ path, next[b.phashBlock]? = heap[b.phashBlock]? := fun b hb =>
        hos _ fun heq => hnew (heq ▸ hotherDone b hb)
      refine ⟨hotherLinked.congr hkept, ?_, fun b hb => mem_append_left _ (hotherDone b hb)⟩
      intro b hb
      rw [hkept b hb]
      exact hotherRestored b hb
  · intro other rest ho hnotDone
    have hne : other.phashBlock ≠ block.phashBlock := by
      intro heq
      rw [heq] at hnotDone
      exact hnotDone (mem_append_right _ mem_cons_self)
    rw [hos _ hne]
    exact h.unlinked other rest ho fun hdone => hnotDone (mem_append_left _ hdone)
  · intro hash node hnode
    by_cases hsa : hash = block.phashBlock
    · exact ⟨_, hsa ▸ hget⟩
    · rw [hos hash hsa] at hnode
      exact h.stored hash node hnode

/-- A block of the index, with the path it is found with. -/
theorem exists_path (hs : StoreOK headerHash store) (hget : store.lookup hash = some path) :
    ∃ (block : CBlockIndex) (prev : BlockPointer), path = block :: prev ∧
      hash = block.phashBlock := by
  obtain ⟨haddr, -⟩ := hs hash path hget
  cases path with
  | nil => cases haddr
  | cons block prev => exact ⟨block, prev, rfl, (Option.some.inj haddr).symm⟩

/-- In the order of heights the parent of a block comes before it. -/
theorem linking_foldlM {done todo : List uint256} {key : uint256 → Int}
    (hs : StoreOK headerHash store) (hnd : (done ++ todo).Nodup)
    (hsort : (done ++ todo).Pairwise fun a b => key a ≤ key b)
    (hkey : ∀ block prev, store.lookup block.phashBlock = some (block :: prev) →
      key block.phashBlock = block.nHeight)
    (hall : ∀ hash, hash ∈ done ++ todo ↔ ∃ path, store.lookup hash = some path)
    (h : Linking store heap done) :
    ∃ final, todo.foldlM linkBlock heap = some final ∧ Linking store final (done ++ todo) := by
  induction todo generalizing heap done with
  | nil =>
    rw [append_nil]
    exact ⟨heap, rfl, h⟩
  | cons hash todo ih =>
    obtain ⟨path, hget⟩ := (hall hash).mp (mem_append_right _ mem_cons_self)
    obtain ⟨block, prev, rfl, rfl⟩ := exists_path hs hget
    have hpath := (hs _ _ hget).2
    have hnew : block.phashBlock ∉ done := fun hdone =>
      (nodup_append.mp hnd).2.2 _ hdone _ mem_cons_self rfl
    have hpar : ∀ hash, BlockPointer.address prev = some hash → hash ∈ done := by
      intro hash hh
      cases prev with
      | nil => cases hh
      | cons parent rest =>
        cases hh
        have hparentLookup := hpath.2.2.2.2.2.1
        obtain hdone | hl := mem_append.mp ((hall _).mpr ⟨_, hparentLookup⟩)
        · exact hdone
        · obtain hself | hl := mem_cons.mp hl
          · exact absurd hself (hpath.ne_of_mem_prev mem_cons_self)
          · have hle := rel_of_pairwise_cons (pairwise_append.mp hsort).2.1 hl
            rw [hkey _ _ hget, hkey _ _ hparentLookup, hpath.heights.1, hpath.heights.2.1] at hle
            rw [length_cons] at hle
            omega
    obtain ⟨next, hnext, hli⟩ := linking_linkBlock hs hget hnew hpar h
    have ha : done ++ block.phashBlock :: todo = done ++ [block.phashBlock] ++ todo := by
      rw [append_assoc, singleton_append]
    rw [ha] at hnd hsort
    obtain ⟨final, hf, hlinkingAll⟩ :=
      ih hnd hsort (fun hash => by rw [← ha]; exact hall hash) hli
    refine ⟨final, ?_, ?_⟩
    · rw [foldlM_cons, hnext]
      exact hf
    · rwa [ha]

/-- The records of the blocks with the given hashes. -/
def recordsAt (store : BlockMap) (hashes : List uint256) : List CDiskBlockIndex :=
  hashes.filterMap fun hash =>
    match store.lookup hash with
    | some (block :: prev) => some (CDiskBlockIndex.ofBlockIndex block prev)
    | _ => none

/-- Writing all blocks of the index, in any order. -/
theorem recordsOf_recordsAt (hs : StoreOK headerHash store) {hashes : List uint256}
    (hkeys : ∀ hash ∈ store.keys, hash ∈ hashes) : RecordsOf store (recordsAt store hashes) := by
  constructor
  · intro record hrec
    obtain ⟨hash, -, hwr⟩ := mem_filterMap.mp hrec
    split at hwr
    next block prev hget =>
      obtain ⟨_, _, hpath, rfl⟩ := exists_path hs hget
      obtain ⟨rfl, rfl⟩ := List.cons.inj hpath
      exact ⟨block, prev, hget, (Option.some.inj hwr).symm⟩
    next => cases hwr
  · intro block prev hget
    have hkey : block.phashBlock ∈ store.keys :=
      Finmap.mem_keys.mpr (Finmap.mem_of_lookup_eq_some hget)
    refine mem_filterMap.mpr ⟨block.phashBlock, hkeys _ hkey, ?_⟩
    rw [hget]

/-- Two branches above a common block; the tip of the second has no ticket, and refers to the data
of its parent. -/
def lotteryTree : List CBlock :=
  open BlockIndexParameters in
  [ticketBlock 1 0, ticketBlock 2 1, ticketBlock 3 2, ticketBlock 4 2,
    { ticketBlock 5 4 with
      vtx := (ticketBlock 5 4).vtx.map fun tx =>
        { tx with vout := tx.vout.map fun out => { out with nValue := COIN } } }]

/-- A database that takes every header, and sorts blocks of equal height as they come. -/
def permissiveDatabase : BlockTreeParameters where
  nLastPOWBlock := 0
  checkProofOfWork := fun _ => true
  headerHash := fun hash _ => hash
  sortByHeight := SortBy.insertion

/-- Each block with the active chain at the time. -/
def lotteryAdditions : List (CBlock × CChain) :=
  lotteryTree.zip ([0, 1, 2, 3, 3].map (BlockIndexParameters.earlyLotteryNode.pathIn lotteryTree))

theorem lotteryAdditions_attach :
    earlyLotteryNode.AllAttach permissiveDatabase.headerHash ∅ lotteryAdditions := by
  decide +kernel

theorem recordsOf_lotteryAdditions
    (ha : earlyLotteryNode.addBlocks ∅ lotteryAdditions = some store) :
    RecordsOf store (recordsAt store [5, 3, 1, 4, 2]) := by
  have hkeys : ∀ store ∈ earlyLotteryNode.addBlocks ∅ lotteryAdditions,
      store.keys ⊆ [5, 3, 1, 4, 2].toFinset := by decide +kernel
  exact recordsOf_recordsAt (storeOK_of_addBlocks storeOK_empty lotteryAdditions_attach ha)
    fun _ h => mem_toFinset.mp (hkeys store ha h)

end BlockTreeParameters

end Divi
