/-
`GetAncestor` over the skip list.

A walk goes through `pskip` or `pprev` of the entries on the heap, and each step lowers the
height.  Where the pointers of all blocks of a path are right, it ends at the block of the path
at the height that is looked for (`walk_eq`), whatever way it takes.  `BuildSkip` makes them right
for one block after the other.
-/
import Divi.BlockIndexDatabase
import Divi.Proofs.LotteryCycles

namespace Divi

open List Option

variable {height : Int} {block : CBlockIndex} {prev path ancestor : BlockPointer}

/-! ### Skip heights -/

theorem invertLowestOne_nonneg (n : Int) : 0 ≤ invertLowestOne n := Int.natCast_nonneg _

theorem invertLowestOne_lt {n : Int} (h : 0 < n) : invertLowestOne n < n := by
  have hle : n.toNat &&& (n - 1).toNat ≤ (n - 1).toNat := Nat.and_le_right
  unfold invertLowestOne
  omega

theorem invertLowestOne_le {n : Int} (h : 0 ≤ n) : invertLowestOne n ≤ n := by
  have hle : n.toNat &&& (n - 1).toNat ≤ n.toNat := Nat.and_le_left
  unfold invertLowestOne
  omega

theorem getSkipHeight_bounds (h : 0 < height) :
    0 ≤ getSkipHeight height ∧ getSkipHeight height < height := by
  unfold getSkipHeight
  split
  next => omega
  next hge =>
    split
    next =>
      have hi := @invertLowestOne_lt (height - 1) (by omega)
      have ho := invertLowestOne_le (invertLowestOne_nonneg (height - 1))
      have hnn := invertLowestOne_nonneg (invertLowestOne (height - 1))
      omega
    next => exact ⟨invertLowestOne_nonneg height, invertLowestOne_lt h⟩

/-! ### Paths -/

namespace BlockPointer

/-- The address of a block, null for null. -/
def address (path : BlockPointer) : Option uint256 :=
  path.head?.map CBlockIndex.phashBlock

/-- With a block its ancestors are in a set that is closed under `pprev`. -/
theorem mem_of_suffix {blocks : Set BlockPointer}
    (hc : ∀ block prev, block :: prev ∈ blocks → prev ∈ blocks) (h : path ∈ blocks)
    (hsuf : ancestor <:+ path) : ancestor ∈ blocks := by
  induction path with
  | nil =>
    rw [suffix_nil.mp hsuf]
    exact h
  | cons block prev ih =>
    obtain rfl | hprev := suffix_cons_iff.mp hsuf
    · exact h
    · exact ih (hc block prev h) hprev

theorem HeightsOK.of_suffix (h : HeightsOK path) (hsuf : ancestor <:+ path) :
    HeightsOK ancestor :=
  @mem_of_suffix path ancestor { path | HeightsOK path } (fun _ _ h => h.2) h hsuf

theorem HeightsOK.drop (h : HeightsOK path) (k : Nat) : HeightsOK (path.drop k) :=
  h.of_suffix (drop_suffix k path)

theorem getAncestor_suffix (path : BlockPointer) (height : Int) :
    path.getAncestor height <:+ path := by
  unfold getAncestor
  split
  · exact nil_suffix
  · split
    · exact nil_suffix
    · exact drop_suffix _ _

theorem HeightsOK.getAncestor_eq (h : HeightsOK path) (hlow : 0 ≤ height)
    (hhigh : height < path.length) :
    path.getAncestor height = path.drop (path.length - 1 - height.toNat) := by
  cases path with
  | nil =>
    rw [drop_nil]
    rfl
  | cons block prev =>
    have hblk : block.nHeight = (prev.length : Int) := h.1
    rw [length_cons] at hhigh
    unfold getAncestor
    dsimp only
    rw [if_neg (by omega), length_cons]
    congr 1
    omega

theorem HeightsOK.exists_ancestor (h : HeightsOK path) (hlow : 0 ≤ height)
    (hhigh : height < path.length) :
    ∃ block prev, path.getAncestor height = block :: prev ∧ block.nHeight = height ∧
      (prev.length : Int) = height := by
  rw [h.getAncestor_eq hlow hhigh]
  have hdrop := h.drop (path.length - 1 - height.toNat)
  have hlen : ((path.drop (path.length - 1 - height.toNat)).length : Int) = height + 1 := by
    rw [length_drop]
    omega
  cases hpath : path.drop (path.length - 1 - height.toNat) with
  | nil =>
    rw [hpath, length_nil] at hlen
    omega
  | cons block prev =>
    rw [hpath] at hdrop hlen
    have hblk : block.nHeight = (prev.length : Int) := hdrop.1
    rw [length_cons] at hlen
    exact ⟨block, prev, rfl, by omega, by omega⟩

theorem HeightsOK.getAncestor_getAncestor (h : HeightsOK path) {middle : Int} (hlow : 0 ≤ height)
    (hle : height ≤ middle) (hhigh : middle < path.length) :
    (path.getAncestor middle).getAncestor height = path.getAncestor height := by
  have hm := h.getAncestor_eq (by omega) hhigh
  have hlen : (path.getAncestor middle).length = middle.toNat + 1 := by
    rw [hm, length_drop]
    omega
  have hdrop : HeightsOK (path.getAncestor middle) := hm ▸ h.drop _
  rw [hdrop.getAncestor_eq hlow (by omega), h.getAncestor_eq hlow (by omega), hlen, hm,
    drop_drop]
  congr 1
  omega

theorem HeightsOK.getAncestor_cons (h : HeightsOK (block :: prev)) (hlow : 0 ≤ height)
    (hhigh : height < prev.length) :
    getAncestor (block :: prev) height = prev.getAncestor height := by
  rw [h.getAncestor_eq hlow (by rw [length_cons]; omega), h.2.getAncestor_eq hlow hhigh,
    length_cons]
  have hs : prev.length + 1 - 1 - height.toNat = prev.length - 1 - height.toNat + 1 := by omega
  rw [hs, drop_succ_cons]

theorem HeightsOK.getAncestor_heights (h : HeightsOK path) (height : Int) :
    HeightsOK (path.getAncestor height) :=
  h.of_suffix (getAncestor_suffix path height)

theorem getAncestor_self (block : CBlockIndex) (prev : BlockPointer) (h : 0 ≤ block.nHeight) :
    getAncestor (block :: prev) block.nHeight = block :: prev := by
  unfold getAncestor
  dsimp only
  rw [if_neg (by omega), sub_self]
  rfl

theorem HeightsOK.getAncestor_of_mem (h : HeightsOK path) {ancestor : CBlockIndex}
    (hmem : ancestor ∈ path) :
    0 ≤ ancestor.nHeight ∧ ancestor.nHeight < path.length ∧
      (path.getAncestor ancestor.nHeight).head? = some ancestor := by
  induction path with
  | nil => cases hmem
  | cons block prev ih =>
    have hblk : block.nHeight = (prev.length : Int) := h.1
    rw [length_cons]
    obtain rfl | hprev := mem_cons.mp hmem
    · rw [getAncestor_self _ _ (by omega)]
      exact ⟨by omega, by omega, rfl⟩
    · obtain ⟨hlow, hhigh, hhead⟩ := ih h.2 hprev
      rw [h.getAncestor_cons hlow hhigh]
      exact ⟨hlow, by omega, hhead⟩

end BlockPointer

namespace BlockHeap

/-! ### The skip list -/

/-- The pointers of the entry of a block on top of a path. -/
structure NodeLinked (heap : BlockHeap) (block : CBlockIndex) (prev : BlockPointer)
    (node : BlockIndexNode) : Prop where
  entry : heap[block.phashBlock]? = some node
  nHeight : node.index.nHeight = block.nHeight
  pprev : node.pprev = prev.address
  pskip : prev ≠ [] → node.pskip = (prev.getAncestor (getSkipHeight block.nHeight)).address

/-- All blocks of a path are on the heap, with their pointers. -/
def Linked (heap : BlockHeap) : BlockPointer → Prop
  | [] => True
  | block :: prev => (∃ node, NodeLinked heap block prev node) ∧ Linked heap prev

variable {heap : BlockHeap}

theorem Linked.getAncestor (h : Linked heap path) (height : Int) :
    Linked heap (path.getAncestor height) :=
  @BlockPointer.mem_of_suffix path _ { path | Linked heap path } (fun _ _ h => h.2) h
    (BlockPointer.getAncestor_suffix path height)

theorem Linked.congr {heap' : BlockHeap} (h : Linked heap path)
    (hs : ∀ block ∈ path, heap'[block.phashBlock]? = heap[block.phashBlock]?) :
    Linked heap' path := by
  induction path with
  | nil => exact trivial
  | cons block prev ih =>
    obtain ⟨⟨node, hnode⟩, hprev⟩ := h
    refine ⟨⟨node, ?_, hnode.nHeight, hnode.pprev, hnode.pskip⟩, ?_⟩
    · rw [hs block mem_cons_self]
      exact hnode.entry
    · exact ih hprev fun b hb => hs b (mem_cons_of_mem block hb)

/-- **The walk over the skip list ends at the ancestor.** -/
theorem walk_eq (hlow : 0 ≤ height) {fuel : Nat} (hlink : Linked heap (block :: prev))
    (hhts : BlockPointer.HeightsOK (block :: prev)) (hhigh : height ≤ block.nHeight)
    (hfuel : (block.nHeight - height).toNat < fuel) :
    walk heap height fuel (some block.phashBlock) block.nHeight =
      some (BlockPointer.address (BlockPointer.getAncestor (block :: prev) height)) := by
  induction fuel generalizing block prev with
  | zero => exact absurd hfuel (Nat.not_lt_zero _)
  | succ fuel ih =>
    have hblk : block.nHeight = (prev.length : Int) := hhts.1
    obtain ⟨⟨node, hnode⟩, hprevLinked⟩ := hlink
    unfold walk
    by_cases hmore : block.nHeight > height
    · rw [if_pos hmore, bind_some, hnode.entry]
      dsimp only
      have hne : prev ≠ [] := by
        intro hnil
        rw [hnil, length_nil] at hblk
        omega
      -- both branches go to an ancestor that is not below the one that is looked for
      have hstep : ∀ middle, height ≤ middle → middle < block.nHeight →
          walk heap height fuel (prev.getAncestor middle).address middle =
            some (BlockPointer.address (BlockPointer.getAncestor (block :: prev) height)) := by
        intro middle hle hlt
        have hm : middle < prev.length := by omega
        obtain ⟨b, rest, hpath, hb, -⟩ := hhts.2.exists_ancestor (by omega) hm
        have hanc : BlockPointer.getAncestor (b :: rest) height =
            BlockPointer.getAncestor (block :: prev) height := by
          rw [← hpath, hhts.2.getAncestor_getAncestor hlow hle hm,
            hhts.getAncestor_cons hlow (by omega)]
        have hwalk := @ih b rest (hpath ▸ hprevLinked.getAncestor middle)
          (hpath ▸ hhts.2.getAncestor_heights middle) (by omega) (by omega)
        rw [hb, hanc] at hwalk
        rw [hpath]
        exact hwalk
      have hbds := @getSkipHeight_bounds block.nHeight (by omega)
      split
      next hskip =>
        rw [hnode.pskip hne]
        exact hstep _ (by omega) hbds.2
      next =>
        have hpar : prev.getAncestor (block.nHeight - 1) = prev := by
          obtain ⟨parent, rest, rfl⟩ := exists_cons_of_ne_nil hne
          have hparentHeight : parent.nHeight = (rest.length : Int) := hhts.2.1
          have hself := BlockPointer.getAncestor_self parent rest (by omega)
          rw [hblk, length_cons, Nat.cast_add_one, add_sub_cancel_right, ← hparentHeight]
          exact hself
        have hwalk := hstep (block.nHeight - 1) (by omega) (by omega)
        rw [hpar] at hwalk
        rw [hnode.pprev]
        exact hwalk
    · have heq : height = block.nHeight := by omega
      rw [if_neg hmore, heq, BlockPointer.getAncestor_self block prev (by omega)]
      rfl

theorem getAncestor_eq (hlink : Linked heap (block :: prev))
    (hhts : BlockPointer.HeightsOK (block :: prev)) (hlow : 0 ≤ height)
    (hhigh : height ≤ block.nHeight) :
    heap.getAncestor block.phashBlock height =
      some (BlockPointer.address (BlockPointer.getAncestor (block :: prev) height)) := by
  obtain ⟨⟨node, hnode⟩, -⟩ := id hlink
  unfold BlockHeap.getAncestor
  rw [hnode.entry]
  dsimp only
  rw [hnode.nHeight, if_neg (by omega)]
  exact walk_eq hlow hlink hhts hhigh (Nat.lt_succ_self _)

theorem getElem?_modify (heap : BlockHeap) (hash key : uint256)
    (f : BlockIndexNode → BlockIndexNode) :
    (heap.modify hash f)[key]? = if key = hash then heap[hash]?.map f else heap[key]? := by
  rw [Std.TreeMap.getElem?_modify]
  by_cases hkey : key = hash
  · rw [if_pos hkey, if_pos (by rw [hkey]; exact Std.ReflCmp.compare_self)]
  · rw [if_neg hkey, if_neg fun heq => hkey (Std.LawfulEqOrd.eq_of_compare heq).symm]

/-! ### Growing a tree -/

/-- `BuildSkip` of a block whose parent is linked. -/
theorem linked_buildSkip {parent : CBlockIndex} {node : BlockIndexNode}
    (hhts : BlockPointer.HeightsOK (block :: parent :: prev))
    (hne : ∀ b ∈ parent :: prev, b.phashBlock ≠ block.phashBlock)
    (he : heap[block.phashBlock]? = some node) (hht : node.index.nHeight = block.nHeight)
    (hpp : node.pprev = some parent.phashBlock) (hlink : Linked heap (parent :: prev)) :
    ∃ next pskip, heap.buildSkip block.phashBlock parent.phashBlock block.nHeight = some next ∧
      Linked next (block :: parent :: prev) ∧
      next[block.phashBlock]? = some { node with pskip := pskip } ∧
      ∀ key ≠ block.phashBlock, next[key]? = heap[key]? := by
  have hpar : parent.nHeight = (prev.length : Int) := hhts.2.1
  have hblk : block.nHeight = ((parent :: prev).length : Int) := hhts.1
  rw [length_cons] at hblk
  obtain ⟨hlow, hhigh⟩ := @getSkipHeight_bounds block.nHeight (by omega)
  have hskip := getAncestor_eq hlink hhts.2 hlow (by omega)
  obtain ⟨pskip, hp⟩ : ∃ pskip, pskip = BlockPointer.address
      (BlockPointer.getAncestor (parent :: prev) (getSkipHeight block.nHeight)) := ⟨_, rfl⟩
  rw [← hp] at hskip
  have hset := getElem?_modify heap block.phashBlock block.phashBlock
    fun node => { node with pskip := pskip }
  rw [if_pos rfl, he, map_some] at hset
  have hos : ∀ key ≠ block.phashBlock,
      (heap.modify block.phashBlock fun node => { node with pskip := pskip })[key]? =
        heap[key]? := by
    intro key hkey
    rw [getElem?_modify, if_neg hkey]
  refine ⟨_, pskip, ?_, ⟨⟨_, hset, hht, hpp, fun _ => hp⟩, ?_⟩, hset, hos⟩
  · rw [buildSkip, hskip]
    rfl
  · exact hlink.congr fun b hb => hos _ (hne b hb)

/-- A new block on top of a path, with a call of `BuildSkip`. -/
def addBlock (heap : BlockHeap) (block : CBlockIndex) : BlockPointer → Option BlockHeap
  | [] => some (heap.insert block.phashBlock { index := block })
  | parent :: _ =>
    buildSkip (heap.insert block.phashBlock { index := block, pprev := some parent.phashBlock })
      block.phashBlock parent.phashBlock block.nHeight

theorem addBlock_linked (hhts : BlockPointer.HeightsOK (block :: prev))
    (hne : ∀ b ∈ prev, b.phashBlock ≠ block.phashBlock) (hlink : Linked heap prev) :
    ∃ next, heap.addBlock block prev = some next ∧ Linked next (block :: prev) ∧
      ∀ key ≠ block.phashBlock, next[key]? = heap[key]? := by
  have hos : ∀ (node : BlockIndexNode), ∀ key ≠ block.phashBlock,
      (heap.insert block.phashBlock node)[key]? = heap[key]? := by
    intro node key hkey
    rw [Std.TreeMap.getElem?_insert,
      if_neg fun heq => hkey (Std.LawfulEqOrd.eq_of_compare heq).symm]
  cases prev with
  | nil =>
    exact ⟨_, rfl, ⟨⟨_, Std.TreeMap.getElem?_insert_self, rfl, rfl, fun hne => absurd rfl hne⟩,
      trivial⟩, hos _⟩
  | cons parent prev =>
    obtain ⟨next, -, hnext, hnextLinked, -, hkept⟩ := @linked_buildSkip block prev
      (heap.insert block.phashBlock { index := block, pprev := some parent.phashBlock }) parent _
      hhts hne Std.TreeMap.getElem?_insert_self rfl rfl
      (hlink.congr fun b hb => hos _ _ (hne b hb))
    exact ⟨next, hnext, hnextLinked, fun key hkey => (hkept key hkey).trans (hos _ key hkey)⟩

/-- The blocks of a tree, each with its ancestors, that were added after their parents. -/
inductive Grown : BlockHeap → List BlockPointer → Prop
  | nil : Grown ∅ []
  | add {heap next : BlockHeap} {blocks : List BlockPointer} {block : CBlockIndex}
      {prev : BlockPointer} (h : Grown heap blocks) (hprev : prev = [] ∨ prev ∈ blocks)
      (hht : block.nHeight = prev.length)
      (hnew : ∀ path ∈ blocks, ∀ b ∈ path, b.phashBlock ≠ block.phashBlock)
      (hnext : heap.addBlock block prev = some next) : Grown next ((block :: prev) :: blocks)

theorem Grown.linked {blocks : List BlockPointer} (h : Grown heap blocks) :
    ∀ path ∈ blocks, Linked heap path ∧ BlockPointer.HeightsOK path := by
  induction h with
  | nil => exact nofun
  | @add heap next blocks block prev h hprev hht hnew hnext ih =>
    obtain ⟨hlink, hhts, hne⟩ : Linked heap prev ∧ BlockPointer.HeightsOK prev ∧
        ∀ b ∈ prev, b.phashBlock ≠ block.phashBlock := by
      obtain rfl | hmem := hprev
      · exact ⟨trivial, trivial, nofun⟩
      · exact ⟨(ih prev hmem).1, (ih prev hmem).2, hnew prev hmem⟩
    obtain ⟨_, ha, hblk, hos⟩ := @addBlock_linked block prev heap ⟨hht, hhts⟩ hne
      hlink
    obtain rfl := Option.some.inj (hnext.symm.trans ha)
    intro path hpath
    obtain rfl | hpath := mem_cons.mp hpath
    · exact ⟨hblk, hht, hhts⟩
    · exact ⟨(ih path hpath).1.congr fun b hb => hos _ (hnew path hpath b hb),
        (ih path hpath).2⟩

/-- In such a tree `GetAncestor` returns the block reached by following `pprev` down to the height,
and null for a height that neither the block nor an ancestor has. -/
theorem Grown.getAncestor_eq_drop {blocks : List BlockPointer} (h : Grown heap blocks)
    (hmem : block :: prev ∈ blocks) (height : Int) :
    heap.getAncestor block.phashBlock height = some (BlockPointer.address
      (if height < 0 ∨ block.nHeight < height then []
        else (block :: prev).drop (block.nHeight - height).toNat)) := by
  obtain ⟨hlink, hhts⟩ := h.linked _ hmem
  have hblk : block.nHeight = (prev.length : Int) := hhts.1
  by_cases hr : height < 0 ∨ block.nHeight < height
  · obtain ⟨⟨node, hnode⟩, -⟩ := hlink
    rw [if_pos hr, BlockHeap.getAncestor, hnode.entry]
    dsimp only
    rw [hnode.nHeight, if_pos hr.symm]
    rfl
  · rw [if_neg hr, BlockHeap.getAncestor_eq hlink hhts (by omega) (by omega),
      hhts.getAncestor_eq (by omega) (by rw [length_cons]; omega)]
    congr 3
    rw [length_cons]
    omega

theorem Grown.getAncestor_of_child : ∃ heap : BlockHeap,
    heap.getAncestor 1 0 = some (some 0) ∧ heap.getAncestor 1 2 = some none := by
  let genesis : CBlockIndex := { phashBlock := 0, nHeight := 0 }
  let child : CBlockIndex := { phashBlock := 1, nHeight := 1 }
  have hne : ∀ b ∈ [genesis], b.phashBlock ≠ child.phashBlock := by decide
  obtain ⟨first, hfst, hlink, -⟩ := @addBlock_linked genesis [] ∅ ⟨rfl, trivial⟩ nofun trivial
  obtain ⟨heap, hheap, -⟩ := @addBlock_linked child [genesis] first ⟨rfl, rfl, trivial⟩ hne hlink
  have hg := ((Grown.nil.add (.inl rfl) rfl nofun hfst).add (.inr mem_cons_self) rfl
    (by simpa using hne) hheap)
  exact ⟨heap, hg.getAncestor_eq_drop mem_cons_self 0,
    hg.getAncestor_eq_drop mem_cons_self 2⟩

end BlockHeap

end Divi
