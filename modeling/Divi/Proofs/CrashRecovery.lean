/-
Which blocks the recovery after a crash applies.

The list of all blocks by height is cut at two heights: the loop applies every block strictly
between the best block of the outputs and the last block, and then the first block of the
height of the last one.  That is the path between the two exactly if no other branch has a
block at these heights, and no other block comes before the last one at its own height.
-/
import Divi.LoadBlockIndex
import Divi.Lib.Results
import Divi.Lib.Sorting
import Divi.Proofs.ActiveChain

namespace Divi

open ParentTree List

open BlockValidation (CoinsTip)

namespace BlockStore

variable {low high nHeightLast : Nat} {pindex : BlockAddr}
  {store : BlockStore} {disk : BlockAddr → Option CBlock}
  {pindexBest pindexLastMeta : BlockAddr} {item : Nat × BlockAddr}

/-! ### The sorted list -/

theorem mem_vSortedByHeight : item ∈ store.vSortedByHeight ↔
      item.2 ∈ store.mapBlockIndex ∧ item.1 = store.tree.height item.2 := by
  unfold vSortedByHeight
  rw [(perm_insertionSort _ _).mem_iff, mem_map]
  constructor
  · rintro ⟨pindex, hmem, rfl⟩
    exact ⟨hmem, rfl⟩
  · rintro ⟨hmem, hht⟩
    exact ⟨item.2, hmem, Prod.ext hht.symm rfl⟩

theorem vSortedByHeight_sorted (store : BlockStore) :
    store.vSortedByHeight.Pairwise fun a b => toLex a ≤ toLex b :=
  pairwise_insertionSort _ _

theorem vSortedByHeight_sorted_height (store : BlockStore) :
    store.vSortedByHeight.Pairwise fun a b => a.1 ≤ b.1 :=
  (vSortedByHeight_sorted store).imp fun h => Prod.Lex.monotone_fst_ofLex h

theorem vSortedByHeight_nodup (store : BlockStore) :
    (store.vSortedByHeight.map Prod.snd).Nodup := by
  have hperm : (store.vSortedByHeight.map Prod.snd).Perm store.mapBlockIndex := by
    have h := (perm_insertionSort (fun a b : Nat × BlockAddr => toLex a ≤ toLex b)
      (store.mapBlockIndex.map fun pindex => (store.tree.height pindex, pindex))).map Prod.snd
    simpa [vSortedByHeight, Function.comp_def] using h
  exact hperm.nodup_iff.mpr store.nodup

theorem mem_of_mem_line {a b : BlockAddr} (ha : a ∈ store.mapBlockIndex)
    (h : b ∈ store.tree.line a) : b ∈ store.mapBlockIndex :=
  of_mem_line (P := (· ∈ store.mapBlockIndex))
    (fun a p ha hpar => store.parent_mem a ha p hpar) ha h

/-- The part of the list strictly between two heights. -/
def itemsBetween (store : BlockStore) (low high : Nat) : List (Nat × BlockAddr) :=
  store.vSortedByHeight.filter fun item => low < item.1 ∧ item.1 < high

def blocksBetween (store : BlockStore) (low high : Nat) : List BlockAddr :=
  (store.itemsBetween low high).map Prod.snd

theorem mem_itemsBetween : item ∈ store.itemsBetween low high ↔ item.2 ∈ store.mapBlockIndex ∧
      item.1 = store.tree.height item.2 ∧ low < item.1 ∧ item.1 < high := by
  rw [itemsBetween, mem_filter, mem_vSortedByHeight, decide_eq_true_eq, and_assoc]

theorem mem_blocksBetween : pindex ∈ store.blocksBetween low high ↔ pindex ∈ store.mapBlockIndex ∧
      low < store.tree.height pindex ∧ store.tree.height pindex < high := by
  rw [blocksBetween, mem_map]
  constructor
  · rintro ⟨item, hitem, rfl⟩
    obtain ⟨hmem, heq, hlow, hhigh⟩ := mem_itemsBetween.mp hitem
    exact ⟨hmem, heq ▸ hlow, heq ▸ hhigh⟩
  · rintro ⟨hmem, hlow, hhigh⟩
    exact ⟨(store.tree.height pindex, pindex), mem_itemsBetween.mpr ⟨hmem, rfl, hlow, hhigh⟩, rfl⟩

theorem blocksBetween_nodup (store : BlockStore) (low high : Nat) :
    (store.blocksBetween low high).Nodup :=
  (vSortedByHeight_nodup store).sublist (filter_sublist.map Prod.snd)

theorem blocksBetween_sorted (store : BlockStore) (low high : Nat) :
    (store.blocksBetween low high).Pairwise fun a b =>
      store.tree.height a ≤ store.tree.height b := by
  rw [blocksBetween, pairwise_map]
  refine List.Pairwise.imp_of_mem ?_ ((vSortedByHeight_sorted_height store).filter _)
  intro a b ha hb hle
  obtain ⟨-, heqA, -⟩ := mem_itemsBetween.mp ha
  obtain ⟨-, heqB, -⟩ := mem_itemsBetween.mp hb
  rw [← heqA, ← heqB]
  exact hle

theorem filter_vSortedByHeight (store : BlockStore) (h : low < high) :
    store.vSortedByHeight.filter (fun item => low + 1 ≤ item.1) =
      store.itemsBetween low high ++ store.vSortedByHeight.filter fun item => high ≤ item.1 := by
  have hsort : (store.vSortedByHeight.filter fun item => low + 1 ≤ item.1).Pairwise
      fun a b => a.1 ≤ b.1 := (vSortedByHeight_sorted_height store).filter _
  rw [← takeWhile_append_dropWhile (p := fun item : Nat × BlockAddr => item.1 < high)
    (l := store.vSortedByHeight.filter fun item => low + 1 ≤ item.1),
    takeWhile_lt_of_sorted hsort, dropWhile_lt_of_sorted hsort, filter_filter,
    filter_filter]
  congr 1
  · refine filter_congr fun item _ => ?_
    rw [← Bool.decide_and, decide_eq_decide]
    omega
  · refine filter_congr fun item _ => ?_
    rw [← Bool.decide_and, decide_eq_decide]
    omega

/-- The block that comes first among those of its height. -/
structure FirstOfHeight (store : BlockStore) (height : Nat) (pindex : BlockAddr) : Prop where
  mem : pindex ∈ store.mapBlockIndex
  height_eq : store.tree.height pindex = height
  le : ∀ c ∈ store.mapBlockIndex, store.tree.height c = height → pindex ≤ c

theorem FirstOfHeight.unique {height : Nat} {a b : BlockAddr}
    (ha : store.FirstOfHeight height a) (hb : store.FirstOfHeight height b) : a = b :=
  Nat.le_antisymm (ha.le b hb.mem hb.height_eq) (hb.le a ha.mem ha.height_eq)

theorem exists_firstOfHeight (h : pindex ∈ store.mapBlockIndex) :
    ∃ first rest, (store.vSortedByHeight.filter fun item =>
        store.tree.height pindex ≤ item.1) = first :: rest ∧
      store.FirstOfHeight (store.tree.height pindex) first.2 := by
  have hitem : ∀ c ∈ store.mapBlockIndex, store.tree.height c = store.tree.height pindex →
      (store.tree.height c, c) ∈ store.vSortedByHeight.filter fun item =>
        store.tree.height pindex ≤ item.1 := by
    intro c hc hht
    exact mem_filter.mpr ⟨mem_vSortedByHeight.mpr ⟨hc, rfl⟩, by simp [hht]⟩
  have hself := hitem pindex h rfl
  have hsort : (store.vSortedByHeight.filter fun item =>
      store.tree.height pindex ≤ item.1).Pairwise fun a b => toLex a ≤ toLex b :=
    (vSortedByHeight_sorted store).filter _
  obtain ⟨first, rest, hcons⟩ := exists_cons_of_ne_nil (ne_nil_of_mem hself)
  have hfst : first ∈ store.vSortedByHeight.filter fun item =>
      store.tree.height pindex ≤ item.1 := hcons ▸ mem_cons_self
  obtain ⟨hmem, hle⟩ := mem_filter.mp hfst
  obtain ⟨hmem, heq⟩ := mem_vSortedByHeight.mp hmem
  have hlex : ∀ c ∈ store.mapBlockIndex, store.tree.height c = store.tree.height pindex →
      toLex first ≤ toLex (store.tree.height c, c) := by
    intro c hc hht
    have hin := hitem c hc hht
    rw [hcons] at hin hsort
    rcases mem_cons.mp hin with hs | hr
    · rw [hs]
    · exact (pairwise_cons.mp hsort).1 _ hr
  have hht : store.tree.height first.2 = store.tree.height pindex := by
    have ho := Prod.Lex.monotone_fst_ofLex (hlex pindex h rfl)
    simp only [ofLex_toLex] at ho
    have hle := of_decide_eq_true hle
    omega
  refine ⟨first, rest, hcons, hmem, hht, ?_⟩
  intro c hc hcHeight
  rcases Prod.Lex.toLex_le_toLex.mp (hlex c hc hcHeight) with hlt | ⟨-, hle⟩
  · simp only at hlt
    omega
  · exact hle

/-! ### What the loop applies -/

/-- Blocks applied to outputs one after another. -/
def applyBlocks (store : BlockStore) (disk : BlockAddr → Option CBlock)
    (view : CCoinsViewCache) : List BlockAddr → Option CCoinsViewCache
  | [] => some view
  | pindex :: path => do
    let block ← disk pindex
    let (view, _) ← updateCoinsWithBlock (store.tree.height pindex) view block.vtx
    applyBlocks store disk view path

/-- Every block is there, with its own hash and at least one transaction. -/
def Readable (store : BlockStore) (disk : BlockAddr → Option CBlock) : Prop :=
  ∀ pindex ∈ store.mapBlockIndex, ∃ block, disk pindex = some block ∧
    block.hash = store.getBlockHash pindex ∧ block.vtx ≠ []

/-- The outcome of applying blocks of which the last one is the best block then. -/
def replayed (store : BlockStore) (disk : BlockAddr → Option CBlock) (view : CCoinsViewCache)
    (path : List BlockAddr) (last : BlockAddr) : Except RecoveryFailure CoinsTip :=
  match store.applyBlocks disk view (path ++ [last]) with
  | none => .error .assertion
  | some view => .ok { view := view, hashBlock := store.getBlockHash last }

theorem replayBlock_eq (h : store.Readable disk) (hmem : pindex ∈ store.mapBlockIndex)
    (tip : CoinsTip) :
    store.replayBlock disk pindex tip = store.replayed disk tip.view [] pindex := by
  obtain ⟨block, hblk, hh, hvtx⟩ := h pindex hmem
  have hr : store.readBlockFromDisk disk pindex = some block := by
    simp [readBlockFromDisk, hblk, hh]
  have hne : block.vtx.isEmpty = false := by simpa using hvtx
  unfold replayBlock replayed
  simp only [hr, hne, Bool.false_eq_true, if_false, nil_append, applyBlocks, hblk,
    Option.bind_eq_bind, Option.bind_some]
  cases updateCoinsWithBlock (store.tree.height pindex) tip.view block.vtx with
  | none => rfl
  | some result => simp [hh]

theorem replayed_cons (h : store.Readable disk) (hmem : pindex ∈ store.mapBlockIndex)
    (tip : CoinsTip) (path : List BlockAddr) (last : BlockAddr) :
    store.replayed disk tip.view (pindex :: path) last =
      match store.replayBlock disk pindex tip with
      | .error failure => .error failure
      | .ok next => store.replayed disk next.view path last := by
  obtain ⟨block, hblk, -, -⟩ := h pindex hmem
  rw [replayBlock_eq h hmem]
  unfold replayed
  simp only [cons_append, nil_append, applyBlocks, hblk, Option.bind_eq_bind, Option.bind_some]
  cases updateCoinsWithBlock (store.tree.height pindex) tip.view block.vtx with
  | none => rfl
  | some result => rfl

theorem replayLoop_stop (h : nHeightLast ≤ store.tree.height pindex) (tip : CoinsTip)
    (rest : List (Nat × BlockAddr)) :
    store.replayLoop disk nHeightLast pindex tip rest = store.replayBlock disk pindex tip := by
  cases rest with
  | nil =>
    unfold replayLoop
    cases store.replayBlock disk pindex tip with
    | error failure => rfl
    | ok tip => simp [h]
  | cons next rest =>
    unfold replayLoop
    cases store.replayBlock disk pindex tip with
    | error failure => rfl
    | ok tip => simp [h]

/-- The loop applies the blocks below the height of the last one, and one more. -/
theorem replayLoop_eq (h : store.Readable disk) {last : Nat × BlockAddr}
    (hla : last.2 ∈ store.mapBlockIndex) (hlastHeight : nHeightLast ≤ store.tree.height last.2)
    (between rest : List (Nat × BlockAddr))
    (hb : ∀ item ∈ between, item.2 ∈ store.mapBlockIndex ∧
      store.tree.height item.2 < nHeightLast) (tip : CoinsTip) :
    ∃ first others, between ++ last :: rest = first :: others ∧
      store.replayLoop disk nHeightLast first.2 tip others =
        store.replayed disk tip.view (between.map Prod.snd) last.2 := by
  induction between generalizing tip with
  | nil =>
    refine ⟨last, rest, rfl, ?_⟩
    rw [replayLoop_stop hlastHeight, map_nil, replayBlock_eq h hla]
  | cons item between ih =>
    obtain ⟨hmem, hht⟩ := hb item mem_cons_self
    have hr := ih fun other ho => hb other (mem_cons_of_mem item ho)
    refine ⟨item, between ++ last :: rest, rfl, ?_⟩
    obtain ⟨first, others, hs, -⟩ := hr tip
    rw [hs, replayLoop, map_cons, replayed_cons h hmem]
    cases store.replayBlock disk item.2 tip with
    | error failure => rfl
    | ok next =>
      obtain ⟨first', others', hs', hloop⟩ := hr next
      obtain ⟨rfl, rfl⟩ := List.cons.inj (hs.symm.trans hs')
      exact (if_neg (Nat.not_le.mpr hht)).trans hloop

section

variable (hla : pindexLastMeta ∈ store.mapBlockIndex)
  (hbest : pindexBest ∈ store.tree.line pindexLastMeta) (hne : pindexBest ≠ pindexLastMeta)

include hla hbest hne

/-- The loop starts at the first block that is higher than the best one. -/
theorem dropWhile_vSortedByHeight :
    store.vSortedByHeight.dropWhile (fun item => item.1 ≠ store.tree.height pindexBest + 1) =
      store.vSortedByHeight.filter fun item => store.tree.height pindexBest + 1 ≤ item.1 := by
  have hlt := (height_lt_of_mem_line hbest).resolve_left hne
  obtain ⟨next, hnext⟩ := exists_ancestor
    (by omega : store.tree.height pindexBest + 1 ≤ store.tree.height pindexLastMeta)
  obtain ⟨hline, hht⟩ := ancestor_eq_some_iff.mp hnext
  exact dropWhile_ne_of_sorted (vSortedByHeight_sorted_height store)
    ⟨(_, next), mem_vSortedByHeight.mpr ⟨mem_of_mem_line hla hline, rfl⟩, hht⟩

/-- **What the recovery applies**: all blocks of the heights in between, and the first one of
the height of the last. -/
theorem replay_eq (h : store.Readable disk) (tip : CoinsTip) :
    ∃ last, store.FirstOfHeight (store.tree.height pindexLastMeta) last ∧
      store.replay disk (store.tree.height pindexLastMeta) pindexBest tip =
        store.replayed disk tip.view (store.blocksBetween (store.tree.height pindexBest)
          (store.tree.height pindexLastMeta)) last := by
  have hlt := (height_lt_of_mem_line hbest).resolve_left hne
  obtain ⟨last, rest, hu, hfst⟩ := exists_firstOfHeight hla
  have hb : ∀ item ∈ store.itemsBetween (store.tree.height pindexBest)
      (store.tree.height pindexLastMeta), item.2 ∈ store.mapBlockIndex ∧
        store.tree.height item.2 < store.tree.height pindexLastMeta := by
    intro item hitem
    obtain ⟨hmem, heq, -, hht⟩ := mem_itemsBetween.mp hitem
    exact ⟨hmem, heq ▸ hht⟩
  obtain ⟨first, others, hst, hloop⟩ := replayLoop_eq h hfst.mem
    (Nat.le_of_eq hfst.height_eq.symm) _ rest hb tip
  refine ⟨last.2, hfst, ?_⟩
  rw [blocksBetween, ← hloop, replay, dropWhile_vSortedByHeight hla hbest hne,
    filter_vSortedByHeight store hlt, hu, hst]

theorem recoverCoins_eq (hidx : store.vSortedByHeight[(nHeightLast + 1) % 2 ^ 32]? =
      some (store.tree.height pindexLastMeta, pindexLastMeta)) (view : CCoinsViewCache) :
    store.recoverCoins disk { fLastShutdownWasPrepared := false } nHeightLast
        { view := view, hashBlock := store.getBlockHash pindexBest } =
      store.replay disk (store.tree.height pindexLastMeta) pindexBest
        { view := view, hashBlock := store.getBlockHash pindexBest } := by
  have hmem := mem_of_mem_line hla hbest
  have hh : store.getBlockHash pindexBest ≠ store.getBlockHash pindexLastMeta :=
    fun heq => hne (store.hash_inj pindexBest hmem pindexLastMeta hla heq)
  have hfind : store.mapBlockIndex.find?
      (fun b => store.getBlockHash b = store.getBlockHash pindexBest) = some pindexBest := by
    cases hfind : store.mapBlockIndex.find?
        fun b => store.getBlockHash b = store.getBlockHash pindexBest with
    | none =>
      have hn := List.find?_eq_none.mp hfind pindexBest hmem
      simp at hn
    | some found =>
      have hs := List.find?_some hfind
      rw [store.hash_inj found (mem_of_find?_eq_some hfind) pindexBest hmem
        (of_decide_eq_true hs)]
  simp only [recoverCoins, hidx, hh, hfind, Bool.not_false, Bool.and_self, if_true, if_false]

end

/-! ### The path and what is beside it -/

/-- The outputs that applying the blocks up to a block gives; the transactions of genesis are
not applied. -/
def IsUtxoSet (store : BlockStore) (disk : BlockAddr → Option CBlock) (pindex : BlockAddr)
    (view : CCoinsViewCache) : Prop :=
  ∃ path, store.tree.Climbs store.tree.root path ∧ path.getLastD store.tree.root = pindex ∧
    store.applyBlocks disk {} path = some view

/-- There is no block beside the line of the last block at the heights between, and no block
before the last one at its height. -/
structure OneBranch (store : BlockStore) (pindexBest pindexLastMeta : BlockAddr) : Prop where
  only : ∀ c ∈ store.mapBlockIndex, store.tree.height pindexBest < store.tree.height c →
    store.tree.height c < store.tree.height pindexLastMeta → c ∈ store.tree.line pindexLastMeta
  first : ∀ c ∈ store.mapBlockIndex,
    store.tree.height c = store.tree.height pindexLastMeta → pindexLastMeta ≤ c

section

variable {path : List BlockAddr} (hla : pindexLastMeta ∈ store.mapBlockIndex)
  (hcl : store.tree.Climbs pindexBest path) (hpath : path.getLastD pindexBest = pindexLastMeta)
  (hne : path ≠ [])

include hla hcl hpath

/-- On one branch the blocks in between are those on the path before its end. -/
theorem mem_blocksBetween_iff_of_oneBranch (h : store.OneBranch pindexBest pindexLastMeta)
    {lower : List BlockAddr} (hl : path = lower ++ [pindexLastMeta]) (c : BlockAddr) :
    c ∈ store.blocksBetween (store.tree.height pindexBest) (store.tree.height pindexLastMeta) ↔
      c ∈ lower := by
  have hline := hcl.line_last
  rw [hpath, hl] at hline
  rw [mem_blocksBetween]
  constructor
  · rintro ⟨hc, hlow, hhigh⟩
    have hcLine := h.only c hc hlow hhigh
    rw [hline] at hcLine
    rcases mem_append.mp hcLine with hcPath | hcBest
    · rcases mem_append.mp (mem_reverse.mp hcPath) with hcLower | hcLast
      · exact hcLower
      · rw [mem_singleton.mp hcLast] at hhigh
        omega
    · have hle := height_le_of_mem_line hcBest
      omega
  · intro hc
    have hcPath : c ∈ path := hl ▸ mem_append_left _ hc
    have hcLine := hcl.mem_line hcPath
    have hhts := hcl.pairwise_height_lt
    rw [hpath] at hcLine
    rw [hl, pairwise_append] at hhts
    exact ⟨mem_of_mem_line hla hcLine, hcl.height_lt hcPath,
      hhts.2.2 c hc pindexLastMeta (mem_singleton_self _)⟩

include hne

/-- On one branch the blocks in between are the path. -/
theorem blocksBetween_append_last (h : store.OneBranch pindexBest pindexLastMeta) :
    store.blocksBetween (store.tree.height pindexBest) (store.tree.height pindexLastMeta) ++
      [pindexLastMeta] = path := by
  obtain ⟨lower, hl⟩ : ∃ lower, path = lower ++ [pindexLastMeta] := by
    rcases eq_nil_or_concat path with hnil | ⟨lower, last, rfl⟩
    · exact absurd hnil hne
    · rw [concat_eq_append, getLastD_concat] at hpath
      exact ⟨lower, by rw [concat_eq_append, hpath]⟩
  have hmem := mem_blocksBetween_iff_of_oneBranch hla hcl hpath h hl
  have hhts := hcl.pairwise_height_lt
  rw [hl, pairwise_append] at hhts
  have hlowerHeights := hhts.1
  have hperm : (store.blocksBetween (store.tree.height pindexBest)
      (store.tree.height pindexLastMeta)).Perm lower := by
    refine (perm_ext_iff_of_nodup (blocksBetween_nodup store _ _) ?_).mpr hmem
    exact hlowerHeights.imp fun hlt heq => by
      rw [heq] at hlt
      omega
  rw [hl]
  congr 1
  refine hperm.eq_of_pairwise ?_ (blocksBetween_sorted store _ _)
    (hlowerHeights.imp fun hlt => Nat.le_of_lt hlt)
  have hlowerLine : ∀ c ∈ lower, c ∈ store.tree.line pindexLastMeta := by
    intro c hc
    rw [← hpath]
    exact hcl.mem_line (hl ▸ mem_append_left _ hc)
  intro a b ha hb hab hba
  exact eq_of_mem_line_of_height (hlowerLine a ((hmem a).mp ha)) (hlowerLine b hb)
    (Nat.le_antisymm hab hba)

end

/-! ### Blocks with a coinbase only -/

/-- The transaction of a block: it spends nothing, and no other block has it. -/
def coinbaseOf (store : BlockStore) (pindex : BlockAddr) : CTransaction where
  hash := store.getBlockHash pindex
  vin := [{ prevout := COutPoint.null }]
  vout := [{ nValue := 1, scriptPubKey := [] }]

/-- Every block with its coinbase as the only transaction. -/
def coinbaseOnly (store : BlockStore) (pindex : BlockAddr) : Option CBlock :=
  some {
    hash := store.getBlockHash pindex
    hashPrevBlock := 0
    nTime := 0
    vtx := [store.coinbaseOf pindex] }

theorem readable_coinbaseOnly (store : BlockStore) : store.Readable store.coinbaseOnly :=
  fun _ _ => ⟨_, rfl, rfl, cons_ne_nil _ _⟩

theorem accessCoins_setCoins_coinbase (store : BlockStore) (view : CCoinsViewCache)
    (pindex : BlockAddr) (nHeight : Int) (txid : uint256) :
    ((view.setCoins (store.getBlockHash pindex)
      (CCoins.fromTx (store.coinbaseOf pindex) nHeight)).accessCoins txid).isSome ↔
        txid = store.getBlockHash pindex ∨ (view.accessCoins txid).isSome := by
  have hcns : (CCoins.fromTx (store.coinbaseOf pindex) nHeight).cleanup.isPruned = false := rfl
  simp only [CCoinsViewCache.setCoins, hcns, Bool.false_eq_true, if_false,
    CCoinsViewCache.accessCoins]
  by_cases htxid : txid = store.getBlockHash pindex
  · rw [htxid]
    simp
  · rw [Finmap.lookup_insert_of_ne _ htxid]
    simp [htxid]

/-- Such blocks can be applied in any order, and leave their coinbases behind. -/
theorem applyBlocks_coinbaseOnly (store : BlockStore) (view : CCoinsViewCache)
    (path : List BlockAddr) :
    ∃ applied, store.applyBlocks store.coinbaseOnly view path = some applied ∧
      ∀ txid, (applied.accessCoins txid).isSome ↔
        (∃ pindex ∈ path, store.getBlockHash pindex = txid) ∨ (view.accessCoins txid).isSome := by
  induction path generalizing view with
  | nil => exact ⟨view, rfl, by simp⟩
  | cons pindex path ih =>
    obtain ⟨applied, hap, ha⟩ := ih (view.setCoins (store.getBlockHash pindex)
      (CCoins.fromTx (store.coinbaseOf pindex) (store.tree.height pindex)))
    refine ⟨applied, hap, ?_⟩
    intro txid
    rw [ha, accessCoins_setCoins_coinbase, exists_mem_cons_iff, or_assoc,
      or_left_comm, @eq_comm _ txid]

/-! ### When the recovery is right -/

/--
**When the recovery is right.**  Let a path lead from the best block of the outputs to the block
at the chosen position of the sorted list.  For all contents of the blocks the outputs of the
best block are turned into those of the path, with its end as the best block, if and only if
the known blocks are on one branch.
-/
theorem recoverCoins_correct_iff {pindexBest pindexLastMeta : BlockAddr} {path : List BlockAddr}
    {nHeightLast : Nat} (hidx : store.vSortedByHeight[(nHeightLast + 1) % 2 ^ 32]? =
      some (store.tree.height pindexLastMeta, pindexLastMeta))
    (hcl : store.tree.Climbs pindexBest path)
    (hpath : path.getLastD pindexBest = pindexLastMeta) (hne : path ≠ []) :
    (∀ (disk : BlockAddr → Option CBlock) (view applied : CCoinsViewCache),
      store.Readable disk → store.IsUtxoSet disk pindexBest view →
        store.applyBlocks disk view path = some applied →
          store.recoverCoins disk { fLastShutdownWasPrepared := false } nHeightLast
              { view := view, hashBlock := store.getBlockHash pindexBest } =
            .ok { view := applied, hashBlock := store.getBlockHash pindexLastMeta }) ↔
      store.OneBranch pindexBest pindexLastMeta := by
  have hla : pindexLastMeta ∈ store.mapBlockIndex :=
    (mem_vSortedByHeight.mp (mem_of_getElem? hidx)).1
  have hbest : pindexBest ∈ store.tree.line pindexLastMeta := hpath ▸ hcl.start_mem_line
  have hp : pindexBest ≠ pindexLastMeta := by
    have hht := hcl.height_last
    rw [hpath] at hht
    have hlen := length_pos_iff.mpr hne
    intro heq
    rw [heq] at hht
    omega
  constructor
  · intro hri
    obtain ⟨lower, hlowerClimbs, hl⟩ :=
      exists_climbs (root_mem_line pindexBest :
        store.tree.root ∈ store.tree.line pindexBest)
    obtain ⟨view, hv, hviewAccess⟩ := store.applyBlocks_coinbaseOnly {} lower
    obtain ⟨applied, ha, happliedAccess⟩ := store.applyBlocks_coinbaseOnly view path
    have hrcv := hri store.coinbaseOnly view applied store.readable_coinbaseOnly
      ⟨lower, hlowerClimbs, hl, hv⟩ ha
    obtain ⟨last, hfst, hr⟩ := replay_eq hla hbest hp store.readable_coinbaseOnly
      { view := view, hashBlock := store.getBlockHash pindexBest }
    obtain ⟨replayed, hre, hreplayedAccess⟩ := store.applyBlocks_coinbaseOnly view
      (store.blocksBetween (store.tree.height pindexBest) (store.tree.height pindexLastMeta) ++
        [last])
    rw [recoverCoins_eq hla hbest hp hidx, hr, BlockStore.replayed, hre] at hrcv
    obtain ⟨rfl, hh⟩ := BlockValidation.CoinsTip.mk.inj (Except.ok.inj hrcv)
    obtain rfl := store.hash_inj last hfst.mem pindexLastMeta hla hh
    refine ⟨?_, hfst.le⟩
    -- The coinbase of a block in between is there, so the block is on the path or below it.
    intro c hc hlow hhigh
    have hcb := (hreplayedAccess (store.getBlockHash c)).mpr
      (.inl ⟨c, mem_append_left _ (mem_blocksBetween.mpr ⟨hc, hlow, hhigh⟩), rfl⟩)
    rw [happliedAccess, hviewAccess] at hcb
    rcases hcb with ⟨b, hb, hs⟩ | ⟨b, hb, hs⟩ | hn
    · have hline := hcl.mem_line hb
      rw [hpath] at hline
      exact store.hash_inj b (mem_of_mem_line hla hline) c hc hs ▸ hline
    · have hline := hlowerClimbs.mem_line hb
      rw [hl] at hline
      have hline := line_trans hbest hline
      exact store.hash_inj b (mem_of_mem_line hla hline) c hc hs ▸ hline
    · cases hn
  · intro hone disk view applied hrea _ ha
    obtain ⟨last, hfst, hr⟩ := replay_eq hla hbest hp hrea
      { view := view, hashBlock := store.getBlockHash pindexBest }
    obtain rfl : last = pindexLastMeta := hfst.unique ⟨hla, rfl, hone.first⟩
    rw [recoverCoins_eq hla hbest hp hidx, hr, replayed,
      blocksBetween_append_last hla hcl hpath hne hone, ha]

/-- Some blocks of the tree in which every block has two children, each with its number as its
hash. -/
def binaryStore (blocks : List BlockAddr) (nodup : blocks.Nodup)
    (parents : ∀ b ∈ blocks, ∀ p ∈ binaryTree.parent b, p ∈ blocks)
    (small : ∀ b ∈ blocks, b < 2 ^ 256) : BlockStore where
  tree := binaryTree.toParentTree
  mapBlockIndex := blocks
  getBlockHash := BitVec.ofNat 256
  nodup := nodup
  parent_mem := parents
  hash_inj := by
    intro a ha b hb heq
    have htoNat := congrArg BitVec.toNat heq
    rwa [BitVec.toNat_ofNat, BitVec.toNat_ofNat, Nat.mod_eq_of_lt (small a ha),
      Nat.mod_eq_of_lt (small b hb)] at htoNat

/-- The branch 0, 1, 3, and block 4 on block 1. -/
def branchStore : BlockStore :=
  binaryStore [0, 1, 3, 4] (by decide) (by decide) (by decide)

theorem recoverCoins_correct_branch :
    ∃ applied, branchStore.applyBlocks branchStore.coinbaseOnly {} [1, 3] = some applied ∧
      branchStore.recoverCoins branchStore.coinbaseOnly { fLastShutdownWasPrepared := false } 1
          { view := {}, hashBlock := 0 } = .ok { view := applied, hashBlock := 3 } := by
  obtain ⟨applied, ha, -⟩ := branchStore.applyBlocks_coinbaseOnly {} [1, 3]
  have hcl : branchStore.tree.Climbs 0 [1, 3] := ⟨rfl, rfl, trivial⟩
  have hone : branchStore.OneBranch 0 3 := ⟨by decide +kernel, by decide +kernel⟩
  refine ⟨applied, ha, ?_⟩
  exact (recoverCoins_correct_iff (by decide +kernel) hcl rfl (by simp)).mpr hone _ {} applied
    branchStore.readable_coinbaseOnly ⟨[], trivial, rfl, rfl⟩ ha

/-- The branch 0, 1, 3, and block 2 on genesis. -/
def forkStore : BlockStore :=
  binaryStore [0, 1, 2, 3] (by decide) (by decide) (by decide)

/-- From genesis to block 3 the recovery also applies block 2, which is not on the path. -/
theorem recoverCoins_applies_side_branch :
    forkStore.vSortedByHeight[(2 + 1) % 2 ^ 32]? = some (2, 3) ∧
      forkStore.tree.Climbs 0 [1, 3] ∧
      forkStore.Readable forkStore.coinbaseOnly ∧
      forkStore.IsUtxoSet forkStore.coinbaseOnly 0 {} ∧
      ∃ applied recovered,
        forkStore.applyBlocks forkStore.coinbaseOnly {} [1, 3] = some applied ∧
        forkStore.recoverCoins forkStore.coinbaseOnly { fLastShutdownWasPrepared := false } 2
          { view := {}, hashBlock := 0 } = .ok recovered ∧
        (applied.accessCoins 2).isSome = false ∧
        (recovered.view.accessCoins 2).isSome = true := by
  refine ⟨by decide +kernel, ⟨rfl, rfl, trivial⟩, forkStore.readable_coinbaseOnly,
    ⟨[], trivial, rfl, rfl⟩, ?_⟩
  obtain ⟨applied, hap, ha⟩ : ∃ applied ∈ forkStore.applyBlocks forkStore.coinbaseOnly {}
      [1, 3], (applied.accessCoins 2).isSome = false := by
    decide +kernel
  obtain ⟨recovered, hrcv, hr⟩ : ∃ recovered, forkStore.recoverCoins
      forkStore.coinbaseOnly { fLastShutdownWasPrepared := false } 2
        { view := {}, hashBlock := 0 } =
        .ok recovered ∧ (recovered.view.accessCoins 2).isSome = true := by
    decide +kernel
  exact ⟨applied, recovered, hap, hrcv, ha, hr⟩

end BlockStore

end Divi
