/-
The layers of caches stand for one flat map.

For one transaction id the layers are a column of cells over the database, and the rules
for write-back caches say what each operation does to it.  What is left here is that the
operations of the source act column by column: a read and a modification on the column of
their id, a flush on every column, entry by entry in whatever order the map is walked.

The flat map keeps its own version for every layer, so that flushed changes are kept and
discarded ones dropped.  Coins without unspent outputs count as absent: a layer may show
such coins where the flat map has none, and hands them out for modification.
-/
import Divi.CoinsLayers
import Divi.Lib.WriteBack
import Divi.Proofs.Coins

namespace Divi

open List hiding merge

open CCoins CCoinsCacheEntry WriteBack CCoins

variable {cacheCoins : CCoinsMap} {txid : uint256} {entry : CCoinsCacheEntry}
  {entries : List (Sigma fun _ : uint256 => CCoinsCacheEntry)} {view base : CCoinsView}

/-- Coins, unless they are pruned. -/
abbrev CCoins.live : CCoins → Option CCoins :=
  WriteBack.live CCoins.isPruned

theorem CCoins.cleanup_cleanup (coins : CCoins) : coins.cleanup.cleanup = coins.cleanup := by
  simp only [cleanup, rdropWhile_idempotent _ _]

/-- Cleaned-up coins without unspent outputs have no outputs at all. -/
theorem CCoins.isEmpty_of_cleanup {coins : CCoins} (h : coins.cleanup = coins) :
    coins.vout.isEmpty = coins.isPruned := by
  have htrim : coins.vout.rdropWhile CTxOut.isNull = coins.vout := congrArg vout h
  have hiff : coins.isPruned = true ↔ coins.vout = [] := by
    rw [isPruned, List.all_eq_true, ← List.rdropWhile_eq_nil_iff, htrim]
  rw [Bool.eq_iff_iff, hiff, List.isEmpty_iff]

/-! ### Columns -/

def CCoinsCacheEntry.toEntry (entry : CCoinsCacheEntry) : Entry CCoins :=
  ⟨entry.coins, entry.DIRTY, entry.FRESH⟩

namespace CCoinsView

def cellAt (cacheCoins : CCoinsMap) (txid : uint256) : Option (Entry CCoins) :=
  (cacheCoins.lookup txid).map CCoinsCacheEntry.toEntry

def column : CCoinsView → uint256 → Column CCoins
  | .db _, _ => []
  | .cache cacheCoins base, txid => cellAt cacheCoins txid :: base.column txid

/-- What the database gives for an id. -/
def baseAt : CCoinsView → uint256 → Option CCoins
  | .db coins, txid => (coins.lookup txid).map CCoins.cleanup
  | .cache _ base, txid => base.baseAt txid

theorem cellAt_insert (cacheCoins : CCoinsMap) (txid other : uint256) (entry : CCoinsCacheEntry) :
    cellAt (cacheCoins.insert txid entry) other
      = if other = txid then some entry.toEntry else cellAt cacheCoins other := by
  unfold cellAt
  split
  · rename_i heq
    rw [heq, AList.lookup_insert]
    rfl
  · rename_i hne
    rw [AList.lookup_insert_ne hne]

theorem cellAt_erase (cacheCoins : CCoinsMap) (txid other : uint256) :
    cellAt (cacheCoins.erase txid) other
      = if other = txid then none else cellAt cacheCoins other := by
  unfold cellAt
  split
  · rename_i heq
    rw [heq, AList.lookup_erase]
    rfl
  · rename_i hne
    rw [AList.lookup_erase_ne hne]

/-- A read acts on the column of its id. -/
structure ReadsColumn (view : CCoinsView) (txid : uint256) (result : Option CCoins × CCoinsView) :
    Prop where
  here : fetch CCoins.isPruned (view.column txid) (view.baseAt txid)
    = (result.1, result.2.column txid)
  elsewhere : ∀ other, other ≠ txid → result.2.column other = view.column other
  base : result.2.baseAt = view.baseAt

theorem getCoins_column (view : CCoinsView) (txid : uint256) :
    ReadsColumn view txid (view.getCoins txid) := by
  induction view with
  | db coins => exact ⟨rfl, fun _ _ => rfl, rfl⟩
  | cache cacheCoins base ih =>
    cases hl : cacheCoins.lookup txid with
    | some entry =>
      simp only [getCoins, hl]
      refine ⟨?_, fun _ _ => rfl, rfl⟩
      simp only [column, cellAt, hl, Option.map_some, fetch]
      rfl
    | none =>
      match hget : base.getCoins txid with
      | (none, below) =>
        rw [hget] at ih
        simp only [getCoins, hl, hget]
        refine ⟨?_, fun other hne => ?_, ih.base⟩
        · simp [column, baseAt, cellAt, hl, fetch, ih.here]
        · simp only [column, ih.elsewhere other hne]
      | (some coins, below) =>
        rw [hget] at ih
        simp only [getCoins, hl, hget]
        refine ⟨?_, fun other hne => ?_, ih.base⟩
        · simp only [column, baseAt, cellAt_insert, if_true]
          simp only [cellAt, hl, Option.map_none, fetch, ih.here]
          rfl
        · simp only [column, ih.elsewhere other hne, cellAt_insert, if_neg hne]

theorem entryToModify_column (cacheCoins : CCoinsMap) (base : CCoinsView) (txid : uint256) :
    let result := entryToModify cacheCoins base txid
    grab isPruned cleared (cellAt cacheCoins txid) (base.column txid)
        (base.baseAt txid) = (result.1.toEntry, result.2.column txid) ∧
      (∀ other, other ≠ txid → result.2.column other = base.column other) ∧
      result.2.baseAt = base.baseAt := by
  have hr := getCoins_column base txid
  cases hl : cacheCoins.lookup txid with
  | some entry =>
    simp only [entryToModify, cellAt, hl, Option.map_some, grab]
    exact ⟨trivial, fun _ _ => trivial, trivial⟩
  | none =>
    cases hget : base.getCoins txid with
    | mk found below =>
      rw [hget] at hr
      cases found with
      | none =>
        simp only [entryToModify, cellAt, hl, hget, Option.map_none, grab, hr.here]
        exact ⟨rfl, hr.elsewhere, hr.base⟩
      | some coins =>
        simp only [entryToModify, cellAt, hl, hget, Option.map_none, grab, hr.here]
        exact ⟨rfl, hr.elsewhere, hr.base⟩

theorem cellAt_finishModification (cacheCoins : CCoinsMap) (txid other : uint256)
    (entry : CCoinsCacheEntry) (coins : CCoins) :
    cellAt (finishModification cacheCoins txid entry coins) other
      = if other = txid then store isPruned entry.toEntry coins.cleanup
        else cellAt cacheCoins other := by
  unfold finishModification store
  cases hdrop : entry.FRESH && coins.cleanup.isPruned with
  | true => simp [toEntry, hdrop, cellAt_erase]
  | false =>
    simp [toEntry, hdrop, cellAt_insert]

/-! ### Writing a map back -/

theorem batchWriteEntry_cell {cell : Option (Entry CCoins)}
    (h : merge isPruned (some entry.toEntry) (cellAt cacheCoins txid) = some cell) :
    ∃ written, batchWriteEntry cacheCoins txid entry = some written ∧
      ∀ other, cellAt written other = if other = txid then cell else cellAt cacheCoins other := by
  have hs : ∀ other, cellAt cacheCoins other
      = if other = txid then cellAt cacheCoins txid else cellAt cacheCoins other := by
    intro other
    split
    · rename_i heq
      rw [heq]
    · rfl
  unfold batchWriteEntry
  simp only [merge, toEntry] at h
  cases hd : entry.DIRTY with
  | false =>
    simp only [hd, Bool.false_eq_true, if_false, Option.some.injEq] at h
    exact ⟨cacheCoins, rfl, h ▸ hs⟩
  | true =>
    simp only [hd, if_true] at h ⊢
    cases hget : cacheCoins.lookup txid with
    | none =>
      have hcell : cellAt cacheCoins txid = none := by rw [cellAt, hget, Option.map_none]
      rw [hcell] at h
      cases hp : entry.coins.isPruned with
      | true =>
        simp only [hp, if_true, Option.some.injEq] at h
        refine ⟨cacheCoins, rfl, ?_⟩
        rw [← h, ← hcell]
        exact hs
      | false =>
        cases hf : entry.FRESH with
        | false => simp [hp, hf] at h
        | true =>
          simp only [hp, hf, Bool.false_eq_true, if_false, if_true, Option.some.injEq] at h
          exact ⟨_, rfl, fun other => h ▸ cellAt_insert cacheCoins txid other _⟩
    | some itUs =>
      have hcell : cellAt cacheCoins txid = some itUs.toEntry := by
        rw [cellAt, hget, Option.map_some]
      rw [hcell] at h
      simp only [toEntry] at h
      simp only
      cases hdrop : itUs.FRESH && entry.coins.isPruned with
      | true =>
        simp only [hdrop, if_true, Option.some.injEq] at h
        exact ⟨_, rfl, fun other => h ▸ cellAt_erase cacheCoins txid other⟩
      | false =>
        simp only [hdrop, Bool.false_eq_true, if_false, Option.some.injEq] at h
        exact ⟨_, rfl, fun other => h ▸ cellAt_insert cacheCoins txid other _⟩

/-- The loop writes every cell back, in whatever order the entries come. -/
theorem foldlM_batchWriteEntry (hkeys : entries.NodupKeys) {cell : uint256 → Option (Entry CCoins)}
    (h : ∀ txid, merge isPruned
      ((entries.dlookup txid).map toEntry) (cellAt cacheCoins txid)
        = some (cell txid)) :
    ∃ written, entries.foldlM (fun cacheCoins it => batchWriteEntry cacheCoins it.1 it.2)
        cacheCoins = some written ∧ ∀ txid, cellAt written txid = cell txid := by
  induction entries generalizing cacheCoins with
  | nil =>
    refine ⟨cacheCoins, rfl, fun txid => ?_⟩
    exact Option.some.inj (h txid)
  | cons it entries ih =>
    obtain ⟨txid, entry⟩ := it
    obtain ⟨hn, hkeys⟩ := nodupKeys_cons.mp hkeys
    have hhere := h txid
    rw [dlookup_cons_eq, Option.map_some] at hhere
    obtain ⟨written, hwr, hc⟩ := batchWriteEntry_cell hhere
    have hr : ∀ other, merge isPruned
        ((entries.dlookup other).map toEntry) (cellAt written other)
          = some (cell other) := by
      intro other
      rw [hc other]
      by_cases heq : other = txid
      · -- the id does not come again
        rw [if_pos heq, heq, dlookup_eq_none.mpr hn]
        rfl
      · have hskip : List.dlookup other (⟨txid, entry⟩ :: entries) = entries.dlookup other :=
          dlookup_cons_ne entries ⟨txid, entry⟩ heq
        rw [if_neg heq, ← h other, hskip]
    obtain ⟨final, hf, hres⟩ := ih hkeys hr
    refine ⟨final, ?_, hres⟩
    rw [foldlM_cons, hwr]
    exact hf

theorem batchWriteCoins_base {coins : AList fun _ : uint256 => CCoins}
    (htidy : entry.coins.cleanup = entry.coins) (other : uint256) :
    (db (batchWriteCoins coins txid entry)).baseAt other
      = if other = txid then mergeBase isPruned (some entry.toEntry) ((db coins).baseAt txid)
        else (db coins).baseAt other := by
  unfold batchWriteCoins
  simp only [baseAt, mergeBase, toEntry, WriteBack.live]
  by_cases heq : other = txid
  · subst heq
    by_cases hd : entry.DIRTY = true
    · by_cases hp : entry.coins.isPruned = true
      · simp [hd, hp]
      · simp [hd, hp, htidy]
    · simp [hd]
  · by_cases hd : entry.DIRTY = true
    · by_cases hp : entry.coins.isPruned = true
      · simp [hd, hp, heq, AList.lookup_erase_ne]
      · simp [hd, hp, heq, AList.lookup_insert_ne]
    · simp [hd, heq]

theorem foldl_batchWriteCoins (hkeys : entries.NodupKeys)
    (htidy : ∀ it ∈ entries, it.2.coins.cleanup = it.2.coins)
    (coins : AList fun _ : uint256 => CCoins) (txid : uint256) :
    (db (entries.foldl (fun coins it => batchWriteCoins coins it.1 it.2) coins)).baseAt txid
      = mergeBase isPruned ((entries.dlookup txid).map toEntry)
        ((db coins).baseAt txid) := by
  induction entries generalizing coins with
  | nil => rfl
  | cons it entries ih =>
    obtain ⟨key, entry⟩ := it
    obtain ⟨hn, hkeys⟩ := nodupKeys_cons.mp hkeys
    have he : entry.coins.cleanup = entry.coins := htidy ⟨key, entry⟩ mem_cons_self
    rw [foldl_cons, ih hkeys (fun it hit => htidy it (mem_cons_of_mem _ hit)),
      batchWriteCoins_base he]
    by_cases heq : txid = key
    · rw [if_pos heq, heq, dlookup_eq_none.mpr hn, dlookup_cons_eq]
      rfl
    · have hskip : List.dlookup txid (⟨key, entry⟩ :: entries) = entries.dlookup txid :=
        dlookup_cons_ne entries ⟨key, entry⟩ heq
      rw [if_neg heq, hskip]

/-! ### The invariant -/

/-- The coins of every entry are cleaned up. -/
def EntriesTidy (cacheCoins : CCoinsMap) : Prop :=
  ∀ txid, ∀ entry ∈ cacheCoins.lookup txid, entry.coins.cleanup = entry.coins

def Tidy : CCoinsView → Prop
  | .db _ => True
  | .cache cacheCoins base => EntriesTidy cacheCoins ∧ base.Tidy

theorem EntriesTidy.insert (h : EntriesTidy cacheCoins) (he : entry.coins.cleanup = entry.coins) :
    EntriesTidy (cacheCoins.insert txid entry) := by
  intro other found hf
  by_cases heq : other = txid
  · rw [heq, AList.lookup_insert] at hf
    obtain rfl : entry = found := Option.some.inj hf
    exact he
  · rw [AList.lookup_insert_ne heq] at hf
    exact h other found hf

theorem EntriesTidy.erase (h : EntriesTidy cacheCoins) (txid : uint256) :
    EntriesTidy (cacheCoins.erase txid) := by
  intro other found hf
  by_cases heq : other = txid
  · rw [heq, AList.lookup_erase] at hf
    cases hf
  · rw [AList.lookup_erase_ne heq] at hf
    exact h other found hf

theorem getCoins_tidy (h : view.Tidy) (txid : uint256) :
    (∀ coins ∈ (view.getCoins txid).1, coins.cleanup = coins) ∧ (view.getCoins txid).2.Tidy := by
  induction view with
  | db coins =>
    refine ⟨?_, trivial⟩
    intro found hf
    obtain ⟨stored, -, rfl⟩ := Option.mem_map.mp hf
    exact cleanup_cleanup stored
  | cache cacheCoins base ih =>
    obtain ⟨hes, hbase⟩ := h
    cases hl : cacheCoins.lookup txid with
    | some entry =>
      simp only [getCoins, hl]
      refine ⟨?_, hes, hbase⟩
      rintro coins ⟨⟩
      exact hes txid entry hl
    | none =>
      have hih := ih hbase
      match hget : base.getCoins txid with
      | (none, below) =>
        rw [hget] at hih
        simp only [getCoins, hl, hget]
        exact ⟨nofun, hes, hih.2⟩
      | (some coins, below) =>
        rw [hget] at hih
        simp only [getCoins, hl, hget]
        have hcns : coins.cleanup = coins := hih.1 coins rfl
        refine ⟨?_, hes.insert hcns, hih.2⟩
        rintro found ⟨⟩
        exact hcns

theorem entryToModify_tidy (cacheCoins : CCoinsMap) (hbase : base.Tidy) (txid : uint256) :
    (entryToModify cacheCoins base txid).2.Tidy := by
  have hr := (getCoins_tidy hbase txid).2
  cases hl : cacheCoins.lookup txid with
  | some entry =>
    simp only [entryToModify, hl]
    exact hbase
  | none =>
    match hget : base.getCoins txid with
    | (none, below) | (some coins, below) =>
      rw [hget] at hr
      simp only [entryToModify, hl, hget]
      exact hr

theorem finishModification_tidy (h : EntriesTidy cacheCoins) (txid : uint256)
    (entry : CCoinsCacheEntry) (coins : CCoins) :
    EntriesTidy (finishModification cacheCoins txid entry coins) := by
  unfold finishModification
  split
  · exact h.erase txid
  · exact h.insert (cleanup_cleanup coins)

theorem batchWriteEntry_tidy {written : CCoinsMap} (h : EntriesTidy cacheCoins)
    (he : entry.coins.cleanup = entry.coins)
    (hw : batchWriteEntry cacheCoins txid entry = some written) : EntriesTidy written := by
  revert hw
  fun_cases batchWriteEntry cacheCoins txid entry with
  | case1 | case5 =>
    rintro ⟨⟩
    exact h.insert he
  | case2 => nofun
  | case3 | case6 =>
    rintro ⟨⟩
    exact h
  | case4 =>
    rintro ⟨⟩
    exact h.erase txid

theorem foldlM_batchWriteEntry_tidy (hes : ∀ it ∈ entries, it.2.coins.cleanup = it.2.coins)
    {written : CCoinsMap} (h : EntriesTidy cacheCoins)
    (hw : entries.foldlM (fun cacheCoins it => batchWriteEntry cacheCoins it.1 it.2) cacheCoins
      = some written) : EntriesTidy written := by
  induction entries generalizing cacheCoins with
  | nil =>
    cases hw
    exact h
  | cons it entries ih =>
    obtain ⟨next, hnext, hr⟩ := Option.bind_eq_some_iff.mp hw
    have htidy := batchWriteEntry_tidy h (hes it mem_cons_self) hnext
    exact ih (fun it hit => hes it (mem_cons_of_mem _ hit)) htidy hr

structure Sound (view : CCoinsView) : Prop where
  coherent : ∀ txid, Coherent CCoins.isPruned (view.column txid) (view.baseAt txid)
  tidy : view.Tidy

/-! ### The flat map -/

/-- What the view stands for. -/
def flat (view : CCoinsView) (txid : uint256) : Option CCoins :=
  seen CCoins.isPruned (view.column txid) (view.baseAt txid)

/-- What every layer stands for, top first, the database last. -/
def versions : CCoinsView → List (uint256 → Option CCoins)
  | .db coins => [(db coins).flat]
  | .cache cacheCoins base => (cache cacheCoins base).flat :: base.versions

theorem versions_at (view : CCoinsView) (txid : uint256) : view.versions.map (fun flat => flat txid)
      = WriteBack.versions isPruned (view.column txid) (view.baseAt txid) := by
  induction view with
  | db coins => rfl
  | cache cacheCoins base ih => exact congrArg₂ List.cons rfl ih

theorem versions_ext {l l' : List (uint256 → Option CCoins)}
    (h : ∀ txid, l.map (fun flat => flat txid) = l'.map fun flat => flat txid) : l = l' := by
  induction l generalizing l' with
  | nil =>
    have hlen := congrArg List.length (h 0)
    simp only [map_nil, length_nil, length_map] at hlen
    exact (length_eq_zero_iff.mp hlen.symm).symm
  | cons flat rest ih =>
    cases l' with
    | nil => exact absurd (h 0) (by simp)
    | cons flat' rest' =>
      have hp : ∀ txid, flat txid = flat' txid ∧
          rest.map (fun flat => flat txid) = rest'.map fun flat => flat txid := by
        intro txid
        exact List.cons.inj (h txid)
      have hflat : flat = flat' := funext fun txid => (hp txid).1
      rw [hflat, ih fun txid => (hp txid).2]

end CCoinsView

/-- A call on the flat map, which keeps a version of itself for every layer. -/
inductive FlatCall : List (uint256 → Option CCoins) → CoinsCall → CoinsAnswer →
    List (uint256 → Option CCoins) → Prop
  | getCoins {flat rest txid coins} (h : coins.bind CCoins.live = flat txid) :
    FlatCall (flat :: rest) (.getCoins txid) (.coins coins) (flat :: rest)
  | accessCoins {flat rest txid coins} (h : coins.bind CCoins.live = flat txid) :
    FlatCall (flat :: rest) (.accessCoins txid) (.coins coins) (flat :: rest)
  | haveCoins {flat rest txid} :
    FlatCall (flat :: rest) (.haveCoins txid) (.have_ (flat txid).isSome) (flat :: rest)
  | modifyCoins {flat rest txid modification handed} (h : CCoins.live handed = flat txid) :
    FlatCall (flat :: rest) (.modifyCoins txid modification) (.coins (some handed))
      (Function.update flat txid (CCoins.live (modification handed).cleanup) :: rest)
  | flush {flat below rest} : FlatCall (flat :: below :: rest) .flush .done (flat :: flat :: rest)
  | discard {flat below rest} : FlatCall (flat :: below :: rest) .discard .done (below :: rest)
  | push {flat rest} : FlatCall (flat :: rest) .push .done (flat :: flat :: rest)

inductive FlatRun : List (uint256 → Option CCoins) → List CoinsCall → List CoinsAnswer →
    List (uint256 → Option CCoins) → Prop
  | nil {versions} : FlatRun versions [] [] versions
  | cons {versions versions' versions'' op ops answer answers}
    (hcall : FlatCall versions op answer versions')
    (hrun : FlatRun versions' ops answers versions'') :
    FlatRun versions (op :: ops) (answer :: answers) versions''

/-- The map that the rest of the model takes for a view is such a flat map. -/
theorem CCoinsViewCache.accessCoins_setCoins (view : CCoinsViewCache) (txid : uint256)
    (coins : CCoins) :
    (view.setCoins txid coins).accessCoins
      = Function.update view.accessCoins txid (live coins.cleanup) := by
  funext other
  unfold CCoinsViewCache.setCoins CCoinsViewCache.accessCoins CCoins.live WriteBack.live
  by_cases heq : other = txid
  · subst heq
    rw [Function.update_self]
    split
    · exact Finmap.lookup_erase other view.cacheCoins
    · exact Finmap.lookup_insert view.cacheCoins
  · rw [Function.update_of_ne heq]
    split
    · exact Finmap.lookup_erase_ne heq
    · exact Finmap.lookup_insert_of_ne view.cacheCoins heq

/-! ### Every call refines the flat map -/

namespace CCoinsView

theorem getCoins_sound (h : view.Sound) (txid : uint256) :
    (view.getCoins txid).2.Sound ∧ (view.getCoins txid).2.versions = view.versions ∧
      (view.getCoins txid).1.bind live = view.flat txid := by
  have hr := getCoins_column view txid
  have hf := fetch_spec (h.coherent txid)
  rw [hr.here] at hf
  refine ⟨⟨?_, (getCoins_tidy h.tidy txid).2⟩, versions_ext ?_, hf.value⟩
  · intro other
    rw [hr.base]
    by_cases heq : other = txid
    · rw [heq]
      exact hf.coherent
    · rw [hr.elsewhere other heq]
      exact h.coherent other
  · intro other
    rw [versions_at, versions_at, hr.base]
    by_cases heq : other = txid
    · rw [heq]
      exact hf.versions
    · rw [hr.elsewhere other heq]

theorem haveCoins_sound (h : view.Sound) (txid : uint256) :
    (view.haveCoins txid).2.Sound ∧ (view.haveCoins txid).2.versions = view.versions ∧
      (view.haveCoins txid).1 = (view.flat txid).isSome := by
  have hget := getCoins_sound h txid
  have htidy := (getCoins_tidy h.tidy txid).1
  unfold haveCoins
  match hres : view.getCoins txid with
  | (none, view') =>
    rw [hres] at hget
    refine ⟨hget.1, hget.2.1, ?_⟩
    rw [← hget.2.2]
    rfl
  | (some coins, view') =>
    rw [hres] at hget htidy
    refine ⟨hget.1, hget.2.1, ?_⟩
    rw [← hget.2.2]
    simp only [Option.bind_some, isEmpty_of_cleanup (htidy coins rfl), WriteBack.live]
    cases coins.isPruned with
    | true => rfl
    | false => rfl

theorem modifyCoins_sound (h : (cache cacheCoins base).Sound) (txid : uint256)
    (modification : CCoins → CCoins) : let result := modifyCoins cacheCoins base txid modification
    result.2.Sound ∧ live result.1 = (cache cacheCoins base).flat txid ∧
      result.2.versions = Function.update (cache cacheCoins base).flat txid
        (live (modification result.1).cleanup) :: base.versions := by
  intro result
  obtain ⟨hgrab, he, hbase⟩ := entryToModify_column cacheCoins base txid
  have hg := grab_spec isPruned_cleared (h.coherent txid)
  simp only [baseAt] at hg
  rw [hgrab] at hg
  obtain ⟨hc, hvers⟩ := store_spec (modification result.1).cleanup hg
  refine ⟨⟨?_, ?_⟩, hg.value, versions_ext ?_⟩
  · intro other
    simp only [result, modifyCoins, column, baseAt, hbase, cellAt_finishModification]
    by_cases heq : other = txid
    · rw [if_pos heq, heq]
      exact hc
    · rw [if_neg heq, he other heq]
      exact h.coherent other
  · exact ⟨finishModification_tidy h.tidy.1 _ _ _, entryToModify_tidy cacheCoins h.tidy.2 txid⟩
  · intro other
    rw [versions_at, map_cons, versions_at]
    simp only [result, modifyCoins, column, baseAt, hbase, cellAt_finishModification]
    by_cases heq : other = txid
    · rw [if_pos heq, heq, Function.update_self]
      exact hvers
    · rw [if_neg heq, he other heq, Function.update_of_ne heq]
      rfl

theorem entries_tidy (h : EntriesTidy cacheCoins) :
    ∀ it ∈ cacheCoins.entries, it.2.coins.cleanup = it.2.coins := by
  intro it hit
  exact h it.1 it.2 (AList.mem_lookup_iff.mpr hit)

/-- Writing a cache back makes the layer below stand for what the cache stood for. -/
theorem batchWrite_sound (h : (cache cacheCoins base).Sound) :
    ∃ written, base.batchWrite cacheCoins = some written ∧ written.Sound ∧
      written.versions = (cache cacheCoins base).flat :: base.versions.tail := by
  cases base with
  | db coins =>
    have hbase := foldl_batchWriteCoins cacheCoins.nodupKeys (entries_tidy h.tidy.1) coins
    refine ⟨_, rfl, ⟨fun _ => trivial, trivial⟩, versions_ext fun txid => ?_⟩
    rw [versions_at]
    rw [hbase]
    exact congrArg₂ List.cons (mergeBase_spec (h.coherent txid)) rfl
  | cache parentCoins grand =>
    have hm : ∀ txid, ∃ cell, merge isPruned (cellAt cacheCoins txid)
        (cellAt parentCoins txid) = some cell ∧
        Coherent isPruned (cell :: grand.column txid) (grand.baseAt txid) ∧
        seen isPruned (cell :: grand.column txid) (grand.baseAt txid)
          = (cache cacheCoins (cache parentCoins grand)).flat txid :=
      fun txid => merge_spec (h.coherent txid)
    choose cell hcell hco hseen using hm
    obtain ⟨written, hwr, hc⟩ := foldlM_batchWriteEntry cacheCoins.nodupKeys hcell
    have htidy := foldlM_batchWriteEntry_tidy (entries_tidy h.tidy.1) h.tidy.2.1 hwr
    refine ⟨.cache written grand, ?_, ⟨fun txid => ?_, htidy, h.tidy.2.2⟩,
      versions_ext fun txid => ?_⟩
    · simp [batchWrite, hwr]
    · simp only [column, baseAt, hc txid]
      exact hco txid
    · have hflat : (cache written grand).flat txid
          = (cache cacheCoins (cache parentCoins grand)).flat txid := by
        simp only [flat, column, baseAt, hc txid]
        exact hseen txid
      exact congrArg₂ List.cons hflat rfl

/-- An empty cache is transparent. -/
theorem push_sound (h : view.Sound) :
    (cache ∅ view).Sound ∧ (cache ∅ view).versions = view.flat :: view.versions :=
  ⟨⟨fun txid => ⟨nofun, h.coherent txid⟩, nofun, h.tidy⟩, rfl⟩

theorem versions_eq_cons (view : CCoinsView) : view.versions = view.flat :: view.versions.tail := by
  cases view with
  | db coins => rfl
  | cache cacheCoins base => rfl

theorem flat_of_versions {coins : uint256 → Option CCoins} {below : List (uint256 → Option CCoins)}
    (h : view.versions = coins :: below) : view.flat = coins := by
  rw [versions_eq_cons view] at h
  exact (List.cons.inj h).1

/-- What a cache and the view under it stand for come first. -/
theorem versions_cache (cacheCoins : CCoinsMap) (base : CCoinsView) :
    (cache cacheCoins base).versions =
      (cache cacheCoins base).flat :: base.flat :: base.versions.tail :=
  congrArg (List.cons _) (versions_eq_cons base)

/-- After a flush the view under the cache stands for what the cache stood for. -/
theorem flush_sound (h : (cache cacheCoins base).Sound) :
    ∃ view', flush cacheCoins base = some view' ∧ view'.Sound ∧
      view'.versions = (cache cacheCoins base).flat :: (cache cacheCoins base).flat ::
        base.versions.tail := by
  obtain ⟨written, hwr, hs, hvers⟩ := batchWrite_sound h
  obtain ⟨he, ht⟩ := push_sound hs
  refine ⟨cache ∅ written, by rw [flush, hwr, Option.map_some], he, ?_⟩
  rw [ht, flat_of_versions hvers, hvers]

/-- The number of caches. -/
def depth : CCoinsView → Nat
  | .db _ => 0
  | .cache _ base => base.depth + 1

theorem length_versions (view : CCoinsView) : view.versions.length = view.depth + 1 := by
  induction view with
  | db coins => rfl
  | cache cacheCoins base ih => exact congrArg (· + 1) ih

/-- The number of caches after a call, if it can be made. -/
def depthAfter (depth : Nat) : CoinsCall → Option Nat
  | .push => some (depth + 1)
  | .discard => if depth = 0 then none else some (depth - 1)
  | _ => if depth = 0 then none else some depth

/-- **One call.** -/
theorem call_sound (h : view.Sound) {op : CoinsCall} {depth' : Nat}
    (hd : depthAfter view.depth op = some depth') :
    ∃ answer view', view.call op = some (answer, view') ∧ view'.Sound ∧
      FlatCall view.versions op answer view'.versions ∧ view'.depth = depth' := by
  have hsa : ∀ view' : CCoinsView, view'.versions.length = view.versions.length →
      view'.depth = view.depth := by
    intro view' hlen
    rw [length_versions, length_versions] at hlen
    omega
  cases view with
  | db coins =>
    cases op with
    | push =>
      obtain ⟨hs, -⟩ := push_sound h
      cases hd
      exact ⟨.done, _, rfl, hs, .push, rfl⟩
    | _ => cases hd
  | cache cacheCoins base =>
    cases op with
    | push =>
      obtain ⟨hs, -⟩ := push_sound h
      cases hd
      exact ⟨.done, _, rfl, hs, .push, rfl⟩
    | getCoins txid =>
      obtain ⟨hs, hvers, hv⟩ := getCoins_sound h txid
      cases hd
      refine ⟨_, _, rfl, hs, ?_, hsa _ (congrArg List.length hvers)⟩
      rw [hvers]
      exact .getCoins hv
    | accessCoins txid =>
      obtain ⟨hs, hvers, hv⟩ := getCoins_sound h txid
      cases hd
      refine ⟨_, _, rfl, hs, ?_, hsa _ (congrArg List.length hvers)⟩
      rw [hvers]
      exact .accessCoins hv
    | haveCoins txid =>
      obtain ⟨hs, hvers, hv⟩ := haveCoins_sound h txid
      cases hd
      refine ⟨_, _, rfl, hs, ?_, hsa _ (congrArg List.length hvers)⟩
      rw [hvers, hv]
      exact .haveCoins
    | modifyCoins txid modification =>
      obtain ⟨hs, hv, hvers⟩ := modifyCoins_sound h txid modification
      cases hd
      refine ⟨_, _, rfl, hs, ?_, hsa _ (by rw [hvers]; rfl)⟩
      rw [hvers]
      exact .modifyCoins hv
    | flush =>
      obtain ⟨view', hf, hs, hvers⟩ := flush_sound h
      cases hd
      refine ⟨.done, view', by rw [call, hf, Option.map_some], hs, ?_, hsa _ ?_⟩
      · rw [hvers, versions_cache]
        exact .flush
      · rw [hvers, versions_cache]
        rfl
    | discard =>
      cases hd
      refine ⟨.done, base, rfl, ⟨fun txid => (h.coherent txid).2, h.tidy.2⟩, ?_, rfl⟩
      rw [versions_cache, versions_eq_cons base]
      exact .discard

/-- Every call finds a cache to be made on. -/
def callable (depth : Nat) : List CoinsCall → Bool
  | [] => true
  | op :: ops =>
    match depthAfter depth op with
    | none => false
    | some depth => callable depth ops

/-- By induction on the calls, from any sound view. -/
theorem run_sound (h : view.Sound) {ops : List CoinsCall} (hops : callable view.depth ops = true) :
    ∃ answers view', view.run ops = some (answers, view') ∧ view'.Sound ∧
      FlatRun view.versions ops answers view'.versions := by
  induction ops generalizing view with
  | nil => exact ⟨[], view, rfl, h, .nil⟩
  | cons op ops ih =>
    unfold callable at hops
    match hd : depthAfter view.depth op with
    | none =>
      rw [hd] at hops
      cases hops
    | some depth' =>
      rw [hd] at hops
      obtain ⟨answer, next, hcall, hnext, hflat, hnextDepth⟩ := call_sound h hd
      obtain ⟨answers, final, hrun, hf, hr⟩ := ih hnext (by rw [hnextDepth]; exact hops)
      refine ⟨answer :: answers, final, ?_, hf, .cons hflat hr⟩
      simp [run, hcall, hrun]

/-- Flushes and drops all caches. -/
def flushDown (depth : Nat) : List CoinsCall :=
  (List.replicate depth [.flush, .discard]).flatten

/-- Cache by cache: what the top stands for is handed down to the database. -/
theorem flushDown_sound (h : view.Sound) :
    ∃ answers coins, view.run (flushDown view.depth) = some (answers, .db coins) ∧
      (db coins).flat = view.flat := by
  induction hd : view.depth generalizing view with
  | zero =>
    cases view with
    | db coins => exact ⟨[], coins, rfl, rfl⟩
    | cache cacheCoins base => cases hd
  | succ depth ih =>
    cases view with
    | db coins => cases hd
    | cache cacheCoins base =>
      obtain ⟨written, hwr, hs, hvers⟩ := batchWrite_sound h
      have hflat : written.flat = (cache cacheCoins base).flat := flat_of_versions hvers
      have hlen : written.depth = depth := by
        have hcnt := congrArg List.length hvers
        rw [length_versions, length_cons, length_tail, length_versions] at hcnt
        have hbase : base.depth = depth := Nat.succ.inj hd
        omega
      obtain ⟨answers, coins, hrun, hcns⟩ := ih hs hlen
      refine ⟨.done :: .done :: answers, coins, ?_, hcns.trans hflat⟩
      have hops : flushDown (depth + 1) = .flush :: .discard :: flushDown depth := by
        simp [flushDown, replicate_succ]
      rw [hops]
      simp [run, call, flush, hwr, hrun]

/--
**The layers of caches refine a flat map.**  Over any database and for any calls that find a
cache to be made on, no assertion fails, every answer is one the flat map gives, and
flushing all caches afterwards leaves a database that stands for the flat map.
-/
theorem layers_refine_flat (coins : AList fun _ : uint256 => CCoins) (ops : List CoinsCall)
    (hops : callable 0 ops = true) :
    ∃ answers view flat rest, (db coins).run ops = some (answers, view) ∧
      FlatRun [fun txid => ((coins.lookup txid).map CCoins.cleanup).bind CCoins.live] ops answers
        (flat :: rest) ∧
      ∃ answers' coins', view.run (flushDown view.depth) = some (answers', .db coins') ∧
        ∀ txid, ((coins'.lookup txid).map CCoins.cleanup).bind CCoins.live = flat txid := by
  have hdb : (db coins).Sound := ⟨fun _ => trivial, trivial⟩
  obtain ⟨answers, view, hrun, hs, hflat⟩ := run_sound hdb hops
  obtain ⟨answers', coins', hdown, hbase⟩ := flushDown_sound hs
  rw [versions_eq_cons view] at hflat
  exact ⟨answers, view, view.flat, view.versions.tail, hrun, hflat, answers', coins', hdown,
    fun txid => congrFun hbase txid⟩

/-- A database with one coin. -/
def oneCoin : AList fun _ : uint256 => CCoins :=
  AList.singleton 7 { nHeight := 3, vout := [⟨100, [OP_1]⟩] }

/-- The coin is spent in one cache and created again in a cache above it. -/
def recreatedCoin : List CoinsCall :=
  [.push, .modifyCoins 7 fun _ => CCoins.cleared, .push,
    .modifyCoins 7 fun coins => { coins with vout := [⟨5, [OP_1]⟩] }, .flush, .discard,
    .haveCoins 7]

theorem layers_refine_flat_recreated :
    callable 0 recreatedCoin = true ∧
    ∃ answers view flat rest, (db oneCoin).run recreatedCoin = some (answers, view) ∧
      FlatRun [fun txid => ((oneCoin.lookup txid).map CCoins.cleanup).bind CCoins.live]
        recreatedCoin answers (flat :: rest) ∧
      ∃ answers' coins', view.run (flushDown view.depth) = some (answers', .db coins') ∧
        ∀ txid, ((coins'.lookup txid).map CCoins.cleanup).bind CCoins.live = flat txid :=
  ⟨by decide, layers_refine_flat oneCoin recreatedCoin (by decide)⟩

end CCoinsView

end Divi
