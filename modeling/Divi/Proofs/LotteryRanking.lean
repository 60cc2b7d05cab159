/-
What one block does to the list of lottery winners.

The list a block inherits is ranked, and its own coinstake is added at the end.  As long
as the hashes differ, the map of scores has one entry for each coinstake, so the sort
places the new coinstake by its score.  Before uniform winners the lowest one is cut off;
with them the lowest one whose script was met before it, if there is one.  The scripts
are met in the order of the list before the sort, so the new coinstake comes last.
-/
import Divi.Lib.Ranking
import Divi.LotteryWinners

namespace Divi

open RankedScoreAwareCoinstakes List Option Bool

namespace LotteryWinnersCalculator

open Ranking

variable {earlier later : LotteryCoinstakes} {c : LotteryCoinstake}
  (calculator : LotteryWinnersCalculator)

/-- The score of a coinstake under a lottery block, as a number. -/
def scoreOf (lastLotteryBlockHash : uint256) (coinstake : LotteryCoinstake) : Nat :=
  (calculator.calculateLotteryScore coinstake.1 lastLotteryBlockHash).toNat

/-- The entry of a coinstake that comes after the given ones. -/
def entryAfter (lastLotteryBlockHash : uint256) (earlier : LotteryCoinstakes)
    (coinstake : LotteryCoinstake) : RankAwareScore where
  score := calculator.calculateLotteryScore coinstake.1 lastLotteryBlockHash
  rank := earlier.length
  isDuplicateScript := (earlier.map Prod.snd).contains coinstake.2

/-- No hash occurs twice. -/
def DistinctHashes (coinstakes : LotteryCoinstakes) : Prop :=
  (coinstakes.map Prod.fst).Nodup

variable {calculator} {hash : uint256} {coinstakes : LotteryCoinstakes} {x : LotteryCoinstake}

/-! ### The map of scores -/

theorem DistinctHashes.init (h : DistinctHashes (coinstakes ++ [x])) :
    DistinctHashes coinstakes := by
  unfold DistinctHashes at h ⊢
  rw [map_append] at h
  exact (nodup_append.mp h).1

theorem DistinctHashes.notMem (h : DistinctHashes (coinstakes ++ [x])) :
    x.1 ∉ coinstakes.map Prod.fst := by
  unfold DistinctHashes at h
  rw [map_append] at h
  intro hmem
  exact (nodup_append.mp h).2.2 x.1 hmem x.1 mem_cons_self rfl

theorem foldl_rankStep_scripts (calculator : LotteryWinnersCalculator) (hash : uint256)
    (coinstakes : LotteryCoinstakes) :
    (coinstakes.foldl (calculator.rankStep hash) ([], [])).2
      = (coinstakes.map Prod.snd).reverse := by
  induction coinstakes using List.reverseRecOn with
  | nil => rfl
  | append_singleton earlier c ih =>
    rw [foldl_append, map_append, reverse_append]
    simp only [foldl_cons, foldl_nil, rankStep, ih]
    rfl

theorem lookup_eq_none_of_notMem {ranked : RankedScoreAwareCoinstakes} {key : uint256}
    (h : key ∉ ranked.map Prod.fst) : ranked.lookup key = none := by
  rw [lookup_eq_none_iff]
  intro entry he
  have hne : key ≠ entry.1 := by
    intro heq
    exact h (heq ▸ mem_map_of_mem he)
  exact bne_iff_ne.mpr hne

/-- Coinstakes with different hashes are added one by one, each under its own hash. -/
theorem computeRanked_append (h : DistinctHashes (coinstakes ++ [x]))
    (hkeys : (calculator.computeRankedScoreAwareCoinstakes hash coinstakes).map Prod.fst
      = coinstakes.map Prod.fst) :
    calculator.computeRankedScoreAwareCoinstakes hash (coinstakes ++ [x])
      = calculator.computeRankedScoreAwareCoinstakes hash coinstakes
        ++ [(x.1, calculator.entryAfter hash coinstakes x)] := by
  have hlen : (calculator.computeRankedScoreAwareCoinstakes hash coinstakes).length
      = coinstakes.length := by
    have hc := congrArg List.length hkeys
    rwa [length_map, length_map] at hc
  have hn : (calculator.computeRankedScoreAwareCoinstakes hash coinstakes).lookup x.1
      = none := lookup_eq_none_of_notMem (hkeys ▸ h.notMem)
  unfold computeRankedScoreAwareCoinstakes at hn hlen ⊢
  rw [foldl_append]
  simp only [foldl_cons, foldl_nil, rankStep, emplace,
    hn, hlen, foldl_rankStep_scripts, mem_reverse, entryAfter, contains_eq_mem]

section

variable (calculator hash)

theorem computeRanked_keys (h : DistinctHashes coinstakes) :
    (calculator.computeRankedScoreAwareCoinstakes hash coinstakes).map Prod.fst
      = coinstakes.map Prod.fst := by
  induction coinstakes using List.reverseRecOn with
  | nil => rfl
  | append_singleton earlier c ih =>
    have hkeys := ih h.init
    rw [computeRanked_append h hkeys, map_append, map_append, hkeys]
    rfl

theorem computeRanked_length (h : DistinctHashes coinstakes) :
    (calculator.computeRankedScoreAwareCoinstakes hash coinstakes).length = coinstakes.length := by
  have hc := congrArg List.length (computeRanked_keys calculator hash h)
  rwa [length_map, length_map] at hc

/-- The entry of a coinstake depends on the ones before it only. -/
theorem entryOf_computeRanked (h : DistinctHashes (earlier ++ c :: later)) :
    (calculator.computeRankedScoreAwareCoinstakes hash (earlier ++ c :: later)).lookup c.1
      = some (calculator.entryAfter hash earlier c) := by
  induction later using List.reverseRecOn with
  | nil =>
    have hkeys := computeRanked_keys calculator hash h.init
    have hn := lookup_eq_none_of_notMem (hkeys ▸ h.notMem)
    rw [computeRanked_append h hkeys, lookup_append, hn]
    simp only [lookup_cons_self, none_or]
  | append_singleton later d ih =>
    rw [← cons_append, ← append_assoc] at h ⊢
    rw [computeRanked_append h (computeRanked_keys calculator hash h.init), lookup_append,
      ih h.init]
    rfl

end

/-! ### Sorting -/

variable {l : LotteryCoinstakes}

theorem entryOf_score (h : DistinctHashes coinstakes) (hc : c ∈ coinstakes) :
    ((calculator.computeRankedScoreAwareCoinstakes hash coinstakes).entryOf c.1).score
      = calculator.calculateLotteryScore c.1 hash := by
  obtain ⟨earlier, later, rfl⟩ := append_of_mem hc
  simp only [entryOf, entryOf_computeRanked calculator hash h]
  rfl

/-- The sort places the new coinstake in the ranked list. -/
theorem sortCoinstakesByScore_eq (h : DistinctHashes (l ++ [x]))
    (hl : Descending (calculator.scoreOf hash) l) :
    sortCoinstakesByScore (calculator.computeRankedScoreAwareCoinstakes hash (l ++ [x])) (l ++ [x])
      = place (calculator.scoreOf hash) x l := by
  unfold sortCoinstakesByScore
  rw [computeRanked_length calculator hash h]
  by_cases hlen : (l ++ [x]).length > 1
  · rw [if_pos hlen, ← insertionSort_append_singleton hl]
    have hmap := map_insertionSort (fun lhs rhs : LotteryCoinstake =>
        ((calculator.computeRankedScoreAwareCoinstakes hash (l ++ [x])).entryOf rhs.1).score
          ≤ ((calculator.computeRankedScoreAwareCoinstakes hash (l ++ [x])).entryOf lhs.1).score)
      (fun lhs rhs : LotteryCoinstake =>
        calculator.scoreOf hash rhs ≤ calculator.scoreOf hash lhs) id (l ++ [x]) ?_
    · rwa [List.map_id, List.map_id] at hmap
    · intro a ha b hb
      rw [entryOf_score h ha, entryOf_score h hb]
      exact BitVec.le_def
  · have hnil : l = [] := by
      cases l with
      | nil => rfl
      | cons y l =>
        simp only [cons_append, length_cons, length_append, length_nil]
          at hlen
        omega
    rw [if_neg hlen, hnil]
    rfl

/-! ### Repeated scripts -/

/-- A coinstake's script occurs before it in the list. -/
def isRepeat (coinstakes : LotteryCoinstakes) (c : LotteryCoinstake) : Bool :=
  ((coinstakes.takeWhile fun other => other.1 ≠ c.1).map Prod.snd).contains c.2

theorem takeWhile_before (h : DistinctHashes (earlier ++ c :: later)) :
    (earlier ++ c :: later).takeWhile (fun other => other.1 ≠ c.1) = earlier := by
  have hpre : ∀ other ∈ earlier, decide (other.1 ≠ c.1) = true := by
    intro other ho
    have hnd := h
    unfold DistinctHashes at hnd
    rw [map_append, map_cons] at hnd
    have hne := (nodup_append.mp hnd).2.2 other.1 (mem_map_of_mem ho) c.1
      mem_cons_self
    exact decide_eq_true hne
  have hstop : (c :: later).takeWhile (fun other => other.1 ≠ c.1) = [] :=
    takeWhile_cons_of_neg (by simp)
  rw [takeWhile_append_of_pos hpre, hstop, append_nil]

theorem isRepeat_split (h : DistinctHashes (earlier ++ c :: later)) :
    isRepeat (earlier ++ c :: later) c = true ↔ c.2 ∈ earlier.map Prod.snd := by
  unfold isRepeat
  rw [takeWhile_before h, contains_iff_mem]

theorem entryOf_isDuplicateScript (h : DistinctHashes coinstakes) (hc : c ∈ coinstakes) :
    ((calculator.computeRankedScoreAwareCoinstakes hash coinstakes).entryOf
      c.1).isDuplicateScript = isRepeat coinstakes c := by
  obtain ⟨earlier, later, rfl⟩ := append_of_mem hc
  simp only [entryOf, entryOf_computeRanked calculator hash h,
    getD_some, entryAfter, isRepeat, takeWhile_before h]

/-- Only the new coinstake is ranked behind the inherited ones. -/
theorem entryOf_rank (calculator : LotteryWinnersCalculator) (hash : uint256)
    (h : DistinctHashes (l ++ [x])) (hc : c ∈ l ++ [x]) :
    ((calculator.computeRankedScoreAwareCoinstakes hash (l ++ [x])).entryOf c.1).rank ≤ l.length ∧
      (((calculator.computeRankedScoreAwareCoinstakes hash (l ++ [x])).entryOf c.1).rank
        = l.length → c = x) := by
  rcases mem_append.mp hc with hmem | hmem
  · obtain ⟨earlier, later, rfl⟩ := append_of_mem hmem
    have he : (calculator.computeRankedScoreAwareCoinstakes hash
        (earlier ++ c :: later ++ [x])).lookup c.1
          = some (calculator.entryAfter hash earlier c) := by
      rw [append_assoc, cons_append] at h ⊢
      exact entryOf_computeRanked calculator hash h
    have hlen : earlier.length < (earlier ++ c :: later).length := by
      rw [length_append, length_cons]
      omega
    simp only [entryOf, he, getD_some, entryAfter]
    exact ⟨le_of_lt hlen, fun heq => absurd heq (ne_of_lt hlen)⟩
  · have hx : c = x := mem_singleton.mp hmem
    subst hx
    simp only [entryOf, entryOf_computeRanked calculator hash h, getD_some, entryAfter]
    exact ⟨le_refl _, fun _ => trivial⟩

theorem eraseLast_cases (test : LotteryCoinstake → Bool) (coinstakes : LotteryCoinstakes) :
    (eraseLast test coinstakes = none ∧ ∀ c ∈ coinstakes, test c = false) ∨
      ∃ front c back, coinstakes = front ++ c :: back ∧ test c = true ∧
        (∀ y ∈ back, test y = false) ∧ eraseLast test coinstakes = some (front ++ back) := by
  unfold eraseLast
  by_cases hany : coinstakes.reverse.any test = true
  · right
    obtain ⟨c, hc, htest⟩ := any_eq_true.mp hany
    obtain ⟨first, back, front, hback, hfst, hs, he⟩ := exists_of_eraseP hc htest
    refine ⟨front.reverse, first, back.reverse, ?_, hfst, ?_, ?_⟩
    · have hr := congrArg List.reverse hs
      rw [reverse_reverse] at hr
      rw [hr, reverse_append, reverse_cons, append_assoc]
      rfl
    · intro y hy
      exact eq_false_iff.mpr (hback y (mem_reverse.mp hy))
    · rw [if_pos hany, he, reverse_append]
  · left
    refine ⟨if_neg hany, ?_⟩
    intro c hc
    by_contra hne
    exact hany (any_eq_true.mpr ⟨c, mem_reverse.mpr hc, by simpa using hne⟩)

/-! ### One step -/

/-- The list that follows with uniform winners. -/
inductive UniformStep (score : LotteryCoinstake → Nat) (l : LotteryCoinstakes)
    (x : LotteryCoinstake) : LotteryCoinstakes → Prop
  | room (hroom : l.length < 11) : UniformStep score l x (place score x l)
  | repeated {front back : LotteryCoinstakes} {c : LotteryCoinstake} (hfull : l.length = 11)
      (hs : place score x l = front ++ c :: back) (hr : isRepeat (l ++ [x]) c = true)
      (hback : ∀ y ∈ back, isRepeat (l ++ [x]) y = false) :
      UniformStep score l x (front ++ back)
  | lowest (hfull : l.length = 11)
      (hn : ∀ y ∈ place score x l, isRepeat (l ++ [x]) y = false) :
      UniformStep score l x (place score x l).dropLast

/-- The flag `shouldUpdateCoinstakeData` before anything is trimmed. -/
def rankChanged (ranked : RankedScoreAwareCoinstakes) (updatedCoinstakes : LotteryCoinstakes) :
    Bool :=
  if ranked.length > 1 then
    match updatedCoinstakes.getLast? with
    | none => true
    | some worst => (ranked.entryOf worst.1).rank ≠ 11
  else
    ranked.length > 0

theorem topEleven_eq (trimDuplicates : Bool) (ranked : RankedScoreAwareCoinstakes)
    (updatedCoinstakes : LotteryCoinstakes) :
    topElevenBestCoinstakesNeedUpdating trimDuplicates ranked updatedCoinstakes =
      if updatedCoinstakes.length > 11 then
        match (if trimDuplicates then
            eraseLast (fun c => (ranked.entryOf c.1).isDuplicateScript) updatedCoinstakes
          else none) with
        | some coinstakes => (true, coinstakes)
        | none => (rankChanged ranked updatedCoinstakes, updatedCoinstakes.dropLast)
      else (rankChanged ranked updatedCoinstakes, updatedCoinstakes) := rfl

theorem mem_append_of_mem_place {score : LotteryCoinstake → Nat} (hc : c ∈ place score x l) :
    c ∈ l ++ [x] := by
  rw [mem_append, mem_singleton]
  exact (mem_place.mp hc).symm

/-- The list changed unless the new coinstake came in twelfth. -/
theorem rankChanged_cases (calculator : LotteryWinnersCalculator) (hash : uint256)
    (h : DistinctHashes (l ++ [x])) (hs : l.length ≤ 11) :
    rankChanged (calculator.computeRankedScoreAwareCoinstakes hash (l ++ [x]))
        (place (calculator.scoreOf hash) x l) = true ∨
      (l.length = 11 ∧ place (calculator.scoreOf hash) x l = l ++ [x]) := by
  unfold rankChanged
  rw [computeRanked_length calculator hash h]
  by_cases hmany : (l ++ [x]).length > 1
  · rw [if_pos hmany]
    cases hla : (place (calculator.scoreOf hash) x l).getLast? with
    | none => exact .inl rfl
    | some worst =>
      obtain ⟨hle, honly⟩ := entryOf_rank calculator hash h
        (mem_append_of_mem_place (mem_of_getLast? hla))
      by_cases hrank : ((calculator.computeRankedScoreAwareCoinstakes hash
          (l ++ [x])).entryOf worst.1).rank = 11
      · right
        have hfull : l.length = 11 := by omega
        have hx : worst = x := honly (hrank.trans hfull.symm)
        have hn : x ∉ l := fun hin => h.notMem (mem_map_of_mem hin)
        exact ⟨hfull, place_eq_append hn (hx ▸ hla)⟩
      · exact .inl (decide_eq_true hrank)
  · left
    have hpos : (l ++ [x]).length > 0 := by
      rw [length_append, length_singleton]
      omega
    rw [if_neg hmany]
    exact decide_eq_true hpos

/-- The list that follows: what is left of the sorted one if it changed, or the inherited one. -/
def nextList (calculator : LotteryWinnersCalculator) (trimDuplicates : Bool) (hash : uint256)
    (l : LotteryCoinstakes) (x : LotteryCoinstake) : LotteryCoinstakes :=
  let updated := topElevenBestCoinstakesNeedUpdating trimDuplicates
    (calculator.computeRankedScoreAwareCoinstakes hash (l ++ [x]))
    (place (calculator.scoreOf hash) x l)
  if updated.1 then updated.2 else l

section Step

variable (h : DistinctHashes (l ++ [x]))

include h

/-- With the lowest coinstake cut off, the list is kept up to date by the flag. -/
theorem rankChanged_dropLast (calculator : LotteryWinnersCalculator) (hash : uint256)
    (hfull : l.length = 11) :
    (if rankChanged (calculator.computeRankedScoreAwareCoinstakes hash (l ++ [x]))
        (place (calculator.scoreOf hash) x l) then
      (place (calculator.scoreOf hash) x l).dropLast else l)
      = (place (calculator.scoreOf hash) x l).dropLast := by
  rcases rankChanged_cases calculator hash h (by omega)
    with htrue | ⟨-, hla⟩
  · rw [if_pos htrue]
  · rw [hla, dropLast_concat]
    exact ite_self l

theorem nextList_room (hroom : l.length < 11) (trimDuplicates : Bool) :
    calculator.nextList trimDuplicates hash l x = place (calculator.scoreOf hash) x l := by
  have hs : ¬(place (calculator.scoreOf hash) x l).length > 11 := by
    rw [length_place]
    omega
  rw [nextList, topEleven_eq, if_neg hs]
  rcases rankChanged_cases calculator hash h (by omega) with htrue | ⟨hfull, -⟩
  · exact if_pos htrue
  · omega

/-- Before uniform winners the best eleven are kept. -/
theorem nextList_plain (hs : l.length ≤ 11) :
    calculator.nextList false hash l x = (place (calculator.scoreOf hash) x l).take 11 := by
  have hlen := length_place (calculator.scoreOf hash) x l
  by_cases hlong : (place (calculator.scoreOf hash) x l).length > 11
  · rw [nextList, topEleven_eq, if_pos hlong]
    refine (rankChanged_dropLast h calculator hash (by omega)).trans ?_
    rw [dropLast_eq_take]
    congr 1
    omega
  · rw [nextList_room h (by omega), take_of_length_le (by omega)]

/-- With uniform winners a repeated script goes first. -/
theorem nextList_uniform (hsh : l.length ≤ 11) :
    UniformStep (calculator.scoreOf hash) l x (calculator.nextList true hash l x) := by
  have hlen := length_place (calculator.scoreOf hash) x l
  have hf : ∀ c ∈ place (calculator.scoreOf hash) x l,
      ((calculator.computeRankedScoreAwareCoinstakes hash (l ++ [x])).entryOf
        c.1).isDuplicateScript = isRepeat (l ++ [x]) c :=
    fun c hc => entryOf_isDuplicateScript h (mem_append_of_mem_place hc)
  by_cases hlong : (place (calculator.scoreOf hash) x l).length > 11
  · have hfull : l.length = 11 := by omega
    rw [nextList, topEleven_eq, if_pos hlong, if_pos rfl]
    rcases eraseLast_cases (fun c => ((calculator.computeRankedScoreAwareCoinstakes hash
        (l ++ [x])).entryOf c.1).isDuplicateScript) (place (calculator.scoreOf hash) x l)
      with ⟨hn, hall⟩ | ⟨front, c, back, hs, hdup, hback, hsome⟩
    · rw [hn]
      rw [rankChanged_dropLast h calculator hash hfull]
      refine UniformStep.lowest hfull ?_
      intro y hy
      rw [← hf y hy]
      exact hall y hy
    · rw [hsome]
      refine UniformStep.repeated hfull hs ?_ ?_
      · rw [← hf c (hs ▸ mem_append_right front mem_cons_self)]
        exact hdup
      · intro y hy
        have hmem : y ∈ place (calculator.scoreOf hash) x l :=
          hs ▸ mem_append_right front (mem_cons_of_mem c hy)
        rw [← hf y hmem]
        exact hback y hy
  · rw [nextList_room h (by omega)]
    exact UniformStep.room (by omega)

end Step

/-! ### Updating the list -/

theorem topEleven_subset (trimDuplicates : Bool) (ranked : RankedScoreAwareCoinstakes)
    (updatedCoinstakes : LotteryCoinstakes)
    (hc : c ∈ (topElevenBestCoinstakesNeedUpdating trimDuplicates ranked updatedCoinstakes).2) :
    c ∈ updatedCoinstakes := by
  rw [topEleven_eq] at hc
  by_cases hlong : updatedCoinstakes.length > 11
  · rw [if_pos hlong] at hc
    cases trimDuplicates with
    | false => exact mem_of_mem_dropLast hc
    | true =>
      rcases eraseLast_cases (fun c => (ranked.entryOf c.1).isDuplicateScript) updatedCoinstakes
        with ⟨hn, -⟩ | ⟨front, d, back, hs, -, -, hsome⟩
      · rw [hn] at hc
        exact mem_of_mem_dropLast hc
      · rw [hsome] at hc
        rw [hs]
        rcases mem_append.mp hc with hf | hback
        · exact mem_append_left _ hf
        · exact mem_append_right _ (mem_cons_of_mem d hback)
  · rwa [if_neg hlong] at hc

section Update

variable {nHeight : Int} {lastLottery : CBlockIndex} {older : BlockPointer}
  (hla : calculator.getLastLotteryBlockIndexBeforeHeight nHeight = lastLottery :: older)

include hla

/-- The own script of a block is that of the coinstake added last. -/
theorem updateCoinstakes_append (l : LotteryCoinstakes) (x : LotteryCoinstake) :
    calculator.updateCoinstakes nHeight (l ++ [x]) =
      if Fork.UniformLotteryWinners.isActive lastLottery &&
        calculator.isPaymentScriptVetoed x.2 nHeight then some none
      else
        let ranked := calculator.computeRankedScoreAwareCoinstakes lastLottery.phashBlock
          (l ++ [x])
        let updated := topElevenBestCoinstakesNeedUpdating
          (Fork.UniformLotteryWinners.isActive lastLottery) ranked
          (sortCoinstakesByScore ranked (l ++ [x]))
        some (if updated.1 then some updated.2 else none) := by
  simp only [updateCoinstakes, hla, List.getLast?_concat, map_some, getD_some]

theorem updateCoinstakes_nextList (hveto : (Fork.UniformLotteryWinners.isActive lastLottery &&
      calculator.isPaymentScriptVetoed x.2 nHeight) = false) (h : DistinctHashes (l ++ [x]))
    (hl : Descending (calculator.scoreOf lastLottery.phashBlock) l) :
    ∃ r, calculator.updateCoinstakes nHeight (l ++ [x]) = some r ∧
      r.getD l = calculator.nextList (Fork.UniformLotteryWinners.isActive lastLottery)
        lastLottery.phashBlock l x := by
  rw [updateCoinstakes_append hla, hveto]
  refine ⟨_, if_neg Bool.false_ne_true, ?_⟩
  rw [sortCoinstakesByScore_eq h hl, nextList]
  split
  · rfl
  · rfl

variable (hfork : Fork.UniformLotteryWinners.isActive lastLottery = true)

include hfork

theorem updateCoinstakes_vetoed (hveto : calculator.isPaymentScriptVetoed x.2 nHeight = true) :
    calculator.updateCoinstakes nHeight (l ++ [x]) = some none := by
  rw [updateCoinstakes_append hla, hfork, hveto]
  rfl

theorem updateCoinstakes_uniform (hveto : calculator.isPaymentScriptVetoed x.2 nHeight = false)
    (h : DistinctHashes (l ++ [x])) (hs : l.length ≤ 11)
    (hl : Descending (calculator.scoreOf lastLottery.phashBlock) l) :
    ∃ r, calculator.updateCoinstakes nHeight (l ++ [x]) = some r ∧
      UniformStep (calculator.scoreOf lastLottery.phashBlock) l x (r.getD l) := by
  obtain ⟨r, hupd, hnext⟩ := updateCoinstakes_nextList hla (by rw [hveto, Bool.and_false]) h hl
  rw [hfork] at hnext
  exact ⟨r, hupd, hnext ▸ nextList_uniform h hs⟩

/-- Whatever the hashes, the update only drops coinstakes, and never adds a vetoed one. -/
theorem updateCoinstakes_subset {r : Option LotteryCoinstakes}
    (hupd : calculator.updateCoinstakes nHeight (l ++ [x]) = some r) (hc : c ∈ r.getD l) :
    c ∈ l ∨ (c = x ∧ calculator.isPaymentScriptVetoed x.2 nHeight = false) := by
  cases hveto : calculator.isPaymentScriptVetoed x.2 nHeight with
  | true =>
    rw [updateCoinstakes_vetoed hla hfork hveto] at hupd
    cases hupd
    exact .inl hc
  | false =>
    rw [updateCoinstakes_append hla, hveto, Bool.and_false, if_neg Bool.false_ne_true] at hupd
    rw [← Option.some.inj hupd] at hc
    split at hc
    · have hmem : c ∈ l ++ [x] := by
        have hsort := topEleven_subset _ _ _ hc
        unfold sortCoinstakesByScore at hsort
        split at hsort
        · exact (mem_insertionSort _).mp hsort
        · exact hsort
      rcases mem_append.mp hmem with hl | hx
      · exact .inl hl
      · exact .inr ⟨mem_singleton.mp hx, rfl⟩
    · exact .inl hc

end Update

end LotteryWinnersCalculator

end Divi
