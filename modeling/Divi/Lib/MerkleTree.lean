/-
Trees of hashes over a list of leaves.

Each level combines the nodes of the one below two by two, and a last node that is alone with
itself.  The branch of a leaf has its sibling on every level, so that the root can be computed
from the leaf, its branch and its position: `walk_branch`.

A lone last node is hashed like a pair of equal ones, so that lists of different lengths can have
one root.  If no level ends in such a pair, the root determines the leaves: `root_injective`.
-/
import Mathlib.Data.List.Basic
import Mathlib.Data.Nat.Bitwise

namespace MerkleTree

open List

variable {α : Type*} (combine : α → α → α)

/-- The level above some nodes. -/
def nextLevel : List α → List α
  | [] => []
  | [a] => [combine a a]
  | a :: b :: rest => combine a b :: nextLevel rest

/-- The node above all others; the fuel bounds the number of levels. -/
def root : Nat → List α → Option α
  | 0, level => level.head?
  | fuel + 1, level => if level.length ≤ 1 then level.head? else root fuel (nextLevel combine level)

/-- The siblings on the way up from a position, the last node being its own one. -/
def branch [Inhabited α] : Nat → List α → Nat → List α
  | 0, _, _ => []
  | fuel + 1, level, i =>
    if level.length ≤ 1 then []
    else level.getD (min (i ^^^ 1) (level.length - 1)) default ::
      branch fuel (nextLevel combine level) (i / 2)

/-- The way up: the position tells on which side the sibling is. -/
def walk (node : α) : List α → Nat → α
  | [], _ => node
  | sibling :: rest, i =>
    if i % 2 = 1 then walk (combine sibling node) rest (i / 2)
    else walk (combine node sibling) rest (i / 2)

/-- All levels one after the other, from the leaves to the root. -/
def nodes : Nat → List α → List α
  | 0, level => level
  | fuel + 1, level =>
    if level.length ≤ 1 then level else level ++ nodes fuel (nextLevel combine level)

/-- The last two nodes are a pair and equal. -/
def endsInTwins [DecidableEq α] : List α → Bool
  | a :: b :: rest => decide (rest = [] ∧ a = b) || endsInTwins rest
  | _ => false

/-- Some level below the root ends in twins. -/
def mutated [DecidableEq α] : Nat → List α → Bool
  | 0, _ => false
  | fuel + 1, level =>
    if level.length ≤ 1 then false
    else endsInTwins level || mutated fuel (nextLevel combine level)

theorem length_nextLevel (level : List α) :
    (nextLevel combine level).length = (level.length + 1) / 2 := by
  induction level using nextLevel.induct with
  | case1 => simp [nextLevel]
  | case2 a => simp [nextLevel]
  | case3 a b rest ih =>
    simp only [nextLevel, length_cons, ih]
    omega

theorem getD_nextLevel (d : α) (level : List α) {k : Nat} (hk : 2 * k < level.length) :
    (nextLevel combine level).getD k d =
      combine (level.getD (2 * k) d) (level.getD (min (2 * k + 1) (level.length - 1)) d) := by
  induction level using nextLevel.induct generalizing k with
  | case1 => simp at hk
  | case2 a =>
    obtain rfl : k = 0 := by
      simp only [length_singleton] at hk
      omega
    rfl
  | case3 a b rest ih =>
    cases k with
    | zero => rfl
    | succ k =>
      simp only [length_cons] at hk ⊢
      have hmin : min (2 * (k + 1) + 1) (rest.length + 1 + 1 - 1) =
          min (2 * k + 1) (rest.length - 1) + 1 + 1 := by omega
      rw [hmin, nextLevel, getD_cons_succ, ih (by omega)]
      rfl

theorem xor_one (i : Nat) : i ^^^ 1 = if i % 2 = 1 then i - 1 else i + 1 := by
  split
  next hodd => exact Nat.xor_one_of_odd (Nat.odd_iff.mpr hodd)
  next heven => exact Nat.xor_one_of_even (Nat.not_odd_iff_even.mp (mt Nat.odd_iff.mp heven))

theorem getD_nextLevel_half [Inhabited α] (level : List α) {i : Nat} (hi : i < level.length) :
    (nextLevel combine level).getD (i / 2) default =
      if i % 2 = 1 then
        combine (level.getD (min (i ^^^ 1) (level.length - 1)) default) (level.getD i default)
      else
        combine (level.getD i default) (level.getD (min (i ^^^ 1) (level.length - 1)) default) := by
  rw [getD_nextLevel combine default level (by omega), xor_one]
  split
  next hodd =>
    have hleft : min (i - 1) (level.length - 1) = 2 * (i / 2) := by omega
    have hr : min (2 * (i / 2) + 1) (level.length - 1) = i := by omega
    rw [hleft, hr]
  next heven =>
    have hself : 2 * (i / 2) = i := by omega
    rw [hself]

theorem head_of_length_le_one [Inhabited α] {level : List α} {i : Nat} (hi : i < level.length)
    (hle : level.length ≤ 1) : level.head? = some (level.getD i default) := by
  obtain ⟨a, rfl⟩ : ∃ a, level = [a] := length_eq_one_iff.mp (by omega)
  obtain rfl : i = 0 := by
    omega
  rfl

/-- **The root from a leaf**, with enough fuel for all levels. -/
theorem walk_branch [Inhabited α] {fuel : Nat} {level : List α} (hfuel : level.length ≤ fuel + 1)
    {i : Nat} (hi : i < level.length) :
    root combine fuel level =
      some (walk combine (level.getD i default) (branch combine fuel level i) i) := by
  induction fuel generalizing level i with
  | zero => exact head_of_length_le_one hi hfuel
  | succ fuel ih =>
    by_cases hle : level.length ≤ 1
    · simp only [root, branch, if_pos hle, head_of_length_le_one hi hle, walk]
    · have hlen := length_nextLevel combine level
      have hhalf : i / 2 < (nextLevel combine level).length := by omega
      simp only [root, branch, if_neg hle]
      rw [ih (by omega) hhalf, getD_nextLevel_half combine level hi, walk]
      split
      next => rfl
      next => rfl

theorem isPrefix_nodes (fuel : Nat) (level : List α) : level <+: nodes combine fuel level := by
  cases fuel with
  | zero => exact prefix_rfl
  | succ fuel =>
    unfold nodes
    split
    next => exact prefix_rfl
    next => exact prefix_append _ _

theorem getLast_nodes {fuel : Nat} {level : List α} (hfuel : level.length ≤ fuel + 1) :
    (nodes combine fuel level).getLast? = root combine fuel level := by
  have hs (level : List α) (h : level.length ≤ 1) : level.getLast? = level.head? := by
    match level, h with
    | [], _ => rfl
    | [a], _ => rfl
  induction fuel generalizing level with
  | zero => exact hs level hfuel
  | succ fuel ih =>
    unfold nodes root
    split
    next hle => exact hs level hle
    next hle =>
      have hlen := length_nextLevel combine level
      have hne : nodes combine fuel (nextLevel combine level) ≠ [] := by
        intro hnil
        have hpre := (isPrefix_nodes combine fuel (nextLevel combine level)).length_le
        simp only [hnil, length_nil] at hpre
        omega
      rw [List.getLast?_append_of_ne_nil _ hne, ih (by omega)]

/-! ### Equal roots -/

section Injective

variable [DecidableEq α] (S : Set α)

/-- The root is `a` after some levels of nodes in `S`, none of which ends in twins. -/
def Climbs (a : α) : Nat → List α → Prop
  | 0, level => level = [a]
  | n + 1, level => level ≠ [] ∧ (∀ x ∈ level, x ∈ S) ∧ endsInTwins level = false ∧
      Climbs a n (nextLevel combine level)

variable {combine S}

theorem climbs_of_root {fuel : Nat} {level : List α} {a : α} (hfuel : level.length ≤ fuel + 1)
    (hno : ∀ x ∈ nodes combine fuel level, x ∈ S)
    (h : mutated combine fuel level = false) (hroot : root combine fuel level = some a) :
    ∃ n, Climbs combine S a n level := by
  have hs (level : List α) (hle : level.length ≤ 1) (ha : level.head? = some a) :
      Climbs combine S a 0 level := by
    match level, hle, ha with
    | [_], _, rfl => rfl
  induction fuel generalizing level with
  | zero => exact ⟨0, hs level hfuel hroot⟩
  | succ fuel ih =>
    unfold root at hroot
    unfold mutated at h
    unfold nodes at hno
    split at hroot
    next hle => exact ⟨0, hs level hle hroot⟩
    next hle =>
      rw [if_neg hle, Bool.or_eq_false_iff] at h
      rw [if_neg hle, forall_mem_append] at hno
      have hlen := length_nextLevel combine level
      obtain ⟨n, hn⟩ := ih (by omega) hno.2 h.2 hroot
      exact ⟨n + 1, by rintro rfl; simp at hle, hno.1, h.1, hn⟩

variable (hinj : ∀ a ∈ S, ∀ b ∈ S, ∀ c ∈ S, ∀ d ∈ S, combine a b = combine c d → a = c ∧ b = d)
include hinj

theorem endsInTwins_of_alone {a c d : α} {rest : List α} (hS : ∀ x ∈ [a], x ∈ S)
    (hS' : ∀ x ∈ c :: d :: rest, x ∈ S)
    (h : nextLevel combine [a] = nextLevel combine (c :: d :: rest)) :
    endsInTwins (c :: d :: rest) = true := by
  obtain ⟨hhead, htail⟩ := List.cons.inj h
  have hlen := length_nextLevel combine rest
  rw [← htail, length_nil] at hlen
  obtain rfl : rest = [] := length_eq_zero_iff.mp (by omega)
  obtain ⟨rfl, rfl⟩ : a = c ∧ a = d := by grind
  simp [endsInTwins]

/-- One level determines the one below. -/
theorem nextLevel_injective {level other : List α} (hS : ∀ x ∈ level, x ∈ S)
    (hS' : ∀ x ∈ other, x ∈ S) (hl : endsInTwins level = false) (ho : endsInTwins other = false)
    (h : nextLevel combine level = nextLevel combine other) : level = other := by
  induction level using nextLevel.induct generalizing other with
  | case1 =>
    match other with
    | [] => rfl
    | [_] | _ :: _ :: _ => cases h
  | case2 a =>
    match other with
    | [] => cases h
    | [c] => grind [nextLevel]
    | c :: d :: rest => simp [endsInTwins_of_alone hinj hS hS' h] at ho
  | case3 a b rest ih =>
    match other with
    | [] => cases h
    | [c] => simp [endsInTwins_of_alone hinj hS' hS h.symm] at hl
    | c :: d :: rest' =>
      obtain ⟨hhead, htail⟩ := List.cons.inj h
      rw [endsInTwins, Bool.or_eq_false_iff] at hl ho
      simp only [forall_mem_cons] at hS hS'
      obtain ⟨rfl, rfl⟩ := hinj a hS.1 b hS.2.1 c hS'.1 d hS'.2.1 hhead
      rw [ih hS.2.2 hS'.2.2 hl.2 ho.2 htail]

/-- The same number of levels, none of which ends in twins, and the same root. -/
theorem eq_of_climbs {n : Nat} {level other : List α} {a : α} (hl : Climbs combine S a n level)
    (ho : Climbs combine S a n other) : level = other := by
  induction n generalizing level other with
  | zero => exact hl.trans ho.symm
  | succ n ih =>
    obtain ⟨-, hS, ht, hnext⟩ := hl
    obtain ⟨-, hS', ht', hnext'⟩ := ho
    exact nextLevel_injective hinj hS hS' ht ht' (ih hnext hnext')

/-- A list that has fewer levels is a level of the other one, so a list of combined nodes. -/
theorem exists_combine_mem {n k : Nat} {level other : List α} {a : α}
    (hl : Climbs combine S a n level) (ho : Climbs combine S a (n + (k + 1)) other) :
    ∃ x ∈ S, ∃ y ∈ S, combine x y ∈ level := by
  induction k generalizing other with
  | zero =>
    obtain ⟨hne, hS, -, hnext⟩ := ho
    obtain rfl := eq_of_climbs hinj hl hnext
    match other with
    | [x] => exact ⟨x, hS x (by simp), x, hS x (by simp), by simp [nextLevel]⟩
    | x :: y :: rest => exact ⟨x, hS x (by simp), y, hS y (by simp), by simp [nextLevel]⟩
  | succ k ih => exact ih ho.2.2.2

/-- **The root determines the leaves** if no level ends in twins and no leaf is a combined node. -/
theorem root_injective {fuel fuel' : Nat} {level other : List α} {a : α}
    (hfuel : level.length ≤ fuel + 1) (hfuel' : other.length ≤ fuel' + 1)
    (hno : ∀ x ∈ nodes combine fuel level, x ∈ S)
    (hno' : ∀ x ∈ nodes combine fuel' other, x ∈ S)
    (hleaf : ∀ x ∈ S, ∀ y ∈ S, combine x y ∉ level ∧ combine x y ∉ other)
    (hl : mutated combine fuel level = false) (ho : mutated combine fuel' other = false)
    (hroot : root combine fuel level = some a) (hroot' : root combine fuel' other = some a) :
    level = other := by
  obtain ⟨n, hn⟩ := climbs_of_root hfuel hno hl hroot
  obtain ⟨n', hn'⟩ := climbs_of_root hfuel' hno' ho hroot'
  obtain hlt | rfl | hlt := lt_trichotomy n n'
  · obtain ⟨k, rfl⟩ := Nat.exists_eq_add_of_lt hlt
    obtain ⟨x, hx, y, hy, hmem⟩ := exists_combine_mem hinj hn hn'
    exact ((hleaf x hx y hy).1 hmem).elim
  · exact eq_of_climbs hinj hn hn'
  · obtain ⟨k, rfl⟩ := Nat.exists_eq_add_of_lt hlt
    obtain ⟨x, hx, y, hy, hmem⟩ := exists_combine_mem hinj hn' hn
    exact ((hleaf x hx y hy).2 hmem).elim

end Injective

end MerkleTree
