/-
Trees given by parents.

Every node but the root has a parent, and heights count the steps to the root.  The line of
a node is the list of the nodes from it down to the root.  Two lines meet in a node below
which they agree; the nodes of one line above that are climbed one parent after another.
-/
import Mathlib.Order.Basic
import Mathlib.Tactic.Common

/-- A rooted tree, by parents. -/
structure ParentTree (α : Type*) where
  root : α
  parent : α → Option α
  height : α → Nat
  parent_root : parent root = none
  eq_root : ∀ {a}, parent a = none → a = root
  height_root : height root = 0
  height_child : ∀ {a p}, parent a = some p → height a = height p + 1

namespace ParentTree

open List

variable {α : Type*} (tree : ParentTree α)

/-- At most `steps` parents of a node, below it. -/
def lineFrom : Nat → α → List α
  | 0, a => [a]
  | steps + 1, a =>
    match tree.parent a with
    | none => [a]
    | some p => a :: lineFrom steps p

/-- A node and all below it, down to the root. -/
def line (a : α) : List α :=
  tree.lineFrom (tree.height a) a

/-- The node some steps below, null below the root. -/
def stepsDown : Nat → α → Option α
  | 0, a => some a
  | steps + 1, a =>
    match tree.parent a with
    | none => none
    | some p => stepsDown steps p

/-- The node of a height on the line, null above its top. -/
def ancestor (a : α) (height : Nat) : Option α :=
  if height > tree.height a then none else tree.stepsDown (tree.height a - height) a

variable {tree} {a p b fork : α} {path : List α}

theorem exists_parent (h : a ≠ tree.root) : ∃ p, tree.parent a = some p := by
  cases hpar : tree.parent a with
  | none => exact absurd (tree.eq_root hpar) h
  | some p => exact ⟨p, rfl⟩

@[simp] theorem line_root : tree.line tree.root = [tree.root] := by
  simp [line, tree.height_root, lineFrom]

theorem line_child (h : tree.parent a = some p) : tree.line a = a :: tree.line p := by
  simp only [line, tree.height_child h, lineFrom, h]

/-- From the root upwards. -/
theorem climb {P : α → Prop} (root : P tree.root)
    (child : ∀ a p, tree.parent a = some p → P p → P a) (a : α) : P a := by
  induction a using (measure tree.height).wf.induction with
  | _ a ih =>
    cases hpar : tree.parent a with
    | none => exact tree.eq_root hpar ▸ root
    | some p =>
      refine child a p hpar (ih p ?_)
      show tree.height p < tree.height a
      rw [tree.height_child hpar]
      exact Nat.lt_succ_self _

theorem self_mem_line (a : α) : a ∈ tree.line a := by
  cases hpar : tree.parent a with
  | none =>
    rw [tree.eq_root hpar, line_root]
    exact mem_cons_self
  | some p =>
    rw [line_child hpar]
    exact mem_cons_self

theorem mem_line_child (h : tree.parent a = some p) :
    b ∈ tree.line a ↔ b = a ∨ b ∈ tree.line p := by
  rw [line_child h, mem_cons]

theorem parent_mem_line (h : tree.parent a = some p) (hb : b ∈ tree.line p) : b ∈ tree.line a :=
  (mem_line_child h).mpr (.inr hb)

theorem root_mem_line (a : α) : tree.root ∈ tree.line a := by
  induction a using climb with
  | root => exact self_mem_line _
  | child a p hpar ih => exact parent_mem_line hpar ih

/-- What passes from every node to its parent holds all along a line. -/
theorem of_mem_line {P : α → Prop} (hP : ∀ a p, P a → tree.parent a = some p → P p) (ha : P a)
    (hb : b ∈ tree.line a) : P b := by
  induction a using climb with
  | root =>
    rw [line_root, mem_singleton] at hb
    rw [hb]
    exact ha
  | child a p hpar ih =>
    rcases (mem_line_child hpar).mp hb with rfl | hlt
    · exact ha
    · exact ih (hP a p ha hpar) hlt

theorem line_trans {c : α} (hb : b ∈ tree.line a) (hc : c ∈ tree.line b) : c ∈ tree.line a := by
  refine of_mem_line (P := fun b => ∀ c ∈ tree.line b, c ∈ tree.line a) ?_ (fun c hc => hc) hb c hc
  exact fun b p hb hpar c hc => hb c (parent_mem_line hpar hc)

/-- A weight that grows from parent to child is smaller at every other node of a line. -/
theorem eq_or_lt_of_mem_line {weight : α → Nat}
    (hwt : ∀ a p, tree.parent a = some p → weight p < weight a) (h : b ∈ tree.line a) :
    b = a ∨ weight b < weight a := by
  refine of_mem_line (P := fun b => b = a ∨ weight b < weight a) ?_ (.inl rfl) h
  rintro b p (rfl | hlt) hpar
  · exact .inr (hwt b p hpar)
  · exact .inr (Nat.lt_trans (hwt b p hpar) hlt)

theorem height_lt_of_mem_line (h : b ∈ tree.line a) : b = a ∨ tree.height b < tree.height a := by
  refine eq_or_lt_of_mem_line ?_ h
  intro a p hpar
  rw [tree.height_child hpar]
  exact Nat.lt_succ_self _

theorem height_le_of_mem_line (h : b ∈ tree.line a) : tree.height b ≤ tree.height a := by
  rcases height_lt_of_mem_line h with rfl | hlt
  · exact Nat.le_refl _
  · exact Nat.le_of_lt hlt

theorem line_antisymm (hb : b ∈ tree.line a) (ha : a ∈ tree.line b) : a = b := by
  have hle := height_le_of_mem_line ha
  rcases height_lt_of_mem_line hb with rfl | hlt
  · rfl
  · omega

theorem mem_line_total {c : α} (hb : b ∈ tree.line a) (hc : c ∈ tree.line a) :
    b ∈ tree.line c ∨ c ∈ tree.line b := by
  induction a using climb with
  | root =>
    rw [line_root, mem_singleton] at hb hc
    rw [hb, hc]
    exact .inl (self_mem_line _)
  | child a p hpar ih =>
    rcases (mem_line_child hpar).mp hb with rfl | hb'
    · exact .inr hc
    · rcases (mem_line_child hpar).mp hc with rfl | hc'
      · exact .inl hb
      · exact ih hb' hc'

/-- A node on the line of `a` other than `a` is on the line of its parent. -/
theorem mem_line_parent (hpar : tree.parent a = some p) (hb : b ∈ tree.line a) (hne : b ≠ a) :
    b ∈ tree.line p := by
  rcases (mem_line_child hpar).mp hb with heq | hlt
  · exact absurd heq hne
  · exact hlt

theorem self_notMem_line_parent (hpar : tree.parent a = some p) : a ∉ tree.line p := by
  intro hmem
  have hle := height_le_of_mem_line hmem
  rw [tree.height_child hpar] at hle
  omega

/-! ### Ancestors by height -/

theorem stepsDown_spec {steps : Nat} (h : tree.stepsDown steps a = some b) :
    b ∈ tree.line a ∧ tree.height b + steps = tree.height a := by
  induction steps generalizing a with
  | zero =>
    obtain rfl : a = b := Option.some.inj h
    exact ⟨self_mem_line a, rfl⟩
  | succ steps ih =>
    unfold stepsDown at h
    cases hpar : tree.parent a with
    | none =>
      rw [hpar] at h
      cases h
    | some p =>
      rw [hpar] at h
      obtain ⟨hmem, hht⟩ := ih h
      refine ⟨parent_mem_line hpar hmem, ?_⟩
      rw [tree.height_child hpar]
      omega

theorem stepsDown_of_mem (h : b ∈ tree.line a) :
    tree.stepsDown (tree.height a - tree.height b) a = some b := by
  induction a using climb with
  | root =>
    rw [line_root, mem_singleton] at h
    rw [h, Nat.sub_self]
    rfl
  | child a p hpar ih =>
    rcases (mem_line_child hpar).mp h with rfl | hlt
    · rw [Nat.sub_self]
      rfl
    · have hle := height_le_of_mem_line hlt
      have hht := tree.height_child hpar
      have hs : tree.height a - tree.height b = (tree.height p - tree.height b) + 1 := by omega
      rw [hs]
      simp only [stepsDown, hpar]
      exact ih hlt

theorem ancestor_eq_some_iff {height : Nat} :
    tree.ancestor a height = some b ↔ b ∈ tree.line a ∧ tree.height b = height := by
  unfold ancestor
  constructor
  · intro h
    split at h
    · cases h
    · obtain ⟨hmem, hht⟩ := stepsDown_spec h
      exact ⟨hmem, by omega⟩
  · rintro ⟨hmem, rfl⟩
    have hle := height_le_of_mem_line hmem
    rw [if_neg (by omega)]
    exact stepsDown_of_mem hmem

theorem eq_of_mem_line_of_height {c : α} (hb : b ∈ tree.line a) (hc : c ∈ tree.line a)
    (h : tree.height b = tree.height c) : b = c := by
  have hanc := ancestor_eq_some_iff.mpr ⟨hb, h⟩
  rw [ancestor_eq_some_iff.mpr ⟨hc, rfl⟩] at hanc
  exact (Option.some.inj hanc).symm

theorem exists_ancestor {height : Nat} (h : height ≤ tree.height a) :
    ∃ b, tree.ancestor a height = some b := by
  induction a using climb with
  | root =>
    rw [tree.height_root, Nat.le_zero] at h
    exact ⟨tree.root, ancestor_eq_some_iff.mpr ⟨self_mem_line _, by rw [h, tree.height_root]⟩⟩
  | child a p hpar ih =>
    by_cases htop : height = tree.height a
    · exact ⟨a, ancestor_eq_some_iff.mpr ⟨self_mem_line a, htop.symm⟩⟩
    · have hht := tree.height_child hpar
      obtain ⟨b, hb⟩ := ih (by omega)
      obtain ⟨hmem, heq⟩ := ancestor_eq_some_iff.mp hb
      exact ⟨b, ancestor_eq_some_iff.mpr ⟨parent_mem_line hpar hmem, heq⟩⟩

/-! ### Climbing -/

/-- Every node of the list is the child of the one before it, the first one of `a`. -/
def Climbs (tree : ParentTree α) : α → List α → Prop
  | _, [] => True
  | a, b :: rest => tree.parent b = some a ∧ Climbs tree b rest

theorem Climbs.append {rest : List α} (h : tree.Climbs a (path ++ rest)) :
    tree.Climbs a path ∧ tree.Climbs (path.getLastD a) rest := by
  induction path generalizing a with
  | nil => exact ⟨trivial, h⟩
  | cons b path ih =>
    obtain ⟨hpath, hr⟩ := ih h.2
    refine ⟨⟨h.1, hpath⟩, ?_⟩
    rw [getLastD_cons]
    exact hr

theorem Climbs.concat (h : tree.Climbs a path) (hb : tree.parent b = some (path.getLastD a)) :
    tree.Climbs a (path ++ [b]) := by
  induction path generalizing a with
  | nil => exact ⟨hb, trivial⟩
  | cons c path ih =>
    rw [getLastD_cons] at hb
    exact ⟨h.1, ih h.2 hb⟩

theorem Climbs.line_last (h : tree.Climbs a path) :
    tree.line (path.getLastD a) = path.reverse ++ tree.line a := by
  induction path generalizing a with
  | nil => rfl
  | cons b path ih =>
    rw [getLastD_cons, ih h.2, line_child h.1]
    simp

theorem getLastD_append (path rest : List α) (a : α) :
    (path ++ rest).getLastD a = rest.getLastD (path.getLastD a) := by
  simp [getLastD_eq_getLast?, List.getLast?_append]

/-- Where the line of `a` meets that of `b`, and what is above on it. -/
structure Meets (tree : ParentTree α) (a b fork : α) (path : List α) : Prop where
  climbs : tree.Climbs fork path
  last : path.getLastD fork = a
  mem : fork ∈ tree.line b
  off : ∀ c ∈ path, c ∉ tree.line b

theorem exists_meets (tree : ParentTree α) (a b : α) : ∃ fork path, tree.Meets a b fork path := by
  induction a using tree.climb with
  | root => exact ⟨tree.root, [], trivial, rfl, root_mem_line b, nofun⟩
  | child a p hpar ih =>
    by_cases ha : a ∈ tree.line b
    · exact ⟨a, [], trivial, rfl, ha, nofun⟩
    · obtain ⟨fork, path, hcl, hl, hmem, hoff⟩ := ih
      refine ⟨fork, path ++ [a], hcl.concat (hl ▸ hpar), getLastD_concat .., hmem,
        ?_⟩
      intro c hc
      rcases mem_append.mp hc with hpath | hnew
      · exact hoff c hpath
      · rw [mem_singleton.mp hnew]
        exact ha

theorem Meets.line (h : tree.Meets a b fork path) :
    tree.line a = path.reverse ++ tree.line fork := by
  rw [← h.last]
  exact h.climbs.line_last

/-- What is on both lines is on the line of the node where they meet. -/
theorem Meets.mem_fork {c : α} (h : tree.Meets a b fork path) (ha : c ∈ tree.line a)
    (hb : c ∈ tree.line b) : c ∈ tree.line fork := by
  rw [h.line] at ha
  rcases mem_append.mp ha with hpath | hfork
  · exact absurd hb (h.off c (mem_reverse.mp hpath))
  · exact hfork

theorem Meets.fork_mem (h : tree.Meets a b fork path) : fork ∈ tree.line a := by
  rw [h.line]
  exact mem_append_right _ (self_mem_line fork)

theorem exists_climbs (h : b ∈ tree.line a) : ∃ path, tree.Climbs b path ∧ path.getLastD b = a := by
  obtain ⟨fork, path, hm⟩ := exists_meets tree a b
  obtain rfl : fork = b := line_antisymm (hm.mem_fork h (self_mem_line b)) hm.mem
  exact ⟨path, hm.climbs, hm.last⟩

theorem line_eq_cons (tree : ParentTree α) (a : α) : ∃ below, tree.line a = a :: below := by
  cases hpar : tree.parent a with
  | none => exact ⟨[], by rw [tree.eq_root hpar]; exact line_root⟩
  | some p => exact ⟨_, line_child hpar⟩

theorem line_pairwise (tree : ParentTree α) (a : α) :
    (tree.line a).Pairwise fun b c => c ∈ tree.line b := by
  induction a using tree.climb with
  | root =>
    rw [line_root]
    exact pairwise_singleton _ _
  | child a p hpar ih =>
    rw [line_child hpar, pairwise_cons]
    exact ⟨fun c hc => parent_mem_line hpar hc, ih⟩

section

variable (h : tree.Climbs a path)

include h

theorem Climbs.height_last : tree.height (path.getLastD a) = tree.height a + path.length := by
  induction path generalizing a with
  | nil => rfl
  | cons b path ih =>
    rw [getLastD_cons, ih h.2, tree.height_child h.1, length_cons]
    omega

theorem Climbs.height_lt (hb : b ∈ path) : tree.height a < tree.height b := by
  induction path generalizing a with
  | nil => cases hb
  | cons c path ih =>
    have hht := tree.height_child h.1
    rcases mem_cons.mp hb with rfl | hr
    · omega
    · have hlt := ih h.2 hr
      omega

theorem Climbs.pairwise_height_lt : path.Pairwise fun b c => tree.height b < tree.height c := by
  induction path generalizing a with
  | nil => exact List.Pairwise.nil
  | cons b path ih => exact pairwise_cons.mpr ⟨fun c hc => h.2.height_lt hc, ih h.2⟩

theorem Climbs.mem_line (hb : b ∈ path) : b ∈ tree.line (path.getLastD a) := by
  rw [h.line_last]
  exact mem_append_left _ (mem_reverse.mpr hb)

theorem Climbs.start_mem_line : a ∈ tree.line (path.getLastD a) := by
  rw [h.line_last]
  exact mem_append_right _ (self_mem_line a)

end

end ParentTree
