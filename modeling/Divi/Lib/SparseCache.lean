/-
Caches of a function that rarely changes along a line of arguments.

Each argument has one before it, and the value often is the same as there.  A cache is sound if
its entries are values of the function.  An argument is settled if a walk back, over arguments with
the same value, meets an entry; whoever stops a walk at any entry on the way then reads the value
of the argument where the walk began.
-/
import Mathlib.Data.Finmap

namespace SparseCache

variable {α β : Type*}

/-- Some values of a function. -/
abbrev Cache (α β : Type*) := Finmap fun _ : α => β

/-- Every entry has the value of the function. -/
def Sound [DecidableEq α] (value : α → β) (cache : Cache α β) : Prop :=
  ∀ a b, cache.lookup a = some b → value a = b

/-- An entry is met on the way back, before the value was another one. -/
inductive Settled (prev : α → Option α) (value : α → β) (cache : Cache α β) : α → Prop
  | entry {a : α} (h : a ∈ cache) : Settled prev value cache a
  | back {a p : α} (hprev : prev a = some p) (hv : value a = value p)
    (h : Settled prev value cache p) : Settled prev value cache a

variable {prev : α → Option α} {value : α → β} {cache : Cache α β} {a p : α}

/-- Where there is no entry the walk goes on, and the value does not change. -/
theorem Settled.of_notMem (h : Settled prev value cache a) (ha : a ∉ cache)
    (hprev : prev a = some p) : value a = value p ∧ Settled prev value cache p := by
  cases h with
  | entry h => exact absurd h ha
  | back hprev' hv h =>
    rw [hprev] at hprev'
    obtain rfl := Option.some.inj hprev'
    exact ⟨hv, h⟩

variable [DecidableEq α]

theorem sound_empty (value : α → β) : Sound value (∅ : Cache α β) := by
  intro a b h
  cases h

theorem Sound.insert (h : Sound value cache) (a : α) : Sound value (cache.insert a (value a)) := by
  intro a' b hget
  by_cases ha : a' = a
  · subst ha
    rw [Finmap.lookup_insert] at hget
    exact Option.some.inj hget
  · rw [Finmap.lookup_insert_of_ne _ ha] at hget
    exact h a' b hget

theorem Sound.lookup (h : Sound value cache) (ha : a ∈ cache) :
    cache.lookup a = some (value a) := by
  obtain ⟨b, hb⟩ := Finmap.mem_iff.mp ha
  rw [hb, h a b hb]

end SparseCache
