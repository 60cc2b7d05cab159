/-
Taking a successful `Except` computation apart, and comparing two of them.

A run that ended well went well at every step.  These are the inversion rules for
sequencing, for a check that may stop the run, and for a change of the result.

A run whose steps keep an invariant, or stop for an allowed reason, ends with the invariant or for
such a reason.

One computation refines another if it only rejects more: each of its successes is a
success of the other with the same result.  Refinement is kept by sequencing, and holds
between a check and a weaker one.
-/
import Mathlib.Tactic.Common

namespace Results

universe u v

variable {ε : Type u} {α β : Type v}

theorem bind_eq_ok {x : Except ε α} {f : α → Except ε β} {b : β} :
    (x >>= f) = .ok b ↔ ∃ a, x = .ok a ∧ f a = .ok b := by
  cases x with
  | error e => simp [bind, Except.bind]
  | ok a => simp [bind, Except.bind]

theorem map_eq_ok {x : Except ε α} {f : α → β} {b : β} :
    x.map f = .ok b ↔ ∃ a, x = .ok a ∧ f a = b := by
  cases x with
  | error e => simp [Except.map]
  | ok a => simp [Except.map]

theorem guard_eq_ok {c : Prop} [Decidable c] {e : ε} {x : Except ε α} {a : α} :
    (if c then .error e else x) = .ok a ↔ ¬ c ∧ x = .ok a := by
  by_cases h : c
  · simp [h]
  · simp [h]

instance decidableExistsOk (x : Except ε α) (p : α → Prop) [DecidablePred p] :
    Decidable (∃ a, x = .ok a ∧ p a) :=
  match x with
  | .error _ => isFalse (by simp)
  | .ok a => decidable_of_iff (p a) (by simp)

/-! ### Rejecting more -/

/-- Every success of the first computation is one of the second, with the same result. -/
def Refines (x y : Except ε α) : Prop :=
  ∀ a, x = .ok a → y = .ok a

namespace Refines

@[refl] theorem refl (x : Except ε α) : Refines x x :=
  fun _ h => h

theorem bind {x y : Except ε α} {f g : α → Except ε β} (hxy : Refines x y)
    (hfg : ∀ a, Refines (f a) (g a)) : Refines (x >>= f) (y >>= g) := by
  intro b h
  obtain ⟨a, hx, hf⟩ := bind_eq_ok.mp h
  exact bind_eq_ok.mpr ⟨a, hxy a hx, hfg a b hf⟩

theorem map {x y : Except ε α} (hxy : Refines x y) (f : α → β) : Refines (x.map f) (y.map f) := by
  intro b h
  obtain ⟨a, hx, hf⟩ := map_eq_ok.mp h
  exact map_eq_ok.mpr ⟨a, hxy a hx, hf⟩

/-- A check that is passed more often. -/
theorem guard {c d : Prop} [Decidable c] [Decidable d] {e e' : ε} {x y : Except ε α}
    (hdc : d → c) (hxy : Refines x y) :
    Refines (if c then .error e else x) (if d then .error e' else y) := by
  intro a h
  obtain ⟨hc, hx⟩ := guard_eq_ok.mp h
  exact guard_eq_ok.mpr ⟨fun hd => hc (hdc hd), hxy a hx⟩

/-- The same branch is taken on both sides. -/
theorem branch {c : Prop} [Decidable c] {x x' y y' : Except ε α} (hx : c → Refines x x')
    (hy : ¬ c → Refines y y') : Refines (if c then x else y) (if c then x' else y') := by
  by_cases hc : c
  · rw [if_pos hc, if_pos hc]
    exact hx hc
  · rw [if_neg hc, if_neg hc]
    exact hy hc

end Refines

end Results
