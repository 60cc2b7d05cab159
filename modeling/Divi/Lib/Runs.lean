/-
Runs of a machine whose steps need not return.

An invariant that every step keeps holds after every run.  A property that a step keeps exactly
under a condition on the state before it holds all along a run exactly if every step of the
run meets the condition.
-/
import Mathlib.Data.List.Induction

open List Option

universe u v

variable {σ : Type u} {ε : Type v} (step : σ → ε → Option σ)

/-- The state after some events, `none` once a step does not return. -/
def runFrom (start : σ) : List ε → Option σ
  | [] => some start
  | event :: events => (step start event).bind fun next => runFrom next events

variable {step}

theorem runFrom_append (start : σ) (events events' : List ε) :
    runFrom step start (events ++ events') =
      (runFrom step start events).bind fun next => runFrom step next events' := by
  induction events generalizing start with
  | nil => rfl
  | cons event events ih =>
    cases hstep : step start event with
    | none => simp [runFrom, hstep]
    | some next => simp [runFrom, hstep, ih]

theorem runFrom_concat_eq_some {start st : σ} {events : List ε} {event : ε} :
    runFrom step start (events ++ [event]) = some st ↔
      ∃ before, runFrom step start events = some before ∧ step before event = some st := by
  rw [runFrom_append, bind_eq_some_iff]
  simp [runFrom]

/-- What every step of the run keeps holds after it. -/
theorem runFrom_invariant_of_mem {I : σ → Prop} {start st : σ} {events : List ε}
    (hI : ∀ event ∈ events, ∀ st st', I st → step st event = some st' → I st')
    (hst : I start) (h : runFrom step start events = some st) : I st := by
  induction events generalizing start with
  | nil => exact Option.some.inj h ▸ hst
  | cons event events ih =>
    obtain ⟨next, hstep, hr⟩ := bind_eq_some_iff.mp h
    exact ih (fun e he => hI e (mem_cons_of_mem event he))
      (hI event mem_cons_self start next hst hstep) hr

/-- A run returns if every step does in the states that an invariant allows. -/
theorem exists_runFrom_of_mem {I : σ → Prop} {start : σ} {events : List ε}
    (hI : ∀ event ∈ events, ∀ st, I st → ∃ st', step st event = some st' ∧ I st')
    (hs : I start) : ∃ st, runFrom step start events = some st ∧ I st := by
  induction events generalizing start with
  | nil => exact ⟨start, rfl, hs⟩
  | cons event events ih =>
    obtain ⟨next, hstep, hnext⟩ := hI event mem_cons_self start hs
    obtain ⟨st, hrun, hst⟩ := ih (fun e he => hI e (mem_cons_of_mem event he)) hnext
    exact ⟨st, by rw [runFrom, hstep, bind_some, hrun], hst⟩

section

variable {I Q : σ → Prop} {C : ε → σ → Prop} {start : σ}
  (hI : ∀ st event st', I st → step st event = some st' → I st')

include hI

theorem runFrom_invariant (hst : I start) {events : List ε} {st : σ}
    (h : runFrom step start events = some st) : I st :=
  runFrom_invariant_of_mem (fun event _ st st' => hI st event st') hst h

/-- A property holds all along a run if and only if each step meets the condition for it. -/
theorem runFrom_always_iff
    (hQ : ∀ st event st', I st → Q st → step st event = some st' → (Q st' ↔ C event st))
    (hst : I start) (hstartQ : Q start) (events : List ε) :
    (∀ before after st, events = before ++ after → runFrom step start before = some st → Q st) ↔
      ∀ before event after st st', events = before ++ event :: after →
        runFrom step start before = some st → step st event = some st' → C event st := by
  constructor
  · intro h before event after st st' hevs hrun hstep
    have hQst := h before (event :: after) st hevs hrun
    have hnext := h (before ++ [event]) after st' (by simp [hevs])
      (runFrom_concat_eq_some.mpr ⟨st, hrun, hstep⟩)
    exact (hQ st event st' (runFrom_invariant hI hst hrun) hQst hstep).mp hnext
  · intro h before
    induction before using List.reverseRecOn with
    | nil =>
      intro after st _ hrun
      exact Option.some.inj hrun ▸ hstartQ
    | append_singleton before event ih =>
      intro after st hevs hrun
      rw [append_assoc] at hevs
      obtain ⟨mid, hmid, hstep⟩ := runFrom_concat_eq_some.mp hrun
      have hC := h before event after mid st hevs hmid hstep
      have hQmid := ih _ mid hevs hmid
      exact (hQ mid event st (runFrom_invariant hI hst hmid) hQmid hstep).mpr hC

end

/-! ### Steps that always return -/

theorem runFrom_some (next : σ → ε → σ) (start : σ) (events : List ε) :
    runFrom (fun st event => some (next st event)) start events =
      some (events.foldl next start) := by
  induction events generalizing start with
  | nil => rfl
  | cons event events ih => simp [runFrom, ih]

theorem foldl_always_iff {next : σ → ε → σ} {I Q : σ → Prop} {C : ε → σ → Prop} {start : σ}
    (hI : ∀ st event, I st → I (next st event))
    (hQ : ∀ st event, I st → Q st → (Q (next st event) ↔ C event st))
    (hs : I start) (hstartQ : Q start) (events : List ε) :
    (∀ before after, events = before ++ after → Q (before.foldl next start)) ↔
      ∀ before event after, events = before ++ event :: after →
        C event (before.foldl next start) := by
  have h := @runFrom_always_iff σ ε (fun st event => some (next st event)) I Q C start
    (fun st event st' hst hstep => Option.some.inj hstep ▸ hI st event hst)
    (fun st event st' hst hQst hstep => Option.some.inj hstep ▸ hQ st event hst hQst)
    hs hstartQ events
  simpa [runFrom_some] using h
