/-
Layers of write-back caches over a store, for one key.

A key has a cell in every layer, top first, and a value in the store below.  An entry says
whether it may differ from what is below (`dirty`) and whether nothing is known to be below
(`fresh`).  Values may be *gone*: such a value stands for no value at all, which lets a
layer drop an entry, or skip writing it, when nothing is below anyway.

What a key stands for at every depth is the list of its versions.  Reading through the
layers fills cells and keeps the versions; writing changes the first one; writing a layer
back copies the first version to the second.  That rests on `Coherent`, which says of every
entry what its flags promise about the cells below it.
-/
import Mathlib.Data.Option.Basic
import Mathlib.Tactic.Common

namespace WriteBack

variable {α : Type*}

/-- A cached value. -/
structure Entry (α : Type*) where
  value : α
  dirty : Bool
  fresh : Bool

/-- The cells of a key, top first; `none` where a layer has no entry. -/
abbrev Column (α : Type*) := List (Option (Entry α))

variable (gone : α → Bool)

/-- What a value stands for. -/
def live (value : α) : Option α :=
  if gone value then none else some value

/-- What the key stands for, seen from above the cells. -/
def seen : Column α → Option α → Option α
  | [], base => base.bind (live gone)
  | some entry :: _, _ => live gone entry.value
  | none :: below, base => seen below base

/-- What the key stands for at every depth. -/
def versions : Column α → Option α → List (Option α)
  | [], base => [seen gone [] base]
  | cell :: below, base => seen gone (cell :: below) base :: versions below base

/-- The layer right below has an entry, or there is no layer. -/
def Filled : Column α → Prop
  | none :: _ => False
  | _ => True

/-- What the flags of an entry promise about the cells below it. -/
structure Entry.Agrees (entry : Entry α) (below : Column α) (base : Option α) : Prop where
  fresh : entry.fresh = true → seen gone below base = none
  known : entry.fresh = false → Filled below
  clean : entry.dirty = false → live gone entry.value = seen gone below base

/-- Every cell agrees with those below. -/
def Coherent : Column α → Option α → Prop
  | [], _ => True
  | cell :: below, base => (∀ entry ∈ cell, entry.Agrees gone below base) ∧ Coherent below base

/-! ### Operations -/

/-- Reads through the layers and fills the cells on the way back. -/
def fetch : Column α → Option α → Option α × Column α
  | [], base => (base, [])
  | some entry :: below, _ => (some entry.value, some entry :: below)
  | none :: below, base =>
    match fetch below base with
    | (none, below) => (none, none :: below)
    | (some value, below) => (some value, some ⟨value, false, gone value⟩ :: below)

/-- The entry a write starts from, with `initial` where nothing is below. -/
def grab (initial : α) : Option (Entry α) → Column α → Option α → Entry α × Column α
  | some entry, below, _ => (entry, below)
  | none, below, base =>
    match fetch gone below base with
    | (none, below) => (⟨initial, false, true⟩, below)
    | (some value, below) => (⟨value, false, gone value⟩, below)

/-- The cell after a write: a fresh entry that is gone need not be kept. -/
def store (entry : Entry α) (value : α) : Option (Entry α) :=
  if entry.fresh && gone value then none else some ⟨value, true, entry.fresh⟩

/-- Writes a cell back to the one below; `none` if a promise was broken. -/
def merge : Option (Entry α) → Option (Entry α) → Option (Option (Entry α))
  | none, parent => some parent
  | some entry, parent =>
    if entry.dirty then
      match parent with
      | none =>
        if gone entry.value then some none
        else if entry.fresh then some (some ⟨entry.value, true, true⟩)
        else none
      | some parent =>
        if parent.fresh && gone entry.value then some none
        else some (some ⟨entry.value, true, parent.fresh⟩)
    else
      some parent

/-- Writes a cell back to the store. -/
def mergeBase : Option (Entry α) → Option α → Option α
  | none, base => base
  | some entry, base => if entry.dirty then live gone entry.value else base

variable {gone} {below : Column α} {base : Option α}

@[simp] theorem live_eq_none {value : α} : live gone value = none ↔ gone value = true := by
  unfold live
  cases gone value with
  | true => simp
  | false => simp

theorem live_bind (value : α) : (live gone value).bind (live gone) = live gone value := by
  cases h : gone value with
  | true => simp [live, h]
  | false => simp [live, h]

theorem versions_eq_cons (gone : α → Bool) (column : Column α) (base : Option α) :
    ∃ rest, versions gone column base = seen gone column base :: rest := by
  cases column with
  | nil => exact ⟨[], rfl⟩
  | cons cell below => exact ⟨versions gone below base, rfl⟩

theorem seen_of_versions {column column' : Column α} {base' : Option α}
    (h : versions gone column base = versions gone column' base') :
    seen gone column base = seen gone column' base' := by
  obtain ⟨rest, hr⟩ := versions_eq_cons gone column base
  obtain ⟨rest', hr'⟩ := versions_eq_cons gone column' base'
  rw [hr, hr'] at h
  exact (List.cons.inj h).1

theorem Coherent.agrees {entry : Entry α} (h : Coherent gone (some entry :: below) base) :
    entry.Agrees gone below base :=
  h.1 entry rfl

/-! ### Reading -/

/-- What a read gives and leaves behind. -/
structure Fetched (gone : α → Bool) (column : Column α) (base : Option α)
    (result : Option α × Column α) : Prop where
  value : result.1.bind (live gone) = seen gone column base
  versions : versions gone result.2 base = WriteBack.versions gone column base
  coherent : Coherent gone result.2 base
  filled : result.1.isSome = true → Filled result.2

theorem Fetched.seen {column : Column α} {result : Option α × Column α}
    (h : Fetched gone column base result) :
    seen gone result.2 base = WriteBack.seen gone column base :=
  seen_of_versions h.versions

/-- The entry that stands in for what was read from below. -/
theorem Fetched.agrees {value : α} {below' : Column α}
    (h : Fetched gone below base (some value, below')) :
    Entry.Agrees gone ⟨value, false, gone value⟩ below' base where
  fresh hgone := by
    rw [h.seen, ← h.value]
    exact live_eq_none.mpr hgone
  known _ := h.filled rfl
  clean _ := by
    rw [h.seen, ← h.value]
    rfl

theorem fetch_spec {column : Column α} (h : Coherent gone column base) :
    Fetched gone column base (fetch gone column base) := by
  induction column with
  | nil => exact ⟨rfl, rfl, trivial, fun _ => trivial⟩
  | cons cell below ih =>
    cases cell with
    | some entry => exact ⟨rfl, rfl, h, fun _ => trivial⟩
    | none =>
      have hlt := ih h.2
      unfold fetch
      match hf : fetch gone below base with
      | (none, below') =>
        rw [hf] at hlt
        refine ⟨hlt.value, ?_, ⟨nofun, hlt.coherent⟩, nofun⟩
        exact congrArg₂ List.cons hlt.seen hlt.versions
      | (some value, below') =>
        rw [hf] at hlt
        refine ⟨hlt.value, ?_, ⟨?_, hlt.coherent⟩, fun _ => trivial⟩
        · exact congrArg₂ List.cons hlt.value hlt.versions
        · rintro entry ⟨⟩
          exact hlt.agrees

/-! ### Writing -/

/-- What a write starts from. -/
structure Grabbed (gone : α → Bool) (cell : Option (Entry α)) (below : Column α)
    (base : Option α) (result : Entry α × Column α) : Prop where
  value : live gone result.1.value = seen gone (cell :: below) base
  versions : versions gone result.2 base = WriteBack.versions gone below base
  fresh : result.1.fresh = true → seen gone result.2 base = none
  known : result.1.fresh = false → Filled result.2
  coherent : Coherent gone result.2 base

variable {cell : Option (Entry α)}

theorem grab_spec {initial : α} (hinit : gone initial = true)
    (h : Coherent gone (cell :: below) base) :
    Grabbed gone cell below base (grab gone initial cell below base) := by
  cases cell with
  | some entry => exact ⟨rfl, rfl, h.agrees.fresh, h.agrees.known, h.2⟩
  | none =>
    have hlt := fetch_spec h.2
    match hf : fetch gone below base with
    | (none, below') =>
      rw [hf] at hlt
      simp only [grab, hf]
      have hn : seen gone below base = none := hlt.value.symm
      refine ⟨(live_eq_none.mpr hinit).trans hn.symm, hlt.versions, fun _ => ?_, nofun,
        hlt.coherent⟩
      exact hlt.seen.trans hn
    | (some value, below') =>
      rw [hf] at hlt
      simp only [grab, hf]
      exact ⟨hlt.value, hlt.versions, hlt.agrees.fresh, hlt.agrees.known,
        hlt.coherent⟩

/-- A write makes the first version what was written, and keeps the others. -/
theorem store_spec {result : Entry α × Column α} (value : α)
    (h : Grabbed gone cell below base result) :
    Coherent gone (store gone result.1 value :: result.2) base ∧
      versions gone (store gone result.1 value :: result.2) base
        = live gone value :: versions gone below base := by
  unfold store
  split
  · rename_i hdrop
    obtain ⟨hf, hgone⟩ := Bool.and_eq_true_iff.mp hdrop
    refine ⟨⟨nofun, h.coherent⟩, congrArg₂ List.cons ?_ h.versions⟩
    exact (h.fresh hf).trans (live_eq_none.mpr hgone).symm
  · refine ⟨⟨?_, h.coherent⟩, congrArg₂ List.cons rfl h.versions⟩
    rintro entry ⟨⟩
    exact ⟨h.fresh, h.known, nofun⟩

/-! ### Writing back -/

/-- Writing a cell back to the cell below: no promise is broken. -/
theorem merge_spec {cell parent : Option (Entry α)}
    (h : Coherent gone (cell :: parent :: below) base) :
    ∃ parent', merge gone cell parent = some parent' ∧ Coherent gone (parent' :: below) base ∧
      seen gone (parent' :: below) base = seen gone (cell :: parent :: below) base := by
  cases cell with
  | none => exact ⟨parent, rfl, h.2, rfl⟩
  | some entry =>
    cases hd : entry.dirty with
    | false =>
      have hm : merge gone (some entry) parent = some parent := by simp [merge, hd]
      exact ⟨parent, hm, h.2, (h.agrees.clean hd).symm⟩
    | true =>
      simp only [merge, hd, if_true]
      cases parent with
      | none =>
        -- the cell below is empty, so the entry is fresh and nothing is below
        have hf : entry.fresh = true := by
          by_contra hne
          exact h.agrees.known (by simpa using hne)
        have hn : seen gone below base = none := h.agrees.fresh hf
        cases hgone : gone entry.value with
        | true => exact ⟨none, rfl, h.2, hn.trans (live_eq_none.mpr hgone).symm⟩
        | false =>
          refine ⟨some ⟨entry.value, true, true⟩, by simp [hf], ⟨?_, h.2.2⟩, rfl⟩
          rintro written ⟨⟩
          exact ⟨fun _ => hn, nofun, nofun⟩
      | some parent =>
        have hpar : parent.Agrees gone below base := Coherent.agrees h.2
        simp only
        split
        · rename_i hdrop
          obtain ⟨hf, hgone⟩ := Bool.and_eq_true_iff.mp hdrop
          refine ⟨none, rfl, ⟨nofun, h.2.2⟩, ?_⟩
          exact (hpar.fresh hf).trans (live_eq_none.mpr hgone).symm
        · refine ⟨_, rfl, ⟨?_, h.2.2⟩, rfl⟩
          rintro written ⟨⟩
          exact ⟨hpar.fresh, hpar.known, nofun⟩

theorem mergeBase_spec (h : Coherent gone [cell] base) :
    seen gone [] (mergeBase gone cell base) = seen gone [cell] base := by
  cases cell with
  | none => rfl
  | some entry =>
    cases hd : entry.dirty with
    | false =>
      simp only [mergeBase, hd, Bool.false_eq_true, if_false]
      exact (h.agrees.clean hd).symm
    | true =>
      simp only [mergeBase, hd, if_true]
      exact live_bind entry.value

end WriteBack
