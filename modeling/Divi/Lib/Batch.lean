/-
Batches of writes and erases on a finite map.

The operations of a batch are applied in their order, so the last one on a key decides.
-/
import Mathlib.Data.Finmap

namespace Batch

universe u v

variable {κ : Type u} {ν : Type v} [DecidableEq κ]

/-- A write of a value, or an erase. -/
def step (db : Finmap fun _ : κ => ν) (op : κ × Option ν) : Finmap fun _ : κ => ν :=
  match op.2 with
  | none => db.erase op.1
  | some value => db.insert op.1 value

def apply (db : Finmap fun _ : κ => ν) (batch : List (κ × Option ν)) : Finmap fun _ : κ => ν :=
  batch.foldl step db

section

variable (db : Finmap fun _ : κ => ν)

@[simp] theorem apply_nil : apply db [] = db := rfl

theorem apply_cons (op : κ × Option ν) (batch : List (κ × Option ν)) :
    apply db (op :: batch) = apply (step db op) batch := rfl

theorem apply_append (first second : List (κ × Option ν)) :
    apply db (first ++ second) = apply (apply db first) second :=
  List.foldl_append

theorem lookup_step (op : κ × Option ν) (key : κ) :
    (step db op).lookup key = if key = op.1 then op.2 else db.lookup key := by
  unfold step
  by_cases hkey : key = op.1
  · rw [if_pos hkey, hkey]
    cases hop : op.2 with
    | none => exact Finmap.lookup_erase _ _
    | some value => exact Finmap.lookup_insert _
  · rw [if_neg hkey]
    cases hop : op.2 with
    | none => exact Finmap.lookup_erase_ne hkey
    | some value => exact Finmap.lookup_insert_of_ne _ hkey

end

variable {db : Finmap fun _ : κ => ν}

theorem lookup_apply_of_notMem {batch : List (κ × Option ν)} {key : κ}
    (h : ∀ op ∈ batch, op.1 ≠ key) : (apply db batch).lookup key = db.lookup key := by
  refine List.foldlRecOn (motive := fun after : Finmap fun _ : κ => ν =>
    after.lookup key = db.lookup key) batch step rfl ?_
  intro after ha op hop
  rw [lookup_step, if_neg (h op hop).symm, ha]

/-- A key with operations has what one of them says. -/
theorem exists_lookup_apply {batch : List (κ × Option ν)} {key : κ}
    (hmem : ∃ op ∈ batch, op.1 = key) :
    ∃ op ∈ batch, op.1 = key ∧ (apply db batch).lookup key = op.2 := by
  induction batch using List.reverseRecOn with
  | nil =>
    obtain ⟨op, hop, -⟩ := hmem
    cases hop
  | append_singleton batch op ih =>
    rw [apply_append, apply_cons, apply_nil, lookup_step]
    by_cases hkey : op.1 = key
    · exact ⟨op, by simp, hkey, if_pos hkey.symm⟩
    · obtain ⟨other, ho, hget⟩ := ih (by simpa [or_and_right, exists_or, hkey] using hmem)
      rw [if_neg (Ne.symm hkey)]
      exact ⟨other, List.mem_append_left _ ho, hget⟩

/-- If all operations on a key agree, they decide. -/
theorem lookup_apply_of_mem {batch : List (κ × Option ν)} {key : κ}
    {value : Option ν} (hmem : ∃ op ∈ batch, op.1 = key)
    (h : ∀ op ∈ batch, op.1 = key → op.2 = value) : (apply db batch).lookup key = value := by
  obtain ⟨op, hop, hkey, hget⟩ := @exists_lookup_apply _ _ _ db _ _ hmem
  rw [hget, h op hop hkey]

/-- Erasing what was written on new keys leaves nothing behind. -/
theorem apply_erase_write {written erased : List (κ × Option ν)}
    (he : ∀ op ∈ erased, op.2 = none)
    (hkeys : ∀ key, (∃ op ∈ written, op.1 = key) ↔ ∃ op ∈ erased, op.1 = key)
    (hnew : ∀ op ∈ written, db.lookup op.1 = none) : apply (apply db written) erased = db := by
  refine Finmap.ext_lookup fun key => ?_
  by_cases hmem : ∃ op ∈ erased, op.1 = key
  · obtain ⟨op, hop, rfl⟩ := (hkeys key).mpr hmem
    rw [lookup_apply_of_mem hmem fun other ho _ => he other ho, hnew op hop]
  · have hwr : ¬ ∃ op ∈ written, op.1 = key := fun h => hmem ((hkeys key).mp h)
    rw [lookup_apply_of_notMem fun op hop heq => hmem ⟨op, hop, heq⟩,
      lookup_apply_of_notMem fun op hop heq => hwr ⟨op, hop, heq⟩]

end Batch
