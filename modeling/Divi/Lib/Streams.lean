/-
Reading from a stream.

A reader takes symbols from the front of a stream and may fail.  It reads a text as a value if,
whatever follows the text, it returns the value and leaves exactly what follows.  Texts are then
put together as readers are.
-/
import Mathlib.Data.List.Basic

namespace Streams

open List Option

universe u

variable {σ α β : Type u}

/-- Returns a value and what is left of the stream, or fails. -/
abbrev Reader (σ α : Type u) := StateT (List σ) Option α

/-- The next `n` symbols. -/
def take (n : Nat) : Reader σ (List σ) := fun stream =>
  if n ≤ stream.length then some (stream.take n, stream.drop n) else none

/-- Whatever follows the text, the value is returned and what follows is left. -/
def Reads (read : Reader σ α) (text : List σ) (value : α) : Prop :=
  ∀ rest, read (text ++ rest) = some (value, rest)

theorem Reads.unique {read : Reader σ α} {text : List σ} {a b : α} (ha : Reads read text a)
    (hb : Reads read text b) : a = b := by
  have heq := (ha []).symm.trans (hb [])
  exact congrArg Prod.fst (Option.some.inj heq)

theorem reads_pure (a : α) : Reads (pure a : Reader σ α) [] a := fun _ => rfl

theorem Reads.bind {read : Reader σ α} {after : α → Reader σ β} {text text' : List σ} {a : α}
    {b : β} (h : Reads read text a) (h' : Reads (after a) text' b) :
    Reads (read >>= after) (text ++ text') b := by
  intro rest
  show (read (text ++ text' ++ rest)).bind (fun p => after p.1 p.2) = some (b, rest)
  rw [append_assoc, h, bind_some, h']

theorem Reads.map {read : Reader σ α} {text : List σ} {a : α} (h : Reads read text a) (f : α → β) :
    Reads (read >>= fun x => pure (f x)) text (f a) := by
  have hbind : Reads (read >>= fun x => pure (f x)) (text ++ []) (f a) := h.bind (reads_pure (f a))
  rwa [append_nil] at hbind

theorem reads_take {text : List σ} {n : Nat} (h : text.length = n) : Reads (take n) text text := by
  intro rest
  have hle : n ≤ (text ++ rest).length := by
    rw [length_append]
    omega
  rw [take, if_pos hle, take_left' h, drop_left' h]

theorem reads_mapM {ι : Type u} {read : ι → Reader σ α} {text : ι → List σ} {value : ι → α}
    {l : List ι} (h : ∀ item ∈ l, Reads (read item) (text item) (value item)) :
    Reads (l.mapM read) (l.flatMap text) (l.map value) := by
  induction l with
  | nil => exact reads_pure []
  | cons item l ih =>
    rw [mapM_cons, flatMap_cons, map_cons]
    refine (h item mem_cons_self).bind ?_
    exact (ih fun other ho => h other (mem_cons_of_mem item ho)).map _

end Streams
