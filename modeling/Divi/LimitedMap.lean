/-
`limitedmap`, a map that is to keep the entries with the highest values.

`map` is a list of entries, and so is `rmap`, in the order of the values: its iterators into the map
stand for the entries.  Reading the first element of an empty `rmap` gives `none`.
-/
import Mathlib.Data.List.Sort

namespace Divi

/-- A map that drops the lowest values. -/
structure limitedmap (K V : Type) where
  map : List (K × V) := []
  rmap : List (K × V) := []
  nMaxSize : Nat
  deriving DecidableEq

variable {K V : Type} [DecidableEq K] [LinearOrder V]

/-- A new element of `rmap` comes behind those of the same value. -/
def limitedmap.insert (m : limitedmap K V) (x : K × V) : Option (limitedmap K V) :=
  let rmapInsert := List.orderedInsert (fun a b : K × V => a.2 < b.2) x
  if x.1 ∈ m.map.map Prod.fst then
    some m
  else if m.nMaxSize ≠ 0 ∧ m.map.length + 1 = m.nMaxSize then
    match m.rmap with
    | [] => none
    | first :: rest =>
      some { m with map := (x :: m.map).erase first, rmap := rmapInsert rest }
  else
    some { m with map := x :: m.map, rmap := rmapInsert m.rmap }

end Divi
