/-
Integers in decimal notation.

Two texts that are cut into a number, a middle part and a number agree piece by piece
as soon as the numbers at both ends have the same widths.  Without that the cuts are
not determined by the text.
-/
import Mathlib.Data.Int.Notation
import Mathlib.Tactic.Common

namespace Divi.Decimal

/-- The decimal notation of an integer, with a sign only if it is negative. -/
def render (z : Int) : List Char :=
  if z < 0 then '-' :: Nat.toDigits 10 z.natAbs else Nat.toDigits 10 z.natAbs

theorem toDigits_injective {a b : Nat} (h : Nat.toDigits 10 a = Nat.toDigits 10 b) : a = b := by
  have hp := congrArg (fun digits => Nat.ofDigitChars 10 digits 0) h
  simpa using hp

theorem not_mem_toDigits {c : Char} (hc : c.isDigit = false) (n : Nat) :
    c ∉ Nat.toDigits 10 n := by
  intro hmem
  rw [Nat.isDigit_of_mem_toDigits (by decide) (by decide) hmem] at hc
  cases hc

theorem render_injective {x y : Int} (h : render x = render y) : x = y := by
  unfold render at h
  by_cases hx : x < 0
  · by_cases hy : y < 0
    · rw [if_pos hx, if_pos hy] at h
      have habs := toDigits_injective (List.cons.inj h).2
      omega
    · rw [if_pos hx, if_neg hy] at h
      exact absurd (h ▸ List.mem_cons_self) (not_mem_toDigits rfl y.natAbs)
  · by_cases hy : y < 0
    · rw [if_neg hx, if_pos hy] at h
      exact absurd (h.symm ▸ List.mem_cons_self) (not_mem_toDigits rfl x.natAbs)
    · rw [if_neg hx, if_neg hy] at h
      have habs := toDigits_injective h
      omega

/-- **Cutting a text.**  With the same widths at both ends the three pieces agree. -/
theorem pieces_eq {x x' z z' : Int} {middle middle' : List Char}
    (htext : render x ++ middle ++ render z = render x' ++ middle' ++ render z')
    (hfst : (render x).length = (render x').length)
    (hl : (render z).length = (render z').length) :
    x = x' ∧ middle = middle' ∧ z = z' := by
  obtain ⟨hf, hz⟩ := List.append_inj' htext hl
  obtain ⟨hx, hm⟩ := List.append_inj hf hfst
  exact ⟨render_injective hx, hm, render_injective hz⟩

end Divi.Decimal
