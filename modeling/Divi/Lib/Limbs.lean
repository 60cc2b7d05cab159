/-
Numbers as lists of 32-bit limbs.

The lowest limb comes first.  A loop that runs up the limbs with a carry is a recursion
over the list, and a loop that picks single limbs by their index is read through the
value of the limbs below that index.  Or-ing a limb into a number shifts the limb to its
place and or-s the two numbers, so shifts of whole numbers can be followed bit for bit.
-/
import Mathlib.Data.Nat.Size
import Mathlib.Tactic.Ring

namespace Limbs

open List

variable {l : List UInt32} {i : Nat}

/-- The number that a list of limbs stands for. -/
def toNat : List UInt32 → Nat
  | [] => 0
  | x :: xs => x.toNat + 2 ^ 32 * toNat xs

@[simp] theorem toNat_nil : toNat [] = 0 := rfl

@[simp] theorem toNat_cons (x : UInt32) (xs : List UInt32) :
    toNat (x :: xs) = x.toNat + 2 ^ 32 * toNat xs := rfl

theorem pow_width_succ (n : Nat) : 2 ^ (32 * (n + 1)) = 2 ^ 32 * 2 ^ (32 * n) := by
  rw [Nat.mul_succ, pow_add, mul_comm]

theorem toNat_lt (l : List UInt32) : toNat l < 2 ^ (32 * l.length) := by
  induction l with
  | nil => simp
  | cons x xs ih =>
    have hx := x.toNat_lt
    rw [toNat_cons, length_cons, pow_width_succ]
    calc x.toNat + 2 ^ 32 * toNat xs < 2 ^ 32 * (toNat xs + 1) := by omega
      _ ≤ 2 ^ 32 * 2 ^ (32 * xs.length) := Nat.mul_le_mul_left _ ih

theorem toNat_lt_of_cons {x : UInt32} {xs : List UInt32} {n : Nat}
    (h : toNat (x :: xs) < 2 ^ (32 * n)) : toNat xs < 2 ^ (32 * (n - 1)) := by
  rw [toNat_cons] at h
  cases n with
  | zero =>
    have hzero : toNat xs = 0 := by omega
    rw [hzero]
    exact Nat.two_pow_pos _
  | succ n =>
    rw [pow_width_succ] at h
    have hle : 2 ^ 32 * toNat xs < 2 ^ 32 * 2 ^ (32 * n) := by omega
    exact Nat.lt_of_mul_lt_mul_left hle

theorem toNat_append (a b : List UInt32) :
    toNat (a ++ b) = toNat a + 2 ^ (32 * a.length) * toNat b := by
  induction a with
  | nil => simp
  | cons x xs ih =>
    rw [cons_append, toNat_cons, toNat_cons, ih, length_cons, pow_width_succ]
    ring

@[simp] theorem toNat_replicate_zero (n : Nat) : toNat (List.replicate n 0) = 0 := by
  induction n with
  | zero => rfl
  | succ n ih => simp [replicate_succ, ih]

/-- The lowest limbs of a number. -/
def ofNat : Nat → Nat → List UInt32
  | 0, _ => []
  | width + 1, n => UInt32.ofNat n :: ofNat width (n / 2 ^ 32)

@[simp] theorem length_ofNat (width n : Nat) : (ofNat width n).length = width := by
  induction width generalizing n with
  | zero => rfl
  | succ width ih => simp [ofNat, ih]

theorem toNat_ofNat (width n : Nat) : toNat (ofNat width n) = n % 2 ^ (32 * width) := by
  induction width generalizing n with
  | zero => simp [ofNat, Nat.mod_one]
  | succ width ih =>
    rw [ofNat, toNat_cons, ih, UInt32.toNat_ofNat', pow_width_succ, Nat.mod_mul]

/-! ### Numbers below an index -/

theorem toNat_take_succ (h : i < l.length) :
    toNat (l.take (i + 1)) = toNat (l.take i) + 2 ^ (32 * i) * (l.getD i 0).toNat := by
  have hi : (l.take i).length = i := by simp [Nat.le_of_lt h]
  rw [take_succ_eq_append_getElem h, toNat_append, hi]
  simp [getD_eq_getElem?_getD, h]

theorem toNat_take_lt (l : List UInt32) (i : Nat) : toNat (l.take i) < 2 ^ (32 * i) := by
  refine lt_of_lt_of_le (toNat_lt (l.take i)) (Nat.pow_le_pow_right (by decide) ?_)
  have := length_take_le i l
  omega

theorem toNat_eq_take_add_drop (l : List UInt32) (i : Nat) :
    toNat l = toNat (l.take i) + 2 ^ (32 * i) * toNat (l.drop i) := by
  by_cases hi : i ≤ l.length
  · have hlen : (l.take i).length = i := by simp [hi]
    conv_lhs => rw [← take_append_drop i l]
    rw [toNat_append, hlen]
  · simp [take_of_length_le, drop_eq_nil_of_le, Nat.le_of_not_le hi]

theorem toNat_drop_eq_zero (h : toNat l < 2 ^ (32 * i)) : toNat (l.drop i) = 0 := by
  have hs := toNat_eq_take_add_drop l i
  by_contra hne
  have hpos : 2 ^ (32 * i) * 1 ≤ 2 ^ (32 * i) * toNat (l.drop i) :=
    Nat.mul_le_mul_left _ (by omega)
  omega

theorem toNat_take_eq (h : toNat l < 2 ^ (32 * i)) : toNat (l.take i) = toNat l := by
  rw [toNat_eq_take_add_drop l i, toNat_drop_eq_zero h, Nat.mul_zero, Nat.add_zero]

/-! ### Bits -/

theorem add_mul_or_add_mul {a b : Nat} (ha : a < 2 ^ 32) (hb : b < 2 ^ 32) (x y : Nat) :
    (a + 2 ^ 32 * x) ||| (b + 2 ^ 32 * y) = (a ||| b) + 2 ^ 32 * (x ||| y) := by
  apply Nat.eq_of_testBit_eq
  intro i
  have hor : a ||| b < 2 ^ 32 := Nat.or_lt_two_pow ha hb
  rw [Nat.testBit_or, Nat.add_comm a, Nat.add_comm b, Nat.add_comm (a ||| b),
    Nat.testBit_two_pow_mul_add x ha, Nat.testBit_two_pow_mul_add y hb,
    Nat.testBit_two_pow_mul_add (x ||| y) hor]
  split
  · rw [Nat.testBit_or]
  · rw [Nat.testBit_or]

theorem toNat_modify_or (h : i < l.length) (x : UInt32) :
    toNat (l.modify i (· ||| x)) = toNat l ||| (x.toNat <<< (32 * i)) := by
  induction l generalizing i with
  | nil => simp at h
  | cons y ys ih =>
    cases i with
    | zero =>
      have hor := add_mul_or_add_mul y.toNat_lt x.toNat_lt (toNat ys) 0
      simp only [modify_zero_cons, toNat_cons, UInt32.toNat_or, Nat.mul_zero,
        Nat.shiftLeft_zero, Nat.add_zero, Nat.or_zero] at hor ⊢
      exact hor.symm
    | succ i =>
      have hi : i < ys.length := by simpa using h
      have hor := add_mul_or_add_mul y.toNat_lt (b := 0) (by decide) (toNat ys)
        (x.toNat <<< (32 * i))
      have hs : x.toNat <<< (32 * (i + 1)) = 0 + 2 ^ 32 * x.toNat <<< (32 * i) := by
        rw [Nat.shiftLeft_eq, Nat.shiftLeft_eq, pow_width_succ]
        ring
      rw [modify_succ_cons, toNat_cons, toNat_cons, ih hi, hs, hor, Nat.or_zero]

/-- A number gains its limb at the next index by or-ing it in. -/
theorem toNat_take_succ_eq_or (h : i < l.length) :
    toNat (l.take (i + 1)) = toNat (l.take i) ||| ((l.getD i 0).toNat <<< (32 * i)) := by
  rw [toNat_take_succ h, Nat.or_comm, ← Nat.shiftLeft_add_eq_or_of_lt (toNat_take_lt l i),
    Nat.shiftLeft_eq, Nat.mul_comm, Nat.add_comm]

end Limbs
