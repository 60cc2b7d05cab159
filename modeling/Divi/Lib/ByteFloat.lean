/-
Numbers rounded down to three leading bytes.

A number is written as an exponent, which counts bytes, and a mantissa of 23 bits.  If
the highest of the three leading bytes has its highest bit set, then the mantissa drops
the lowest of them and the exponent is one higher.  The encoding drops the remainder by a
power of 256 that only depends on the size of a number, and the rounded number has the same
size; so rounding keeps the order, and the encoding loses less than half of a number.
-/
import Mathlib.Data.Nat.Size
import Mathlib.Tactic.Ring

namespace ByteFloat

/-- How many bytes a number has. -/
def bytes (n : Nat) : Nat :=
  (n.size + 7) / 8

/-- The three leading bytes. -/
def lead (n : Nat) : Nat :=
  n * 2 ^ 24 / 2 ^ (8 * bytes n)

/-- The bytes, one more if the sign bit would be set. -/
def exponent (n : Nat) : Nat :=
  if lead n < 2 ^ 23 then bytes n else bytes n + 1

def mantissa (n : Nat) : Nat :=
  n * 2 ^ 24 / 2 ^ (8 * exponent n)

def encode (n : Nat) : Nat :=
  mantissa n + 2 ^ 24 * exponent n

variable (n : Nat)

theorem size_le_bytes : n.size ≤ 8 * bytes n := by
  unfold bytes
  omega

theorem lead_lt : lead n < 2 ^ 24 := by
  have hsize : n < 2 ^ (8 * bytes n) :=
    lt_of_lt_of_le (Nat.lt_size_self n) (Nat.pow_le_pow_right (by decide) (size_le_bytes n))
  rw [lead, Nat.div_lt_iff_lt_mul (Nat.two_pow_pos _), Nat.mul_comm (2 ^ 24)]
  exact Nat.mul_lt_mul_of_pos_right hsize (Nat.two_pow_pos _)

theorem exponent_of_lt {n : Nat} (h : lead n < 2 ^ 23) : exponent n = bytes n := if_pos h

theorem exponent_of_not_lt {n : Nat} (h : ¬ lead n < 2 ^ 23) : exponent n = bytes n + 1 := if_neg h

theorem mantissa_of_lt {n : Nat} (h : lead n < 2 ^ 23) : mantissa n = lead n := by
  rw [mantissa, exponent_of_lt h, lead]

theorem mantissa_of_not_lt {n : Nat} (h : ¬ lead n < 2 ^ 23) : mantissa n = lead n / 2 ^ 8 := by
  rw [mantissa, exponent_of_not_lt h, lead, Nat.div_div_eq_div_mul, ← pow_add, Nat.mul_succ]

theorem mantissa_lt : mantissa n < 2 ^ 23 := by
  have hlead := lead_lt n
  by_cases h : lead n < 2 ^ 23
  · rw [mantissa_of_lt h]
    exact h
  · rw [mantissa_of_not_lt h]
    omega

theorem encode_eq_iff (a b : Nat) :
    encode a = encode b ↔ mantissa a = mantissa b ∧ exponent a = exponent b := by
  have ha := mantissa_lt a
  have hb := mantissa_lt b
  unfold encode
  omega

/-! ### Decoding -/

/-- The number that a mantissa and an exponent stand for. -/
def decode (mantissa exponent : Nat) : Nat :=
  mantissa * 2 ^ (8 * exponent) / 2 ^ 24

/-- A number after its encoding. -/
def round (n : Nat) : Nat :=
  decode (mantissa n) (exponent n)

/-- What the encoding drops the remainder of. -/
def unit (n : Nat) : Nat :=
  2 ^ (8 * (exponent n - 3))

theorem unit_pos : 0 < unit n := Nat.two_pow_pos _

theorem decode_of_le {m e : Nat} (h : e ≤ 3) : decode m e = m / 2 ^ (8 * (3 - e)) := by
  have hpow : 2 ^ 24 = 2 ^ (8 * (3 - e)) * 2 ^ (8 * e) := by
    rw [← pow_add]
    congr 1
    omega
  rw [decode, hpow, Nat.mul_div_mul_right _ _ (Nat.two_pow_pos _)]

theorem decode_of_ge {m e : Nat} (h : 3 ≤ e) : decode m e = m * 2 ^ (8 * (e - 3)) := by
  have hpow : 2 ^ (8 * e) = 2 ^ (8 * (e - 3)) * 2 ^ 24 := by
    rw [← pow_add]
    congr 1
    omega
  rw [decode, hpow, ← Nat.mul_assoc, Nat.mul_div_cancel _ (Nat.two_pow_pos _)]

theorem mantissa_eq : mantissa n = n / unit n * 2 ^ (8 * (3 - exponent n)) := by
  have hpow : 2 ^ 24 * unit n = 2 ^ (8 * (3 - exponent n)) * 2 ^ (8 * exponent n) := by
    rw [unit, ← pow_add, ← pow_add]
    congr 1
    omega
  obtain h | h := Nat.le_total (exponent n) 3
  · have hunit : unit n = 1 := by rw [unit, Nat.sub_eq_zero_of_le h, Nat.mul_zero, pow_zero]
    rw [hunit, Nat.mul_one] at hpow
    rw [mantissa, hpow, hunit, Nat.div_one, ← Nat.mul_assoc,
      Nat.mul_div_cancel _ (Nat.two_pow_pos _)]
  · have hs : 2 ^ (8 * (3 - exponent n)) = 1 := by
      rw [Nat.sub_eq_zero_of_le h, Nat.mul_zero, pow_zero]
    rw [hs, Nat.one_mul] at hpow
    rw [mantissa, hs, ← hpow, Nat.mul_comm, Nat.mul_div_mul_left _ _ (Nat.two_pow_pos _),
      Nat.mul_one]

theorem round_eq : round n = n / unit n * unit n := by
  rw [round, mantissa_eq]
  obtain h | h := Nat.le_total (exponent n) 3
  · rw [decode_of_le h, Nat.mul_div_cancel _ (Nat.two_pow_pos _), unit, Nat.sub_eq_zero_of_le h,
      Nat.mul_zero, pow_zero, Nat.mul_one]
  · rw [decode_of_ge h, Nat.sub_eq_zero_of_le h, Nat.mul_zero, pow_zero, Nat.mul_one, unit]

theorem round_le : round n ≤ n := by
  rw [round_eq]
  exact Nat.div_mul_le_self _ _

/-- The sign bit would be set if the size fills its bytes. -/
theorem exponent_eq {n : Nat} (h : 0 < n) : exponent n = n.size / 8 + 1 := by
  have hpos : 0 < n.size := Nat.size_pos.mpr h
  have hlead : lead n < 2 ^ 23 ↔ n.size < 8 * bytes n := by
    have hb : 0 < 8 * bytes n := lt_of_lt_of_le hpos (size_le_bytes n)
    have hpow : 2 ^ (8 * bytes n) = 2 ^ (8 * bytes n - 1) * 2 := by
      rw [← pow_succ, Nat.sub_add_cancel hb]
    rw [← Nat.le_sub_one_iff_lt hb, Nat.size_le, lead,
      Nat.div_lt_iff_lt_mul (Nat.two_pow_pos _), hpow]
    omega
  unfold exponent
  split
  next hlt =>
    have hsize := hlead.mp hlt
    unfold bytes at hsize ⊢
    omega
  next hlt =>
    have hsize := mt hlead.mpr hlt
    unfold bytes at hsize ⊢
    omega

theorem two_pow_le_round {n : Nat} (h : 0 < n) : 2 ^ (n.size - 1) ≤ round n := by
  have hpos : 0 < n.size := Nat.size_pos.mpr h
  have hge : 2 ^ (n.size - 1) ≤ n := Nat.lt_size.mp (by omega)
  have hunit : 2 ^ (n.size - 1) = 2 ^ (n.size - 1 - 8 * (exponent n - 3)) * unit n := by
    rw [unit, ← pow_add, exponent_eq h]
    congr 1
    omega
  rw [round_eq, hunit]
  apply Nat.mul_le_mul_right
  rw [Nat.le_div_iff_mul_le (unit_pos n), ← hunit]
  exact hge

theorem round_pos {n : Nat} (h : 0 < n) : 0 < round n :=
  lt_of_lt_of_le (Nat.two_pow_pos _) (two_pow_le_round h)

theorem exponent_round : exponent (round n) = exponent n := by
  obtain rfl | h := Nat.eq_zero_or_pos n
  · rfl
  · have hsize : (round n).size = n.size := by
      apply Nat.le_antisymm (Nat.size_le_size (round_le n))
      have hlt := Nat.lt_size.mpr (two_pow_le_round h)
      omega
    rw [exponent_eq (round_pos h), exponent_eq h, hsize]

/-- **A rounded number has the encoding** of the number. -/
theorem encode_round : encode (round n) = encode n := by
  rw [encode_eq_iff, mantissa_eq, mantissa_eq n, unit, exponent_round, round_eq]
  refine ⟨?_, rfl⟩
  rw [unit, Nat.mul_div_cancel _ (Nat.two_pow_pos _)]

/-- **Rounding keeps the order.** -/
theorem round_le_round {a b : Nat} (h : a ≤ b) : round a ≤ round b := by
  obtain rfl | ha := Nat.eq_zero_or_pos a
  · exact Nat.zero_le _
  obtain hsize | hsize := Nat.eq_or_lt_of_le (Nat.size_le_size h)
  · have hunit : unit a = unit b := by
      rw [unit, unit, exponent_eq ha, exponent_eq (lt_of_lt_of_le ha h), hsize]
    rw [round_eq, round_eq, hunit]
    exact Nat.mul_le_mul_right _ (Nat.div_le_div_right h)
  · calc round a ≤ a := round_le a
      _ ≤ 2 ^ a.size := le_of_lt (Nat.lt_size_self a)
      _ ≤ 2 ^ (b.size - 1) := Nat.pow_le_pow_right (by decide) (by omega)
      _ ≤ round b := two_pow_le_round (lt_of_lt_of_le ha h)

/-- **Numbers with the same encoding** differ by less than a factor of two. -/
theorem lt_two_mul_of_encode_eq {a b : Nat} (hb : 0 < b) (h : encode a = encode b) : a < 2 * b := by
  obtain ⟨hman, hexp⟩ := (encode_eq_iff a b).mp h
  have hr : round a = round b := by
    rw [round, round, hman, hexp]
  obtain rfl | ha := Nat.eq_zero_or_pos a
  · omega
  have hpow : 2 ^ a.size = 2 * 2 ^ (a.size - 1) := by
    rw [← pow_succ', Nat.sub_add_cancel (Nat.size_pos.mpr ha)]
  calc a < 2 ^ a.size := Nat.lt_size_self a
    _ = 2 * 2 ^ (a.size - 1) := hpow
    _ ≤ 2 * round a := Nat.mul_le_mul_left _ (two_pow_le_round ha)
    _ = 2 * round b := by rw [hr]
    _ ≤ 2 * b := Nat.mul_le_mul_left _ (round_le b)

end ByteFloat
