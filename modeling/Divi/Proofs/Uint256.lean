/-
What the operators of `base_uint` compute.

Every operator is followed through `toNat`.  The loops that carry agree with the exact
result up to a multiple of `2 ^ (32 * WIDTH)`, by induction on the limbs: the part of an
intermediate result that does not fit a limb is what the next limb adds.  `MultiplyBy`
reports that the product fits exactly when it does, and `operator/=` is the division of
natural numbers.
-/
import Divi.Uint256
import Mathlib.Data.Nat.Bitwise
import Mathlib.Tactic.Linarith

namespace Divi

open Limbs List

namespace BaseUint

variable {carry : UInt64} {bs pn as : List UInt32} {state : MultiplyState} {i shift : Nat}
  {WIDTH : Nat} (a b : BaseUint WIDTH)

theorem toNat_lt : a.toNat < 2 ^ (32 * WIDTH) := by
  have h := Limbs.toNat_lt a.pn
  rwa [a.length_pn] at h

@[simp] theorem toNat_zero : (zero : BaseUint WIDTH).toNat = 0 :=
  toNat_replicate_zero WIDTH

theorem take_width : a.pn.take WIDTH = a.pn :=
  take_of_length_le (by rw [a.length_pn])

theorem toNat_high (n : UInt64) : (n >>> 32).toNat = n.toNat / 2 ^ 32 := by
  rw [UInt64.toNat_shiftRight, Nat.shiftRight_eq_div_pow]
  rfl

theorem toNat_ofUInt64 (h : 2 ≤ WIDTH) (b : UInt64) :
    (ofUInt64 b : BaseUint WIDTH).toNat = b.toNat := by
  have hb := b.toNat_lt
  obtain ⟨n, rfl⟩ : ∃ n, WIDTH = n + 2 := ⟨WIDTH - 2, by omega⟩
  simp only [toNat, ofUInt64, take_succ_cons, take_replicate, toNat_cons,
    toNat_replicate_zero, UInt64.toNat_toUInt32, toNat_high]
  omega

/-! ### Carries -/

/-- What does not fit the lowest limb is added to the limbs above it. -/
theorem carry_mod (n above modulus : Nat) :
    n % 2 ^ 32 + 2 ^ 32 * ((n / 2 ^ 32 + above) % modulus) =
      (n + 2 ^ 32 * above) % (2 ^ 32 * modulus) := by
  rw [Nat.mod_mul, Nat.add_mul_mod_self_left, Nat.add_mul_div_left _ _ (by decide)]

theorem limb_mul_le (a b : UInt32) : a.toNat * b.toNat ≤ (2 ^ 32 - 1) * (2 ^ 32 - 1) :=
  Nat.mul_le_mul (Nat.le_sub_one_of_lt a.toNat_lt) (Nat.le_sub_one_of_lt b.toNat_lt)

theorem toNat_incrementLoop (l : List UInt32) :
    Limbs.toNat (incrementLoop l) = (Limbs.toNat l + 1) % 2 ^ (32 * l.length) := by
  induction l with
  | nil => simp [incrementLoop]
  | cons x xs ih =>
    have hx := x.toNat_lt
    have hadd : (x + 1).toNat = (x.toNat + 1) % 2 ^ 32 := by simp
    have hc := carry_mod (x.toNat + 1) (Limbs.toNat xs) (2 ^ (32 * xs.length))
    have hsum : x.toNat + 1 + 2 ^ 32 * Limbs.toNat xs =
        x.toNat + 2 ^ 32 * Limbs.toNat xs + 1 := by omega
    rw [length_cons, pow_width_succ, toNat_cons, ← hsum, ← hc]
    have hzero : x + 1 = 0 ↔ (x.toNat + 1) % 2 ^ 32 = 0 := by
      rw [← UInt32.toNat_inj, hadd]
      rfl
    simp only [incrementLoop, hzero]
    split
    · have hone : (x.toNat + 1) / 2 ^ 32 = 1 := by omega
      rw [toNat_cons, hadd, ih, hone, Nat.add_comm 1]
    · have hn : (x.toNat + 1) / 2 ^ 32 = 0 := by omega
      rw [Limbs.toNat_cons, hadd, hn, Nat.zero_add, Nat.mod_eq_of_lt (Limbs.toNat_lt xs)]

theorem toNat_addLoop {a b : List UInt32} (h : a.length = b.length)
    (hc : carry.toNat < 2 ^ 32) :
    Limbs.toNat (addLoop a b carry) =
      (carry.toNat + Limbs.toNat a + Limbs.toNat b) % 2 ^ (32 * b.length) := by
  induction a generalizing b carry with
  | nil =>
    cases b with
    | nil => simp [addLoop, Nat.mod_one]
    | cons y ys => simp at h
  | cons x xs ih =>
    cases b with
    | nil => simp at h
    | cons y ys =>
      have hx := x.toNat_lt
      have hy := y.toNat_lt
      have hn : (carry + x.toUInt64 + y.toUInt64).toNat = carry.toNat + x.toNat + y.toNat := by
        simp only [UInt64.toNat_add, UInt32.toNat_toUInt64]
        omega
      have hsum : carry.toNat + Limbs.toNat (x :: xs) + Limbs.toNat (y :: ys) =
          carry.toNat + x.toNat + y.toNat + 2 ^ 32 * (Limbs.toNat xs + Limbs.toNat ys) := by
        rw [toNat_cons, toNat_cons]
        omega
      rw [length_cons, pow_width_succ, hsum, ← carry_mod]
      simp only [addLoop, toNat_cons, UInt64.toNat_toUInt32]
      rw [ih (Nat.succ.inj h) (by rw [toNat_high]; omega), toNat_high, hn, Nat.add_assoc (_ / _)]

theorem toNat_mulLoop (b32 : UInt32) (l : List UInt32) (hc : carry.toNat < 2 ^ 32) :
    Limbs.toNat (mulLoop b32 l carry) =
      (carry.toNat + b32.toNat * Limbs.toNat l) % 2 ^ (32 * l.length) := by
  induction l generalizing carry with
  | nil => simp [mulLoop, Nat.mod_one]
  | cons x xs ih =>
    have hprod := limb_mul_le b32 x
    have hn : (carry + b32.toUInt64 * x.toUInt64).toNat = carry.toNat + b32.toNat * x.toNat := by
      simp only [UInt64.toNat_add, UInt64.toNat_mul, UInt32.toNat_toUInt64]
      omega
    have hsum : carry.toNat + b32.toNat * Limbs.toNat (x :: xs) =
        carry.toNat + b32.toNat * x.toNat + 2 ^ 32 * (b32.toNat * Limbs.toNat xs) := by
      rw [toNat_cons]
      ring
    rw [length_cons, pow_width_succ, hsum, ← carry_mod]
    simp only [mulLoop, toNat_cons, UInt64.toNat_toUInt32]
    rw [ih (by rw [toNat_high]; omega), toNat_high, hn]

/-! ### The operators without a test for overflow -/

theorem toNat_complementLimbs (l : List UInt32) :
    Limbs.toNat (l.map (~~~ ·)) + Limbs.toNat l + 1 = 2 ^ (32 * l.length) := by
  induction l with
  | nil => simp
  | cons x xs ih =>
    have hx := x.toNat_lt
    have hnot : (~~~x).toNat = 2 ^ 32 - 1 - x.toNat := by
      simp [UInt32.toNat_not, UInt32.size]
    rw [length_cons, pow_width_succ, ← ih, map_cons, toNat_cons, Limbs.toNat_cons, hnot]
    omega

theorem toNat_complement :
    a.complement.toNat = 2 ^ (32 * WIDTH) - 1 - a.toNat := by
  have h := toNat_complementLimbs a.pn
  rw [a.length_pn] at h
  simp only [toNat, complement]
  omega

theorem toNat_negate :
    a.negate.toNat = (2 ^ (32 * WIDTH) - a.toNat) % 2 ^ (32 * WIDTH) := by
  have hi := toNat_incrementLoop a.complement.pn
  have hc := a.toNat_complement
  have hlt := a.toNat_lt
  rw [a.complement.length_pn] at hi
  unfold toNat at hc hlt ⊢
  unfold negate increment
  rw [hi, hc]
  congr 1
  omega

theorem toNat_add :
    (a.add b).toNat = (a.toNat + b.toNat) % 2 ^ (32 * WIDTH) := by
  have hlen : a.pn.length = b.pn.length := by rw [a.length_pn, b.length_pn]
  have h := toNat_addLoop hlen (by decide : (0 : UInt64).toNat < 2 ^ 32)
  rw [b.length_pn] at h
  unfold toNat add
  rw [h]
  simp

theorem toNat_sub {a b : BaseUint WIDTH} (h : b.toNat ≤ a.toNat) :
    (a.sub b).toNat = a.toNat - b.toNat := by
  have ha := a.toNat_lt
  unfold sub
  rw [toNat_add, toNat_negate]
  by_cases hb : b.toNat = 0
  · rw [hb, Nat.sub_zero, Nat.mod_self, Nat.add_zero, Nat.mod_eq_of_lt ha, Nat.sub_zero]
  · have hneg : 2 ^ (32 * WIDTH) - b.toNat < 2 ^ (32 * WIDTH) := by omega
    have hsum : a.toNat + (2 ^ (32 * WIDTH) - b.toNat) =
        a.toNat - b.toNat + 2 ^ (32 * WIDTH) := by omega
    rw [Nat.mod_eq_of_lt hneg, hsum, Nat.add_mod_right, Nat.mod_eq_of_lt (by omega)]

theorem toNat_mulUInt32 (b32 : UInt32) :
    (a.mulUInt32 b32).toNat = (a.toNat * b32.toNat) % 2 ^ (32 * WIDTH) := by
  have h := toNat_mulLoop b32 a.pn (by decide : (0 : UInt64).toNat < 2 ^ 32)
  rw [a.length_pn] at h
  unfold toNat mulUInt32
  rw [h, Nat.mul_comm]
  simp

/-! ### The product with its test for overflow -/

theorem multiplyRow_spec (aj : UInt32) {ps : List UInt32} (h : ps.length ≤ bs.length)
    (hc : carry.toNat < 2 ^ 32) :
    Limbs.toNat (multiplyRow aj ps bs carry).1 +
        2 ^ (32 * ps.length) * (multiplyRow aj ps bs carry).2.toNat =
      carry.toNat + Limbs.toNat ps + aj.toNat * Limbs.toNat (bs.take ps.length) := by
  induction ps generalizing bs carry with
  | nil => simp [multiplyRow]
  | cons p ps ih =>
    cases bs with
    | nil => simp at h
    | cons b bs =>
      have hp := p.toNat_lt
      have hprod := limb_mul_le aj b
      generalize hdef : carry + p.toUInt64 + aj.toUInt64 * b.toUInt64 = n
      have hn : n.toNat = carry.toNat + p.toNat + aj.toNat * b.toNat := by
        rw [← hdef]
        simp only [UInt64.toNat_add, UInt64.toNat_mul, UInt32.toNat_toUInt64]
        omega
      have hhigh := toNat_high n
      have hlen : ps.length ≤ bs.length := by simpa using h
      have hc' : (n >>> 32).toNat < 2 ^ 32 := by omega
      have hrow := ih hlen hc'
      have hlow := Nat.mod_add_div n.toNat (2 ^ 32)
      simp only [multiplyRow, hdef, toNat_cons, UInt64.toNat_toUInt32, length_cons,
        pow_width_succ, take_succ_cons]
      rw [hhigh] at hrow
      calc n.toNat % 2 ^ 32 + 2 ^ 32 * Limbs.toNat (multiplyRow aj ps bs (n >>> 32)).1 +
            2 ^ 32 * 2 ^ (32 * ps.length) * (multiplyRow aj ps bs (n >>> 32)).2.toNat
          = n.toNat % 2 ^ 32 + 2 ^ 32 * (Limbs.toNat (multiplyRow aj ps bs (n >>> 32)).1 +
            2 ^ (32 * ps.length) * (multiplyRow aj ps bs (n >>> 32)).2.toNat) := by ring
        _ = n.toNat % 2 ^ 32 + 2 ^ 32 * (n.toNat / 2 ^ 32) +
            2 ^ 32 * (Limbs.toNat ps + aj.toNat * Limbs.toNat (bs.take ps.length)) := by
          rw [hrow]
          ring
        _ = _ := by
          rw [hlow, hn]
          ring

/-- One row of the product, as long as there is room for it. -/
theorem multiplyRow_head (aj : UInt32) {b : List UInt32} (hpn : 0 < pn.length)
    (hb : pn.length ≤ b.length) :
    ∃ q qs, (multiplyRow aj pn b 0).1 = q :: qs ∧ qs.length + 1 = pn.length ∧
      q.toNat + 2 ^ 32 * Limbs.toNat qs +
          2 ^ (32 * pn.length) * (multiplyRow aj pn b 0).2.toNat =
        Limbs.toNat pn + aj.toNat * Limbs.toNat (b.take pn.length) := by
  have hspec := multiplyRow_spec aj hb (by decide : (0 : UInt64).toNat < 2 ^ 32)
  have hlen := length_multiplyRow aj pn b 0
  cases hrow : (multiplyRow aj pn b 0).1 with
  | nil =>
    rw [hrow] at hlen
    simp at hlen
    omega
  | cons q qs =>
    refine ⟨q, qs, rfl, by rw [← hlen, hrow]; rfl, ?_⟩
    rw [hrow] at hspec
    simpa using hspec

/--
What the product lacks: the carries out of its rows, which raise the flag, and the products with
the limbs of the second factor that a row leaves out, which are zero if the factors leave the
product enough limbs.
-/
theorem multiplyLoop_spec {b : List UInt32} {p q : Nat} (hq : Limbs.toNat b < 2 ^ (32 * q))
    (j : Nat) (has : as.length = pn.length) (hbs : bs.length = pn.length)
    (hb : pn.length ≤ b.length) (hp : Limbs.toNat as < 2 ^ (32 * p)) :
    ∃ carried omitted, Limbs.toNat (multiplyLoop b j as bs pn state).1 +
        2 ^ (32 * pn.length) * (carried + omitted) =
          Limbs.toNat pn + Limbs.toNat as * Limbs.toNat b ∧
      ((multiplyLoop b j as bs pn state).2.overflow = true ↔
        state.overflow = true ∨ carried ≠ 0) ∧
      (p = 0 ∨ p + q ≤ pn.length + 1 → omitted = 0) := by
  induction as generalizing j bs pn state p with
  | nil => exact ⟨0, 0, by simp [multiplyLoop], by simp [multiplyLoop], fun _ => rfl⟩
  | cons aj as ih =>
    cases bs with
    | nil => rw [← hbs] at has; simp at has
    | cons bj bs =>
      obtain ⟨r, rs, hrow, hlen, hspec⟩ := multiplyRow_head aj (by rw [← has]; simp) hb
      simp only [multiplyLoop, hrow, tail_cons, take_succ_cons, take_zero,
        cons_append, nil_append, Limbs.toNat_cons]
      generalize hnext : MultiplyState.mk _ _ _ = next
      obtain ⟨carried, omitted, hre, hf, hroom⟩ := @ih bs rs next (p - 1) (j + 1)
        (by rw [length_cons] at has; omega) (by rw [length_cons] at hbs; omega) (by omega)
        (toNat_lt_of_cons hp)
      generalize (multiplyRow aj pn b 0).2 = carry at hspec hnext
      have hs := toNat_eq_take_add_drop b pn.length
      refine ⟨carry.toNat + carried, aj.toNat * Limbs.toNat (b.drop pn.length) + omitted,
        ?_, ?_, ?_⟩
      · have hwd : 2 ^ (32 * pn.length) = 2 ^ 32 * 2 ^ (32 * rs.length) := by
          rw [← hlen, pow_width_succ]
        generalize Limbs.toNat (multiplyLoop b (j + 1) as bs rs next).1 = rest at hre
        calc
          _ = r.toNat + 2 ^ 32 * (rest + 2 ^ (32 * rs.length) * (carried + omitted)) +
              2 ^ (32 * pn.length) * carry.toNat +
              aj.toNat * (2 ^ (32 * pn.length) * Limbs.toNat (b.drop pn.length)) := by
            rw [hwd]
            ring
          _ = r.toNat + 2 ^ 32 * Limbs.toNat rs + 2 ^ (32 * pn.length) * carry.toNat +
              2 ^ 32 * (Limbs.toNat as * Limbs.toNat b) +
              aj.toNat * (2 ^ (32 * pn.length) * Limbs.toNat (b.drop pn.length)) := by
            rw [hre]
            ring
          _ = Limbs.toNat pn + 2 ^ 32 * (Limbs.toNat as * Limbs.toNat b) +
              aj.toNat * Limbs.toNat b := by
            rw [hspec, hs]
            ring
          _ = _ := by ring
      · have hr : next.overflow = true ↔ state.overflow = true ∨ carry.toNat ≠ 0 := by
          have hpos : carry > 0 ↔ carry.toNat ≠ 0 := by
            rw [gt_iff_lt, UInt64.lt_iff_toNat_lt, ← Nat.pos_iff_ne_zero]
            rfl
          rw [← hnext, ← hpos]
          by_cases hc : carry > 0
          · simp [hc]
          · simp [hc]
        rw [hf, hr, or_assoc]
        exact or_congr_right (by omega)
      · intro he
        rw [hroom (by omega), Nat.add_zero]
        cases p with
        | zero =>
          have hzero : aj.toNat = 0 := by rw [toNat_cons] at hp; omega
          rw [hzero, Nat.zero_mul]
        | succ p =>
          rw [toNat_drop_eq_zero (lt_of_lt_of_le hq (Nat.pow_le_pow_right (by decide) (by omega))),
            Nat.mul_zero]

/-- The index of the last limb that is not zero, as the loop of `MultiplyBy` finds it. -/
def highestNonzero : Nat → List UInt32 → Nat → Nat
  | _, [], highest => highest
  | j, x :: xs, highest => highestNonzero (j + 1) xs (if x ≠ 0 then j else highest)

theorem multiplyLoop_highestNonzero (b : List UInt32) (j : Nat) (h : as.length = bs.length)
    (pn : List UInt32) (state : MultiplyState) :
    let result := (multiplyLoop b j as bs pn state).2
    result.highestNonzeroA = highestNonzero j as state.highestNonzeroA ∧
      result.highestNonzeroB = highestNonzero j bs state.highestNonzeroB := by
  induction as generalizing j bs pn state with
  | nil =>
    obtain rfl := length_eq_zero_iff.mp h.symm
    exact ⟨rfl, rfl⟩
  | cons aj as ih =>
    cases bs with
    | nil => simp at h
    | cons bj bs => exact ih (j + 1) (Nat.succ.inj h) _ _

/-- The last limb that is not zero gives the size of the number. -/
theorem highestNonzero_spec (j : Nat) (l : List UInt32) (highest : Nat) :
    Limbs.toNat l = 0 ∧ highestNonzero j l highest = highest ∨
      ∃ i < l.length, highestNonzero j l highest = j + i ∧ 2 ^ (32 * i) ≤ Limbs.toNat l ∧
        Limbs.toNat l < 2 ^ (32 * (i + 1)) := by
  induction l generalizing j highest with
  | nil => exact .inl ⟨rfl, rfl⟩
  | cons x xs ih =>
    have hx := x.toNat_lt
    obtain ⟨hzero, hxs⟩ | ⟨i, hi, hxs, hlow, hhigh⟩ := ih (j + 1) (if x ≠ 0 then j else highest)
    · by_cases hne : x = 0
      · left
        rw [if_neg (by simp [hne])] at hxs
        refine ⟨?_, ?_⟩
        · rw [toNat_cons, hzero, hne]
          rfl
        · unfold highestNonzero
          rw [if_neg (by simp [hne]), hxs]
      · right
        rw [if_pos hne] at hxs
        have hpos : x.toNat ≠ 0 := fun h => hne (UInt32.toNat_inj.mp h)
        refine ⟨0, by simp, ?_, ?_, ?_⟩
        · unfold highestNonzero
          rw [if_pos hne, hxs]
          rfl
        · rw [toNat_cons, hzero]
          omega
        · rw [toNat_cons, hzero]
          omega
    · right
      refine ⟨i + 1, by simpa using hi, ?_, ?_, ?_⟩
      · unfold highestNonzero
        omega
      · rw [toNat_cons, pow_width_succ]
        omega
      · rw [toNat_cons, pow_width_succ]
        calc x.toNat + 2 ^ 32 * Limbs.toNat xs < 2 ^ 32 * (Limbs.toNat xs + 1) := by omega
          _ ≤ 2 ^ 32 * 2 ^ (32 * (i + 1)) := Nat.mul_le_mul_left _ hhigh

/-- What `MultiplyBy` knows of a factor: it is below the limb after the highest, and if
that is not the lowest one, then it reaches it. -/
theorem highestNonzero_bounds (h : 0 < WIDTH) :
    a.toNat < 2 ^ (32 * (highestNonzero 0 a.pn 0 + 1)) ∧
      highestNonzero 0 a.pn 0 < WIDTH ∧
      (highestNonzero 0 a.pn 0 = 0 ∨ 2 ^ (32 * highestNonzero 0 a.pn 0) ≤ a.toNat) := by
  obtain ⟨hzero, hh⟩ | ⟨i, hi, hh, hlow, hhigh⟩ := highestNonzero_spec 0 a.pn 0
  · rw [hh]
    unfold toNat
    rw [hzero]
    exact ⟨Nat.two_pow_pos _, h, .inl rfl⟩
  · rw [hh, Nat.zero_add]
    rw [a.length_pn] at hi
    exact ⟨hhigh, hi, .inr hlow⟩

/-- **`MultiplyBy` reports that the product fits exactly when it does**, and then it is exact. -/
theorem multiplyBy_spec (hwd : 0 < WIDTH) :
    ((a.multiplyBy b).1 = true ↔ a.toNat * b.toNat < 2 ^ (32 * WIDTH)) ∧
      ((a.multiplyBy b).1 = true → (a.multiplyBy b).2.toNat = a.toNat * b.toNat) := by
  have hlen : a.pn.length = b.pn.length := by rw [a.length_pn, b.length_pn]
  obtain ⟨haHigh, haWidth, haLow⟩ := a.highestNonzero_bounds hwd
  obtain ⟨hbHigh, hbWidth, hbLow⟩ := b.highestNonzero_bounds hwd
  obtain ⟨carried, omitted, hsum, hf, hroom⟩ := @multiplyLoop_spec b.pn
    (List.replicate WIDTH 0) a.pn {} b.pn _ _ hbHigh 0 (by simp [a.length_pn])
    (by simp [b.length_pn]) (by simp [b.length_pn]) haHigh
  rw [length_replicate] at hsum hroom
  rw [Limbs.toNat_replicate_zero, Nat.zero_add] at hsum
  have hr : (a.multiplyBy b).1 = true ↔
      carried = 0 ∧ highestNonzero 0 a.pn 0 + highestNonzero 0 b.pn 0 < WIDTH := by
    simp [multiplyBy, multiplyLoop_highestNonzero _ _ hlen, ← Bool.not_eq_true, hf]
  have he : (a.multiplyBy b).1 = true → (a.multiplyBy b).2.toNat = a.toNat * b.toNat := by
    intro h
    obtain ⟨hc, hless⟩ := hr.mp h
    rw [hc, hroom (by omega)] at hsum
    exact hsum
  refine ⟨⟨fun h => he h ▸ (a.multiplyBy b).2.toNat_lt, fun hfits => hr.mpr ⟨?_, ?_⟩⟩,
    he⟩
  · by_contra hne
    have hpos : 2 ^ (32 * WIDTH) * 1 ≤ 2 ^ (32 * WIDTH) * (carried + omitted) :=
      Nat.mul_le_mul_left _ (by omega)
    unfold toNat at hfits
    omega
  · by_contra hge
    have hprod := Nat.mul_le_mul (haLow.resolve_left (by omega)) (hbLow.resolve_left (by omega))
    rw [← pow_add, ← Nat.mul_add] at hprod
    have hpow : 2 ^ (32 * WIDTH) ≤
        2 ^ (32 * (highestNonzero 0 a.pn 0 + highestNonzero 0 b.pn 0)) :=
      Nat.pow_le_pow_right (by decide) (by omega)
    omega

/-! ### Shifts -/

theorem toNat_orLimb (h : i < WIDTH) (x : UInt32) :
    (a.orLimb i x).toNat = a.toNat ||| (x.toNat <<< (32 * i)) :=
  toNat_modify_or (by rw [a.length_pn]; exact h) x

theorem toNat_ofNat_mod_32 (h : shift < 32) : (UInt32.ofNat shift).toNat % 32 = shift := by
  rw [UInt32.toNat_ofNat']
  omega

theorem toNat_bit (h : shift < 32) : (1 <<< UInt32.ofNat shift : UInt32).toNat = 2 ^ shift := by
  rw [UInt32.toNat_shiftLeft, toNat_ofNat_mod_32 h, UInt32.toNat_one, Nat.one_shiftLeft]
  exact Nat.mod_eq_of_lt (Nat.pow_lt_pow_right (by decide) h)

theorem limb_add_eq_or {low : Nat} (h : low < 2 ^ 32) (high : Nat) :
    low + 2 ^ 32 * high = high <<< 32 ||| low := by
  rw [← Nat.shiftLeft_add_eq_or_of_lt h, Nat.shiftLeft_eq, Nat.mul_comm, Nat.add_comm]

/-- A limb that is shifted from its place takes up two limbs. -/
theorem limb_shiftLeft (x : UInt32) (h : shift < 32) (i : Nat) :
    x.toNat <<< (32 * i + shift) = (x.toNat >>> (32 - shift)) <<< (32 * (i + 1)) |||
      (x <<< UInt32.ofNat shift).toNat <<< (32 * i) := by
  have hpow : 2 ^ 32 = 2 ^ shift * 2 ^ (32 - shift) := by
    rw [← pow_add]
    congr 1
    omega
  have hdiv : x.toNat * 2 ^ shift / 2 ^ 32 = x.toNat / 2 ^ (32 - shift) := by
    rw [hpow, Nat.mul_comm x.toNat, Nat.mul_div_mul_left _ _ (Nat.two_pow_pos _)]
  have hnext : 32 * (i + 1) = 32 + 32 * i := by ring
  rw [hnext, Nat.shiftLeft_add _ 32, ← Nat.shiftLeft_or_distrib,
    ← limb_add_eq_or (x <<< UInt32.ofNat shift).toNat_lt, UInt32.toNat_shiftLeft,
    toNat_ofNat_mod_32 h, Nat.shiftRight_eq_div_pow, ← hdiv, ← Nat.shiftLeft_eq, Nat.mod_add_div,
    Nat.add_comm, Nat.shiftLeft_add]

theorem limb_lt {x : Nat} (h : x < 2 ^ 32) {n : Nat} (hn : 32 * (i + 1) ≤ n) :
    x * 2 ^ (32 * i) < 2 ^ n := by
  calc x * 2 ^ (32 * i) < 2 ^ 32 * 2 ^ (32 * i) :=
        Nat.mul_lt_mul_of_pos_right h (Nat.two_pow_pos _)
    _ = 2 ^ (32 * (i + 1)) := (pow_width_succ i).symm
    _ ≤ 2 ^ n := Nat.pow_le_pow_right (by decide) hn

theorem limb_mod {x : Nat} (h : x < 2 ^ 32) (i : Nat) :
    (x <<< (32 * i)) % 2 ^ (32 * WIDTH) = if i < WIDTH then x <<< (32 * i) else 0 := by
  rw [Nat.shiftLeft_eq]
  split
  · rename_i hi
    exact Nat.mod_eq_of_lt (limb_lt h (by omega))
  · rename_i hi
    apply Nat.mod_eq_zero_of_dvd
    exact Dvd.dvd.mul_left (Nat.pow_dvd_pow 2 (by omega)) x

/-- One round of `operator<<=` or-s in a limb where it belongs, as far as there is room. -/
theorem toNat_shiftLeftStep (a r : BaseUint WIDTH) (k : Nat) (h : shift < 32) (i : Nat) :
    (a.shiftLeftStep k shift r i).toNat =
      r.toNat ||| ((a.limb i).toNat <<< (32 * i) <<< (32 * k + shift)) % 2 ^ (32 * WIDTH) := by
  have hhigh : (a.limb i).toNat >>> (32 - shift) < 2 ^ 32 :=
    lt_of_le_of_lt (Nat.shiftRight_le _ _) (a.limb i).toNat_lt
  have hp : (a.limb i).toNat <<< (32 * i) <<< (32 * k + shift) =
      ((a.limb i).toNat >>> (32 - shift)) <<< (32 * (i + k + 1)) |||
        (a.limb i <<< UInt32.ofNat shift).toNat <<< (32 * (i + k)) := by
    have hsum : 32 * i + (32 * k + shift) = 32 * (i + k) + shift := by ring
    rw [← Nat.shiftLeft_add, hsum, limb_shiftLeft _ h]
  rw [hp, Nat.or_mod_two_pow, limb_mod hhigh, limb_mod (UInt32.toNat_lt _)]
  -- The higher limb is skipped if there is no room or nothing to shift into it.
  have hu : (if i + k + 1 < WIDTH ∧ shift ≠ 0 then
      r.orLimb (i + k + 1) (a.limb i >>> UInt32.ofNat (32 - shift)) else r).toNat =
      r.toNat ||| if i + k + 1 < WIDTH then
        ((a.limb i).toNat >>> (32 - shift)) <<< (32 * (i + k + 1)) else 0 := by
    by_cases hroom : i + k + 1 < WIDTH
    · by_cases hs : shift = 0
      · have hn : (a.limb i).toNat >>> 32 = 0 := by
          rw [Nat.shiftRight_eq_div_pow]
          exact Nat.div_eq_of_lt (a.limb i).toNat_lt
        subst hs
        rw [if_neg (by simp), if_pos hroom, Nat.sub_zero, hn, Nat.zero_shiftLeft, Nat.or_zero]
      · rw [if_pos ⟨hroom, hs⟩, if_pos hroom, toNat_orLimb _ hroom,
          UInt32.toNat_shiftRight, toNat_ofNat_mod_32 (by omega)]
    · rw [if_neg (fun h => hroom h.1), if_neg hroom, Nat.or_zero]
  unfold shiftLeftStep
  by_cases hroom : i + k < WIDTH
  · simp only [hroom, if_true]
    rw [toNat_orLimb _ hroom, hu, Nat.or_assoc]
  · simp only [hroom, if_false]
    rw [hu, Nat.or_zero]

/-- A loop that or-s in what a function makes of each limb, if the function takes bits apart. -/
theorem toNat_foldl_or {step : BaseUint WIDTH → Nat → BaseUint WIDTH}
    {f : Nat → Nat} (hzero : f 0 = 0) (hor : ∀ m n, f (m ||| n) = f m ||| f n)
    (hstep : ∀ r, ∀ i < WIDTH, (step r i).toNat = r.toNat ||| f ((a.limb i).toNat <<< (32 * i))) :
    ((List.range WIDTH).foldl step zero).toNat = f a.toNat := by
  have hloop : ∀ n ≤ WIDTH,
      ((List.range n).foldl step zero).toNat = f (Limbs.toNat (a.pn.take n)) := by
    intro n
    induction n with
    | zero => simp [hzero]
    | succ n ih =>
      intro hn
      rw [range_succ, foldl_append, foldl_cons, foldl_nil, hstep _ _ hn,
        ih (by omega), toNat_take_succ_eq_or (by rw [a.length_pn]; omega), hor]
      rfl
  have h := hloop WIDTH (Nat.le_refl _)
  rw [take_width] at h
  exact h

/-- **`operator<<=`** drops what leaves the number. -/
theorem toNat_shiftLeft (shift : Nat) :
    (a.shiftLeft shift).toNat = (a.toNat <<< shift) % 2 ^ (32 * WIDTH) := by
  refine a.toNat_foldl_or (f := fun n => (n <<< shift) % 2 ^ (32 * WIDTH)) (by simp) ?_ ?_
  · intro m n
    rw [Nat.shiftLeft_or_distrib, Nat.or_mod_two_pow]
  · intro r i _
    rw [toNat_shiftLeftStep _ _ _ (Nat.mod_lt _ (by decide)), Nat.div_add_mod]

theorem toNat_shiftRightStep (a r : BaseUint WIDTH) (k : Nat) (h : shift < 32) (hi : i < WIDTH) :
    (a.shiftRightStep k shift r i).toNat =
      r.toNat ||| (a.limb i).toNat <<< (32 * i) >>> (32 * k + shift) := by
  unfold shiftRightStep
  by_cases hk : k ≤ i
  · have hs : 32 * i = 32 * (i - k) + 32 * k := by omega
    have hm : (a.limb i).toNat <<< (32 * i) >>> (32 * k + shift) =
        (a.limb i).toNat <<< (32 * (i - k)) >>> shift := by
      rw [hs, Nat.shiftLeft_add, Nat.shiftRight_add, Nat.shiftLeft_shiftRight]
    rw [hm]
    simp only [hk, if_true]
    rw [toNat_orLimb _ (by omega), UInt32.toNat_shiftRight, toNat_ofNat_mod_32 h]
    by_cases hlow : k + 1 ≤ i ∧ shift ≠ 0
    · have hback : 32 - (32 - shift) = shift := by omega
      have hnext : i - k - 1 + 1 = i - k := by omega
      have hp : 32 * (i - k) - shift = 32 * (i - k - 1) + (32 - shift) := by omega
      rw [if_pos hlow, toNat_orLimb _ (by omega), ← Nat.shiftLeft_sub _ (by omega), hp,
        limb_shiftLeft _ (by omega), hback, hnext, Nat.or_assoc, Nat.or_comm (_ <<< (32 * (i - k)))]
    · rw [if_neg hlow]
      by_cases hsh : shift = 0
      · rw [hsh, Nat.shiftRight_zero, Nat.shiftRight_zero]
      · have hik : i - k = 0 := by omega
        rw [hik, Nat.mul_zero, Nat.shiftLeft_zero, Nat.shiftLeft_zero]
  · have hn : (a.limb i).toNat <<< (32 * i) >>> (32 * k + shift) = 0 := by
      rw [Nat.shiftLeft_eq, Nat.shiftRight_eq_div_pow]
      exact Nat.div_eq_of_lt (limb_lt (a.limb i).toNat_lt (by omega))
    rw [if_neg hk, if_neg (by omega), hn, Nat.or_zero]

/-- **`operator>>=`**. -/
theorem toNat_shiftRight (shift : Nat) :
    (a.shiftRight shift).toNat = a.toNat >>> shift := by
  refine a.toNat_foldl_or (f := (· >>> shift)) (Nat.zero_shiftRight _)
    (fun _ _ => Nat.shiftRight_or_distrib) ?_
  intro r i hi
  rw [toNat_shiftRightStep _ _ _ (Nat.mod_lt _ (by decide)) hi, Nat.div_add_mod]

/-! ### Comparison -/

theorem toNat_take_succ (h : i < WIDTH) :
    Limbs.toNat (a.pn.take (i + 1)) = Limbs.toNat (a.pn.take i) + 2 ^ (32 * i) * (a.limb i).toNat :=
  Limbs.toNat_take_succ (by rw [a.length_pn]; exact h)

/-- The highest limb that differs decides. -/
theorem take_succ_lt {a b : BaseUint WIDTH} (hi : i < WIDTH) (h : a.limb i < b.limb i) :
    Limbs.toNat (a.pn.take (i + 1)) < Limbs.toNat (b.pn.take (i + 1)) := by
  have hlow := Limbs.toNat_take_lt a.pn i
  have hmul : 2 ^ (32 * i) * ((a.limb i).toNat + 1) ≤ 2 ^ (32 * i) * (b.limb i).toNat :=
    Nat.mul_le_mul_left _ h
  rw [a.toNat_take_succ hi, b.toNat_take_succ hi]
  rw [Nat.mul_succ] at hmul
  omega

theorem compareLoop_spec (h : i ≤ WIDTH) :
    (a.compareLoop b i = -1 ∧ Limbs.toNat (a.pn.take i) < Limbs.toNat (b.pn.take i)) ∨
      (a.compareLoop b i = 0 ∧ Limbs.toNat (a.pn.take i) = Limbs.toNat (b.pn.take i)) ∨
      (a.compareLoop b i = 1 ∧ Limbs.toNat (b.pn.take i) < Limbs.toNat (a.pn.take i)) := by
  induction i with
  | zero => exact .inr (.inl ⟨rfl, rfl⟩)
  | succ i ih =>
    unfold compareLoop
    by_cases hlt : a.limb i < b.limb i
    · rw [if_pos hlt]
      exact .inl ⟨rfl, take_succ_lt h hlt⟩
    · by_cases hgt : a.limb i > b.limb i
      · rw [if_neg hlt, if_pos hgt]
        exact .inr (.inr ⟨rfl, take_succ_lt h hgt⟩)
      · have heq : a.limb i = b.limb i :=
          UInt32.le_antisymm (UInt32.not_lt.mp hgt) (UInt32.not_lt.mp hlt)
        rw [if_neg hlt, if_neg hgt, a.toNat_take_succ h, b.toNat_take_succ h, heq]
        omega

/-- `operator<`. -/
theorem compareTo_neg_iff : a.compareTo b < 0 ↔ a.toNat < b.toNat := by
  have h := compareLoop_spec a b (Nat.le_refl WIDTH)
  rw [take_width, take_width] at h
  unfold compareTo toNat
  omega

/-- `operator>`. -/
theorem compareTo_pos_iff : a.compareTo b > 0 ↔ b.toNat < a.toNat := by
  have h := compareLoop_spec a b (Nat.le_refl WIDTH)
  rw [take_width, take_width] at h
  unfold compareTo toNat
  omega

/-! ### The highest bit -/

/-- The number of bits that a limb has below the given one, which is one at least. -/
theorem highestBit_spec {x : UInt32} (hx : x ≠ 0) {n : Nat} (hn : n < 32)
    (h : x.toNat < 2 ^ (n + 1)) : highestBit x n = x.toNat.size := by
  have hpos : x.toNat ≠ 0 := fun hzero => hx (UInt32.toNat_inj.mp hzero)
  induction n with
  | zero =>
    have hone : x.toNat = 1 := by omega
    rw [hone]
    rfl
  | succ n ih =>
    have hbit : (x &&& (1 <<< UInt32.ofNat (n + 1)) ≠ 0) ↔ x.toNat.testBit (n + 1) = true := by
      rw [ne_eq, ← UInt32.toNat_inj, UInt32.toNat_and, toNat_bit hn, Nat.and_two_pow,
        UInt32.toNat_zero]
      cases x.toNat.testBit (n + 1) with
      | false => simp
      | true => simp
    unfold highestBit
    split
    · rename_i hset
      have hge := Nat.ge_two_pow_of_testBit (hbit.mp hset)
      apply Nat.le_antisymm
      · exact Nat.lt_size.mpr hge
      · exact Nat.size_le.mpr h
    · rename_i hclr
      apply ih (by omega)
      apply Nat.lt_pow_two_of_testBit
      intro i hi
      by_cases heq : i = n + 1
      · subst heq
        exact Bool.eq_false_iff.mpr fun hset => hclr (hbit.mpr hset)
      · exact Nat.testBit_lt_two_pow
          (lt_of_lt_of_le h (Nat.pow_le_pow_right (by decide) (by omega)))

theorem bitsLoop_spec {n : Nat} (h : n ≤ WIDTH) :
    a.bitsLoop n = (Limbs.toNat (a.pn.take n)).size := by
  induction n with
  | zero => simp [bitsLoop]
  | succ pos ih =>
    rw [a.toNat_take_succ h]
    unfold bitsLoop
    split
    · rename_i hne
      have hpos : (a.limb pos).toNat ≠ 0 := fun hzero => hne (UInt32.toNat_inj.mp hzero)
      have hlow := toNat_take_lt a.pn pos
      rw [highestBit_spec hne (by decide) (a.limb pos).toNat_lt]
      apply Nat.le_antisymm
      · have hsize : 0 < (a.limb pos).toNat.size := Nat.size_pos.mpr (Nat.pos_of_ne_zero hpos)
        have hge : 2 ^ ((a.limb pos).toNat.size - 1) ≤ (a.limb pos).toNat :=
          Nat.lt_size.mp (by omega)
        have hmul := Nat.mul_le_mul_left (2 ^ (32 * pos)) hge
        rw [← pow_add] at hmul
        have hlt : 32 * pos + ((a.limb pos).toNat.size - 1) <
            (Limbs.toNat (a.pn.take pos) + 2 ^ (32 * pos) * (a.limb pos).toNat).size :=
          Nat.lt_size.mpr (by omega)
        omega
      · have hlt : (a.limb pos).toNat + 1 ≤ 2 ^ (a.limb pos).toNat.size :=
          Nat.size_le.mp (Nat.le_refl _)
        have hmul := Nat.mul_le_mul_left (2 ^ (32 * pos)) hlt
        rw [← pow_add, Nat.mul_succ] at hmul
        exact Nat.size_le.mpr (by omega)
    · rename_i hzero
      rw [not_ne_iff.mp hzero, ih (by omega), UInt32.toNat_zero, Nat.mul_zero, Nat.add_zero]

/-- **`bits`** is the number of binary digits. -/
theorem bits_eq_size : a.bits = a.toNat.size := by
  have h := a.bitsLoop_spec (Nat.le_refl WIDTH)
  rw [take_width] at h
  exact h

/-! ### Division -/

/-- Or-ing in a bit above which all of the quotient lies. -/
theorem toNat_orBit {quotient : BaseUint WIDTH} (hs : shift < 32 * WIDTH)
    (hdvd : 2 ^ (shift + 1) ∣ quotient.toNat) :
    (quotient.orLimb (shift / 32) (1 <<< UInt32.ofNat (shift % 32))).toNat =
      quotient.toNat + 2 ^ shift := by
  have hbit := toNat_bit (Nat.mod_lt shift (by decide : 0 < 32))
  have hp : 2 ^ (shift % 32) <<< (32 * (shift / 32)) = 2 ^ shift := by
    rw [Nat.shiftLeft_eq, ← pow_add, Nat.add_comm, Nat.div_add_mod]
  obtain ⟨q, hq⟩ := hdvd
  rw [toNat_orLimb _ (by omega), hbit, hp, hq]
  have hor := Nat.shiftLeft_add_eq_or_of_lt
    (Nat.pow_lt_pow_right (by decide) (Nat.lt_succ_self shift) : 2 ^ shift < 2 ^ (shift + 1)) q
  rw [Nat.shiftLeft_eq, Nat.mul_comm] at hor
  exact hor.symm

/--
The rounds of the division.  The divisor stands at the bit that the round decides, the
rest of the dividend is below twice that, and the bits of the quotient from there down
are still zero.
-/
theorem toNat_divideLoop {d : Nat} (hd : 0 < d) (shift : Nat) {num div quotient : BaseUint WIDTH}
    (hsh : shift ≤ 32 * WIDTH) (hdiv : shift ≠ 0 → div.toNat = d * 2 ^ (shift - 1))
    (hnum : num.toNat < d * 2 ^ shift) (hdvd : 2 ^ shift ∣ quotient.toNat) :
    (divideLoop shift num div quotient).toNat = quotient.toNat + num.toNat / d := by
  induction shift generalizing num div quotient with
  | zero =>
    rw [pow_zero, Nat.mul_one] at hnum
    rw [divideLoop, Nat.div_eq_of_lt hnum, Nat.add_zero]
  | succ shift ih =>
    have hdiv' : div.toNat = d * 2 ^ shift := hdiv (Nat.succ_ne_zero _)
    have hhalf : shift ≠ 0 → (div.shiftRight 1).toNat = d * 2 ^ (shift - 1) := by
      intro hne
      have hpow : d * 2 ^ shift = d * 2 ^ (shift - 1) * 2 := by
        rw [Nat.mul_assoc, ← pow_succ, Nat.sub_add_cancel (Nat.one_le_iff_ne_zero.mpr hne)]
      rw [toNat_shiftRight, hdiv', hpow, Nat.shiftRight_eq_div_pow, pow_one,
        Nat.mul_div_cancel _ (by decide)]
    have hdvd' : 2 ^ shift ∣ quotient.toNat :=
      Nat.dvd_trans (Nat.pow_dvd_pow 2 (Nat.le_succ _)) hdvd
    have hdo : d * 2 ^ (shift + 1) = d * 2 ^ shift + d * 2 ^ shift := by
      ring
    unfold divideLoop
    by_cases hge : num.compareTo div ≥ 0
    · have hle : div.toNat ≤ num.toNat :=
        not_lt.mp fun hlt => not_lt.mpr hge ((compareTo_neg_iff num div).mpr hlt)
      have hsub := toNat_sub hle
      have hbit := toNat_orBit (by omega) hdvd
      have hquot : num.toNat / d = 2 ^ shift + (num.sub div).toNat / d := by
        have hs : num.toNat = d * 2 ^ shift + (num.sub div).toNat := by omega
        rw [hs, Nat.mul_add_div hd]
      rw [if_pos hge, ih (by omega) hhalf (by omega)
        (by rw [hbit]; exact Nat.dvd_add hdvd' (Nat.dvd_refl _)), hbit, hquot, Nat.add_assoc]
    · have hlt : num.toNat < div.toNat := (compareTo_neg_iff num div).mp (not_le.mp hge)
      rw [if_neg hge, ih (by omega) hhalf (by omega) hdvd']

/-- **`operator/=` divides.** -/
theorem divide_spec {b : BaseUint WIDTH} (hb : b.toNat ≠ 0) :
    ∃ quotient, a.divide b = .ok quotient ∧ quotient.toNat = a.toNat / b.toNat := by
  have hbpos : 0 < b.toNat := Nat.pos_of_ne_zero hb
  have hbs : 0 < b.toNat.size := Nat.size_pos.mpr hbpos
  have hblow : 2 ^ (b.toNat.size - 1) ≤ b.toNat := Nat.lt_size.mp (by omega)
  have ha : a.toNat < 2 ^ a.toNat.size := Nat.lt_size_self _
  unfold divide
  simp only [bits_eq_size]
  rw [if_neg (by omega)]
  by_cases hs : b.toNat.size > a.toNat.size
  · rw [if_pos hs]
    refine ⟨zero, rfl, ?_⟩
    have hlt : a.toNat < b.toNat :=
      lt_of_lt_of_le ha (le_trans (Nat.pow_le_pow_right (by decide) (by omega)) hblow)
    rw [toNat_zero, Nat.div_eq_of_lt hlt]
  · rw [if_neg hs]
    refine ⟨_, rfl, ?_⟩
    have haw : a.toNat.size ≤ 32 * WIDTH := Nat.size_le.mpr a.toNat_lt
    have hsh : (b.shiftLeft (a.toNat.size - b.toNat.size)).toNat =
        b.toNat * 2 ^ (a.toNat.size - b.toNat.size) := by
      rw [toNat_shiftLeft, Nat.shiftLeft_eq]
      apply Nat.mod_eq_of_lt
      calc b.toNat * 2 ^ (a.toNat.size - b.toNat.size)
          < 2 ^ b.toNat.size * 2 ^ (a.toNat.size - b.toNat.size) :=
            Nat.mul_lt_mul_of_pos_right (Nat.lt_size_self _) (Nat.two_pow_pos _)
        _ = 2 ^ a.toNat.size := by
          rw [← pow_add]
          congr 1
          omega
        _ ≤ 2 ^ (32 * WIDTH) := Nat.pow_le_pow_right (by decide) haw
    have hnum : a.toNat < b.toNat * 2 ^ (a.toNat.size - b.toNat.size + 1) := by
      calc a.toNat < 2 ^ a.toNat.size := ha
        _ = 2 ^ (b.toNat.size - 1) * 2 ^ (a.toNat.size - b.toNat.size + 1) := by
          rw [← pow_add]
          congr 1
          omega
        _ ≤ _ := Nat.mul_le_mul_right _ hblow
    rw [toNat_divideLoop hbpos _ (by omega) (fun _ => hsh) hnum (by simp), toNat_zero,
      Nat.zero_add]

/-- The product and the quotient of 256-bit numbers are exact, and a product that does not fit is
reported. -/
theorem multiplyBy_divide_exact (a b : BaseUint 8) :
    ((a.multiplyBy b).1 = true ↔ a.toNat * b.toNat < 2 ^ 256) ∧
      ((a.multiplyBy b).1 = true → (a.multiplyBy b).2.toNat = a.toNat * b.toNat) ∧
      (0 < b.toNat →
        ∃ quotient, a.divide b = .ok quotient ∧ quotient.toNat = a.toNat / b.toNat) := by
  obtain ⟨hfits, hprod⟩ := multiplyBy_spec a b (by decide)
  exact ⟨hfits, hprod, fun hb => divide_spec a hb.ne'⟩

end BaseUint

end Divi
