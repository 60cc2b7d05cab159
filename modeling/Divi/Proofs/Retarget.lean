/-
The difficulty of the next proof-of-stake block.

`GetCompact` rounds a number down to its leading bytes, and `SetCompact` gives back what it was
rounded to.  The retargeting multiplies the
last target with a factor that is narrowed to 32 bits, in a product of 256 bits, so it
follows the formula of the unbounded integers as long as neither wraps.  Once one does,
the formula is at the limit or well above what the wrapped product gives, and the two
only meet where both encode the limit.
-/
import Divi.Lib.ByteFloat
import Divi.Pow
import Divi.Proofs.Uint256

namespace Divi

open BaseUint ByteFloat

variable {WIDTH spacing : Nat} {pindexLast : WorkIndex}

theorem exponent_le {n : Nat} (h : n < 2 ^ 256) : exponent n ≤ 33 := by
  have hsize : n.size ≤ 256 := Nat.size_le.mpr h
  unfold exponent bytes
  split <;> omega

theorem encode_lt {n : Nat} (h : n < 2 ^ 256) : encode n < 2 ^ 32 := by
  have hman := mantissa_lt n
  have hexp := exponent_le h
  unfold encode
  omega

namespace BaseUint

/-! ### The compact encoding -/

theorem toNat_getLow64 {a : BaseUint WIDTH} (hwd : 2 ≤ WIDTH) (h : a.toNat < 2 ^ 64) :
    a.getLow64.toNat = a.toNat := by
  have hlow := (a.limb 0).toNat_lt
  have htake : Limbs.toNat (a.pn.take 2) = a.toNat := Limbs.toNat_take_eq h
  rw [a.toNat_take_succ (by omega), a.toNat_take_succ (by omega)] at htake
  have hs : (a.limb 1).toNat <<< 32 % 2 ^ 64 = (a.limb 1).toNat <<< 32 := by
    omega
  have h32 : (32 : UInt64).toNat % 64 = 32 := rfl
  rw [getLow64, UInt64.toNat_or, UInt64.toNat_shiftLeft, UInt32.toNat_toUInt64,
    UInt32.toNat_toUInt64, h32, hs, Nat.or_comm, ← limb_add_eq_or hlow, ← htake]
  simp

/-- The leading bytes, as `GetCompact` takes them out of the number. -/
def leadingBytes (a : BaseUint 8) : UInt32 :=
  if (a.bits + 7) / 8 ≤ 3 then
    (a.getLow64 <<< UInt64.ofNat (8 * (3 - (a.bits + 7) / 8))).toUInt32
  else (a.shiftRight (8 * ((a.bits + 7) / 8 - 3))).getLow64.toUInt32

theorem toNat_leadingBytes (a : BaseUint 8) : a.leadingBytes.toNat = lead a.toNat := by
  have hlead := lead_lt a.toNat
  have hb : (a.bits + 7) / 8 = bytes a.toNat := by
    rw [bits_eq_size]
    rfl
  unfold leadingBytes
  rw [hb]
  by_cases h : bytes a.toNat ≤ 3
  · have hpow : 2 ^ 24 = 2 ^ (8 * (3 - bytes a.toNat)) * 2 ^ (8 * bytes a.toNat) := by
      rw [← pow_add]
      congr 1
      omega
    have he : lead a.toNat = a.toNat <<< (8 * (3 - bytes a.toNat)) := by
      rw [lead, hpow, ← Nat.mul_assoc, Nat.mul_div_cancel _ (Nat.two_pow_pos _), Nat.shiftLeft_eq]
    have hs : a.toNat < 2 ^ 64 := by
      have hsize : a.toNat.size ≤ 64 := le_trans (size_le_bytes a.toNat) (by omega)
      exact Nat.size_le.mp hsize
    have hsh : (UInt64.ofNat (8 * (3 - bytes a.toNat))).toNat % 64 =
        8 * (3 - bytes a.toNat) := by
      rw [UInt64.toNat_ofNat']
      omega
    rw [if_pos h, UInt64.toNat_toUInt32, UInt64.toNat_shiftLeft, hsh,
      toNat_getLow64 (by decide) hs, ← he]
    omega
  · have hpow : 2 ^ (8 * bytes a.toNat) = 2 ^ (8 * (bytes a.toNat - 3)) * 2 ^ 24 := by
      rw [← pow_add]
      congr 1
      omega
    have he : (a.shiftRight (8 * (bytes a.toNat - 3))).toNat = lead a.toNat := by
      rw [toNat_shiftRight, Nat.shiftRight_eq_div_pow, lead, hpow,
        Nat.mul_div_mul_right _ _ (Nat.two_pow_pos _)]
    rw [if_neg h, UInt64.toNat_toUInt32, toNat_getLow64 (by decide) (by omega), he]
    omega

theorem signBit_iff (x : UInt32) : (x &&& 0x00800000) != 0 ↔ ¬ x.toNat % 2 ^ 24 < 2 ^ 23 := by
  have hmask : (0x00800000 : UInt32).toNat = 2 ^ 23 := rfl
  have hbit : (x &&& 0x00800000).toNat = (x.toNat.testBit 23).toNat * 2 ^ 23 := by
    rw [UInt32.toNat_and, hmask, Nat.and_two_pow]
  have htest : x.toNat.testBit 23 = true ↔ ¬ x.toNat % 2 ^ 24 < 2 ^ 23 := by
    rw [Nat.testBit_eq_decide_div_mod_eq, decide_eq_true_eq]
    omega
  rw [← htest, bne_iff_ne, ne_eq, ← UInt32.toNat_inj, hbit]
  cases x.toNat.testBit 23 with
  | false => simp
  | true => simp

theorem toNat_word (nCompact : UInt32) :
    (nCompact &&& 0x007fffff).toNat = nCompact.toNat % 2 ^ 23 := by
  rw [UInt32.toNat_and, ← Nat.and_two_pow_sub_one_eq_mod]
  rfl

/-- A mantissa below the sign bit has none of the bits that the assertion excludes. -/
theorem and_not_mantissa_mask {x : UInt32} (h : x.toNat < 2 ^ 23) : x &&& ~~~0x007fffff = 0 := by
  have hself : x &&& 0x007fffff = x := by
    apply UInt32.toNat_inj.mp
    rw [toNat_word, Nat.mod_eq_of_lt h]
  rw [← hself, UInt32.and_assoc, UInt32.and_not_self, UInt32.and_zero]

/-- A mantissa below the byte of the exponent. -/
theorem toNat_or_shiftLeft {m : UInt32} {e : Nat} (hm : m.toNat < 2 ^ 24) (he : e < 2 ^ 8) :
    (m ||| (UInt32.ofNat e <<< 24)).toNat = e * 2 ^ 24 + m.toNat := by
  have hs : (UInt32.ofNat e <<< 24).toNat = e <<< 24 := by
    rw [UInt32.toNat_shiftLeft, UInt32.toNat_ofNat']
    have h24 : (24 : UInt32).toNat % 32 = 24 := rfl
    rw [h24, Nat.shiftLeft_eq, Nat.shiftLeft_eq]
    omega
  rw [UInt32.toNat_or, hs, Nat.or_comm, ← Nat.shiftLeft_add_eq_or_of_lt hm, Nat.shiftLeft_eq]

/-- **`GetCompact`** never fails and rounds down to the leading bytes. -/
theorem getCompact_eq (a : BaseUint 8) :
    a.getCompact false = .ok (UInt32.ofNat (encode a.toNat)) := by
  have hlead := toNat_leadingBytes a
  have hleadLt := lead_lt a.toNat
  have hsign := signBit_iff a.leadingBytes
  rw [hlead, Nat.mod_eq_of_lt hleadLt] at hsign
  have hb : (a.bits + 7) / 8 = bytes a.toNat := by
    rw [bits_eq_size]
    rfl
  -- The mantissa and the exponent after the sign bit has been made room for.
  generalize hm : (if (a.leadingBytes &&& 0x00800000) != 0 then a.leadingBytes >>> 8
    else a.leadingBytes) = m
  generalize he : (if (a.leadingBytes &&& 0x00800000) != 0 then (a.bits + 7) / 8 + 1
    else (a.bits + 7) / 8) = e
  have hman : m.toNat = mantissa a.toNat := by
    rw [← hm]
    by_cases h : lead a.toNat < 2 ^ 23
    · rw [if_neg (by rwa [hsign, not_not]), hlead, mantissa_of_lt h]
    · rw [if_pos (hsign.mpr h), UInt32.toNat_shiftRight, hlead,
        mantissa_of_not_lt h, Nat.shiftRight_eq_div_pow]
      rfl
  have hexp : e = exponent a.toNat := by
    rw [← he, hb]
    by_cases h : lead a.toNat < 2 ^ 23
    · rw [if_neg (by rwa [hsign, not_not]), exponent_of_lt h]
    · rw [if_pos (hsign.mpr h), exponent_of_not_lt h]
  have hmantissaLt := mantissa_lt a.toNat
  have hexponentLe := exponent_le a.toNat_lt
  have hp : m ||| (UInt32.ofNat e <<< 24) = UInt32.ofNat (encode a.toNat) := by
    apply UInt32.toNat_inj.mp
    rw [toNat_or_shiftLeft (by omega) (by omega), UInt32.toNat_ofNat', encode, ← hman, ← hexp]
    omega
  have hu : a.getCompact false =
      if m &&& ~~~0x007fffff ≠ 0 then .error "(nCompact & ~0x007fffff) == 0"
      else if e ≥ 256 then .error "nSize < 256"
      else .ok (m ||| (UInt32.ofNat e <<< 24) ||| 0) := by
    rw [← hm, ← he]
    rfl
  rw [hu, and_not_mantissa_mask (by omega), if_neg (by simp), if_neg (by omega),
    UInt32.or_zero, hp]

/-! ### Decoding -/

theorem toNat_nSize (nCompact : UInt32) : (nCompact >>> 24).toNat = nCompact.toNat / 2 ^ 24 := by
  rw [UInt32.toNat_shiftRight, Nat.shiftRight_eq_div_pow]
  rfl

/-- **`SetCompact`** decodes, and keeps what fits. -/
theorem toNat_setCompact (nCompact : UInt32) :
    (setCompact nCompact).target.toNat =
      decode (nCompact.toNat % 2 ^ 23) (nCompact.toNat / 2 ^ 24) % 2 ^ 256 := by
  have hword := toNat_word nCompact
  simp only [setCompact, toNat_nSize]
  generalize nCompact.toNat / 2 ^ 24 = e
  generalize nCompact.toNat % 2 ^ 23 = m at hword
  by_cases h : e ≤ 3
  · have hs : (UInt32.ofNat (8 * (3 - e))).toNat % 32 = 8 * (3 - e) := by
      rw [UInt32.toNat_ofNat']
      omega
    have hlt : decode m e < 2 ^ 256 := by
      rw [← hword, decode_of_le h]
      exact lt_of_le_of_lt (Nat.div_le_self _ _) (lt_trans (UInt32.toNat_lt _) (by decide))
    rw [if_pos h, if_pos h, toNat_ofUInt64 (by decide), UInt32.toNat_toUInt64,
      UInt32.toNat_shiftRight, hs, hword, Nat.shiftRight_eq_div_pow, ← decode_of_le h,
      Nat.mod_eq_of_lt hlt]
  · rw [if_neg h, if_neg h, toNat_shiftLeft, toNat_ofUInt64 (by decide), UInt32.toNat_toUInt64,
      hword, Nat.shiftLeft_eq, decode_of_ge (Nat.le_of_not_le h)]

/-- The encoding of a number decodes to the rounded number, without a flag. -/
theorem setCompact_encode {n : Nat} (h : n < 2 ^ 256) :
    (setCompact (UInt32.ofNat (encode n))).target.toNat = ByteFloat.round n ∧
      (setCompact (UInt32.ofNat (encode n))).fNegative = false ∧
      (setCompact (UInt32.ofNat (encode n))).fOverflow = false := by
  have hm := mantissa_lt n
  have he := exponent_le h
  have hnat : (UInt32.ofNat (encode n)).toNat = mantissa n + 2 ^ 24 * exponent n :=
    UInt32.toNat_ofNat_of_lt' (encode_lt h)
  have hword : (UInt32.ofNat (encode n)).toNat % 2 ^ 23 = mantissa n := by omega
  have hsize : (UInt32.ofNat (encode n)).toNat / 2 ^ 24 = exponent n := by omega
  refine ⟨?_, ?_, ?_⟩
  · rw [toNat_setCompact, hword, hsize]
    exact Nat.mod_eq_of_lt (lt_of_le_of_lt (round_le n) h)
  · simp only [setCompact, Bool.and_eq_false_iff]
    exact .inr (Bool.eq_false_iff.mpr fun hset => (signBit_iff _).mp hset (by omega))
  · -- with 33 bytes the highest of the mantissa is zero
    have htop : exponent n = 33 → mantissa n < 2 ^ 16 := by
      intro h33
      rw [mantissa, h33, Nat.div_lt_iff_lt_mul (Nat.two_pow_pos _)]
      omega
    simp only [setCompact, toNat_nSize, hsize, Bool.and_eq_false_iff, Bool.or_eq_false_iff,
      decide_eq_false_iff_not]
    refine .inr ⟨⟨by omega, .inr (by omega)⟩, ?_⟩
    by_cases h33 : exponent n = 33
    · refine .inl ?_
      rw [if_neg (by omega), gt_iff_lt, UInt32.lt_iff_toNat_lt, toNat_word, hword]
      exact Nat.not_lt.mpr (Nat.le_of_lt_succ (htop h33))
    · exact .inr (by omega)

/-- What `GetCompact` encodes is decoded without a flag, to a number that is not above it, is
positive if it is and has the same encoding; and decoding keeps the order. -/
theorem setCompact_getCompact (x x' : BaseUint 8) :
    ∃ nCompact nCompact', x.getCompact false = .ok nCompact ∧ x'.getCompact false = .ok nCompact' ∧
      (setCompact nCompact).fNegative = false ∧ (setCompact nCompact).fOverflow = false ∧
      (setCompact nCompact).target.toNat ≤ x.toNat ∧
      (0 < x.toNat → 0 < (setCompact nCompact).target.toNat) ∧
      (setCompact nCompact).target.getCompact false = .ok nCompact ∧
      (x.toNat ≤ x'.toNat →
        (setCompact nCompact).target.toNat ≤ (setCompact nCompact').target.toNat) := by
  obtain ⟨htgt, hneg, ho⟩ := setCompact_encode x.toNat_lt
  obtain ⟨htgt', -⟩ := setCompact_encode x'.toNat_lt
  refine ⟨_, _, getCompact_eq x, getCompact_eq x', hneg, ho, ?_, ?_, ?_, ?_⟩
  · rw [htgt]
    exact round_le _
  · rw [htgt]
    exact round_pos
  · rw [getCompact_eq, htgt, encode_round]
  · rw [htgt, htgt']
    exact round_le_round

/-- A number in as many limbs as there are. -/
def ofNat {WIDTH : Nat} (n : Nat) : BaseUint WIDTH where
  pn := Limbs.ofNat WIDTH n
  length_pn := Limbs.length_ofNat WIDTH n

theorem toNat_ofNat {n : Nat} (h : n < 2 ^ (32 * WIDTH)) :
    (ofNat n : BaseUint WIDTH).toNat = n := by
  show Limbs.toNat (Limbs.ofNat WIDTH n) = n
  rw [Limbs.toNat_ofNat, Nat.mod_eq_of_lt h]

end BaseUint

/-! ### The limit -/

/-- The target limit of `GetNextWorkRequired`. -/
abbrev targetLimit : Nat := 2 ^ 232 - 1

theorem toNat_bnTargetLimit : bnTargetLimit.toNat = targetLimit := by
  rw [bnTargetLimit, toNat_shiftRight, toNat_complement, toNat_zero]
  decide

/-- A target that is zero or above the limit is replaced by the limit. -/
def clampTarget (x : Nat) : Nat :=
  if 0 < x ∧ x ≤ targetLimit then x else targetLimit

theorem clampTarget_le (x : Nat) : clampTarget x ≤ targetLimit := by
  unfold clampTarget
  split
  · omega
  · exact Nat.le_refl _

theorem encode_eq_limit_iff {n : Nat} (hn : n ≤ targetLimit) :
    encode n = encode targetLimit ↔ 2 ^ 232 - 2 ^ 216 ≤ n := by
  have hlim : mantissa targetLimit = 0xffff ∧ exponent targetLimit = 30 := by
    decide +kernel
  unfold targetLimit at hn
  rw [encode_eq_iff, hlim.1, hlim.2]
  constructor
  · rintro ⟨hman, hexp⟩
    have hle : 2 ^ (8 * 30) * 0xffff ≤ n * 2 ^ 24 := by
      rw [← hman, mantissa, hexp]
      exact Nat.mul_div_le _ _
    omega
  · intro hge
    have hsize : n.size = 232 := by
      apply Nat.le_antisymm
      · exact Nat.size_le.mpr (by omega)
      · exact Nat.lt_size.mpr (by omega)
    have hb : bytes n = 29 := by
      unfold bytes
      omega
    have hlead : ¬ lead n < 2 ^ 23 := by
      unfold lead
      rw [hb]
      omega
    have hexp : exponent n = 30 := by
      rw [exponent_of_not_lt hlead, hb]
    refine ⟨?_, hexp⟩
    unfold mantissa
    rw [hexp]
    omega

/-- A new target that ends up encoded as the limit. -/
def Saturated (x : Nat) : Prop :=
  x = 0 ∨ 2 ^ 232 - 2 ^ 216 ≤ x

theorem encode_clampTarget_iff (x : Nat) :
    encode (clampTarget x) = encode targetLimit ↔ Saturated x := by
  unfold clampTarget Saturated
  by_cases h : 0 < x ∧ x ≤ targetLimit
  · rw [if_pos h, encode_eq_limit_iff h.2]
    omega
  · rw [if_neg h]
    constructor
    · intro _
      by_cases hx : x = 0
      · exact .inl hx
      · refine .inr ?_
        unfold targetLimit at h
        omega
    · intro _
      rfl

/-! ### The formula and the code -/

/-- The factor of the retargeting for a spacing of the last two blocks. -/
def retargetFactor (spacing : Nat) : Nat :=
  2340 + 2 * spacing

/-- The new target over unbounded integers. -/
def exactTarget (t spacing : Nat) : Nat :=
  clampTarget (t * retargetFactor spacing / 2460)

/-- What is left of the product after the factor is narrowed and the product wraps. -/
def wrappedProduct (t spacing : Nat) : Nat :=
  t * (retargetFactor spacing % 2 ^ 32) % 2 ^ 256

/-- Neither the factor nor the product wraps. -/
def NoWrap (t spacing : Nat) : Prop :=
  retargetFactor spacing < 2 ^ 32 ∧ t * retargetFactor spacing < 2 ^ 256
  deriving Decidable

/--
The formula gives the limit, and what is left of the product gives zero, the limit or a
target that is encoded like it.
-/
def BothAtLimit (t spacing : Nat) : Prop :=
  2460 * (2 ^ 232 - 2 ^ 216) ≤ t * retargetFactor spacing ∧
    (wrappedProduct t spacing < 2460 ∨
      2460 * (2 ^ 232 - 2 ^ 216) ≤ wrappedProduct t spacing)
  deriving Decidable

theorem saturated_div_iff (n : Nat) :
    Saturated (n / 2460) ↔ n < 2460 ∨ 2460 * (2 ^ 232 - 2 ^ 216) ≤ n := by
  unfold Saturated
  omega

/-- A factor that is narrowed loses at least half, and so does the product. -/
theorem two_mul_wrappedProduct_le (t : Nat) (hf : 2 ^ 32 ≤ retargetFactor spacing) :
    2 * wrappedProduct t spacing ≤ t * retargetFactor spacing := by
  have hn : 2 * (retargetFactor spacing % 2 ^ 32) ≤ retargetFactor spacing := by omega
  calc 2 * wrappedProduct t spacing
      ≤ 2 * (t * (retargetFactor spacing % 2 ^ 32)) := Nat.mul_le_mul_left _ (Nat.mod_le _ _)
    _ = t * (2 * (retargetFactor spacing % 2 ^ 32)) := Nat.mul_left_comm _ _ _
    _ ≤ t * retargetFactor spacing := Nat.mul_le_mul_left _ hn

/--
Once the factor or the product wraps, the encodings only agree at the limit: otherwise the
formula gives at least twice what the code does.
-/
theorem encode_clampTarget_eq_iff {t : Nat} (ht : 0 < t) :
    encode (clampTarget (wrappedProduct t spacing / 2460)) = encode (exactTarget t spacing) ↔
      NoWrap t spacing ∨ BothAtLimit t spacing := by
  by_cases hwrap : NoWrap t spacing
  · have hsa : wrappedProduct t spacing = t * retargetFactor spacing := by
      rw [wrappedProduct, Nat.mod_eq_of_lt hwrap.1, Nat.mod_eq_of_lt hwrap.2]
    simp only [hwrap, true_or, iff_true]
    rw [hsa, exactTarget]
  · simp only [hwrap, false_or]
    have hs := saturated_div_iff (wrappedProduct t spacing)
    have he := saturated_div_iff (t * retargetFactor spacing)
    have hcode := encode_clampTarget_iff (wrappedProduct t spacing / 2460)
    have hf := encode_clampTarget_iff (t * retargetFactor spacing / 2460)
    by_cases hbig : 2460 * (2 ^ 232 - 2 ^ 216) ≤ t * retargetFactor spacing
    · have hlim : encode (exactTarget t spacing) = encode targetLimit :=
        hf.mpr (he.mpr (.inr hbig))
      rw [hlim, hcode, hs, BothAtLimit]
      exact (and_iff_right hbig).symm
    · have hfa : 2 ^ 32 ≤ retargetFactor spacing := by
        unfold NoWrap at hwrap
        omega
      have hl : 2 ^ 32 ≤ t * retargetFactor spacing :=
        le_trans hfa (Nat.le_mul_of_pos_left _ ht)
      have hnot : ¬ BothAtLimit t spacing := fun h => hbig h.1
      have hu : ¬ Saturated (t * retargetFactor spacing / 2460) := by
        rw [he]
        omega
      have hun : exactTarget t spacing = t * retargetFactor spacing / 2460 := by
        unfold exactTarget clampTarget targetLimit
        rw [if_pos (by omega)]
      simp only [hnot, iff_false]
      intro heq
      have hn := two_mul_wrappedProduct_le t hfa
      by_cases hzero : wrappedProduct t spacing < 2460
      · have hlim := hcode.mpr (hs.mpr (.inl hzero))
        rw [hlim] at heq
        exact hu (hf.mp heq.symm)
      · have hkept : clampTarget (wrappedProduct t spacing / 2460) =
            wrappedProduct t spacing / 2460 := by
          unfold clampTarget targetLimit
          rw [if_pos (by omega)]
        have hless := lt_two_mul_of_encode_eq (by omega) heq.symm
        omega

/-- The spacing of the last two blocks, one second if the last is the earlier. -/
def blockSpacing (pindexLast pprev : WorkIndex) : Nat :=
  if pindexLast.nTime < pprev.nTime then 1 else pindexLast.nTime.toNat - pprev.nTime.toNat

theorem actualSpacing_eq (hht : pindexLast.nHeight ≠ 0) (pprev : WorkIndex) :
    actualSpacing pindexLast pprev = blockSpacing pindexLast pprev := by
  unfold actualSpacing blockSpacing WorkIndex.getBlockTime
  by_cases hlt : pindexLast.nTime < pprev.nTime
  · have hnat := UInt32.lt_iff_toNat_lt.mp hlt
    rw [if_pos hlt]
    rw [if_pos (by omega)]
    rfl
  · have hnat : ¬ pindexLast.nTime.toNat < pprev.nTime.toNat :=
      fun h => hlt (UInt32.lt_iff_toNat_lt.mpr h)
    rw [if_neg hlt]
    simp only
    omega

/-- **What the code computes** for the next proof-of-stake block. -/
theorem getNextStakeRequired_eq (hht : pindexLast.nHeight ≠ 0) (pprev : WorkIndex) :
    getNextStakeRequired pindexLast pprev = .ok (UInt32.ofNat (encode (clampTarget
        (wrappedProduct (setCompact pindexLast.nBits).target.toNat
          (blockSpacing pindexLast pprev) / 2460)))) := by
  have hf : (UInt32.ofInt (((60 * 40 : Int).tdiv 60 - 1) * 60 +
      actualSpacing pindexLast pprev + actualSpacing pindexLast pprev)).toNat =
      retargetFactor (blockSpacing pindexLast pprev) % 2 ^ 32 := by
    rw [actualSpacing_eq hht]
    have hsum : ((60 * 40 : Int).tdiv 60 - 1) * 60 + (blockSpacing pindexLast pprev : Int) +
        blockSpacing pindexLast pprev = (retargetFactor (blockSpacing pindexLast pprev) : Int) := by
      have hint : (60 * 40 : Int).tdiv 60 = 40 := by decide
      unfold retargetFactor
      omega
    rw [hsum, UInt32.ofInt, UInt32.toNat_ofNat']
    omega
  obtain ⟨bnNew, hdi, hbnNew⟩ := divide_spec
    ((setCompact pindexLast.nBits).target.mulUInt32
      (UInt32.ofInt (((60 * 40 : Int).tdiv 60 - 1) * 60 +
        actualSpacing pindexLast pprev + actualSpacing pindexLast pprev)))
    (b := .ofInt64 (((60 * 40 : Int).tdiv 60 + 1) * 60))
    (by rw [ofInt64, toNat_ofUInt64 (by decide)]; decide)
  have hd : (ofInt64 (((60 * 40 : Int).tdiv 60 + 1) * 60)).toNat = 2460 := by
    decide
  rw [hd, toNat_mulUInt32, hf] at hbnNew
  have hc : (if bnNew.compareTo .zero ≤ 0 ∨ bnNew.compareTo bnTargetLimit > 0 then
      bnTargetLimit else bnNew).toNat = clampTarget bnNew.toNat := by
    have hzero := bnNew.compareTo_pos_iff .zero
    have hlim := bnNew.compareTo_pos_iff bnTargetLimit
    rw [toNat_zero] at hzero
    rw [toNat_bnTargetLimit] at hlim
    unfold clampTarget
    by_cases hin : 0 < bnNew.toNat ∧ bnNew.toNat ≤ targetLimit
    · rw [if_neg (by omega), if_pos hin]
    · rw [if_pos (by omega), if_neg hin, toNat_bnTargetLimit]
  unfold getNextStakeRequired
  simp only [hdi, bind, Except.bind]
  rw [getCompact_eq, hc, hbnNew]
  rfl

/--
**When the next target is the one of the formula.**  On a network that retargets, above the
last proof-of-work block and from height 24 on, the code returns the encoding of the exact
new target if and only if neither the factor nor the product wraps, or else both the formula
and what is left of the product end up at the limit.
-/
theorem getNextWorkRequired_exact_iff {pindexLast : WorkIndex} (pprev : WorkIndex)
    (ancestors : WorkChain) {chainParams : WorkParams}
    (hretarget : chainParams.fDifficultyRetargeting = true) (hht : 24 ≤ pindexLast.nHeight)
    (hs : chainParams.nLastPOWBlock < pindexLast.nHeight)
    (ht : 0 < (BaseUint.setCompact pindexLast.nBits).target.toNat) :
    getNextWorkRequired (pindexLast :: pprev :: ancestors) chainParams =
        (BaseUint.ofNat (exactTarget (BaseUint.setCompact pindexLast.nBits).target.toNat
          (blockSpacing pindexLast pprev))).getCompact false ↔
      NoWrap (BaseUint.setCompact pindexLast.nBits).target.toNat
          (blockSpacing pindexLast pprev) ∨
        BothAtLimit (BaseUint.setCompact pindexLast.nBits).target.toNat
          (blockSpacing pindexLast pprev) := by
  generalize htgt : (setCompact pindexLast.nBits).target.toNat = t at ht
  have hret : getNextWorkRequired (pindexLast :: pprev :: ancestors) chainParams =
      getNextStakeRequired pindexLast pprev := by
    simp only [getNextWorkRequired, PastBlocksMin]
    rw [if_neg (by omega), hretarget]
    simp only [Bool.not_true, Bool.false_eq_true, if_false]
    rw [if_pos hs]
  have hcode := Nat.lt_of_le_of_lt (clampTarget_le
    (wrappedProduct t (blockSpacing pindexLast pprev) / 2460)) (by decide : targetLimit < 2 ^ 256)
  have he : exactTarget t (blockSpacing pindexLast pprev) < 2 ^ 256 :=
    Nat.lt_of_le_of_lt (clampTarget_le _) (by decide : targetLimit < 2 ^ 256)
  rw [hret, getNextStakeRequired_eq (by omega), htgt, getCompact_eq,
    toNat_ofNat he, ← encode_clampTarget_eq_iff ht]
  constructor
  · intro heq
    have hnat := congrArg UInt32.toNat (Except.ok.inj heq)
    rwa [UInt32.toNat_ofNat_of_lt' (encode_lt hcode),
      UInt32.toNat_ofNat_of_lt' (encode_lt he)] at hnat
  · intro heq
    rw [heq]

/-! ### A spacing of half a year -/

/-- The parameters of the main network. -/
def mainWorkParams : WorkParams where
  bnProofOfWorkLimit := BaseUint.zero.complement.shiftRight 20
  fDifficultyRetargeting := true
  nLastPOWBlock := 100
  nTargetSpacing := 60

/-- At the lowest difficulty, and found one minute after the block before. -/
theorem getNextWorkRequired_exact_minute :
    getNextWorkRequired [⟨1000, 1700000060, 0x1e00ffff⟩, ⟨999, 1700000000, 0x1e00ffff⟩]
        mainWorkParams =
      (BaseUint.ofNat (exactTarget (BaseUint.setCompact 0x1e00ffff).target.toNat
        (blockSpacing ⟨1000, 1700000060, 0x1e00ffff⟩ ⟨999, 1700000000, 0x1e00ffff⟩))).getCompact
          false :=
  (getNextWorkRequired_exact_iff ⟨999, 1700000000, 0x1e00ffff⟩ [] (by decide) (by decide)
    (by decide) (by decide)).mpr (.inl (by decide))

/--
After a gap of 194 days at the lowest difficulty the product wraps, and the target falls
instead of staying at the limit.
-/
theorem getNextWorkRequired_wraps :
    getNextWorkRequired [⟨1000, 1716777216, 0x1e00ffff⟩, ⟨999, 1700000000, 0x1e00ffff⟩]
        mainWorkParams = .ok 0x1e00be3a ∧
      (BaseUint.ofNat (exactTarget (BaseUint.setCompact 0x1e00ffff).target.toNat
        (blockSpacing ⟨1000, 1716777216, 0x1e00ffff⟩ ⟨999, 1700000000, 0x1e00ffff⟩))).getCompact
          false = .ok 0x1e00ffff := by
  refine ⟨?_, ?_⟩
  · show getNextStakeRequired _ _ = _
    rw [getNextStakeRequired_eq (by decide)]
    decide +kernel
  · rw [getCompact_eq]
    decide +kernel

end Divi
