/-
What is written is read again: numbers, amounts, scripts and outputs.

A number of variable length counts in base 128 with one added for every byte but the last, so
no two byte strings stand for the same number.  An amount keeps the exponent of its power of
ten apart from its digits.  A script is either of one of the special forms, which its first byte
names, or written out after its length plus six.
-/
import Divi.Compressor

namespace Divi

open List Option

open Streams (Reader Reads)

variable {n : Nat} {pubkey : valtype} {keys : PubKeys} {script : CScript} {code byte : UInt8}

/-! ### Numbers of variable length -/

/-- A round of the writer, on a number that is not negative. -/
theorem writeVarIntLoop_succ (free n : Nat) (first : Bool) (tmp : List UInt8) :
    writeVarIntLoop (free + 1) n first tmp =
      let tmp := UInt8.ofNat (n % 128 + if first then 0 else 128) :: tmp
      if n ≤ 127 then tmp else writeVarIntLoop free (n / 128 - 1 : Nat) false tmp := by
  have hmod : ((n : Int) % 128).toNat = n % 128 := by omega
  simp only [writeVarIntLoop, hmod]
  by_cases hle : n ≤ 127
  · rw [if_pos hle, if_pos (by omega)]
  · have hnext : (n : Int) / 128 - 1 = (n / 128 - 1 : Nat) := by omega
    rw [if_neg hle, if_neg (by omega), hnext]

theorem length_writeVarIntLoop {free : Nat} {n : Int} (hroom : n < 128 ^ (free + 1)) (first : Bool)
    (tmp : List UInt8) :
    (writeVarIntLoop (free + 1) n first tmp).length = getSizeOfVarInt n + tmp.length := by
  induction free generalizing n first tmp with
  | zero =>
    have hle : n ≤ 0x7F := by omega
    rw [writeVarIntLoop, getSizeOfVarInt, if_pos hle, if_pos hle, length_cons, Nat.add_comm]
  | succ free ih =>
    rw [writeVarIntLoop, getSizeOfVarInt]
    split
    · rw [length_cons, Nat.add_comm]
    · rw [ih (by rw [pow_succ] at hroom; omega), length_cons]
      omega

theorem length_writeVarInt {n : Int} (h : n < 2 ^ 32) :
    (writeVarInt 32 n).length = getSizeOfVarInt n :=
  @length_writeVarIntLoop 4 n (by omega) true []

/-- The least number that takes more than `k` bytes. -/
def varIntFloor : Nat → Nat
  | 0 => 0
  | k + 1 => 128 * (varIntFloor k + 1)

theorem lt_getSizeOfVarInt_iff (k n : Nat) : k < getSizeOfVarInt n ↔ varIntFloor k ≤ n := by
  induction k generalizing n with
  | zero =>
    rw [getSizeOfVarInt]
    split <;> simp [varIntFloor]
  | succ k ih =>
    rw [getSizeOfVarInt, varIntFloor]
    split
    next hle => omega
    next hgt =>
      have hnext : (n : Int) / 128 - 1 = (n / 128 - 1 : Nat) := by omega
      rw [Nat.succ_lt_succ_iff, hnext, ih]
      omega

theorem getSizeOfVarInt_eq_iff (a b : Nat) :
    getSizeOfVarInt a = getSizeOfVarInt b ↔ ∀ k, varIntFloor k ≤ a ↔ varIntFloor k ≤ b := by
  simp only [← lt_getSizeOfVarInt_iff]
  exact ⟨fun h k => by rw [h], eq_of_forall_lt_iff⟩

theorem getSizeOfVarInt_le (h : n < 2 ^ 32) : getSizeOfVarInt n ≤ 5 := by
  have hf : ¬ varIntFloor 5 ≤ n := by
    simp only [varIntFloor]
    omega
  rw [← lt_getSizeOfVarInt_iff] at hf
  omega

section

variable {bits : Nat}

/-- `ReadVarInt` without a bound on the number. -/
def varIntLoop : Nat → Reader UInt8 Nat
  | _, [] => none
  | n, chData :: rest =>
    let n := n * 128 + chData.toNat % 128
    if chData.toNat ≥ 128 then varIntLoop (n + 1) rest else some (n, rest)

/-- A type of fixed width keeps the number modulo its size. -/
theorem readVarIntLoop_eq (hbits : 7 ≤ bits) (n : Nat) (stream : List UInt8) :
    readVarIntLoop bits (n % 2 ^ bits) stream =
      (varIntLoop n stream).map (Prod.map (· % 2 ^ bits) id) := by
  have hsize : 2 ^ bits = 128 * 2 ^ (bits - 7) := by
    rw [show 128 = 2 ^ 7 by rfl, ← Nat.pow_add, Nat.add_sub_cancel' hbits]
  induction stream generalizing n with
  | nil => rfl
  | cons chData rest ih =>
    have hg : n % 2 ^ bits * 128 % 2 ^ bits + chData.toNat % 128 =
        (n * 128 + chData.toNat % 128) % 2 ^ bits := by
      have hlow : (n * 128 + chData.toNat % 128) % 128 = chData.toNat % 128 := by omega
      have hhigh : (n * 128 + chData.toNat % 128) / 128 = n := by omega
      rw [Nat.mod_mul_mod, hsize, Nat.mod_mul (x := n * 128 + _), hlow, hhigh, Nat.mul_comm n,
        Nat.mul_mod_mul_left, Nat.add_comm]
    simp only [readVarIntLoop, varIntLoop, hg, Nat.mod_add_mod]
    split
    · exact ih _
    · rfl

theorem varIntLoop_cons (n : Nat) {d : Nat} (hd : d < 128) (first : Bool) (stream : List UInt8) :
    varIntLoop n (UInt8.ofNat (d + if first then 0 else 128) :: stream) =
      if first then some (n * 128 + d, stream) else varIntLoop (n * 128 + d + 1) stream := by
  cases first with
  | false =>
    have hbyte := UInt8.toNat_ofNat_of_lt' (show d + 128 < 256 by omega)
    have hg : (d + 128) % 128 = d := by omega
    simp only [varIntLoop, Bool.false_eq_true, if_false, hbyte, hg, ge_iff_le, Nat.le_add_left,
      if_true]
  | true =>
    have hbyte := UInt8.toNat_ofNat_of_lt' (show d < 256 by omega)
    simp only [varIntLoop, if_true, Nat.add_zero, hbyte, Nat.mod_eq_of_lt hd, ge_iff_le,
      if_neg (show ¬ 128 ≤ d by omega)]

theorem exists_free {free : Nat} (hgt : ¬ n ≤ 127) (hroom : n < 128 ^ (free + 1)) :
    ∃ more, free = more + 1 ∧ n / 128 - 1 < 128 ^ (more + 1) := by
  cases free with
  | zero => omega
  | succ more => exact ⟨more, rfl, by omega⟩

theorem varIntLoop_write {free : Nat} (hroom : n < 128 ^ (free + 1)) (first : Bool)
    (tmp rest : List UInt8) :
    varIntLoop 0 (writeVarIntLoop (free + 1) n first tmp ++ rest) =
      if first then some (n, tmp ++ rest) else varIntLoop (n + 1) (tmp ++ rest) := by
  induction n using Nat.strongRecOn generalizing free first tmp with
  | ind n ih =>
    rw [writeVarIntLoop_succ]
    dsimp only
    split
    next hle =>
      rw [cons_append, varIntLoop_cons _ (Nat.mod_lt n (by decide)), Nat.mod_eq_of_lt (by omega),
        Nat.zero_mul, Nat.zero_add]
    next hgt =>
      obtain ⟨more, rfl, hnext⟩ := exists_free hgt hroom
      rw [ih _ (by omega) hnext, if_neg Bool.false_ne_true, Nat.sub_add_cancel (by omega),
        cons_append, varIntLoop_cons _ (Nat.mod_lt n (by decide)), Nat.div_add_mod']

/-- The bytes before a number `n` is continued are those that are written for `n - 1`. -/
def Written (n : Nat) (done : List UInt8) : Prop :=
  (n = 0 → done = []) ∧ ∀ m free tmp, n = m + 1 → m < 128 ^ (free + 1) →
    writeVarIntLoop (free + 1) m false tmp = done ++ tmp

theorem Written.write_cons {done : List UInt8} (h : Written n done) {chData : UInt8} {first : Bool}
    (hmark : chData.toNat < 128 ↔ first = true) {free : Nat}
    (hroom : n * 128 + chData.toNat % 128 < 128 ^ (free + 1)) (tmp : List UInt8) :
    writeVarIntLoop (free + 1) (n * 128 + chData.toNat % 128 : Nat) first tmp =
      done ++ chData :: tmp := by
  have hbyte : UInt8.ofNat ((n * 128 + chData.toNat % 128) % 128 + if first then 0 else 128) =
      chData := by
    have hlt := chData.toNat_lt
    have hv : (n * 128 + chData.toNat % 128) % 128 + (if first then 0 else 128) =
        chData.toNat := by
      cases first <;> simp at hmark ⊢ <;> omega
    rw [hv, UInt8.ofNat_toNat]
  rw [writeVarIntLoop_succ, hbyte]
  cases n with
  | zero =>
    rw [h.1 rfl]
    exact if_pos (by omega)
  | succ m =>
    obtain ⟨more, rfl, hlt⟩ := exists_free (by omega) hroom
    have hnext : ((m + 1) * 128 + chData.toNat % 128) / 128 - 1 = m := by omega
    rw [hnext] at hlt ⊢
    exact (if_neg (by omega)).trans (h.2 m more (chData :: tmp) rfl hlt)

theorem Written.write_eq {done stream : List UInt8} (h : Written n done) {value : Nat}
    (hr : varIntLoop n stream = some (value, [])) {free : Nat} (hroom : value < 128 ^ (free + 1)) :
    writeVarIntLoop (free + 1) value true [] = done ++ stream := by
  induction stream generalizing n done with
  | nil => cases hr
  | cons chData rest ih =>
    rw [varIntLoop] at hr
    split at hr
    next hmore =>
      have hnext : Written (n * 128 + chData.toNat % 128 + 1) (done ++ [chData]) := by
        refine ⟨nofun, fun m free tmp hm hroom => ?_⟩
        cases hm
        rw [append_assoc]
        exact h.write_cons (by simpa using hmore) hroom tmp
      simpa using ih hnext hr
    next hl =>
      cases hr
      exact h.write_cons (by simpa using hl) hroom []

theorem exists_room (hbits : 0 < bits) (h : n < 2 ^ bits) :
    ∃ free, (bits + 6) / 7 = free + 1 ∧ n < 128 ^ (free + 1) := by
  refine ⟨(bits + 6) / 7 - 1, by omega, h.trans_le ?_⟩
  rw [show 128 = 2 ^ 7 by rfl, ← Nat.pow_mul]
  exact Nat.pow_le_pow_right (by decide) (by omega)

theorem varIntLoop_writeVarInt (hbits : 0 < bits) (h : n < 2 ^ bits) (rest : List UInt8) :
    varIntLoop 0 (writeVarInt bits n ++ rest) = some (n, rest) := by
  obtain ⟨free, hfree, hroom⟩ := exists_room hbits h
  rw [writeVarInt, hfree]
  exact varIntLoop_write hroom true [] rest

theorem reads_varInt (hbits : 7 ≤ bits) (h : n < 2 ^ bits) :
    Reads (readVarInt bits) (writeVarInt bits n) n := by
  intro rest
  have hr := readVarIntLoop_eq hbits 0 (writeVarInt bits n ++ rest)
  rw [varIntLoop_writeVarInt (by omega) h, Nat.zero_mod] at hr
  rw [readVarInt, hr, map_some, Prod.map_apply, Nat.mod_eq_of_lt h, id]

/-- **Variable-length integers.**  What is written is read back and has the reckoned size, and other
bytes are read as the same number only where the number that they stand for does not fit. -/
theorem varInt_unique_iff (hbits : bits = 32 ∨ bits = 64) (h : n < 2 ^ bits) :
    Reads (readVarInt bits) (writeVarInt bits n) n ∧
      (writeVarInt bits n).length = getSizeOfVarInt n ∧
      ∀ bytes, readVarInt bits bytes = some (n, []) →
        (bytes = writeVarInt bits n ↔
          ∃ value < 2 ^ bits, varIntLoop 0 bytes = some (value, [])) := by
  refine ⟨reads_varInt (by omega) h, ?_, fun bytes hr => ⟨?_, ?_⟩⟩
  · obtain rfl | rfl := hbits
    · exact length_writeVarInt (by omega)
    · exact @length_writeVarIntLoop 9 n (by omega) true []
  · rintro rfl
    have hv := varIntLoop_writeVarInt (by omega) h []
    rw [append_nil] at hv
    exact ⟨n, h, hv⟩
  · rintro ⟨value, hlt, hv⟩
    have hs := readVarIntLoop_eq (show 7 ≤ bits by omega) 0 bytes
    rw [hv, map_some, Prod.map_apply, Nat.mod_eq_of_lt hlt, Nat.zero_mod] at hs
    obtain ⟨rfl, -⟩ := Prod.mk.inj (Option.some.inj (hr.symm.trans hs))
    obtain ⟨free, hfree, hroom⟩ := exists_room (by omega) h
    have he : Written 0 [] := ⟨fun _ => rfl, nofun⟩
    rw [writeVarInt, hfree, he.write_eq hv hroom, nil_append]

theorem varInt_unique_two_bytes :
    [0x80, 0x05] = writeVarInt 32 133 := by
  refine ((varInt_unique_iff (.inl rfl) (by decide)).2.2 _ (by decide)).mpr ⟨133, by decide, ?_⟩
  decide

/-- The five bytes of `2 ^ 32` are read as zero. -/
theorem varInt_not_unique :
    readVarInt 32 [0x8E, 0xFE, 0xFE, 0xFF, 0x00] = some (0, []) ∧
      [0x8E, 0xFE, 0xFE, 0xFF, 0x00] ≠ writeVarInt 32 0 := by decide

theorem reads_varIntSigned {n : Int} (hlow : 0 ≤ n) (hhigh : n < 2 ^ 31) :
    Reads readVarIntSigned (writeVarInt 32 n) n := by
  obtain ⟨m, rfl⟩ := Int.eq_ofNat_of_zero_le hlow
  have hr := (reads_varInt (show 7 ≤ 32 by decide) (show m < 2 ^ 32 by omega)).map
    fun n : Nat => (n : Int).bmod (2 ^ 32)
  rwa [Int.bmod_eq_of_le (by omega) (by omega)] at hr

theorem reads_byte (h : code.toNat < 128) : Reads (readVarInt 32) [code] code.toNat := by
  intro rest
  simp [readVarInt, readVarIntLoop, h, Nat.mod_eq_of_lt h]

end

/-! ### Amounts -/

theorem stripZeros_spec (rounds n : Nat) :
    n = (stripZeros rounds n).1 * 10 ^ (stripZeros rounds n).2 ∧
      (stripZeros rounds n).2 ≤ rounds ∧
      ((stripZeros rounds n).2 < rounds → (stripZeros rounds n).1 % 10 ≠ 0) := by
  induction rounds generalizing n with
  | zero => simp [stripZeros]
  | succ rounds ih =>
    obtain ⟨hv, hle, hd⟩ := ih (n / 10)
    unfold stripZeros
    split
    case isTrue hzero =>
      refine ⟨?_, by simpa using hle, fun hlt => hd (by simpa using hlt)⟩
      rw [Nat.pow_succ, ← Nat.mul_assoc, ← hv, Nat.div_mul_cancel (Nat.dvd_of_mod_eq_zero hzero)]
    case isFalse hnz => exact ⟨by simp, Nat.zero_le _, fun _ => hnz⟩

/-- An amount whose digits leave room for the exponent comes back. -/
theorem decompressAmount_compressAmount (h : 9 * n + 10 < 2 ^ 64) :
    decompressAmount (compressAmount n) = n := by
  by_cases hn : n = 0
  · rw [hn]
    rfl
  obtain ⟨hv, hle, hdi⟩ := stripZeros_spec 9 n
  unfold compressAmount
  rw [if_neg hn]
  generalize stripZeros 9 n = stripped at hv hle hdi
  obtain ⟨m, e⟩ := stripped
  dsimp only at hv hle hdi ⊢
  have hpos : 0 < m := by
    rcases Nat.eq_zero_or_pos m with hzero | hpos
    · rw [hzero, Nat.zero_mul] at hv
      exact absurd hv hn
    · exact hpos
  have hmn : m ≤ n := by
    rw [hv]
    exact Nat.le_mul_of_pos_right m (Nat.pow_pos (by decide))
  by_cases he : e < 9
  · have hd := hdi he
    rw [if_pos he, Nat.mod_eq_of_lt (by omega)]
    have hx : 1 + (m / 10 * 9 + m % 10 - 1) * 10 + e ≠ 0 := by omega
    have hexp : (1 + (m / 10 * 9 + m % 10 - 1) * 10 + e - 1) % 10 = e := by omega
    have hr : (1 + (m / 10 * 9 + m % 10 - 1) * 10 + e - 1) / 10 = m / 10 * 9 + (m % 10 - 1) := by
      omega
    unfold decompressAmount
    rw [if_neg hx]
    simp only [hexp, hr, if_pos he]
    have hback :
        (m / 10 * 9 + (m % 10 - 1)) / 9 * 10 + ((m / 10 * 9 + (m % 10 - 1)) % 9 + 1) = m := by
      omega
    rw [hback, ← hv, Nat.mod_eq_of_lt (by omega)]
  · obtain rfl : e = 9 := by omega
    rw [if_neg he, Nat.mod_eq_of_lt (by omega)]
    have hx : 1 + (m - 1) * 10 + 9 ≠ 0 := by omega
    have hexp : (1 + (m - 1) * 10 + 9 - 1) % 10 = 9 := by omega
    have hr : (1 + (m - 1) * 10 + 9 - 1) / 10 = m - 1 := by omega
    unfold decompressAmount
    rw [if_neg hx]
    simp only [hexp, hr, if_neg he]
    rw [Nat.sub_add_cancel hpos, ← hv, Nat.mod_eq_of_lt (by omega)]

theorem compressAmount_lt (n : Nat) : compressAmount n < 2 ^ 64 := by
  unfold compressAmount
  split
  · decide
  · dsimp only
    split
    · exact Nat.mod_lt _ (by decide)
    · exact Nat.mod_lt _ (by decide)

/-! ### Scripts -/

/-- A compressed public key decompresses to the uncompressed key it came from. -/
def PubKeys.Lawful (keys : PubKeys) : Prop :=
  ∀ pubkey : valtype, pubkey.length = 65 → pubkey.getD 0 0 = 0x04 →
    keys.isFullyValid pubkey = true →
    keys.decompress ((0x02 ||| (pubkey.getD 64 0 &&& 0x01)) :: (pubkey.drop 1).take 32) =
      some pubkey

theorem drop_eq_cons {k : Nat} (h : script[k]? = some byte) :
    script.drop k = byte :: script.drop (k + 1) := by
  obtain ⟨hlt, rfl⟩ := List.getElem?_eq_some_iff.mp h
  exact drop_eq_getElem_cons hlt

/-- The middle of a script, between what is before it and what is after it. -/
theorem eq_append_take_drop {before after : CScript} {k : Nat}
    (hpre : script = before ++ script.drop k) (ha : script.drop (k + n) = after) :
    script = before ++ (script.drop k).take n ++ after := by
  rw [← ha, append_assoc, ← drop_drop, take_append_drop]
  exact hpre

namespace CScriptCompressor

theorem isToKeyID_spec {keyID : valtype} (h : isToKeyID script = some keyID) :
    script = [OP_DUP, OP_HASH160, 20] ++ keyID ++ [OP_EQUALVERIFY, OP_CHECKSIG] ∧
      keyID.length = 20 := by
  obtain ⟨hform, ⟨⟩⟩ := ite_none_right_eq_some.mp h
  simp only [Bool.and_eq_true, beq_iff_eq] at hform
  obtain ⟨⟨⟨⟨⟨hlen, h0⟩, h1⟩, h2⟩, h23⟩, h24⟩ := hform
  refine ⟨eq_append_take_drop ?_ ?_, by simp [hlen]⟩
  · rw [cons_append, cons_append, cons_append, nil_append, ← drop_eq_cons h2,
      ← drop_eq_cons h1, ← drop_eq_cons h0, drop_zero]
  · rw [drop_eq_cons h23, drop_eq_cons h24, drop_eq_nil_of_le (by omega)]

theorem isToScriptID_spec {scriptID : valtype} (h : isToScriptID script = some scriptID) :
    script = [OP_HASH160, 20] ++ scriptID ++ [OP_EQUAL] ∧ scriptID.length = 20 := by
  obtain ⟨hform, ⟨⟩⟩ := ite_none_right_eq_some.mp h
  simp only [Bool.and_eq_true, beq_iff_eq] at hform
  obtain ⟨⟨⟨hlen, h0⟩, h1⟩, h22⟩ := hform
  refine ⟨eq_append_take_drop ?_ ?_, by simp [hlen]⟩
  · rw [cons_append, cons_append, nil_append, ← drop_eq_cons h1, ← drop_eq_cons h0, drop_zero]
  · rw [drop_eq_cons h22, drop_eq_nil_of_le (by omega)]

/-- A key in a script, pushed with its length in front of it. -/
theorem pubKey_spec {size : UInt8} (hlen : script.length = n + 2) (h0 : script[0]? = some size)
    (hl : script[n + 1]? = some OP_CHECKSIG) :
    script = [size] ++ (script.drop 1).take n ++ [OP_CHECKSIG] ∧
      ((script.drop 1).take n).length = n := by
  refine ⟨eq_append_take_drop ?_ ?_, by simp [hlen]⟩
  · rw [cons_append, nil_append, ← drop_eq_cons h0, drop_zero]
  · rw [Nat.add_comm, drop_eq_cons hl, drop_eq_nil_of_le (by omega)]

theorem isToPubKey_spec (h : isToPubKey keys script = some pubkey) :
    (script = [33] ++ pubkey ++ [OP_CHECKSIG] ∧ pubkey.length = 33 ∧
      (pubkey.getD 0 0 = 0x02 ∨ pubkey.getD 0 0 = 0x03)) ∨
    (script = [65] ++ pubkey ++ [OP_CHECKSIG] ∧ pubkey.length = 65 ∧ pubkey.getD 0 0 = 0x04 ∧
      keys.isFullyValid pubkey = true) := by
  have hfst : ∀ {n : Nat} {byte : UInt8}, 0 < n → script[1]? = some byte →
      ((script.drop 1).take n).getD 0 0 = byte := by
    intro n byte hn hbyte
    rw [getD_eq_getElem?_getD, List.getElem?_take_of_lt hn, List.getElem?_drop, hbyte, getD_some]
  revert h
  fun_cases isToPubKey keys script with
  | case1 hform =>
    rintro ⟨⟩
    simp only [Bool.and_eq_true, Bool.or_eq_true, beq_iff_eq] at hform
    obtain ⟨⟨⟨hlen, h0⟩, h34⟩, h1⟩ := hform
    obtain ⟨hscr, hkey⟩ := pubKey_spec hlen h0 h34
    exact .inl ⟨hscr, hkey, h1.imp (hfst (by decide)) (hfst (by decide))⟩
  | case2 _ hform _ hval =>
    intro h
    obtain rfl := Option.some.inj h
    simp only [Bool.and_eq_true, beq_iff_eq] at hform
    obtain ⟨⟨⟨hlen, h0⟩, h66⟩, h1⟩ := hform
    obtain ⟨hscr, hkey⟩ := pubKey_spec hlen h0 h66
    exact .inr ⟨hscr, hkey, hfst (by decide) h1, hval⟩
  | case3 | case4 => nofun

theorem reads_special (hcode : code.toNat < nSpecialScripts) {bytes : valtype}
    (hlen : bytes.length = getSpecialSize code.toNat)
    (hscr : decompress keys code.toNat bytes = some script) :
    Reads (unserialize keys) (code :: bytes) script := by
  have hbyte : code.toNat < 128 := hcode.trans (by decide)
  refine (reads_byte hbyte).bind ?_
  rw [if_pos hcode]
  have hr := (Streams.reads_take hlen).map fun vch =>
    (decompress keys code.toNat vch).getD []
  rwa [hscr, getD_some] at hr

theorem and_one_cases (byte : UInt8) : byte &&& 0x01 = 0 ∨ byte &&& 0x01 = 1 := by
  have hmod : (byte &&& 0x01).toNat = byte.toNat % 2 := by
    exact Nat.and_one_is_mod byte.toNat
  rcases Nat.mod_two_eq_zero_or_one byte.toNat with hzero | hone
  · exact .inl (UInt8.toNat_inj.mp (hmod.trans hzero))
  · exact .inr (UInt8.toNat_inj.mp (hmod.trans hone))

theorem cons_drop_of_getD (hpos : 0 < pubkey.length) (h : pubkey.getD 0 0 = byte) :
    byte :: pubkey.drop 1 = pubkey := by
  cases pubkey with
  | nil => cases hpos
  | cons first rest =>
    rw [← h]
    rfl

/-- The short form of a key is read as the script the key came from. -/
theorem reads_pubKey (hkeys : keys.Lawful) (h : isToPubKey keys script = some pubkey) :
    ∃ compr, compressPubKey pubkey = some compr ∧ Reads (unserialize keys) compr script := by
  have hsize : 33 ≤ pubkey.length → ((pubkey.drop 1).take 32).length = 32 := by
    intro hlen
    rw [length_take, length_drop]
    omega
  rcases isToPubKey_spec h with ⟨hscr, hlen, hfst⟩ | ⟨hscr, hlen, hfst, hval⟩
  · have htake : (pubkey.drop 1).take 32 = pubkey.drop 1 :=
      take_of_length_le (by rw [length_drop]; omega)
    rw [htake] at hsize
    rcases hfst with htwo | ht
    · refine ⟨0x02 :: pubkey.drop 1, by simp only [compressPubKey, htwo, htake]; rfl,
        reads_special (by decide) (hsize (by omega)) ?_⟩
      rw [hscr, ← cons_drop_of_getD (by omega) htwo]
      rfl
    · refine ⟨0x03 :: pubkey.drop 1, by simp only [compressPubKey, ht, htake]; rfl,
        reads_special (by decide) (hsize (by omega)) ?_⟩
      rw [hscr, ← cons_drop_of_getD (by omega) ht]
      rfl
  · have hback := hkeys pubkey hlen hfst hval
    refine ⟨(0x04 ||| (pubkey.getD 64 0 &&& 0x01)) :: (pubkey.drop 1).take 32,
      by simp only [compressPubKey, hfst]; rfl, ?_⟩
    rcases and_one_cases (pubkey.getD 64 0) with hzero | hone
    · rw [hzero] at hback ⊢
      refine reads_special (by decide) (hsize (by omega)) ?_
      rw [hscr]
      exact congrArg (Option.map fun key => [65] ++ key ++ [OP_CHECKSIG]) hback
    · rw [hone] at hback ⊢
      refine reads_special (by decide) (hsize (by omega)) ?_
      rw [hscr]
      exact congrArg (Option.map fun key => [65] ++ key ++ [OP_CHECKSIG]) hback

/-- **Scripts.**  A script whose length leaves room for the special forms is read as itself. -/
theorem reads_script (hkeys : keys.Lawful) (hlen : script.length + nSpecialScripts < 2 ^ 32) :
    Reads (unserialize keys) (serialize keys script) script := by
  unfold serialize compress
  cases hkeyID : isToKeyID script with
  | some keyID =>
    obtain ⟨hscr, hsize⟩ := isToKeyID_spec hkeyID
    exact reads_special (by decide) hsize (by rw [hscr]; rfl)
  | none =>
    cases hscriptID : isToScriptID script with
    | some scriptID =>
      obtain ⟨hscr, hsize⟩ := isToScriptID_spec hscriptID
      exact reads_special (by decide) hsize (by rw [hscr]; rfl)
    | none =>
      cases hp : isToPubKey keys script with
      | some pubkey =>
        obtain ⟨compr, hc, hr⟩ := reads_pubKey hkeys hp
        simpa only [hc] using hr
      | none =>
        -- no special form: the length says so
        have hr := reads_varInt (show 7 ≤ 32 by decide) hlen
        rw [← Nat.mod_eq_of_lt hlen] at hr
        refine hr.bind ?_
        rw [Nat.mod_eq_of_lt hlen, if_neg (by omega)]
        exact Streams.reads_take (by omega)

end CScriptCompressor

/-! ### Outputs -/

/-- The most that any of the networks allows as an amount. -/
theorem nMaxMoneyOut_le {params : CChainParams}
    (h : params ∈ [mainParams, testNetParams, regTestParams]) :
    params.nMaxMoneyOut ≤ 2535000000 * COIN := by
  simp only [mem_cons, not_mem_nil, or_false] at h
  rcases h with rfl | rfl | rfl
  · decide
  · decide
  · decide

theorem CTxOutCompressor.reads_txOut (hkeys : keys.Lawful) {txout : CTxOut}
    (hlow : 0 ≤ txout.nValue) (hhigh : txout.nValue ≤ 2535000000 * COIN)
    (hlen : txout.scriptPubKey.length + nSpecialScripts < 2 ^ 32) :
    Reads (unserialize keys) (serialize keys txout) txout := by
  obtain ⟨nValue, script⟩ := txout
  obtain ⟨amount, rfl⟩ := Int.eq_ofNat_of_zero_le hlow
  have ha : amount ≤ 253500000000000000 := by
    simp only [COIN] at hhigh
    omega
  have hu : ((amount : Int) % 2 ^ 64).toNat = amount := by omega
  have hv : Wrapping.wrap (decompressAmount (compressAmount amount)) = amount := by
    rw [decompressAmount_compressAmount (by omega), Wrapping.wrap_eq_self_iff]
    exact ⟨by omega, by omega⟩
  have hnum : Reads (readVarInt 64) (writeVarInt 64 (compressAmount amount))
      (compressAmount amount) := reads_varInt (by decide) (compressAmount_lt amount)
  have hr := (CScriptCompressor.reads_script hkeys hlen).map fun scriptPubKey : CScript =>
    (⟨amount, scriptPubKey⟩ : CTxOut)
  unfold serialize unserialize
  rw [hu]
  refine hnum.bind ?_
  rw [hv]
  exact hr

end Divi
