/-
Coins and undo data come back from disk.

The mask is read up to its last byte that is not zero, because that is how many such bytes the
header code announces; its bits are the availability of the outputs from the third on.  The
outputs that are there are read one after the other and the others are null, so cleaned-up coins
come back.  Undo data of the last output at height zero is the exception: its version is not
written.
-/
import Divi.CoinsSerialization
import Divi.Lib.Ranges
import Divi.Proofs.Coins
import Divi.Proofs.Compressor
import Divi.Validation

namespace Divi

open CCoins List

open Streams (Reads)
open Ranges (lastUsed lastUsed_spec lastUsed_count flatMap_filter_eq flatMap_range_of_le)

variable {keys : PubKeys} {n : Nat}

/-! ### Bytes of the mask -/

/-- A byte with given bits. -/
def byteOfBits (available : Nat → Bool) : UInt8 :=
  (List.range 8).foldl (fun ch i => if available i then ch ||| (1 <<< UInt8.ofNat i) else ch) 0

theorem byteOfBits_spec (available : Nat → Bool) :
    maskBits (byteOfBits available) = (List.range 8).map available ∧
      (byteOfBits available != 0) = !(List.range 8).all fun i => !available i := by
  have hall : ∀ b0 b1 b2 b3 b4 b5 b6 b7 : Bool,
      let available := fun i => [b0, b1, b2, b3, b4, b5, b6, b7].getD i false
      maskBits (byteOfBits available) = (List.range 8).map available ∧
        (byteOfBits available != 0) = !(List.range 8).all fun i => !available i := by
    decide +kernel
  exact hall (available 0) (available 1) (available 2) (available 3) (available 4) (available 5)
    (available 6) (available 7)

/-! ### Reading the mask -/

theorem reads_mask {bytes : List UInt8} (hl : ∀ h : bytes ≠ [], bytes.getLast h ≠ 0)
    (vAvail : List Bool) :
    Reads (readMask (bytes.countP (· != 0)) vAvail) bytes
      (vAvail ++ bytes.flatMap maskBits) := by
  induction bytes generalizing vAvail with
  | nil =>
    intro rest
    simp [readMask]
  | cons ch bytes ih =>
    intro rest
    have hre : ∀ h : bytes ≠ [], bytes.getLast h ≠ 0 := by
      intro h
      have hcons := hl (cons_ne_nil ch bytes)
      rwa [getLast_cons h] at hcons
    have hr := ih hre (vAvail ++ maskBits ch) rest
    rw [countP_cons, cons_append]
    by_cases hch : ch = 0
    · -- a zero byte is not counted, so there is another one to come
      have hne : bytes ≠ [] := by
        rintro rfl
        exact hl (cons_ne_nil ch []) hch
      obtain ⟨count, hcnt⟩ : ∃ count, bytes.countP (· != 0) = count + 1 := by
        refine Nat.exists_eq_add_one.mpr (countP_pos_iff.mpr ⟨_, getLast_mem hne, ?_⟩)
        simpa using hre hne
      rw [hcnt] at hr ⊢
      simpa [readMask, hch] using hr
    · simpa [readMask, hch] using hr

/-! ### Flags -/

/-- Flags as bits. -/
def flagBits (b0 b1 b2 b3 : Bool) : Nat :=
  (if b0 then 1 else 0) + (if b1 then 2 else 0) + (if b2 then 4 else 0) + if b3 then 8 else 0

theorem flagBits_spec (b0 b1 b2 b3 : Bool) :
    flagBits b0 b1 b2 b3 < 2 ^ 4 ∧ (flagBits b0 b1 b2 b3).testBit 0 = b0 ∧
      (flagBits b0 b1 b2 b3).testBit 1 = b1 ∧ (flagBits b0 b1 b2 b3).testBit 2 = b2 ∧
      (flagBits b0 b1 b2 b3).testBit 3 = b3 := by
  revert b0 b1 b2 b3
  decide

theorem twoFlags_spec (b0 b1 : Bool) :
    flagBits b0 b1 false false < 2 ^ 2 ∧ (flagBits b0 b1 false false).testBit 0 = b0 ∧
      (flagBits b0 b1 false false).testBit 1 = b1 := by
  revert b0 b1
  decide

/-! ### The mask of coins -/

namespace CCoins

variable (coins : CCoins)

theorem calcMaskSize_eq :
    coins.calcMaskSize = lastUsed coins.maskByteIsZero ((coins.vout.length + 5) / 8) := rfl

theorem isAvailable_lt (h : coins.isAvailable n = true) : n < coins.vout.length := by
  unfold isAvailable at h
  cases hget : coins.vout[n]? with
  | none =>
    rw [hget] at h
    cases h
  | some out => exact (List.getElem?_eq_some_iff.mp hget).1

theorem not_isAvailable_of_mask (h : 2 + 8 * coins.calcMaskSize.1 ≤ n) :
    coins.isAvailable n = false := by
  by_contra hyes
  have hlt := coins.isAvailable_lt (by simpa using hyes)
  have hzero := (lastUsed_spec coins.maskByteIsZero ((coins.vout.length + 5) / 8)).2.1 ((n - 2) / 8)
    (by rw [← calcMaskSize_eq]; omega) (by omega)
  have hbit := all_eq_true.mp hzero ((n - 2) % 8) (mem_range.mpr (by omega))
  rw [show 2 + (n - 2) / 8 * 8 + (n - 2) % 8 = n by omega] at hbit
  simp [hyes] at hbit

theorem chAvail_ne_zero (b : Nat) : (coins.chAvail b != 0) = !coins.maskByteIsZero b :=
  (byteOfBits_spec fun i => coins.isAvailable (2 + b * 8 + i)).2

/-- The bytes of the mask are read, and give the availability of all outputs. -/
theorem reads_availability :
    Reads (readMask coins.calcMaskSize.2 [coins.isAvailable 0, coins.isAvailable 1])
      ((List.range coins.calcMaskSize.1).map coins.chAvail)
      ((List.range (2 + 8 * coins.calcMaskSize.1)).map coins.isAvailable) := by
  have hused := (lastUsed_spec coins.maskByteIsZero ((coins.vout.length + 5) / 8)).2.2
  have hl : ∀ h : (List.range coins.calcMaskSize.1).map coins.chAvail ≠ [],
      ((List.range coins.calcMaskSize.1).map coins.chAvail).getLast h ≠ 0 := by
    intro h
    obtain ⟨b, hb⟩ : ∃ b, coins.calcMaskSize.1 = b + 1 := by
      refine Nat.exists_eq_add_one.mpr (Nat.pos_of_ne_zero fun hn => h ?_)
      rw [hn]
      rfl
    have hnot : (coins.chAvail b != 0) = true := by
      rw [chAvail_ne_zero, hused b hb]
      rfl
    simpa [hb, range_succ] using hnot
  have hcnt : ((List.range coins.calcMaskSize.1).map coins.chAvail).countP (· != 0) =
      coins.calcMaskSize.2 := by
    rw [coins.calcMaskSize_eq, lastUsed_count, ← calcMaskSize_eq, countP_map]
    refine countP_congr fun b _ => ?_
    rw [Function.comp_apply, chAvail_ne_zero]
  have hr := reads_mask hl [coins.isAvailable 0, coins.isAvailable 1]
  have hbits : ((List.range coins.calcMaskSize.1).map coins.chAvail).flatMap maskBits =
      (List.range coins.calcMaskSize.1).flatMap fun b =>
        (List.range 8).map fun i => coins.isAvailable (2 + b * 8 + i) := by
    rw [flatMap_map]
    exact flatMap_congr fun b _ => (byteOfBits_spec _).1
  have hblks := Ranges.map_range_blocks coins.isAvailable 2 8 coins.calcMaskSize.1
  rw [hcnt, hbits] at hr
  exact hblks ▸ hr

/-! ### The outputs of coins -/

/-- What can be stored: version and height are an `int` that is not negative, amounts are in the
range of money, and lengths leave room in 32 bits. -/
structure Storable (params : CChainParams) : Prop where
  clean : coins.Clean
  unspent : coins.isPruned = false
  nVersion : 0 ≤ coins.nVersion ∧ coins.nVersion < 2 ^ 31
  nHeight : 0 ≤ coins.nHeight ∧ coins.nHeight < 2 ^ 31
  amounts : ∀ txout ∈ coins.vout, txout.isNull = false →
    moneyRange txout.nValue params.nMaxMoneyOut = true
  scripts : ∀ txout ∈ coins.vout, txout.scriptPubKey.length + nSpecialScripts < 2 ^ 32
  mask : coins.calcMaskSize.2 < 2 ^ 28

variable {coins}

theorem mem_of_isAvailable (h : coins.isAvailable n = true) :
    coins.outAt n ∈ coins.vout ∧ (coins.outAt n).isNull = false := by
  refine ⟨?_, (isAvailable_iff coins n).mp h⟩
  have hlt := coins.isAvailable_lt h
  rw [outAt, getD_eq_getElem _ _ hlt]
  exact getElem_mem hlt

section

variable (hkeys : keys.Lawful) {params : CChainParams}
  (hpa : params ∈ [mainParams, testNetParams, regTestParams]) (h : coins.Storable params)

include hkeys hpa h

theorem Storable.reads_output (hav : coins.isAvailable n = true) :
    Reads (CTxOutCompressor.unserialize keys) (CTxOutCompressor.serialize keys (coins.outAt n))
      (coins.outAt n) := by
  obtain ⟨hmem, hnull⟩ := mem_of_isAvailable hav
  obtain ⟨hlow, hhigh⟩ := moneyRange_iff.mp (h.amounts _ hmem hnull)
  exact CTxOutCompressor.reads_txOut hkeys hlow (hhigh.trans (nMaxMoneyOut_le hpa))
    (h.scripts _ hmem)

omit hkeys hpa h in
/-- What is written of the outputs, position by position as far as the mask goes. -/
theorem flatMap_outputs (f : CTxOut → List UInt8) :
    (coins.vout.filter fun txout => !txout.isNull).flatMap f =
      (List.range (2 + 8 * coins.calcMaskSize.1)).flatMap fun n =>
        if coins.isAvailable n then f (coins.outAt n) else [] := by
  have hall : coins.vout = (List.range coins.vout.length).map coins.outAt := by
    refine ext_getElem (by simp) fun n hn _ => ?_
    simp [outAt, hn]
  have hw : ∀ n, coins.isAvailable n = !(coins.outAt n).isNull := by
    intro n
    rw [Bool.eq_iff_iff, isAvailable_iff, Bool.not_eq_true']
  have hf : (coins.vout.filter fun txout => !txout.isNull).flatMap f =
      (List.range coins.vout.length).flatMap fun n =>
        if coins.isAvailable n then f (coins.outAt n) else [] := by
    conv_lhs => rw [hall]
    simp only [flatMap_filter_eq, flatMap_map, hw]
  have hend : ∀ n, coins.vout.length ≤ n → coins.isAvailable n = false := by
    intro n hle
    by_contra hyes
    have hlt := coins.isAvailable_lt (by simpa using hyes)
    omega
  rw [hf, ← flatMap_range_of_le (Nat.le_add_right coins.vout.length (2 + 8 * coins.calcMaskSize.1)),
    ← flatMap_range_of_le (Nat.le_add_left (2 + 8 * coins.calcMaskSize.1) coins.vout.length)]
  · intro n hle _
    simp [coins.not_isAvailable_of_mask hle]
  · intro n hle _
    simp [hend n hle]

/-- The outputs that are there are read, and the others are null. -/
theorem Storable.reads_outputs :
    Reads (((List.range (2 + 8 * coins.calcMaskSize.1)).map coins.isAvailable).mapM fun available =>
        if available then CTxOutCompressor.unserialize keys else pure CTxOut.null)
      ((coins.vout.filter fun txout => !txout.isNull).flatMap (CTxOutCompressor.serialize keys))
      ((List.range (2 + 8 * coins.calcMaskSize.1)).map coins.outAt) := by
  rw [flatMap_outputs, mapM_map]
  refine Streams.reads_mapM fun n _ => ?_
  rw [Function.comp_apply]
  cases hav : coins.isAvailable n with
  | true => exact h.reads_output hkeys hpa hav
  | false =>
    have hnull : coins.outAt n = CTxOut.null := by
      refine h.clean.outAt_null ?_
      by_contra hnot
      rw [(isAvailable_iff coins n).mpr (by simpa using hnot)] at hav
      cases hav
    rw [hnull]
    exact Streams.reads_pure CTxOut.null

end

/-! ### The header code -/

theorem headerCode_eq {nMaskCode : Nat} (hmask : nMaskCode < 2 ^ 28) :
    coins.headerCode nMaskCode =
      2 ^ 4 * (nMaskCode - if coins.isAvailable 0 || coins.isAvailable 1 then 0 else 1) +
        flagBits coins.fCoinBase coins.fCoinStake (coins.isAvailable 0) (coins.isAvailable 1) := by
  have hlow := (flagBits_spec coins.fCoinBase coins.fCoinStake (coins.isAvailable 0)
    (coins.isAvailable 1)).1
  unfold headerCode
  rw [Nat.mod_eq_of_lt]
  · simp only [flagBits]
    omega
  · simp only [flagBits] at hlow
    omega

/-- The bits of the header code, and the number of mask bytes above them. -/
theorem headerCode_spec {nMaskCode : Nat} (hmask : nMaskCode < 2 ^ 28) :
    let nCode := coins.headerCode nMaskCode
    (nCode.testBit 0 = coins.fCoinBase ∧ nCode.testBit 1 = coins.fCoinStake) ∧
      (nCode.testBit 2 = coins.isAvailable 0 ∧ nCode.testBit 3 = coins.isAvailable 1) ∧
      nCode / 16 = nMaskCode - if coins.isAvailable 0 || coins.isAvailable 1 then 0 else 1 := by
  obtain ⟨hlow, h0, h1, h2, h3⟩ := flagBits_spec coins.fCoinBase coins.fCoinStake
    (coins.isAvailable 0) (coins.isAvailable 1)
  rw [headerCode_eq hmask]
  simp only [Nat.testBit_two_pow_mul_add _ hlow, Nat.reduceLT, if_true, h0, h1, h2, h3, and_self,
    true_and]
  omega

/-! ### Coins -/

theorem exists_isAvailable (hun : coins.isPruned = false) :
    ∃ n, coins.isAvailable n = true := by
  obtain ⟨out, hout, hnull⟩ := all_eq_false.mp hun
  obtain ⟨n, hn⟩ := List.getElem?_of_mem hout
  refine ⟨n, ?_⟩
  rw [isAvailable, hn]
  simpa using hnull

theorem calcMaskSize_fst_eq_zero (h : coins.calcMaskSize.2 = 0) : coins.calcMaskSize.1 = 0 := by
  have hused := (lastUsed_spec coins.maskByteIsZero ((coins.vout.length + 5) / 8)).2.2
  rw [calcMaskSize_eq, lastUsed_count, countP_eq_zero] at h
  rw [← calcMaskSize_eq] at hused h
  cases hsize : coins.calcMaskSize.1 with
  | zero => rfl
  | succ b => exact absurd (hused b hsize) (by simpa using h b (mem_range.mpr (by omega)))

theorem hasUnspent (hun : coins.isPruned = false) :
    coins.isAvailable 0 = true ∨ coins.isAvailable 1 = true ∨ 0 < coins.calcMaskSize.2 := by
  obtain ⟨n, hn⟩ := exists_isAvailable hun
  by_contra hno
  simp only [not_or, Nat.not_lt, Nat.le_zero] at hno
  obtain ⟨hfst, hsnd, hmask⟩ := hno
  have hsize := calcMaskSize_fst_eq_zero hmask
  have hlt : n < 2 := by
    by_contra hge
    have hnot := coins.not_isAvailable_of_mask (show 2 + 8 * coins.calcMaskSize.1 ≤ n by omega)
    rw [hn] at hnot
    cases hnot
  obtain rfl | rfl : n = 0 ∨ n = 1 := by omega
  · exact hfst hn
  · exact hsnd hn

/-- What is asserted before coins are written. -/
theorem asserted (hun : coins.isPruned = false) :
    (!coins.isAvailable 0 && !coins.isAvailable 1 && coins.calcMaskSize.2 == 0) = false := by
  rcases hasUnspent hun with hyes | hyes | hyes
  · simp [hyes]
  · simp [hyes]
  · simp [hyes.ne']

/-- Cleaned-up coins are what is left of their outputs as far as the mask goes. -/
theorem cleanup_outputs (hc : coins.Clean) :
    cleanup { coins with vout := (List.range (2 + 8 * coins.calcMaskSize.1)).map coins.outAt } =
      coins := by
  have hnu : ∀ out ∈ (List.range (2 + 8 * coins.calcMaskSize.1)).map coins.outAt,
      out.isNull = true → out = CTxOut.null := by
    intro out hout hnull
    obtain ⟨n, -, rfl⟩ := mem_map.mp hout
    exact hc.outAt_null hnull
  refine Clean.ext (cleanup_clean hnu) hc rfl rfl rfl rfl fun n => ?_
  rw [outAt_cleanup hnu]
  by_cases hn : n < 2 + 8 * coins.calcMaskSize.1
  · simp [outAt, hn]
  · have hnot := coins.not_isAvailable_of_mask (Nat.le_of_not_lt hn)
    have hnull : coins.outAt n = CTxOut.null := by
      refine hc.outAt_null ?_
      by_contra hyes
      rw [(isAvailable_iff coins n).mpr (by simpa using hyes)] at hnot
      cases hnot
    rw [hnull, outAt, getD_eq_default]
    simpa using hn

theorem Storable.reads_coins (hkeys : keys.Lawful) {params : CChainParams}
    (hpa : params ∈ [mainParams, testNetParams, regTestParams]) (h : coins.Storable params) :
    ∃ bytes, coins.serialize keys = some bytes ∧ Reads (unserialize keys) bytes coins := by
  have hun := hasUnspent h.unspent
  obtain ⟨⟨h0, h1⟩, ⟨h2, h3⟩, hdiv⟩ := @headerCode_spec coins _ h.mask
  have hcode : coins.headerCode coins.calcMaskSize.2 < 2 ^ 32 := Nat.mod_lt _ (by decide)
  refine ⟨_, if_neg (Bool.eq_false_iff.mp (asserted h.unspent)), ?_⟩
  simp only [append_assoc]
  refine (reads_varIntSigned h.nVersion.1 h.nVersion.2).bind ?_
  refine (reads_varInt (by decide) hcode).bind ?_
  have ha : coins.headerCode coins.calcMaskSize.2 / 16 +
      (if coins.isAvailable 0 || coins.isAvailable 1 then 0 else 1) = coins.calcMaskSize.2 := by
    rw [hdiv]
    cases hfst : coins.isAvailable 0 || coins.isAvailable 1 with
    | true => simp
    | false =>
      rw [Bool.or_eq_false_iff] at hfst
      simp only [hfst, Bool.false_eq_true, false_or] at hun
      simp only [Bool.false_eq_true, if_false]
      omega
  simp only [h0, h1, h2, h3, ha]
  refine coins.reads_availability.bind ?_
  refine (h.reads_outputs hkeys hpa).bind ?_
  have hr := (reads_varIntSigned h.nHeight.1 h.nHeight.2).map fun nHeight : Int =>
    cleanup { coins with
      vout := (List.range (2 + 8 * coins.calcMaskSize.1)).map coins.outAt
      nHeight := nHeight }
  rwa [cleanup_outputs h.clean] at hr

/-! ### Sizes -/

/-- The number in the upper part of the header code. -/
def maskCode (coins : CCoins) : Nat :=
  coins.calcMaskSize.2 - if coins.isAvailable 0 || coins.isAvailable 1 then 0 else 1

/-- The lower part of the header code. -/
def flagCode (coins : CCoins) : Nat :=
  flagBits coins.fCoinBase coins.fCoinStake (coins.isAvailable 0) (coins.isAvailable 1)

/-- **The reckoned size of coins.**  It is the number of bytes that are written exactly when the
header code takes as many bytes with the factor 8 as with 16, and 32 bits are enough for it. -/
theorem getSerializeSize_exact_iff (keys : PubKeys) (hun : coins.isPruned = false)
    (hver : 0 ≤ coins.nVersion ∧ coins.nVersion < 2 ^ 31)
    (hht : 0 ≤ coins.nHeight ∧ coins.nHeight < 2 ^ 31) :
    ∃ bytes, coins.serialize keys = some bytes ∧
      (coins.getSerializeSize keys = some bytes.length ↔ bytes.length < 2 ^ 32 ∧
        ∀ k, varIntFloor k ≤ (8 * coins.maskCode + coins.flagCode) % 2 ^ 32 ↔
          varIntFloor k ≤ (16 * coins.maskCode + coins.flagCode) % 2 ^ 32) := by
  have hcode : ∀ factor, (factor * (coins.calcMaskSize.2 -
      if coins.isAvailable 0 || coins.isAvailable 1 then 0 else 1) +
      (if coins.fCoinBase then 1 else 0) + (if coins.fCoinStake then 2 else 0) +
      (if coins.isAvailable 0 then 4 else 0) + (if coins.isAvailable 1 then 8 else 0)) % 2 ^ 32 =
        (factor * coins.maskCode + coins.flagCode) % 2 ^ 32 := by
    intro factor
    simp only [maskCode, flagCode, flagBits, Nat.add_assoc]
  have hr := getSizeOfVarInt_le (Nat.mod_lt (8 * coins.maskCode + coins.flagCode)
    (Nat.two_pow_pos 32))
  rw [serialize, getSerializeSize]
  simp only [asserted hun, headerCode, hcode, if_false, Bool.false_eq_true, Option.some.injEq,
    exists_eq_left', ← getSizeOfVarInt_eq_iff, length_append, length_flatMap,
    length_map, length_range]
  rw [length_writeVarInt (by omega), length_writeVarInt (by omega), length_writeVarInt (by omega)]
  -- a sum that wraps around is too small by more than the five bytes of a code
  omega

/-- Three bytes in the mask. -/
theorem getSerializeSize_exact_many_outputs :
    let keys : PubKeys := { isFullyValid := fun _ => false, decompress := fun _ => none }
    let coins : CCoins :=
      { vout := List.replicate 20 ⟨100, [0x51]⟩, nHeight := 1000, nVersion := 1 }
    ∃ bytes, coins.serialize keys = some bytes ∧
      coins.getSerializeSize keys = some bytes.length := by
  intro keys coins
  obtain ⟨bytes, hb, hiff⟩ :=
    @getSerializeSize_exact_iff coins keys (by decide +kernel) (by decide) (by decide)
  have hs : ∀ bytes ∈ coins.serialize keys, bytes.length < 2 ^ 32 := by decide +kernel
  exact ⟨bytes, hb, hiff.mpr ⟨hs bytes hb,
    (getSizeOfVarInt_eq_iff _ _).mp (by decide +kernel)⟩⟩

/-- Eight bytes in the mask make the header code one byte longer than is reckoned. -/
theorem getSerializeSize_one_short :
    let keys : PubKeys := { isFullyValid := fun _ => false, decompress := fun _ => none }
    let coins : CCoins :=
      { vout := List.replicate 66 ⟨100, [0x51]⟩, nHeight := 1000, nVersion := 1 }
    (coins.serialize keys).map List.length = some 211 ∧
      coins.getSerializeSize keys = some 210 := by
  decide +kernel

end CCoins

/-! ### Undo data -/

namespace CTxInUndo

variable (undo : CTxInUndo)

section

variable
  (ht : Reads (CTxOutCompressor.unserialize keys) (CTxOutCompressor.serialize keys undo.txout)
    undo.txout)
  (hht : 0 ≤ undo.nHeight ∧ undo.nHeight < 2 ^ 30)
  (hver : 0 ≤ undo.nVersion ∧ undo.nVersion < 2 ^ 31)

include ht hht hver

/-- Undo data is read but for a version at height zero. -/
theorem reads_undo : Reads (unserialize keys) (undo.serialize keys)
      { undo with nVersion := if undo.nHeight > 0 then undo.nVersion else 0 } := by
  obtain ⟨txout, fCoinBase, fCoinStake, nHeight, nVersion⟩ := undo
  dsimp only at ht hht hver ⊢
  obtain ⟨height, rfl⟩ := Int.eq_ofNat_of_zero_le hht.1
  obtain ⟨hlow, h0, h1⟩ := twoFlags_spec fCoinStake fCoinBase
  have hcode : ((height : Int) * 4 + (if fCoinBase then 2 else 0) +
      if fCoinStake then 1 else 0) % 2 ^ 32 =
        (2 ^ 2 * height + flagBits fCoinStake fCoinBase false false : Nat) := by
    simp only [flagBits] at hlow ⊢
    cases fCoinBase <;> cases fCoinStake <;> simp at hlow ⊢ <;> omega
  have hdiv : (2 ^ 2 * height + flagBits fCoinStake fCoinBase false false) / 4 = height := by
    omega
  unfold serialize unserialize
  rw [hcode, append_assoc]
  refine (reads_varInt (by decide) (by omega)).bind ?_
  simp only [hdiv, Nat.testBit_two_pow_mul_add _ hlow, Nat.reduceLT, if_true, h0, h1]
  by_cases hpos : 0 < height
  · have hpos' : (height : Int) > 0 := by omega
    simp only [hpos, hpos', if_true]
    refine (reads_varIntSigned hver.1 hver.2).bind ?_
    exact ht.map fun txout => (⟨txout, fCoinBase, fCoinStake, height, nVersion⟩ : CTxInUndo)
  · have hpos' : ¬ (height : Int) > 0 := by omega
    simp only [hpos, hpos', if_false]
    refine (Streams.reads_pure 0).bind ?_
    exact ht.map fun txout => (⟨txout, fCoinBase, fCoinStake, height, 0⟩ : CTxInUndo)

theorem reads_undo_iff : Reads (unserialize keys) (undo.serialize keys) undo ↔
      0 < undo.nHeight ∨ undo.nVersion = 0 := by
  have hr := reads_undo undo ht hht hver
  constructor
  · intro hs
    by_cases hpos : 0 < undo.nHeight
    · exact .inl hpos
    · have hzero := congrArg nVersion (hs.unique hr)
      rw [if_neg hpos] at hzero
      exact .inr hzero
  · intro hor
    have hver' : (if undo.nHeight > 0 then undo.nVersion else 0) = undo.nVersion := by
      split
      · rfl
      · omega
    rwa [hver'] at hr

end

end CTxInUndo

/--
**Coins and undo data on disk.**  Coins that can be stored are read from what was written, and
nothing more is taken from the stream.  The same holds for the undo data of a spend, unless the
spend takes the last output at height zero and the version is not zero.
-/
theorem serialization_roundtrip {keys : PubKeys} (hkeys : keys.Lawful) {params : CChainParams}
    (hpa : params ∈ [mainParams, testNetParams, regTestParams]) {coins : CCoins}
    (h : coins.Storable params) :
    (∃ bytes, coins.serialize keys = some bytes ∧
      ∀ rest, CCoins.unserialize keys (bytes ++ rest) = some (coins, rest)) ∧
    ∀ nPos spent undo, coins.nHeight < 2 ^ 30 → coins.spend nPos = some (spent, undo) →
      ((∀ rest, CTxInUndo.unserialize keys (undo.serialize keys ++ rest) = some (undo, rest)) ↔
        (spent.isPruned = true → 0 < coins.nHeight ∨ coins.nVersion = 0)) := by
  refine ⟨h.reads_coins hkeys hpa, ?_⟩
  intro nPos spent undo hht hsp
  have hs := spend_spec h.clean hsp
  have hav := (isAvailable_iff coins nPos).mpr hs.available
  have hout := h.reads_output hkeys hpa hav
  cases hp : spent.isPruned with
  | true =>
    have hundo := hs.undo_last hp
    have hiff := CTxInUndo.reads_undo_iff undo (by rw [hundo]; exact hout)
      (by rw [hundo]; exact ⟨h.nHeight.1, hht⟩) (by rw [hundo]; exact h.nVersion)
    simp only [true_imp_iff]
    rw [hundo] at hiff ⊢
    exact hiff
  | false =>
    -- Outputs are left, so that the undo data has neither a height nor a version.
    have hundo := hs.undo_other hp
    have hiff := CTxInUndo.reads_undo_iff undo (by rw [hundo]; exact hout)
      (by rw [hundo]; exact ⟨le_rfl, by norm_num⟩) (by rw [hundo]; exact ⟨le_rfl, by norm_num⟩)
    simp only [Bool.false_eq_true, false_imp_iff, iff_true]
    exact hiff.mpr (.inr (by rw [hundo]))

/-- The third output of a staking transaction at height seven. -/
theorem serialization_roundtrip_third_output :
    let pubkey : valtype := 0x04 :: List.replicate 64 7
    let keys : PubKeys := {
      isFullyValid := fun key => key == pubkey
      decompress := fun key => if key = 0x03 :: List.replicate 32 7 then some pubkey else none }
    let coins : CCoins := {
      fCoinStake := true
      vout := [CTxOut.null, CTxOut.null,
        { nValue := 1000, scriptPubKey := 65 :: pubkey ++ [OP_CHECKSIG] }]
      nHeight := 7
      nVersion := 1 }
    keys.Lawful ∧ coins.Storable mainParams ∧
    (∃ bytes, coins.serialize keys = some bytes ∧
      ∀ rest, CCoins.unserialize keys (bytes ++ rest) = some (coins, rest)) ∧
    ∃ spent undo, coins.spend 2 = some (spent, undo) ∧
      ∀ rest, CTxInUndo.unserialize keys (undo.serialize keys ++ rest) = some (undo, rest) := by
  intro pubkey keys coins
  have hkeys : keys.Lawful := by
    intro key _ _ hval
    obtain rfl : key = pubkey := eq_of_beq hval
    exact if_pos (by decide)
  have hcns : coins.Storable mainParams :=
    ⟨⟨by decide, by decide⟩, by decide, by decide, by decide, by decide, by decide, by decide⟩
  have hboth := serialization_roundtrip hkeys mem_cons_self hcns
  refine ⟨hkeys, hcns, hboth.1, _, _, rfl, ?_⟩
  exact (hboth.2 2 _ _ (by decide) rfl).mpr fun _ => .inl (by decide)

/-- At height zero the version of coins is not in the undo data. -/
theorem undo_loses_version_at_height_zero :
    let keys : PubKeys := { isFullyValid := fun _ => false, decompress := fun _ => none }
    let coins : CCoins := {
      vout := [{ nValue := 100, scriptPubKey := [0x51] }]
      nVersion := 1 }
    keys.Lawful ∧ coins.Storable mainParams ∧
    ∃ spent undo, coins.spend 0 = some (spent, undo) ∧ undo.nVersion = 1 ∧
      CTxInUndo.unserialize keys (undo.serialize keys) =
        some ({ undo with nVersion := 0 }, []) := by
  refine ⟨?_, ?_, _, _, rfl, rfl, by decide +kernel⟩
  · intro key _ _ hval
    cases hval
  · exact ⟨⟨by decide, by decide⟩, by decide, by decide, by decide, by decide, by decide, by decide⟩

end Divi
