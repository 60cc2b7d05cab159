/-
An amount below 10^18 that is not negative is read back from its text.
-/
import Divi.MoneyStrings
import Mathlib.Data.List.TakeWhile

namespace Divi

open List Nat

variable {c : Char} {digits whole decimals : StdString} {j k n : Nat}

theorem isspace_of_isDigit (h : c.isDigit) : isspace c = false := by
  have hlow := of_decide_eq_true (Bool.and_eq_true_iff.mp h).1
  refine decide_eq_false ?_
  rintro (rfl | ⟨-, hhigh⟩)
  · cases h
  · exact absurd (UInt32.le_trans hlow hhigh) (by decide)

/-- Only zeros at the end of the decimals go. -/
theorem trimZeros_decimals (h : ∀ d ∈ digits, d.isDigit) (hlen : 2 ≤ digits.length)
    (whole : StdString) : ∃ k kept, digits = replicate k '0' ++ kept ∧
      trimZeros (digits ++ '.' :: whole) = kept ++ '.' :: whole := by
  induction digits with
  | nil => cases hlen
  | cons c rest ih =>
    match rest with
    | [] => simp at hlen
    | [b] => exact ⟨0, _, rfl, by simp [trimZeros]⟩
    | b :: a :: rest =>
      by_cases hzero : c = '0'
      · obtain ⟨k, kept, hkept, htrim⟩ := ih (forall_mem_of_forall_mem_cons h) (by simp)
        refine ⟨k + 1, kept, by rw [hkept, hzero]; rfl, ?_⟩
        simpa [trimZeros, hzero, h a (by simp)] using htrim
      · exact ⟨0, _, rfl, by simp [trimZeros, hzero]⟩

/-- The decimals are read as if zeros filled them up to the last multiplier. -/
theorem parseUnits_digits (h : ∀ d ∈ digits, d.isDigit) (hlen : digits.length + k = j + 1)
    (nUnits : Int) : parseUnits digits (10 ^ j) nUnits =
      (nUnits + ofDigitChars 10 (digits ++ replicate k '0') 0, []) := by
  induction digits generalizing j nUnits with
  | nil => simp [parseUnits]
  | cons c rest ih =>
    have hr : (rest ++ replicate k '0').length = j := by
      simp at hlen ⊢
      omega
    rw [parseUnits, if_pos ⟨h c mem_cons_self, by positivity⟩, cons_append, ofDigitChars_cons,
      ofDigitChars_eq_ofDigitChars_zero, hr]
    cases j with
    | zero =>
      obtain ⟨rfl, rfl⟩ : rest = [] ∧ k = 0 := by simpa using hr
      simp [parseUnits]
    | succ j =>
      rw [pow_succ, Int.mul_tdiv_cancel _ (by decide),
        ih (forall_mem_of_forall_mem_cons h) (by simpa using hr)]
      push_cast
      rw [zero_add, add_assoc, pow_succ]

theorem parseWhole_digits (h : ∀ d ∈ whole, d.isDigit) (strWhole : StdString) :
    parseWhole (whole ++ '.' :: decimals) strWhole =
      some (strWhole ++ whole, parseUnits decimals (CENT * 10) 0) := by
  induction whole generalizing strWhole with
  | nil => simp [parseWhole]
  | cons c rest ih =>
    have hd := h c mem_cons_self
    have hp : c ≠ '.' := by
      rintro rfl
      cases hd
    rw [cons_append, parseWhole, if_neg hp, isspace_of_isDigit hd, hd]
    simp [ih (forall_mem_of_forall_mem_cons h)]

theorem parseMoney_digits {nUnits : Int} (hne : whole ≠ []) (hw : ∀ d ∈ whole, d.isDigit)
    (hdec : ∀ d ∈ decimals, d.isDigit) (hten : whole.length ≤ 10)
    (hu : parseUnits decimals (CENT * 10) 0 = (nUnits, [])) (hlow : 0 ≤ nUnits)
    (hhigh : nUnits ≤ COIN) : parseMoney (whole ++ '.' :: decimals) =
      some (ofDigitChars 10 whole 0 * COIN + nUnits) := by
  have hnul : ∀ c ∈ whole ++ '.' :: decimals, decide (c ≠ '\x00') = true := by
    have hd : ∀ c : Char, c.isDigit → c ≠ '\x00' := by
      rintro _ h rfl
      cases h
    grind
  obtain ⟨c, rest, rfl⟩ := exists_cons_of_ne_nil hne
  have hs := isspace_of_isDigit (hw c mem_cons_self)
  rw [parseMoney, takeWhile_eq_self_iff.mpr hnul, cons_append,
    dropWhile_cons_of_neg (by simp [hs]), ← cons_append, parseWhole_digits hw, hu]
  exact if_neg (by simp at hten ⊢; omega)

/-- The decimals that are printed. -/
theorem decimals_spec (h : n < 10 ^ 8) (hdec : (toDigits 10 n).leftpad 8 '0' = decimals) :
    (∀ d ∈ decimals, d.isDigit) ∧ decimals.length = 8 ∧ ofDigitChars 10 decimals 0 = n := by
  subst hdec
  refine ⟨?_, ?_, ?_⟩
  · intro d hd
    obtain hd | hd := mem_append.mp hd
    · rw [eq_of_mem_replicate hd]
      rfl
    · exact isDigit_of_mem_toDigits (by decide) (by decide) hd
  · rw [length_leftpad, max_eq_left]
    exact (length_toDigits_le_iff (by decide) (by decide)).mpr h
  · simp [leftpad, ofDigitChars_append, ofDigitChars_replicate_zero]

/-- **Amounts survive formatting.** -/
theorem parseMoney_formatMoney {n : Int} (hlow : 0 ≤ n) (hhigh : n < 10 ^ 18) :
    parseMoney (formatMoney n) = some n := by
  obtain ⟨m, rfl⟩ := Int.eq_ofNat_of_zero_le hlow
  have htext : formatMoney m = (trimZeros (toDigits 10 (m / 10 ^ 8) ++ '.' ::
      (toDigits 10 (m % 10 ^ 8)).leftpad 8 '0').reverse).reverse := by
    have habs : (if (m : Int) > 0 then (m : Int) else -m) = m := by omega
    simp only [formatMoney, habs, Int.not_lt.mpr hlow, Bool.false_eq_true, false_and, if_false]
    rfl
  obtain ⟨hdi, hlen, hv⟩ := decimals_spec (mod_lt m (by decide)) rfl
  generalize (toDigits 10 (m % 10 ^ 8)).leftpad 8 '0' = decimals at *
  obtain ⟨k, kept, hkept, htrim⟩ := trimZeros_decimals
    (by simpa using hdi : ∀ d ∈ decimals.reverse, d.isDigit) (by simp [hlen])
    (toDigits 10 (m / 10 ^ 8)).reverse
  obtain rfl : decimals = kept.reverse ++ replicate k '0' := by
    rw [← reverse_reverse decimals, hkept, reverse_append, reverse_replicate]
  have hdec : ∀ d ∈ kept.reverse, d.isDigit := fun d hd => hdi d (mem_append_left _ hd)
  have hu := parseUnits_digits (j := 7) hdec (by simpa using hlen) 0
  rw [hv, zero_add] at hu
  rw [htext, reverse_append, reverse_cons, append_assoc, singleton_append, htrim, reverse_append,
    reverse_cons, reverse_reverse, append_assoc, singleton_append, parseMoney_digits toDigits_ne_nil
      (fun d => isDigit_of_mem_toDigits (by decide) (by decide)) hdec
      ((length_toDigits_le_iff (by decide) (by decide)).mpr (by omega)) hu (by omega)
      (by unfold COIN; omega), ofDigitChars_ten_toDigits]
  unfold COIN
  congr 1
  omega

/-- Two decimals stay. -/
theorem parseMoney_formatMoney_round : formatMoney 1200000000 = "12.00".toList ∧
    parseMoney (formatMoney 1200000000) = some 1200000000 :=
  ⟨by decide, parseMoney_formatMoney (by decide) (by decide)⟩

end Divi
