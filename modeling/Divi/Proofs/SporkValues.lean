/-
The values of sporks as texts.

A number comes back from its decimal notation, and no number has the separator in it, so as many
values are read as were written.  Three of the four types ask for that many; the fees ask for one
more and get the default instead.
-/
import Divi.SporkValues

namespace Divi

open List Option

open Checked (Fits check_of_fits)
open Decimal (not_mem_toDigits)

theorem lexicalCastInt_lexicalCast {z : Int} (h : Fits 32 z) :
    lexicalCastInt (lexicalCast z) = some z := by
  have hd : Nat.toDigits 10 z.natAbs ≠ [] ∧
      (Nat.toDigits 10 z.natAbs).all Char.isDigit = true :=
    ⟨Nat.toDigits_ne_nil, all_eq_true.mpr fun c hc =>
      Nat.isDigit_of_mem_toDigits (by decide) (by decide) hc⟩
  have hp : Nat.ofDigitChars 10 (Nat.toDigits 10 z.natAbs) 0 = z.natAbs := by simp
  unfold lexicalCast Decimal.render
  split
  next hneg =>
    have hv : -(z.natAbs : Int) = z := by omega
    simp only [lexicalCastInt, if_pos hd, hp, bind_some, hv, check_of_fits h]
  next hpos =>
    have hv : (z.natAbs : Int) = z := by omega
    unfold lexicalCastInt
    split
    next heq => exact absurd (heq ▸ mem_cons_self) (not_mem_toDigits rfl z.natAbs)
    next heq => exact absurd (heq ▸ mem_cons_self) (not_mem_toDigits rfl z.natAbs)
    next => simp only [if_pos hd, hp, bind_some, hv, check_of_fits h]

theorem semicolon_notMem_lexicalCast (z : Int) : ';' ∉ lexicalCast z := by
  have hd : ';' ∉ Nat.toDigits 10 z.natAbs := not_mem_toDigits rfl z.natAbs
  unfold lexicalCast Decimal.render
  split
  · simp [hd]
  · exact hd

theorem parseTokens_lexicalCast {values : List Int} (h : ∀ z ∈ values, Fits 32 z) :
    parseTokens (values.map lexicalCast) = values := by
  induction values with
  | nil => rfl
  | cons z values ih =>
    obtain ⟨hz, hr⟩ := forall_mem_cons.mp h
    rw [map_cons, parseTokens, lexicalCastInt_lexicalCast hz]
    exact congrArg _ (ih hr)

theorem parseDataPayload_buildDataPayload {values : List Int} (hne : values ≠ [])
    (h : ∀ z ∈ values, Fits 32 z) : parseDataPayload (buildDataPayload values) = values := by
  unfold parseDataPayload buildDataPayload
  rw [splitOn_intercalate]
  · exact parseTokens_lexicalCast h
  · simp [semicolon_notMem_lexicalCast]
  · simpa using hne

/-- **Values of sporks as texts.**  Values of three of the four types always come back; of the
fees, which write five values and ask for six, only the default does. -/
theorem fromString_toString_iff (payment : BlockPaymentSporkValue)
    (subsidity : BlockSubsiditySporkValue) (ticket : LotteryTicketMinValueSporkValue)
    (fee : TxFeeSporkValue) :
    ((∀ z ∈ payment.values, Fits 32 z) →
      BlockPaymentSporkValue.fromString payment.toString = payment) ∧
    ((∀ z ∈ subsidity.values, Fits 32 z) →
      BlockSubsiditySporkValue.fromString subsidity.toString = subsidity) ∧
    ((∀ z ∈ ticket.values, Fits 32 z) →
      LotteryTicketMinValueSporkValue.fromString ticket.toString = ticket) ∧
    ((∀ z ∈ fee.values, Fits 32 z) →
      (TxFeeSporkValue.fromString fee.toString = fee ↔ fee = {})) := by
  refine ⟨fun h => ?_, fun h => ?_, fun h => ?_, fun h => ?_⟩
  · rw [BlockPaymentSporkValue.fromString, BlockPaymentSporkValue.toString,
      @parseDataPayload_buildDataPayload payment.values (cons_ne_nil _ _) h]
    rfl
  · rw [BlockSubsiditySporkValue.fromString, BlockSubsiditySporkValue.toString,
      @parseDataPayload_buildDataPayload subsidity.values (cons_ne_nil _ _) h]
    rfl
  · rw [LotteryTicketMinValueSporkValue.fromString, LotteryTicketMinValueSporkValue.toString,
      @parseDataPayload_buildDataPayload ticket.values (cons_ne_nil _ _) h]
    rfl
  · rw [TxFeeSporkValue.fromString, TxFeeSporkValue.toString,
      @parseDataPayload_buildDataPayload fee.values (cons_ne_nil _ _) h]
    exact eq_comm

theorem fromString_toString_payment :
    let v : BlockPaymentSporkValue := ⟨45, 20, 16, 9, 10, 100000⟩
    (∀ z ∈ v.values, Fits 32 z) ∧ BlockPaymentSporkValue.fromString v.toString = v :=
  ⟨by decide, (fromString_toString_iff _ {} {} {}).1 (by decide)⟩

/-- Fees that are in use come back as the default, which is not valid. -/
theorem txFee_fromString_toString :
    let v : TxFeeSporkValue := ⟨300, 300, 1000, 10000, 100000⟩
    v.toString = "300;300;1000;10000;100000".toList ∧
      TxFeeSporkValue.fromString v.toString = {} ∧ v ≠ {} := by
  decide +kernel

end Divi
