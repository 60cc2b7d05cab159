/-
How a script is read, and what it looks like when it matches a template.

A template only sees the opcode of an instruction and the data it pushes.  The same data can be
pushed in up to four ways, so a template has several scripts for the same solutions;
`CScript.pushWith` is the push with a given opcode, and `eq_pushWith_of_getOp` says that every
push is one of these.
-/
import Divi.Proofs.VaultScript
import Divi.Script.Standard

namespace Divi

open CScript List Option CScriptNum

variable {fuel : Nat} {solutions : List valtype} {opcode opcode2 opcode1 : opcodetype}
  {data : valtype} {pc rest script : CScript} {type : txnouttype}

/-! ### Pushes -/

namespace CScript

theorem leLength_succ (width n : Nat) :
    leLength (width + 1) n = UInt8.ofNat n :: leLength width (n / 256) := by
  simp only [leLength, List.range_succ_eq_map, List.map_cons, List.map_map, pow_zero, Nat.div_one]
  congr 1
  refine List.map_congr_left fun i _ => ?_
  simp [pow_succ', Nat.div_div_eq_div_mul]

@[simp]
theorem length_leLength (width n : Nat) : (leLength width n).length = width := by
  simp [leLength]

theorem leValue_leLength {width n : Nat} (h : n < 256 ^ width) :
    leValue (leLength width n) = n := by
  induction width generalizing n with
  | zero =>
    have hzero : n = 0 := by simpa using h
    rw [hzero]
    rfl
  | succ width ih =>
    have hdiv : n / 256 < 256 ^ width := by
      exact Nat.div_lt_of_lt_mul (by rwa [mul_comm])
    rw [leLength_succ, leValue, ih hdiv, UInt8.toNat_ofNat']
    omega

theorem leLength_leValue (bytes : List UInt8) :
    leLength bytes.length (leValue bytes) = bytes := by
  induction bytes with
  | nil => rfl
  | cons b bytes ih =>
    have hdiv : (b.toNat + 256 * leValue bytes) / 256 = leValue bytes := by
      have hlt := b.toNat_lt
      omega
    have hbyte : UInt8.ofNat (b.toNat + 256 * leValue bytes) = b := by
      apply UInt8.toNat_inj.mp
      rw [UInt8.toNat_ofNat']
      omega
    rw [length_cons, leValue, leLength_succ, hdiv, ih, hbyte]

theorem leValue_lt (bytes : List UInt8) : leValue bytes < 256 ^ bytes.length := by
  induction bytes with
  | nil => exact Nat.one_pos
  | cons b bytes ih =>
    have hlt := b.toNat_lt
    rw [leValue, length_cons, pow_succ]
    omega

/-- How many bytes hold the length of the data behind an opcode. -/
def lengthWidth (opcode : opcodetype) : Nat :=
  if opcode < OP_PUSHDATA1 then 0
  else if opcode = OP_PUSHDATA1 then 1
  else if opcode = OP_PUSHDATA2 then 2
  else 4

/-- Whether data of a size can be pushed with an opcode. -/
def CanPush (opcode : opcodetype) (size : Nat) : Prop :=
  opcode ≤ OP_PUSHDATA4 ∧
    if opcode < OP_PUSHDATA1 then size = opcode.toNat else size < 256 ^ lengthWidth opcode
  deriving Decidable

/-- The push of data with an opcode. -/
def pushWith (opcode : opcodetype) (data : valtype) : CScript :=
  opcode :: (leLength (lengthWidth opcode) data.length ++ data)

theorem lengthWidth_eq_zero_iff : lengthWidth opcode = 0 ↔ opcode < OP_PUSHDATA1 := by
  unfold lengthWidth
  split
  next hlt => simp [hlt]
  next hge =>
    split
    next => simp [hge]
    next =>
      split
      next => simp [hge]
      next => simp [hge]

theorem length_pushWith_le (opcode : opcodetype) (data : valtype) :
    (pushWith opcode data).length ≤ data.length + 5 := by
  have hwd : lengthWidth opcode ≤ 4 := by
    unfold lengthWidth
    split <;> [omega; split <;> [omega; split <;> omega]]
  rw [pushWith, length_cons, length_append, length_leLength]
  omega

/-- The size of the data behind an opcode, as it is read. -/
def readSize (opcode : opcodetype) (pc : CScript) : Nat :=
  if lengthWidth opcode = 0 then opcode.toNat
  else CScriptNum.leValue (pc.take (lengthWidth opcode))

theorem getOp_cons_of_le (hle : opcode ≤ OP_PUSHDATA4) (pc : CScript) :
    getOp (opcode :: pc) =
      if pc.length < lengthWidth opcode then none
      else if (pc.drop (lengthWidth opcode)).length % 2 ^ 32 < readSize opcode pc then none
      else some (opcode, (pc.drop (lengthWidth opcode)).take (readSize opcode pc),
        (pc.drop (lengthWidth opcode)).drop (readSize opcode pc)) := by
  unfold getOp
  dsimp only
  rw [if_neg (UInt8.not_lt.mpr hle)]
  rfl

theorem getOp_pushWith (h : CanPush opcode data.length)
    (hlen : (pushWith opcode data ++ rest).length < 2 ^ 32) :
    getOp (pushWith opcode data ++ rest) = some (opcode, data, rest) := by
  obtain ⟨hle, hcan⟩ := h
  have hwd := length_leLength (lengthWidth opcode) data.length
  have hsize : readSize opcode (leLength (lengthWidth opcode) data.length ++ (data ++ rest)) =
      data.length := by
    unfold readSize
    rw [take_left' hwd]
    by_cases hdir : opcode < OP_PUSHDATA1
    · rw [if_pos hdir] at hcan
      rw [if_pos (lengthWidth_eq_zero_iff.mpr hdir), hcan]
    · rw [if_neg hdir] at hcan
      rw [if_neg (mt lengthWidth_eq_zero_iff.mp hdir), leValue_leLength hcan]
  have hhdr : ¬(leLength (lengthWidth opcode) data.length ++ (data ++ rest)).length <
      lengthWidth opcode := by
    rw [length_append, hwd]
    omega
  have hdata : ¬(data ++ rest).length % 2 ^ 32 < data.length := by
    simp only [pushWith, length_cons, length_append] at hlen
    rw [length_append]
    omega
  unfold pushWith
  rw [cons_append, append_assoc, getOp_cons_of_le hle, hsize, drop_left' hwd,
    take_left, drop_left, if_neg hhdr, if_neg hdata]

theorem getOp_cases (h : getOp pc = some (opcode, data, rest)) :
    (opcode > OP_PUSHDATA4 ∧ data = [] ∧ pc = opcode :: rest) ∨
      (CanPush opcode data.length ∧ pc = pushWith opcode data ++ rest) := by
  cases pc with
  | nil => cases h
  | cons first pc =>
    by_cases hgt : first > OP_PUSHDATA4
    · rw [getOp_op hgt] at h
      obtain ⟨rfl, rfl, rfl⟩ := h
      exact .inl ⟨hgt, rfl, rfl⟩
    · have hle := UInt8.not_lt.mp hgt
      rw [getOp_cons_of_le hle] at h
      obtain ⟨hhdr, h⟩ := ite_none_left_eq_some.mp h
      obtain ⟨hdata, h⟩ := ite_none_left_eq_some.mp h
      simp only [Option.some.injEq, Prod.mk.injEq] at h
      obtain ⟨rfl, rfl, rfl⟩ := h
      have hlen : ((pc.drop (lengthWidth first)).take (readSize first pc)).length =
          readSize first pc := by
        have hle := Nat.mod_le (pc.drop (lengthWidth first)).length (2 ^ 32)
        rw [length_take]
        omega
      have hwd : (pc.take (lengthWidth first)).length = lengthWidth first := by
        rw [length_take]
        omega
      refine .inr ⟨⟨hle, ?_⟩, ?_⟩
      · rw [hlen]
        unfold readSize
        by_cases hdir : first < OP_PUSHDATA1
        · rw [if_pos hdir, if_pos (lengthWidth_eq_zero_iff.mpr hdir)]
        · have hbd := leValue_lt (pc.take (lengthWidth first))
          rw [hwd] at hbd
          rwa [if_neg hdir, if_neg (mt lengthWidth_eq_zero_iff.mp hdir)]
      · have hsizeBytes : leLength (lengthWidth first) (readSize first pc) =
            pc.take (lengthWidth first) := by
          unfold readSize
          split
          next hzero =>
            rw [hzero]
            rfl
          next =>
            have hback := leLength_leValue (pc.take (lengthWidth first))
            rwa [hwd] at hback
        rw [pushWith, hlen, hsizeBytes, cons_append, append_assoc,
          take_append_drop, take_append_drop]

theorem pushWith_of_getOp (h : getOp pc = some (opcode, data, rest)) (hpos : 0 < data.length) :
    CanPush opcode data.length ∧ pc = pushWith opcode data ++ rest := by
  obtain ⟨-, rfl, -⟩ | hpush := getOp_cases h
  · exact absurd hpos (Nat.lt_irrefl 0)
  · exact hpush

theorem eq_cons_of_getOp (h : getOp pc = some (opcode, data, rest)) (hgt : opcode > OP_PUSHDATA4) :
    pc = opcode :: rest := by
  obtain ⟨-, -, hpc⟩ | ⟨hcan, -⟩ := getOp_cases h
  · exact hpc
  · exact absurd hcan.1 (UInt8.not_le.mpr hgt)

end CScript

/-! ### Templates -/

section

variable {pc1 pc2 : CScript} {result : List valtype}

theorem matchTemplate_nil (h : matchTemplate fuel pc1 [] solutions = some result) :
    pc1 = [] ∧ result = solutions := by
  cases fuel with
  | zero => cases h
  | succ fuel =>
    cases pc1 with
    | nil => exact ⟨rfl, (Option.some.inj h).symm⟩
    | cons b pc1 =>
      have hn : matchTemplate (fuel + 1) (b :: pc1) [] solutions = none := by
        unfold matchTemplate
        cases getOp (b :: pc1) with
        | none => rfl
        | some instruction => rfl
      rw [hn] at h
      cases h

/-- One instruction of a template other than the one for several keys. -/
theorem matchTemplate_cons (h2 : opcode2 > OP_PUSHDATA4) (hkeys : opcode2 ≠ OP_PUBKEYS)
    (h : matchTemplate fuel pc1 (opcode2 :: pc2) solutions = some result) :
    ∃ fuel' opcode1 vch1 rest taken, getOp pc1 = some (opcode1, vch1, rest) ∧
      matchInstruction opcode1 vch1 opcode2 [] = some taken ∧
      matchTemplate fuel' rest pc2 (solutions ++ taken) = some result := by
  cases fuel with
  | zero => cases h
  | succ fuel =>
    unfold matchTemplate at h
    rw [isEmpty_cons, Bool.and_false, if_neg Bool.false_ne_true, getOp_op h2] at h
    split at h
    next opcode1 vch1 rest opcode vch pc hop heq =>
      obtain ⟨rfl, rfl, rfl⟩ := heq
      rw [if_neg hkeys] at h
      split at h
      next taken ht => exact ⟨fuel, opcode1, vch1, rest, taken, hop, ht, h⟩
      next => cases h
    next => cases h

/-- A script that starts with another opcode than a template does not match it. -/
theorem matchTemplate_of_opcode (h1 : opcode1 > OP_PUSHDATA4) (h2 : opcode2 > OP_PUSHDATA4)
    (hp : opcode2 ≠ OP_PUBKEYS) (hnot : matchInstruction opcode1 [] opcode2 [] = none)
    (fuel : Nat) (pc1 pc2 : CScript) (solutions : List valtype) :
    matchTemplate (fuel + 1) (opcode1 :: pc1) (opcode2 :: pc2) solutions = none := by
  simp [matchTemplate, getOp_op h1, getOp_op h2, hp, hnot]

theorem matchTemplate_step {vch1 : valtype} {taken : List valtype} (h2 : opcode2 > OP_PUSHDATA4)
    (hkeys : opcode2 ≠ OP_PUBKEYS) (hop : getOp pc1 = some (opcode1, vch1, rest))
    (ht : matchInstruction opcode1 vch1 opcode2 [] = some taken) :
    matchTemplate (fuel + 1) pc1 (opcode2 :: pc2) solutions =
      matchTemplate fuel rest pc2 (solutions ++ taken) := by
  rw [matchTemplate, isEmpty_cons, Bool.and_false, if_neg Bool.false_ne_true, getOp_op h2, hop]
  simp [hkeys, ht]

/-- An opcode of a template that stands for itself. -/
def IsPlain (opcode : opcodetype) : Prop :=
  opcode > OP_PUSHDATA4 ∧
    opcode ∉ [OP_SMALLINTEGER, OP_PUBKEYS, OP_PUBKEYHASH, OP_PUBKEY]
  deriving Decidable

theorem matchTemplate_plain (hp : IsPlain opcode)
    (h : matchTemplate fuel pc1 (opcode :: pc2) solutions = some result) :
    ∃ fuel' rest, pc1 = opcode :: rest ∧ matchTemplate fuel' rest pc2 solutions = some result := by
  obtain ⟨hgt, hnot⟩ := hp
  simp only [mem_cons, not_mem_nil, or_false, not_or] at hnot
  obtain ⟨hs, hkeys, hh, hkey⟩ := hnot
  obtain ⟨fuel', opcode1, vch1, rest, taken, hop, ht, hr⟩ := matchTemplate_cons hgt hkeys h
  rw [matchInstruction, if_neg hkey, if_neg hh, if_neg hs] at ht
  split at ht
  next => cases ht
  next hsa =>
    rw [not_or, not_not, not_not] at hsa
    obtain ⟨rfl, -⟩ := hsa
    cases ht
    rw [append_nil] at hr
    exact ⟨fuel', rest, eq_cons_of_getOp hop hgt, hr⟩

theorem matchTemplate_pubkeyhash
    (h : matchTemplate fuel pc1 (OP_PUBKEYHASH :: pc2) solutions = some result) :
    ∃ fuel' opcode data rest, data.length = 20 ∧ CScript.CanPush opcode 20 ∧
      pc1 = pushWith opcode data ++ rest ∧
      matchTemplate fuel' rest pc2 (solutions ++ [data]) = some result := by
  obtain ⟨fuel', opcode, data, rest, taken, hop, ht, hr⟩ :=
    matchTemplate_cons (by decide) (by decide) h
  rw [matchInstruction, if_neg (by decide), if_pos rfl] at ht
  obtain ⟨hlen, ht⟩ := ite_none_left_eq_some.mp ht
  rw [not_not] at hlen
  cases ht
  obtain ⟨hcan, hpc⟩ := pushWith_of_getOp hop (by omega)
  exact ⟨fuel', opcode, data, rest, hlen, hlen ▸ hcan, hpc, hr⟩

end

theorem matchTemplate_step_plain (hp : IsPlain opcode) (rest pc2 : CScript)
    (solutions : List valtype) :
    matchTemplate (fuel + 1) (opcode :: rest) (opcode :: pc2) solutions =
      matchTemplate fuel rest pc2 solutions := by
  obtain ⟨hgt, hnot⟩ := hp
  simp only [mem_cons, not_mem_nil, or_false, not_or] at hnot
  obtain ⟨hs, hkeys, hh, hkey⟩ := hnot
  have ht : matchInstruction opcode [] opcode [] = some [] := by
    simp [matchInstruction, hs, hh, hkey]
  rw [matchTemplate_step hgt hkeys (getOp_op hgt rest) ht, append_nil]

theorem matchTemplate_step_pubkeyhash (hlen : data.length = 20)
    (hcan : CScript.CanPush opcode 20) (hr : (pushWith opcode data ++ rest).length < 2 ^ 32)
    (pc2 : CScript) (solutions : List valtype) :
    matchTemplate (fuel + 1) (pushWith opcode data ++ rest) (OP_PUBKEYHASH :: pc2)
        solutions =
      matchTemplate fuel rest pc2 (solutions ++ [data]) := by
  have ht : matchInstruction opcode data OP_PUBKEYHASH [] = some [data] := by
    rw [matchInstruction, if_neg (by decide), if_pos rfl, if_neg (by simp [hlen])]
  exact matchTemplate_step (by decide) (by decide)
    (getOp_pushWith (hlen.symm ▸ hcan) hr) ht

/-- A script that starts with another opcode is no pay-to-script-hash. -/
theorem isPayToScriptHash_cons (h : opcode ≠ OP_HASH160) (rest : CScript) :
    isPayToScriptHash (opcode :: rest) = false := by
  have hfst : ((opcode :: rest)[0]? == some OP_HASH160) = false := by simpa using h
  rw [isPayToScriptHash, hfst, Bool.and_false, Bool.false_and, Bool.false_and]

/-- The template that gave a script its type. -/
theorem template_of_scanTemplates {templates : List (txnouttype × CScript)}
    (h : scanTemplates script templates = some (type, solutions)) :
    ∃ template, (type, template) ∈ templates ∧
      matchTemplate (script.length + 1) script template [] = some solutions ∧
      (type = .TX_MULTISIG → multisigSolutionsValid solutions = true) := by
  fun_induction scanTemplates script templates with
  | case1 => cases h
  | case2 _ _ templates _ ih =>
    obtain ⟨template, hmem, hm⟩ := ih h
    exact ⟨template, mem_cons_of_mem _ hmem, hm⟩
  | case3 => cases h
  | case4 _ template templates found hf hval =>
    cases h
    refine ⟨template, mem_cons_self, hf, fun hmu => ?_⟩
    by_contra hinv
    exact hval ⟨hmu, by simpa using hinv⟩

theorem template_of_extract (h : extractScriptPubKeyFormat script = some (type, solutions))
    (htype : type ≠ .TX_SCRIPTHASH ∧ type ≠ .TX_NULL_DATA) :
    ∃ template, (type, template) ∈ mTemplates ∧
      matchTemplate (script.length + 1) script template [] = some solutions ∧
      (type = .TX_MULTISIG → multisigSolutionsValid solutions = true) := by
  unfold extractScriptPubKeyFormat at h
  split at h
  next => exact absurd (Prod.mk.inj (Option.some.inj h)).1.symm htype.1
  next =>
    split at h
    next => exact absurd (Prod.mk.inj (Option.some.inj h)).1.symm htype.2
    next => exact template_of_scanTemplates h

end Divi
