/-
The instructions of the scripts of the known types.

`HasShape` lists the instructions a script of each type can have, and `shape_of_extract` says that
a script that is given a type has them.  Keys and hashes may be pushed with any opcode that can.
-/
import Divi.Proofs.Instructions
import Divi.Proofs.VaultRecognition

namespace Divi

open Instruction List Option

variable {script pc rest : CScript} {fuel : Nat} {solutions : List valtype} {opcode : opcodetype}

theorem exists_instruction_of_getOp {data : valtype}
    (h : CScript.getOp pc = some (opcode, data, rest)) :
    ∃ i : Instruction, i.opcode = opcode ∧ i.data = data ∧ pc = i.encode ++ rest := by
  obtain ⟨hgt, rfl, hpc⟩ | ⟨hcan, hpc⟩ := CScript.getOp_cases h
  · exact ⟨op opcode hgt, rfl, rfl, by rw [encode_op, hpc]; rfl⟩
  · exact ⟨push opcode data hcan, rfl, rfl, by rw [encode_push, hpc]⟩

/-! ### Shapes -/

/-- A push of 33 to 65 bytes. -/
def Instruction.IsKeyPush (i : Instruction) : Prop :=
  33 ≤ i.data.length ∧ i.data.length ≤ 65

/-- `OP_1` to `OP_16`. -/
def Instruction.smallInt (k : Nat) (h : 1 ≤ k ∧ k ≤ 16) : Instruction :=
  Instruction.op (UInt8.ofNat (80 + k)) (by
    obtain ⟨hpos, hle⟩ := h
    interval_cases k <;> decide)

/-- The instructions of a script of a type, with the data that is taken from them. -/
inductive HasShape : txnouttype → List valtype → List Instruction → Prop
  | pubkey (key : Instruction) (hkey : key.IsKeyPush) :
    HasShape .TX_PUBKEY [key.data] [key, .op OP_CHECKSIG (by decide)]
  | pubkeyhash (hash : Instruction) (hh : hash.data.length = 20) :
    HasShape .TX_PUBKEYHASH [hash.data]
      [.op OP_DUP (by decide), .op OP_HASH160 (by decide), hash,
        .op OP_EQUALVERIFY (by decide), .op OP_CHECKSIG (by decide)]
  | vault (owner mgr : Instruction) (ho : owner.data.length = 20)
    (hmgr : mgr.data.length = 20) :
    HasShape .TX_VAULT [owner.data, mgr.data]
      [.op OP_IF (by decide), owner, .op OP_ELSE (by decide),
        .op OP_REQUIRE_COINSTAKE (by decide), mgr, .op OP_ENDIF (by decide),
        .op OP_OVER (by decide), .op OP_HASH160 (by decide), .op OP_EQUALVERIFY (by decide),
        .op OP_CHECKSIG (by decide)]
  | multisig (m : Nat) (keys : List Instruction) (hm : 1 ≤ m ∧ m ≤ keys.length)
    (hn : 1 ≤ keys.length ∧ keys.length ≤ 16) (hkeys : ∀ key ∈ keys, key.IsKeyPush) :
    HasShape .TX_MULTISIG
      ([UInt8.ofNat m] :: (keys.map Instruction.data ++ [[UInt8.ofNat keys.length]]))
      (.smallInt m ⟨hm.1, hm.2.trans hn.2⟩ ::
        (keys ++ [.smallInt keys.length hn, .op OP_CHECKMULTISIG (by decide)]))

/-! ### Templates with keys -/

section

variable {pc1 pc2 : CScript} {result : List valtype}

theorem matchTemplate_pubkey
    (h : matchTemplate fuel pc1 (OP_PUBKEY :: pc2) solutions = some result) :
    ∃ (fuel' : Nat) (key : Instruction) (rest : CScript), key.IsKeyPush ∧
      pc1 = key.encode ++ rest ∧
      matchTemplate fuel' rest pc2 (solutions ++ [key.data]) = some result := by
  obtain ⟨fuel', opcode, data, rest, taken, hop, ht, hr⟩ :=
    matchTemplate_cons (by decide) (by decide) h
  obtain ⟨key, rfl, rfl, hpc⟩ := exists_instruction_of_getOp hop
  rw [matchInstruction, if_pos rfl] at ht
  obtain ⟨hlen, ht⟩ := ite_none_left_eq_some.mp ht
  cases ht
  exact ⟨fuel', key, rest, ⟨by omega, by omega⟩, hpc, hr⟩

theorem smallInt_of_matchInstruction {i : Instruction} {taken : List valtype}
    (h : matchInstruction i.opcode i.data OP_SMALLINTEGER [] = some taken) :
    (i.opcode = OP_0 ∧ taken = [[0]]) ∨
      ∃ (k : Nat) (hk : 1 ≤ k ∧ k ≤ 16), i = smallInt k hk ∧
        taken = [[UInt8.ofNat k]] := by
  rw [matchInstruction, if_neg (by decide), if_neg (by decide), if_pos rfl] at h
  split at h
  next hzero => exact .inl ⟨hzero, (Option.some.inj h).symm⟩
  next =>
    obtain ⟨hr, h⟩ := ite_none_right_eq_some.mp h
    obtain ⟨hlow, hhigh⟩ := hr
    have hlowNat : 81 ≤ i.opcode.toNat := UInt8.le_iff_toNat_le.mp hlow
    have hhighNat : i.opcode.toNat ≤ 96 := UInt8.le_iff_toNat_le.mp hhigh
    have hop : i.opcode = UInt8.ofNat (80 + (i.opcode.toNat - 80)) := by
      apply UInt8.toNat_inj.mp
      rw [UInt8.toNat_ofNat']
      omega
    have hdata : i.data = [] := by
      obtain ⟨-, hdata⟩ | hcan := i.wf
      · exact hdata
      · have hle : i.opcode.toNat ≤ 78 := UInt8.le_iff_toNat_le.mp hcan.1
        omega
    refine .inr ⟨i.opcode.toNat - 80, ⟨by omega, by omega⟩, ?_, ?_⟩
    · obtain ⟨opcode, data, hwf⟩ := i
      simp only [smallInt, op, mk.injEq]
      exact ⟨hop, hdata⟩
    · rw [← Option.some.inj h]
      congr 2
      apply UInt8.toNat_inj.mp
      rw [UInt8.toNat_add, UInt8.toNat_sub_of_le _ _ hlow, UInt8.toNat_ofNat']
      show (i.opcode.toNat - 81 + 1) % 256 = _
      omega

theorem matchTemplate_smallinteger
    (h : matchTemplate fuel pc1 (OP_SMALLINTEGER :: pc2) solutions = some result) :
    ∃ (fuel' : Nat) (i : Instruction) (rest : CScript) (taken : List valtype),
      pc1 = i.encode ++ rest ∧ matchInstruction i.opcode i.data OP_SMALLINTEGER [] = some taken ∧
      matchTemplate fuel' rest pc2 (solutions ++ taken) = some result := by
  obtain ⟨fuel', opcode, data, rest, taken, hop, ht, hr⟩ :=
    matchTemplate_cons (by decide) (by decide) h
  obtain ⟨i, rfl, rfl, hpc⟩ := exists_instruction_of_getOp hop
  exact ⟨fuel', i, rest, taken, hpc, ht, hr⟩

/-- The keys that are taken, up to an instruction that pushes none. -/
theorem takePubkeys_eq_some {opcode' : opcodetype} {vch vch' : valtype} {rest' : CScript}
    {solutions' : List valtype} (hop : CScript.getOp pc = some (opcode, vch, rest))
    (h : takePubkeys fuel opcode vch rest solutions = some (opcode', vch', rest', solutions')) :
    ∃ (keys : List Instruction) (next : Instruction), (∀ key ∈ keys, key.IsKeyPush) ∧
      next.opcode = opcode' ∧ next.data = vch' ∧ pc = assemble keys ++ (next.encode ++ rest') ∧
      solutions' = solutions ++ keys.map data := by
  fun_induction takePubkeys fuel opcode vch rest solutions generalizing pc with
  | case1 | case2 => cases h
  | case3 fuel opcode vch rest solutions hkey opcode2 vch2 rest2 hop2 ih =>
    obtain ⟨i, rfl, rfl, hpc⟩ := exists_instruction_of_getOp hop
    obtain ⟨keys, next, hkeys, ho, hdata, hr, hsols⟩ := ih hop2 h
    refine ⟨i :: keys, next, ?_, ho, hdata, ?_, ?_⟩
    · intro key hmem
      obtain rfl | hmem := mem_cons.mp hmem
      · exact hkey
      · exact hkeys key hmem
    · rw [hpc, hr, assemble_cons, append_assoc]
    · rw [hsols, map_cons, append_assoc, singleton_append]
  | case4 =>
    obtain ⟨i, rfl, rfl, hpc⟩ := exists_instruction_of_getOp hop
    simp only [Option.some.injEq, Prod.mk.injEq] at h
    obtain ⟨ho, hdata, rfl, rfl⟩ := h
    refine ⟨[], i, by simp, ho, hdata, hpc, ?_⟩
    rw [map_nil, append_nil]

/-- The keys of a template, with the instruction behind them. -/
theorem matchTemplate_pubkeys {opcode2 : opcodetype} (h2 : opcode2 > OP_PUSHDATA4)
    (h : matchTemplate fuel pc1 (OP_PUBKEYS :: opcode2 :: pc2) solutions = some result) :
    ∃ (fuel' : Nat) (keys : List Instruction) (next : Instruction) (rest : CScript)
      (taken : List valtype), (∀ key ∈ keys, key.IsKeyPush) ∧
      pc1 = assemble keys ++ (next.encode ++ rest) ∧
      matchInstruction next.opcode next.data opcode2 [] = some taken ∧
      matchTemplate fuel' rest pc2 (solutions ++ keys.map data ++ taken) =
        some result := by
  cases fuel with
  | zero => cases h
  | succ fuel =>
    unfold matchTemplate at h
    rw [isEmpty_cons, Bool.and_false, if_neg Bool.false_ne_true,
      getOp_op (show OP_PUBKEYS > OP_PUSHDATA4 by decide)] at h
    split at h
    next opcode1 vch1 rest1 opcode vch pc hop heq =>
      obtain ⟨rfl, rfl, rfl⟩ := heq
      rw [if_pos rfl, getOp_op h2] at h
      split at h
      next opcode3 vch3 rest3 solutions3 opcode4 vch4 pc4 ht heq =>
        obtain ⟨rfl, rfl, rfl⟩ := heq
        obtain ⟨keys, next, hkeys, rfl, rfl, hpc, rfl⟩ := takePubkeys_eq_some hop ht
        split at h
        next taken hm => exact ⟨fuel, keys, next, rest3, taken, hkeys, hpc, hm, h⟩
        next => cases h
      next => cases h
    next => cases h

end

/-! ### Scripts of a type -/

theorem shape_of_pubkey (h : matchTemplate fuel script [OP_PUBKEY, OP_CHECKSIG] [] = some solutions)
    :
    ∃ ops, HasShape .TX_PUBKEY solutions ops ∧ script = assemble ops := by
  obtain ⟨_, key, _, hkey, rfl, h1⟩ := matchTemplate_pubkey h
  obtain ⟨_, _, rfl, h2⟩ := matchTemplate_plain (by decide) h1
  obtain ⟨rfl, rfl⟩ := matchTemplate_nil h2
  exact ⟨_, .pubkey key hkey, by simp⟩

theorem shape_of_pubkeyhash
    (h : matchTemplate fuel script [OP_DUP, OP_HASH160, OP_PUBKEYHASH, OP_EQUALVERIFY, OP_CHECKSIG]
      [] = some solutions) :
    ∃ ops, HasShape .TX_PUBKEYHASH solutions ops ∧ script = assemble ops := by
  obtain ⟨_, _, rfl, h1⟩ := matchTemplate_plain (by decide) h
  obtain ⟨_, _, rfl, h2⟩ := matchTemplate_plain (by decide) h1
  obtain ⟨_, opcode, hash, _, hlen, hcan, rfl, h3⟩ := matchTemplate_pubkeyhash h2
  obtain ⟨_, _, rfl, h4⟩ := matchTemplate_plain (by decide) h3
  obtain ⟨_, _, rfl, h5⟩ := matchTemplate_plain (by decide) h4
  obtain ⟨rfl, rfl⟩ := matchTemplate_nil h5
  rw [← hlen] at hcan
  exact ⟨_, .pubkeyhash (.push opcode hash hcan) hlen, by simp⟩

theorem shape_of_vault (h : extractScriptPubKeyFormat script = some (.TX_VAULT, solutions)) :
    ∃ ops, HasShape .TX_VAULT solutions ops ∧ script = assemble ops := by
  obtain ⟨opcode1, o, opcode2, v, ho, hv, hcan1, hcan2, rfl, rfl⟩ := extract_vault_iff.mp h
  have hcan1 : CScript.CanPush opcode1 o.length := ho.symm ▸ hcan1
  have hcan2 : CScript.CanPush opcode2 v.length := hv.symm ▸ hcan2
  exact ⟨_, .vault (.push opcode1 o hcan1) (.push opcode2 v hcan2) ho hv,
    by simp [vaultWith, vaultTail]⟩

theorem multisigSolutionsValid_iff {m n : UInt8} {keys : List valtype} :
    multisigSolutionsValid ([[m]] ++ keys ++ [[n]]) = true ↔
      1 ≤ m.toNat ∧ m.toNat ≤ n.toNat ∧ keys.length = n.toNat := by
  have hlen : ([[m]] ++ keys ++ [[n]] : List valtype).length - 2 = keys.length := by simp
  have hl : ([[m]] ++ keys ++ [[n]] : List valtype).getLast? = some [n] := List.getLast?_concat
  rw [multisigSolutionsValid, hl, hlen]
  show (!(decide (m < 1) || decide (n < 1) || decide (m > n) || keys.length != n.toNat)) = true ↔ _
  simp only [Bool.not_eq_true', Bool.or_eq_false_iff, decide_eq_false_iff_not, bne_eq_false_iff_eq,
    UInt8.lt_iff_toNat_lt, gt_iff_lt]
  show ((¬ m.toNat < 1 ∧ ¬ n.toNat < 1) ∧ ¬ n.toNat < m.toNat) ∧ keys.length = n.toNat ↔ _
  omega

theorem shape_of_multisig
    (h : matchTemplate fuel script [OP_SMALLINTEGER, OP_PUBKEYS, OP_SMALLINTEGER, OP_CHECKMULTISIG]
      [] = some solutions) (hval : multisigSolutionsValid solutions = true) :
    ∃ ops, HasShape .TX_MULTISIG solutions ops ∧ script = assemble ops := by
  obtain ⟨_, first, _, taken, rfl, hfst, h1⟩ := matchTemplate_smallinteger h
  obtain ⟨_, keys, last, _, taken', hkeys, rfl, hl, h2⟩ := matchTemplate_pubkeys (by decide) h1
  obtain ⟨_, _, rfl, h3⟩ := matchTemplate_plain (by decide) h2
  obtain ⟨rfl, rfl⟩ := matchTemplate_nil h3
  -- a zero in either place is refused
  obtain ⟨-, rfl⟩ | ⟨m, hm, rfl, rfl⟩ := smallInt_of_matchInstruction hfst
  · obtain ⟨-, rfl⟩ | ⟨n, hn, rfl, rfl⟩ := smallInt_of_matchInstruction hl
    · exact absurd (multisigSolutionsValid_iff.mp hval).1 (by decide)
    · exact absurd (multisigSolutionsValid_iff.mp hval).1 (by decide)
  · have hmNat : (UInt8.ofNat m).toNat = m := by
      rw [UInt8.toNat_ofNat']
      omega
    obtain ⟨-, rfl⟩ | ⟨n, hn, rfl, rfl⟩ := smallInt_of_matchInstruction hl
    · obtain ⟨hpos, hle, -⟩ := multisigSolutionsValid_iff.mp hval
      exact absurd (hpos.trans hle) (by decide)
    · have hnNat : (UInt8.ofNat n).toNat = n := by
        rw [UInt8.toNat_ofNat']
        omega
      obtain ⟨-, hle, hlen⟩ := multisigSolutionsValid_iff.mp hval
      rw [length_map, hnNat] at hlen
      rw [hmNat, hnNat] at hle
      subst hlen
      exact ⟨_, .multisig m keys ⟨hm.1, hle⟩ hn hkeys, by simp [smallInt]⟩

theorem shape_of_extract {type : txnouttype}
    (h : extractScriptPubKeyFormat script = some (type, solutions)) (hh : type ≠ .TX_SCRIPTHASH)
    (hnull : type ≠ .TX_NULL_DATA) :
    ∃ ops, HasShape type solutions ops ∧ script = assemble ops := by
  obtain ⟨template, htmpl, hm, hval⟩ := template_of_extract h ⟨hh, hnull⟩
  simp only [mTemplates, mem_cons, not_mem_nil, or_false, Prod.mk.injEq] at htmpl
  obtain ⟨rfl, rfl⟩ | ⟨rfl, rfl⟩ | ⟨rfl, rfl⟩ | ⟨rfl, rfl⟩ := htmpl
  · exact shape_of_pubkey hm
  · exact shape_of_pubkeyhash hm
  · exact shape_of_vault h
  · exact shape_of_multisig hm (hval rfl)

end Divi
