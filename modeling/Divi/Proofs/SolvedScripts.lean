/-
Scripts of the known types on the stack that solves them.

Under the flags for standard transactions a push has to be in its shortest form, so the scripts
below push their keys and hashes directly.  A script that pushes one of them in another way, and
has no conditionals, never runs to its end (`minimal_of_runOps`).
-/
import Divi.Proofs.ScriptRuns
import Divi.Proofs.ScriptShapes

namespace Divi

open CScript Results Instruction List

variable {size : Nat} {ops : List Instruction} {sig : valtype} {type : txnouttype}
  {solutions : List valtype}

/-! ### Pushes of data -/

/-- The rule for data that no opcode stands for by itself. -/
theorem checkMinimalPush_of_two {data : valtype} (h : 2 ≤ data.length) (opcode : opcodetype) :
    checkMinimalPush data opcode =
      if data.length ≤ 75 then decide (opcode.toNat = data.length)
      else if data.length ≤ 255 then decide (opcode = OP_PUSHDATA1)
      else if data.length ≤ 65535 then decide (opcode = OP_PUSHDATA2)
      else true := by
  match data with
  | [] => cases h
  | [b] => exact absurd h (Nat.not_succ_le_self 1)
  | a :: b :: data => rfl

namespace Instruction

/-- The opcode that `operator<<` chooses for data of a size. -/
def dataOpcode (size : Nat) : opcodetype :=
  if size < 76 then UInt8.ofNat size else if size ≤ 255 then OP_PUSHDATA1
  else if size ≤ 65535 then OP_PUSHDATA2 else OP_PUSHDATA4

theorem toNat_dataOpcode (h : size < 76) : (dataOpcode size).toNat = size := by
  rw [dataOpcode, if_pos h, UInt8.toNat_ofNat']
  omega

theorem canPush_dataOpcode (h : size < 2 ^ 32) : CanPush (dataOpcode size) size := by
  by_cases hdir : size < 76
  · have hnat := toNat_dataOpcode hdir
    have hlt : dataOpcode size < OP_PUSHDATA1 := by
      rw [UInt8.lt_iff_toNat_lt, hnat]
      exact hdir
    refine ⟨UInt8.le_of_lt (UInt8.lt_trans hlt (by decide)), ?_⟩
    rw [if_pos hlt, hnat]
  · rw [dataOpcode, if_neg hdir]
    split_ifs with hbyte htwo
    · exact ⟨by decide, Nat.lt_succ_of_le hbyte⟩
    · exact ⟨by decide, Nat.lt_succ_of_le htwo⟩
    · exact ⟨by decide, h⟩

theorem pushData_eq (script : CScript) (data : valtype) :
    script.pushData data = script ++ pushWith (dataOpcode data.length) data := by
  rw [CScript.pushData, append_assoc, pushWith, pushHeader, dataOpcode]
  by_cases hdir : data.length < 76
  · have hwd : lengthWidth (UInt8.ofNat data.length) = 0 := by
      rw [lengthWidth_eq_zero_iff, UInt8.lt_iff_toNat_lt, UInt8.toNat_ofNat']
      show data.length % 256 < 76
      omega
    have hhdr : data.length < OP_PUSHDATA1.toNat := hdir
    rw [if_pos hdir, if_pos hhdr, hwd]
    rfl
  · have hhdr : ¬ data.length < OP_PUSHDATA1.toNat := hdir
    rw [if_neg hdir, if_neg hhdr]
    split_ifs <;> rfl

/-- Data of any size but one is pushed in the shortest form. -/
theorem checkMinimalPush_dataOpcode {data : valtype} (hone : data.length ≠ 1) :
    checkMinimalPush data (dataOpcode data.length) = true := by
  obtain hnil | htwo : data = [] ∨ 2 ≤ data.length := by
    rw [← length_eq_zero_iff]
    omega
  · rw [hnil]
    rfl
  · rw [checkMinimalPush_of_two htwo]
    split
    next hdir => exact decide_eq_true (toNat_dataOpcode (Nat.lt_succ_of_le hdir))
    next hdir =>
      have hlong : ¬ data.length < 76 := by omega
      rw [dataOpcode, if_neg hlong]
      split_ifs <;> rfl

/-- The push of data that `operator<<` writes. -/
def ofData (data : valtype) (h : data.length ≤ MAX_SCRIPT_ELEMENT_SIZE) : Instruction :=
  push (dataOpcode data.length) data (canPush_dataOpcode (lt_of_le_of_lt h (by decide)))

theorem pushData_eq_append_encode (script : CScript) {data : valtype}
    (h : data.length ≤ MAX_SCRIPT_ELEMENT_SIZE) :
    script.pushData data = script ++ (ofData data h).encode := by
  rw [pushData_eq, ofData, encode_push]

section

variable {data : valtype} (h : data.length ≤ MAX_SCRIPT_ELEMENT_SIZE)

include h

theorem ofData_opcode_le : (ofData data h).opcode ≤ OP_PUSHDATA4 :=
  (canPush_dataOpcode (lt_of_le_of_lt h (by decide))).1

theorem isMinimalPush_ofData (hone : data.length ≠ 1) : (ofData data h).IsMinimalPush :=
  .inl ⟨ofData_opcode_le h, checkMinimalPush_dataOpcode hone, h⟩

@[simp]
theorem data_ofData : (ofData data h).data = data := rfl

@[simp]
theorem value_ofData : (ofData data h).value = data := value_of_le (ofData_opcode_le h)

end

theorem value_of_data {i : Instruction} (h : 0 < i.data.length) : i.value = i.data :=
  value_of_le (canPush_of_data h).1

theorem opcodeIsPushData_iff {opcode : opcodetype} (hle : opcode ≤ OP_PUSHDATA4) :
    opcodeIsPushData opcode = true ↔ ¬ opcode < OP_PUSHDATA1 := by
  have hleNat : opcode.toNat ≤ 78 := UInt8.le_iff_toNat_le.mp hle
  have heq : ∀ other : opcodetype, opcode = other ↔ opcode.toNat = other.toNat := fun other =>
    UInt8.toNat_inj.symm
  simp only [opcodeIsPushData, Bool.or_eq_true, beq_iff_eq, heq, UInt8.lt_iff_toNat_lt]
  show (opcode.toNat = 76 ∨ opcode.toNat = 77) ∨ opcode.toNat = 78 ↔ ¬ opcode.toNat < 76
  omega

/-- Data of a size that has an opcode of its own is to be pushed with it. -/
theorem checkMinimalPush_iff_direct {i : Instruction} (hlow : 2 ≤ i.data.length)
    (hhigh : i.data.length ≤ 75) :
    checkMinimalPush i.data i.opcode = true ↔ opcodeIsPushData i.opcode = false := by
  obtain ⟨hle, hcan⟩ := canPush_of_data (Nat.lt_of_lt_of_le Nat.two_pos hlow)
  rw [checkMinimalPush_of_two hlow, if_pos hhigh, decide_eq_true_eq, ← Bool.not_eq_true,
    opcodeIsPushData_iff hle, not_not]
  by_cases hdir : i.opcode < OP_PUSHDATA1
  · rw [if_pos hdir] at hcan
    exact ⟨fun _ => hdir, fun _ => hcan.symm⟩
  · have hnat : 76 ≤ i.opcode.toNat := UInt8.le_iff_toNat_le.mp (UInt8.not_lt.mp hdir)
    exact ⟨fun heq => by omega, fun hlt => absurd hlt hdir⟩

theorem isMinimalPush_of_direct {i : Instruction} (hlow : 2 ≤ i.data.length)
    (hhigh : i.data.length ≤ 75) (hdir : opcodeIsPushData i.opcode = false) :
    i.IsMinimalPush := by
  refine .inl ⟨(canPush_of_data (by omega)).1, (checkMinimalPush_iff_direct hlow hhigh).mpr hdir,
    ?_⟩
  show i.data.length ≤ 520
  omega

theorem smallInt_mem {k : Nat} (h : 1 ≤ k ∧ k ≤ 16) :
    (smallInt k h).opcode ∈ simpleValueOpCodes := by
  obtain ⟨hpos, hle⟩ := h
  show UInt8.ofNat (80 + k) ∈ simpleValueOpCodes
  interval_cases k <;> decide

theorem isMinimalPush_smallInt {k : Nat} (h : 1 ≤ k ∧ k ≤ 16) : (smallInt k h).IsMinimalPush :=
  .inr (smallInt_mem h)

theorem value_smallInt {k : Nat} (h : 1 ≤ k ∧ k ≤ 16) :
    (smallInt k h).value = CScriptNum.serialize k := by
  have hnat : (UInt8.ofNat (80 + k)).toNat = 80 + k := by
    rw [UInt8.toNat_ofNat']
    omega
  rw [value, if_pos (smallInt_mem h)]
  congr 1
  show ((UInt8.ofNat (80 + k)).toNat : Int) - ((81 : Nat) - 1 : Int) = k
  omega

theorem length_encode_le (i : Instruction) : i.encode.length ≤ i.data.length + 5 := by
  unfold encode
  split
  · rw [length_singleton]
    omega
  · exact length_pushWith_le i.opcode i.data

end Instruction

theorem length_assemble_le (h : ∀ i ∈ ops, i.data.length ≤ size) :
    (assemble ops).length ≤ ops.length * (size + 5) := by
  induction ops with
  | nil => exact Nat.zero_le _
  | cons i ops ih =>
    have hi := i.length_encode_le
    have hsize := h i mem_cons_self
    have hr := ih fun j hj => h j (mem_cons_of_mem i hj)
    rw [assemble_cons, length_append, length_cons, Nat.add_one_mul]
    omega

/-! ### Signatures do not occur in the script -/

/-- The length and the first byte of a signature, the hash type included. -/
structure SignatureBytes (sig : valtype) : Prop where
  first : sig.head? = some 0x30
  length_gt : 20 < sig.length
  length_le : sig.length ≤ 73

theorem dropSignature_assemble (hsig : SignatureBytes sig) (hlen : (assemble ops).length ≤ 10000)
    (h : ∀ i ∈ ops, i.data.length ≤ 20 ∨ i.data.head? ≠ some 0x30) :
    dropSignature (assemble ops) sig = assemble ops := by
  have hsize : sig.length ≤ MAX_SCRIPT_ELEMENT_SIZE := hsig.length_le.trans (by decide)
  have hpush : pushData [] sig = (ofData sig hsize).encode :=
    pushData_eq_append_encode [] hsize
  rw [dropSignature, hpush, findAndDelete_assemble _ (by omega), filter_eq_self.mpr]
  intro i hi
  rw [decide_eq_true_eq]
  rintro rfl
  obtain hs | hfst := h _ hi
  · exact absurd hsig.length_gt (Nat.not_lt.mpr hs)
  · exact hfst hsig.first

/-! ### Solutions -/

section

variable (h : HasShape type solutions ops)

include h

theorem HasShape.length_le : ops.length ≤ 19 := by
  cases h with
  | pubkey => simp
  | pubkeyhash => simp
  | vault => simp
  | multisig m keys hm hn hkeys =>
    simp only [length_cons, length_append, length_nil]
    omega

/-- An instruction of a script of a known type is an opcode, or pushes a hash or a key. -/
theorem HasShape.opcode_cases :
    ∀ i ∈ ops, (i.opcode > OP_PUSHDATA4 ∧ i.data = []) ∨ i.data.length = 20 ∨ i.IsKeyPush := by
  have hop : ∀ (opcode : opcodetype) (hgt : opcode > OP_PUSHDATA4),
      ((op opcode hgt).opcode > OP_PUSHDATA4 ∧ (op opcode hgt).data = []) :=
    fun opcode hgt => ⟨hgt, rfl⟩
  cases h with
  | pubkey key hkey => simp [hop, hkey]
  | pubkeyhash hash hh => simp [hop, hh]
  | vault owner mgr ho hmgr => simp [hop, ho, hmgr]
  | multisig m keys hm hn hkeys =>
    intro i hi
    simp only [mem_cons, mem_append, not_mem_nil, or_false] at hi
    obtain rfl | hkey | rfl | rfl := hi
    · exact .inl (hop _ _)
    · exact .inr (.inr (hkeys i hkey))
    · exact .inl (hop _ _)
    · exact .inl (hop _ _)

theorem HasShape.length_data_le : ∀ i ∈ ops, i.data.length ≤ 65 := by
  intro i hi
  obtain ⟨-, hdata⟩ | hlen | ⟨-, hhigh⟩ := h.opcode_cases i hi
  · rw [hdata]
    exact Nat.zero_le _
  · omega
  · exact hhigh

theorem HasShape.length_assemble_le : (assemble ops).length ≤ 10000 := by
  have hle := Divi.length_assemble_le h.length_data_le
  have hcnt := h.length_le
  omega

/-- No signature occurs in a script whose keys do not start like one. -/
theorem HasShape.dropSignature (hkeys : ∀ i ∈ ops, i.IsKeyPush → i.data.head? ≠ some 0x30)
    (hsig : SignatureBytes sig) : Divi.dropSignature (assemble ops) sig = assemble ops := by
  refine dropSignature_assemble hsig h.length_assemble_le fun i hi => ?_
  obtain ⟨-, hdata⟩ | hlen | hkey := h.opcode_cases i hi
  · rw [hdata]
    exact .inl (Nat.zero_le _)
  · exact .inl hlen.le
  · exact .inr (hkeys i hi hkey)

theorem HasShape.pushesDirectly_iff : pushesDirectly (assemble ops) = true ↔
    ∀ i ∈ ops, opcodeIsPushData i.opcode = false := by
  have hlen := h.length_assemble_le
  rw [pushesDirectly_assemble (by omega), all_eq_true]
  simp only [Bool.not_eq_true']

end

section

variable {ctx : ScriptContext} {code : CScript}

theorem runOps_pubkey {key : Instruction} (hkey : key.IsKeyPush)
    (hdir : opcodeIsPushData key.opcode = false) (hdrop : dropSignature code sig = code)
    (hs : Signs ctx code sig key.data) :
    runOps ctx [key, .op OP_CHECKSIG (by decide)] code ⟨[sig], [], {}, 0⟩ =
      .ok ⟨[vchTrue], [], {}, 1⟩ := by
  obtain ⟨hlow, hhigh⟩ := hkey
  have hpush : key.IsMinimalPush := isMinimalPush_of_direct (by omega) (by omega) hdir
  rw [runOps_push hpush (by simp), value_of_data (by omega),
    runOps_op (by decide) (fun _ => execute_checksig_of_signs hdrop hs) (by simp)]
  rfl

theorem runOps_pubkeyhash {hash : Instruction} {key : valtype} (hlen : hash.data.length = 20)
    (hdir : opcodeIsPushData hash.opcode = false) (hkey : ctx.hashes.hash160 key = hash.data)
    (hdrop : dropSignature code sig = code) (hs : Signs ctx code sig key) :
    runOps ctx [.op OP_DUP (by decide), .op OP_HASH160 (by decide), hash,
        .op OP_EQUALVERIFY (by decide), .op OP_CHECKSIG (by decide)] code
        ⟨[key, sig], [], {}, 0⟩ =
      .ok ⟨[vchTrue], [], {}, 4⟩ := by
  have hpush : hash.IsMinimalPush := isMinimalPush_of_direct (by omega) (by omega) hdir
  rw [runOps_op (by decide) (fun _ => execute_dup) (by simp),
    runOps_op (by decide) (fun _ => execute_hash160) (by simp),
    runOps_push hpush (by simp), value_of_data (by omega), hkey,
    runOps_op (by decide) (fun _ => execute_equalverify_of_eq) (by simp),
    runOps_op (by decide) (fun _ => execute_checksig_of_signs hdrop hs) (by simp)]
  rfl

/-- The instructions of a vault. -/
def vaultOps (owner mgr : Instruction) : List Instruction :=
  [.op OP_IF (by decide), owner, .op OP_ELSE (by decide), .op OP_REQUIRE_COINSTAKE (by decide),
    mgr, .op OP_ENDIF (by decide), .op OP_OVER (by decide), .op OP_HASH160 (by decide),
    .op OP_EQUALVERIFY (by decide), .op OP_CHECKSIG (by decide)]

/-- The owner's branch; the other one is skipped. -/
theorem runOps_vault {owner mgr : Instruction} {key : valtype} (ho : owner.data.length = 20)
    (hmgr : mgr.data.length = 20) (hownerDirect : opcodeIsPushData owner.opcode = false)
    (hkey : ctx.hashes.hash160 key = owner.data) (hdrop : dropSignature code sig = code)
    (hs : Signs ctx code sig key) :
    runOps ctx (vaultOps owner mgr) code ⟨[vchTrue, key, sig], [], {}, 0⟩ =
      .ok ⟨[vchTrue], [], {}, 8⟩ := by
  have hpush : owner.IsMinimalPush := isMinimalPush_of_direct (by omega) (by omega) hownerDirect
  rw [vaultOps, runOps_op (by decide) (fun _ => execute_if_true) (by simp),
    runOps_push hpush (by simp), value_of_data (by omega),
    runOps_op (by decide) (fun _ => execute_else_true) (by simp),
    runOps_op (by decide) (fun _ => execute_require_coinstake_skipped) (by simp),
    runOps_skipped_push (by omega) (by rw [hmgr]; decide) (by simp),
    runOps_op (by decide) (fun _ => execute_endif_skipped) (by simp),
    runOps_op (by decide) (fun _ => execute_over_of_two) (by simp),
    runOps_op (by decide) (fun _ => execute_hash160) (by simp), hkey,
    runOps_op (by decide) (fun _ => execute_equalverify_of_eq) (by simp),
    runOps_op (by decide) (fun _ => execute_checksig_of_signs hdrop hs) (by simp)]
  rfl

/-- The instructions of a multisig script. -/
def multisigOps (m : Nat) (keys : List Instruction) (hm : 1 ≤ m ∧ m ≤ keys.length)
    (hn : 1 ≤ keys.length ∧ keys.length ≤ 16) : List Instruction :=
  .smallInt m ⟨hm.1, hm.2.trans hn.2⟩ ::
    (keys ++ [.smallInt keys.length hn, .op OP_CHECKMULTISIG (by decide)])

/-- Signatures of the first keys, in their order. -/
theorem runOps_multisig {m : Nat} {keys : List Instruction} {sigs : List valtype}
    (hm : 1 ≤ m ∧ m ≤ keys.length) (hn : 1 ≤ keys.length ∧ keys.length ≤ 16)
    (hkeys : ∀ key ∈ keys, key.IsKeyPush) (hdir : ∀ key ∈ keys, opcodeIsPushData key.opcode = false)
    (henc : ∀ key ∈ keys, checkPubKeyEncoding key.data ctx.flags = .ok ())
    (hdrop : ∀ sig ∈ sigs, dropSignature code sig = code)
    (hs : List.Forall₂ (Signs ctx code) sigs ((keys.take m).map data)) :
    runOps ctx (multisigOps m keys hm hn) code ⟨sigs.reverse ++ [[]], [], {}, 0⟩ =
      .ok ⟨[vchTrue], [], {}, 1 + keys.length⟩ := by
  have hcnt : sigs.length = m := by
    rw [hs.length_eq, length_map, length_take]
    omega
  have hp : ∀ i ∈ .smallInt m ⟨hm.1, hm.2.trans hn.2⟩ ::
      (keys ++ [.smallInt keys.length hn]), i.IsMinimalPush := by
    intro i hi
    simp only [mem_cons, mem_append, not_mem_nil, or_false] at hi
    obtain rfl | hkey | rfl := hi
    · exact isMinimalPush_smallInt _
    · obtain ⟨hlow, hhigh⟩ := hkeys i hkey
      exact isMinimalPush_of_direct (by omega) (by omega) (hdir i hkey)
    · exact isMinimalPush_smallInt _
  have hvs : keys.map value = keys.map data := by
    refine map_congr_left fun key hkey => value_of_data ?_
    have hlow := (hkeys key hkey).1
    omega
  have hma : matchSignatures ctx code sigs.reverse (keys.map data).reverse = .ok true := by
    refine matchSignatures_of_sublist ?_ ?_ (rel_reverse hs)
    · intro key hkey
      obtain ⟨i, hi, rfl⟩ := mem_map.mp (mem_reverse.mp hkey)
      exact henc i hi
    · exact reverse_sublist.mpr ((take_sublist m keys).map _)
  have hsp : multisigOps m keys hm hn =
      (.smallInt m ⟨hm.1, hm.2.trans hn.2⟩ :: (keys ++ [.smallInt keys.length hn])) ++
        [.op OP_CHECKMULTISIG (by decide)] := by simp [multisigOps]
  have hst : ((smallInt m ⟨hm.1, hm.2.trans hn.2⟩ ::
      (keys ++ [.smallInt keys.length hn])).map value).reverse ++
        (sigs.reverse ++ [[]]) =
      CScriptNum.serialize (keys.map data).reverse.length ::
        ((keys.map data).reverse ++
          CScriptNum.serialize sigs.reverse.length :: (sigs.reverse ++ [] :: [])) := by
    simp [value_smallInt, hvs, hcnt]
  have hexec := fun rest => @execute_checkmultisig_of_match ctx code rest [] 1 sigs.reverse
    (keys.map data).reverse (by simp; omega) (by simp; omega) (by simp; omega)
    (by simp [MAXIMUM_NUMBER_OF_OPCODES]; omega)
    (fun sig hsig => hdrop sig (mem_reverse.mp hsig)) hma
  rw [hsp, runOps_pushes hp (by simp; omega), hst, runOps_op (by decide) hexec (by simp)]
  simp [runOps]

theorem runOps_scripthash {hash : Instruction} {subscript : valtype} {stack : StackType}
    (hlen : hash.data.length = 20) (hdir : opcodeIsPushData hash.opcode = false)
    (hh : ctx.hashes.hash160 subscript = hash.data) (hsize : stack.length + 2 ≤ 1000) :
    runOps ctx [.op OP_HASH160 (by decide), hash, .op OP_EQUAL (by decide)] code
        ⟨subscript :: stack, [], {}, 0⟩ =
      .ok ⟨vchTrue :: stack, [], {}, 2⟩ := by
  have hpush : hash.IsMinimalPush := isMinimalPush_of_direct (by omega) (by omega) hdir
  rw [runOps_op (by decide) (fun _ => execute_hash160) (by rw [length_cons]; omega),
    runOps_push hpush (by rw [length_cons]; omega), value_of_data (by omega), hh,
    runOps_op (by decide) (fun _ => execute_equal_of_eq) (by rw [length_cons]; omega)]
  rfl

end

/-! ### Only minimal pushes -/

/-- An operation that leaves the conditional scopes alone if it succeeds. -/
def KeepsScopes (st : StackOperationManager) (result : OpResult) : Prop :=
  ∀ st', result = .ok st' → st'.conditionalManager = st.conditionalManager

namespace KeepsScopes

variable {st : StackOperationManager}

theorem error (e : ScriptError) : KeepsScopes st (.error e) := by
  intro st' h
  cases h

theorem ok {st' : StackOperationManager} (h : st'.conditionalManager = st.conditionalManager) :
    KeepsScopes st (.ok st') := by
  intro st'' hok
  cases hok
  exact h

theorem withStack (res : Except ScriptError StackType) : KeepsScopes st (st.withStack res) := by
  intro st' h
  obtain ⟨stack, -, rfl⟩ := map_eq_ok.mp h
  rfl

theorem branch {c : Prop} [Decidable c] {x y : OpResult} (hx : KeepsScopes st x)
    (hy : ¬ c → KeepsScopes st y) : KeepsScopes st (if c then x else y) := by
  by_cases hc : c
  · rw [if_pos hc]
    exact hx
  · rw [if_neg hc]
    exact hy hc

end KeepsScopes

section

variable (ctx : ScriptContext) (opcode : opcodetype) (st : StackOperationManager)

theorem keepsScopes_stackModificationOp : KeepsScopes st (stackModificationOp ctx opcode st) := by
  by_cases hpick : opcode = OP_PICK
  · subst hpick
    exact KeepsScopes.withStack _
  by_cases hroll : opcode = OP_ROLL
  · subst hroll
    exact KeepsScopes.withStack _
  by_cases halt : opcode = OP_FROMALTSTACK
  · subst halt
    obtain ⟨stack, altstack, scopes, count⟩ := st
    cases altstack with
    | nil => exact KeepsScopes.error _
    | cons x rest => exact KeepsScopes.ok rfl
  · unfold stackModificationOp
    split
    all_goals first
      | contradiction
      | exact KeepsScopes.ok rfl
      | exact KeepsScopes.error _

/-- Opcodes other than the conditional ones leave the scopes alone. -/
theorem keepsScopes_applyOpcode (hno : opcode ∉ conditionalOpCodes) :
    KeepsScopes st (applyOpcode ctx opcode st) := by
  refine .branch (.branch (.ok rfl) fun _ => .error _) fun _ => ?_
  refine .branch (.error _) fun _ => ?_
  refine .branch (.withStack _) fun _ => ?_
  refine .branch (.branch (.error _) fun _ => .ok rfl) fun _ => ?_
  refine .branch (.ok rfl) fun _ => ?_
  rw [if_neg hno]
  refine .branch (keepsScopes_stackModificationOp ctx opcode st) fun _ => ?_
  refine .branch (.withStack _) fun _ => ?_
  refine .branch (.withStack _) fun _ => ?_
  refine .branch (.withStack _) fun _ => ?_
  exact .branch (.withStack _) fun _ => .error _

theorem keepsScopes_checkMultiSigOp (code : CScript) :
    KeepsScopes st (checkMultiSigOp ctx opcode code st) := by
  unfold checkMultiSigOp
  intro st' h
  split at h
  next => cases h
  next =>
    obtain ⟨_, -, h⟩ := bind_eq_ok.mp h
    obtain ⟨-, h⟩ := guard_eq_ok.mp h
    obtain ⟨-, h⟩ := guard_eq_ok.mp h
    obtain ⟨-, h⟩ := guard_eq_ok.mp h
    have hkept := KeepsScopes.withStack _ st' h
    exact hkept

theorem keepsScopes_applySignatureOpcode (code : CScript) :
    KeepsScopes st (applySignatureOpcode ctx opcode code st) := by
  unfold applySignatureOpcode
  split
  next => exact KeepsScopes.withStack _
  next => exact KeepsScopes.withStack _
  next => exact keepsScopes_checkMultiSigOp ctx _ st code
  next => exact keepsScopes_checkMultiSigOp ctx _ st code
  next => exact KeepsScopes.error _

end

section

variable {ctx : ScriptContext} {opcode : opcodetype} {st : StackOperationManager}
variable {data : valtype} {rest code : CScript} {result : StackOperationManager × CScript}

theorem KeepsScopes.of_map {op : OpResult} (hop : KeepsScopes st op)
    (h : op.map (fun st => (st, code)) = .ok result) :
    result.1.conditionalManager = st.conditionalManager := by
  obtain ⟨after, ha, rfl⟩ := map_eq_ok.mp h
  exact hop after ha

theorem executeOp_conditionalManager (hno : opcode ∉ conditionalOpCodes)
    (h : executeOp ctx opcode data rest code st = .ok result) :
    result.1.conditionalManager = st.conditionalManager := by
  have hsig : ∀ opcode, (applySignatureOpcode ctx opcode code st).map (fun st => (st, code)) =
      .ok result → result.1.conditionalManager = st.conditionalManager :=
    fun opcode => (keepsScopes_applySignatureOpcode ctx opcode st code).of_map
  revert h
  fun_cases executeOp ctx opcode data rest code st with
  | case1 => nofun
  | case2 | case3 | case4 | case10 =>
    rintro ⟨⟩
    rfl
  | case9 => exact (keepsScopes_applyOpcode ctx opcode st hno).of_map
  | _ => exact hsig _

end

/-- Where pushes have to be minimal, a script without conditionals that runs to its end has no
other ones. -/
theorem minimal_of_runOps {ctx : ScriptContext} (hmin : ctx.fRequireMinimal = true) {code : CScript}
    {st final : StackOperationManager} (hno : ∀ i ∈ ops, i.opcode ∉ conditionalOpCodes)
    (hr : st.conditionalManager.conditionalScopeNeedsClosing = false)
    (h : runOps ctx ops code st = .ok final) :
    ∀ i ∈ ops, i.opcode ≤ OP_PUSHDATA4 → checkMinimalPush i.data i.opcode = true := by
  induction ops generalizing code st with
  | nil => simp
  | cons i ops ih =>
    obtain ⟨result, hstep, hre⟩ := bind_eq_ok.mp h
    obtain ⟨n, hexec⟩ := stepOp_ok hstep
    have hkept := executeOp_conditionalManager (hno i mem_cons_self) hexec
    intro j hj hle
    obtain rfl | hj := mem_cons.mp hj
    · unfold executeOp at hexec
      simp only [hr, hmin, decide_eq_true hle, Bool.not_false, Bool.true_and, if_true] at hexec
      simpa using (guard_eq_ok.mp hexec).1
    · exact ih (fun k hk => hno k (mem_cons_of_mem i hk)) (by rw [hkept]; exact hr) hre
        j hj hle

theorem not_conditional_of_le {opcode : opcodetype} (h : opcode ≤ OP_16) :
    opcode ∉ conditionalOpCodes := by
  intro hmem
  have hall : conditionalOpCodes.all (fun o => ¬ o ≤ OP_16) = true := by decide
  exact of_decide_eq_true (all_eq_true.mp hall opcode hmem) h

theorem HasShape.no_conditionals (h : HasShape type solutions ops) (hv : type ≠ .TX_VAULT) :
    ∀ i ∈ ops, i.opcode ∉ conditionalOpCodes := by
  have hpush : ∀ i : Instruction, 0 < i.data.length → i.opcode ∉ conditionalOpCodes := fun i hi =>
    not_conditional_of_le
      (UInt8.le_trans (canPush_of_data hi).1 (show OP_PUSHDATA4 ≤ OP_16 by decide))
  cases h with
  | pubkey key hkey =>
    have hlow := hkey.1
    simp only [forall_mem_cons, not_mem_nil, false_imp_iff, implies_true, and_true]
    exact ⟨hpush key (by omega), by decide⟩
  | pubkeyhash hash hh =>
    simp only [forall_mem_cons, not_mem_nil, false_imp_iff, implies_true, and_true]
    exact ⟨by decide, by decide, hpush hash (by omega), by decide, by decide⟩
  | vault => exact absurd rfl hv
  | multisig m keys hm hn hkeys =>
    intro i hi
    simp only [mem_cons, mem_append, not_mem_nil, or_false] at hi
    obtain rfl | hkey | rfl | rfl := hi
    · exact not_conditional_of_le (isMinimalPush_smallInt _).opcode_le
    · have hlow := (hkeys i hkey).1
      exact hpush i (by omega)
    · exact not_conditional_of_le (isMinimalPush_smallInt _).opcode_le
    · decide

/-- Other scripts than vaults only run to the end if they push directly. -/
theorem HasShape.pushesDirectly_of_evalScript (h : HasShape type solutions ops)
    (hv : type ≠ .TX_VAULT) {ctx : ScriptContext} (hmin : ctx.fRequireMinimal = true)
    {stack after : StackType} (heval : evalScript ctx stack (assemble ops) = .ok after) :
    pushesDirectly (assemble ops) = true := by
  obtain ⟨final, hloop, -⟩ := evalScript_ok heval
  have hlen := h.length_assemble_le
  rw [evalLoop_assemble ctx (length_le_length_assemble ops) (by omega)] at hloop
  have hall := minimal_of_runOps hmin (h.no_conditionals hv) rfl hloop
  rw [h.pushesDirectly_iff]
  intro i hi
  have hdata : ∀ hlow : 2 ≤ i.data.length, i.data.length ≤ 75 →
      opcodeIsPushData i.opcode = false := fun hlow hhigh =>
    (checkMinimalPush_iff_direct hlow hhigh).mp
      (hall i hi (canPush_of_data (Nat.lt_of_lt_of_le Nat.two_pos hlow)).1)
  obtain ⟨hgt, -⟩ | hlen | ⟨hlow, hhigh⟩ := h.opcode_cases i hi
  · rw [← Bool.not_eq_true]
    intro hpushData
    simp only [opcodeIsPushData, Bool.or_eq_true, beq_iff_eq] at hpushData
    obtain (heq | heq) | heq := hpushData
    · exact absurd hgt (by rw [heq]; decide)
    · exact absurd hgt (by rw [heq]; decide)
    · exact absurd hgt (by rw [heq]; decide)
  · exact hdata (by omega) (by omega)
  · exact hdata (by omega) (by omega)

/-! ### Pushes in the shortest form -/

/-- `GetOp` reads the instructions one after the other, up to the end of the script. -/
inductive ReadsOps : CScript → List Instruction → Prop
  | nil : ReadsOps [] []
  | cons {pc rest : CScript} {i : Instruction} {ops : List Instruction}
      (h : getOp pc = some (i.opcode, i.data, rest)) (hr : ReadsOps rest ops) :
      ReadsOps pc (i :: ops)

theorem reads_assemble (h : (assemble ops).length < 2 ^ 32) : ReadsOps (assemble ops) ops := by
  induction ops with
  | nil => exact .nil
  | cons i ops ih =>
    rw [assemble_cons] at h ⊢
    exact .cons (getOp_encode h) (ih (length_assemble_lt h))

theorem pushMinimal_of_two (script : CScript) {data : valtype} (h : 2 ≤ data.length) :
    script.pushMinimal data = script.pushData data := by
  match data with
  | [] => cases h
  | [x] => exact absurd h (Nat.not_succ_le_self 1)
  | a :: b :: data => rfl

/-- Whether an instruction is a push of data in its shortest form, or `OP_1NEGATE` or one of
`OP_1` to `OP_16`. -/
def PushesMinimally (i : Instruction) : Prop :=
  (i.opcode ≤ OP_PUSHDATA4 ∧ checkMinimalPush i.data i.opcode = true) ∨
    i.opcode ∈ simpleValueOpCodes

/-- The instruction that `PushMinimal` writes. -/
theorem exists_pushMinimal (script : CScript) {data : valtype} (h : data.length < 2 ^ 32) :
    ∃ i : Instruction, script.pushMinimal data = script ++ i.encode ∧ i.value = data ∧
      PushesMinimally i := by
  have hcan := canPush_dataOpcode h
  have hpush : script.pushMinimal data = script.pushData data →
      checkMinimalPush data (dataOpcode data.length) = true →
      ∃ i : Instruction, script.pushMinimal data = script ++ i.encode ∧ i.value = data ∧
        PushesMinimally i := fun heq hmin =>
    ⟨push _ data hcan, by rw [heq, pushData_eq, encode_push], value_of_le hcan.1,
      .inl ⟨hcan.1, hmin⟩⟩
  match data with
  | [] => exact hpush (append_nil _).symm rfl
  | [x] =>
    by_cases hs : 1 ≤ x ∧ x ≤ 16
    · have hall : ∀ x : BitVec 8, 1 ≤ x ∧ x ≤ 16 → OP_1 + (⟨x⟩ - 1) > OP_PUSHDATA4 ∧
          OP_1 + (⟨x⟩ - 1) ∈ simpleValueOpCodes ∧
          CScriptNum.serialize ((OP_1 + (⟨x⟩ - 1)).toNat - (OP_1.toNat - 1)) = [⟨x⟩] := by
        decide +kernel
      obtain ⟨hgt, hsi, hv⟩ := hall x.toBitVec hs
      refine ⟨op _ hgt, ?_, (if_pos hsi).trans hv, .inr hsi⟩
      rw [encode_op, pushMinimal, if_pos hs]
      rfl
    · by_cases hn : x = 0x81
      · subst hn
        exact ⟨op OP_1NEGATE (by decide), rfl, by decide, .inr (by decide)⟩
      · refine hpush ?_ ?_
        · rw [pushMinimal, if_neg hs, if_neg hn]
        · rw [checkMinimalPush, if_neg hs, if_neg hn]
          rfl
  | a :: b :: data =>
    have htwo : 2 ≤ (a :: b :: data).length := by simp
    exact hpush (pushMinimal_of_two script htwo) (checkMinimalPush_dataOpcode (by omega))

/-- What `PushMinimal` writes to a script of less than 2 ^ 32 bytes is read back, one instruction
for every item, each the shortest. -/
theorem pushMinimal_reads {items : List valtype} (h : ∀ data ∈ items, data.length < 2 ^ 32)
    (hlen : (items.foldl pushMinimal []).length < 2 ^ 32) :
    ∃ ops : List Instruction, ReadsOps (items.foldl pushMinimal []) ops ∧ ops.map value = items ∧
      ∀ i ∈ ops, PushesMinimally i := by
  suffices hall : ∀ script : CScript, ∃ ops : List Instruction,
      items.foldl pushMinimal script = script ++ assemble ops ∧ ops.map value = items ∧
      ∀ i ∈ ops, PushesMinimally i by
    obtain ⟨ops, heq, hr⟩ := hall []
    rw [heq] at hlen ⊢
    exact ⟨ops, reads_assemble hlen, hr⟩
  clear hlen
  induction items with
  | nil => exact fun script => ⟨[], by simp⟩
  | cons data items ih =>
    intro script
    obtain ⟨i, hi, hv, hmin⟩ := exists_pushMinimal script (h data mem_cons_self)
    obtain ⟨ops, hops, hvs, hall⟩ :=
      ih (fun d hd => h d (mem_cons_of_mem data hd)) (script ++ i.encode)
    refine ⟨i :: ops, ?_, ?_, forall_mem_cons.mpr ⟨hmin, hall⟩⟩
    · rw [foldl_cons, hi, hops, assemble_cons, append_assoc]
    · rw [map_cons, hv, hvs]

theorem pushMinimal_reads_three : ∃ ops : List Instruction,
    ReadsOps [OP_16, OP_1NEGATE, 2, 1, 0] ops ∧ ops.map value = [[16], [0x81], [1, 0]] := by
  obtain ⟨ops, hr, hvs, -⟩ :=
    @pushMinimal_reads [[16], [0x81], [1, 0]] (by decide) (by decide)
  exact ⟨ops, hr, hvs⟩

/-- With 2 ^ 32 bytes behind the first opcode, `GetOp` sees none. -/
theorem not_readsOps_of_length {first second : valtype} (hfst : first.length = 20)
    (hsnd : second.length = 2 ^ 32 - 25) :
    ¬∃ ops, ReadsOps ([first, second].foldl pushMinimal []) ops := by
  have hop : dataOpcode 20 = 20 := rfl
  have hwd : lengthWidth 20 = 0 := rfl
  have hlong : dataOpcode (2 ^ 32 - 25) = OP_PUSHDATA4 := rfl
  have hscr : [first, second].foldl pushMinimal [] =
      20 :: (first ++ pushWith OP_PUSHDATA4 second) := by
    rw [foldl_cons, foldl_cons, foldl_nil, pushMinimal_of_two [] (by omega),
      pushMinimal_of_two _ (by omega), pushData_eq, pushData_eq, hfst, hsnd, hop, hlong,
      pushWith, hwd]
    rfl
  have hrea : getOp (20 :: (first ++ pushWith OP_PUSHDATA4 second)) = none := by
    have hre : (first ++ pushWith OP_PUSHDATA4 second).length = 2 ^ 32 := by
      rw [length_append, pushWith, length_cons, length_append, length_leLength, hfst, hsnd]
      rfl
    rw [getOp_cons_of_le (by decide), hwd, drop_zero, hre, if_neg (Nat.not_lt_zero _)]
    rfl
  rw [hscr]
  rintro ⟨ops, hr⟩
  cases hr with
  | cons h => exact absurd (hrea.symm.trans h) (by simp)

/-- All items are shorter than 2 ^ 32 bytes, but the script is longer. -/
theorem pushMinimal_unreadable : ∃ items : List valtype, (∀ data ∈ items, data.length < 2 ^ 32) ∧
    ¬∃ ops, ReadsOps (items.foldl pushMinimal []) ops := by
  refine ⟨[replicate 20 0, replicate (2 ^ 32 - 25) 0], ?_,
    not_readsOps_of_length length_replicate length_replicate⟩
  simp only [forall_mem_cons, length_replicate, not_mem_nil, false_imp_iff, implies_true, and_true]
  omega

end Divi
