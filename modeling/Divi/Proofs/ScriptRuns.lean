/-
Running standard scripts.

One rule for each instruction that the scripts of the known types are made of: it says what a run
that comes to the instruction goes on with.  The main results are that pushes put their values on
the stack (`runOps_pushes`), and that signatures made with some of the keys of a multisig script,
in the order of the keys, are all matched (`matchSignatures_of_sublist`).
-/
import Divi.Proofs.Instructions
import Divi.Proofs.ScriptPolicy

namespace Divi

open Instruction List Results CScriptNum

variable {ctx : ScriptContext} {ops pushes : List Instruction} {code rest : CScript}
  {stack : StackType} {n : Nat} {statuses : List Bool} {i : Instruction}
  {st : StackOperationManager} {opcode : opcodetype} {sigs keys : List valtype} {x : valtype}

/-! ### One instruction -/

theorem runOps_cons {result : StackOperationManager × CScript}
    (h : stepOp ctx i.opcode i.data (assemble ops) code st = .ok result) :
    runOps ctx (i :: ops) code st = runOps ctx ops result.2 result.1 := by
  rw [runOps, h]
  rfl

theorem runOps_op {hgt : opcode > OP_PUSHDATA4} {stack' : StackType}
    {conditions conditions' : ConditionalScopeStackManager} {n' : Nat}
    (hc : opcode > OP_16 ∧ opcodeIsDisabled opcode = false ∧ n < MAXIMUM_NUMBER_OF_OPCODES)
    (hexec : ∀ rest, executeOp ctx opcode [] rest code ⟨stack, [], conditions, n + 1⟩ =
      .ok (⟨stack', [], conditions', n'⟩, code)) (hs : stack'.length ≤ 1000) :
    runOps ctx (op opcode hgt :: ops) code ⟨stack, [], conditions, n⟩ =
      runOps ctx ops code ⟨stack', [], conditions', n'⟩ := by
  obtain ⟨hc, hen, hops⟩ := hc
  have hr : reserveAdditionalOp opcode ⟨stack, [], conditions, n⟩ =
      .ok ⟨stack, [], conditions, n + 1⟩ := by
    rw [reserveAdditionalOp, if_pos hc, if_pos (Nat.succ_le_of_lt hops)]
  have he : ¬ ([] : valtype).length > MAX_SCRIPT_ELEMENT_SIZE := by decide
  have hstep : stepOp ctx opcode [] (assemble ops) code ⟨stack, [], conditions, n⟩ =
      .ok (⟨stack', [], conditions', n'⟩, code) := by
    rw [stepOp, if_neg he, hr]
    show (if opcodeIsDisabled opcode then _ else _) = _
    rw [hen, if_neg Bool.false_ne_true, hexec]
    exact if_neg (Nat.not_lt.mpr hs)
  exact @runOps_cons ctx ops code (op opcode hgt) _ _ hstep

theorem stepOp_uncounted {data : valtype} {st' : StackOperationManager} (hc : ¬ opcode > OP_16)
    (hdata : data.length ≤ MAX_SCRIPT_ELEMENT_SIZE)
    (hexec : executeOp ctx opcode data rest code st = .ok (st', code))
    (hs : st'.stack.length + st'.altstack.length ≤ 1000) :
    stepOp ctx opcode data rest code st = .ok (st', code) := by
  have he : opcodeIsDisabled opcode = false := by
    unfold opcodeIsDisabled
    rw [decide_eq_false_iff_not]
    intro hmem
    have hall : [OP_CAT, OP_SUBSTR, OP_LEFT, OP_RIGHT, OP_INVERT, OP_AND, OP_OR, OP_XOR,
        OP_2MUL, OP_2DIV, OP_MUL, OP_DIV, OP_MOD, OP_LSHIFT, OP_RSHIFT].all (· > OP_16) = true := by
      decide
    exact hc (of_decide_eq_true (all_eq_true.mp hall opcode hmem))
  have hr : reserveAdditionalOp opcode st = .ok st := by
    rw [reserveAdditionalOp, if_neg hc]
  rw [stepOp, if_neg (Nat.not_lt.mpr hdata), hr]
  show (if opcodeIsDisabled opcode then _ else _) = _
  rw [he, if_neg Bool.false_ne_true, hexec]
  exact if_neg (Nat.not_lt.mpr hs)

/-! ### Pushes -/

/-- A push in its shortest form. -/
def Instruction.IsMinimalPush (i : Instruction) : Prop :=
  (i.opcode ≤ OP_PUSHDATA4 ∧ checkMinimalPush i.data i.opcode = true ∧
    i.data.length ≤ MAX_SCRIPT_ELEMENT_SIZE) ∨
  i.opcode ∈ simpleValueOpCodes

/-- What a push puts on the stack: a number for `OP_1NEGATE` and `OP_1` to `OP_16`. -/
def Instruction.value (i : Instruction) : valtype :=
  if i.opcode ∈ simpleValueOpCodes then
    CScriptNum.serialize ((i.opcode.toNat : Int) - (OP_1.toNat - 1))
  else
    i.data

theorem Instruction.IsMinimalPush.opcode_le (h : i.IsMinimalPush) : i.opcode ≤ OP_16 := by
  obtain ⟨hle, -⟩ | hs := h
  · exact UInt8.le_trans hle (by decide)
  · have hall : simpleValueOpCodes.all (· ≤ OP_16) = true := by decide
    exact of_decide_eq_true (all_eq_true.mp hall _ hs)

theorem not_le_of_mem_simpleValueOpCodes (h : opcode ∈ simpleValueOpCodes) :
    ¬ opcode ≤ OP_PUSHDATA4 := by
  have hall : simpleValueOpCodes.all (fun o => ¬ o ≤ OP_PUSHDATA4) = true := by decide
  exact of_decide_eq_true (all_eq_true.mp hall opcode h)

theorem Instruction.value_of_le (h : i.opcode ≤ OP_PUSHDATA4) : i.value = i.data :=
  if_neg fun hs => not_le_of_mem_simpleValueOpCodes hs h

theorem execute_simpleValue (h : opcode ∈ simpleValueOpCodes) :
    executeOp ctx opcode [] rest code ⟨stack, [], ⟨statuses, false⟩, n⟩ =
      .ok (⟨pushValueOp opcode stack, [], ⟨statuses, false⟩, n⟩, code) := by
  simp only [simpleValueOpCodes, mem_cons, not_mem_nil, or_false] at h
  rcases h with rfl | rfl | rfl | rfl | rfl | rfl | rfl | rfl | rfl | rfl | rfl | rfl | rfl | rfl |
    rfl | rfl | rfl
  all_goals rfl

theorem executeOp_minimalPush (h : i.IsMinimalPush) (rest : CScript) :
    executeOp ctx i.opcode i.data rest code ⟨stack, [], ⟨statuses, false⟩, n⟩ =
      .ok (⟨i.value :: stack, [], ⟨statuses, false⟩, n⟩, code) := by
  obtain ⟨hle, hmin, -⟩ | hs := h
  · have hr : (!false && decide (i.opcode ≤ OP_PUSHDATA4)) = true := by simpa using hle
    unfold executeOp
    rw [if_pos hr, hmin, value_of_le hle, Bool.not_true, Bool.and_false,
      if_neg Bool.false_ne_true]
  · have hgt := not_le_of_mem_simpleValueOpCodes hs
    have hdata : i.data = [] := by
      obtain ⟨-, hdata⟩ | hcan := i.wf
      · exact hdata
      · exact absurd hcan.1 hgt
    rw [hdata, execute_simpleValue hs, value, if_pos hs]
    rfl

theorem Instruction.IsMinimalPush.length_data_le (h : i.IsMinimalPush) :
    i.data.length ≤ MAX_SCRIPT_ELEMENT_SIZE := by
  obtain ⟨-, -, hlen⟩ | hs := h
  · exact hlen
  · have hgt := not_le_of_mem_simpleValueOpCodes hs
    obtain ⟨-, hdata⟩ | hcan := i.wf
    · rw [hdata]
      exact Nat.zero_le _
    · exact absurd hcan.1 hgt

theorem runOps_push (h : i.IsMinimalPush) (hsize : stack.length < 1000) :
    runOps ctx (i :: ops) code ⟨stack, [], ⟨statuses, false⟩, n⟩ =
      runOps ctx ops code ⟨i.value :: stack, [], ⟨statuses, false⟩, n⟩ := by
  have hstep : stepOp ctx i.opcode i.data (assemble ops) code
      ⟨stack, [], ⟨statuses, false⟩, n⟩ =
      .ok (⟨i.value :: stack, [], ⟨statuses, false⟩, n⟩, code) :=
    stepOp_uncounted (UInt8.not_lt.mpr h.opcode_le) h.length_data_le (executeOp_minimalPush h _)
      (Nat.succ_le_of_lt hsize)
  exact runOps_cons hstep

/-- Where the script is read, pushes put their values on the stack, one above the other. -/
theorem runOps_pushes (h : ∀ i ∈ pushes, i.IsMinimalPush)
    (hsize : stack.length + pushes.length ≤ 1000) :
    runOps ctx (pushes ++ ops) code ⟨stack, [], ⟨statuses, false⟩, n⟩ =
      runOps ctx ops code ⟨(pushes.map value).reverse ++ stack, [], ⟨statuses, false⟩, n⟩ := by
  induction pushes generalizing stack with
  | nil => rfl
  | cons i pushes ih =>
    rw [length_cons] at hsize
    rw [cons_append, runOps_push (h i mem_cons_self) (by omega),
      ih (fun j hj => h j (mem_cons_of_mem i hj)) (by rw [length_cons]; omega),
      map_cons, reverse_cons, append_assoc, singleton_append]

theorem evalScript_pushes (h : ∀ i ∈ pushes, i.IsMinimalPush) (hcnt : pushes.length ≤ 1000)
    (hsize : (assemble pushes).length ≤ 10000) :
    evalScript ctx [] (assemble pushes) = .ok (pushes.map value).reverse := by
  have hrun : runOps ctx (pushes ++ []) (assemble pushes) ⟨[], [], {}, 0⟩ = _ :=
    runOps_pushes h (by rw [length_nil, Nat.zero_add]; exact hcnt)
  rw [append_nil, append_nil] at hrun
  exact evalScript_assemble hsize hrun rfl

/-! ### Signatures -/

/-- A signature that the checker accepts for a key, both of them well formed. -/
structure Signs (ctx : ScriptContext) (code : CScript) (sig key : valtype) : Prop where
  sig_encoding : checkSignatureEncoding sig ctx.flags = .ok ()
  key_encoding : checkPubKeyEncoding key ctx.flags = .ok ()
  verifies : ctx.checker.checkSig sig key code = true

/-- Every signature is made with one of the keys, in the order of the keys. -/
theorem matchSignatures_of_sublist {signers : List valtype}
    (hkeys : ∀ key ∈ keys, checkPubKeyEncoding key ctx.flags = .ok ()) (hsub : signers.Sublist keys)
    (h : List.Forall₂ (Signs ctx code) sigs signers) :
    matchSignatures ctx code sigs keys = .ok true := by
  induction keys generalizing sigs signers with
  | nil =>
    obtain rfl := sublist_nil.mp hsub
    obtain rfl := forall₂_nil_right_iff.mp h
    rfl
  | cons key keys ih =>
    have hr : ∀ k ∈ keys, checkPubKeyEncoding k ctx.flags = .ok () := fun k hk =>
      hkeys k (mem_cons_of_mem key hk)
    cases h with
    | nil => rfl
    | @cons sig signer sigs signers hs hsigs =>
      have hlen : sigs.length = signers.length := hsigs.length_eq
      have htail : signers.Sublist keys := hsub.tail
      have hle : signers.length ≤ keys.length := htail.length_le
      rw [matchSignatures, hs.sig_encoding, hkeys key mem_cons_self]
      by_cases hchk : ctx.checker.checkSig sig key code = true
      · -- a key that fits is used up, also if the signature was made with a later one
        simp only [hchk, if_true]
        rw [if_neg (by omega)]
        exact ih hr htail hsigs
      · simp only [hchk, Bool.false_eq_true, if_false]
        have hskip : (signer :: signers).Sublist keys := by
          cases hsub with
          | cons _ hskip => exact hskip
          | cons_cons _ _ => exact absurd hs.verifies hchk
        have hskipLength := hskip.length_le
        rw [length_cons] at hskipLength
        rw [if_neg (by rw [length_cons]; omega)]
        exact ih hr hskip (.cons hs hsigs)

theorem number_serialize {k : Nat} (hpos : 1 ≤ k) (hle : k ≤ 16) :
    ctx.number (serialize k) = .ok (k : Int) := by
  rw [number_eq_ok, ofVch_eq_some]
  have hall : ∀ j ∈ Finset.Icc 1 16, (serialize (j : Nat)).length ≤ nMaxNumSize ∧
      isMinimal (serialize (j : Nat)) = true ∧
      setVch (serialize (j : Nat)) = (j : Nat) := by decide
  obtain ⟨hlen, hmin, hv⟩ := hall k (Finset.mem_Icc.mpr ⟨hpos, hle⟩)
  exact ⟨hlen, fun _ => hmin, hv⟩

theorem getint_of_le {k : Nat} (hle : k ≤ 16) : getint (k : Int) = k := by
  unfold getint
  rw [if_neg (by omega), if_neg (by omega)]

theorem foldl_dropSignature (h : ∀ sig ∈ sigs, dropSignature code sig = code) :
    sigs.foldl dropSignature code = code := by
  refine List.foldlRecOn (motive := (· = code)) sigs _ rfl ?_
  rintro _ rfl sig hsig
  exact h sig hsig

theorem checkMultiSigs_of_match (hpos : 1 ≤ sigs.length) (hle : sigs.length ≤ keys.length)
    (hkeys : keys.length ≤ 16) (hdrop : ∀ sig ∈ sigs, dropSignature code sig = code)
    (hm : matchSignatures ctx code sigs keys = .ok true) :
    checkMultiSigs ctx OP_CHECKMULTISIG code keys
        (serialize sigs.length :: (sigs ++ [] :: stack)) =
      .ok (vchTrue :: stack) := by
  rw [checkMultiSigs, number_serialize hpos (by omega)]
  show (if getint (sigs.length : Int) < 0 ∨
    getint (sigs.length : Int) > keys.length then _ else _) = _
  rw [getint_of_le (by omega), if_neg (by omega), Int.toNat_natCast,
    if_neg (by rw [length_append, length_cons]; omega), take_left, drop_left]
  dsimp only
  rw [foldl_dropSignature hdrop, hm]
  show finishMultiSig ctx OP_CHECKMULTISIG true ([] :: stack) = _
  rw [finishMultiSig, isEmpty_nil, Bool.not_true, Bool.and_false, if_neg Bool.false_ne_true,
    if_neg (by decide)]
  rfl

/-! ### Opcodes -/

theorem execute_dup :
    executeOp ctx OP_DUP [] rest code ⟨x :: stack, [], {}, n⟩ =
      .ok (⟨x :: x :: stack, [], {}, n⟩, code) := rfl

theorem execute_over_of_two {y : valtype} :
    executeOp ctx OP_OVER [] rest code ⟨x :: y :: stack, [], {}, n⟩ =
      .ok (⟨y :: x :: y :: stack, [], {}, n⟩, code) := rfl

/-- A true condition opens a branch that is read, up to `OP_ELSE`. -/
theorem execute_if_true :
    executeOp ctx OP_IF [] rest code ⟨vchTrue :: stack, [], ⟨statuses, false⟩, n⟩ =
      .ok (⟨stack, [], ⟨true :: statuses, false⟩, n⟩, code) := rfl

theorem execute_else_true :
    executeOp ctx OP_ELSE [] rest code ⟨stack, [], ⟨[true], false⟩, n⟩ =
      .ok (⟨stack, [], ⟨[false], true⟩, n⟩, code) := rfl

theorem execute_endif_skipped :
    executeOp ctx OP_ENDIF [] rest code ⟨stack, [], ⟨[false], true⟩, n⟩ =
      .ok (⟨stack, [], {}, n⟩, code) := rfl

theorem runOps_skipped_push (hdata : 0 < i.data.length)
    (hlen : i.data.length ≤ MAX_SCRIPT_ELEMENT_SIZE) (hs : stack.length ≤ 1000) :
    runOps ctx (i :: ops) code ⟨stack, [], ⟨statuses, true⟩, n⟩ =
      runOps ctx ops code ⟨stack, [], ⟨statuses, true⟩, n⟩ := by
  have hle := (canPush_of_data hdata).1
  have hskip : ¬ ((!true || (OP_IF ≤ i.opcode && i.opcode ≤ OP_ENDIF)) = true) := by
    have hlt : ¬ OP_IF ≤ i.opcode := UInt8.not_le.mpr (UInt8.lt_of_le_of_lt hle (by decide))
    simp [hlt]
  have hexec : executeOp ctx i.opcode i.data (assemble ops) code
      ⟨stack, [], ⟨statuses, true⟩, n⟩ = .ok (⟨stack, [], ⟨statuses, true⟩, n⟩, code) := by
    unfold executeOp
    rw [if_neg (by simp), if_neg hskip]
  have hstep := stepOp_uncounted
    (UInt8.not_lt.mpr (UInt8.le_trans hle (show OP_PUSHDATA4 ≤ OP_16 by decide))) hlen hexec
    hs
  exact runOps_cons hstep

theorem execute_equal_of_eq :
    executeOp ctx OP_EQUAL [] rest code ⟨x :: x :: stack, [], {}, n⟩ =
      .ok (⟨vchTrue :: stack, [], {}, n⟩, code) := by
  show Except.ok
    ((⟨boolVch (decide (x = x)) :: stack, [], {}, n⟩ : StackOperationManager), code) = _
  rw [decide_eq_true rfl]
  rfl

theorem execute_equalverify_of_eq :
    executeOp ctx OP_EQUALVERIFY [] rest code ⟨x :: x :: stack, [], {}, n⟩ =
      .ok (⟨stack, [], {}, n⟩, code) := by
  show ((if x = x then .ok stack else .error .SCRIPT_ERR_EQUALVERIFY :
    Except ScriptError StackType).map fun stack =>
      (⟨stack, [], {}, n⟩ : StackOperationManager)).map (fun st => (st, code)) = _
  rw [if_pos rfl]
  rfl

theorem execute_checksig_of_signs {sig key : valtype} (hdrop : dropSignature code sig = code)
    (h : Signs ctx code sig key) :
    executeOp ctx OP_CHECKSIG [] rest code ⟨key :: sig :: stack, [], {}, n⟩ =
      .ok (⟨vchTrue :: stack, [], {}, n⟩, code) := by
  have hchk : checkSigOp ctx OP_CHECKSIG code (key :: sig :: stack) = .ok (vchTrue :: stack) := by
    rw [checkSigOp, hdrop, h.sig_encoding, h.key_encoding, h.verifies]
    rfl
  show ((checkSigOp ctx OP_CHECKSIG code (key :: sig :: stack)).map fun stack =>
    (⟨stack, [], {}, n⟩ : StackOperationManager)).map (fun st => (st, code)) = _
  rw [hchk]
  rfl

theorem execute_checkmultisig_of_match (hpos : 1 ≤ sigs.length) (hle : sigs.length ≤ keys.length)
    (hkeys : keys.length ≤ 16) (hops : n + keys.length ≤ MAXIMUM_NUMBER_OF_OPCODES)
    (hdrop : ∀ sig ∈ sigs, dropSignature code sig = code)
    (hm : matchSignatures ctx code sigs keys = .ok true) :
    executeOp ctx OP_CHECKMULTISIG [] rest code ⟨serialize keys.length ::
          (keys ++ serialize sigs.length :: (sigs ++ [] :: stack)), [], {}, n⟩ =
      .ok (⟨vchTrue :: stack, [], {}, n + keys.length⟩, code) := by
  show (checkMultiSigOp ctx OP_CHECKMULTISIG code ⟨_ :: _, [], {}, n⟩).map
    (fun st => (st, code)) = _
  unfold checkMultiSigOp
  dsimp only
  rw [number_serialize (by omega) hkeys]
  show Except.map _ (if getint (keys.length : Int) < 0 ∨
    getint (keys.length : Int) > 20 then _ else _) = _
  rw [getint_of_le hkeys, if_neg (by omega), Int.toNat_natCast, if_neg (Nat.not_lt.mpr hops),
    if_neg (by rw [length_append, length_cons]; omega), take_left, drop_left,
    checkMultiSigs_of_match hpos hle hkeys hdrop hm]
  rfl

end Divi
