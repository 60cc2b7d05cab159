/-
Verification under fewer flags.

A flag only makes the interpreter reject more, except for two of them: without
`SCRIPT_REQUIRE_COINSTAKE` the opcode of that name falls back to an upgradable one, and
without `SCRIPT_VERIFY_P2SH` a script hash is not looked into.  Both are in all the flags
that are used.  So a script that standard transactions may carry is one that blocks may.

Every operator under the larger set of flags refines the same operator under the smaller
one, and refinement composes along the interpreter's loop.
-/
import Divi.Proofs.VaultScript
import Divi.Script.Standard

namespace Divi

open Results

variable {ctx : ScriptContext} {flag : ScriptFlags} {vch : valtype}

/-! ### Sets of flags -/

/-- All flags of the first set are in the second. -/
def ScriptFlags.subset (F G : ScriptFlags) : Prop :=
  F &&& G = F
  deriving Decidable

theorem ScriptFlags.subset.has {F G : ScriptFlags} (h : F.subset G) (hf : F.has flag = true) :
    G.has flag = true := by
  unfold ScriptFlags.has at hf ⊢
  rw [bne_iff_ne] at hf ⊢
  intro hzero
  apply hf
  rw [← h, BitVec.and_assoc, hzero]
  exact BitVec.and_zero

/-- The same run with other flags. -/
def ScriptContext.withFlags (ctx : ScriptContext) (F : ScriptFlags) : ScriptContext :=
  { ctx with flags := F }

/-- What a run returns under the flags of a context it returns under other flags. -/
abbrev RefinesUnder (ctx : ScriptContext) (F : ScriptFlags) {α : Type}
    (run : ScriptContext → Except ScriptError α) : Prop :=
  Refines (run ctx) (run (ctx.withFlags F))

/-! ### Reading numbers and encodings -/

theorem ofVch_eq_some {fRequireMinimal : Bool} {n : Int} :
    CScriptNum.ofVch vch fRequireMinimal = some n ↔
      vch.length ≤ CScriptNum.nMaxNumSize ∧
        (fRequireMinimal = true → CScriptNum.isMinimal vch = true) ∧ CScriptNum.setVch vch = n := by
  unfold CScriptNum.ofVch
  split
  · simp
    omega
  · split <;> simp_all

theorem number_eq_ok {n : Int} :
    ctx.number vch = .ok n ↔ CScriptNum.ofVch vch ctx.fRequireMinimal = some n := by
  unfold ScriptContext.number
  cases CScriptNum.ofVch vch ctx.fRequireMinimal with
  | none => simp
  | some m => simp

/-- An empty signature passes; another one has to follow the rules that are in force. -/
theorem checkSignatureEncoding_eq_ok {vchSig : valtype} {flags : ScriptFlags} :
    checkSignatureEncoding vchSig flags = .ok () ↔ vchSig.isEmpty = true ∨
      ((flags.has (SCRIPT_VERIFY_DERSIG ||| SCRIPT_VERIFY_LOW_S ||| SCRIPT_VERIFY_STRICTENC) =
          true → isValidSignatureEncoding vchSig = true) ∧
      (flags.has SCRIPT_VERIFY_LOW_S = true → checkLowDERSignature vchSig = .ok ()) ∧
      (flags.has SCRIPT_VERIFY_STRICTENC = true → isDefinedHashtypeSignature vchSig = true)) := by
  unfold checkSignatureEncoding
  cases he : vchSig.isEmpty with
  | true => simp
  | false =>
    cases hlow : flags.has SCRIPT_VERIFY_LOW_S with
    | false => simp [guard_eq_ok, bind_eq_ok]
    | true =>
      simp only [Bool.false_eq_true, if_false, if_true, guard_eq_ok, bind_eq_ok, false_or]
      constructor
      · rintro ⟨hder, _, hchk, htype, -⟩
        exact ⟨by simpa using hder, fun _ => hchk, by simpa using htype⟩
      · rintro ⟨hder, hchk, htype⟩
        exact ⟨by simpa using hder, (), hchk trivial, by simpa using htype, trivial⟩

section

variable {F : ScriptFlags} (hsub : F.subset ctx.flags)

include hsub

theorem number_refines (vch : valtype) : RefinesUnder ctx F (·.number vch) := by
  intro n h
  obtain ⟨hlen, hmin, hv⟩ := ofVch_eq_some.mp (number_eq_ok.mp h)
  exact number_eq_ok.mpr
    (ofVch_eq_some.mpr ⟨hlen, fun hf => hmin (hsub.has hf), hv⟩)

theorem checkSignatureEncoding_refines (vchSig : valtype) :
    Refines (checkSignatureEncoding vchSig ctx.flags) (checkSignatureEncoding vchSig F) := by
  intro _ h
  refine checkSignatureEncoding_eq_ok.mpr ?_
  rcases checkSignatureEncoding_eq_ok.mp h with he | ⟨hder, hlow, htype⟩
  · exact .inl he
  · exact .inr ⟨fun hf => hder (hsub.has hf), fun hf => hlow (hsub.has hf),
      fun hf => htype (hsub.has hf)⟩

/-- A rule that depends on a flag is in force less often. -/
theorem flagged {broken : Bool} (h : (F.has flag && broken) = true) :
    (ctx.flags.has flag && broken) = true := by
  obtain ⟨hf, hb⟩ := Bool.and_eq_true_iff.mp h
  exact Bool.and_eq_true_iff.mpr ⟨hsub.has hf, hb⟩

theorem checkPubKeyEncoding_refines (vchPubKey : valtype) :
    Refines (checkPubKeyEncoding vchPubKey ctx.flags) (checkPubKeyEncoding vchPubKey F) :=
  .guard (flagged hsub) (.refl _)

/-! ### Operators on the stack -/

variable (opcode : opcodetype) (vchPushValue : valtype) (scriptCode rest codehash : CScript)
  (stack : StackType) (st : StackOperationManager)

theorem disabledOp_refines : RefinesUnder ctx F (disabledOp · st) :=
  .guard hsub.has (.refl _)

theorem pickOrRoll_refines (roll : Bool) : RefinesUnder ctx F (pickOrRoll · roll stack) := by
  match stack with
  | [] | [_] => exact .refl _
  | top :: next :: rest =>
    exact .bind (number_refines hsub top) fun _ => .refl _

theorem stackModificationOp_refines : RefinesUnder ctx F (stackModificationOp · opcode st) := by
  by_cases hpick : opcode = OP_PICK
  · subst hpick
    exact (pickOrRoll_refines hsub st.stack false).map _
  by_cases hroll : opcode = OP_ROLL
  · subst hroll
    exact (pickOrRoll_refines hsub st.stack true).map _
  · -- the other opcodes do not read numbers
    have heq : stackModificationOp ctx opcode st
        = stackModificationOp (ctx.withFlags F) opcode st := by
      unfold stackModificationOp
      split <;> first | rfl | contradiction
    rw [RefinesUnder, heq]

theorem unaryNumericOp_refines : RefinesUnder ctx F (unaryNumericOp · opcode stack) := by
  match stack with
  | [] => exact .refl _
  | x :: rest => exact .bind (number_refines hsub x) fun _ => .refl _

theorem binaryNumericOp_refines : RefinesUnder ctx F (binaryNumericOp · opcode stack) := by
  match stack with
  | [] | [_] => exact .refl _
  | x2 :: x1 :: rest =>
    exact .bind (number_refines hsub x1) fun _ =>
      .bind (number_refines hsub x2) fun _ => .refl _

theorem numericBoundsOp_refines : RefinesUnder ctx F (numericBoundsOp · stack) := by
  match stack with
  | [] | [_] | [_, _] => exact .refl _
  | x3 :: x2 :: x1 :: rest =>
    exact .bind (number_refines hsub x1) fun _ =>
      .bind (number_refines hsub x2) fun _ =>
        .bind (number_refines hsub x3) fun _ => .refl _

/-! ### Signatures -/

theorem checkSigOp_refines : RefinesUnder ctx F (checkSigOp · opcode scriptCode stack) := by
  match stack with
  | [] | [_] => exact .refl _
  | vchPubKey :: vchSig :: rest =>
    exact .bind (checkSignatureEncoding_refines hsub vchSig) fun _ =>
      .bind (checkPubKeyEncoding_refines hsub vchPubKey) fun _ => .refl _

/-- Along the keys: both runs drop the same signatures. -/
theorem matchSignatures_refines (sigs keys : List valtype) :
    RefinesUnder ctx F (matchSignatures · scriptCode sigs keys) := by
  induction keys generalizing sigs with
  | nil =>
    cases sigs with
    | nil => exact .refl _
    | cons vchSig sigs => exact .refl _
  | cons vchPubKey keys ih =>
    cases sigs with
    | nil => exact .refl _
    | cons vchSig sigs =>
      refine .bind (checkSignatureEncoding_refines hsub vchSig) fun _ => ?_
      refine .bind (checkPubKeyEncoding_refines hsub vchPubKey) fun _ => ?_
      exact .branch (fun _ => .refl _) fun _ => ih _

theorem finishMultiSig_refines (fSuccess : Bool) :
    RefinesUnder ctx F (finishMultiSig · opcode fSuccess stack) := by
  match stack with
  | [] => exact .refl _
  | dummy :: rest => exact .guard (flagged hsub) (.refl _)

theorem checkMultiSigs_refines (keys : List valtype) :
    RefinesUnder ctx F (checkMultiSigs · opcode scriptCode keys stack) := by
  match stack with
  | [] => exact .refl _
  | sigsCount :: afterKeys =>
    refine .bind (number_refines hsub sigsCount) fun _ => ?_
    refine .guard id (.guard id ?_)
    exact .bind (matchSignatures_refines hsub _ _ keys) fun fSuccess =>
      finishMultiSig_refines hsub opcode _ fSuccess

theorem checkMultiSigOp_refines : RefinesUnder ctx F (checkMultiSigOp · opcode scriptCode st) := by
  unfold checkMultiSigOp
  match st.stack with
  | [] => exact .refl _
  | keysCount :: afterCount =>
    refine .bind (number_refines hsub keysCount) fun _ => ?_
    refine .guard id (.guard id (.guard id ?_))
    exact (checkMultiSigs_refines hsub opcode scriptCode _ _).map _

theorem applySignatureOpcode_refines :
    RefinesUnder ctx F (applySignatureOpcode · opcode scriptCode st) := by
  unfold applySignatureOpcode
  split
  · exact (checkSigOp_refines hsub _ scriptCode st.stack).map _
  · exact (checkSigOp_refines hsub _ scriptCode st.stack).map _
  · exact checkMultiSigOp_refines hsub _ scriptCode st
  · exact checkMultiSigOp_refines hsub _ scriptCode st
  · exact .refl _

/-! ### Whole scripts -/

variable (hcs : F.has SCRIPT_REQUIRE_COINSTAKE = true)

include hcs

/-- Both runs take `OP_REQUIRE_COINSTAKE` for what it is. -/
theorem applyOpcode_refines : RefinesUnder ctx F (applyOpcode · opcode st) := by
  have hctx : ctx.flags.has SCRIPT_REQUIRE_COINSTAKE = true := hsub.has hcs
  have hf : (ctx.withFlags F).flags.has SCRIPT_REQUIRE_COINSTAKE = true := hcs
  unfold RefinesUnder applyOpcode
  beta_reduce
  rw [hctx, hf]
  refine .branch (fun _ => .refl _) fun _ => ?_
  refine .branch (fun _ => .refl _) fun _ => ?_
  refine .branch (fun _ => (numericBoundsOp_refines hsub st.stack).map _) fun _ => ?_
  refine .branch (fun _ => disabledOp_refines hsub st) fun _ => ?_
  refine .branch (fun _ => .refl _) fun _ => ?_
  refine .branch (fun _ => .refl _) fun _ => ?_
  refine .branch (fun _ => stackModificationOp_refines hsub opcode st) fun _ => ?_
  refine .branch (fun _ => .refl _) fun _ => ?_
  refine .branch (fun _ => (unaryNumericOp_refines hsub opcode st.stack).map _) fun _ => ?_
  refine .branch (fun _ => (binaryNumericOp_refines hsub opcode st.stack).map _) fun _ => ?_
  exact .refl _

theorem executeOp_refines :
    RefinesUnder ctx F (executeOp · opcode vchPushValue rest codehash st) := by
  unfold executeOp
  refine .branch (fun _ => .guard (flagged hsub) (.refl _)) fun _ => ?_
  refine .branch (fun _ => ?_) fun _ => .refl _
  split
  · exact .refl _
  · exact .refl _
  · exact (applySignatureOpcode_refines hsub _ codehash st).map _
  · exact (applySignatureOpcode_refines hsub _ codehash st).map _
  · exact (applySignatureOpcode_refines hsub _ codehash st).map _
  · exact (applySignatureOpcode_refines hsub _ codehash st).map _
  · exact (applyOpcode_refines hsub _ st hcs).map _

theorem stepOp_refines : RefinesUnder ctx F (stepOp · opcode vchPushValue rest codehash st) := by
  refine .guard id (.bind (.refl _) fun st => .guard id ?_)
  exact .bind (executeOp_refines hsub opcode vchPushValue rest codehash st hcs)
    fun _ => .refl _

/-- Instruction by instruction: both runs are in the same state after each. -/
theorem evalLoop_refines (fuel : Nat) (pc codehash : CScript) (st : StackOperationManager) :
    RefinesUnder ctx F (evalLoop · fuel pc codehash st) := by
  induction fuel generalizing pc codehash st with
  | zero => exact .refl _
  | succ fuel ih =>
    unfold evalLoop
    refine .branch (fun _ => .refl _) fun _ => ?_
    cases pc.getOp with
    | none => exact .refl _
    | some op =>
      obtain ⟨opcode, vchPushValue, rest⟩ := op
      exact .bind (stepOp_refines hsub opcode vchPushValue rest codehash st hcs)
        fun result => ih rest result.2 result.1

theorem evalScript_refines (stack : StackType) (script : CScript) :
    RefinesUnder ctx F (evalScript · stack script) :=
  .guard id (.bind (evalLoop_refines hsub hcs _ _ _ _) fun _ =>
    .refl _)

theorem verifyScriptHash_refines (scriptSig : CScript) (stackCopy : StackType) :
    RefinesUnder ctx F (verifyScriptHash · scriptSig stackCopy) := by
  refine .guard id ?_
  cases stackCopy with
  | nil => exact .refl _
  | cons pubKey2 stackCopy =>
    exact .bind (evalScript_refines hsub hcs stackCopy pubKey2) fun _ =>
      .refl _

theorem verifyScript_refines (hp2sh : F.has SCRIPT_VERIFY_P2SH = true)
    (scriptSig scriptPubKey : CScript) :
    RefinesUnder ctx F (verifyScript · scriptSig scriptPubKey) := by
  have hctx : ctx.flags.has SCRIPT_VERIFY_P2SH = true := hsub.has hp2sh
  have hf : (ctx.withFlags F).flags.has SCRIPT_VERIFY_P2SH = true := hp2sh
  unfold RefinesUnder verifyScript
  beta_reduce
  rw [hctx, hf]
  refine .guard (flagged hsub) ?_
  refine .bind (evalScript_refines hsub hcs [] scriptSig) fun stackCopy => ?_
  refine .bind (evalScript_refines hsub hcs stackCopy scriptPubKey) fun stack => ?_
  refine .bind (.refl _) fun _ => ?_
  exact .branch (fun _ => verifyScriptHash_refines hsub hcs scriptSig stackCopy)
    fun _ => .refl _

end

/--
**Policy implies consensus.**  A script that verifies under some flags verifies under every
subset of them that keeps `SCRIPT_REQUIRE_COINSTAKE` and `SCRIPT_VERIFY_P2SH`; in
particular, what verifies under the standard flags verifies under the mandatory ones.
-/
theorem policy_implies_consensus (ctx : ScriptContext) (scriptSig scriptPubKey : CScript) :
    (∀ F G : ScriptFlags, F.subset G → F.has SCRIPT_REQUIRE_COINSTAKE = true →
      F.has SCRIPT_VERIFY_P2SH = true →
      verifyScript (ctx.withFlags G) scriptSig scriptPubKey = .ok () →
      verifyScript (ctx.withFlags F) scriptSig scriptPubKey = .ok ()) ∧
    (verifyScript (ctx.withFlags STANDARD_SCRIPT_VERIFY_FLAGS) scriptSig scriptPubKey = .ok () →
      verifyScript (ctx.withFlags MANDATORY_SCRIPT_VERIFY_FLAGS) scriptSig scriptPubKey
        = .ok ()) := by
  have hall : ∀ F G : ScriptFlags, F.subset G → F.has SCRIPT_REQUIRE_COINSTAKE = true →
      F.has SCRIPT_VERIFY_P2SH = true →
      verifyScript (ctx.withFlags G) scriptSig scriptPubKey = .ok () →
      verifyScript (ctx.withFlags F) scriptSig scriptPubKey = .ok () := by
    intro F G hsub hcs hp2sh h
    have hr : Refines (verifyScript (ctx.withFlags G) scriptSig scriptPubKey)
        (verifyScript ((ctx.withFlags G).withFlags F) scriptSig scriptPubKey) :=
      verifyScript_refines hsub hcs hp2sh scriptSig scriptPubKey
    exact hr () h
  exact ⟨hall, hall _ _ (by decide) (by decide) (by decide)⟩

/-- Pushes the script `OP_1`. -/
def hashedScriptSig : CScript := [1, OP_1]

/-- Pays to the hash of the script `OP_1`. -/
def hashedScriptPubKey : CScript := [OP_HASH160, 20] ++ padTo 20 [OP_1] ++ [OP_EQUAL]

theorem policy_implies_consensus_hashed :
    verifyScript (managerContext.withFlags STANDARD_SCRIPT_VERIFY_FLAGS) hashedScriptSig
      hashedScriptPubKey = .ok () ∧
    verifyScript (managerContext.withFlags MANDATORY_SCRIPT_VERIFY_FLAGS) hashedScriptSig
      hashedScriptPubKey = .ok () := by
  have hs : verifyScript (managerContext.withFlags STANDARD_SCRIPT_VERIFY_FLAGS)
      hashedScriptSig hashedScriptPubKey = .ok () := by decide +kernel
  exact ⟨hs, (policy_implies_consensus managerContext hashedScriptSig
    hashedScriptPubKey).1 MANDATORY_SCRIPT_VERIFY_FLAGS STANDARD_SCRIPT_VERIFY_FLAGS (by decide)
    (by decide) (by decide) hs⟩

end Divi
