/-
What it takes to spend from a staking vault.

`scriptSig` is an arbitrary program, so nothing is known about the stack it leaves.
The vault script is run on it instruction by instruction: `evalLoop_ok` takes one
instruction off a run that succeeds, the lemmas after it say what each instruction of
the vault then did, and the two branches of the conditional meet again behind it with
one of the two key hashes on the stack.
-/
import Divi.Script.Interpreter
import Divi.Script.StakingVault
import Divi.Lib.Results

namespace Divi

open Results

variable {ctx : ScriptContext} {opcode : opcodetype} {data : valtype} {rest ch : CScript}
  {final : StackOperationManager} {stack after : StackType}
  {result : StackOperationManager × CScript}

/-! ### Reading the instructions of the vault -/

theorem getOp_op (h : opcode > OP_PUSHDATA4) (rest : CScript) :
    CScript.getOp (opcode :: rest) = some (opcode, [], rest) := by
  simp [CScript.getOp, h]

theorem getOp_push20 (h : data.length = 20) (hr : rest.length < 100) :
    CScript.getOp (0x14 :: (data ++ rest)) = some (0x14, data, rest) := by
  have hnot : ¬ ((0x14 : opcodetype) > OP_PUSHDATA4) := by decide
  have hlt : (0x14 : opcodetype) < OP_PUSHDATA1 := by decide
  have hsize : (0x14 : UInt8).toNat = 20 := rfl
  have hleft : ¬(data ++ rest).length % 2 ^ 32 < 20 := by
    rw [List.length_append]
    omega
  simp only [CScript.getOp, hnot, hlt, hsize, hleft, if_true, if_false, List.drop_zero,
    Nat.not_lt_zero]
  rw [← h, List.take_left, List.drop_left]

/-- The part of the vault script behind the conditional. -/
def vaultTail : CScript := [OP_OVER, OP_HASH160, OP_EQUALVERIFY, OP_CHECKSIG]

theorem createStakingVaultScript_eq {o v : valtype} (ho : o.length = 20) (hv : v.length = 20) :
    createStakingVaultScript o v = OP_IF :: 0x14 :: (o ++ OP_ELSE :: OP_REQUIRE_COINSTAKE :: 0x14 ::
        (v ++ OP_ENDIF :: vaultTail)) := by
  have hhdr : CScript.pushHeader 20 = [0x14] := rfl
  simp [createStakingVaultScript, CScript.pushOp, CScript.pushData, ho, hv, hhdr, vaultTail]

/-! ### Taking one instruction off a run -/

section

variable {st : StackOperationManager}

theorem reserveAdditionalOp_ok {counted : StackOperationManager}
    (h : reserveAdditionalOp opcode st = .ok counted) :
    ∃ n, counted = { st with opCount := n } := by
  revert h
  fun_cases reserveAdditionalOp opcode st with
  | case2 => nofun
  | _ =>
    rintro ⟨⟩
    exact ⟨_, rfl⟩

/-- A round of the loop that succeeds executed its instruction, with some operation count. -/
theorem stepOp_ok (h : stepOp ctx opcode data rest ch st = .ok result) :
    ∃ n, executeOp ctx opcode data rest ch { st with opCount := n } = .ok result := by
  obtain ⟨-, h⟩ := guard_eq_ok.mp h
  obtain ⟨counted, hc, h⟩ := bind_eq_ok.mp h
  obtain ⟨-, h⟩ := guard_eq_ok.mp h
  obtain ⟨r, hr, h⟩ := bind_eq_ok.mp h
  obtain ⟨-, h⟩ := guard_eq_ok.mp h
  obtain ⟨n, hn⟩ := reserveAdditionalOp_ok hc
  cases h
  exact ⟨n, by rw [← hn]; exact hr⟩

theorem evalLoop_ok {pc : CScript} {fuel : Nat} (hop : pc.getOp = some (opcode, data, rest))
    (h : evalLoop ctx (fuel + 1) pc ch st = .ok final) :
    ∃ n result, executeOp ctx opcode data rest ch { st with opCount := n } = .ok result ∧
      evalLoop ctx fuel rest result.2 result.1 = .ok final := by
  unfold evalLoop at h
  have hne : pc.isEmpty = false := by
    cases pc with
    | nil => cases hop
    | cons b tail => rfl
  rw [hne, hop] at h
  obtain ⟨result, hstep, hr⟩ := bind_eq_ok.mp h
  obtain ⟨n, hexec⟩ := stepOp_ok hstep
  exact ⟨n, result, hexec, hr⟩

end

/-! ### The instructions of the vault, one by one -/

section

variable {alt : StackType} {n : Nat} {statuses : List Bool}

/-- In a branch that is read, a push puts its data on the stack. -/
theorem execute_push20
    (h : executeOp ctx 0x14 data rest ch ⟨stack, alt, ⟨statuses, false⟩, n⟩ = .ok result) :
    result = (⟨data :: stack, alt, ⟨statuses, false⟩, n⟩, ch) := by
  have hcond : (!false && decide ((0x14 : opcodetype) ≤ OP_PUSHDATA4)) = true := by decide
  unfold executeOp at h
  obtain ⟨-, h⟩ := guard_eq_ok.mp h
  cases h
  rfl

/-- With the flag set, the opcode asks the checker. -/
theorem execute_require_coinstake (hf : ctx.flags.has SCRIPT_REQUIRE_COINSTAKE = true)
    (h : executeOp ctx OP_REQUIRE_COINSTAKE [] rest ch ⟨stack, alt, ⟨statuses, false⟩, n⟩
      = .ok result) :
    ctx.checker.checkCoinstake = true ∧ result = (⟨stack, alt, ⟨statuses, false⟩, n⟩, ch) := by
  have hexec : executeOp ctx OP_REQUIRE_COINSTAKE [] rest ch ⟨stack, alt, ⟨statuses, false⟩, n⟩
      = (coinstakeCheckOp ctx ⟨stack, alt, ⟨statuses, false⟩, n⟩).map fun st => (st, ch) := by
    show (applyOpcode ctx OP_REQUIRE_COINSTAKE _).map _ = _
    rw [applyOpcode, if_pos ⟨rfl, hf⟩]
  rw [hexec] at h
  obtain ⟨st, hst, hres⟩ := map_eq_ok.mp h
  revert hst
  fun_cases coinstakeCheckOp with
  | case1 hcs =>
    rintro ⟨⟩
    exact ⟨hcs, hres.symm⟩
  | case2 => nofun

theorem execute_require_coinstake_skipped :
    executeOp ctx OP_REQUIRE_COINSTAKE [] rest ch ⟨stack, alt, ⟨statuses, true⟩, n⟩
      = .ok (⟨stack, alt, ⟨statuses, true⟩, n⟩, ch) := rfl

theorem execute_hash160 {x : valtype} : executeOp ctx OP_HASH160 [] rest ch ⟨x :: stack, alt, {}, n⟩
      = .ok (⟨ctx.hashes.hash160 x :: stack, alt, {}, n⟩, ch) := rfl

theorem execute_equalverify {x y : valtype}
    (h : executeOp ctx OP_EQUALVERIFY [] rest ch ⟨y :: x :: stack, alt, {}, n⟩ = .ok result) :
    x = y ∧ result = (⟨stack, alt, {}, n⟩, ch) := by
  have hexec : executeOp ctx OP_EQUALVERIFY [] rest ch ⟨y :: x :: stack, alt, {}, n⟩
      = ((if x = y then .ok stack else .error .SCRIPT_ERR_EQUALVERIFY :
          Except ScriptError StackType).map fun stack =>
            (⟨stack, alt, {}, n⟩ : StackOperationManager)).map fun st => (st, ch) := rfl
  rw [hexec] at h
  by_cases hxy : x = y
  · rw [if_pos hxy] at h
    cases h
    exact ⟨hxy, rfl⟩
  · rw [if_neg hxy] at h
    cases h

/-- A signature check that does not fail leaves the checker's answer in place of its arguments. -/
theorem execute_checksig
    (h : executeOp ctx OP_CHECKSIG [] rest ch ⟨stack, alt, {}, n⟩ = .ok result) :
    ∃ key sig tail, stack = key :: sig :: tail ∧
      result = (⟨boolVch (ctx.checker.checkSig sig key (dropSignature ch sig)) :: tail, alt, {}, n⟩,
          ch) := by
  obtain ⟨st, hst, hres⟩ := map_eq_ok.mp h
  obtain ⟨stack', hsta', hst'⟩ := map_eq_ok.mp hst
  match stack with
  | [] => cases hsta'
  | [x] => cases hsta'
  | key :: sig :: tail =>
    obtain ⟨-, -, h⟩ := bind_eq_ok.mp hsta'
    obtain ⟨-, -, h⟩ := bind_eq_ok.mp h
    cases h
    refine ⟨key, sig, tail, rfl, ?_⟩
    rw [← hres, ← hst']

end

/-! ### The whole vault -/

section

variable {o v : valtype}

/--
Behind the conditional one of the two hashes is on the stack: the owner's if the top
element was true, and the manager's if it was false and the checker sees a coinstake.
-/
theorem vault_conditional (ho : o.length = 20) (hv : v.length = 20)
    (hf : ctx.flags.has SCRIPT_REQUIRE_COINSTAKE = true)
    (h : evalLoop ctx 50 (createStakingVaultScript o v) ch { stack := stack } = .ok final) :
    ∃ c tail hash n, stack = c :: tail ∧
      evalLoop ctx 44 vaultTail ch ⟨hash :: tail, [], {}, n⟩ = .ok final ∧
      (castToBool c = true ∧ hash = o ∨
        castToBool c = false ∧ hash = v ∧ ctx.checker.checkCoinstake = true) := by
  rw [createStakingVaultScript_eq ho hv] at h
  obtain ⟨n, result, hif, h⟩ := evalLoop_ok (getOp_op (by decide) _) h
  obtain ⟨c, tail, rfl⟩ : ∃ c tail, stack = c :: tail := by
    cases stack with
    | nil => cases hif
    | cons c tail => exact ⟨c, tail, rfl⟩
  cases hif
  refine ⟨c, tail, if castToBool c then o else v, ?_⟩
  obtain ⟨n, result, hpush, h⟩ := evalLoop_ok (getOp_push20 ho (by simp [hv, vaultTail])) h
  cases hc : castToBool c with
  | true =>
    rw [hc] at hpush
    obtain rfl := execute_push20 hpush
    obtain ⟨n, result, helse, h⟩ := evalLoop_ok (getOp_op (by decide) _) h
    cases helse
    obtain ⟨n, result, hreq, h⟩ := evalLoop_ok (getOp_op (by decide) _) h
    cases hreq
    obtain ⟨n, result, hpush, h⟩ := evalLoop_ok (getOp_push20 hv (by decide)) h
    cases hpush
    obtain ⟨n, result, hend, h⟩ := evalLoop_ok (getOp_op (by decide) _) h
    cases hend
    exact ⟨n, rfl, h, .inl ⟨rfl, rfl⟩⟩
  | false =>
    rw [hc] at hpush
    cases hpush
    obtain ⟨n, result, helse, h⟩ := evalLoop_ok (getOp_op (by decide) _) h
    cases helse
    obtain ⟨n, result, hreq, h⟩ := evalLoop_ok (getOp_op (by decide) _) h
    obtain ⟨hcs, rfl⟩ := execute_require_coinstake hf hreq
    obtain ⟨n, result, hpush, h⟩ := evalLoop_ok (getOp_push20 hv (by decide)) h
    obtain rfl := execute_push20 hpush
    obtain ⟨n, result, hend, h⟩ := evalLoop_ok (getOp_op (by decide) _) h
    cases hend
    exact ⟨n, rfl, h, .inr ⟨rfl, rfl, hcs⟩⟩

/-- The tail of the vault checks a key against the hash and a signature against the key. -/
theorem vault_tail {hash : valtype} {n : Nat}
    (h : evalLoop ctx 44 vaultTail ch ⟨hash :: stack, [], {}, n⟩ = .ok final) :
    ∃ key sig rest, stack = key :: sig :: rest ∧ ctx.hashes.hash160 key = hash ∧
      final.stack = boolVch (ctx.checker.checkSig sig key (dropSignature ch sig)) :: rest := by
  obtain ⟨n, result, hover, h⟩ := evalLoop_ok (getOp_op (by decide) _) h
  obtain ⟨key, tail, rfl⟩ : ∃ key tail, stack = key :: tail := by
    cases stack with
    | nil => cases hover
    | cons key tail => exact ⟨key, tail, rfl⟩
  cases hover
  obtain ⟨n, result, hh, h⟩ := evalLoop_ok (getOp_op (by decide) _) h
  cases hh
  obtain ⟨n, result, heq, h⟩ := evalLoop_ok (getOp_op (by decide) _) h
  obtain ⟨hkey, rfl⟩ := execute_equalverify heq
  obtain ⟨n, result, hsig, h⟩ := evalLoop_ok (getOp_op (by decide) _) h
  obtain ⟨key', sig, rest, hs, rfl⟩ := execute_checksig hsig
  obtain ⟨rfl, rfl⟩ := List.cons.inj hs
  cases h
  exact ⟨key, sig, rest, rfl, hkey.symm, rfl⟩

theorem evalScript_ok {script : CScript} (h : evalScript ctx stack script = .ok after) :
    ∃ final, evalLoop ctx script.length script script { stack := stack } = .ok final ∧
      after = final.stack := by
  unfold evalScript at h
  obtain ⟨-, h⟩ := guard_eq_ok.mp h
  obtain ⟨final, hloop, h⟩ := bind_eq_ok.mp h
  refine ⟨final, hloop, ?_⟩
  split at h
  · exact (Except.ok.inj h).symm
  · cases h

theorem checkTop_ok {top : valtype} (h : checkTop (top :: stack) = .ok ()) :
    castToBool top = true := by
  by_contra hf
  simp only [checkTop, hf] at h
  cases h

theorem castToBool_boolVch (b : Bool) : castToBool (boolVch b) = b := by
  cases b with
  | false => rfl
  | true => rfl

/-- What the vault script asks of the stack it starts on. -/
theorem evalScript_vault (ho : o.length = 20) (hv : v.length = 20)
    (hfl : ctx.flags.has SCRIPT_REQUIRE_COINSTAKE = true)
    (h : evalScript ctx stack (createStakingVaultScript o v) = .ok after)
    (htop : checkTop after = .ok ()) :
    ∃ c p s rest, stack = c :: p :: s :: rest ∧
      ctx.checker.checkSig s p (dropSignature (createStakingVaultScript o v) s) = true ∧
      (castToBool c = true ∧ ctx.hashes.hash160 p = o ∨
        castToBool c = false ∧ ctx.hashes.hash160 p = v ∧ ctx.checker.checkCoinstake = true) := by
  have hlen : (createStakingVaultScript o v).length = 50 := by
    rw [createStakingVaultScript_eq ho hv]
    simp [ho, hv, vaultTail]
  obtain ⟨final, hloop, rfl⟩ := evalScript_ok h
  rw [hlen] at hloop
  obtain ⟨c, tail, hash, n, rfl, htail, hb⟩ := vault_conditional ho hv hfl hloop
  obtain ⟨p, s, rest, rfl, hh, hf⟩ := vault_tail htail
  rw [hf] at htop
  refine ⟨c, p, s, rest, rfl, ?_, ?_⟩
  · rw [← castToBool_boolVch (ctx.checker.checkSig s p _)]
    exact checkTop_ok htop
  · rw [hh]
    exact hb

end

/--
**A vault is spent by its owner's key, or by its manager's in a coinstake.**

Whatever program `scriptSig` is, if it unlocks the vault then the stack it leaves
starts with the selector `c`, a key `p` and a signature `s` that the checker accepts
for `p` on the vault script without its pushes of `s`.  The key hashes to the owner's
hash, or else to the manager's in a transaction the checker takes for a coinstake.
-/
theorem vault_spend_authorized (ctx : ScriptContext) (o v : valtype) (scriptSig : CScript)
    (ho : o.length = 20) (hv : v.length = 20)
    (hflag : ctx.flags.has SCRIPT_REQUIRE_COINSTAKE = true)
    (h : verifyScript ctx scriptSig (createStakingVaultScript o v) = .ok ()) :
    ∃ c p s rest, evalScript ctx [] scriptSig = .ok (c :: p :: s :: rest) ∧
      ctx.checker.checkSig s p (dropSignature (createStakingVaultScript o v) s) = true ∧
      (ctx.hashes.hash160 p = o ∨
        ctx.hashes.hash160 p = v ∧ ctx.checker.checkCoinstake = true) ∧
      (ctx.checker.checkCoinstake = false → ctx.hashes.hash160 p = o) := by
  unfold verifyScript at h
  obtain ⟨-, h⟩ := guard_eq_ok.mp h
  obtain ⟨stack, hsig, h⟩ := bind_eq_ok.mp h
  obtain ⟨after, hva, h⟩ := bind_eq_ok.mp h
  obtain ⟨_, htop, -⟩ := bind_eq_ok.mp h
  obtain ⟨c, p, s, rest, rfl, hchk, hb⟩ := evalScript_vault ho hv hflag hva htop
  have hkey : ctx.hashes.hash160 p = o ∨
      ctx.hashes.hash160 p = v ∧ ctx.checker.checkCoinstake = true := by
    rcases hb with ⟨-, how⟩ | ⟨-, hmgr⟩
    · exact .inl how
    · exact .inr hmgr
  refine ⟨c, p, s, rest, hsig, hchk, hkey, ?_⟩
  intro hno
  rcases hkey with how | ⟨-, hyes⟩
  · exact how
  · rw [hno] at hyes
    cases hyes

/-! ### A manager's coinstake -/

/-- Bytes padded with zeros or cut off, as a stand-in for a hash function. -/
def padTo (size : Nat) (v : valtype) : valtype :=
  (v ++ List.replicate size 0).take size

theorem padTo_length (size : Nat) (v : valtype) : (padTo size v).length = size := by
  simp [padTo]

def paddingHashes : ScriptHashes where
  ripemd160 := padTo 20
  sha1 := padTo 20
  sha256 := padTo 32
  hash160 := padTo 20
  hash256 := padTo 32
  ripemd160_length := padTo_length 20
  sha1_length := padTo_length 20
  sha256_length := padTo_length 32
  hash160_length := padTo_length 20
  hash256_length := padTo_length 32

/-- A coinstake signed with the one-byte key 2. -/
def managerContext : ScriptContext where
  hashes := paddingHashes
  flags := SCRIPT_REQUIRE_COINSTAKE
  checker := { checkSig := fun _ key _ => key == [2], checkCoinstake := true }

/-- Pushes a signature, the key and the empty selector. -/
def managerScriptSig : CScript := [1, 0x30, 1, 2, OP_0]

theorem vault_spend_authorized_manager :
    verifyScript managerContext managerScriptSig
      (createStakingVaultScript (padTo 20 [1]) (padTo 20 [2])) = .ok () ∧
    ∃ c p s rest, evalScript managerContext [] managerScriptSig = .ok (c :: p :: s :: rest) ∧
      (padTo 20 p = padTo 20 [1] ∨
        padTo 20 p = padTo 20 [2] ∧ managerContext.checker.checkCoinstake = true) := by
  have hv : verifyScript managerContext managerScriptSig
      (createStakingVaultScript (padTo 20 [1]) (padTo 20 [2])) = .ok () := rfl
  obtain ⟨c, p, s, rest, hsig, -, hkey, -⟩ := vault_spend_authorized managerContext (padTo 20 [1])
    (padTo 20 [2]) managerScriptSig (padTo_length 20 [1]) (padTo_length 20 [2]) rfl hv
  exact ⟨hv, c, p, s, rest, hsig, hkey⟩

end Divi
