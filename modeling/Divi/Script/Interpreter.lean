/-
`EvalScript` and `VerifyScript`.

The program counter is the rest of the script.  Every instruction takes at least one
byte of it, so the length of the script is enough fuel for the loop.

The operators are those of `StackManager`.  What remains is what the loop does around
them: the limits on sizes and counts, the branches that are not taken, the pushes, and the
part of the script that signatures cover.  `verifyScript` runs the unlocking script, then
the locking script on the stack it leaves, and for a script hash the script that is on top.
-/
import Divi.Script.StackManager

namespace Divi

/-- A push uses the shortest opcode for its data. -/
def checkMinimalPush (data : valtype) (opcode : opcodetype) : Bool :=
  match data with
  | [] => opcode = OP_0
  | [b] =>
    if 1 ≤ b ∧ b ≤ 16 then opcode = OP_1 + (b - 1)
    else if b = 0x81 then opcode = OP_1NEGATE
    else opcode = 1
  | _ =>
    if data.length ≤ 75 then opcode.toNat = data.length
    else if data.length ≤ 255 then opcode = OP_PUSHDATA1
    else if data.length ≤ 65535 then opcode = OP_PUSHDATA2
    else true

/-- `ReserveAdditionalOp`, for the opcodes that count towards the limit. -/
def reserveAdditionalOp (opcode : opcodetype) (st : StackOperationManager) : OpResult :=
  if opcode > OP_16 then
    if st.opCount + 1 ≤ MAXIMUM_NUMBER_OF_OPCODES then .ok { st with opCount := st.opCount + 1 }
    else .error .SCRIPT_ERR_OP_COUNT
  else
    .ok st

variable (ctx : ScriptContext)

/--
Executes one instruction.  `rest` is the script behind it and `codehash` the script
from the last `OP_CODESEPARATOR` on, which is returned with the new state.
-/
def executeOp (opcode : opcodetype) (vchPushValue : valtype)
    (rest codehash : CScript) (st : StackOperationManager) :
    Except ScriptError (StackOperationManager × CScript) :=
  if !st.conditionalManager.conditionalScopeNeedsClosing && opcode ≤ OP_PUSHDATA4 then
    if ctx.fRequireMinimal && !checkMinimalPush vchPushValue opcode then
      .error .SCRIPT_ERR_MINIMALDATA
    else
      .ok ({ st with stack := vchPushValue :: st.stack }, codehash)
  else if !st.conditionalManager.conditionalScopeNeedsClosing ||
      (OP_IF ≤ opcode && opcode ≤ OP_ENDIF) then
    match opcode with
    | OP_NOP => .ok (st, codehash)
    | OP_CODESEPARATOR => .ok (st, rest)
    | OP_CHECKSIG | OP_CHECKSIGVERIFY | OP_CHECKMULTISIG | OP_CHECKMULTISIGVERIFY =>
      (applySignatureOpcode ctx opcode codehash st).map fun st => (st, codehash)
    | _ => (applyOpcode ctx opcode st).map fun st => (st, codehash)
  else
    .ok (st, codehash)

/-- One round of the loop of `EvalScript`: the limits around an instruction. -/
def stepOp (opcode : opcodetype) (vchPushValue : valtype)
    (rest codehash : CScript) (st : StackOperationManager) :
    Except ScriptError (StackOperationManager × CScript) :=
  if vchPushValue.length > MAX_SCRIPT_ELEMENT_SIZE then
    .error .SCRIPT_ERR_PUSH_SIZE
  else do
    let st ← reserveAdditionalOp opcode st
    if opcodeIsDisabled opcode then
      .error .SCRIPT_ERR_DISABLED_OPCODE
    else do
      let result ← executeOp ctx opcode vchPushValue rest codehash st
      if result.1.stack.length + result.1.altstack.length > 1000 then
        .error .SCRIPT_ERR_STACK_SIZE
      else
        .ok result

/-- The loop over the instructions, with the script from the last `OP_CODESEPARATOR` on. -/
def evalLoop (ctx : ScriptContext) :
    Nat → CScript → CScript → StackOperationManager → OpResult
  | 0, _, _, st => .ok st
  | fuel + 1, pc, codehash, st =>
    if pc.isEmpty then
      .ok st
    else
      match pc.getOp with
      | none => .error .SCRIPT_ERR_BAD_OPCODE
      | some (opcode, vchPushValue, rest) => do
        let result ← stepOp ctx opcode vchPushValue rest codehash st
        evalLoop ctx fuel rest result.2 result.1

/-- `EvalScript`: the stack a script leaves, with all its scopes closed. -/
def evalScript (stack : StackType) (script : CScript) :
    Except ScriptError StackType :=
  if script.length > 10000 then
    .error .SCRIPT_ERR_SCRIPT_SIZE
  else do
    let st ← evalLoop ctx script.length script script { stack := stack }
    if st.conditionalManager.conditionalScopeReadStatusStack.isEmpty then
      .ok st.stack
    else
      .error .SCRIPT_ERR_UNBALANCED_CONDITIONAL

/-- The stack a script leaves counts as success if its top is true. -/
def checkTop (stack : StackType) : Except ScriptError Unit :=
  match stack with
  | [] => .error .SCRIPT_ERR_EVAL_FALSE
  | top :: _ => if castToBool top then .ok () else .error .SCRIPT_ERR_EVAL_FALSE

/-- The script a pay-to-script-hash output stands for, run on the rest of the stack. -/
def verifyScriptHash (scriptSig : CScript) (stackCopy : StackType) :
    Except ScriptError Unit :=
  if !scriptSig.isPushOnly then
    .error .SCRIPT_ERR_SIG_PUSHONLY
  else
    match stackCopy with
    | [] => .error .SCRIPT_ERR_UNKNOWN_ERROR  -- asserted not to happen
    | pubKey2 :: stackCopy => do
      let stackCopy ← evalScript ctx stackCopy pubKey2
      checkTop stackCopy

/-- `VerifyScript`: the unlocking script runs first, the locking script on its stack, and then the
script that a script hash stands for. -/
def verifyScript (scriptSig scriptPubKey : CScript) :
    Except ScriptError Unit :=
  if ctx.flags.has SCRIPT_VERIFY_SIGPUSHONLY && !scriptSig.isPushOnly then
    .error .SCRIPT_ERR_SIG_PUSHONLY
  else do
    let stackCopy ← evalScript ctx [] scriptSig
    let stack ← evalScript ctx stackCopy scriptPubKey
    checkTop stack
    if ctx.flags.has SCRIPT_VERIFY_P2SH && scriptPubKey.isPayToScriptHash then
      verifyScriptHash ctx scriptSig stackCopy
    else
      .ok ()

end Divi
