/-
The operators of the script interpreter.

A stack is a list with its top first, so `stackTop(i)` of the source is the element
at position `i`.  An operator returns the new state or the error it sets; an exception
thrown while reading a number is caught by the interpreter and becomes
`SCRIPT_ERR_UNKNOWN_ERROR`.

The source keeps a set of opcodes for each kind of operator and tries the sets in turn; the
lists of opcodes below are these sets.
-/
import Divi.Script.SignatureCheckers

namespace Divi

/-- A stack, its top first. -/
abbrev StackType := List valtype

def MAXIMUM_NUMBER_OF_OPCODES : Nat := 201

/-- The hash functions scripts can apply, with the sizes of their results. -/
structure ScriptHashes where
  ripemd160 : valtype → valtype
  sha1 : valtype → valtype
  sha256 : valtype → valtype
  hash160 : valtype → valtype
  hash256 : valtype → valtype
  ripemd160_length : ∀ v, (ripemd160 v).length = 20
  sha1_length : ∀ v, (sha1 v).length = 20
  sha256_length : ∀ v, (sha256 v).length = 32
  hash160_length : ∀ v, (hash160 v).length = 20
  hash256_length : ∀ v, (hash256 v).length = 32

/-- What does not change while a script runs. -/
structure ScriptContext where
  hashes : ScriptHashes
  flags : ScriptFlags
  checker : BaseSignatureChecker

/-- Numbers have to be minimal. -/
def ScriptContext.fRequireMinimal (ctx : ScriptContext) : Bool :=
  ctx.flags.has SCRIPT_VERIFY_MINIMALDATA

/-- True unless all bytes are zero, with negative zero counting as zero. -/
def castToBool : valtype → Bool
  | [] => false
  | [b] => b ≠ 0 && b ≠ 0x80
  | b :: rest => b ≠ 0 || castToBool rest

def vchFalse : valtype := []

def vchTrue : valtype := [1]

/-- A truth value on the stack. -/
def boolVch (b : Bool) : valtype :=
  if b then vchTrue else vchFalse

/-! ### Conditional scopes -/

/-- The open branches, and whether one of them is not taken. -/
structure ConditionalScopeStackManager where
  /-- Innermost scope first. -/
  conditionalScopeReadStatusStack : List Bool := []
  conditionalScopeNeedsClosing : Bool := false
  deriving DecidableEq, Repr

namespace ConditionalScopeStackManager

variable (mgr : ConditionalScopeStackManager)

/-- A branch that is not taken has to be closed. -/
def checkConditionalScopeStatus (statuses : List Bool) : ConditionalScopeStackManager where
  conditionalScopeReadStatusStack := statuses
  conditionalScopeNeedsClosing := statuses.count false != 0

/-- Opens a branch. -/
def openScope (conditionStatus : Bool) : ConditionalScopeStackManager where
  conditionalScopeReadStatusStack := conditionStatus :: mgr.conditionalScopeReadStatusStack
  conditionalScopeNeedsClosing := mgr.conditionalScopeNeedsClosing || !conditionStatus

/-- Changes to the other branch. -/
def tryElse : Option ConditionalScopeStackManager :=
  match mgr.conditionalScopeReadStatusStack with
  | [] => none
  | status :: rest => some (checkConditionalScopeStatus ((!status) :: rest))

/-- Closes a branch. -/
def tryCloseScope : Option ConditionalScopeStackManager :=
  match mgr.conditionalScopeReadStatusStack with
  | [] => none
  | _ :: rest => some (checkConditionalScopeStatus rest)

end ConditionalScopeStackManager

/-! ### State -/

/-- The state of a run. -/
structure StackOperationManager where
  stack : StackType
  altstack : StackType := []
  conditionalManager : ConditionalScopeStackManager := {}
  opCount : Nat := 0
  deriving DecidableEq, Repr

/-- What an operation leaves, or its error. -/
abbrev OpResult := Except ScriptError StackOperationManager

/-- An error of a pure stack operation, or the state with its result. -/
def StackOperationManager.withStack (st : StackOperationManager)
    (res : Except ScriptError StackType) : OpResult :=
  res.map fun stack => { st with stack := stack }

variable (ctx : ScriptContext)

/-- `CScriptNum(vch, fRequireMinimal)`, whose exception ends the script. -/
def ScriptContext.number (vch : valtype) : Except ScriptError Int :=
  match CScriptNum.ofVch vch ctx.fRequireMinimal with
  | some n => .ok n
  | none => .error .SCRIPT_ERR_UNKNOWN_ERROR

/-! ### Operators on the stack -/

/-- Does nothing, or is discouraged. -/
def disabledOp (st : StackOperationManager) : OpResult :=
  if ctx.flags.has SCRIPT_VERIFY_DISCOURAGE_UPGRADABLE_NOPS then
    .error .SCRIPT_ERR_DISCOURAGE_UPGRADABLE_NOPS
  else
    .ok st

/-- Pushes a small number. -/
def pushValueOp (opcode : opcodetype) (stack : StackType) : StackType :=
  CScriptNum.serialize ((opcode.toNat : Int) - (OP_1.toNat - 1)) :: stack

/-- `OP_IF` to `OP_ENDIF`. -/
def conditionalOp (opcode : opcodetype) (st : StackOperationManager) : OpResult :=
  match opcode with
  | OP_IF | OP_NOTIF =>
    if st.conditionalManager.conditionalScopeNeedsClosing then
      .ok { st with conditionalManager := st.conditionalManager.openScope false }
    else
      match st.stack with
      | [] => .error .SCRIPT_ERR_UNBALANCED_CONDITIONAL
      | vch :: rest =>
        let fValue := if opcode = OP_NOTIF then !castToBool vch else castToBool vch
        .ok { st with
          stack := rest
          conditionalManager := st.conditionalManager.openScope fValue }
  | OP_ELSE =>
    match st.conditionalManager.tryElse with
    | none => .error .SCRIPT_ERR_UNBALANCED_CONDITIONAL
    | some mgr => .ok { st with conditionalManager := mgr }
  | OP_ENDIF =>
    match st.conditionalManager.tryCloseScope with
    | none => .error .SCRIPT_ERR_UNBALANCED_CONDITIONAL
    | some mgr => .ok { st with conditionalManager := mgr }
  | _ => .ok st

/-- `PICK` and `ROLL`: the element at a depth read from the stack, copied or moved. -/
def pickOrRoll (roll : Bool) (stack : StackType) :
    Except ScriptError StackType :=
  match stack with
  | top :: next :: rest => do
    let n := CScriptNum.getint (← ctx.number top)
    let stack := next :: rest
    if n < 0 ∨ n ≥ stack.length then
      .error .SCRIPT_ERR_INVALID_STACK_OPERATION
    else
      let vch := stack.getD n.toNat []
      .ok (vch :: if roll then stack.eraseIdx n.toNat else stack)
  | _ => .error .SCRIPT_ERR_INVALID_STACK_OPERATION

/-- Moves elements. -/
def stackModificationOp (opcode : opcodetype) (st : StackOperationManager) :
    OpResult :=
  match opcode, st.stack with
  | OP_TOALTSTACK, x :: rest => .ok { st with stack := rest, altstack := x :: st.altstack }
  | OP_FROMALTSTACK, stack =>
    match st.altstack with
    | [] => .error .SCRIPT_ERR_INVALID_ALTSTACK_OPERATION
    | x :: rest => .ok { st with stack := x :: stack, altstack := rest }
  | OP_2DROP, _ :: _ :: rest => .ok { st with stack := rest }
  | OP_2DUP, x2 :: x1 :: rest => .ok { st with stack := x2 :: x1 :: x2 :: x1 :: rest }
  | OP_3DUP, x3 :: x2 :: x1 :: rest =>
    .ok { st with stack := x3 :: x2 :: x1 :: x3 :: x2 :: x1 :: rest }
  | OP_2OVER, x4 :: x3 :: x2 :: x1 :: rest =>
    .ok { st with stack := x2 :: x1 :: x4 :: x3 :: x2 :: x1 :: rest }
  | OP_2ROT, x6 :: x5 :: x4 :: x3 :: x2 :: x1 :: rest =>
    .ok { st with stack := x2 :: x1 :: x6 :: x5 :: x4 :: x3 :: rest }
  | OP_2SWAP, x4 :: x3 :: x2 :: x1 :: rest =>
    .ok { st with stack := x2 :: x1 :: x4 :: x3 :: rest }
  | OP_IFDUP, x :: rest =>
    .ok { st with stack := if castToBool x then x :: x :: rest else x :: rest }
  | OP_DEPTH, stack => .ok { st with stack := CScriptNum.serialize stack.length :: stack }
  | OP_DROP, _ :: rest => .ok { st with stack := rest }
  | OP_DUP, x :: rest => .ok { st with stack := x :: x :: rest }
  | OP_NIP, x2 :: _ :: rest => .ok { st with stack := x2 :: rest }
  | OP_OVER, x2 :: x1 :: rest => .ok { st with stack := x1 :: x2 :: x1 :: rest }
  | OP_PICK, stack => st.withStack (pickOrRoll ctx false stack)
  | OP_ROLL, stack => st.withStack (pickOrRoll ctx true stack)
  | OP_ROT, x3 :: x2 :: x1 :: rest => .ok { st with stack := x1 :: x3 :: x2 :: rest }
  | OP_SWAP, x2 :: x1 :: rest => .ok { st with stack := x1 :: x2 :: rest }
  | OP_TUCK, x2 :: x1 :: rest => .ok { st with stack := x2 :: x1 :: x2 :: rest }
  | OP_SIZE, x :: rest => .ok { st with stack := CScriptNum.serialize x.length :: x :: rest }
  | _, _ => .error .SCRIPT_ERR_INVALID_STACK_OPERATION

/-- Compares and verifies. -/
def equalityVerificationOp (opcode : opcodetype) (stack : StackType) :
    Except ScriptError StackType :=
  match opcode, stack with
  | OP_VERIFY, x :: rest => if castToBool x then .ok rest else .error .SCRIPT_ERR_VERIFY
  | OP_EQUAL, vch2 :: vch1 :: rest => .ok (boolVch (vch1 = vch2) :: rest)
  | OP_EQUALVERIFY, vch2 :: vch1 :: rest =>
    if vch1 = vch2 then .ok rest else .error .SCRIPT_ERR_EQUALVERIFY
  | _, _ => .error .SCRIPT_ERR_INVALID_STACK_OPERATION

/-! ### Numeric operators -/

def boolNum (b : Bool) : Int :=
  if b then 1 else 0

/-- Arithmetic on the top. -/
def unaryNumericOp (opcode : opcodetype) (stack : StackType) :
    Except ScriptError StackType :=
  match stack with
  | [] => .error .SCRIPT_ERR_INVALID_STACK_OPERATION
  | x :: rest => do
    let bn ← ctx.number x
    let bn ← match opcode with
      | OP_1ADD => .ok (bn + 1)
      | OP_1SUB => .ok (bn - 1)
      | OP_NEGATE => .ok (-bn)
      | OP_ABS => .ok (if bn < 0 then -bn else bn)
      | OP_NOT => .ok (boolNum (bn = 0))
      | OP_0NOTEQUAL => .ok (boolNum (bn ≠ 0))
      | _ => .error .SCRIPT_ERR_UNKNOWN_ERROR
    .ok (CScriptNum.serialize bn :: rest)

/-- The result for two numbers. -/
def binaryNumber (opcode : opcodetype) (bn1 bn2 : Int) : Except ScriptError Int :=
  match opcode with
  | OP_ADD => .ok (bn1 + bn2)
  | OP_SUB => .ok (bn1 - bn2)
  | OP_BOOLAND => .ok (boolNum (bn1 ≠ 0 ∧ bn2 ≠ 0))
  | OP_BOOLOR => .ok (boolNum (bn1 ≠ 0 ∨ bn2 ≠ 0))
  | OP_NUMEQUAL => .ok (boolNum (bn1 = bn2))
  | OP_NUMEQUALVERIFY => .ok (boolNum (bn1 = bn2))
  | OP_NUMNOTEQUAL => .ok (boolNum (bn1 ≠ bn2))
  | OP_LESSTHAN => .ok (boolNum (bn1 < bn2))
  | OP_GREATERTHAN => .ok (boolNum (bn1 > bn2))
  | OP_LESSTHANOREQUAL => .ok (boolNum (bn1 ≤ bn2))
  | OP_GREATERTHANOREQUAL => .ok (boolNum (bn1 ≥ bn2))
  | OP_MIN => .ok (if bn1 < bn2 then bn1 else bn2)
  | OP_MAX => .ok (if bn1 > bn2 then bn1 else bn2)
  | _ => .error .SCRIPT_ERR_UNKNOWN_ERROR

/-- Arithmetic on two elements. -/
def binaryNumericOp (opcode : opcodetype) (stack : StackType) :
    Except ScriptError StackType :=
  match stack with
  | x2 :: x1 :: rest => do
    let bn1 ← ctx.number x1
    let bn2 ← ctx.number x2
    let vch := CScriptNum.serialize (← binaryNumber opcode bn1 bn2)
    if opcode = OP_NUMEQUALVERIFY then
      if castToBool vch then .ok rest else .error .SCRIPT_ERR_NUMEQUALVERIFY
    else
      .ok (vch :: rest)
  | _ => .error .SCRIPT_ERR_INVALID_STACK_OPERATION

/-- `OP_WITHIN`. -/
def numericBoundsOp (stack : StackType) : Except ScriptError StackType :=
  match stack with
  | x3 :: x2 :: x1 :: rest => do
    let bn1 ← ctx.number x1
    let bn2 ← ctx.number x2
    let bn3 ← ctx.number x3
    .ok (boolVch (bn2 ≤ bn1 ∧ bn1 < bn3) :: rest)
  | _ => .error .SCRIPT_ERR_INVALID_STACK_OPERATION

/-! ### Hashes and signatures -/

/-- Hashes the top. -/
def hashingOp (opcode : opcodetype) (stack : StackType) :
    Except ScriptError StackType :=
  match stack with
  | [] => .error .SCRIPT_ERR_INVALID_STACK_OPERATION
  | vch :: rest =>
    let vchHash := match opcode with
      | OP_RIPEMD160 => ctx.hashes.ripemd160 vch
      | OP_SHA1 => ctx.hashes.sha1 vch
      | OP_SHA256 => ctx.hashes.sha256 vch
      | OP_HASH160 => ctx.hashes.hash160 vch
      | _ => ctx.hashes.hash256 vch
    .ok (vchHash :: rest)

/-- The script a signature signs: a signature cannot sign itself, so its pushes are dropped. -/
def dropSignature (scriptCode : CScript) (vchSig : valtype) : CScript :=
  scriptCode.findAndDelete (CScript.pushData [] vchSig)

/-- Checks one signature. -/
def checkSigOp (opcode : opcodetype) (scriptCode : CScript)
    (stack : StackType) : Except ScriptError StackType :=
  match stack with
  | vchPubKey :: vchSig :: rest => do
    let scriptCode := dropSignature scriptCode vchSig
    checkSignatureEncoding vchSig ctx.flags
    checkPubKeyEncoding vchPubKey ctx.flags
    let fSuccess := ctx.checker.checkSig vchSig vchPubKey scriptCode
    if opcode = OP_CHECKSIGVERIFY then
      if fSuccess then .ok rest else .error .SCRIPT_ERR_CHECKSIGVERIFY
    else
      .ok (boolVch fSuccess :: rest)
  | _ => .error .SCRIPT_ERR_INVALID_STACK_OPERATION

/--
Matches signatures with keys in order: each key is tried for the signature in front,
and the matching fails once more signatures than keys are left.
-/
def matchSignatures (ctx : ScriptContext) (scriptCode : CScript) :
    List valtype → List valtype → Except ScriptError Bool
  | [], _ => .ok true
  | _ :: _, [] => .ok false
  | vchSig :: sigs, vchPubKey :: keys => do
    checkSignatureEncoding vchSig ctx.flags
    checkPubKeyEncoding vchPubKey ctx.flags
    let sigsLeft := if ctx.checker.checkSig vchSig vchPubKey scriptCode then sigs
      else vchSig :: sigs
    if sigsLeft.length > keys.length then
      .ok false
    else
      matchSignatures ctx scriptCode sigsLeft keys

/-- What is left of `CHECKMULTISIG` once the signatures are matched. -/
def finishMultiSig (opcode : opcodetype) (fSuccess : Bool)
    (stack : StackType) : Except ScriptError StackType :=
  match stack with
  | [] => .error .SCRIPT_ERR_INVALID_STACK_OPERATION
  | dummy :: rest =>
    if ctx.flags.has SCRIPT_VERIFY_NULLDUMMY && !dummy.isEmpty then
      .error .SCRIPT_ERR_SIG_NULLDUMMY
    else if opcode = OP_CHECKMULTISIGVERIFY then
      if fSuccess then .ok rest else .error .SCRIPT_ERR_CHECKMULTISIGVERIFY
    else
      .ok (boolVch fSuccess :: rest)

/-- The signatures of `CHECKMULTISIG`, below their number, for the keys above it. -/
def checkMultiSigs (opcode : opcodetype) (scriptCode : CScript)
    (keys : List valtype) (stack : StackType) : Except ScriptError StackType :=
  match stack with
  | [] => .error .SCRIPT_ERR_INVALID_STACK_OPERATION
  | sigsCount :: afterKeys => do
    let nSigsCount := CScriptNum.getint (← ctx.number sigsCount)
    if nSigsCount < 0 ∨ nSigsCount > keys.length then
      .error .SCRIPT_ERR_SIG_COUNT
    -- one element more than the arguments is asked for, and consumed at the end
    else if afterKeys.length < nSigsCount.toNat + 1 then
      .error .SCRIPT_ERR_INVALID_STACK_OPERATION
    else do
      let sigs := afterKeys.take nSigsCount.toNat
      let fSuccess ← matchSignatures ctx (sigs.foldl dropSignature scriptCode) sigs keys
      finishMultiSig ctx opcode fSuccess (afterKeys.drop nSigsCount.toNat)

/-- Checks signatures against keys, in order. -/
def checkMultiSigOp (opcode : opcodetype) (scriptCode : CScript)
    (st : StackOperationManager) : OpResult :=
  match st.stack with
  | [] => .error .SCRIPT_ERR_INVALID_STACK_OPERATION
  | keysCount :: afterCount => do
    let nKeysCount := CScriptNum.getint (← ctx.number keysCount)
    if nKeysCount < 0 ∨ nKeysCount > 20 then
      .error .SCRIPT_ERR_PUBKEY_COUNT
    else if st.opCount + nKeysCount.toNat > MAXIMUM_NUMBER_OF_OPCODES then
      .error .SCRIPT_ERR_OP_COUNT
    else if afterCount.length < nKeysCount.toNat + 1 then
      .error .SCRIPT_ERR_INVALID_STACK_OPERATION
    else
      StackOperationManager.withStack { st with opCount := st.opCount + nKeysCount.toNat }
        (checkMultiSigs ctx opcode scriptCode (afterCount.take nKeysCount.toNat)
          (afterCount.drop nKeysCount.toNat))

/-- `OP_REQUIRE_COINSTAKE`. -/
def coinstakeCheckOp (st : StackOperationManager) : OpResult :=
  if ctx.checker.checkCoinstake then .ok st else .error .SCRIPT_ERR_VERIFY

/-! ### The operator table -/

/-- The opcodes by the operation that runs them. -/
def upgradableOpCodes : List opcodetype :=
  [OP_NOP1, OP_NOP2, OP_NOP3, OP_NOP4, OP_NOP5, OP_NOP6, OP_NOP7, OP_NOP8, OP_NOP9,
    OP_REQUIRE_COINSTAKE]

def simpleValueOpCodes : List opcodetype :=
  [OP_1NEGATE, OP_1, OP_2, OP_3, OP_4, OP_5, OP_6, OP_7, OP_8, OP_9, OP_10, OP_11, OP_12,
    OP_13, OP_14, OP_15, OP_16]

def conditionalOpCodes : List opcodetype := [OP_IF, OP_NOTIF, OP_ELSE, OP_ENDIF]

def stackModificationOpCodes : List opcodetype :=
  [OP_TOALTSTACK, OP_FROMALTSTACK, OP_2DROP, OP_2DUP, OP_3DUP, OP_2OVER, OP_2ROT, OP_2SWAP,
    OP_IFDUP, OP_DEPTH, OP_DROP, OP_DUP, OP_NIP, OP_OVER, OP_PICK, OP_ROLL, OP_ROT, OP_SWAP,
    OP_TUCK, OP_SIZE]

def equalityAndVerificationOpCodes : List opcodetype := [OP_EQUAL, OP_EQUALVERIFY, OP_VERIFY]

def unaryNumericOpCodes : List opcodetype :=
  [OP_1ADD, OP_1SUB, OP_NEGATE, OP_ABS, OP_NOT, OP_0NOTEQUAL]

def binaryNumericOpCodes : List opcodetype :=
  [OP_ADD, OP_SUB, OP_BOOLAND, OP_BOOLOR, OP_NUMEQUAL, OP_NUMEQUALVERIFY, OP_NUMNOTEQUAL,
    OP_LESSTHAN, OP_GREATERTHAN, OP_LESSTHANOREQUAL, OP_GREATERTHANOREQUAL, OP_MIN, OP_MAX]

def hashingOpCodes : List opcodetype :=
  [OP_RIPEMD160, OP_SHA1, OP_SHA256, OP_HASH160, OP_HASH256]

/-- `ApplyOpcode` of the opcodes that do not look at the script. -/
def applyOpcode (opcode : opcodetype) (st : StackOperationManager) :
    OpResult :=
  if opcode = OP_REQUIRE_COINSTAKE ∧ ctx.flags.has SCRIPT_REQUIRE_COINSTAKE then
    coinstakeCheckOp ctx st
  else if opcode = OP_META then
    .error .SCRIPT_ERR_OP_META
  else if opcode = OP_WITHIN then
    st.withStack (numericBoundsOp ctx st.stack)
  else if opcode ∈ upgradableOpCodes then
    disabledOp ctx st
  else if opcode ∈ simpleValueOpCodes then
    .ok { st with stack := pushValueOp opcode st.stack }
  else if opcode ∈ conditionalOpCodes then
    conditionalOp opcode st
  else if opcode ∈ stackModificationOpCodes then
    stackModificationOp ctx opcode st
  else if opcode ∈ equalityAndVerificationOpCodes then
    st.withStack (equalityVerificationOp opcode st.stack)
  else if opcode ∈ unaryNumericOpCodes then
    st.withStack (unaryNumericOp ctx opcode st.stack)
  else if opcode ∈ binaryNumericOpCodes then
    st.withStack (binaryNumericOp ctx opcode st.stack)
  else if opcode ∈ hashingOpCodes then
    st.withStack (hashingOp ctx opcode st.stack)
  else
    .error .SCRIPT_ERR_BAD_OPCODE

/-- `ApplyOpcode` of the signature opcodes. -/
def applySignatureOpcode (opcode : opcodetype) (scriptCode : CScript)
    (st : StackOperationManager) : OpResult :=
  match opcode with
  | OP_CHECKSIG | OP_CHECKSIGVERIFY => st.withStack (checkSigOp ctx opcode scriptCode st.stack)
  | OP_CHECKMULTISIG | OP_CHECKMULTISIGVERIFY => checkMultiSigOp ctx opcode scriptCode st
  | _ => .error .SCRIPT_ERR_INVALID_STACK_OPERATION

/-- Fails a script even in a branch not taken. -/
def opcodeIsDisabled (opcode : opcodetype) : Bool :=
  opcode ∈ [OP_CAT, OP_SUBSTR, OP_LEFT, OP_RIGHT, OP_INVERT, OP_AND, OP_OR, OP_XOR, OP_2MUL,
    OP_2DIV, OP_MUL, OP_DIV, OP_MOD, OP_LSHIFT, OP_RSHIFT]

end Divi
