/-
Signature checkers, and the encoding rules a signature and a key have to follow.

A checker is what `CHECKSIG` and `REQUIRE_COINSTAKE` ask.  The encoding rules depend
on the verification flags alone.
-/
import Divi.Script.Script

namespace Divi

/-! ### Errors and flags -/

/-- How a script fails. -/
inductive ScriptError
  | SCRIPT_ERR_UNKNOWN_ERROR
  | SCRIPT_ERR_EVAL_FALSE
  | SCRIPT_ERR_OP_META
  | SCRIPT_ERR_SCRIPT_SIZE
  | SCRIPT_ERR_PUSH_SIZE
  | SCRIPT_ERR_OP_COUNT
  | SCRIPT_ERR_STACK_SIZE
  | SCRIPT_ERR_SIG_COUNT
  | SCRIPT_ERR_PUBKEY_COUNT
  | SCRIPT_ERR_VERIFY
  | SCRIPT_ERR_EQUALVERIFY
  | SCRIPT_ERR_CHECKMULTISIGVERIFY
  | SCRIPT_ERR_CHECKSIGVERIFY
  | SCRIPT_ERR_NUMEQUALVERIFY
  | SCRIPT_ERR_BAD_OPCODE
  | SCRIPT_ERR_DISABLED_OPCODE
  | SCRIPT_ERR_INVALID_STACK_OPERATION
  | SCRIPT_ERR_INVALID_ALTSTACK_OPERATION
  | SCRIPT_ERR_UNBALANCED_CONDITIONAL
  | SCRIPT_ERR_SIG_HASHTYPE
  | SCRIPT_ERR_SIG_DER
  | SCRIPT_ERR_MINIMALDATA
  | SCRIPT_ERR_SIG_PUSHONLY
  | SCRIPT_ERR_SIG_HIGH_S
  | SCRIPT_ERR_SIG_NULLDUMMY
  | SCRIPT_ERR_PUBKEYTYPE
  | SCRIPT_ERR_DISCOURAGE_UPGRADABLE_NOPS
  deriving DecidableEq, Repr

/-- A set of verification flags, `unsigned int` in the source. -/
abbrev ScriptFlags := BitVec 32

/-- The flags. -/
def SCRIPT_VERIFY_P2SH : ScriptFlags := 1 <<< 0

def SCRIPT_VERIFY_STRICTENC : ScriptFlags := 1 <<< 1

def SCRIPT_VERIFY_DERSIG : ScriptFlags := 1 <<< 2

def SCRIPT_VERIFY_LOW_S : ScriptFlags := 1 <<< 3

def SCRIPT_VERIFY_NULLDUMMY : ScriptFlags := 1 <<< 4

def SCRIPT_VERIFY_SIGPUSHONLY : ScriptFlags := 1 <<< 5

def SCRIPT_VERIFY_MINIMALDATA : ScriptFlags := 1 <<< 6

def SCRIPT_VERIFY_DISCOURAGE_UPGRADABLE_NOPS : ScriptFlags := 1 <<< 7

def SCRIPT_REQUIRE_COINSTAKE : ScriptFlags := 1 <<< 8

/-- `flags & flag` as a condition. -/
def ScriptFlags.has (flags flag : ScriptFlags) : Bool :=
  flags &&& flag != 0

/-! ### Checkers -/

/-- The checks that depend on the transaction. -/
structure BaseSignatureChecker where
  checkSig : (scriptSig vchPubKey : valtype) → (scriptCode : CScript) → Bool
  checkCoinstake : Bool

/-! ### Encodings -/

/-- The byte at a position inside the vector. -/
def byteAt (v : valtype) (i : Nat) : UInt8 :=
  v.getD i 0

/-- A key by its length and first byte. -/
def isCompressedOrUncompressedPubKey (vchPubKey : valtype) : Bool :=
  if vchPubKey.length < 33 then
    false
  else if byteAt vchPubKey 0 = 0x04 then
    vchPubKey.length == 65
  else if byteAt vchPubKey 0 = 0x02 ∨ byteAt vchPubKey 0 = 0x03 then
    vchPubKey.length == 33
  else
    false

/--
The bytes of an integer of a DER signature, `len` bytes from `start` on: not empty,
not negative, and not padded unless it would read as negative.
-/
def isValidDERInteger (sig : valtype) (start len : Nat) : Bool :=
  byteAt sig (start - 2) == 0x02 && len != 0 && byteAt sig start &&& 0x80 == 0 &&
    !(len > 1 && byteAt sig start == 0x00 && byteAt sig (start + 1) &&& 0x80 == 0)

/-- A signature in strict DER with a hash type. -/
def isValidSignatureEncoding (sig : valtype) : Bool :=
  let lenR := (byteAt sig 3).toNat
  let lenS := (byteAt sig (5 + lenR)).toNat
  9 ≤ sig.length && sig.length ≤ 73 &&
    byteAt sig 0 == 0x30 && (byteAt sig 1).toNat == sig.length - 3 &&
    5 + lenR < sig.length && lenR + lenS + 7 == sig.length &&
    isValidDERInteger sig 4 lenR && isValidDERInteger sig (lenR + 6) lenS

/-- Half of the order of the curve's generator, minus one. -/
def maxModHalfOrder : Nat :=
  0x7FFFFFFFFFFFFFFFFFFFFFFFFFFFFFFF5D576E7357A4501DDFE92F46681B20A0

/-- Big-endian value of the bytes. -/
def beValue (bytes : List UInt8) : Nat :=
  bytes.foldl (fun value b => value * 256 + b.toNat) 0

/-- The second number is in the lower half. -/
def checkLowDERSignature (vchSig : valtype) : Except ScriptError Unit :=
  if !isValidSignatureEncoding vchSig then
    .error .SCRIPT_ERR_SIG_DER
  else
    let nLenR := (byteAt vchSig 3).toNat
    let nLenS := (byteAt vchSig (5 + nLenR)).toNat
    let S := beValue ((vchSig.drop (6 + nLenR)).take nLenS)
    if 0 < S ∧ S ≤ maxModHalfOrder then .ok () else .error .SCRIPT_ERR_SIG_HIGH_S

/-- The hash type is one of the three. -/
def isDefinedHashtypeSignature (vchSig : valtype) : Bool :=
  match vchSig.getLast? with
  | none => false
  | some back =>
    let nHashType := back &&& ~~~0x80
    1 ≤ nHashType && nHashType ≤ 3

/-- What the flags ask of a signature. -/
def checkSignatureEncoding (vchSig : valtype) (flags : ScriptFlags) : Except ScriptError Unit :=
  if vchSig.isEmpty then
    .ok ()
  else if flags.has (SCRIPT_VERIFY_DERSIG ||| SCRIPT_VERIFY_LOW_S ||| SCRIPT_VERIFY_STRICTENC) &&
      !isValidSignatureEncoding vchSig then
    .error .SCRIPT_ERR_SIG_DER
  else do
    if flags.has SCRIPT_VERIFY_LOW_S then checkLowDERSignature vchSig else .ok ()
    if flags.has SCRIPT_VERIFY_STRICTENC && !isDefinedHashtypeSignature vchSig then
      .error .SCRIPT_ERR_SIG_HASHTYPE
    else
      .ok ()

/-- What the flags ask of a key. -/
def checkPubKeyEncoding (vchPubKey : valtype) (flags : ScriptFlags) : Except ScriptError Unit :=
  if flags.has SCRIPT_VERIFY_STRICTENC && !isCompressedOrUncompressedPubKey vchPubKey then
    .error .SCRIPT_ERR_PUBKEYTYPE
  else
    .ok ()

end Divi
