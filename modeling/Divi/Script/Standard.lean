/-
Standard scripts: the flags they are verified with, and matching a script against the
templates of the known types.
-/
import Divi.Script.SignatureCheckers
import Divi.Script.StakingVault

namespace Divi

/-- What all blocks must comply with. -/
def MANDATORY_SCRIPT_VERIFY_FLAGS : ScriptFlags :=
  SCRIPT_VERIFY_P2SH ||| SCRIPT_VERIFY_DERSIG ||| SCRIPT_REQUIRE_COINSTAKE

/-- What the signature of a coinstake must comply with. -/
def POS_SCRIPT_VERIFY_FLAGS : ScriptFlags :=
  MANDATORY_SCRIPT_VERIFY_FLAGS ||| SCRIPT_VERIFY_DERSIG ||| SCRIPT_VERIFY_STRICTENC |||
    SCRIPT_VERIFY_MINIMALDATA ||| SCRIPT_VERIFY_NULLDUMMY

/-- What standard transactions comply with. -/
def STANDARD_SCRIPT_VERIFY_FLAGS : ScriptFlags :=
  POS_SCRIPT_VERIFY_FLAGS ||| SCRIPT_VERIFY_DISCOURAGE_UPGRADABLE_NOPS

/-- The kinds of standard scripts. -/
inductive txnouttype
  | TX_NONSTANDARD
  | TX_PUBKEY
  | TX_PUBKEYHASH
  | TX_SCRIPTHASH
  | TX_VAULT
  | TX_MULTISIG
  | TX_NULL_DATA
  deriving DecidableEq, Repr

/-- The templates, in the order in which they are tried. -/
def mTemplates : List (txnouttype × CScript) :=
  [(.TX_PUBKEY, [OP_PUBKEY, OP_CHECKSIG]),
    (.TX_PUBKEYHASH, [OP_DUP, OP_HASH160, OP_PUBKEYHASH, OP_EQUALVERIFY, OP_CHECKSIG]),
    (.TX_VAULT, getStakingVaultScriptTemplate),
    (.TX_MULTISIG, [OP_SMALLINTEGER, OP_PUBKEYS, OP_SMALLINTEGER, OP_CHECKMULTISIG])]

/-- The inner loop for `OP_PUBKEYS`: takes keys until an instruction does not push one. -/
def takePubkeys : Nat → opcodetype → valtype → CScript → List valtype →
    Option (opcodetype × valtype × CScript × List valtype)
  | 0, _, _, _, _ => none
  | fuel + 1, opcode, vch, pc, solutions =>
    if 33 ≤ vch.length ∧ vch.length ≤ 65 then
      match CScript.getOp pc with
      -- the source goes on with an invalid opcode, which no template has behind the keys
      | none => none
      | some (opcode, vch', pc) => takePubkeys fuel opcode vch' pc (solutions ++ [vch])
    else
      some (opcode, vch, pc, solutions)

/-- Compares one instruction with one of a template; the data that is taken from it. -/
def matchInstruction (opcode1 : opcodetype) (vch1 : valtype) (opcode2 : opcodetype)
    (vch2 : valtype) : Option (List valtype) :=
  if opcode2 = OP_PUBKEY then
    if vch1.length < 33 ∨ vch1.length > 65 then none else some [vch1]
  else if opcode2 = OP_PUBKEYHASH then
    if vch1.length ≠ 20 then none else some [vch1]
  else if opcode2 = OP_SMALLINTEGER then
    if opcode1 = OP_0 then some [[0]]
    else if opcode1 ≥ OP_1 ∧ opcode1 ≤ OP_16 then some [[opcode1 - OP_1 + 1]]
    else none
  else if opcode1 ≠ opcode2 ∨ vch1 ≠ vch2 then none
  else some []

/-- The loop over a script and a template, with the data taken so far. -/
def matchTemplate : Nat → CScript → CScript → List valtype → Option (List valtype)
  | 0, _, _, _ => none
  | fuel + 1, pc1, pc2, solutions =>
    if pc1.isEmpty && pc2.isEmpty then
      some solutions
    else
      match CScript.getOp pc1, CScript.getOp pc2 with
      | some (opcode1, vch1, pc1), some (opcode2, vch2, pc2) =>
        if opcode2 = OP_PUBKEYS then
          match takePubkeys (pc1.length + 2) opcode1 vch1 pc1 solutions, CScript.getOp pc2 with
          | some (opcode1, vch1, pc1, solutions), some (opcode2, vch2, pc2) =>
            match matchInstruction opcode1 vch1 opcode2 vch2 with
            | some taken => matchTemplate fuel pc1 pc2 (solutions ++ taken)
            | none => none
          | _, _ => none
        else
          match matchInstruction opcode1 vch1 opcode2 vch2 with
          | some taken => matchTemplate fuel pc1 pc2 (solutions ++ taken)
          | none => none
      | _, _ => none

/-- The further conditions on the data of a multisig script. -/
def multisigSolutionsValid (solutions : List valtype) : Bool :=
  match solutions.head?.bind List.head?, solutions.getLast?.bind List.head? with
  | some m, some n => !(m < 1 || n < 1 || m > n || solutions.length - 2 != n.toNat)
  | _, _ => false

/-- The first template that matches; a multisig script may still be refused. -/
def scanTemplates (scriptPubKey : CScript) :
    List (txnouttype × CScript) → Option (txnouttype × List valtype)
  | [] => none
  | (type, template) :: rest =>
    match matchTemplate (scriptPubKey.length + 1) scriptPubKey template [] with
    | none => scanTemplates scriptPubKey rest
    | some solutions =>
      if type = .TX_MULTISIG ∧ !multisigSolutionsValid solutions then none
      else some (type, solutions)

/-- The type of a script and the keys and hashes in it, `none` for a non-standard one. -/
def extractScriptPubKeyFormat (scriptPubKey : CScript) : Option (txnouttype × List valtype) :=
  if scriptPubKey.isPayToScriptHash then
    some (.TX_SCRIPTHASH, [(scriptPubKey.drop 2).take 20])
  else if scriptPubKey.head? == some OP_META && CScript.isPushOnly scriptPubKey.tail then
    some (.TX_NULL_DATA, [])
  else
    scanTemplates scriptPubKey mTemplates

end Divi
