/-
Signing an input.

A public key is its bytes, and the ID of a key or a script the 20 bytes of its hash.  What
`SignSignature` leaves in the transaction is returned with its answer; a failed assertion has no
result.  A hash type is an `int`.
-/
import Divi.Fees
import Divi.Script.Interpreter
import Divi.Script.Standard

namespace Divi

/-! ### Keys -/

namespace CPubKey

/-- The length of a key with a first byte. -/
def getLen (chHeader : UInt8) : Nat :=
  if chHeader = 2 ∨ chHeader = 3 then 33
  else if chHeader = 4 ∨ chHeader = 6 ∨ chHeader = 7 then 65
  else 0

/-- The bytes of `CPubKey(vch)`; an invalid key has none. -/
def ofBytes (vch : valtype) : valtype :=
  match vch with
  | [] => []
  | chHeader :: _ => if getLen chHeader = vch.length then vch else []

/-- The bytes have the length of a key. -/
def isValid (vch : valtype) : Bool :=
  !(ofBytes vch).isEmpty

/-- The hash that names a key. -/
def getID (hashes : ScriptHashes) (vch : valtype) : valtype :=
  hashes.hash160 (ofBytes vch)

end CPubKey

/-- A private key, with what is computed from it. -/
structure CKey where
  getPubKey : valtype
  /-- `Sign`, where it returns true. -/
  sign : uint256 → Option valtype
  /-- The public key is written with the prefix of a compressed or an uncompressed one. -/
  getPubKey_encoding : isCompressedOrUncompressedPubKey getPubKey = true

/-- The answers of a key store. -/
structure CKeyStore where
  haveKey : valtype → Bool
  getKey : valtype → Option CKey
  getPubKey : valtype → Option valtype
  haveCScript : valtype → Bool
  getCScript : valtype → Option CScript
  haveWatchOnly : CScript → Bool
  haveMultiSig : CScript → Bool

/-! ### The hash of a transaction for a signature -/

/-- What a signature covers. -/
def SIGHASH_ALL : BitVec 32 := 1

def SIGHASH_NONE : BitVec 32 := 2

def SIGHASH_SINGLE : BitVec 32 := 3

def SIGHASH_ANYONECANPAY : BitVec 32 := 0x80

/-- The functions on bytes that signing uses. -/
structure SigningParams where
  hashes : ScriptHashes
  /-- The hash of a transaction that is prepared for it, and of the hash type.  The script code
  stands in the input that is signed; its code separators are skipped when it is written. -/
  serializeHash : CMutableTransaction → BitVec 32 → uint256
  /-- `CPubKey::Verify`. -/
  verify : valtype → uint256 → valtype → Bool

/-- `CTransactionSignatureSerializer`. -/
structure CTransactionSignatureSerializer where
  txTo : CMutableTransaction
  scriptCode : CScript
  nIn : Nat
  nHashType : BitVec 32

namespace CTransactionSignatureSerializer

variable (txTmp : CTransactionSignatureSerializer)

/-- Only one input is signed. -/
def fAnyoneCanPay : Bool :=
  txTmp.nHashType &&& SIGHASH_ANYONECANPAY != 0

/-- Only the output of that index is signed. -/
def fHashSingle : Bool :=
  txTmp.nHashType &&& 0x1f == SIGHASH_SINGLE

/-- No output is signed. -/
def fHashNone : Bool :=
  txTmp.nHashType &&& 0x1f == SIGHASH_NONE

/-- The input at an index, with the script code or no script. -/
def serializeInput (nInput : Nat) (input : CTxIn) : CTxIn where
  prevout := input.prevout
  scriptSig := if nInput ≠ txTmp.nIn then [] else txTmp.scriptCode
  nSequence :=
    if nInput ≠ txTmp.nIn ∧ (txTmp.fHashSingle || txTmp.fHashNone) then 0 else input.nSequence

/-- An output as it is hashed. -/
def serializeOutput (nOutput : Nat) (output : CTxOut) : CTxOut :=
  if txTmp.fHashSingle && nOutput != txTmp.nIn then CTxOut.null else output

/-- The transaction as it is hashed. -/
def serialize : CMutableTransaction where
  nVersion := txTmp.txTo.nVersion
  vin :=
    if txTmp.fAnyoneCanPay then
      (txTmp.txTo.vin[txTmp.nIn]?.map (txTmp.serializeInput txTmp.nIn)).toList
    else
      txTmp.txTo.vin.mapIdx txTmp.serializeInput
  vout :=
    if txTmp.fHashNone then []
    else if txTmp.fHashSingle then
      (txTmp.txTo.vout.take (txTmp.nIn + 1)).mapIdx txTmp.serializeOutput
    else txTmp.txTo.vout.mapIdx txTmp.serializeOutput
  nLockTime := txTmp.txTo.nLockTime

end CTransactionSignatureSerializer

namespace SigningParams

variable (params : SigningParams)

/-- `SignatureHash`: what a signature signs, 1 for an index out of range. -/
def signatureHash (scriptCode : CScript) (txTo : CMutableTransaction) (nIn : Nat)
    (nHashType : BitVec 32) : uint256 :=
  if nIn ≥ txTo.vin.length then
    1
  else if nHashType &&& 0x1f = SIGHASH_SINGLE ∧ nIn ≥ txTo.vout.length then
    1
  else
    params.serializeHash
      (CTransactionSignatureSerializer.mk txTo scriptCode nIn nHashType).serialize nHashType

end SigningParams

/-- `IsCoinStake` of the transaction that is made from a mutable one. -/
def CMutableTransaction.isCoinStake (tx : CMutableTransaction) : Bool :=
  CTransaction.isCoinStake
    { hash := 0, nVersion := tx.nVersion, vin := tx.vin, vout := tx.vout
      nLockTime := tx.nLockTime }

/-- Replaces the script of an input. -/
def CMutableTransaction.setScriptSig (tx : CMutableTransaction) (nIn : Nat) (scriptSig : CScript) :
    CMutableTransaction :=
  { tx with vin := tx.vin.modify nIn fun txin => { txin with scriptSig := scriptSig } }

namespace SigningParams

variable (params : SigningParams)

/-- `MutableTransactionSignatureChecker`. -/
def signatureChecker (txTo : CMutableTransaction) (nIn : Nat) : BaseSignatureChecker where
  checkSig vchSigIn vchPubKey scriptCode :=
    if !CPubKey.isValid vchPubKey then
      false
    else
      match vchSigIn.getLast? with
      | none => false
      | some nHashType =>
        let sighash := params.signatureHash scriptCode txTo nIn (BitVec.ofNat 32 nHashType.toNat)
        params.verify (CPubKey.ofBytes vchPubKey) sighash vchSigIn.dropLast
  checkCoinstake := txTo.isCoinStake

end SigningParams

/-! ### Solving a script -/

/-- `Sign1`: the script with the signature, where the function returns true. -/
def sign1 (keystore : CKeyStore) (address : valtype) (hash : uint256) (nHashType : BitVec 32)
    (scriptSigRet : CScript) : Option CScript := do
  let key ← keystore.getKey address
  let vchSig ← key.sign hash
  some (scriptSigRet.pushData (vchSig ++ [UInt8.ofNat nHashType.toNat]))

/-- The loop of `SignN` over the keys, with the number of signatures that are still required. -/
def signKeys (hashes : ScriptHashes) (keystore : CKeyStore) (hash : uint256)
    (nHashType : BitVec 32) : List valtype → Nat → CScript → Nat × CScript
  | [], nRequired, scriptSigRet => (nRequired, scriptSigRet)
  | _ :: _, 0, scriptSigRet => (0, scriptSigRet)
  | pubkey :: pubkeys, nRequired + 1, scriptSigRet =>
    match sign1 keystore (CPubKey.getID hashes pubkey) hash nHashType scriptSigRet with
    | none => signKeys hashes keystore hash nHashType pubkeys (nRequired + 1) scriptSigRet
    | some scriptSigRet => signKeys hashes keystore hash nHashType pubkeys nRequired scriptSigRet

/-- `SignN`: whether all required signatures could be made, and the script with those made. -/
def signN (hashes : ScriptHashes) (keystore : CKeyStore) (multisigdata : List valtype)
    (hash : uint256) (nHashType : BitVec 32) (scriptSigRet : CScript) : Bool × CScript :=
  let nRequired := ((multisigdata.head?.bind List.head?).getD 0).toNat
  let (missing, scriptSigRet) :=
    signKeys hashes keystore hash nHashType multisigdata.tail.dropLast nRequired scriptSigRet
  (missing == 0, scriptSigRet)

/-- `SignVaultSpend`: the script, where the function returns true. -/
def signVaultSpend (keystore : CKeyStore) (vaultScriptPubKey : CScript) (hash : uint256)
    (nHashType : BitVec 32) (scriptSigRet : CScript) (spendAsOwner : Bool) : Option CScript := do
  let (ownerKeyID, vaultKeyID) ← getStakingVaultPubkeyHashes vaultScriptPubKey
  if !spendAsOwner && keystore.haveKey vaultKeyID then
    let scriptSigRet ← sign1 keystore vaultKeyID hash nHashType scriptSigRet
    -- the key stays empty if the store does not have it
    let vaultKey := (keystore.getPubKey vaultKeyID).getD []
    some ((scriptSigRet.pushData vaultKey).pushOp OP_0)
  else if spendAsOwner && keystore.haveKey ownerKeyID then
    let scriptSigRet ← sign1 keystore ownerKeyID hash nHashType scriptSigRet
    let ownerKey := (keystore.getPubKey ownerKeyID).getD []
    some ((scriptSigRet.pushData ownerKey).pushOp OP_1)
  else
    none

/-- What `ExtractScriptPubKeyFormat` leaves in its arguments, whatever it returns: a multisig script
that is refused keeps its type. -/
def scriptPubKeyFormatRet (scriptPubKey : CScript) : txnouttype × List valtype :=
  match extractScriptPubKeyFormat scriptPubKey with
  | some format => format
  | none =>
    match matchTemplate (scriptPubKey.length + 1) scriptPubKey
        [OP_SMALLINTEGER, OP_PUBKEYS, OP_SMALLINTEGER, OP_CHECKMULTISIG] [] with
    | some solutions => (.TX_MULTISIG, solutions)
    | none => (.TX_NONSTANDARD, [])

/-- A script of signatures, or the redemption script, and whether there is one. -/
def constructScriptSigOrGetRedemptionScript (hashes : ScriptHashes) (keystore : CKeyStore)
    (scriptPubKey : CScript) (hash : uint256) (nHashType : BitVec 32) :
    Bool × CScript × txnouttype :=
  let (whichType, vSolutions) := scriptPubKeyFormatRet scriptPubKey
  let solution := vSolutions.headD []
  let (solved, scriptSig) : Bool × CScript :=
    match whichType with
    | .TX_NONSTANDARD | .TX_NULL_DATA => (false, [])
    | .TX_PUBKEY =>
      match sign1 keystore (CPubKey.getID hashes solution) hash nHashType [] with
      | none => (false, [])
      | some scriptSig => (true, scriptSig)
    | .TX_PUBKEYHASH =>
      match sign1 keystore solution hash nHashType [] with
      | none => (false, [])
      | some scriptSig => (true, scriptSig.pushData ((keystore.getPubKey solution).getD []))
    | .TX_VAULT =>
      match signVaultSpend keystore scriptPubKey hash nHashType [] true with
      | some scriptSig => (true, scriptSig)
      | none =>
        match signVaultSpend keystore scriptPubKey hash nHashType [] false with
        | some scriptSig => (true, scriptSig)
        | none => (false, [])
    | .TX_SCRIPTHASH =>
      match keystore.getCScript solution with
      | none => (false, [])
      | some redeemScript => (true, redeemScript)
    | .TX_MULTISIG => signN hashes keystore vSolutions hash nHashType (CScript.pushOp [] OP_0)
  (solved, scriptSig, whichType)

/-! ### Signing -/

namespace SigningParams

variable (params : SigningParams)

/-- `VerifyScript` of an input under the standard flags. -/
def testSolution (txTo : CMutableTransaction) (nIn : Nat) (scriptSig fromPubKey : CScript) : Bool :=
  (verifyScript
    { hashes := params.hashes
      flags := STANDARD_SCRIPT_VERIFY_FLAGS
      checker := params.signatureChecker txTo nIn } scriptSig fromPubKey).isOk

/-- Whether the input is signed, and the transaction with its new script. -/
def signSignature (keystore : CKeyStore) (fromPubKey : CScript) (txTo : CMutableTransaction)
    (nIn : Nat) (nHashType : BitVec 32) : Option (Bool × CMutableTransaction) :=
  if nIn < txTo.vin.length then
    let hash := params.signatureHash fromPubKey txTo nIn nHashType
    let (solved, scriptSig, whichType) := constructScriptSigOrGetRedemptionScript params.hashes
      keystore fromPubKey hash nHashType
    let txTo := txTo.setScriptSig nIn scriptSig
    if !solved then
      some (false, txTo)
    else if whichType = .TX_SCRIPTHASH then
      let subscript := scriptSig
      let hash2 := params.signatureHash subscript txTo nIn nHashType
      let (solved, scriptSig, subType) := constructScriptSigOrGetRedemptionScript params.hashes
        keystore subscript hash2 nHashType
      let fSolved := solved && subType ≠ .TX_SCRIPTHASH
      -- the script is appended whether or not it is completely signed
      let scriptSig := scriptSig.pushData subscript
      let txTo := txTo.setScriptSig nIn scriptSig
      if !fSolved then
        some (false, txTo)
      else
        some (params.testSolution txTo nIn scriptSig fromPubKey, txTo)
    else
      some (params.testSolution txTo nIn scriptSig fromPubKey, txTo)
  else
    none

end SigningParams

end Divi
