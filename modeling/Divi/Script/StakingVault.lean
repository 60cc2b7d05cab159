/-
Staking vault scripts: an owner key that may always spend, and a manager key that
may spend in coinstakes only.
-/
import Divi.Script.Script

namespace Divi

/-- The `STAKING_VAULT` script of two key hashes. -/
def createStakingVaultScript (ownerKeyHash vaultKeyHash : valtype) : CScript :=
  let script := CScript.pushOp [] OP_IF
  let script := script.pushData ownerKeyHash
  let script := (script.pushOp OP_ELSE).pushOp OP_REQUIRE_COINSTAKE
  let script := (script.pushData vaultKeyHash).pushOp OP_ENDIF
  ((((script.pushOp OP_OVER).pushOp OP_HASH160).pushOp OP_EQUALVERIFY).pushOp OP_CHECKSIG)

/-- The vault script with place holders for its hashes. -/
def getStakingVaultScriptTemplate : CScript :=
  [OP_IF, OP_PUBKEYHASH, OP_ELSE, OP_REQUIRE_COINSTAKE, OP_PUBKEYHASH, OP_ENDIF, OP_OVER,
    OP_HASH160, OP_EQUALVERIFY, OP_CHECKSIG]

/-- Replaces the bytes from `first` up to `last` by a placeholder for a key hash. -/
def replaceKeyHash (script : CScript) (first last : Nat) : CScript :=
  script.take first ++ [OP_PUBKEYHASH] ++ script.drop last

/-- A script of that shape. -/
def isStakingVaultScript (scriptPubKey : CScript) : Bool :=
  if scriptPubKey.length ≠ getStakingVaultScriptTemplate.length + 2 * 20 then
    false
  else
    let keyPushSizeMatch := scriptPubKey[1]? == some 0x14 && scriptPubKey[24]? == some 0x14
    let copyScript := replaceKeyHash (replaceKeyHash scriptPubKey 24 45) 1 22
    copyScript == getStakingVaultScriptTemplate && keyPushSizeMatch

/-- The key hashes of the owner and of the manager, where the function returns true. -/
def getStakingVaultPubkeyHashes (scriptPubKey : CScript) : Option (valtype × valtype) :=
  if isStakingVaultScript scriptPubKey then
    some ((scriptPubKey.drop 2).take 20, (scriptPubKey.drop 25).take 20)
  else
    none

end Divi
