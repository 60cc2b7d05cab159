/-
Which scripts a key store can spend from, as the wallet sees it.

`IsMine` calls itself with the redemption script of a pay-to-script-hash output, which may be of
that kind again; the fuel bounds how deep it looks.
-/
import Divi.Script.Sign

namespace Divi

/-- Whose a script is. -/
inductive isminetype
  | ISMINE_NO
  | ISMINE_WATCH_ONLY
  | ISMINE_MULTISIG
  | ISMINE_SPENDABLE
  deriving DecidableEq, Repr

/-- Whose vault a script is. -/
inductive VaultType
  | NON_VAULT
  | OWNED_VAULT
  | MANAGED_VAULT
  deriving DecidableEq, Repr

/-- How many of the keys are known. -/
def haveKeys (hashes : ScriptHashes) (pubkeys : List valtype) (keystore : CKeyStore) : Nat :=
  pubkeys.countP fun pubkey => keystore.haveKey (CPubKey.getID hashes pubkey)

/-- What is left if the keys do not make a script spendable. -/
def isMineWithoutKeys (keystore : CKeyStore) (scriptPubKey : CScript) : isminetype :=
  if keystore.haveWatchOnly scriptPubKey then .ISMINE_WATCH_ONLY
  else if keystore.haveMultiSig scriptPubKey then .ISMINE_MULTISIG
  else .ISMINE_NO

/-- The answer and the type of vault. -/
def isMine (hashes : ScriptHashes) (keystore : CKeyStore) :
    Nat → CScript → Option (isminetype × VaultType)
  | 0, _ => none
  | fuel + 1, scriptPubKey =>
    if keystore.haveWatchOnly scriptPubKey then
      some (.ISMINE_WATCH_ONLY, .NON_VAULT)
    else if keystore.haveMultiSig scriptPubKey then
      some (.ISMINE_MULTISIG, .NON_VAULT)
    else
      let otherwise : isminetype := isMineWithoutKeys keystore scriptPubKey
      match extractScriptPubKeyFormat scriptPubKey with
      | none => some (otherwise, .NON_VAULT)
      | some (whichType, vSolutions) =>
        let solution := vSolutions.headD []
        match whichType with
        | .TX_NONSTANDARD | .TX_NULL_DATA => some (otherwise, .NON_VAULT)
        | .TX_PUBKEY =>
          if keystore.haveKey (CPubKey.getID hashes solution) then
            some (.ISMINE_SPENDABLE, .NON_VAULT)
          else
            some (otherwise, .NON_VAULT)
        | .TX_PUBKEYHASH =>
          if keystore.haveKey solution then
            some (.ISMINE_SPENDABLE, .NON_VAULT)
          else
            some (otherwise, .NON_VAULT)
        | .TX_SCRIPTHASH =>
          match keystore.getCScript solution with
          | none => some (otherwise, .NON_VAULT)
          | some subscript =>
            match isMine hashes keystore fuel subscript with
            | none => none
            | some (ret, vaultType) =>
              if ret ≠ .ISMINE_NO then some (ret, vaultType) else some (otherwise, vaultType)
        | .TX_VAULT =>
          if keystore.haveKey solution then
            some (.ISMINE_SPENDABLE, .OWNED_VAULT)
          else if keystore.haveKey (vSolutions.getD 1 []) then
            if keystore.haveCScript (hashes.hash160 scriptPubKey) then
              some (.ISMINE_SPENDABLE, .MANAGED_VAULT)
            else
              some (.ISMINE_NO, .MANAGED_VAULT)
          else
            some (otherwise, .NON_VAULT)
        | .TX_MULTISIG =>
          let keys := vSolutions.tail.dropLast
          if haveKeys hashes keys keystore = keys.length then
            some (.ISMINE_SPENDABLE, .NON_VAULT)
          else
            some (otherwise, .NON_VAULT)

end Divi
