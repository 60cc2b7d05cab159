/-
Numbers of variable length, and the compact form of outputs.

Writing gives a list of bytes, and reading takes bytes from the front of a stream and fails at
its end.  A type of fixed width is given by its number of bits; what does not fit wraps around.
The validity of a public key and its decompression, which a library computes, are parameters.
-/
import Divi.Lib.Streams
import Divi.Lib.Wrapping
import Divi.Script.Script

namespace Divi

open Streams (Reader)

/-! ### `WriteVarInt` and `ReadVarInt` -/

/-- The loop of `WriteVarInt`, with the number of free bytes in its buffer.  The buffer is written
out from its end, so the groups come with the highest first. -/
def writeVarIntLoop : Nat → Int → Bool → List UInt8 → List UInt8
  | 0, _, _, tmp => tmp
  | free + 1, n, first, tmp =>
    let tmp := UInt8.ofNat ((n % 128).toNat + if first then 0 else 128) :: tmp
    if n ≤ 0x7F then tmp else writeVarIntLoop free (n / 128 - 1) false tmp

def writeVarInt (bits : Nat) (n : Int) : List UInt8 :=
  writeVarIntLoop ((bits + 6) / 7) n true []

def getSizeOfVarInt (n : Int) : Nat :=
  if n ≤ 0x7F then 1 else getSizeOfVarInt (n / 128 - 1) + 1
termination_by n.toNat

/-- The loop of `ReadVarInt`, in the width of the type. -/
def readVarIntLoop (bits : Nat) : Nat → Reader UInt8 Nat
  | _, [] => none
  | n, chData :: rest =>
    let n := n * 128 % 2 ^ bits + chData.toNat % 128
    if chData.toNat ≥ 128 then readVarIntLoop bits ((n + 1) % 2 ^ bits) rest else some (n, rest)

/-- `ReadVarInt` for an unsigned type. -/
def readVarInt (bits : Nat) : Reader UInt8 Nat :=
  readVarIntLoop bits 0

/-- `ReadVarInt` for an `int`. -/
def readVarIntSigned : Reader UInt8 Int := do
  let n ← readVarInt 32
  pure ((n : Int).bmod (2 ^ 32))

/-! ### Amounts -/

/-- Divides by ten while that leaves no rest, as often as is allowed, and counts. -/
def stripZeros : Nat → Nat → Nat × Nat
  | 0, n => (n, 0)
  | rounds + 1, n =>
    if n % 10 = 0 then
      let (n, e) := stripZeros rounds (n / 10)
      (n, e + 1)
    else
      (n, 0)

/-- `CompressAmount`, in 64 bits. -/
def compressAmount (n : Nat) : Nat :=
  if n = 0 then
    0
  else
    let (n, e) := stripZeros 9 n
    if e < 9 then
      (1 + (n / 10 * 9 + n % 10 - 1) * 10 + e) % 2 ^ 64
    else
      (1 + (n - 1) * 10 + 9) % 2 ^ 64

/-- `DecompressAmount`, in 64 bits. -/
def decompressAmount (x : Nat) : Nat :=
  if x = 0 then
    0
  else
    let x := x - 1
    let e := x % 10
    let x := x / 10
    let n := if e < 9 then x / 9 * 10 + (x % 9 + 1) else x + 1
    n * 10 ^ e % 2 ^ 64

/-! ### Scripts -/

/-- `IsFullyValid` and `Decompress` of `CPubKey`. -/
structure PubKeys where
  isFullyValid : valtype → Bool
  decompress : valtype → Option valtype

/-- Sizes below this stand for special scripts. -/
def nSpecialScripts : Nat := 6

section

variable (keys : PubKeys)

namespace CScriptCompressor

variable (script : CScript)

/-- The hash that the script pays to, if it does. -/
def isToKeyID : Option valtype :=
  if script.length == 25 && script[0]? == some OP_DUP && script[1]? == some OP_HASH160 &&
      script[2]? == some 20 && script[23]? == some OP_EQUALVERIFY &&
      script[24]? == some OP_CHECKSIG then
    some ((script.drop 3).take 20)
  else
    none

/-- The hash of a payment to a script. -/
def isToScriptID : Option valtype :=
  if script.length == 23 && script[0]? == some OP_HASH160 && script[1]? == some 20 &&
      script[22]? == some OP_EQUAL then
    some ((script.drop 2).take 20)
  else
    none

/-- The key of a payment to a key. -/
def isToPubKey : Option valtype :=
  if script.length == 35 && script[0]? == some 33 && script[34]? == some OP_CHECKSIG &&
      (script[1]? == some 0x02 || script[1]? == some 0x03) then
    some ((script.drop 1).take 33)
  else if script.length == 67 && script[0]? == some 65 && script[66]? == some OP_CHECKSIG &&
      script[1]? == some 0x04 then
    let pubkey := (script.drop 1).take 65
    if keys.isFullyValid pubkey then some pubkey else none
  else
    none

/-- The short form of a key. -/
def compressPubKey (pubkey : valtype) : Option valtype :=
  if pubkey.getD 0 0 == 0x02 || pubkey.getD 0 0 == 0x03 then
    some (pubkey.getD 0 0 :: (pubkey.drop 1).take 32)
  else if pubkey.getD 0 0 == 0x04 then
    some ((0x04 ||| (pubkey.getD 64 0 &&& 0x01)) :: (pubkey.drop 1).take 32)
  else
    none

/-- The short form of a special script. -/
def compress : Option valtype :=
  match isToKeyID script with
  | some keyID => some (0x00 :: keyID)
  | none =>
    match isToScriptID script with
    | some scriptID => some (0x01 :: scriptID)
    | none =>
      match isToPubKey keys script with
      | some pubkey => compressPubKey pubkey
      | none => none

/-- The bytes behind the size. -/
def getSpecialSize (nSize : Nat) : Nat :=
  if nSize = 0 ∨ nSize = 1 then
    20
  else if nSize = 2 ∨ nSize = 3 ∨ nSize = 4 ∨ nSize = 5 then
    32
  else
    0

/-- The special script of a short form. -/
def decompress (nSize : Nat) (bytes : valtype) : Option CScript :=
  match nSize with
  | 0 => some ([OP_DUP, OP_HASH160, 20] ++ bytes ++ [OP_EQUALVERIFY, OP_CHECKSIG])
  | 1 => some ([OP_HASH160, 20] ++ bytes ++ [OP_EQUAL])
  | 2 => some ([33, 0x02] ++ bytes ++ [OP_CHECKSIG])
  | 3 => some ([33, 0x03] ++ bytes ++ [OP_CHECKSIG])
  | 4 => (keys.decompress (0x02 :: bytes)).map fun pubkey => [65] ++ pubkey ++ [OP_CHECKSIG]
  | 5 => (keys.decompress (0x03 :: bytes)).map fun pubkey => [65] ++ pubkey ++ [OP_CHECKSIG]
  | _ => none

/-- The script as it is stored. -/
def serialize : List UInt8 :=
  match compress keys script with
  | some compr => compr
  | none => writeVarInt 32 ((script.length + nSpecialScripts) % 2 ^ 32 : Nat) ++ script

/-- Into an empty script, which stays so if the key cannot be decompressed. -/
def unserialize : Reader UInt8 CScript := do
  let nSize ← readVarInt 32
  if nSize < nSpecialScripts then
    let vch ← Streams.take (getSpecialSize nSize)
    pure ((decompress keys nSize vch).getD [])
  else
    Streams.take (nSize - nSpecialScripts)

end CScriptCompressor

/-! ### Outputs -/

namespace CTxOutCompressor

/-- The output as it is stored. -/
def serialize (txout : CTxOut) : List UInt8 :=
  writeVarInt 64 (compressAmount (txout.nValue % 2 ^ 64).toNat) ++
    CScriptCompressor.serialize keys txout.scriptPubKey

/-- Reads an output. -/
def unserialize : Reader UInt8 CTxOut := do
  let nVal ← readVarInt 64
  let scriptPubKey ← CScriptCompressor.unserialize keys
  pure { nValue := Wrapping.wrap (decompressAmount nVal), scriptPubKey := scriptPubKey }

end CTxOutCompressor

end

end Divi
