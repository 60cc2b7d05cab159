/-
The disk format of coins and of undo data.

The availability of the first two outputs is part of a header code, together with the flags and
the number of bytes that are not zero in the mask for the other outputs.  The mask is as long as
its last such byte.  The codes are 32-bit numbers and wrap around.
-/
import Divi.Coins
import Divi.Compressor

namespace Divi

open Streams (Reader)

namespace CCoins

variable (coins : CCoins)

/-- No output that byte `b` of the mask is for is there. -/
def maskByteIsZero (b : Nat) : Bool :=
  (List.range 8).all fun i => !coins.isAvailable (2 + b * 8 + i)

/-- The length of the mask, and the number of bytes in it that are not zero.  The counters are
32-bit numbers, and the loop only ends as here with at most `2 ^ 32 - 6` outputs. -/
def calcMaskSize : Nat × Nat :=
  (List.range ((coins.vout.length + 5) / 8)).foldl (fun sizes b =>
    if coins.maskByteIsZero b then sizes else (b + 1, sizes.2 + 1)) (0, 0)

/-- Byte `b` of the mask. -/
def chAvail (b : Nat) : UInt8 :=
  (List.range 8).foldl (fun ch i =>
    if coins.isAvailable (2 + b * 8 + i) then ch ||| (1 <<< UInt8.ofNat i) else ch) 0

/-- The header code, from the number of mask bytes that are not zero. -/
def headerCode (nMaskCode : Nat) : Nat :=
  let fFirst := coins.isAvailable 0
  let fSecond := coins.isAvailable 1
  (16 * (nMaskCode - if fFirst || fSecond then 0 else 1) + (if coins.fCoinBase then 1 else 0) +
    (if coins.fCoinStake then 2 else 0) + (if fFirst then 4 else 0) +
    (if fSecond then 8 else 0)) % 2 ^ 32

/-- `none` if there is no unspent output, which is asserted. -/
def serialize (keys : PubKeys) : Option (List UInt8) :=
  let (nMaskSize, nMaskCode) := coins.calcMaskSize
  if !coins.isAvailable 0 && !coins.isAvailable 1 && nMaskCode == 0 then
    none
  else
    some (writeVarInt 32 coins.nVersion ++ writeVarInt 32 (coins.headerCode nMaskCode) ++
      (List.range nMaskSize).map coins.chAvail ++
      (coins.vout.filter fun txout => !txout.isNull).flatMap (CTxOutCompressor.serialize keys) ++
      writeVarInt 32 coins.nHeight)

/-- The length that is reckoned in advance; the header code has another factor in it. -/
def getSerializeSize (keys : PubKeys) : Option Nat :=
  let (nMaskSize, nMaskCode) := coins.calcMaskSize
  let fFirst := coins.isAvailable 0
  let fSecond := coins.isAvailable 1
  if !fFirst && !fSecond && nMaskCode == 0 then
    none
  else
    let nCode : Nat := (8 * (nMaskCode - if fFirst || fSecond then 0 else 1) +
      (if coins.fCoinBase then 1 else 0) + (if coins.fCoinStake then 2 else 0) +
      (if fFirst then 4 else 0) + (if fSecond then 8 else 0)) % 2 ^ 32
    -- the size of an output is counted as its bytes are written
    let outputs := (coins.vout.filter fun txout => !txout.isNull).map fun txout =>
      (CTxOutCompressor.serialize keys txout).length
    some ((getSizeOfVarInt coins.nVersion + getSizeOfVarInt nCode + nMaskSize + outputs.sum +
      getSizeOfVarInt coins.nHeight) % 2 ^ 32)

/-- The bits of a byte of the mask. -/
def maskBits (chAvail : UInt8) : List Bool :=
  (List.range 8).map fun p => chAvail &&& (1 <<< UInt8.ofNat p) != 0

/-- The mask, read until as many bytes that are not zero have come. -/
def readMask : Nat → List Bool → Reader UInt8 (List Bool)
  | 0, vAvail, stream => some (vAvail, stream)
  | _ + 1, _, [] => none
  | nMaskCode + 1, vAvail, chAvail :: stream =>
    readMask (if chAvail != 0 then nMaskCode else nMaskCode + 1) (vAvail ++ maskBits chAvail) stream

/-- Reads coins. -/
def unserialize (keys : PubKeys) : Reader UInt8 CCoins := do
  let nVersion ← readVarIntSigned
  let nCode ← readVarInt 32
  let nMaskCode := nCode / 16 + if nCode.testBit 2 || nCode.testBit 3 then 0 else 1
  let vAvail ← readMask nMaskCode [nCode.testBit 2, nCode.testBit 3]
  let vout ← vAvail.mapM fun available =>
    if available then CTxOutCompressor.unserialize keys else pure CTxOut.null
  let nHeight ← readVarIntSigned
  pure (cleanup {
    fCoinBase := nCode.testBit 0
    fCoinStake := nCode.testBit 1
    vout := vout
    nHeight := nHeight
    nVersion := nVersion })

end CCoins

namespace CTxInUndo

variable (undo : CTxInUndo)

/-- The undo data as it is stored. -/
def serialize (keys : PubKeys) : List UInt8 :=
  writeVarInt 32 ((undo.nHeight * 4 + (if undo.fCoinBase then 2 else 0) +
      (if undo.fCoinStake then 1 else 0)) % 2 ^ 32) ++
    (if undo.nHeight > 0 then writeVarInt 32 undo.nVersion else []) ++
    CTxOutCompressor.serialize keys undo.txout

/-- Into a new object, whose version is zero. -/
def unserialize (keys : PubKeys) : Reader UInt8 CTxInUndo := do
  let nCode ← readVarInt 32
  let nVersion ← if nCode / 4 > 0 then readVarIntSigned else pure 0
  let txout ← CTxOutCompressor.unserialize keys
  pure {
    txout := txout
    fCoinBase := nCode.testBit 1
    fCoinStake := nCode.testBit 0
    nHeight := (nCode / 4 : Nat)
    nVersion := nVersion }

end CTxInUndo

end Divi
