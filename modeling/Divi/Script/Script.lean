/-
Serialized scripts: the opcodes, reading and writing them, and script numbers.

An opcode is a byte.  The source casts every byte to `opcodetype`, also the ones
without a name, and compares opcodes by their value.
-/
import Divi.Primitives

namespace Divi

/-- A byte of a script read as an opcode. -/
abbrev opcodetype := UInt8

abbrev OP_0 : opcodetype := 0x00
abbrev OP_PUSHDATA1 : opcodetype := 0x4c
abbrev OP_PUSHDATA2 : opcodetype := 0x4d
abbrev OP_PUSHDATA4 : opcodetype := 0x4e
abbrev OP_1NEGATE : opcodetype := 0x4f
abbrev OP_RESERVED : opcodetype := 0x50
abbrev OP_1 : opcodetype := 0x51
abbrev OP_2 : opcodetype := 0x52
abbrev OP_3 : opcodetype := 0x53
abbrev OP_4 : opcodetype := 0x54
abbrev OP_5 : opcodetype := 0x55
abbrev OP_6 : opcodetype := 0x56
abbrev OP_7 : opcodetype := 0x57
abbrev OP_8 : opcodetype := 0x58
abbrev OP_9 : opcodetype := 0x59
abbrev OP_10 : opcodetype := 0x5a
abbrev OP_11 : opcodetype := 0x5b
abbrev OP_12 : opcodetype := 0x5c
abbrev OP_13 : opcodetype := 0x5d
abbrev OP_14 : opcodetype := 0x5e
abbrev OP_15 : opcodetype := 0x5f
abbrev OP_16 : opcodetype := 0x60
@[match_pattern] abbrev OP_NOP : opcodetype := 0x61
abbrev OP_VER : opcodetype := 0x62
@[match_pattern] abbrev OP_IF : opcodetype := 0x63
@[match_pattern] abbrev OP_NOTIF : opcodetype := 0x64
abbrev OP_VERIF : opcodetype := 0x65
abbrev OP_VERNOTIF : opcodetype := 0x66
@[match_pattern] abbrev OP_ELSE : opcodetype := 0x67
@[match_pattern] abbrev OP_ENDIF : opcodetype := 0x68
@[match_pattern] abbrev OP_VERIFY : opcodetype := 0x69
abbrev OP_META : opcodetype := 0x6a
@[match_pattern] abbrev OP_TOALTSTACK : opcodetype := 0x6b
@[match_pattern] abbrev OP_FROMALTSTACK : opcodetype := 0x6c
@[match_pattern] abbrev OP_2DROP : opcodetype := 0x6d
@[match_pattern] abbrev OP_2DUP : opcodetype := 0x6e
@[match_pattern] abbrev OP_3DUP : opcodetype := 0x6f
@[match_pattern] abbrev OP_2OVER : opcodetype := 0x70
@[match_pattern] abbrev OP_2ROT : opcodetype := 0x71
@[match_pattern] abbrev OP_2SWAP : opcodetype := 0x72
@[match_pattern] abbrev OP_IFDUP : opcodetype := 0x73
@[match_pattern] abbrev OP_DEPTH : opcodetype := 0x74
@[match_pattern] abbrev OP_DROP : opcodetype := 0x75
@[match_pattern] abbrev OP_DUP : opcodetype := 0x76
@[match_pattern] abbrev OP_NIP : opcodetype := 0x77
@[match_pattern] abbrev OP_OVER : opcodetype := 0x78
@[match_pattern] abbrev OP_PICK : opcodetype := 0x79
@[match_pattern] abbrev OP_ROLL : opcodetype := 0x7a
@[match_pattern] abbrev OP_ROT : opcodetype := 0x7b
@[match_pattern] abbrev OP_SWAP : opcodetype := 0x7c
@[match_pattern] abbrev OP_TUCK : opcodetype := 0x7d
abbrev OP_CAT : opcodetype := 0x7e
abbrev OP_SUBSTR : opcodetype := 0x7f
abbrev OP_LEFT : opcodetype := 0x80
abbrev OP_RIGHT : opcodetype := 0x81
@[match_pattern] abbrev OP_SIZE : opcodetype := 0x82
abbrev OP_INVERT : opcodetype := 0x83
abbrev OP_AND : opcodetype := 0x84
abbrev OP_OR : opcodetype := 0x85
abbrev OP_XOR : opcodetype := 0x86
@[match_pattern] abbrev OP_EQUAL : opcodetype := 0x87
@[match_pattern] abbrev OP_EQUALVERIFY : opcodetype := 0x88
abbrev OP_RESERVED1 : opcodetype := 0x89
abbrev OP_RESERVED2 : opcodetype := 0x8a
@[match_pattern] abbrev OP_1ADD : opcodetype := 0x8b
@[match_pattern] abbrev OP_1SUB : opcodetype := 0x8c
abbrev OP_2MUL : opcodetype := 0x8d
abbrev OP_2DIV : opcodetype := 0x8e
@[match_pattern] abbrev OP_NEGATE : opcodetype := 0x8f
@[match_pattern] abbrev OP_ABS : opcodetype := 0x90
@[match_pattern] abbrev OP_NOT : opcodetype := 0x91
@[match_pattern] abbrev OP_0NOTEQUAL : opcodetype := 0x92
@[match_pattern] abbrev OP_ADD : opcodetype := 0x93
@[match_pattern] abbrev OP_SUB : opcodetype := 0x94
abbrev OP_MUL : opcodetype := 0x95
abbrev OP_DIV : opcodetype := 0x96
abbrev OP_MOD : opcodetype := 0x97
abbrev OP_LSHIFT : opcodetype := 0x98
abbrev OP_RSHIFT : opcodetype := 0x99
@[match_pattern] abbrev OP_BOOLAND : opcodetype := 0x9a
@[match_pattern] abbrev OP_BOOLOR : opcodetype := 0x9b
@[match_pattern] abbrev OP_NUMEQUAL : opcodetype := 0x9c
@[match_pattern] abbrev OP_NUMEQUALVERIFY : opcodetype := 0x9d
@[match_pattern] abbrev OP_NUMNOTEQUAL : opcodetype := 0x9e
@[match_pattern] abbrev OP_LESSTHAN : opcodetype := 0x9f
@[match_pattern] abbrev OP_GREATERTHAN : opcodetype := 0xa0
@[match_pattern] abbrev OP_LESSTHANOREQUAL : opcodetype := 0xa1
@[match_pattern] abbrev OP_GREATERTHANOREQUAL : opcodetype := 0xa2
@[match_pattern] abbrev OP_MIN : opcodetype := 0xa3
@[match_pattern] abbrev OP_MAX : opcodetype := 0xa4
abbrev OP_WITHIN : opcodetype := 0xa5
@[match_pattern] abbrev OP_RIPEMD160 : opcodetype := 0xa6
@[match_pattern] abbrev OP_SHA1 : opcodetype := 0xa7
@[match_pattern] abbrev OP_SHA256 : opcodetype := 0xa8
@[match_pattern] abbrev OP_HASH160 : opcodetype := 0xa9
abbrev OP_HASH256 : opcodetype := 0xaa
@[match_pattern] abbrev OP_CODESEPARATOR : opcodetype := 0xab
@[match_pattern] abbrev OP_CHECKSIG : opcodetype := 0xac
@[match_pattern] abbrev OP_CHECKSIGVERIFY : opcodetype := 0xad
@[match_pattern] abbrev OP_CHECKMULTISIG : opcodetype := 0xae
@[match_pattern] abbrev OP_CHECKMULTISIGVERIFY : opcodetype := 0xaf
abbrev OP_NOP1 : opcodetype := 0xb0
abbrev OP_NOP2 : opcodetype := 0xb1
abbrev OP_NOP3 : opcodetype := 0xb2
abbrev OP_NOP4 : opcodetype := 0xb3
abbrev OP_NOP5 : opcodetype := 0xb4
abbrev OP_NOP6 : opcodetype := 0xb5
abbrev OP_NOP7 : opcodetype := 0xb6
abbrev OP_NOP8 : opcodetype := 0xb7
abbrev OP_NOP9 : opcodetype := 0xb8
abbrev OP_REQUIRE_COINSTAKE : opcodetype := 0xb9
abbrev OP_SMALLINTEGER : opcodetype := 0xfa
abbrev OP_PUBKEYS : opcodetype := 0xfb
abbrev OP_PUBKEYHASH : opcodetype := 0xfd
abbrev OP_PUBKEY : opcodetype := 0xfe
abbrev OP_INVALIDOPCODE : opcodetype := 0xff

/-- The most bytes on the stack in one element. -/
def MAX_SCRIPT_ELEMENT_SIZE : Nat := 520

/-! ### Script numbers -/

namespace CScriptNum

/-- The most bytes of a number. -/
def nMaxNumSize : Nat := 4

/-- The bytes of an absolute value, lowest first. -/
def absBytes (absvalue : Nat) : List UInt8 :=
  (Nat.digits 256 absvalue).map UInt8.ofNat

/-- The sign goes into the top bit, or into a byte of its own if that bit is taken. -/
def addSign (neg : Bool) (result : List UInt8) : List UInt8 :=
  match result.getLast? with
  | none => result
  | some back =>
    if back &&& 0x80 ≠ 0 then
      result ++ [if neg then 0x80 else 0]
    else if neg then
      result.dropLast ++ [back ||| 0x80]
    else
      result

/-- A number as bytes, the lowest first, the sign in the highest bit. -/
def serialize (value : Int) : valtype :=
  if value = 0 then [] else addSign (value < 0) (absBytes value.natAbs)

/-- Little-endian value of the bytes. -/
def leValue : List UInt8 → Nat
  | [] => 0
  | b :: rest => b.toNat + 256 * leValue rest

/-- The number that bytes stand for. -/
def setVch (vch : valtype) : Int :=
  match vch.getLast? with
  | none => 0
  | some back =>
    if back &&& 0x80 ≠ 0 then
      -((leValue vch : Int) - 0x80 * 256 ^ (vch.length - 1))
    else
      leValue vch

/-- Whether the highest byte is there for a reason: its value bits, or the sign of the next. -/
def isMinimal (vch : valtype) : Bool :=
  match vch.reverse with
  | [] => true
  | [back] => back &&& 0x7f ≠ 0
  | back :: next :: _ => back &&& 0x7f ≠ 0 || next &&& 0x80 ≠ 0

/-- The constructor from bytes; `none` is the `scriptnum_error` it throws. -/
def ofVch (vch : valtype) (fRequireMinimal : Bool) : Option Int :=
  if vch.length > nMaxNumSize then none
  else if fRequireMinimal && !isMinimal vch then none
  else some (setVch vch)

/-- The number clamped to an `int`. -/
def getint (m_value : Int) : Int :=
  if m_value > 2 ^ 31 - 1 then 2 ^ 31 - 1
  else if m_value < -2 ^ 31 then -2 ^ 31
  else m_value

end CScriptNum

/-! ### Building scripts -/

namespace CScript

variable (script : CScript)

/-- `operator<<` of an opcode. -/
def pushOp (opcode : opcodetype) : CScript :=
  script ++ [opcode]

/-- A length in `width` bytes, lowest first. -/
def leLength (width n : Nat) : List UInt8 :=
  (List.range width).map fun i => UInt8.ofNat (n / 256 ^ i)

/-- What stands before the data of a push. -/
def pushHeader (size : Nat) : List UInt8 :=
  if size < OP_PUSHDATA1.toNat then
    [UInt8.ofNat size]
  else if size ≤ 0xff then
    OP_PUSHDATA1 :: leLength 1 size
  else if size ≤ 0xffff then
    OP_PUSHDATA2 :: leLength 2 size
  else
    OP_PUSHDATA4 :: leLength 4 size

/-- `operator<<` of a byte vector. -/
def pushData (b : valtype) : CScript :=
  script ++ pushHeader b.length ++ b

/-- The shortest push of some data. -/
def pushMinimal (b : valtype) : CScript :=
  match b with
  | [] => script.pushOp OP_0
  | [x] =>
    if 1 ≤ x ∧ x ≤ 16 then script.pushOp (OP_1 + (x - 1))
    else if x = 0x81 then script.pushOp OP_1NEGATE
    else script.pushData b
  | _ => script.pushData b

/-! ### Reading scripts -/

/--
`GetOp` at `pc`, the rest of a script: the opcode, the data it pushes and what comes
after it; `none` at the end and where the script is cut off within an instruction.
-/
def getOp (pc : CScript) : Option (opcodetype × valtype × CScript) :=
  match pc with
  | [] => none
  | opcode :: pc =>
    if opcode > OP_PUSHDATA4 then
      some (opcode, [], pc)
    else
      -- the bytes that hold the length of the data
      let width := if opcode < OP_PUSHDATA1 then 0
        else if opcode = OP_PUSHDATA1 then 1
        else if opcode = OP_PUSHDATA2 then 2
        else 4
      if pc.length < width then
        none
      else
        let nSize := if width = 0 then opcode.toNat else CScriptNum.leValue (pc.take width)
        let pc := pc.drop width
        -- the bytes left are compared as an `unsigned int`
        if pc.length % 2 ^ 32 < nSize then none
        else some (opcode, pc.take nSize, pc.drop nSize)

/-- `FindAndDelete` from `pc` on; every round deletes a copy of `b` or skips an instruction. -/
def findAndDeleteFrom (b : CScript) : Nat → CScript → CScript
  | 0, pc => pc
  | fuel + 1, pc =>
    if b.isPrefixOf pc then
      findAndDeleteFrom b fuel (pc.drop b.length)
    else
      match getOp pc with
      | none => pc
      | some (_, _, rest) =>
        pc.take (pc.length - rest.length) ++ findAndDeleteFrom b fuel rest

/-- `FindAndDelete`: the script without its occurrences of another. -/
def findAndDelete (script b : CScript) : CScript :=
  if b.isEmpty then script else findAndDeleteFrom b (script.length + 1) script

/-- `IsPushOnly` from `pc` on. -/
def isPushOnlyFrom : Nat → CScript → Bool
  | 0, _ => true
  | fuel + 1, pc =>
    if pc.isEmpty then
      true
    else
      match getOp pc with
      | none => false
      | some (opcode, _, rest) => opcode ≤ OP_16 && isPushOnlyFrom fuel rest

/-- Nothing but pushes. -/
def isPushOnly : Bool :=
  isPushOnlyFrom (script.length + 1) script

/-- The shape of a payment to a script hash. -/
def isPayToScriptHash : Bool :=
  script.length == 23 && script[0]? == some OP_HASH160 && script[1]? == some 0x14 &&
    script[22]? == some OP_EQUAL

/-- The shape of a payment to a key hash. -/
def isPayToPublicKeyHash : Bool :=
  script.length == 25 && script[0]? == some OP_DUP && script[1]? == some OP_HASH160 &&
    script[2]? == some 0x14 && script[23]? == some OP_EQUALVERIFY && script[24]? == some OP_CHECKSIG

/-- Guaranteed to fail at execution whatever the stack. -/
def isUnspendable : Bool :=
  script.head? == some OP_META

end CScript

end Divi
