/-
Unsigned big integers: `base_uint` of uint256.h and uint256.cpp.

A `BaseUint` holds the limbs `pn[0]`, …, `pn[WIDTH - 1]`, and the operators are the loops
of the source on them, with 32-bit limbs and 64-bit intermediate results that wrap as the
machine's do.  A loop that runs up the limbs with a carry is a recursion over the list of
limbs; `shiftLeft`, `shiftRight`, `bits` and `compareTo` pick limbs by their index.

`uint256` proper adds the compact encoding of difficulty targets.  Elsewhere, where a
`uint256` is only compared for equality, it is a `BitVec 256`.
-/
import Divi.Lib.Limbs

namespace Divi

/-- `base_uint`, with its limbs from the lowest. -/
structure BaseUint (WIDTH : Nat) where
  pn : List UInt32
  length_pn : pn.length = WIDTH
  deriving DecidableEq, Repr

namespace BaseUint

variable {WIDTH : Nat}

/-- The number that the limbs stand for. -/
def toNat (a : BaseUint WIDTH) : Nat :=
  Limbs.toNat a.pn

variable (a : BaseUint WIDTH)

/-- A limb, zero past the last. -/
def limb (i : Nat) : UInt32 :=
  a.pn.getD i 0

def zero : BaseUint WIDTH where
  pn := List.replicate WIDTH 0
  length_pn := List.length_replicate

/-- `base_uint(uint64_t)`. -/
def ofUInt64 (b : UInt64) : BaseUint WIDTH where
  pn := (b.toUInt32 :: (b >>> 32).toUInt32 :: List.replicate WIDTH 0).take WIDTH
  length_pn := by simp; omega

/-! ### Addition and subtraction -/

/-- `operator~`. -/
def complement : BaseUint WIDTH where
  pn := a.pn.map (~~~ ·)
  length_pn := by simp [a.length_pn]

/-- `operator++`: goes on to the next limb as long as a limb becomes zero. -/
def incrementLoop : List UInt32 → List UInt32
  | [] => []
  | x :: xs => if x + 1 = 0 then (x + 1) :: incrementLoop xs else (x + 1) :: xs

theorem length_incrementLoop (l : List UInt32) : (incrementLoop l).length = l.length := by
  induction l with
  | nil => rfl
  | cons x xs ih =>
    unfold incrementLoop
    split
    · simp [ih]
    · rfl

def increment : BaseUint WIDTH where
  pn := incrementLoop a.pn
  length_pn := by rw [length_incrementLoop, a.length_pn]

/-- Unary `operator-`. -/
def negate : BaseUint WIDTH :=
  a.complement.increment

/-- The loop of `operator+=`. -/
def addLoop : List UInt32 → List UInt32 → UInt64 → List UInt32
  | x :: xs, y :: ys, carry =>
    let n := carry + x.toUInt64 + y.toUInt64
    n.toUInt32 :: addLoop xs ys (n >>> 32)
  | _, _, _ => []

theorem length_addLoop {a b : List UInt32} (h : a.length = b.length) (carry : UInt64) :
    (addLoop a b carry).length = b.length := by
  induction a generalizing b carry with
  | nil => simpa [addLoop] using h
  | cons x xs ih =>
    cases b with
    | nil => simp at h
    | cons y ys => simp [addLoop, ih (Nat.succ.inj h)]

/-- `operator+=`. -/
def add (a b : BaseUint WIDTH) : BaseUint WIDTH where
  pn := addLoop a.pn b.pn 0
  length_pn := by rw [length_addLoop (by rw [a.length_pn, b.length_pn]), b.length_pn]

/-- `operator-=`. -/
def sub (a b : BaseUint WIDTH) : BaseUint WIDTH :=
  a.add b.negate

/-! ### Multiplication -/

/-- The loop of `operator*=` with a limb. -/
def mulLoop (b32 : UInt32) : List UInt32 → UInt64 → List UInt32
  | [], _ => []
  | x :: xs, carry =>
    let n := carry + b32.toUInt64 * x.toUInt64
    n.toUInt32 :: mulLoop b32 xs (n >>> 32)

theorem length_mulLoop (b32 : UInt32) (l : List UInt32) (carry : UInt64) :
    (mulLoop b32 l carry).length = l.length := by
  induction l generalizing carry with
  | nil => rfl
  | cons x xs ih => simp [mulLoop, ih]

/-- `operator*=(uint32_t)`. -/
def mulUInt32 (b32 : UInt32) : BaseUint WIDTH where
  pn := mulLoop b32 a.pn 0
  length_pn := by rw [length_mulLoop, a.length_pn]

/--
The inner loop of `MultiplyBy`: adds the product of the limb `aj` with the limbs of `b`
to the limbs of the result from `j` on, as far as these go, and returns the last carry.
-/
def multiplyRow (aj : UInt32) : List UInt32 → List UInt32 → UInt64 → List UInt32 × UInt64
  | p :: ps, b :: bs, carry =>
    let n := carry + p.toUInt64 + aj.toUInt64 * b.toUInt64
    let row := multiplyRow aj ps bs (n >>> 32)
    (n.toUInt32 :: row.1, row.2)
  | ps, _, carry => (ps, carry)

theorem length_multiplyRow (aj : UInt32) (ps bs : List UInt32) (carry : UInt64) :
    (multiplyRow aj ps bs carry).1.length = ps.length := by
  induction ps generalizing bs carry with
  | nil => rfl
  | cons p ps ih =>
    cases bs with
    | nil => rfl
    | cons b bs => simp [multiplyRow, ih]

/-- The flags of `MultiplyBy`. -/
structure MultiplyState where
  overflow : Bool := false
  highestNonzeroA : Nat := 0
  highestNonzeroB : Nat := 0
  deriving DecidableEq, Repr

/--
The outer loop of `MultiplyBy` from the index `j` on, with the limbs of the result and of
both factors from `j` on.  The rows still to come leave the limb `j` of the result alone.
-/
def multiplyLoop (b : List UInt32) :
    Nat → List UInt32 → List UInt32 → List UInt32 → MultiplyState → List UInt32 × MultiplyState
  | j, aj :: as, bj :: bs, pn, state =>
    let row := multiplyRow aj pn b 0
    let rest := multiplyLoop b (j + 1) as bs row.1.tail {
      overflow := if row.2 > 0 then true else state.overflow
      highestNonzeroA := if aj ≠ 0 then j else state.highestNonzeroA
      highestNonzeroB := if bj ≠ 0 then j else state.highestNonzeroB }
    (row.1.take 1 ++ rest.1, rest.2)
  | _, _, _, pn, state => (pn, state)

theorem length_multiplyLoop (b : List UInt32) (j : Nat) (as bs pn : List UInt32)
    (state : MultiplyState) : (multiplyLoop b j as bs pn state).1.length = pn.length := by
  induction as generalizing j bs pn state with
  | nil => rfl
  | cons aj as ih =>
    cases bs with
    | nil => rfl
    | cons bj bs =>
      simp only [multiplyLoop, List.length_append, List.length_take, ih, List.length_tail,
        length_multiplyRow]
      omega

/-- `MultiplyBy`: the product, and whether it fits. -/
def multiplyBy (a b : BaseUint WIDTH) : Bool × BaseUint WIDTH :=
  let product := multiplyLoop b.pn 0 a.pn b.pn (List.replicate WIDTH 0) {}
  let overflow := product.2.overflow ||
    decide (product.2.highestNonzeroA + product.2.highestNonzeroB ≥ WIDTH)
  (!overflow, {
    pn := product.1
    length_pn := by rw [length_multiplyLoop, List.length_replicate] })

/-! ### Shifts -/

/-- `pn[i] |= x`. -/
def orLimb (i : Nat) (x : UInt32) : BaseUint WIDTH where
  pn := a.pn.modify i (· ||| x)
  length_pn := by rw [List.length_modify, a.length_pn]

/-- One round of `operator<<=`. -/
def shiftLeftStep (k shift : Nat) (r : BaseUint WIDTH) (i : Nat) :
    BaseUint WIDTH :=
  let r := if i + k + 1 < WIDTH ∧ shift ≠ 0 then
      r.orLimb (i + k + 1) (a.limb i >>> UInt32.ofNat (32 - shift))
    else r
  if i + k < WIDTH then r.orLimb (i + k) (a.limb i <<< UInt32.ofNat shift) else r

/-- `operator<<=`. -/
def shiftLeft (shift : Nat) : BaseUint WIDTH :=
  (List.range WIDTH).foldl (a.shiftLeftStep (shift / 32) (shift % 32)) zero

/-- One round of `operator>>=`. -/
def shiftRightStep (k shift : Nat) (r : BaseUint WIDTH) (i : Nat) :
    BaseUint WIDTH :=
  let r := if k + 1 ≤ i ∧ shift ≠ 0 then
      r.orLimb (i - k - 1) (a.limb i <<< UInt32.ofNat (32 - shift))
    else r
  if k ≤ i then r.orLimb (i - k) (a.limb i >>> UInt32.ofNat shift) else r

/-- `operator>>=`. -/
def shiftRight (shift : Nat) : BaseUint WIDTH :=
  (List.range WIDTH).foldl (a.shiftRightStep (shift / 32) (shift % 32)) zero

/-! ### Comparison -/

/-- The loop of `CompareTo` from the limb below an index down. -/
def compareLoop (a b : BaseUint WIDTH) : Nat → Int
  | 0 => 0
  | i + 1 =>
    if a.limb i < b.limb i then -1
    else if a.limb i > b.limb i then 1
    else compareLoop a b i

def compareTo (a b : BaseUint WIDTH) : Int :=
  a.compareLoop b WIDTH

/-! ### Division -/

/-- The loop of `bits` over the bits of one limb, from the given one down. -/
def highestBit (x : UInt32) : Nat → Nat
  | 0 => 1
  | bits + 1 =>
    if x &&& (1 <<< UInt32.ofNat (bits + 1)) ≠ 0 then bits + 1 + 1 else highestBit x bits

/-- The loop of `bits` from the limb below an index down. -/
def bitsLoop (a : BaseUint WIDTH) : Nat → Nat
  | 0 => 0
  | pos + 1 => if a.limb pos ≠ 0 then 32 * pos + highestBit (a.limb pos) 31 else bitsLoop a pos

/-- The position of the highest bit set plus one, or zero. -/
def bits : Nat :=
  a.bitsLoop WIDTH

/-- The loop of `operator/=`, with one round for every bit of the quotient. -/
def divideLoop : Nat → (num div quotient : BaseUint WIDTH) → BaseUint WIDTH
  | 0, _, _, quotient => quotient
  | shift + 1, num, div, quotient =>
    if num.compareTo div ≥ 0 then
      divideLoop shift (num.sub div) (div.shiftRight 1)
        (quotient.orLimb (shift / 32) (1 <<< UInt32.ofNat (shift % 32)))
    else
      divideLoop shift num (div.shiftRight 1) quotient

/-- `operator/=`. -/
def divide (a b : BaseUint WIDTH) : Except String (BaseUint WIDTH) :=
  let num_bits := a.bits
  let div_bits := b.bits
  if div_bits = 0 then
    .error "Division by zero"
  else if div_bits > num_bits then
    .ok zero
  else
    let shift := num_bits - div_bits
    .ok (divideLoop (shift + 1) a (b.shiftLeft shift) zero)

/-! ### Compact encoding -/

def getLow64 : UInt64 :=
  (a.limb 0).toUInt64 ||| (a.limb 1).toUInt64 <<< 32

/-- A decoded target with the flags that `SetCompact` reports. -/
structure Decoded where
  target : BaseUint 8
  fNegative : Bool
  fOverflow : Bool
  deriving DecidableEq, Repr

/-- `SetCompact`: the number of a compact form. -/
def setCompact (nCompact : UInt32) : Decoded :=
  let nSize := (nCompact >>> 24).toNat
  let nWord := nCompact &&& 0x007fffff
  let nWord := if nSize ≤ 3 then nWord >>> UInt32.ofNat (8 * (3 - nSize)) else nWord
  { target :=
      if nSize ≤ 3 then ofUInt64 nWord.toUInt64
      else (ofUInt64 nWord.toUInt64).shiftLeft (8 * (nSize - 3))
    fNegative := nWord != 0 && (nCompact &&& 0x00800000) != 0
    fOverflow := nWord != 0 && (decide (nSize > 34) || decide (nWord > 0xff) && decide (nSize > 33)
      || decide (nWord > 0xffff) && decide (nSize > 32)) }

/-- `GetCompact`, with an error for an assertion that fails. -/
def getCompact (a : BaseUint 8) (fNegative : Bool) : Except String UInt32 :=
  let nSize := (a.bits + 7) / 8
  let nCompact :=
    if nSize ≤ 3 then (a.getLow64 <<< UInt64.ofNat (8 * (3 - nSize))).toUInt32
    else (a.shiftRight (8 * (nSize - 3))).getLow64.toUInt32
  let signed := (nCompact &&& 0x00800000) != 0
  let nCompact := if signed then nCompact >>> 8 else nCompact
  let nSize := if signed then nSize + 1 else nSize
  if nCompact &&& ~~~0x007fffff ≠ 0 then
    .error "(nCompact & ~0x007fffff) == 0"
  else if nSize ≥ 256 then
    .error "nSize < 256"
  else
    let nCompact := nCompact ||| (UInt32.ofNat nSize <<< 24)
    .ok (nCompact ||| if fNegative && (nCompact &&& 0x007fffff) != 0 then 0x00800000 else 0)

end BaseUint

end Divi
