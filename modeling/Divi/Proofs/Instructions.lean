/-
Scripts as lists of instructions.

The functions that go through a script read one instruction after the other.  On a script that is
written from a list of instructions, each of them is a recursion over that list: `runOps` for the
interpreter, a filter for `FindAndDelete`, which can only find a whole instruction.
-/
import Divi.Proofs.Templates

namespace Divi

open CScript List Results

variable {opcode : opcodetype} {fuel : Nat}

/-- An opcode with the data behind it. -/
structure Instruction where
  opcode : opcodetype
  data : valtype
  wf : (opcode > OP_PUSHDATA4 ∧ data = []) ∨ CScript.CanPush opcode data.length
  deriving DecidableEq

namespace Instruction

/-- An opcode that takes no data. -/
def op (opcode : opcodetype) (h : opcode > OP_PUSHDATA4) : Instruction :=
  ⟨opcode, [], .inl ⟨h, rfl⟩⟩

def push (opcode : opcodetype) (data : valtype) (h : CScript.CanPush opcode data.length) :
    Instruction :=
  ⟨opcode, data, .inr h⟩

/-- The bytes of an instruction. -/
def encode (i : Instruction) : CScript :=
  if i.opcode > OP_PUSHDATA4 then [i.opcode] else CScript.pushWith i.opcode i.data

@[simp]
theorem encode_op (h : opcode > OP_PUSHDATA4) : (op opcode h).encode = [opcode] := if_pos h

@[simp]
theorem encode_push {data : valtype} (h : CScript.CanPush opcode data.length) :
    (push opcode data h).encode = pushWith opcode data :=
  if_neg (UInt8.not_lt.mpr h.1)

theorem canPush_of_data {i : Instruction} (h : 0 < i.data.length) :
    CScript.CanPush i.opcode i.data.length := by
  obtain ⟨-, hdata⟩ | hcan := i.wf
  · rw [hdata] at h
    exact absurd h (Nat.lt_irrefl 0)
  · exact hcan

theorem getOp_encode {i : Instruction} {rest : CScript}
    (hlen : (i.encode ++ rest).length < 2 ^ 32) :
    getOp (i.encode ++ rest) = some (i.opcode, i.data, rest) := by
  obtain ⟨opcode, data, ⟨hgt, rfl⟩ | hcan⟩ := i
  · rw [encode, if_pos hgt]
    exact getOp_op hgt rest
  · rw [encode, if_neg (UInt8.not_lt.mpr hcan.1)] at hlen ⊢
    exact getOp_pushWith hcan hlen

theorem length_encode_pos (i : Instruction) : 0 < i.encode.length := by
  unfold encode
  split
  · exact Nat.one_pos
  · exact Nat.succ_pos _

theorem encode_ne_nil (i : Instruction) : i.encode ≠ [] :=
  ne_nil_of_length_pos i.length_encode_pos

/-- At the start of an instruction only the same instruction can be found. -/
theorem encode_isPrefixOf_iff {i j : Instruction} {rest : CScript}
    (hlen : (i.encode ++ rest).length < 2 ^ 32) :
    List.isPrefixOf j.encode (i.encode ++ rest) = true ↔ i = j := by
  rw [ isPrefixOf_iff_prefix]
  constructor
  · rintro ⟨tail, htail⟩
    have hr := getOp_encode hlen
    rw [← htail] at hlen hr
    rw [getOp_encode hlen] at hr
    simp only [Option.some.injEq, Prod.mk.injEq] at hr
    obtain ⟨hop, hdata, -⟩ := hr
    cases i
    cases j
    simp_all
  · rintro rfl
    exact prefix_append _ _

end Instruction

/-- The script of a list of instructions. -/
def assemble (ops : List Instruction) : CScript :=
  ops.flatMap Instruction.encode

@[simp]
theorem assemble_nil : assemble [] = [] := rfl

@[simp]
theorem assemble_cons (i : Instruction) (ops : List Instruction) :
    assemble (i :: ops) = i.encode ++ assemble ops := by
  simp [assemble]

@[simp]
theorem assemble_append (ops ops' : List Instruction) :
    assemble (ops ++ ops') = assemble ops ++ assemble ops' := by
  simp [assemble]

theorem length_le_length_assemble (ops : List Instruction) :
    ops.length ≤ (assemble ops).length := by
  induction ops with
  | nil => exact Nat.le_refl 0
  | cons i ops ih =>
    have hpos := i.length_encode_pos
    rw [assemble_cons, length_append, length_cons]
    omega

theorem length_assemble_lt {i : Instruction} {ops : List Instruction}
    (h : (i.encode ++ assemble ops).length < 2 ^ 32) : (assemble ops).length < 2 ^ 32 := by
  rw [length_append] at h
  omega

/-! ### Deleting an instruction -/

theorem findAndDeleteFrom_assemble (j : Instruction) {ops : List Instruction}
    (h : ops.length ≤ fuel) (hlen : (assemble ops).length < 2 ^ 32) :
    findAndDeleteFrom j.encode fuel (assemble ops) = assemble (ops.filter (· ≠ j)) := by
  induction ops generalizing fuel with
  | nil =>
    cases fuel with
    | zero => rfl
    | succ fuel =>
      have hnot : ¬ List.isPrefixOf j.encode [] = true := by
        rw [ isPrefixOf_iff_prefix, prefix_nil]
        exact j.encode_ne_nil
      rw [assemble_nil, findAndDeleteFrom, if_neg hnot]
      rfl
  | cons i ops ih =>
    cases fuel with
    | zero => cases h
    | succ fuel =>
      rw [assemble_cons] at hlen
      have hr := ih (Nat.le_of_succ_le_succ h) (length_assemble_lt hlen)
      rw [assemble_cons, findAndDeleteFrom]
      by_cases hs : i = j
      · rw [if_pos ((Instruction.encode_isPrefixOf_iff hlen).mpr hs), hs, drop_left, hr,
          filter_cons_of_neg (by simp)]
      · rw [if_neg (mt (Instruction.encode_isPrefixOf_iff hlen).mp hs),
          Instruction.getOp_encode hlen]
        dsimp only
        rw [length_append, Nat.add_sub_cancel, take_left, hr,
          filter_cons_of_pos (by simpa using hs), assemble_cons]

theorem findAndDelete_assemble (j : Instruction) {ops : List Instruction}
    (hlen : (assemble ops).length < 2 ^ 32) :
    findAndDelete (assemble ops) j.encode = assemble (ops.filter (· ≠ j)) := by
  have hne : j.encode.isEmpty = false := by
    rw [← Bool.not_eq_true, List.isEmpty_iff]
    exact j.encode_ne_nil
  rw [findAndDelete, hne, if_neg Bool.false_ne_true]
  exact findAndDeleteFrom_assemble j (Nat.le_succ_of_le (length_le_length_assemble ops)) hlen

/-! ### Pushes only -/

variable {ops : List Instruction}

theorem isPushOnlyFrom_assemble (h : ops.length ≤ fuel)
    (hlen : (assemble ops).length < 2 ^ 32) :
    isPushOnlyFrom fuel (assemble ops) = ops.all fun i => i.opcode ≤ OP_16 := by
  induction ops generalizing fuel with
  | nil =>
    cases fuel with
    | zero => rfl
    | succ fuel => rfl
  | cons i ops ih =>
    cases fuel with
    | zero => cases h
    | succ fuel =>
      have hne : (assemble (i :: ops)).isEmpty = false := by
        simp [i.encode_ne_nil]
      rw [isPushOnlyFrom, hne, if_neg Bool.false_ne_true]
      rw [assemble_cons] at hlen ⊢
      rw [Instruction.getOp_encode hlen]
      dsimp only
      rw [ih (Nat.le_of_succ_le_succ h) (length_assemble_lt hlen), all_cons]

theorem isPushOnly_assemble (hlen : (assemble ops).length < 2 ^ 32) :
    isPushOnly (assemble ops) = ops.all fun i => i.opcode ≤ OP_16 :=
  isPushOnlyFrom_assemble (Nat.le_succ_of_le (length_le_length_assemble ops)) hlen

/-! ### Direct pushes -/

/-- Whether the length of the data an opcode pushes stands in bytes of its own. -/
def opcodeIsPushData (opcode : opcodetype) : Bool :=
  opcode == OP_PUSHDATA1 || opcode == OP_PUSHDATA2 || opcode == OP_PUSHDATA4

/-- Whether no instruction from `pc` on is one of `OP_PUSHDATA1`, `OP_PUSHDATA2` and
`OP_PUSHDATA4`. -/
def pushesDirectlyFrom : Nat → CScript → Bool
  | 0, _ => true
  | fuel + 1, pc =>
    match CScript.getOp pc with
    | none => true
    | some (opcode, _, rest) => !opcodeIsPushData opcode && pushesDirectlyFrom fuel rest

/-- Whether a script pushes data only with the opcodes that are its length. -/
def pushesDirectly (script : CScript) : Bool :=
  pushesDirectlyFrom script.length script

theorem pushesDirectlyFrom_assemble (h : ops.length ≤ fuel)
    (hlen : (assemble ops).length < 2 ^ 32) :
    pushesDirectlyFrom fuel (assemble ops) = ops.all fun i => !opcodeIsPushData i.opcode := by
  induction ops generalizing fuel with
  | nil =>
    cases fuel with
    | zero => rfl
    | succ fuel => rfl
  | cons i ops ih =>
    cases fuel with
    | zero => cases h
    | succ fuel =>
      rw [assemble_cons] at hlen ⊢
      rw [pushesDirectlyFrom, Instruction.getOp_encode hlen]
      dsimp only
      rw [ih (Nat.le_of_succ_le_succ h) (length_assemble_lt hlen), all_cons]

theorem pushesDirectly_assemble (hlen : (assemble ops).length < 2 ^ 32) :
    pushesDirectly (assemble ops) = ops.all fun i => !opcodeIsPushData i.opcode :=
  pushesDirectlyFrom_assemble (length_le_length_assemble ops) hlen

/-! ### Running -/

/-- The loop of `EvalScript` over instructions. -/
def runOps (ctx : ScriptContext) : List Instruction → CScript → StackOperationManager → OpResult
  | [], _, st => .ok st
  | i :: ops, codehash, st => do
    let result ← stepOp ctx i.opcode i.data (assemble ops) codehash st
    runOps ctx ops result.2 result.1

theorem evalLoop_assemble (ctx : ScriptContext) {ops : List Instruction} (h : ops.length ≤ fuel)
    (hlen : (assemble ops).length < 2 ^ 32) (codehash : CScript) (st : StackOperationManager) :
    evalLoop ctx fuel (assemble ops) codehash st = runOps ctx ops codehash st := by
  induction ops generalizing fuel codehash st with
  | nil =>
    cases fuel with
    | zero => rfl
    | succ fuel => rfl
  | cons i ops ih =>
    cases fuel with
    | zero => cases h
    | succ fuel =>
      have hne : (assemble (i :: ops)).isEmpty = false := by
        simp [i.encode_ne_nil]
      rw [evalLoop, hne, if_neg Bool.false_ne_true]
      rw [assemble_cons] at hlen ⊢
      rw [Instruction.getOp_encode hlen]
      dsimp only
      congr 1
      funext result
      exact ih (Nat.le_of_succ_le_succ h) (length_assemble_lt hlen) result.2 result.1

/-- A script within the size limit leaves what its instructions leave outside of conditionals. -/
theorem evalScript_assemble {ctx : ScriptContext} {ops : List Instruction} {stack : StackType}
    {final : StackOperationManager} (hsize : (assemble ops).length ≤ 10000)
    (hrun : runOps ctx ops (assemble ops) { stack := stack } = .ok final)
    (hc : final.conditionalManager.conditionalScopeReadStatusStack = []) :
    evalScript ctx stack (assemble ops) = .ok final.stack := by
  have hloop := evalLoop_assemble ctx (length_le_length_assemble ops) (by omega) (assemble ops)
    { stack := stack }
  rw [evalScript, if_neg (Nat.not_lt.mpr hsize), hloop, hrun]
  show (if final.conditionalManager.conditionalScopeReadStatusStack.isEmpty then _ else _) = _
  rw [hc]
  rfl

end Divi
