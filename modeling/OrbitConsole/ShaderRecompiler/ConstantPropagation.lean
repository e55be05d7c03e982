import Mathlib.Algebra.Group.Nat.Defs
import OrbitConsole.Common.Machine
import OrbitConsole.ShaderRecompiler.Program

/-!
# Constant propagation

The pass visits every instruction once. It replaces a result that it can compute by an
immediate, and the result of an operation that undoes another one by what the other started
from. What a folding does is an `Edit` here, which is applied to the program.
-/

namespace OrbitConsole.ShaderRecompiler

/-- An immediate, or what an instruction results in. Floats are given by their bits. -/
inductive Datum
  | u1 (x : Bool)
  | u32 (x : BitVec 32)
  | u64 (x : BitVec 64)
  | f16 (x : BitVec 16)
  | f32 (x : BitVec 32)
  | f64 (x : BitVec 64)
  | u32s (lanes : List (BitVec 32))
  | f32s (lanes : List (BitVec 32))
  | attribute (n : ℕ)
  | other (n : ℕ)
  deriving DecidableEq

namespace Datum

def toU1 : Datum → Exec Bool
  | .u1 x => pure x
  | _ => throw .undefined

def toU32 : Datum → Exec (BitVec 32)
  | .u32 x => pure x
  | _ => throw .undefined

def toF32 : Datum → Exec (BitVec 32)
  | .f32 x => pure x
  | _ => throw .undefined

/-- `Value::U64`, which the unpacking of a double reads its bits with. -/
def toU64 : Datum → Exec (BitVec 64)
  | .u64 x => pure x
  | .f64 x => pure x
  | _ => throw .undefined

end Datum

structure Floats where
  ofU32 : BitVec 32 → BitVec 32
  toHalf : BitVec 32 → BitVec 16
  ofHalf : BitVec 16 → BitVec 32
  pack : Opcode → List (BitVec 32) → BitVec 32
  unpack : Opcode → BitVec 32 → List (BitVec 32)

/-! ### Programs -/

/-- A value after the result of an instruction was replaced. -/
def Value.substitute {V : Type} (v : Value V) (id : ℕ) (value : Value V) : Value V :=
  match v with
  | .imm v => .imm v
  | .inst id' => if id' = id then value else .inst id'

/-- An instruction after the result of another one was replaced. -/
def Inst.substitute {V : Type} (i : Inst V) (id : ℕ) (value : Value V) : Inst V :=
  { i with
    args := i.args.map (·.substitute id value)
    phiArgs := i.phiArgs.map fun a => (a.1, a.2.substitute id value) }

def Inst.invalidate {V : Type} (i : Inst V) : Inst V :=
  { i with op := .void, args := [], phiArgs := [] }

/-- A number that is above that of a value. -/
def Value.bound {V : Type} : Value V → ℕ
  | .imm _ => 0
  | .inst id => id + 1

/-- A number that is above those that an instruction has. -/
def Inst.bound {V : Type} (i : Inst V) : ℕ :=
  max (i.id + 1)
    (max ((i.args.map Value.bound).foldr max 0) ((i.phiArgs.map (·.2.bound)).foldr max 0))

namespace Program

variable {V : Type} (p : Program V)

def all : List (Inst V) := (List.range p.numBlocks).flatMap p.insts

def find? (id : ℕ) : Option (Inst V) := p.all.find? (·.id = id)

/-- The number of the next instruction that is created. -/
def fresh : ℕ := (p.all.map Inst.bound).foldr max 0

def mapInsts (f : Inst V → Inst V) : Program V :=
  { p with insts := fun b => (p.insts b).map f }

def replaceUsesWithAndRemove (id : ℕ) (value : Value V) : Program V :=
  p.mapInsts fun j => if j.id = id then j.invalidate else j.substitute id value

def setArgs (id : ℕ) (args : List (Value V)) : Program V :=
  p.mapInsts fun j => if j.id = id then { j with args := args } else j

def replaceOpcode (id : ℕ) (op : Opcode) : Program V :=
  p.mapInsts fun j => if j.id = id then { j with op := op } else j

def invalidate (id : ℕ) : Program V :=
  p.mapInsts fun j => if j.id = id then j.invalidate else j

/-- New instructions before another one, as an emitter there creates them. -/
def insertBefore (id : ℕ) (new : List (Inst V)) : Program V :=
  { p with insts := fun b => (p.insts b).flatMap fun j => if j.id = id then new ++ [j] else [j] }

/-- The value at the end of a chain of identities. -/
def resolve : ℕ → Value V → Exec (Value V)
  | _, .imm v => pure (.imm v)
  | 0, .inst _ => throw .diverges
  | fuel + 1, .inst id =>
      match p.find? id with
      | none => throw .undefined
      | some j =>
          if j.op = .identity then
            match j.args with
            | value :: _ => resolve fuel value
            | [] => throw .undefined
          else pure (.inst id)

def producer (fuel : ℕ) (value : Value V) : Exec (V ⊕ Inst V) := do
  match ← p.resolve fuel value with
  | .imm v => pure (.inl v)
  | .inst id =>
      match p.find? id with
      | none => throw .undefined
      | some j => pure (.inr j)

end Program

/-! ### Foldings -/

inductive Edit
  | keep
  | setArgs (args : List (Value Datum))
  | replace (value : Value Datum)
  /-- a new instruction takes its place -/
  | emit (op : Opcode) (args : List (Value Datum))
  | replaceOpcode (op : Opcode)
  | invalidate

def Edit.apply (p : Program Datum) (id : ℕ) : Edit → Program Datum
  | .keep => p
  | .setArgs args => p.setArgs id args
  | .replace value => p.replaceUsesWithAndRemove id value
  | .emit op args =>
      (p.insertBefore id [{ id := p.fresh, op := op, args := args }]).replaceUsesWithAndRemove id
        (.inst p.fresh)
  | .replaceOpcode op => p.replaceOpcode id op
  | .invalidate => p.invalidate id

section Foldings

variable (fuel : ℕ) (p : Program Datum) (i : Inst Datum)

/-- The operands of an instruction with the given opcode and an immediate as the second one. -/
def withImmediate (op : Opcode) (j : Inst Datum) : Exec (Option (Value Datum × Datum)) :=
  if j.op = op then
    match j.args with
    | [inner, outer] => do
        match ← p.producer fuel outer with
        | .inl c => return some (inner, c)
        | .inr _ => return none
    | _ => throw .undefined
  else return none

/-- `FoldCommutative`: a value that the instruction is replaced by, or else the operands that it
is left with. -/
def foldCommutative {T : Type} (read : Datum → Exec T) (make : T → Datum) (f : T → T → T) :
    Exec (Value Datum ⊕ Value Datum × Value Datum) :=
  match i.args with
  | [lhs, rhs] => do
      match ← p.producer fuel lhs, ← p.producer fuel rhs with
      | .inl a, .inl b => return .inl (.imm (make (f (← read a) (← read b))))
      | .inl a, .inr j =>
          match ← withImmediate fuel p i.op j with
          | some (inner, c) => return .inr (inner, .imm (make (f (← read a) (← read c))))
          | none => return .inr (rhs, lhs)
      | .inr j, .inl b =>
          match ← withImmediate fuel p i.op j with
          | some (inner, c) => return .inr (inner, .imm (make (f (← read b) (← read c))))
          | none => return .inr (lhs, rhs)
      | .inr _, .inr _ => return .inr (lhs, rhs)
  | _ => throw .undefined

/-- `FoldCommutative`, and then what is done when the second operand that is left is an
immediate. -/
def foldCommutativeThen {T : Type} (read : Datum → Exec T) (make : T → Datum) (f : T → T → T)
    (withImm : Value Datum → Value Datum → T → Exec Edit) : Exec Edit := do
  match ← foldCommutative fuel p i read make f with
  | .inl value => return .replace value
  | .inr (lhs, rhs) =>
      match ← p.producer fuel rhs with
      | .inl b => withImm lhs rhs (← read b)
      | .inr _ => return .setArgs [lhs, rhs]

def foldAdd : Exec Edit :=
  foldCommutativeThen fuel p i Datum.toU32 .u32 (· + ·) fun lhs rhs b =>
    if b = 0 then return .replace lhs else return .setArgs [lhs, rhs]

def foldMul : Exec Edit :=
  foldCommutativeThen fuel p i Datum.toU32 .u32 (· * ·) fun lhs rhs b =>
    if b = 0 then return .replace (.imm (.u32 0))
    else if b = 1 then return .replace lhs
    else return .setArgs [lhs, rhs]

def foldLogicalAnd : Exec Edit :=
  foldCommutativeThen fuel p i Datum.toU1 .u1 (· && ·) fun lhs _ b =>
    if b then return .replace lhs else return .replace (.imm (.u1 false))

def foldLogicalOr : Exec Edit :=
  foldCommutativeThen fuel p i Datum.toU1 .u1 (· || ·) fun lhs _ b =>
    if b then return .replace (.imm (.u1 true)) else return .replace lhs

/-- The folding of an instruction with an operand that undoes the operation of opcode
`reverse`. -/
def foldReverse (reverse : Opcode) (ofImm : Datum → Exec Edit) : Exec Edit :=
  match i.args with
  | value :: _ => do
      match ← p.producer fuel value with
      | .inl d => ofImm d
      | .inr j =>
          if j.op = reverse then
            match j.args with
            | inner :: _ => return .replace inner
            | [] => throw .undefined
          else return .keep
  | [] => throw .undefined

def foldLogicalNot : Exec Edit :=
  foldReverse fuel p i .logicalNot fun d => return .replace (.imm (.u1 !(← d.toU1)))

def foldSelect : Exec Edit :=
  match i.args with
  | [cond, a, b] => do
      match ← p.producer fuel cond with
      | .inl c => return .replace (if (← c.toU1) then a else b)
      | .inr _ => return .keep
  | _ => throw .undefined

def foldBitCast (cast : Datum → Exec Datum) (reverse : Opcode) : Exec Edit :=
  foldReverse fuel p i reverse fun d => return .replace (.imm (← cast d))

def foldUnpack32x2 (reverse : Opcode) : Exec Edit :=
  foldReverse fuel p i reverse fun d => do
    let x ← d.toU64
    return .emit .compositeConstructU32x2
      [.imm (.u32 (x.setWidth 32)), .imm (.u32 ((x >>> 32).setWidth 32))]

def foldInverseFunc (reverse : Opcode) : Exec Edit :=
  foldReverse fuel p i reverse fun _ => return .keep

def foldCompositeExtractImpl (insert construct : Opcode) (firstIndex : ℕ) :
    ℕ → Inst Datum → Exec (Option (Value Datum))
  | 0, _ => throw .diverges
  | n + 1, j =>
      if j.op = construct then
        match j.args[firstIndex]? with
        | some value => pure (some value)
        | none => throw .undefined
      else if j.op ≠ insert then pure none
      else
        match j.args with
        | [composite, object, index] => do
            match ← p.producer fuel index with
            | .inr _ => return none
            | .inl d =>
                if firstIndex ≠ (← d.toU32).toNat then
                  match ← p.producer fuel composite with
                  | .inl _ => return none
                  | .inr k => foldCompositeExtractImpl insert construct firstIndex n k
                else return some object
        | _ => throw .undefined

def foldCompositeExtract (construct insert : Opcode) : Exec Edit :=
  match i.args with
  | [composite, index] => do
      match ← p.producer fuel composite with
      | .inl _ => return .keep
      | .inr j =>
          match ← p.producer fuel index with
          | .inr _ => return .keep
          | .inl d =>
              match ← foldCompositeExtractImpl fuel p insert construct (← d.toU32).toNat fuel j with
              | some value => return .replace value
              | none => return .keep
  | _ => throw .undefined

def foldDiscardCond : Exec Edit :=
  match i.args with
  | cond :: _ => do
      match ← p.producer fuel cond with
      | .inl c => if (← c.toU1) then return .replaceOpcode .discard else return .invalidate
      | .inr _ => return .keep
  | [] => throw .undefined

def immediates : List (Value Datum) → Exec (Option (List Datum))
  | [] => pure (some [])
  | value :: values => do
      match ← p.producer fuel value with
      | .inr _ => return none
      | .inl d => return (← immediates values).map (d :: ·)

def foldWhenAllImmediates (f : List Datum → Exec Datum) : Exec Edit := do
  match ← immediates fuel p i.args with
  | some ds => return .replace (.imm (← f ds))
  | none => return .keep

end Foldings

/-! ### Operations on immediates -/

def evalU32 (f : BitVec 32 → Exec Datum) : List Datum → Exec Datum
  | [a] => do f (← a.toU32)
  | _ => throw .undefined

def evalU64 (f : BitVec 64 → Exec Datum) : List Datum → Exec Datum
  | [a] => do f (← a.toU64)
  | _ => throw .undefined

def evalF32 (f : BitVec 32 → Exec Datum) : List Datum → Exec Datum
  | [a] => do f (← a.toF32)
  | _ => throw .undefined

def evalU32U32 (f : BitVec 32 → BitVec 32 → Exec Datum) : List Datum → Exec Datum
  | [a, b] => do f (← a.toU32) (← b.toU32)
  | _ => throw .undefined

def evalU64U64 (f : BitVec 64 → BitVec 64 → Exec Datum) : List Datum → Exec Datum
  | [a, b] => do f (← a.toU64) (← b.toU64)
  | _ => throw .undefined

/-- A shift of a 32-bit operand, which the language defines for amounts below 32. -/
def shiftBy (f : BitVec 32 → ℕ → BitVec 32) (a b : BitVec 32) : Exec Datum :=
  if b.toNat < 32 then pure (.u32 (f a b.toNat)) else throw .undefined

def bitReverse : ℕ → BitVec 32 → BitVec 32 → BitVec 32
  | 0, res, _ => res
  | n + 1, res, a => bitReverse n ((res <<< 1) ||| (a &&& 1)) (a >>> 1)

def popcount {w : ℕ} (a : BitVec w) : BitVec 32 :=
  BitVec.ofNat 32 ((List.range w).countP fun i => a.getLsbD i)

def evalBitFieldUExtract : List Datum → Exec Datum
  | [base, shift, count] => do
      let base ← base.toU32
      let shift := (← shift.toU32).toNat
      let count := (← count.toU32).toNat
      assertMsg (shift + count ≤ 32) "Undefined result in BitFieldUExtract"
      if 32 ≤ shift ∨ 32 ≤ count then throw .undefined
      return .u32 ((base >>> shift) &&& (((1 : BitVec 32) <<< count) - 1))
  | _ => throw .undefined

/-- `BitFieldSExtract` of immediates. `left_shift` and `right_shift` wrap around. -/
def evalBitFieldSExtract : List Datum → Exec Datum
  | [base, shift, count] => do
      let base ← base.toU32
      let shift := (← shift.toU32).toNat
      let count := (← count.toU32).toNat
      let backShift := shift + count
      let leftShift := sub64 32 backShift
      let rightShift := (2 ^ 32 + 32 - count) % 2 ^ 32
      assertMsg (¬ (32 < backShift ∨ 32 ≤ leftShift ∨ 32 ≤ rightShift))
        "Undefined result in BitFieldSExtract"
      return .u32 ((base <<< leftShift).sshiftRight rightShift)
  | _ => throw .undefined

def evalBitFieldInsert : List Datum → Exec Datum
  | [base, insert, offset, bits] => do
      let base ← base.toU32
      let insert ← insert.toU32
      let offset := (← offset.toU32).toNat
      let bits := (← bits.toU32).toNat
      assertMsg (¬ (32 ≤ bits ∨ 32 ≤ offset)) "Undefined result in BitFieldInsert"
      return .u32 ((base &&& ~~~(~~~(BitVec.allOnes 32 <<< bits) <<< offset)) |||
        (insert <<< offset))
  | _ => throw .undefined

/-- The cases of the switch that fold an instruction when all operands are immediates. -/
def evalImmediates (F : Floats) : Opcode → Option (List Datum → Exec Datum)
  | .iSub32 => some (evalU32U32 fun a b => pure (.u32 (a - b)))
  | .convertF32U32 => some (evalU32 fun a => pure (.f32 (F.ofU32 a)))
  | .uDiv32 => some (evalU32U32 fun a b => do
      assertMsg (b ≠ 0) "Folding UDiv32 with divisor 0"
      return .u32 (a / b))
  | .uMod32 => some (evalU32U32 fun a b => do
      assertMsg (b ≠ 0) "Folding UMod32 with modulo 0"
      return .u32 (a % b))
  | .shiftLeftLogical32 => some (evalU32U32 (shiftBy fun a n => a <<< n))
  | .shiftRightLogical32 => some (evalU32U32 (shiftBy fun a n => a >>> n))
  | .shiftRightArithmetic32 => some (evalU32U32 (shiftBy fun a n => a.sshiftRight n))
  | .fpNeg32 => some (evalF32 fun a => pure (.f32 (a ^^^ 0x80000000)))
  | .sLessThan32 => some (evalU32U32 fun a b => pure (.u1 (a.toInt < b.toInt)))
  | .sLessThan64 => some (evalU64U64 fun a b => pure (.u1 (a.toInt < b.toInt)))
  | .uLessThan32 => some (evalU32U32 fun a b => pure (.u1 (a < b)))
  | .uLessThan64 => some (evalU64U64 fun a b => pure (.u1 (a < b)))
  | .sLessThanEqual32 => some (evalU32U32 fun a b => pure (.u1 (a.toInt ≤ b.toInt)))
  | .sLessThanEqual64 => some (evalU64U64 fun a b => pure (.u1 (a.toInt ≤ b.toInt)))
  | .uLessThanEqual32 => some (evalU32U32 fun a b => pure (.u1 (a ≤ b)))
  | .uLessThanEqual64 => some (evalU64U64 fun a b => pure (.u1 (a ≤ b)))
  | .sGreaterThan32 => some (evalU32U32 fun a b => pure (.u1 (a.toInt > b.toInt)))
  | .sGreaterThan64 => some (evalU64U64 fun a b => pure (.u1 (a.toInt > b.toInt)))
  | .uGreaterThan32 => some (evalU32U32 fun a b => pure (.u1 (a > b)))
  | .uGreaterThan64 => some (evalU64U64 fun a b => pure (.u1 (a > b)))
  | .sGreaterThanEqual32 => some (evalU32U32 fun a b => pure (.u1 (a.toInt ≥ b.toInt)))
  | .sGreaterThanEqual64 => some (evalU64U64 fun a b => pure (.u1 (a.toInt ≥ b.toInt)))
  | .uGreaterThanEqual32 => some (evalU32U32 fun a b => pure (.u1 (a ≥ b)))
  | .uGreaterThanEqual64 => some (evalU64U64 fun a b => pure (.u1 (a ≥ b)))
  | .iEqual32 => some (evalU32U32 fun a b => pure (.u1 (a = b)))
  | .iEqual64 => some (evalU64U64 fun a b => pure (.u1 (a = b)))
  | .iNotEqual32 => some (evalU32U32 fun a b => pure (.u1 (a ≠ b)))
  | .iNotEqual64 => some (evalU64U64 fun a b => pure (.u1 (a ≠ b)))
  | .bitwiseAnd32 => some (evalU32U32 fun a b => pure (.u32 (a &&& b)))
  | .bitwiseAnd64 => some (evalU64U64 fun a b => pure (.u64 (a &&& b)))
  | .bitwiseOr32 => some (evalU32U32 fun a b => pure (.u32 (a ||| b)))
  | .bitwiseOr64 => some (evalU64U64 fun a b => pure (.u64 (a ||| b)))
  | .bitwiseXor32 => some (evalU32U32 fun a b => pure (.u32 (a ^^^ b)))
  | .bitwiseNot32 => some (evalU32 fun a => pure (.u32 (~~~a)))
  | .bitReverse32 => some (evalU32 fun a => pure (.u32 (bitReverse 32 0 a)))
  | .bitCount32 => some (evalU32 fun a => pure (.u32 (popcount a)))
  | .bitCount64 => some (evalU64 fun a => pure (.u32 (popcount a)))
  | .bitFieldUExtract => some evalBitFieldUExtract
  | .bitFieldSExtract => some evalBitFieldSExtract
  | .bitFieldInsert => some evalBitFieldInsert
  | _ => none

/-! ### The pass -/

/-- The cases of the switch that call `FoldInverseFunc` or `FoldConvert`, with the opcode that
they look for. -/
def inverseFunc : Opcode → Option Opcode
  | .packUnorm2x16 => some .unpackUnorm2x16
  | .unpackUnorm2x16 => some .packUnorm2x16
  | .packSnorm2x16 => some .unpackSnorm2x16
  | .unpackSnorm2x16 => some .packSnorm2x16
  | .packUint2x16 => some .unpackUint2x16
  | .unpackUint2x16 => some .packUint2x16
  | .packSint2x16 => some .unpackSint2x16
  | .unpackSint2x16 => some .packSint2x16
  | .packHalf2x16 => some .unpackHalf2x16
  | .unpackHalf2x16 => some .packHalf2x16
  | .packUnorm4x8 => some .unpackUnorm4x8
  | .unpackUnorm4x8 => some .packUnorm4x8
  | .packSnorm4x8 => some .unpackSnorm4x8
  | .unpackSnorm4x8 => some .packSnorm4x8
  | .packUint4x8 => some .unpackUint4x8
  | .unpackUint4x8 => some .packUint4x8
  | .packSint4x8 => some .unpackSint4x8
  | .unpackSint4x8 => some .packSint4x8
  | .packUfloat10_11_11 => some .unpackUfloat10_11_11
  | .unpackUfloat10_11_11 => some .packUfloat10_11_11
  | .packUnorm2_10_10_10 => some .unpackUnorm2_10_10_10
  | .unpackUnorm2_10_10_10 => some .packUnorm2_10_10_10
  | .packSnorm2_10_10_10 => some .unpackSnorm2_10_10_10
  | .unpackSnorm2_10_10_10 => some .packSnorm2_10_10_10
  | .packUint2_10_10_10 => some .unpackUint2_10_10_10
  | .unpackUint2_10_10_10 => some .packUint2_10_10_10
  | .packSint2_10_10_10 => some .unpackSint2_10_10_10
  | .unpackSint2_10_10_10 => some .packSint2_10_10_10
  | .convertF32F16 => some .convertF16F32
  | .convertF16F32 => some .convertF32F16
  | _ => none

def compositeOps : Opcode → Option (Opcode × Opcode)
  | .compositeExtractU32x2 => some (.compositeConstructU32x2, .compositeInsertU32x2)
  | .compositeExtractU32x3 => some (.compositeConstructU32x3, .compositeInsertU32x3)
  | .compositeExtractU32x4 => some (.compositeConstructU32x4, .compositeInsertU32x4)
  | .compositeExtractF32x2 => some (.compositeConstructF32x2, .compositeInsertF32x2)
  | .compositeExtractF32x3 => some (.compositeConstructF32x3, .compositeInsertF32x3)
  | .compositeExtractF32x4 => some (.compositeConstructF32x4, .compositeInsertF32x4)
  | _ => none

/-- The cases of the switch in `ConstantPropagation`, but for the two that do more than edit the
instruction. -/
def folding (F : Floats) (fuel : ℕ) (p : Program Datum) (i : Inst Datum) : Exec Edit :=
  match i.op with
  | .iAdd32 => foldAdd fuel p i
  | .iMul32 => foldMul fuel p i
  | .bitCastF32U32 => foldBitCast fuel p i (fun d => return .f32 (← d.toU32)) .bitCastU32F32
  | .bitCastU32F32 => foldBitCast fuel p i (fun d => return .u32 (← d.toF32)) .bitCastF32U32
  | .unpackUint2x32 => foldUnpack32x2 fuel p i .packUint2x32
  | .unpackDouble2x32 => foldUnpack32x2 fuel p i .packDouble2x32
  | .selectU1 | .selectU32 | .selectF32 => foldSelect fuel p i
  | .logicalAnd => foldLogicalAnd fuel p i
  | .logicalOr => foldLogicalOr fuel p i
  | .logicalNot => foldLogicalNot fuel p i
  | .discardCond => foldDiscardCond fuel p i
  | op =>
      match inverseFunc op, compositeOps op, evalImmediates F op with
      | some reverse, _, _ => foldInverseFunc fuel p i reverse
      | _, some (construct, insert), _ => foldCompositeExtract fuel p i construct insert
      | _, _, some f => foldWhenAllImmediates fuel p i f
      | none, none, none => return .keep

/-- `IR::Attribute`, as far as the pass names it. -/
structure Attributes where
  packedAncillary : ℕ
  sampleIndex : ℕ
  renderTargetIndex : ℕ

def foldCmpClass (fuel : ℕ) (p : Program Datum) (i : Inst Datum) : Exec (Program Datum) :=
  match i.args with
  | [value, mask] => do
      match ← p.producer fuel mask with
      | .inr _ => throw (.assertion "Unable to resolve compare operation")
      | .inl mask =>
          let mask := (← mask.toU32).toNat
          if mask &&& 0x3 = 0x3 then return p.replaceOpcode i.id .fpIsNan32
          else if mask &&& 0x204 = 0x204 then return p.replaceOpcode i.id .fpIsInf32
          else if mask &&& 0x1f8 = 0x1f8 then
            let n := p.fresh
            return (p.insertBefore i.id
              [{ id := n, op := .fpIsNan32, args := [value] },
                { id := n + 1, op := .fpIsInf32, args := [value] },
                { id := n + 2, op := .logicalOr, args := [.inst n, .inst (n + 1)] },
                { id := n + 3, op := .logicalNot, args := [.inst (n + 2)] }])
              |>.replaceUsesWithAndRemove i.id (.inst (n + 3))
          else throw (.assertion "Unreachable code!")
  | _ => throw .undefined

def Inst.readsAttribute (attr : ℕ) (j : Inst Datum) : Bool :=
  match j.op, j.args with
  | .getAttributeU32, .imm (.attribute a) :: _ => a = attr
  | _, _ => false

/-- An attribute in place of the field of the packed one that an instruction extracts. The read
of the packed one is replaced by zero. -/
def replaceByAttribute (p : Program Datum) (i : Inst Datum) (packed : ℕ)
    (attr width : ℕ) (offset bits : BitVec 32) : Program Datum :=
  let n := p.fresh
  let get : Inst Datum :=
    { id := n, op := .getAttributeU32, args := [.imm (.attribute attr), .imm (.u32 0)] }
  let extract : Inst Datum :=
    { id := n + 1, op := .bitFieldUExtract
      args := [.inst n, .imm (.u32 offset), .imm (.u32 bits)] }
  let p := if offset = 0 ∧ bits.toNat = width then
      (p.insertBefore i.id [get]).replaceUsesWithAndRemove i.id (.inst n)
    else (p.insertBefore i.id [get, extract]).replaceUsesWithAndRemove i.id (.inst (n + 1))
  p.replaceUsesWithAndRemove packed (.imm (.u32 0))

def foldPackedAncillary (A : Attributes) (fuel : ℕ) (p : Program Datum) (i : Inst Datum) :
    Exec (Option (Program Datum)) :=
  match i.args with
  | [value, offset, bits] => do
      match ← p.producer fuel value, ← p.producer fuel offset, ← p.producer fuel bits with
      | .inr j, .inl offset, .inl bits =>
          if j.readsAttribute A.packedAncillary then
            let offset ← offset.toU32
            let bits ← bits.toU32
            if 8 ≤ offset ∧ offset + bits ≤ 12 then
              return some (replaceByAttribute p i j.id A.sampleIndex 4 (offset - 8) bits)
            else if 16 ≤ offset ∧ offset + bits ≤ 27 then
              return some (replaceByAttribute p i j.id A.renderTargetIndex 11 (offset - 16) bits)
            else throw (.assertion "Unhandled bitfield extract from ancillary VGPR")
          else return none
      | _, _, _ => return none
  | _ => throw .undefined

def constantPropagation (A : Attributes) (F : Floats) (fuel : ℕ) (p : Program Datum) (id : ℕ) :
    Exec (Program Datum) :=
  match p.find? id with
  | none => throw .undefined
  | some i =>
      match i.op with
      | .fpCmpClass32 => foldCmpClass fuel p i
      | .bitFieldUExtract => do
          match ← foldPackedAncillary A fuel p i with
          | some p' => return p'
          | none => return (← folding F fuel p i).apply p id
      | _ => do return (← folding F fuel p i).apply p id

/-- The instructions in the order in which they are visited. New ones are inserted before the one
that is being visited, and are not. -/
def Program.visits (p : Program Datum) : List ℕ :=
  p.postOrderBlocks.reverse.flatMap fun b => (p.insts b).map Inst.id

def constantPropagationPass (A : Attributes) (F : Floats) (fuel : ℕ) (p : Program Datum) :
    Exec (Program Datum) :=
  p.visits.foldlM (constantPropagation A F fuel) p

end OrbitConsole.ShaderRecompiler
