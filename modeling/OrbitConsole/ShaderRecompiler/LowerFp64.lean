import OrbitConsole.ShaderRecompiler.OpcodeMeaning

/-!
# The lowering of doubles

Where the host has no doubles, the shader computes in single precision. Doubles come in and go
out as two words, so the pass replaces the packing and the unpacking of a double by a sequence
of integer operations that converts the words.
-/

namespace OrbitConsole.ShaderRecompiler

/-! ### The emitter -/

/-- The number of the next instruction, and the instructions so far. -/
abbrev Emitter := StateM (ℕ × List (Inst Datum))

namespace Emitter

def inst (op : Opcode) (args : List (Value Datum)) : Emitter (Value Datum) := fun s =>
  (.inst s.1, s.1 + 1, s.2 ++ [{ id := s.1, op := op, args := args }])

def imm32 (x : BitVec 32) : Value Datum := .imm (.u32 x)

def compositeExtract (vector : Value Datum) (element : ℕ) : Emitter (Value Datum) :=
  inst .compositeExtractU32x2 [vector, imm32 element]

def compositeConstruct (e₁ e₂ : Value Datum) : Emitter (Value Datum) :=
  inst .compositeConstructU32x2 [e₁, e₂]

def bitFieldExtract (base : Value Datum) (offset count : ℕ) : Emitter (Value Datum) :=
  inst .bitFieldUExtract [base, imm32 offset, imm32 count]

def shiftLeftLogical (base : Value Datum) (shift : ℕ) : Emitter (Value Datum) :=
  inst .shiftLeftLogical32 [base, imm32 shift]

def bitwiseOr (a b : Value Datum) : Emitter (Value Datum) := inst .bitwiseOr32 [a, b]

def iAdd (a b : Value Datum) : Emitter (Value Datum) := inst .iAdd32 [a, b]

def iEqual (a b : Value Datum) : Emitter (Value Datum) := inst .iEqual32 [a, b]

def select (c a b : Value Datum) : Emitter (Value Datum) := inst .selectU32 [c, a, b]

end Emitter

/-! ### The pass -/

namespace LowerFp64

open Emitter

def f64ToF32Exp : BitVec 32 := 1023 - 127

def f32ToF64Exp : BitVec 32 := 127 - 1023

def packedF64ToF32 (packed : Value Datum) : Emitter (Value Datum) := do
  let lo ← compositeExtract packed 0
  let hi ← compositeExtract packed 1
  let sign ← bitFieldExtract hi 31 1
  let exp ← bitFieldExtract hi 20 11
  let mantissa_hi ← bitFieldExtract hi 0 20
  let mantissa_lo ← bitFieldExtract lo 29 3
  let mantissa ← bitwiseOr (← shiftLeftLogical mantissa_hi 3) mantissa_lo
  let exp_if_subnorm ←
    select (← iEqual exp (imm32 0)) (imm32 0) (← iAdd exp (imm32 f64ToF32Exp))
  let exp_if_infnan ← select (← iEqual exp (imm32 0x7ff)) (imm32 0xff) exp_if_subnorm
  let result ← bitwiseOr (← shiftLeftLogical sign 31)
    (← bitwiseOr (← shiftLeftLogical exp_if_infnan 23) mantissa)
  inst .bitCastF32U32 [result]

def f32ToPackedF64 (raw : Value Datum) : Emitter (Value Datum) := do
  let value ← inst .bitCastU32F32 [raw]
  let sign ← bitFieldExtract value 31 1
  let exp ← bitFieldExtract value 23 8
  let mantissa ← bitFieldExtract value 0 23
  let mantissa_hi ← bitFieldExtract mantissa 3 20
  let mantissa_lo ← bitFieldExtract mantissa 0 3
  let exp_if_subnorm ←
    select (← iEqual exp (imm32 0)) (imm32 0) (← iAdd exp (imm32 f32ToF64Exp))
  let exp_if_infnan ← select (← iEqual exp (imm32 0xff)) (imm32 0x7ff) exp_if_subnorm
  let lo ← shiftLeftLogical mantissa_lo 29
  let hi ← bitwiseOr (← shiftLeftLogical sign 31)
    (← bitwiseOr (← shiftLeftLogical exp_if_infnan 20) mantissa_hi)
  compositeConstruct lo hi

def replace : Opcode → Opcode
  | .fpAbs64 => .fpAbs32
  | .fpAdd64 => .fpAdd32
  | .fpFma64 => .fpFma32
  | .fpMax64 => .fpMax32
  | .fpMin64 => .fpMin32
  | .fpMul64 => .fpMul32
  | .fpDiv64 => .fpDiv32
  | .fpNeg64 => .fpNeg32
  | .fpRecip64 => .fpRecip32
  | .fpRecipSqrt64 => .fpRecipSqrt32
  | .fpSaturate64 => .fpSaturate32
  | .fpClamp64 => .fpClamp32
  | .fpRoundEven64 => .fpRoundEven32
  | .fpFloor64 => .fpFloor32
  | .fpCeil64 => .fpCeil32
  | .fpTrunc64 => .fpTrunc32
  | .fpFract64 => .fpFract32
  | .fpFrexpSig64 => .fpFrexpSig32
  | .fpFrexpExp64 => .fpFrexpExp32
  | .fpOrdEqual64 => .fpOrdEqual32
  | .fpUnordEqual64 => .fpUnordEqual32
  | .fpOrdNotEqual64 => .fpOrdNotEqual32
  | .fpUnordNotEqual64 => .fpUnordNotEqual32
  | .fpOrdLessThan64 => .fpOrdLessThan32
  | .fpUnordLessThan64 => .fpUnordLessThan32
  | .fpOrdGreaterThan64 => .fpOrdGreaterThan32
  | .fpUnordGreaterThan64 => .fpUnordGreaterThan32
  | .fpOrdLessThanEqual64 => .fpOrdLessThanEqual32
  | .fpUnordLessThanEqual64 => .fpUnordLessThanEqual32
  | .fpOrdGreaterThanEqual64 => .fpOrdGreaterThanEqual32
  | .fpUnordGreaterThanEqual64 => .fpUnordGreaterThanEqual32
  | .fpIsNan64 => .fpIsNan32
  | .fpIsInf64 => .fpIsInf32
  | .convertS32F64 => .convertS32F32
  | .convertF32F64 => .identity
  | .convertF64F32 => .identity
  | .convertF64S32 => .convertF32S32
  | .convertF64U32 => .convertF32U32
  | op => op

def replaceUsesWith (p : Program Datum) (id : ℕ) (value : Value Datum) : Program Datum :=
  p.mapInsts fun j =>
    if j.id = id then { j.invalidate with op := .identity, args := [value] }
    else j.substitute id value

/-- What the emitter creates goes before the instruction, which its result replaces. -/
def replaceBy (p : Program Datum) (id : ℕ) (sequence : Emitter (Value Datum)) : Program Datum :=
  let (value, _, new) := sequence (p.fresh, [])
  replaceUsesWith (p.insertBefore id new) id value

def lower (p : Program Datum) (id : ℕ) : Program Datum :=
  match p.find? id with
  | some { op := .packDouble2x32, args := packed :: _, .. } =>
      replaceBy p id (packedF64ToF32 packed)
  | some { op := .unpackDouble2x32, args := raw :: _, .. } =>
      replaceBy p id (f32ToPackedF64 raw)
  | some i => p.replaceOpcode id (replace i.op)
  | none => p

def lowerFp64ToFp32 (p : Program Datum) : Program Datum :=
  (p.all.map (·.id)).foldl lower p

end LowerFp64

/-! ### What a sequence computes -/

/-- The results of the instructions so far. -/
abbrev Results := ℕ → Option Datum

def Value.eval? (results : Results) : Value Datum → Option Datum
  | .imm d => some d
  | .inst id => results id

def Inst.compute (F : Floats) (results : Results) (i : Inst Datum) : Results :=
  Function.update results i.id do
    let args ← i.args.mapM (Value.eval? results)
    (← meaning F i.op) args

def Emitter.result (F : Floats) (sequence : Emitter (Value Datum)) (next : ℕ)
    (results : Results) : Option Datum :=
  let (value, _, new) := sequence (next, [])
  value.eval? (new.foldl (Inst.compute F) results)

end OrbitConsole.ShaderRecompiler
