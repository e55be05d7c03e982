import OrbitConsole.Library.BitFields
import OrbitConsole.ShaderRecompiler.Program

/-!
# 16-bit and 64-bit accesses to shared memory

Without aliased layouts the accesses of 16 and of 64 bits are replaced by
accesses of 32 bits. A program executes what stands in place of an instruction
one memory operation at a time, so other invocations can come in between.
-/

namespace OrbitConsole.ShaderRecompiler

/-- An immediate, or what an instruction results in. -/
inductive SharedValue
  | u16 (x : BitVec 16)
  | u32 (x : BitVec 32)
  | u64 (x : BitVec 64)
  | u32x2 (x y : BitVec 32)

/-! ### The pass -/

def requires16BitSharedAtomic (_ : Opcode) : Bool := false

def requires64BitSharedAtomic : Opcode → Bool
  | .sharedAtomicIAdd64 | .sharedAtomicISub64 | .sharedAtomicSMin64 | .sharedAtomicUMin64
  | .sharedAtomicSMax64 | .sharedAtomicUMax64 | .sharedAtomicInc64 | .sharedAtomicDec64
  | .sharedAtomicAnd64 | .sharedAtomicOr64 | .sharedAtomicXor64 => true
  | _ => false

/-- What `SharedMemorySimplifyPass` reads: the stage, the profile and the opcodes of the
program. -/
structure SimplifyInfo where
  isCompute : Bool
  supports_workgroup_explicit_memory_layout : Bool
  opcodes : List Opcode

namespace SimplifyInfo

variable (info : SimplifyInfo)

def atomicU16 : Bool := info.opcodes.any requires16BitSharedAtomic

def atomicU64 : Bool := info.opcodes.any requires64BitSharedAtomic

/-- The pass has something to do. -/
def applies : Bool :=
  info.isCompute && !info.supports_workgroup_explicit_memory_layout &&
    !(info.atomicU16 && info.atomicU64)

end SimplifyInfo

def imm32 (x : BitVec 32) : Value SharedValue := .imm (.u32 x)

/-- The new instructions in place of one, numbered from zero, and what its uses are replaced by;
`none` if it stays. -/
def simplify (info : SimplifyInfo) (inst : Inst SharedValue) :
    Option (List (Inst SharedValue) × Option (Value SharedValue)) :=
  if info.applies then
    match inst.op, inst.args with
    | .loadSharedU16, [offset] =>
        if info.atomicU16 then none
        else some
          ([{ id := 0, op := .bitwiseAnd32, args := [offset, imm32 (~~~3)] },
            { id := 1, op := .loadSharedU32, args := [.inst 0] },
            { id := 2, op := .bitwiseAnd32, args := [offset, imm32 2] },
            { id := 3, op := .iMul32, args := [.inst 2, imm32 8] },
            { id := 4, op := .bitFieldUExtract, args := [.inst 1, .inst 3, imm32 16] },
            { id := 5, op := .convertU16U32, args := [.inst 4] }], some (.inst 5))
    | .writeSharedU16, [offset, value] =>
        if info.atomicU16 then none
        else some
          ([{ id := 0, op := .convertU32U16, args := [value] },
            { id := 1, op := .bitwiseAnd32, args := [offset, imm32 2] },
            { id := 2, op := .iMul32, args := [.inst 1, imm32 8] },
            { id := 3, op := .bitwiseAnd32, args := [offset, imm32 (~~~3)] },
            { id := 4, op := .bitwiseAnd32, args := [offset, .inst 3] },
            { id := 5, op := .loadSharedU32, args := [.inst 4] },
            { id := 6, op := .bitFieldInsert, args := [.inst 5, .inst 0, .inst 2, imm32 16] },
            { id := 7, op := .writeSharedU32, args := [.inst 3, .inst 6] }], none)
    | .loadSharedU64, [offset] =>
        if info.atomicU64 then none
        else some
          ([{ id := 0, op := .loadSharedU32, args := [offset] },
            { id := 1, op := .iAdd32, args := [offset, imm32 4] },
            { id := 2, op := .loadSharedU32, args := [.inst 1] },
            { id := 3, op := .compositeConstructU32x2, args := [.inst 0, .inst 2] },
            { id := 4, op := .packUint2x32, args := [.inst 3] }], some (.inst 4))
    | .writeSharedU64, [offset, value] =>
        if info.atomicU64 then none
        else some
          ([{ id := 0, op := .unpackUint2x32, args := [value] },
            { id := 1, op := .compositeExtractU32x2, args := [.inst 0, imm32 0] },
            { id := 2, op := .compositeExtractU32x2, args := [.inst 0, imm32 1] },
            { id := 3, op := .writeSharedU32, args := [offset, .inst 1] },
            { id := 4, op := .iAdd32, args := [offset, imm32 4] },
            { id := 5, op := .writeSharedU32, args := [.inst 4, .inst 2] }], none)
    | _, _ => none
  else none

/-! ### Memory

Accesses are aligned to their sizes, so the memory is one of halves of dwords.
-/

abbrev SharedMemory := ℕ → BitVec 16

def halfAt (offset : BitVec 32) : ℕ := offset.toNat / 2

namespace SharedMemory

variable (mem : SharedMemory)

def read32 (offset : BitVec 32) : BitVec 32 := mem (halfAt offset + 1) ++ mem (halfAt offset)

def read64 (offset : BitVec 32) : BitVec 64 :=
  (mem (halfAt offset + 3) ++ mem (halfAt offset + 2) : BitVec 32) ++
    (mem (halfAt offset + 1) ++ mem (halfAt offset) : BitVec 32)

def write16 (offset : BitVec 32) (x : BitVec 16) : SharedMemory :=
  Function.update mem (halfAt offset) x

def write32 (offset : BitVec 32) (x : BitVec 32) : SharedMemory :=
  Function.update (Function.update mem (halfAt offset) (x.extractLsb' 0 16)) (halfAt offset + 1)
    (x.extractLsb' 16 16)

/-- The low dword, then the high one. -/
def write64 (offset : BitVec 32) (x : BitVec 64) : SharedMemory :=
  fun h =>
    if h = halfAt offset then x.extractLsb' 0 16
    else if h = halfAt offset + 1 then x.extractLsb' 16 16
    else if h = halfAt offset + 2 then x.extractLsb' 32 16
    else if h = halfAt offset + 3 then x.extractLsb' 48 16
    else mem h

end SharedMemory

/-! ### Instructions -/

/-- A shared access with its operands: as one memory operation, with what it results in. -/
def perform (inst : Inst SharedValue) (mem : SharedMemory) :
    Option (Option SharedValue × SharedMemory) :=
  match inst.op, inst.args with
  | .loadSharedU16, [.imm (.u32 offset)] => some (some (.u16 (mem (halfAt offset))), mem)
  | .loadSharedU32, [.imm (.u32 offset)] => some (some (.u32 (mem.read32 offset)), mem)
  | .loadSharedU64, [.imm (.u32 offset)] => some (some (.u64 (mem.read64 offset)), mem)
  | .writeSharedU16, [.imm (.u32 offset), .imm (.u16 x)] => some (none, mem.write16 offset x)
  | .writeSharedU32, [.imm (.u32 offset), .imm (.u32 x)] => some (none, mem.write32 offset x)
  | .writeSharedU64, [.imm (.u32 offset), .imm (.u64 x)] => some (none, mem.write64 offset x)
  | _, _ => none

/-- What the other new instructions result in. -/
def evalOp (op : Opcode) (args : List SharedValue) : Option SharedValue :=
  match op, args with
  | .bitwiseAnd32, [.u32 x, .u32 y] => some (.u32 (x &&& y))
  | .iMul32, [.u32 x, .u32 y] => some (.u32 (x * y))
  | .iAdd32, [.u32 x, .u32 y] => some (.u32 (x + y))
  | .bitFieldUExtract, [.u32 base, .u32 offset, .u32 count] =>
      some (.u32 (BitField.uextract base offset.toNat count.toNat))
  | .bitFieldInsert, [.u32 base, .u32 insert, .u32 offset, .u32 count] =>
      some (.u32 (BitField.insert base insert offset.toNat count.toNat))
  | .convertU16U32, [.u32 x] => some (.u16 (x.setWidth 16))
  | .convertU32U16, [.u16 x] => some (.u32 (x.setWidth 32))
  | .compositeConstructU32x2, [.u32 x, .u32 y] => some (.u32x2 x y)
  | .compositeExtractU32x2, [.u32x2 x y, .u32 index] => some (.u32 (if index = 0 then x else y))
  | .packUint2x32, [.u32x2 x y] => some (.u64 (y ++ x))
  | .unpackUint2x32, [.u64 x] => some (.u32x2 (x.extractLsb' 0 32) (x.extractLsb' 32 32))
  | _, _ => none

/-- The memory operations of a list of instructions, one after another. -/
inductive Micro (σ : Type)
  | ret (s : σ)
  | load (offset : BitVec 32) (rest : BitVec 32 → Micro σ)
  | store (offset x : BitVec 32) (rest : Micro σ)
  | stuck

/-- Instructions that are executed, from the results so far. -/
def microOf {σ : Type} (finish : (ℕ → Option SharedValue) → Micro σ) :
    List (Inst SharedValue) → (ℕ → Option SharedValue) → Micro σ
  | [], results => finish results
  | inst :: rest, results =>
      let eval (value : Value SharedValue) : Option SharedValue :=
        match value with
        | .imm v => some v
        | .inst id => results id
      match inst.op, inst.args.mapM eval with
      | .loadSharedU32, some [.u32 offset] =>
          .load offset fun x =>
            microOf finish rest (Function.update results inst.id (some (.u32 x)))
      | .writeSharedU32, some [.u32 offset, .u32 x] => .store offset x (microOf finish rest results)
      | op, some args =>
          match evalOp op args with
          | some v => microOf finish rest (Function.update results inst.id (some v))
          | none => .stuck
      | _, none => .stuck

/-- What is executed in place of an instruction, up to where its invocation goes on. -/
def lowered {σ : Type} (new : List (Inst SharedValue)) (result : Option (Value SharedValue))
    (next : Option SharedValue → σ) : Micro σ :=
  microOf (fun results =>
    match result with
    | none => .ret (next none)
    | some (.imm v) => .ret (next (some v))
    | some (.inst id) =>
        match results id with
        | some v => .ret (next (some v))
        | none => .stuck) new fun _ => none

/-! ### Invocations -/

/-- What an invocation does next: an instruction without memory access, or an access with its
operands. -/
inductive Action (σ : Type)
  | done
  | local (s : σ)
  | access (inst : Inst SharedValue) (next : Option SharedValue → σ)

structure Workgroup (τ : Type) where
  mem : SharedMemory
  state : ℕ → τ

def originalStep {σ : Type} (behaviour : ℕ → σ → Action σ) (w : Workgroup σ) (n : ℕ) :
    Option (Workgroup σ) :=
  match behaviour n (w.state n) with
  | .done => none
  | .local s => some { w with state := Function.update w.state n s }
  | .access inst next =>
      (perform inst w.mem).map fun r =>
        { mem := r.2, state := Function.update w.state n (next r.1) }

/-- Between two instructions of the original program, or within what replaces one. -/
inductive Progress (σ : Type)
  | at (s : σ)
  | within (rest : Micro σ)

/-- A step of an invocation after the pass; each memory operation is one of its own. -/
def simplifiedStep {σ : Type} (info : SimplifyInfo) (behaviour : ℕ → σ → Action σ)
    (w : Workgroup (Progress σ)) (n : ℕ) : Option (Workgroup (Progress σ)) :=
  match w.state n with
  | .at s =>
      match behaviour n s with
      | .done => none
      | .local s' => some { w with state := Function.update w.state n (.at s') }
      | .access inst next =>
          match simplify info inst with
          | some (new, result) =>
              some { w with state := Function.update w.state n (.within (lowered new result next)) }
          | none =>
              (perform inst w.mem).map fun r =>
                { mem := r.2, state := Function.update w.state n (.at (next r.1)) }
  | .within (.ret s) => some { w with state := Function.update w.state n (.at s) }
  | .within (.load offset rest) =>
      some { w with state := Function.update w.state n (.within (rest (w.mem.read32 offset))) }
  | .within (.store offset x rest) =>
      some { mem := w.mem.write32 offset x, state := Function.update w.state n (.within rest) }
  | .within .stuck => none

end OrbitConsole.ShaderRecompiler
