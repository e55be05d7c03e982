import Mathlib.Algebra.Group.Nat.Defs
import OrbitConsole.Common.Machine
import OrbitConsole.ShaderRecompiler.Opcode

/-!
# Shared memory in a storage buffer

Where the shared memory of the host is too small, or its types cannot be mixed, the accesses to
shared memory become accesses to a storage buffer that has a part for each workgroup.
-/

namespace OrbitConsole.ShaderRecompiler

namespace SharedStorage

/-- What is loaded, stored or computed with. -/
inductive Width
  | u16 | u32 | u64
  deriving DecidableEq

def Width.shift : Width → ℕ
  | .u16 => 1
  | .u32 => 2
  | .u64 => 3

inductive Operation
  | load | store | atomicIAdd | atomicISub | atomicSMin | atomicUMin | atomicSMax | atomicUMax
  | atomicIIncrement | atomicIDecrement | atomicAnd | atomicOr | atomicXor
  deriving DecidableEq

/-- An instruction, with the value of its address in an invocation. -/
structure SharedInst where
  op : Opcode
  address : BitVec 32

/-! ### The pass -/

/-- The cases of `CalculateSharedMemoryTypes`, which are those of `IsSharedAccess`. -/
def sharedType : Opcode → Option Width
  | .loadSharedU16 | .writeSharedU16 => some .u16
  | .loadSharedU32 | .writeSharedU32 | .sharedAtomicIAdd32 | .sharedAtomicISub32
  | .sharedAtomicSMin32 | .sharedAtomicUMin32 | .sharedAtomicSMax32 | .sharedAtomicUMax32
  | .sharedAtomicInc32 | .sharedAtomicDec32 | .sharedAtomicAnd32 | .sharedAtomicOr32
  | .sharedAtomicXor32 => some .u32
  | .loadSharedU64 | .writeSharedU64 | .sharedAtomicIAdd64 | .sharedAtomicISub64
  | .sharedAtomicSMin64 | .sharedAtomicUMin64 | .sharedAtomicSMax64 | .sharedAtomicUMax64
  | .sharedAtomicInc64 | .sharedAtomicDec64 | .sharedAtomicAnd64 | .sharedAtomicOr64
  | .sharedAtomicXor64 => some .u64
  | _ => none

def isSharedAccess (op : Opcode) : Bool := (sharedType op).isSome

def calculateSharedMemoryTypes (program : List SharedInst) (width : Width) : Bool :=
  program.any fun inst => decide (sharedType inst.op = some width)

def bufferAtomicIAdd : Width → Exec Opcode
  | .u32 => .ok .bufferAtomicIAdd32
  | .u64 => .ok .bufferAtomicIAdd64
  | .u16 => .error (.assertion "Invalid type")

def bufferAtomicIMin (is_signed : Bool) : Width → Exec Opcode
  | .u32 => .ok (if is_signed then .bufferAtomicSMin32 else .bufferAtomicUMin32)
  | .u64 => .ok (if is_signed then .bufferAtomicSMin64 else .bufferAtomicUMin64)
  | .u16 => .error (.assertion "Invalid type")

def bufferAtomicIMax (is_signed : Bool) : Width → Exec Opcode
  | .u32 => .ok (if is_signed then .bufferAtomicSMax32 else .bufferAtomicUMax32)
  | .u64 => .ok (if is_signed then .bufferAtomicSMax64 else .bufferAtomicUMax64)
  | .u16 => .error (.assertion "Invalid type")

/-- The instruction in place of a shared access. The emitter has subtraction and the bitwise
operations with 32 bits only. -/
def replacement : Opcode → Exec Opcode
  | .sharedAtomicIAdd32 => bufferAtomicIAdd .u32
  | .sharedAtomicIAdd64 => bufferAtomicIAdd .u64
  | .sharedAtomicISub32 | .sharedAtomicISub64 => .ok .bufferAtomicISub32
  | .sharedAtomicSMin32 => bufferAtomicIMin true .u32
  | .sharedAtomicUMin32 => bufferAtomicIMin false .u32
  | .sharedAtomicSMin64 => bufferAtomicIMin true .u64
  | .sharedAtomicUMin64 => bufferAtomicIMin false .u64
  | .sharedAtomicSMax32 => bufferAtomicIMax true .u32
  | .sharedAtomicUMax32 => bufferAtomicIMax false .u32
  | .sharedAtomicSMax64 => bufferAtomicIMax true .u64
  | .sharedAtomicUMax64 => bufferAtomicIMax false .u64
  | .sharedAtomicInc32 => .ok .bufferAtomicInc32
  | .sharedAtomicDec32 => .ok .bufferAtomicDec32
  | .sharedAtomicAnd32 | .sharedAtomicAnd64 => .ok .bufferAtomicAnd32
  | .sharedAtomicOr32 | .sharedAtomicOr64 => .ok .bufferAtomicOr32
  | .sharedAtomicXor32 | .sharedAtomicXor64 => .ok .bufferAtomicXor32
  | .loadSharedU16 => .ok .loadBufferU16
  | .loadSharedU32 => .ok .loadBufferU32
  | .loadSharedU64 => .ok .loadBufferU64
  | .writeSharedU16 => .ok .storeBufferU16
  | .writeSharedU32 => .ok .storeBufferU32
  | .writeSharedU64 => .ok .storeBufferU64
  | _ => .error (.assertion "Unreachable code!")

def moveInst (shared_memory_size workgroupIndex : BitVec 32) (inst : SharedInst) :
    Exec SharedInst :=
  if isSharedAccess inst.op then do
    let offset := workgroupIndex * shared_memory_size
    let op ← replacement inst.op
    return { op := op, address := inst.address + offset }
  else .ok inst

structure Profile where
  max_shared_memory_size : BitVec 32
  supports_workgroup_explicit_memory_layout : Bool

def sharedMemoryToStoragePass (profile : Profile) (isCompute : Bool)
    (shared_memory_size workgroupIndex : BitVec 32) (program : List SharedInst) :
    Exec (List SharedInst) :=
  let used_types := [Width.u16, Width.u32, Width.u64].filter (calculateSharedMemoryTypes program)
  if ¬ isCompute ∨ used_types = [] ∨
      (shared_memory_size ≤ profile.max_shared_memory_size ∧
        (profile.supports_workgroup_explicit_memory_layout ∨ used_types.length = 1)) then
    .ok program
  else program.mapM (moveInst shared_memory_size workgroupIndex)

/-! ### What is emitted -/

structure Access where
  operation : Operation
  width : Width
  start : ℕ

def sharedOperation : Opcode → Option Operation
  | .loadSharedU16 | .loadSharedU32 | .loadSharedU64 => some .load
  | .writeSharedU16 | .writeSharedU32 | .writeSharedU64 => some .store
  | .sharedAtomicIAdd32 | .sharedAtomicIAdd64 => some .atomicIAdd
  | .sharedAtomicISub32 | .sharedAtomicISub64 => some .atomicISub
  | .sharedAtomicSMin32 | .sharedAtomicSMin64 => some .atomicSMin
  | .sharedAtomicUMin32 | .sharedAtomicUMin64 => some .atomicUMin
  | .sharedAtomicSMax32 | .sharedAtomicSMax64 => some .atomicSMax
  | .sharedAtomicUMax32 | .sharedAtomicUMax64 => some .atomicUMax
  | .sharedAtomicInc32 | .sharedAtomicInc64 => some .atomicIIncrement
  | .sharedAtomicDec32 | .sharedAtomicDec64 => some .atomicIDecrement
  | .sharedAtomicAnd32 | .sharedAtomicAnd64 => some .atomicAnd
  | .sharedAtomicOr32 | .sharedAtomicOr64 => some .atomicOr
  | .sharedAtomicXor32 | .sharedAtomicXor64 => some .atomicXor
  | _ => none

def emitShared (inst : SharedInst) : Option Access :=
  match sharedOperation inst.op, sharedType inst.op with
  | some operation, some width => some
      { operation := operation, width := width
        start := (inst.address >>> width.shift).toNat * 2 ^ width.shift }
  | _, _ => none

/-- The operation on the storage buffer and the alias of the buffer that it goes through. -/
def bufferOperation : Opcode → Option (Operation × Width)
  | .loadBufferU16 => some (.load, .u16)
  | .loadBufferU32 => some (.load, .u32)
  | .loadBufferU64 => some (.load, .u64)
  | .storeBufferU16 => some (.store, .u16)
  | .storeBufferU32 => some (.store, .u32)
  | .storeBufferU64 => some (.store, .u64)
  | .bufferAtomicIAdd32 => some (.atomicIAdd, .u32)
  | .bufferAtomicIAdd64 => some (.atomicIAdd, .u64)
  | .bufferAtomicISub32 => some (.atomicISub, .u32)
  | .bufferAtomicSMin32 => some (.atomicSMin, .u32)
  | .bufferAtomicSMin64 => some (.atomicSMin, .u64)
  | .bufferAtomicUMin32 => some (.atomicUMin, .u32)
  | .bufferAtomicUMin64 => some (.atomicUMin, .u64)
  | .bufferAtomicSMax32 => some (.atomicSMax, .u32)
  | .bufferAtomicSMax64 => some (.atomicSMax, .u64)
  | .bufferAtomicUMax32 => some (.atomicUMax, .u32)
  | .bufferAtomicUMax64 => some (.atomicUMax, .u64)
  | .bufferAtomicInc32 => some (.atomicIIncrement, .u32)
  | .bufferAtomicDec32 => some (.atomicIDecrement, .u32)
  | .bufferAtomicAnd32 => some (.atomicAnd, .u32)
  | .bufferAtomicOr32 => some (.atomicOr, .u32)
  | .bufferAtomicXor32 => some (.atomicXor, .u32)
  | _ => none

/-- An access to the storage buffer. The address is the index in the array of the alias, which
`DefineBuffers` defines with the stride of the type for each of the used types; a buffer of this
kind has no offset. -/
def emitBuffer (used_types : Width → Bool) (inst : SharedInst) : Option Access :=
  match bufferOperation inst.op with
  | some (operation, width) =>
      if used_types width then
        some { operation := operation, width := width
               start := inst.address.toNat * 2 ^ width.shift }
      else none
  | none => none

end SharedStorage

end OrbitConsole.ShaderRecompiler
