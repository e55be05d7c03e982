import OrbitConsole.Common.Machine
import OrbitConsole.ShaderRecompiler.Opcode

/-!
# Addresses of buffer accesses

A buffer access has an index, an offset register, a scalar offset and an immediate offset. When the
descriptor of the buffer is known, its address is emitted as one integer that counts elements of
the access.
-/

namespace OrbitConsole.ShaderRecompiler

namespace BufferAddress

/-! ### Descriptors and instructions -/

/-- The formats that fit the fields of four bits. -/
inductive DataFormat
  | formatInvalid | format8 | format16 | format8_8 | format32 | format16_16 | format10_11_11
  | format11_11_10 | format10_10_10_2 | format2_10_10_10 | format8_8_8_8 | format32_32
  | format16_16_16_16 | format32_32_32 | format32_32_32_32 | reserved
  deriving DecidableEq

def remapDataFormat : DataFormat → DataFormat
  | .format11_11_10 => .format10_11_11
  | .format10_10_10_2 => .format2_10_10_10
  | format => format

structure Buffer where
  stride : BitVec 14
  swizzle_enable : Bool
  data_format : DataFormat
  element_size : BitVec 2
  index_stride : BitVec 2
  add_tid_enable : Bool

namespace Buffer

def getDataFmt (buffer : Buffer) : DataFormat := remapDataFormat buffer.data_format

def getStride (buffer : Buffer) : BitVec 32 := buffer.stride.setWidth 32

def getIndexStride (buffer : Buffer) : BitVec 32 := 8#32 <<< buffer.index_stride.toNat

def getElementSize (buffer : Buffer) : BitVec 32 := 2#32 <<< buffer.element_size.toNat

end Buffer

inductive LogicalStage
  | fragment | tessellationControl | tessellationEval | vertex | geometry | compute
  deriving DecidableEq

/-- A value of 32 bits: an immediate, the result of an instruction from before, or one that is
emitted here. -/
inductive U32
  | imm (value : BitVec 32)
  | inst (id : ℕ)
  | laneId
  | iAdd (a b : U32)
  | iMul (a b : U32)
  | iDiv (a b : U32)
  | iMod (a b : U32)
  | shiftRightLogical (base shift : U32)

def U32.immediate? : U32 → Option (BitVec 32)
  | .imm value => some value
  | _ => none

/-- What the values are in a lane: the results of the instructions from before, and its number in
the wave. -/
structure Lane where
  results : ℕ → BitVec 32
  thread_id : BitVec 6

def U32.eval (lane : Lane) : U32 → BitVec 32
  | .imm value => value
  | .inst id => lane.results id
  | .laneId => lane.thread_id.setWidth 32
  | .iAdd a b => a.eval lane + b.eval lane
  | .iMul a b => a.eval lane * b.eval lane
  | .iDiv a b => a.eval lane / b.eval lane
  | .iMod a b => a.eval lane % b.eval lane
  | .shiftRightLogical base shift => base.eval lane >>> (shift.eval lane).toNat

/-- A buffer instruction: `BufferInstInfo` and the components of its address. -/
structure BufferInst where
  opcode : Opcode
  index_enable : Bool
  voffset_enable : Bool
  inst_offset : BitVec 12
  inst_data_fmt : DataFormat
  index : U32
  voffset : U32
  soffset : U32

/-! ### The address -/

def bufferAddressShift (opcode : Opcode) (data_format : DataFormat) : ℕ :=
  match opcode with
  | .loadBufferU8 | .storeBufferU8 => 0
  | .loadBufferU16 | .storeBufferU16 => 1
  | .loadBufferU64 | .storeBufferU64 | .bufferAtomicIAdd64 | .bufferAtomicSMax64
  | .bufferAtomicSMin64 | .bufferAtomicUMax64 | .bufferAtomicUMin64 => 3
  | .loadBufferFormatF32 | .storeBufferFormatF32 =>
      match data_format with
      | .format8 => 0
      | .format8_8 | .format16 => 1
      | .format8_8_8_8 | .format16_16 | .format10_11_11 | .format2_10_10_10
      | .format16_16_16_16 | .format32 | .format32_32 | .format32_32_32
      | .format32_32_32_32 => 2
      | _ => 0
  | .readConstBuffer => 0
  | _ => 2

section Address

variable (inst : BufferInst) (buffer : Buffer)

def dataFormat : DataFormat :=
  if inst.inst_data_fmt ≠ .formatInvalid then remapDataFormat inst.inst_data_fmt
  else buffer.getDataFmt

def shift : ℕ := bufferAddressShift inst.opcode (dataFormat inst buffer)

def mask : BitVec 32 := (1#32 <<< shift inst buffer) - 1#32

def instOffset : BitVec 32 := inst.inst_offset.setWidth 32

/-- The shift is applied directly where the address is `index * const_stride + offset` with a
constant offset, and the element size divides both. -/
def strengthReduced (stride : BitVec 32) : Option U32 :=
  match inst.soffset.immediate? with
  | none => none
  | some soffset =>
      if inst.index_enable ∧ ¬ inst.voffset_enable ∧ ¬ buffer.swizzle_enable ∧
          ¬ buffer.add_tid_enable ∧ stride &&& mask inst buffer = 0 then
        let total_offset := soffset + instOffset inst
        if total_offset &&& mask inst buffer = 0 then
          some (.iAdd (.iMul inst.index (.imm (stride >>> shift inst buffer)))
            (.imm (total_offset >>> shift inst buffer)))
        else none
      else none

def indexValue : U32 :=
  let index := .imm 0
  let index := if inst.index_enable then .iAdd index inst.index else index
  if buffer.add_tid_enable then .iAdd index .laneId else index

/-- `offset = (inst_offen ? vgpr_offset : 0) + inst_offset`, and the scalar offset with it. -/
def offsetValue : U32 :=
  let offset := .iAdd (.imm (instOffset inst)) inst.soffset
  if inst.voffset_enable then .iAdd offset inst.voffset else offset

def bufferOffset (stride : BitVec 32) : U32 :=
  let index := indexValue inst buffer
  let offset := offsetValue inst
  let const_stride := .imm stride
  if buffer.swizzle_enable then
    let const_index_stride := .imm buffer.getIndexStride
    let const_element_size := .imm buffer.getElementSize
    let index_msb := .iDiv index const_index_stride
    let index_lsb := .iMod index const_index_stride
    let offset_msb := .iDiv offset const_element_size
    let offset_lsb := .iMod offset const_element_size
    let buffer_offset_msb :=
      .iMul (.iAdd (.iMul index_msb const_stride) (.iMul offset_msb const_element_size))
        const_index_stride
    let buffer_offset_lsb := .iAdd (.iMul index_lsb const_element_size) offset_lsb
    .iAdd buffer_offset_msb buffer_offset_lsb
  else .iAdd (.iMul index const_stride) offset

def general (stride : BitVec 32) : U32 :=
  if shift inst buffer ≠ 0 then
    .shiftRightLogical (bufferOffset inst buffer stride) (.imm (shift inst buffer))
  else bufferOffset inst buffer stride

def calculateBufferAddress (l_stage : LogicalStage) (stride : BitVec 32) : Exec U32 :=
  match strengthReduced inst buffer stride with
  | some address => .ok address
  | none => do
      if buffer.add_tid_enable then
        assertMsg (l_stage = .compute)
          "Thread ID buffer addressing is not supported outside of compute."
      return general inst buffer stride

def patchBufferArgs (l_stage : LogicalStage) (address : U32) : Exec U32 :=
  if inst.opcode = .readConstBuffer then .ok address
  else calculateBufferAddress inst buffer l_stage buffer.getStride

end Address

/-! ### What an address counts -/

/-- `LoadBufferFormat` and `StoreBufferFormat`: the size of the elements that an access of the
format is made of. There is none for the other formats. -/
def formatElementBytes : DataFormat → Option ℕ
  | .format8 => some 1
  | .format8_8 | .format16 => some 2
  | .format8_8_8_8 | .format16_16 | .format10_11_11 | .format2_10_10_10 | .format16_16_16_16
  | .format32 | .format32_32 | .format32_32_32 | .format32_32_32_32 => some 4
  | _ => none

def elementBytes (inst : BufferInst) (buffer : Buffer) : Option ℕ :=
  match inst.opcode with
  | .loadBufferU8 | .storeBufferU8 => some 1
  | .loadBufferU16 | .storeBufferU16 => some 2
  | .loadBufferU64 | .storeBufferU64 | .bufferAtomicIAdd64 | .bufferAtomicSMax64
  | .bufferAtomicSMin64 | .bufferAtomicUMax64 | .bufferAtomicUMin64 => some 8
  | .loadBufferFormatF32 | .storeBufferFormatF32 => formatElementBytes (dataFormat inst buffer)
  | _ => some 4

end BufferAddress

end OrbitConsole.ShaderRecompiler
