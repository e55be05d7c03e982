import Mathlib.Data.Nat.Notation
import Mathlib.Logic.Function.Basic
import Mathlib.Tactic.Common

/-!
# The guest interpreter

One step of `CustomCPUTranslator` on the registers of the guest and the memory it
shares with the host. An access to the null pointer is a fault. The memory operands
and stack slots a step touches are recorded, so that their addresses can be
spoken of; reading the instruction itself is not recorded.
-/

namespace OrbitConsole.Cpu

abbrev Byte := BitVec 8
abbrev U64 := BitVec 64
abbrev Memory := U64 → Byte

def load (mem : Memory) (address : U64) : ℕ → U64
  | 0 => 0
  | n + 1 => (load mem (address + 1) n <<< 8) ||| (mem address).setWidth 64

def store (mem : Memory) (address : U64) : ℕ → U64 → Memory
  | 0, _ => mem
  | n + 1, value =>
      store (Function.update mem address (value.setWidth 8)) (address + 1) n (value >>> 8)

structure GuestRegisterContext where
  gpr : ℕ → U64
  rip : U64
  rflags : U64
  xmm : ℕ → ℕ → Byte

/-- Why a step does not continue. -/
inductive StepResult where
  | halt
  | unsupported
  | fault
  deriving DecidableEq

/-- The guest: its registers, the memory, and the operand addresses of the step so far. -/
structure Machine extends GuestRegisterContext where
  mem : Memory
  accesses : List U64

/-- A computation of a step. The state is only kept when the step continues. -/
abbrev StepM := Except StepResult

/-! ### Registers and flags -/

def flagCf : U64 := (1 : U64) <<< 0
def flagPf : U64 := (1 : U64) <<< 2
def flagZf : U64 := (1 : U64) <<< 6
def flagSf : U64 := (1 : U64) <<< 7
def flagOf : U64 := (1 : U64) <<< 11

def prefix66 : Byte := 0x66
def prefixF2 : Byte := 0xf2
def prefixF3 : Byte := 0xf3

def rspIndex : ℕ := 4
def rbpIndex : ℕ := 5

def widthMask (width : ℕ) : U64 := if 64 ≤ width then ~~~0 else ((1 : U64) <<< width) - 1

def signBit (width : ℕ) : U64 := (1 : U64) <<< (width - 1)

/-- The number of ones, `__builtin_popcountll`. -/
def popcount (value : U64) : ℕ := (List.range 64).countP fun i => value.getLsbD i

namespace Machine

def readGpr (m : Machine) (reg width : ℕ) : U64 :=
  if 16 ≤ reg then 0 else m.gpr reg &&& widthMask width

def writeGpr (m : Machine) (reg width : ℕ) (value : U64) : Machine :=
  if 16 ≤ reg then m
  else if width = 32 then
    { m with gpr := Function.update m.gpr reg ((value.setWidth 32).setWidth 64) }
  else { m with gpr := Function.update m.gpr reg (value &&& widthMask width) }

def setFlag (flag : U64) (cond : Bool) (rflags : U64) : U64 :=
  if cond then rflags ||| flag else rflags

def updateArithmeticFlags (m : Machine) (lhs rhs result : U64) (width : ℕ) (subtract : Bool) :
    Machine :=
  let mask := widthMask width
  let lhs := lhs &&& mask
  let rhs := rhs &&& mask
  let result := result &&& mask
  let rflags := m.rflags &&& ~~~(flagCf ||| flagPf ||| flagZf ||| flagSf ||| flagOf)
  let rflags := setFlag flagZf (result = 0) rflags
  let rflags := setFlag flagPf (popcount (result &&& 0xff) % 2 = 0) rflags
  let rflags := setFlag flagSf (result &&& signBit width ≠ 0) rflags
  if subtract then
    let rflags := setFlag flagCf (lhs < rhs) rflags
    let rflags := setFlag flagOf ((lhs ^^^ rhs) &&& (lhs ^^^ result) &&& signBit width ≠ 0) rflags
    { m with rflags := rflags }
  else
    let rflags := setFlag flagCf (result < lhs) rflags
    let rflags :=
      setFlag flagOf (~~~(lhs ^^^ rhs) &&& (lhs ^^^ result) &&& signBit width ≠ 0) rflags
    { m with rflags := rflags }

def updateLogicFlags (m : Machine) (result : U64) (width : ℕ) : Machine :=
  let result := result &&& widthMask width
  let rflags := m.rflags &&& ~~~(flagCf ||| flagPf ||| flagZf ||| flagSf ||| flagOf)
  let rflags := setFlag flagZf (result = 0) rflags
  let rflags := setFlag flagPf (popcount (result &&& 0xff) % 2 = 0) rflags
  let rflags := setFlag flagSf (result &&& signBit width ≠ 0) rflags
  { m with rflags := rflags }

def checkCondition (m : Machine) (condition : ℕ) : Bool :=
  let cf := m.rflags &&& flagCf ≠ 0
  let zf := m.rflags &&& flagZf ≠ 0
  let sf := m.rflags &&& flagSf ≠ 0
  let of := m.rflags &&& flagOf ≠ 0
  match condition with
  | 0x0 => of
  | 0x1 => !of
  | 0x2 => cf
  | 0x3 => !cf
  | 0x4 => zf
  | 0x5 => !zf
  | 0x6 => cf || zf
  | 0x7 => !cf && !zf
  | 0x8 => sf
  | 0x9 => !sf
  | 0xc => sf != of
  | 0xd => sf == of
  | 0xe => zf || (sf != of)
  | 0xf => !zf && (sf == of)
  | _ => false

/-! ### Memory -/

/-- Reading a part of the instruction. -/
def fetch (m : Machine) (address : U64) (size : ℕ) : StepM U64 :=
  if address = 0 then throw .fault else pure (load m.mem address size)

def fetch8 (m : Machine) (address : U64) : StepM Byte :=
  if address = 0 then throw .fault else pure (m.mem address)

def readMemory (m : Machine) (address : U64) (size : ℕ) : StepM (U64 × Machine) :=
  if address = 0 then throw .fault
  else pure (load m.mem address size, { m with accesses := address :: m.accesses })

def writeMemory (m : Machine) (address : U64) (size : ℕ) (value : U64) : StepM Machine :=
  if address = 0 then throw .fault
  else pure { m with mem := store m.mem address size value, accesses := address :: m.accesses }

def push64 (m : Machine) (value : U64) : StepM Machine :=
  let rsp := m.gpr rspIndex - 8
  writeMemory { m with gpr := Function.update m.gpr rspIndex rsp } rsp 8 value

def pop64 (m : Machine) : StepM (U64 × Machine) := do
  let (value, m) ← m.readMemory (m.gpr rspIndex) 8
  return (value, { m with gpr := Function.update m.gpr rspIndex (m.gpr rspIndex + 8) })

/-- `Pop64` into a register, which is written before the stack pointer moves. -/
def pop64Gpr (m : Machine) (reg : ℕ) : StepM Machine := do
  let (value, m) ← m.readMemory (m.gpr rspIndex) 8
  let gpr := Function.update m.gpr reg value
  return { m with gpr := Function.update gpr rspIndex (gpr rspIndex + 8) }

end Machine

/-! ### Operands -/

structure RexPrefix where
  w : Bool := false
  r : Bool := false
  x : Bool := false
  b : Bool := false
  deriving DecidableEq

def decodeRexPrefix (rex : Byte) : RexPrefix where
  w := rex &&& 0x08 ≠ 0
  r := rex &&& 0x04 ≠ 0
  x := rex &&& 0x02 ≠ 0
  b := rex &&& 0x01 ≠ 0

structure ModRm where
  mod : ℕ
  reg : ℕ
  rm : ℕ
  length : ℕ
  has_memory : Bool
  address : U64
  deriving DecidableEq

def extend (low : ℕ) (extension : Bool) : ℕ := if extension then low + 8 else low

/-- `DecodeModRm`: the displacement is read last, and the length counts from the ModRM byte. -/
def decodeModRm (m : Machine) (rip_after_modrm : U64) (rex : RexPrefix) : StepM ModRm := do
  let raw ← m.fetch8 (rip_after_modrm - 1)
  let mod := ((raw >>> 6) &&& 3).toNat
  let reg := extend ((raw >>> 3) &&& 7).toNat rex.r
  let rm := extend (raw &&& 7).toNat rex.b
  let low_rm := (raw &&& 7).toNat
  if mod = 3 then
    return { mod := mod, reg := reg, rm := rm, length := 1, has_memory := false, address := 0 }
  else do
    let (base, index, disp, cursor) ←
      if low_rm = 4 then do
        let sib ← m.fetch8 rip_after_modrm
        let cursor := rip_after_modrm + 1
        let scale : U64 := (1 : U64) <<< ((sib >>> 6) &&& 3).toNat
        let index_reg := extend ((sib >>> 3) &&& 7).toNat rex.x
        let base_reg := extend (sib &&& 7).toNat rex.b
        let index := if index_reg ≠ 4 then m.gpr index_reg * scale else 0
        if (sib &&& 7).toNat = 5 ∧ mod = 0 then do
          let disp ← m.fetch cursor 4
          pure ((0 : U64), index, (disp.setWidth 32).signExtend 64, cursor + 4)
        else pure (m.gpr base_reg, index, (0 : U64), cursor)
      else if low_rm = 5 ∧ mod = 0 then do
        let disp ← m.fetch rip_after_modrm 4
        let cursor := rip_after_modrm + 4
        pure (cursor, (0 : U64), (disp.setWidth 32).signExtend 64, cursor)
      else pure (m.gpr rm, (0 : U64), (0 : U64), rip_after_modrm)
    let (disp, cursor) ←
      if mod = 1 then do
        let disp ← m.fetch8 cursor
        pure (disp.signExtend 64, cursor + 1)
      else if mod = 2 then do
        let disp ← m.fetch cursor 4
        pure ((disp.setWidth 32).signExtend 64, cursor + 4)
      else pure (disp, cursor)
    return {
      mod := mod, reg := reg, rm := rm
      length := (cursor - (rip_after_modrm - 1)).toNat
      has_memory := true
      address := base + index + disp }

namespace Machine

/-- The value of the `r/m` operand. -/
def readRm (m : Machine) (modrm : ModRm) (width : ℕ) : StepM (U64 × Machine) :=
  if modrm.has_memory then m.readMemory modrm.address (width / 8)
  else pure (m.readGpr modrm.rm width, m)

def writeRm (m : Machine) (modrm : ModRm) (width : ℕ) (value : U64) : StepM Machine :=
  if modrm.has_memory then m.writeMemory modrm.address (width / 8) value
  else pure (m.writeGpr modrm.rm width value)

def setRip (m : Machine) (rip : U64) : Machine := { m with rip := rip }

/-! ### Arithmetic -/

/-- The instructions with a register and an `r/m` operand: the cases of `DecodeOneByte`, which
have 32-bit operands, and of `DecodeRex`. -/
def arithmetic (m : Machine) (op : Byte) (modrm : ModRm) (width : ℕ) : StepM Machine := do
  let (rm, m) ← m.readRm modrm width
  let reg := m.readGpr modrm.reg width
  let mask := widthMask width
  if op = 0x01 then do
    let result := (rm + reg) &&& mask
    let m ← m.writeRm modrm width result
    return m.updateArithmeticFlags rm reg result width false
  else if op = 0x03 then
    let result := (reg + rm) &&& mask
    return (m.writeGpr modrm.reg width result).updateArithmeticFlags reg rm result width false
  else if op = 0x29 then do
    let result := (rm - reg) &&& mask
    let m ← m.writeRm modrm width result
    return m.updateArithmeticFlags rm reg result width true
  else if op = 0x2b then
    let result := (reg - rm) &&& mask
    return (m.writeGpr modrm.reg width result).updateArithmeticFlags reg rm result width true
  else if op = 0x31 then do
    let result := (rm ^^^ reg) &&& mask
    let m ← m.writeRm modrm width result
    return m.updateLogicFlags result width
  else if op = 0x39 then
    return m.updateArithmeticFlags rm reg ((rm - reg) &&& mask) width true
  else if op = 0x3b then
    return m.updateArithmeticFlags reg rm ((reg - rm) &&& mask) width true
  else if op = 0x84 ∨ op = 0x85 then
    return m.updateLogicFlags (rm &&& reg) width
  else if op = 0x89 then m.writeRm modrm width reg
  else if op = 0x8b then return m.writeGpr modrm.reg width rm
  else return m

def groupImmediate (m : Machine) (op : Byte) (imm_offset : U64) : StepM (U64 × ℕ) :=
  if op = 0x81 then do
    let imm ← m.fetch imm_offset 4
    return ((imm.setWidth 32).signExtend 64, 4)
  else do
    let imm ← m.fetch8 imm_offset
    return (imm.signExtend 64, 1)

/-- The operations of `DecodeGroup1`. The flags are set before the result is written. -/
def group1 (m : Machine) (modrm : ModRm) (lhs rhs : U64) (width : ℕ) : StepM Machine :=
  let group := modrm.reg % 8
  let mask := widthMask width
  if group = 0 then
    let result := (lhs + rhs) &&& mask
    (m.updateArithmeticFlags lhs rhs result width false).writeRm modrm width result
  else if group = 1 then
    let result := (lhs ||| rhs) &&& mask
    (m.updateLogicFlags result width).writeRm modrm width result
  else if group = 4 then
    let result := (lhs &&& rhs) &&& mask
    (m.updateLogicFlags result width).writeRm modrm width result
  else if group = 5 then
    let result := (lhs - rhs) &&& mask
    (m.updateArithmeticFlags lhs rhs result width true).writeRm modrm width result
  else if group = 6 then
    let result := (lhs ^^^ rhs) &&& mask
    (m.updateLogicFlags result width).writeRm modrm width result
  else if group = 7 then
    let result := (lhs - rhs) &&& mask
    pure (m.updateArithmeticFlags lhs rhs result width true)
  else throw .unsupported

/-- `DecodeGroup1`: an operation with an immediate. The operand has been addressed before the
immediate is read. -/
def decodeGroup1 (m : Machine) (rex : Option Byte) (op : Byte) : StepM Machine := do
  let prefixes := (rex.map decodeRexPrefix).getD {}
  let opcode_rip := m.rip + (if rex.isSome then 1 else 0)
  let width := if prefixes.w then 64 else 32
  let modrm ← decodeModRm m (opcode_rip + 2) prefixes
  let imm_offset := opcode_rip + 1 + BitVec.ofNat 64 modrm.length
  let (imm, imm_size) ← m.groupImmediate op imm_offset
  let (lhs, m) ← m.readRm modrm width
  let m ← m.group1 modrm lhs (imm &&& widthMask width) width
  return m.setRip (opcode_rip + 1 + BitVec.ofNat 64 modrm.length + BitVec.ofNat 64 imm_size)

/-! ### Branches -/

def decodeJccShort (m : Machine) (op : Byte) : StepM Machine := do
  let rel ← m.fetch8 (m.rip + 1)
  let next := m.rip + 2
  return m.setRip (if m.checkCondition (op &&& 0xf).toNat then next + rel.signExtend 64 else next)

def decodeJccNear (m : Machine) (opcode_rip : U64) : StepM Machine := do
  let op2 ← m.fetch8 (opcode_rip + 1)
  if op2 < 0x80 ∨ 0x8f < op2 then throw .unsupported
  else do
    let rel ← m.fetch (opcode_rip + 2) 4
    let next := opcode_rip + 6
    return m.setRip (if m.checkCondition (op2 &&& 0xf).toNat then
      next + (rel.setWidth 32).signExtend 64 else next)

/-! ### Two-byte opcodes -/

/-- `ReadXmmOperand`: the first `size` bytes, in an array that is zero behind them. -/
def readXmmOperand (m : Machine) (modrm : ModRm) (size : ℕ) : StepM ((ℕ → Byte) × Machine) :=
  if modrm.has_memory then
    if modrm.address = 0 then throw .fault
    else
      pure (fun i => if i < size then m.mem (modrm.address + BitVec.ofNat 64 i) else 0,
        { m with accesses := modrm.address :: m.accesses })
  else if 16 ≤ modrm.rm then throw .fault
  else pure (fun i => if i < size then m.xmm modrm.rm i else 0, m)

def writeXmmOperand (m : Machine) (modrm : ModRm) (value : ℕ → Byte) (size : ℕ) :
    StepM Machine :=
  if modrm.has_memory then
    if modrm.address = 0 then throw .fault
    else
      pure { m with
        mem := fun a => if (a - modrm.address).toNat < size then value (a - modrm.address).toNat
          else m.mem a
        accesses := modrm.address :: m.accesses }
  else if 16 ≤ modrm.rm then throw .fault
  else pure { m with
    xmm := Function.update m.xmm modrm.rm fun i => if i < size then value i else m.xmm modrm.rm i }

def setXmm (m : Machine) (reg : ℕ) (value : ℕ → Byte) : Machine :=
  { m with xmm := Function.update m.xmm reg value }

/-- The bytes a move transfers: all of an aligned one, `vector_size` otherwise. -/
def transferSize (op2 pre : Byte) : ℕ :=
  if op2 = 0x28 ∨ op2 = 0x6f ∨ op2 = 0x29 ∨ op2 = 0x7f then 16
  else if pre = prefixF3 then 4
  else if pre = prefixF2 then 8
  else 16

def xmmMove (m : Machine) (op2 pre : Byte) (modrm : ModRm) (rip : U64) : StepM Machine := do
  let size := transferSize op2 pre
  if op2 = 0x57 ∨ op2 = 0xef then
    if op2 = 0xef ∧ pre ≠ prefix66 then throw .unsupported
    else do
      let (tmp, m) ← m.readXmmOperand modrm 16
      let m := m.setXmm modrm.reg fun i => m.xmm modrm.reg i ^^^ tmp i
      return m.setRip rip
  else if op2 = 0x10 ∨ op2 = 0x28 ∨ op2 = 0x6f then
    if op2 = 0x6f ∧ pre ≠ prefix66 then throw .unsupported
    else do
      let (tmp, m) ← m.readXmmOperand modrm size
      let m := m.setXmm modrm.reg fun i => if i < size then tmp i else m.xmm modrm.reg i
      return m.setRip rip
  else if op2 = 0x7f ∧ pre ≠ prefix66 then throw .unsupported
  else do
    let m ← m.writeXmmOperand modrm (m.xmm modrm.reg) size
    return m.setRip rip

def isXmmMove (op2 : Byte) : Bool :=
  op2 = 0x10 || op2 = 0x11 || op2 = 0x28 || op2 = 0x29 || op2 = 0x6f || op2 = 0x7f ||
    op2 = 0x57 || op2 = 0xef

def decodeTwoByte (m : Machine) (opcode_rip : U64) (pre : Byte) (rex : Option Byte) :
    StepM Machine := do
  let prefixes := (rex.map decodeRexPrefix).getD {}
  let op2 ← m.fetch8 (opcode_rip + 1)
  if 0x80 ≤ op2 ∧ op2 ≤ 0x8f then m.decodeJccNear opcode_rip
  -- system calls and `ud2` suspend the guest
  else if op2 = 0x05 ∨ op2 = 0x0b then throw .unsupported
  else if op2 = 0x1f then do
    let modrm ← decodeModRm m (opcode_rip + 3) prefixes
    return m.setRip (opcode_rip + 2 + BitVec.ofNat 64 modrm.length)
  else if isXmmMove op2 then do
    let modrm ← decodeModRm m (opcode_rip + 3) prefixes
    m.xmmMove op2 pre modrm (opcode_rip + 2 + BitVec.ofNat 64 modrm.length)
  else throw .unsupported

/-! ### One-byte opcodes -/

/-- The opcodes of `DecodeOneByte` that share the decoding of two 32-bit operands. -/
def isArithmetic (op : Byte) : Bool :=
  op = 0x01 || op = 0x03 || op = 0x29 || op = 0x2b || op = 0x31 || op = 0x39 || op = 0x3b

def decodeOneByte (m : Machine) (op : Byte) : StepM Machine := do
  let rip := m.rip
  if op = 0x0f then m.decodeTwoByte rip 0 none
  else if isArithmetic op then do
    let modrm ← decodeModRm m (rip + 2) {}
    let m ← m.arithmetic op modrm 32
    return m.setRip (rip + 1 + BitVec.ofNat 64 modrm.length)
  else if 0x50 ≤ op ∧ op ≤ 0x57 then do
    let m ← m.push64 (m.gpr (op - 0x50).toNat)
    return m.setRip (rip + 1)
  else if 0x58 ≤ op ∧ op ≤ 0x5f then do
    let m ← m.pop64Gpr (op - 0x58).toNat
    return m.setRip (rip + 1)
  else if op = 0x68 then do
    let imm ← m.fetch (rip + 1) 4
    let m ← m.push64 ((imm.setWidth 32).signExtend 64)
    return m.setRip (rip + 5)
  else if op = 0x6a then do
    let imm ← m.fetch8 (rip + 1)
    let m ← m.push64 (imm.signExtend 64)
    return m.setRip (rip + 2)
  else if op = 0x89 then do
    let modrm ← decodeModRm m (rip + 2) {}
    let m ← m.writeRm modrm 32 (m.readGpr modrm.reg 32)
    return m.setRip (rip + 1 + BitVec.ofNat 64 modrm.length)
  else if op = 0x8b then do
    let modrm ← decodeModRm m (rip + 2) {}
    let (value, m) ← m.readRm modrm 32
    return (m.writeGpr modrm.reg 32 value).setRip (rip + 1 + BitVec.ofNat 64 modrm.length)
  else if op = 0x8d then do
    let modrm ← decodeModRm m (rip + 2) {}
    if modrm.has_memory = false then throw .fault
    else
      let m := m.writeGpr modrm.reg 32 modrm.address
      return m.setRip (rip + 1 + BitVec.ofNat 64 modrm.length)
  else if op = 0x90 then return m.setRip (rip + 1)
  else if 0xb8 ≤ op ∧ op ≤ 0xbf then do
    let imm ← m.fetch (rip + 1) 4
    return (m.writeGpr (op - 0xb8).toNat 32 imm).setRip (rip + 5)
  else if op = 0xc3 then do
    let (target, m) ← m.pop64
    if target = 0 then throw .halt else return m.setRip target
  else if op = 0xc7 then do
    let modrm ← decodeModRm m (rip + 2) {}
    if modrm.reg ≠ 0 then throw .fault
    else do
      let imm ← m.fetch (rip + 1 + BitVec.ofNat 64 modrm.length) 4
      let m ← m.writeRm modrm 32 imm
      return m.setRip (rip + (5 + BitVec.ofNat 64 modrm.length))
  else if op = 0xc2 then do
    let stack_pop ← m.fetch (rip + 1) 2
    let (target, m) ← m.pop64
    let m := { m with
      gpr := Function.update m.gpr rspIndex (m.gpr rspIndex + stack_pop) }
    if target = 0 then throw .halt else return m.setRip target
  else if op = 0xc9 then do
    let m := { m with gpr := Function.update m.gpr rspIndex (m.gpr rbpIndex) }
    let (rbp, m) ← m.pop64
    return { m with gpr := Function.update m.gpr rbpIndex rbp, rip := rip + 1 }
  else if op = 0xcc ∨ op = 0xf4 then throw .halt
  else if op = 0xe8 then do
    let rel ← m.fetch (rip + 1) 4
    let m ← m.push64 (rip + 5)
    return m.setRip (rip + 5 + (rel.setWidth 32).signExtend 64)
  else if op = 0xe9 then do
    let rel ← m.fetch (rip + 1) 4
    return m.setRip (rip + 5 + (rel.setWidth 32).signExtend 64)
  else if op = 0xeb then do
    let rel ← m.fetch8 (rip + 1)
    return m.setRip (rip + 2 + rel.signExtend 64)
  else if op = 0x81 ∨ op = 0x83 then m.decodeGroup1 none op
  else if op = 0x84 ∨ op = 0x85 then do
    let modrm ← decodeModRm m (rip + 2) {}
    let m ← m.arithmetic op modrm (if op = 0x84 then 8 else 32)
    return m.setRip (rip + 1 + BitVec.ofNat 64 modrm.length)
  else throw .unsupported

/-! ### Prefixes -/

def isRexArithmetic (op : Byte) : Bool :=
  isArithmetic op || op = 0x85 || op = 0x89 || op = 0x8b

def decodeRex (m : Machine) (rex_byte : Byte) : StepM Machine := do
  let rex := decodeRexPrefix rex_byte
  let rip := m.rip
  let op ← m.fetch8 (rip + 1)
  let width := if rex.w then 64 else 32
  if op = 0x0f then m.decodeTwoByte (rip + 1) 0 (some rex_byte)
  else if 0xb8 ≤ op ∧ op ≤ 0xbf then
    let reg := extend (op - 0xb8).toNat rex.b
    if rex.w then do
      let imm ← m.fetch (rip + 2) 8
      return (m.writeGpr reg 64 imm).setRip (rip + 10)
    else do
      let imm ← m.fetch (rip + 2) 4
      return (m.writeGpr reg 32 imm).setRip (rip + 6)
  else if op = 0x8d then do
    let modrm ← decodeModRm m (rip + 3) rex
    if modrm.has_memory = false then throw .fault
    else
      let m := m.writeGpr modrm.reg width modrm.address
      return m.setRip (rip + 2 + BitVec.ofNat 64 modrm.length)
  else if isRexArithmetic op then do
    let modrm ← decodeModRm m (rip + 3) rex
    let m ← m.arithmetic op modrm width
    return m.setRip (rip + 2 + BitVec.ofNat 64 modrm.length)
  else if op = 0x81 ∨ op = 0x83 then m.decodeGroup1 (some rex_byte) op
  else if 0x50 ≤ op ∧ op ≤ 0x57 then do
    let m ← m.push64 (m.gpr (extend (op &&& 7).toNat rex.b))
    return m.setRip (rip + 2)
  else if 0x58 ≤ op ∧ op ≤ 0x5f then do
    let m ← m.pop64Gpr (extend (op &&& 7).toNat rex.b)
    return m.setRip (rip + 2)
  else throw .unsupported

def decodePrefixed (m : Machine) (pre : Byte) : StepM Machine := do
  let op ← m.fetch8 (m.rip + 1)
  let (rex, op, cursor) ←
    if 0x40 ≤ op ∧ op ≤ 0x4f then do
      let next ← m.fetch8 (m.rip + 2)
      pure (some op, next, m.rip + 2)
    else pure (none, op, m.rip + 1)
  if op = 0x0f then m.decodeTwoByte cursor pre rex
  -- a repeated no-operation is a pause
  else if pre = prefixF3 ∧ op = 0x90 then return m.setRip (cursor + 1)
  else throw .unsupported

/-- `CustomCPUTranslator::Step`, when it continues. -/
def step (m : Machine) : StepM Machine := do
  let m := { m with accesses := [] }
  let op ← m.fetch8 m.rip
  if 0x70 ≤ op ∧ op ≤ 0x7f then m.decodeJccShort op
  else if 0x40 ≤ op ∧ op ≤ 0x4f then m.decodeRex op
  else if op = prefix66 ∨ op = prefixF2 ∨ op = prefixF3 then m.decodePrefixed op
  else m.decodeOneByte op

end Machine

end OrbitConsole.Cpu
