import OrbitConsole.Core.Cpu.Addressing

/-!
# What a step that stops leaves behind

The decoders once more, with the state at every place where they stop, and the flags that
they set there. `forget` takes that state away again, and gives the step back.
-/

namespace OrbitConsole.Cpu

structure Stop where
  result : StepResult
  after : Machine
  halted : Bool := false
  suspended : Bool := false

abbrev KeepM := Except Stop

/-- An access that may fail in the state `m`. -/
def keep {α : Type} (m : Machine) (x : StepM α) : KeepM α :=
  match x with
  | .ok a => .ok a
  | .error e => .error { result := e, after := m }

def stop {α : Type} (m : Machine) (e : StepResult) : KeepM α :=
  .error { result := e, after := m }

/-- The step without the state that it leaves when it stops. -/
def forget {α : Type} (x : KeepM α) : StepM α :=
  match x with
  | .ok a => .ok a
  | .error s => .error s.result

namespace Kept

def push64 (m : Machine) (value : U64) : KeepM Machine :=
  let rsp := m.gpr rspIndex - 8
  let m := { m with gpr := Function.update m.gpr rspIndex rsp }
  keep m (m.writeMemory rsp 8 value)

def pop64 (m : Machine) : KeepM (U64 × Machine) := do
  let (value, m) ← keep m (m.readMemory (m.gpr rspIndex) 8)
  return (value, { m with gpr := Function.update m.gpr rspIndex (m.gpr rspIndex + 8) })

def pop64Gpr (m : Machine) (reg : ℕ) : KeepM Machine := do
  let (value, m) ← keep m (m.readMemory (m.gpr rspIndex) 8)
  let gpr := Function.update m.gpr reg value
  return { m with gpr := Function.update gpr rspIndex (gpr rspIndex + 8) }

/-- The instructions with a register and an `r/m` operand: the cases of `DecodeOneByte`, which
have 32-bit operands, and of `DecodeRex`. -/
def arithmetic (m : Machine) (op : Byte) (modrm : ModRm) (width : ℕ) : KeepM Machine := do
  let (rm, m) ← keep m (m.readRm modrm width)
  let reg := m.readGpr modrm.reg width
  let mask := widthMask width
  if op = 0x01 then do
    let result := (rm + reg) &&& mask
    let m ← keep m (m.writeRm modrm width result)
    return m.updateArithmeticFlags rm reg result width false
  else if op = 0x03 then
    let result := (reg + rm) &&& mask
    return (m.writeGpr modrm.reg width result).updateArithmeticFlags reg rm result width false
  else if op = 0x29 then do
    let result := (rm - reg) &&& mask
    let m ← keep m (m.writeRm modrm width result)
    return m.updateArithmeticFlags rm reg result width true
  else if op = 0x2b then
    let result := (reg - rm) &&& mask
    return (m.writeGpr modrm.reg width result).updateArithmeticFlags reg rm result width true
  else if op = 0x31 then do
    let result := (rm ^^^ reg) &&& mask
    let m ← keep m (m.writeRm modrm width result)
    return m.updateLogicFlags result width
  else if op = 0x39 then
    return m.updateArithmeticFlags rm reg ((rm - reg) &&& mask) width true
  else if op = 0x3b then
    return m.updateArithmeticFlags reg rm ((reg - rm) &&& mask) width true
  else if op = 0x84 ∨ op = 0x85 then
    return m.updateLogicFlags (rm &&& reg) width
  else if op = 0x89 then keep m (m.writeRm modrm width reg)
  else if op = 0x8b then return m.writeGpr modrm.reg width rm
  else return m

/-- The operations of `DecodeGroup1`. The flags are set before the result is written. -/
def group1 (m : Machine) (modrm : ModRm) (lhs rhs : U64) (width : ℕ) : KeepM Machine :=
  let group := modrm.reg % 8
  let mask := widthMask width
  if group = 0 then
    let result := (lhs + rhs) &&& mask
    let m := m.updateArithmeticFlags lhs rhs result width false
    keep m (m.writeRm modrm width result)
  else if group = 1 then
    let result := (lhs ||| rhs) &&& mask
    let m := m.updateLogicFlags result width
    keep m (m.writeRm modrm width result)
  else if group = 4 then
    let result := (lhs &&& rhs) &&& mask
    let m := m.updateLogicFlags result width
    keep m (m.writeRm modrm width result)
  else if group = 5 then
    let result := (lhs - rhs) &&& mask
    let m := m.updateArithmeticFlags lhs rhs result width true
    keep m (m.writeRm modrm width result)
  else if group = 6 then
    let result := (lhs ^^^ rhs) &&& mask
    let m := m.updateLogicFlags result width
    keep m (m.writeRm modrm width result)
  else if group = 7 then
    let result := (lhs - rhs) &&& mask
    pure (m.updateArithmeticFlags lhs rhs result width true)
  else stop m .unsupported

/-- `DecodeGroup1`: an operation with an immediate. The operand has been addressed before the
immediate is read. -/
def decodeGroup1 (m : Machine) (rex : Option Byte) (op : Byte) : KeepM Machine := do
  let prefixes := (rex.map decodeRexPrefix).getD {}
  let opcode_rip := m.rip + (if rex.isSome then 1 else 0)
  let width := if prefixes.w then 64 else 32
  let modrm ← keep m (decodeModRm m (opcode_rip + 2) prefixes)
  let imm_offset := opcode_rip + 1 + BitVec.ofNat 64 modrm.length
  let (imm, imm_size) ← keep m (m.groupImmediate op imm_offset)
  let (lhs, m) ← keep m (m.readRm modrm width)
  let m ← group1 m modrm lhs (imm &&& widthMask width) width
  return m.setRip (opcode_rip + 1 + BitVec.ofNat 64 modrm.length + BitVec.ofNat 64 imm_size)

def decodeJccShort (m : Machine) (op : Byte) : KeepM Machine := do
  let rel ← keep m (m.fetch8 (m.rip + 1))
  let next := m.rip + 2
  return m.setRip (if m.checkCondition (op &&& 0xf).toNat then next + rel.signExtend 64 else next)

def decodeJccNear (m : Machine) (opcode_rip : U64) : KeepM Machine := do
  let op2 ← keep m (m.fetch8 (opcode_rip + 1))
  if op2 < 0x80 ∨ 0x8f < op2 then stop m .unsupported
  else do
    let rel ← keep m (m.fetch (opcode_rip + 2) 4)
    let next := opcode_rip + 6
    return m.setRip (if m.checkCondition (op2 &&& 0xf).toNat then
      next + (rel.setWidth 32).signExtend 64 else next)

def xmmMove (m : Machine) (op2 pre : Byte) (modrm : ModRm) (rip : U64) : KeepM Machine := do
  let size := Machine.transferSize op2 pre
  if op2 = 0x57 ∨ op2 = 0xef then
    if op2 = 0xef ∧ pre ≠ prefix66 then stop m .unsupported
    else do
      let (tmp, m) ← keep m (m.readXmmOperand modrm 16)
      let m := m.setXmm modrm.reg fun i => m.xmm modrm.reg i ^^^ tmp i
      return m.setRip rip
  else if op2 = 0x10 ∨ op2 = 0x28 ∨ op2 = 0x6f then
    if op2 = 0x6f ∧ pre ≠ prefix66 then stop m .unsupported
    else do
      let (tmp, m) ← keep m (m.readXmmOperand modrm size)
      let m := m.setXmm modrm.reg fun i => if i < size then tmp i else m.xmm modrm.reg i
      return m.setRip rip
  else if op2 = 0x7f ∧ pre ≠ prefix66 then stop m .unsupported
  else do
    let m ← keep m (m.writeXmmOperand modrm (m.xmm modrm.reg) size)
    return m.setRip rip

def decodeTwoByte (m : Machine) (opcode_rip : U64) (pre : Byte) (rex : Option Byte) :
    KeepM Machine := do
  let prefixes := (rex.map decodeRexPrefix).getD {}
  let op2 ← keep m (m.fetch8 (opcode_rip + 1))
  if 0x80 ≤ op2 ∧ op2 ≤ 0x8f then decodeJccNear m opcode_rip
  -- system calls and `ud2` suspend the guest
  else if op2 = 0x05 ∨ op2 = 0x0b then
    .error { result := .unsupported, after := m, suspended := true }
  else if op2 = 0x1f then do
    let modrm ← keep m (decodeModRm m (opcode_rip + 3) prefixes)
    return m.setRip (opcode_rip + 2 + BitVec.ofNat 64 modrm.length)
  else if Machine.isXmmMove op2 then do
    let modrm ← keep m (decodeModRm m (opcode_rip + 3) prefixes)
    xmmMove m op2 pre modrm (opcode_rip + 2 + BitVec.ofNat 64 modrm.length)
  else stop m .unsupported

def decodeOneByte (m : Machine) (op : Byte) : KeepM Machine := do
  let rip := m.rip
  if op = 0x0f then decodeTwoByte m rip 0 none
  else if Machine.isArithmetic op then do
    let modrm ← keep m (decodeModRm m (rip + 2) {})
    let m ← arithmetic m op modrm 32
    return m.setRip (rip + 1 + BitVec.ofNat 64 modrm.length)
  else if 0x50 ≤ op ∧ op ≤ 0x57 then do
    let m ← push64 m (m.gpr (op - 0x50).toNat)
    return m.setRip (rip + 1)
  else if 0x58 ≤ op ∧ op ≤ 0x5f then do
    let m ← pop64Gpr m (op - 0x58).toNat
    return m.setRip (rip + 1)
  else if op = 0x68 then do
    let imm ← keep m (m.fetch (rip + 1) 4)
    let m ← push64 m ((imm.setWidth 32).signExtend 64)
    return m.setRip (rip + 5)
  else if op = 0x6a then do
    let imm ← keep m (m.fetch8 (rip + 1))
    let m ← push64 m (imm.signExtend 64)
    return m.setRip (rip + 2)
  else if op = 0x89 then do
    let modrm ← keep m (decodeModRm m (rip + 2) {})
    let m ← keep m (m.writeRm modrm 32 (m.readGpr modrm.reg 32))
    return m.setRip (rip + 1 + BitVec.ofNat 64 modrm.length)
  else if op = 0x8b then do
    let modrm ← keep m (decodeModRm m (rip + 2) {})
    let (value, m) ← keep m (m.readRm modrm 32)
    return (m.writeGpr modrm.reg 32 value).setRip (rip + 1 + BitVec.ofNat 64 modrm.length)
  else if op = 0x8d then do
    let modrm ← keep m (decodeModRm m (rip + 2) {})
    if modrm.has_memory = false then stop m .fault
    else
      let m := m.writeGpr modrm.reg 32 modrm.address
      return m.setRip (rip + 1 + BitVec.ofNat 64 modrm.length)
  else if op = 0x90 then return m.setRip (rip + 1)
  else if 0xb8 ≤ op ∧ op ≤ 0xbf then do
    let imm ← keep m (m.fetch (rip + 1) 4)
    return (m.writeGpr (op - 0xb8).toNat 32 imm).setRip (rip + 5)
  else if op = 0xc3 then do
    let (target, m) ← pop64 m
    if target = 0 then stop (m.setRip target) .halt else return m.setRip target
  else if op = 0xc7 then do
    let modrm ← keep m (decodeModRm m (rip + 2) {})
    if modrm.reg ≠ 0 then stop m .fault
    else do
      let imm ← keep m (m.fetch (rip + 1 + BitVec.ofNat 64 modrm.length) 4)
      let m ← keep m (m.writeRm modrm 32 imm)
      return m.setRip (rip + (5 + BitVec.ofNat 64 modrm.length))
  else if op = 0xc2 then do
    let stack_pop ← keep m (m.fetch (rip + 1) 2)
    let (target, m) ← pop64 m
    let m := { m with
      gpr := Function.update m.gpr rspIndex (m.gpr rspIndex + stack_pop) }
    if target = 0 then stop (m.setRip target) .halt else return m.setRip target
  else if op = 0xc9 then do
    let m := { m with gpr := Function.update m.gpr rspIndex (m.gpr rbpIndex) }
    let (rbp, m) ← pop64 m
    return { m with gpr := Function.update m.gpr rbpIndex rbp, rip := rip + 1 }
  else if op = 0xcc ∨ op = 0xf4 then
    .error { result := .halt, after := m.setRip (rip + 1), halted := true }
  else if op = 0xe8 then do
    let rel ← keep m (m.fetch (rip + 1) 4)
    let m ← push64 m (rip + 5)
    return m.setRip (rip + 5 + (rel.setWidth 32).signExtend 64)
  else if op = 0xe9 then do
    let rel ← keep m (m.fetch (rip + 1) 4)
    return m.setRip (rip + 5 + (rel.setWidth 32).signExtend 64)
  else if op = 0xeb then do
    let rel ← keep m (m.fetch8 (rip + 1))
    return m.setRip (rip + 2 + rel.signExtend 64)
  else if op = 0x81 ∨ op = 0x83 then decodeGroup1 m none op
  else if op = 0x84 ∨ op = 0x85 then do
    let modrm ← keep m (decodeModRm m (rip + 2) {})
    let m ← arithmetic m op modrm (if op = 0x84 then 8 else 32)
    return m.setRip (rip + 1 + BitVec.ofNat 64 modrm.length)
  else stop m .unsupported

def decodeRex (m : Machine) (rex_byte : Byte) : KeepM Machine := do
  let rex := decodeRexPrefix rex_byte
  let rip := m.rip
  let op ← keep m (m.fetch8 (rip + 1))
  let width := if rex.w then 64 else 32
  if op = 0x0f then decodeTwoByte m (rip + 1) 0 (some rex_byte)
  else if 0xb8 ≤ op ∧ op ≤ 0xbf then
    let reg := extend (op - 0xb8).toNat rex.b
    if rex.w then do
      let imm ← keep m (m.fetch (rip + 2) 8)
      return (m.writeGpr reg 64 imm).setRip (rip + 10)
    else do
      let imm ← keep m (m.fetch (rip + 2) 4)
      return (m.writeGpr reg 32 imm).setRip (rip + 6)
  else if op = 0x8d then do
    let modrm ← keep m (decodeModRm m (rip + 3) rex)
    if modrm.has_memory = false then stop m .fault
    else
      let m := m.writeGpr modrm.reg width modrm.address
      return m.setRip (rip + 2 + BitVec.ofNat 64 modrm.length)
  else if Machine.isRexArithmetic op then do
    let modrm ← keep m (decodeModRm m (rip + 3) rex)
    let m ← arithmetic m op modrm width
    return m.setRip (rip + 2 + BitVec.ofNat 64 modrm.length)
  else if op = 0x81 ∨ op = 0x83 then decodeGroup1 m (some rex_byte) op
  else if 0x50 ≤ op ∧ op ≤ 0x57 then do
    let m ← push64 m (m.gpr (extend (op &&& 7).toNat rex.b))
    return m.setRip (rip + 2)
  else if 0x58 ≤ op ∧ op ≤ 0x5f then do
    let m ← pop64Gpr m (extend (op &&& 7).toNat rex.b)
    return m.setRip (rip + 2)
  else stop m .unsupported

def decodePrefixed (m : Machine) (pre : Byte) : KeepM Machine := do
  let op ← keep m (m.fetch8 (m.rip + 1))
  let (rex, op, cursor) ←
    if 0x40 ≤ op ∧ op ≤ 0x4f then do
      let next ← keep m (m.fetch8 (m.rip + 2))
      pure (some op, next, m.rip + 2)
    else pure (none, op, m.rip + 1)
  if op = 0x0f then decodeTwoByte m cursor pre rex
  -- a repeated no-operation is a pause
  else if pre = prefixF3 ∧ op = 0x90 then return m.setRip (cursor + 1)
  else stop m .unsupported

def step (m : Machine) : KeepM Machine := do
  let m := resetAccesses m
  let op ← keep m (m.fetch8 m.rip)
  if 0x70 ≤ op ∧ op ≤ 0x7f then decodeJccShort m op
  else if 0x40 ≤ op ∧ op ≤ 0x4f then decodeRex m op
  else if op = prefix66 ∨ op = prefixF2 ∨ op = prefixF3 then decodePrefixed m op
  else decodeOneByte m op

section Forget

variable {α β : Type} {m : Machine}

@[simp] theorem forget_pure (a : α) : forget (pure a : KeepM α) = pure a := rfl

@[simp] theorem forget_keep (m : Machine) (x : StepM α) : forget (keep m x) = x := by
  cases x <;> rfl

@[simp] theorem forget_stop (m : Machine) (e : StepResult) :
    forget (stop m e : KeepM α) = throw e := rfl

@[simp] theorem forget_bind (x : KeepM α) (f : α → KeepM β) :
    forget (x >>= f) = forget x >>= fun a => forget (f a) := by
  cases x <;> rfl

@[simp] theorem forget_ite (c : Prop) [Decidable c] (x y : KeepM α) :
    forget (if c then x else y) = if c then forget x else forget y := by
  split <;> rfl

@[simp] theorem forget_push64 (m : Machine) (value : U64) :
    forget (push64 m value) = m.push64 value := forget_keep _ _

@[simp] theorem forget_pop64 (m : Machine) : forget (pop64 m) = m.pop64 := by
  simp only [pop64, Machine.pop64, forget_bind, forget_keep, forget_pure]

@[simp] theorem forget_pop64Gpr (m : Machine) (reg : ℕ) :
    forget (pop64Gpr m reg) = m.pop64Gpr reg := by
  simp only [pop64Gpr, Machine.pop64Gpr, forget_bind, forget_keep, forget_pure]

@[simp] theorem forget_arithmetic (m : Machine) (op : Byte) (modrm : ModRm) (width : ℕ) :
    forget (arithmetic m op modrm width) = m.arithmetic op modrm width := by
  simp only [arithmetic, Machine.arithmetic, forget_bind, forget_keep, forget_pure, forget_ite]

@[simp] theorem forget_group1 (m : Machine) (modrm : ModRm) (lhs rhs : U64) (width : ℕ) :
    forget (group1 m modrm lhs rhs width) = m.group1 modrm lhs rhs width := by
  simp only [group1, Machine.group1, forget_keep, forget_pure, forget_ite, forget_stop]

@[simp] theorem forget_decodeGroup1 (m : Machine) (rex : Option Byte) (op : Byte) :
    forget (decodeGroup1 m rex op) = m.decodeGroup1 rex op := by
  simp only [decodeGroup1, Machine.decodeGroup1, forget_bind, forget_keep, forget_pure,
    forget_group1]

@[simp] theorem forget_decodeJccShort (m : Machine) (op : Byte) :
    forget (decodeJccShort m op) = m.decodeJccShort op := by
  simp only [decodeJccShort, Machine.decodeJccShort, forget_bind, forget_keep, forget_pure]

@[simp] theorem forget_decodeJccNear (m : Machine) (opcode_rip : U64) :
    forget (decodeJccNear m opcode_rip) = m.decodeJccNear opcode_rip := by
  simp only [decodeJccNear, Machine.decodeJccNear, forget_bind, forget_keep, forget_pure,
    forget_ite, forget_stop]

@[simp] theorem forget_xmmMove (m : Machine) (op2 pre : Byte) (modrm : ModRm) (rip : U64) :
    forget (xmmMove m op2 pre modrm rip) = m.xmmMove op2 pre modrm rip := by
  simp only [xmmMove, Machine.xmmMove, forget_bind, forget_keep, forget_pure, forget_ite,
    forget_stop]

@[simp] theorem forget_decodeTwoByte (m : Machine) (opcode_rip : U64) (pre : Byte)
    (rex : Option Byte) :
    forget (decodeTwoByte m opcode_rip pre rex) = m.decodeTwoByte opcode_rip pre rex := by
  simp only [decodeTwoByte, Machine.decodeTwoByte, forget_bind, forget_keep, forget_pure,
    forget_ite, forget_stop, forget_decodeJccNear, forget_xmmMove]
  rfl

@[simp] theorem forget_decodeOneByte (m : Machine) (op : Byte) :
    forget (decodeOneByte m op) = m.decodeOneByte op := by
  simp only [decodeOneByte, Machine.decodeOneByte, forget_bind, forget_keep, forget_pure,
    forget_ite, forget_stop, forget_decodeTwoByte, forget_arithmetic, forget_push64,
    forget_pop64, forget_pop64Gpr, forget_decodeGroup1]
  rfl

@[simp] theorem forget_decodeRex (m : Machine) (rex_byte : Byte) :
    forget (decodeRex m rex_byte) = m.decodeRex rex_byte := by
  simp only [decodeRex, Machine.decodeRex, forget_bind, forget_keep, forget_pure, forget_ite,
    forget_stop, forget_decodeTwoByte, forget_arithmetic, forget_push64, forget_pop64Gpr,
    forget_decodeGroup1]

@[simp] theorem forget_decodePrefixed (m : Machine) (pre : Byte) :
    forget (decodePrefixed m pre) = m.decodePrefixed pre := by
  simp only [decodePrefixed, Machine.decodePrefixed, forget_bind, forget_keep, forget_pure,
    forget_ite, forget_stop, forget_decodeTwoByte]

theorem forget_step (m : Machine) : forget (step m) = m.step := by
  simp only [step, Machine.step, resetAccesses, forget_bind, forget_keep, forget_ite,
    forget_decodeJccShort, forget_decodeRex, forget_decodePrefixed, forget_decodeOneByte]

end Forget

end Kept

end OrbitConsole.Cpu
