import OrbitConsole.Core.Cpu.CustomCpuTranslator

/-!
# Encodings of x86-64 instructions

What the architecture says of the instructions the interpreter executes: which bytes an
instruction consists of, which address its operand has, and where control goes next. The
addresses count from the end of the whole instruction where the architecture says so.
-/

namespace OrbitConsole.Cpu

/-! ### The opcode map -/

/-- Where an instruction has its operand in memory. -/
inductive Operand where
  | none
  | push
  | pop
  | frame
  | modrm
  deriving DecidableEq

inductive Flow where
  | next
  | jump
  | conditional
  | call
  | ret
  deriving DecidableEq

/-- What follows an opcode, a ModRM byte with its displacement and an immediate of some
bytes, and what the instruction does with them. -/
structure Encoding where
  modrm : Bool
  immediate : ℕ
  operand : Operand
  flow : Flow
  deriving DecidableEq

/-- The one-byte opcodes. The last line is for the arithmetic and the moves between a
register and an `r/m` operand. -/
def oneByteEncoding (op : Byte) (w : Bool) : Encoding :=
  if 0x50 ≤ op ∧ op ≤ 0x57 then ⟨false, 0, .push, .next⟩
  else if 0x58 ≤ op ∧ op ≤ 0x5f then ⟨false, 0, .pop, .next⟩
  else if op = 0x68 then ⟨false, 4, .push, .next⟩
  else if op = 0x6a then ⟨false, 1, .push, .next⟩
  else if 0x70 ≤ op ∧ op ≤ 0x7f then ⟨false, 1, .none, .conditional⟩
  else if op = 0x81 ∨ op = 0xc7 then ⟨true, 4, .modrm, .next⟩
  else if op = 0x83 then ⟨true, 1, .modrm, .next⟩
  else if op = 0x8d then ⟨true, 0, .none, .next⟩
  else if op = 0x90 then ⟨false, 0, .none, .next⟩
  else if 0xb8 ≤ op ∧ op ≤ 0xbf then ⟨false, if w then 8 else 4, .none, .next⟩
  else if op = 0xc2 then ⟨false, 2, .pop, .ret⟩
  else if op = 0xc3 then ⟨false, 0, .pop, .ret⟩
  else if op = 0xc9 then ⟨false, 0, .frame, .next⟩
  else if op = 0xe8 then ⟨false, 4, .push, .call⟩
  else if op = 0xe9 then ⟨false, 4, .none, .jump⟩
  else if op = 0xeb then ⟨false, 1, .none, .jump⟩
  else ⟨true, 0, .modrm, .next⟩

/-- The opcodes behind `0x0f`; the last line is for the moves on xmm registers. -/
def twoByteEncoding (op2 : Byte) : Encoding :=
  if 0x80 ≤ op2 ∧ op2 ≤ 0x8f then ⟨false, 4, .none, .conditional⟩
  else if op2 = 0x1f then ⟨true, 0, .none, .next⟩
  else ⟨true, 0, .modrm, .next⟩

/-! ### ModRM operands -/

def modOf (raw : Byte) : ℕ := ((raw >>> 6) &&& 3).toNat
def lowReg (raw : Byte) : ℕ := ((raw >>> 3) &&& 7).toNat
def lowRm (raw : Byte) : ℕ := (raw &&& 7).toNat

/-- The bytes of an operand: the ModRM byte, a SIB byte and a displacement. -/
def modrmSize (mem : Memory) (modrm_at : U64) : ℕ :=
  let mod := modOf (mem modrm_at)
  let low_rm := lowRm (mem modrm_at)
  if mod = 3 then 1
  else
    1 + (if low_rm = 4 then 1 else 0) +
      if mod = 1 then 1
      else if mod = 2 then 4
      else if low_rm = 5 ∨ low_rm = 4 ∧ lowRm (mem (modrm_at + 1)) = 5 then 4
      else 0

def RipRelative (mem : Memory) (modrm_at : U64) : Prop :=
  modOf (mem modrm_at) = 0 ∧ lowRm (mem modrm_at) = 5

instance (mem : Memory) (modrm_at : U64) : Decidable (RipRelative mem modrm_at) :=
  inferInstanceAs (Decidable (_ ∧ _))

def signed (mem : Memory) (address : U64) (n : ℕ) : U64 :=
  ((load mem address n).setWidth (8 * n)).signExtend 64

def sibIndex (m : Machine) (sib : Byte) (rex : RexPrefix) : U64 :=
  if extend (lowReg sib) rex.x = 4 then 0
  else m.gpr (extend (lowReg sib) rex.x) * ((1 : U64) <<< modOf sib)

/-- The address of an operand in memory of an instruction that ends at `next`. -/
def effectiveAddress (m : Machine) (modrm_at : U64) (rex : RexPrefix) (next : U64) : U64 :=
  let mod := modOf (m.mem modrm_at)
  let low_rm := lowRm (m.mem modrm_at)
  let sib := m.mem (modrm_at + 1)
  let disp_at := modrm_at + 1 + (if low_rm = 4 then 1 else 0)
  let disp :=
    if mod = 1 then signed m.mem disp_at 1
    else if mod = 2 then signed m.mem disp_at 4
    else if low_rm = 5 ∨ low_rm = 4 ∧ lowRm sib = 5 then signed m.mem disp_at 4
    else 0
  if low_rm = 4 then
    let base := if lowRm sib = 5 ∧ mod = 0 then 0 else m.gpr (extend (lowRm sib) rex.b)
    base + sibIndex m sib rex + disp
  else if low_rm = 5 ∧ mod = 0 then next + disp
  else m.gpr (extend low_rm rex.b) + disp

/-! ### Whole instructions -/

structure Instruction where
  encoding : Encoding
  rex : RexPrefix
  /-- Where the ModRM byte, or the immediate, is. -/
  operand_at : U64

def isLegacyPrefix (b : Byte) : Bool := b = prefix66 || b = prefixF2 || b = prefixF3

def isRexByte (b : Byte) : Bool := 0x40 ≤ b && b ≤ 0x4f

def instructionAt (m : Machine) (opcode_at : U64) (rex : RexPrefix) : Instruction :=
  if m.mem opcode_at = 0x0f then
    ⟨twoByteEncoding (m.mem (opcode_at + 1)), rex, opcode_at + 2⟩
  else ⟨oneByteEncoding (m.mem opcode_at) rex.w, rex, opcode_at + 1⟩

def instructionAfterPrefix (m : Machine) (address : U64) : Instruction :=
  if isRexByte (m.mem address) then
    instructionAt m (address + 1) (decodeRexPrefix (m.mem address))
  else instructionAt m address {}

def decode (m : Machine) : Instruction :=
  if isLegacyPrefix (m.mem m.rip) then instructionAfterPrefix m (m.rip + 1)
  else instructionAfterPrefix m m.rip

namespace Instruction

def immediateAt (i : Instruction) (m : Machine) : U64 :=
  i.operand_at + BitVec.ofNat 64 (if i.encoding.modrm then modrmSize m.mem i.operand_at else 0)

def next (i : Instruction) (m : Machine) : U64 :=
  i.immediateAt m + BitVec.ofNat 64 i.encoding.immediate

def immediate (i : Instruction) (m : Machine) : U64 :=
  signed m.mem (i.immediateAt m) i.encoding.immediate

def operandAddress (i : Instruction) (m : Machine) : Option U64 :=
  match i.encoding.operand with
  | .none => none
  | .push => some (m.gpr rspIndex - 8)
  | .pop => some (m.gpr rspIndex)
  | .frame => some (m.gpr rbpIndex)
  | .modrm =>
    if modOf (m.mem i.operand_at) = 3 then none
    else some (effectiveAddress m i.operand_at i.rex (i.next m))

/-- The condition of a branch is the low half of its opcode, the byte before the offset. -/
def condition (i : Instruction) (m : Machine) : ℕ := (m.mem (i.operand_at - 1) &&& 0xf).toNat

/-- Where control goes. The condition of a branch is the interpreter's. -/
def target (i : Instruction) (m : Machine) : U64 :=
  match i.encoding.flow with
  | .next => i.next m
  | .jump => i.next m + i.immediate m
  | .conditional =>
    if m.checkCondition (i.condition m) then i.next m + i.immediate m else i.next m
  | .call => i.next m + i.immediate m
  | .ret => load m.mem (m.gpr rspIndex) 8

structure Addresses (i : Instruction) (m m' : Machine) : Prop where
  rip : m'.rip = i.target m
  operands : ∀ a ∈ m'.accesses, i.operandAddress m = some a
  return_address : i.encoding.flow = .call →
    m'.mem = store m.mem (m.gpr rspIndex - 8) 8 (i.next m)

def RipRelativeBeforeImmediate (i : Instruction) (m : Machine) : Prop :=
  i.encoding.modrm = true ∧ i.encoding.immediate ≠ 0 ∧ RipRelative m.mem i.operand_at

instance (i : Instruction) (m : Machine) : Decidable (i.RipRelativeBeforeImmediate m) :=
  inferInstanceAs (Decidable (_ ∧ _ ∧ _))

end Instruction

end OrbitConsole.Cpu
