import OrbitConsole.Core.Cpu.Addressing
import Mathlib.Data.BitVec

/-!
# Operations and conditions of x86-64

What the architecture says of the results and the flags of the arithmetic the interpreter
executes, and of the sixteen conditions of a branch, on integers of the width of the operands.
-/

namespace OrbitConsole.Cpu

/-! ### Flags -/

structure Flags where
  cf : Bool
  pf : Bool
  zf : Bool
  sf : Bool
  of : Bool
  deriving DecidableEq

def Machine.flags (m : Machine) : Flags where
  cf := m.rflags.getLsbD 0
  pf := m.rflags.getLsbD 2
  zf := m.rflags.getLsbD 6
  sf := m.rflags.getLsbD 7
  of := m.rflags.getLsbD 11

/-- The parity flag: whether the lowest byte has an even number of ones. -/
def evenParity {w : ℕ} (x : BitVec w) : Bool :=
  ((List.range 8).countP fun i => x.getLsbD i) % 2 = 0

def Flags.holds (f : Flags) (condition : ℕ) : Bool :=
  match condition with
  | 0x0 => f.of
  | 0x1 => !f.of
  | 0x2 => f.cf
  | 0x3 => !f.cf
  | 0x4 => f.zf
  | 0x5 => !f.zf
  | 0x6 => f.cf || f.zf
  | 0x7 => !(f.cf || f.zf)
  | 0x8 => f.sf
  | 0x9 => !f.sf
  | 0xa => f.pf
  | 0xb => !f.pf
  | 0xc => f.sf != f.of
  | 0xd => !(f.sf != f.of)
  | 0xe => f.zf || (f.sf != f.of)
  | _ => !(f.zf || (f.sf != f.of))

/-! ### Operations -/

inductive Operation where
  | add
  | or
  | and
  | sub
  | xor
  | cmp
  | test
  | mov
  deriving DecidableEq

namespace Operation

variable {w : ℕ}

def result (o : Operation) (a b : BitVec w) : BitVec w :=
  match o with
  | add => a + b
  | or => a ||| b
  | and | test => a &&& b
  | sub | cmp => a - b
  | xor => a ^^^ b
  | mov => b

/-- Whether the result goes to the destination. -/
def writes (o : Operation) : Bool := o ≠ cmp && o ≠ test

def flagsOfResult (r : BitVec w) (cf of : Bool) : Flags where
  cf := cf
  pf := evenParity r
  zf := r = 0
  sf := r.msb
  of := of

def flags (o : Operation) (a b : BitVec w) (old : Flags) : Flags :=
  match o with
  | add => flagsOfResult (a + b) (BitVec.uaddOverflow a b) (BitVec.saddOverflow a b)
  | sub | cmp => flagsOfResult (a - b) (BitVec.usubOverflow a b) (BitVec.ssubOverflow a b)
  | mov => old
  | o => flagsOfResult (o.result a b) false false

end Operation

/-- What a condition says of the operands of a comparison. -/
def relation {w : ℕ} (condition : ℕ) (a b : BitVec w) : Bool :=
  match condition with
  | 0x0 => BitVec.ssubOverflow a b
  | 0x1 => !BitVec.ssubOverflow a b
  | 0x2 => a.ult b
  | 0x3 => b.ule a
  | 0x4 => a = b
  | 0x5 => a ≠ b
  | 0x6 => a.ule b
  | 0x7 => b.ult a
  | 0x8 => (a - b).msb
  | 0x9 => !(a - b).msb
  | 0xa => evenParity (a - b)
  | 0xb => !evenParity (a - b)
  | 0xc => a.slt b
  | 0xd => b.sle a
  | 0xe => a.sle b
  | _ => b.slt a

/-! ### Operands -/

inductive Place where
  | register (n : ℕ)
  | memory (address : U64)
  | immediate (value : U64)
  deriving DecidableEq

namespace Place

variable {w : ℕ}

/-- The registers 4 to 7 of 8 bits are the second bytes of the first four registers if there
is no REX prefix. -/
def read (m : Machine) (has_rex : Bool) (w : ℕ) : Place → BitVec w
  | register n =>
    if w = 8 ∧ has_rex = false ∧ 4 ≤ n ∧ n < 8 then (m.gpr (n - 4) >>> 8).setWidth w
    else (m.gpr n).setWidth w
  | memory address => (load m.mem address (w / 8)).setWidth w
  | immediate value => value.setWidth w

/-- The registers and the memory after a result is written. A result of 32 bits clears the
upper half of the register. -/
def write (m : Machine) (v : BitVec w) : Place → (ℕ → U64) × Memory
  | register n => (Function.update m.gpr n (v.setWidth 64), m.mem)
  | memory address => (m.gpr, store m.mem address (w / 8) (v.setWidth 64))
  | immediate _ => (m.gpr, m.mem)

end Place

/-- Whether a register of 8 bits is a second byte when there is no REX prefix. -/
def Place.isHighByte : Place → Bool
  | .register n => 4 ≤ n && n < 8
  | _ => false

structure Form where
  operation : Operation
  width : ℕ
  has_rex : Bool
  destination : Place
  source : Place

namespace Form

def left (f : Form) (m : Machine) : BitVec f.width := f.destination.read m f.has_rex f.width

def right (f : Form) (m : Machine) : BitVec f.width := f.source.read m f.has_rex f.width

/-- Whether an operand is the second byte of a register. -/
def namesHighByte (f : Form) : Bool :=
  f.width = 8 && !f.has_rex && (f.destination.isHighByte || f.source.isHighByte)

structure Executes (f : Form) (m m' : Machine) : Prop where
  destination : (m'.gpr, m'.mem) =
    if f.operation.writes then
      f.destination.write m (f.operation.result (f.left m) (f.right m))
    else (m.gpr, m.mem)
  flags : m'.flags = f.operation.flags (f.left m) (f.right m) m.flags

end Form

/-! ### Decoding -/

/-- The operation of an opcode with a register operand, and whether the `r/m` operand is the
destination. -/
def registerOperation (op : Byte) : Option (Operation × Bool) :=
  if op = 0x01 then some (.add, true)
  else if op = 0x03 then some (.add, false)
  else if op = 0x29 then some (.sub, true)
  else if op = 0x2b then some (.sub, false)
  else if op = 0x31 then some (.xor, true)
  else if op = 0x39 then some (.cmp, true)
  else if op = 0x3b then some (.cmp, false)
  else if op = 0x84 ∨ op = 0x85 then some (.test, true)
  else if op = 0x89 then some (.mov, true)
  else if op = 0x8b then some (.mov, false)
  else none

/-- The operation a ModRM byte names behind `0x81` and `0x83`. -/
def groupOperation (group : ℕ) : Option Operation :=
  match group with
  | 0 => some .add
  | 1 => some .or
  | 4 => some .and
  | 5 => some .sub
  | 6 => some .xor
  | 7 => some .cmp
  | _ => none

def regPlace (m : Machine) (modrm_at : U64) (rex : RexPrefix) : Place :=
  .register (extend (lowReg (m.mem modrm_at)) rex.r)

def rmPlace (m : Machine) (modrm_at : U64) (rex : RexPrefix) (next : U64) : Place :=
  if modOf (m.mem modrm_at) = 3 then .register (extend (lowRm (m.mem modrm_at)) rex.b)
  else .memory (effectiveAddress m modrm_at rex next)

def operandWidth (op : Byte) (rex : RexPrefix) : ℕ :=
  if op = 0x84 then 8 else if rex.w then 64 else 32

/-- The additions, subtractions, comparisons, logic operations, tests and moves. -/
def formAt (m : Machine) (opcode_at : U64) (rex : RexPrefix) (has_rex : Bool) : Option Form :=
  let op := m.mem opcode_at
  let i := instructionAt m opcode_at rex
  let width := operandWidth op rex
  let reg := regPlace m (opcode_at + 1) rex
  let rm := rmPlace m (opcode_at + 1) rex (i.next m)
  match registerOperation op with
  | some (o, true) => some ⟨o, width, has_rex, rm, reg⟩
  | some (o, false) => some ⟨o, width, has_rex, reg, rm⟩
  | none =>
    if op = 0x81 ∨ op = 0x83 then
      (groupOperation (lowReg (m.mem (opcode_at + 1)))).map fun o =>
        ⟨o, width, has_rex, rm, .immediate (i.immediate m)⟩
    else if op = 0xc7 then some ⟨.mov, width, has_rex, rm, .immediate (i.immediate m)⟩
    else if 0xb8 ≤ op ∧ op ≤ 0xbf then
      some ⟨.mov, width, has_rex, .register (extend (op - 0xb8).toNat rex.b),
        .immediate (i.immediate m)⟩
    else none

def form (m : Machine) : Option Form :=
  if isRexByte (m.mem m.rip) then formAt m (m.rip + 1) (decodeRexPrefix (m.mem m.rip)) true
  else formAt m m.rip {} false

/-! ### Steps -/

/-- Where a branch goes when its condition is the given one. -/
def branchTarget (m : Machine) (taken : Bool) : U64 :=
  if taken then (decode m).next m + (decode m).immediate m else (decode m).next m

/-- A step from `m` to `m'` computes and branches as the instruction says. -/
structure Follows (m m' : Machine) : Prop where
  executes : ∀ f, form m = some f → f.Executes m m'
  branches : (decode m).encoding.flow = .conditional →
    m'.rip = branchTarget m (m.flags.holds ((decode m).condition m))

def TakesParityBranch (m : Machine) : Prop :=
  (decode m).encoding.flow = .conditional ∧
    ((decode m).condition m = 0xa ∧ m.flags.pf = true ∨
      (decode m).condition m = 0xb ∧ m.flags.pf = false)

instance (m : Machine) : Decidable (TakesParityBranch m) :=
  inferInstanceAs (Decidable (_ ∧ (_ ∧ _ ∨ _ ∧ _)))

/-- The instruction is none that the interpreter gets wrong. -/
structure Regular (m : Machine) : Prop where
  operand : ¬ (decode m).RipRelativeBeforeImmediate m
  high_byte : (form m).any Form.namesHighByte = false
  parity : ¬ TakesParityBranch m

end OrbitConsole.Cpu
