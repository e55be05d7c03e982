import OrbitConsole.Core.Cpu.Architecture

/-!
# Moves on xmm registers

What the architecture says of the SSE moves and exclusive ors that the interpreter executes.
-/

namespace OrbitConsole.Cpu

/-- What the instructions do: the scalar ones move some bytes, the others sixteen, and the
aligned ones only to and from an address that is a multiple of sixteen. -/
inductive SseOperation where
  | scalarLoad (size : ℕ)
  | scalarStore (size : ℕ)
  | load (aligned : Bool)
  | store (aligned : Bool)
  | xor
  deriving DecidableEq

/-- The operation of an opcode behind `0x0f` with a prefix. The others with these opcodes are
undefined, or use the registers of MMX. -/
def sseOperation (pre op2 : Byte) : Option SseOperation :=
  if op2 = 0x10 then
    if pre = prefixF3 then some (.scalarLoad 4)
    else if pre = prefixF2 then some (.scalarLoad 8)
    else some (.load false)
  else if op2 = 0x11 then
    if pre = prefixF3 then some (.scalarStore 4)
    else if pre = prefixF2 then some (.scalarStore 8)
    else some (.store false)
  else if op2 = 0x6f ∧ pre = prefixF3 then some (.load false)
  else if op2 = 0x7f ∧ pre = prefixF3 then some (.store false)
  else if pre = prefixF3 ∨ pre = prefixF2 then none
  else if op2 = 0x28 then some (.load true)
  else if op2 = 0x29 then some (.store true)
  else if op2 = 0x57 then some .xor
  else if pre ≠ prefix66 then none
  else if op2 = 0x6f then some (.load true)
  else if op2 = 0x7f then some (.store true)
  else if op2 = 0xef then some .xor
  else none

structure SseInstruction where
  pre : Byte
  rex : RexPrefix
  op2 : Byte
  operation : SseOperation
  /-- Where the ModRM byte is. -/
  operand_at : U64

def sseAtOpcode (m : Machine) (pre : Byte) (rex : RexPrefix) (opcode_at : U64) :
    Option SseInstruction :=
  if m.mem opcode_at = 0x0f then
    (sseOperation pre (m.mem (opcode_at + 1))).map fun operation =>
      ⟨pre, rex, m.mem (opcode_at + 1), operation, opcode_at + 2⟩
  else none

def sseAfterPrefix (m : Machine) (pre : Byte) (address : U64) : Option SseInstruction :=
  if isRexByte (m.mem address) then
    sseAtOpcode m pre (decodeRexPrefix (m.mem address)) (address + 1)
  else sseAtOpcode m pre {} address

def sseInstruction (m : Machine) : Option SseInstruction :=
  if isLegacyPrefix (m.mem m.rip) then sseAfterPrefix m (m.mem m.rip) (m.rip + 1)
  else sseAfterPrefix m 0 m.rip

namespace SseInstruction

/-- The register of the ModRM byte. -/
def reg (i : SseInstruction) (m : Machine) : ℕ := extend (lowReg (m.mem i.operand_at)) i.rex.r

/-- The register of an operand that is none in memory. -/
def rm (i : SseInstruction) (m : Machine) : ℕ := extend (lowRm (m.mem i.operand_at)) i.rex.b

def inMemory (i : SseInstruction) (m : Machine) : Prop := modOf (m.mem i.operand_at) ≠ 3

instance (i : SseInstruction) (m : Machine) : Decidable (i.inMemory m) :=
  inferInstanceAs (Decidable (_ ≠ _))

def next (i : SseInstruction) (m : Machine) : U64 :=
  i.operand_at + BitVec.ofNat 64 (modrmSize m.mem i.operand_at)

def address (i : SseInstruction) (m : Machine) : U64 :=
  effectiveAddress m i.operand_at i.rex (i.next m)

def source (i : SseInstruction) (m : Machine) (k : ℕ) : Byte :=
  if i.inMemory m then m.mem (i.address m + BitVec.ofNat 64 k) else m.xmm (i.rm m) k

/-- The state with other bytes in the register. -/
def loaded (i : SseInstruction) (m : Machine) (value : ℕ → Byte) : Machine :=
  { m with xmm := Function.update m.xmm (i.reg m) value, rip := i.next m }

/-- The state with bytes of the register in the operand, which keeps its others. -/
def stored (i : SseInstruction) (m : Machine) (size : ℕ) : Machine :=
  if i.inMemory m then
    { m with
      mem := fun a => if (a - i.address m).toNat < size then
        m.xmm (i.reg m) (a - i.address m).toNat else m.mem a
      rip := i.next m }
  else
    { m with
      xmm := Function.update m.xmm (i.rm m) fun k =>
        if k < size then m.xmm (i.reg m) k else m.xmm (i.rm m) k
      rip := i.next m }

def misaligned (i : SseInstruction) (m : Machine) : Prop :=
  i.inMemory m ∧ (i.address m).toNat % 16 ≠ 0

instance (i : SseInstruction) (m : Machine) : Decidable (i.misaligned m) :=
  inferInstanceAs (Decidable (_ ∧ _))

def needsAligned : SseOperation → Bool
  | .scalarLoad _ | .scalarStore _ => false
  | .load aligned | .store aligned => aligned
  | .xor => true

/-- The processor raises a fault and leaves the state as it was. -/
def faults (i : SseInstruction) (m : Machine) : Prop :=
  needsAligned i.operation = true ∧ i.misaligned m

/-- The state after the instruction; there is none where the processor faults. -/
def execute (i : SseInstruction) (m : Machine) : Option Machine :=
  match i.operation with
  | .scalarLoad size => some (i.loaded m fun k =>
      if k < size then i.source m k
      else if i.inMemory m ∧ k < 16 then 0
      else m.xmm (i.reg m) k)
  | .scalarStore size => some (i.stored m size)
  | .load aligned =>
      if aligned = true ∧ i.misaligned m then none
      else some (i.loaded m fun k => if k < 16 then i.source m k else m.xmm (i.reg m) k)
  | .store aligned =>
      if aligned = true ∧ i.misaligned m then none else some (i.stored m 16)
  | .xor =>
      if i.misaligned m then none
      else some (i.loaded m fun k =>
        if k < 16 then m.xmm (i.reg m) k ^^^ i.source m k else m.xmm (i.reg m) k)

def KeepsUpper (i : SseInstruction) (m : Machine) : Prop :=
  ∃ size, i.operation = .scalarLoad size ∧ i.inMemory m ∧
    ∃ k, size ≤ k ∧ k < 16 ∧ m.xmm (i.reg m) k ≠ 0

end SseInstruction

end OrbitConsole.Cpu
