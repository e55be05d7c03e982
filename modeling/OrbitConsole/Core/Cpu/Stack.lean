import OrbitConsole.Core.Cpu.Architecture

/-!
# Stack instructions

What PUSH, POP, CALL, RET and LEAVE do in the architecture, where a fault leaves the
state as it was, and what the interpreter's step leaves behind for them, also when it
does not continue.
-/

namespace OrbitConsole.Cpu

/-! ### The architecture -/

inductive StackInstruction where
  | push (reg : ℕ)
  | pop (reg : ℕ)
  | pushImmediate (size : ℕ)
  | call
  | ret
  | retImmediate
  | leave
  deriving DecidableEq

def registerInstruction (op : Byte) (b : Bool) : Option StackInstruction :=
  if 0x50 ≤ op ∧ op ≤ 0x57 then some (.push (extend (op &&& 7).toNat b))
  else if 0x58 ≤ op ∧ op ≤ 0x5f then some (.pop (extend (op &&& 7).toNat b))
  else none

def plainInstruction (op : Byte) : Option StackInstruction :=
  if op = 0x68 then some (.pushImmediate 4)
  else if op = 0x6a then some (.pushImmediate 1)
  else if op = 0xc3 then some .ret
  else if op = 0xc2 then some .retImmediate
  else if op = 0xc9 then some .leave
  else if op = 0xe8 then some .call
  else none

namespace StackInstruction

def immediate : StackInstruction → U64
  | .pushImmediate size => BitVec.ofNat 64 size
  | .call => 4
  | .retImmediate => 2
  | _ => 0

end StackInstruction

def stackInstruction (m : Machine) : Option (StackInstruction × U64) :=
  if m.rip = 0 then none
  else if isRexByte (m.mem m.rip) then
    if m.rip + 1 = 0 then none
    else (registerInstruction (m.mem (m.rip + 1)) (m.mem m.rip &&& 0x01 ≠ 0)).map (·, 2)
  else
    ((registerInstruction (m.mem m.rip) false).or (plainInstruction (m.mem m.rip))).map fun i =>
      (i, 1 + i.immediate)

/-- Moving the stack pointer down and storing a value there. -/
def pushed (m : Machine) (value rip : U64) : Option Machine :=
  if m.gpr rspIndex - 8 = 0 then none
  else
    some { m with
      gpr := Function.update m.gpr rspIndex (m.gpr rspIndex - 8)
      mem := store m.mem (m.gpr rspIndex - 8) 8 value
      rip := rip }

/-- The state after an instruction of some length; an access to the null pointer is a fault. A
pop moves the stack pointer before it writes the operand. -/
def StackInstruction.execute (i : StackInstruction) (length : U64) (m : Machine) :
    Option Machine :=
  let rsp := m.gpr rspIndex
  let rbp := m.gpr rbpIndex
  let next := m.rip + length
  match i with
  | .push reg => pushed m (m.gpr reg) next
  | .pushImmediate size =>
      if m.rip + 1 = 0 then none else pushed m (signed m.mem (m.rip + 1) size) next
  | .call => if m.rip + 1 = 0 then none else pushed m next (next + signed m.mem (m.rip + 1) 4)
  | .pop reg =>
      if rsp = 0 then none
      else
        some { m with
          gpr := Function.update (Function.update m.gpr rspIndex (rsp + 8)) reg (load m.mem rsp 8)
          rip := next }
  | .ret =>
      if rsp = 0 then none
      else
        some { m with
          gpr := Function.update m.gpr rspIndex (rsp + 8)
          rip := load m.mem rsp 8 }
  | .retImmediate =>
      if m.rip + 1 = 0 ∨ rsp = 0 then none
      else
        some { m with
          gpr := Function.update m.gpr rspIndex (rsp + 8 + load m.mem (m.rip + 1) 2)
          rip := load m.mem rsp 8 }
  | .leave =>
      if rbp = 0 then none
      else
        some { m with
          gpr := Function.update (Function.update m.gpr rspIndex (rbp + 8)) rbpIndex
            (load m.mem rbp 8)
          rip := next }

/-! ### The interpreter -/

/-- What a step leaves behind, with why it does not continue. -/
structure Outcome where
  result : Option StepResult
  after : Machine

/-- The computation that keeps the state only when the step continues. -/
def Outcome.toStepM (o : Outcome) : StepM Machine :=
  match o.result with
  | none => .ok o.after
  | some e => .error e

namespace Machine

/-- `Push64` moves the stack pointer before it writes. -/
def pushOutcome (m : Machine) (value next : U64) : Outcome :=
  match m.push64 value with
  | .ok m' => ⟨none, m'.setRip next⟩
  | .error e => ⟨some e, { m with gpr := Function.update m.gpr rspIndex (m.gpr rspIndex - 8) }⟩

def popOutcome (m : Machine) (reg : ℕ) (next : U64) : Outcome :=
  match m.pop64Gpr reg with
  | .ok m' => ⟨none, m'.setRip next⟩
  | .error e => ⟨some e, m⟩

/-- A return to the null pointer ends the guest. -/
def retOutcome (m : Machine) (stack_pop : U64) : Outcome :=
  match m.pop64 with
  | .ok (target, m') =>
      ⟨if target = 0 then some .halt else none,
        { m' with
          gpr := Function.update m'.gpr rspIndex (m'.gpr rspIndex + stack_pop) }.setRip target⟩
  | .error e => ⟨some e, m⟩

/-- The stack pointer is the frame pointer by the time the pop reads. -/
def leaveOutcome (m : Machine) : Outcome :=
  let moved := { m with gpr := Function.update m.gpr rspIndex (m.gpr rbpIndex) }
  match moved.pop64 with
  | .ok (rbp, m') =>
      ⟨none, { m' with gpr := Function.update m'.gpr rbpIndex rbp, rip := m.rip + 1 }⟩
  | .error e => ⟨some e, moved⟩

/-- Reading a part of the instruction changes nothing when it fails. -/
def fetchOutcome {α : Type} (m : Machine) (part : StepM α) (rest : α → Outcome) : Outcome :=
  match part with
  | .ok a => rest a
  | .error e => ⟨some e, m⟩

/-- The stack instructions of `DecodeOneByte`. -/
def oneByteOutcome (m : Machine) (op : Byte) : Option Outcome :=
  let rip := m.rip
  if 0x50 ≤ op ∧ op ≤ 0x57 then some (m.pushOutcome (m.gpr (op - 0x50).toNat) (rip + 1))
  else if 0x58 ≤ op ∧ op ≤ 0x5f then some (m.popOutcome (op - 0x58).toNat (rip + 1))
  else if op = 0x68 then
    some (m.fetchOutcome (m.fetch (rip + 1) 4) fun imm =>
      m.pushOutcome ((imm.setWidth 32).signExtend 64) (rip + 5))
  else if op = 0x6a then
    some (m.fetchOutcome (m.fetch8 (rip + 1)) fun imm =>
      m.pushOutcome (imm.signExtend 64) (rip + 2))
  else if op = 0xc3 then some (m.retOutcome 0)
  else if op = 0xc2 then some (m.fetchOutcome (m.fetch (rip + 1) 2) m.retOutcome)
  else if op = 0xc9 then some m.leaveOutcome
  else if op = 0xe8 then
    some (m.fetchOutcome (m.fetch (rip + 1) 4) fun rel =>
      m.pushOutcome (rip + 5) (rip + 5 + (rel.setWidth 32).signExtend 64))
  else none

def rexOutcome (m : Machine) (rex_byte : Byte) : Option Outcome :=
  let rex := decodeRexPrefix rex_byte
  let op := m.mem (m.rip + 1)
  if 0x50 ≤ op ∧ op ≤ 0x57 then
    some (m.pushOutcome (m.gpr (extend (op &&& 7).toNat rex.b)) (m.rip + 2))
  else if 0x58 ≤ op ∧ op ≤ 0x5f then
    some (m.popOutcome (extend (op &&& 7).toNat rex.b) (m.rip + 2))
  else none

def stackStep (m : Machine) : Option Outcome :=
  let m := { m with accesses := [] }
  let op := m.mem m.rip
  if m.rip = 0 then none
  else if 0x40 ≤ op ∧ op ≤ 0x4f then if m.rip + 1 = 0 then none else m.rexOutcome op
  else m.oneByteOutcome op

end Machine

end OrbitConsole.Cpu
