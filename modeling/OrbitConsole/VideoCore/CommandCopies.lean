import Mathlib.Data.Nat.Notation
import OrbitConsole.Library.Transition

/-!
# Copied command buffers

`CopyCmdBuffers` and `SubmitGfx`, the calls of the GnmDriver that lead to them, and the
part of `Liverpool::Process` that runs graphics tasks and sends the `GpuIdle` interrupt.
One guest thread submits. A rejected call touches nothing and is no step. The sequence
of the init packet is a parameter.
-/

namespace OrbitConsole.VideoCore

namespace CommandCopies

/-- A part of a copy buffer. -/
structure Span where
  start : ℕ
  length : ℕ
  deriving DecidableEq

/-- One of the two copy buffers of the graphics queue: a vector whose capacity was
reserved, and where the next copy goes. -/
structure CopyBuffer where
  data : List ℕ := []
  capacity : ℕ
  offset : ℕ := 0
  /-- a `resize` beyond the capacity has moved the elements -/
  moved : Bool := false
  deriving DecidableEq

/-- `resize(std::max(size(), offset + n))`. -/
def CopyBuffer.grow (b : CopyBuffer) (n : ℕ) : CopyBuffer :=
  { b with
    data := b.data ++ List.replicate (b.offset + n - b.data.length) 0
    moved := b.moved || decide (b.capacity < b.offset + n) }

def CopyBuffer.copy (b : CopyBuffer) (words : List ℕ) : CopyBuffer :=
  { b with
    data := b.data.take b.offset ++ words ++ b.data.drop (b.offset + words.length)
    offset := b.offset + words.length }

structure GfxTask where
  dcb : Span
  ccb : Span
  dcbWords : List ℕ
  ccbWords : List ℕ
  deriving DecidableEq

structure Read where
  task : GfxTask
  ofCcb : Bool
  index : ℕ
  value : ℕ
  deriving DecidableEq

/-- Where the guest thread stands. -/
inductive GuestPc where
  | outside
  /-- in `WaitGpuIdle` of `sceGnmSubmitCommandBuffers` -/
  | waitSubmit (pairs : List (List ℕ × List ℕ))
  | submitting (pairs : List (List ℕ × List ℕ))
  /-- in `SubmitGfx`, about to put the task into the queue -/
  | emplace (task : GfxTask) (pairs : List (List ℕ × List ℕ))
  /-- about to raise `num_submits` -/
  | count (pairs : List (List ℕ × List ℕ))
  /-- in `WaitGpuIdle` of `sceGnmSubmitDone` -/
  | waitDone
  | testIdle
  | raiseLock
  | submitDone
  deriving DecidableEq

/-- Where the GPU thread stands. -/
inductive GpuPc where
  | waiting
  /-- at the test of the work loop -/
  | loop
  | front
  /-- in the task at the front of the queue -/
  | running
  | pop
  | decrement
  /-- about to test `submit_done` -/
  | afterLoop
  /-- in `OnSubmit` and `Flush` -/
  | flush
  /-- about to signal `GpuIdle` -/
  | signal
  deriving DecidableEq

inductive Fault where
  | dcbOutOfReservedSpace
  | ccbOutOfReservedSpace
  deriving DecidableEq

structure State where
  dcbBuffer : CopyBuffer
  ccbBuffer : CopyBuffer
  submits : List GfxTask := []
  numSubmits : ℕ := 0
  submitDone : Bool := false
  submissionLock : Bool := false
  sendInitPacket : Bool := true
  guest : GuestPc := .outside
  gpu : GpuPc := .waiting
  fault : Option Fault := none
  reads : List Read := []
  deriving DecidableEq

inductive Action where
  | sceGnmSubmitCommandBuffers (pairs : List (List ℕ × List ℕ))
  | sceGnmSubmitDone
  /-- the next step of the guest thread in a call -/
  | guest
  /-- the next step of the GPU thread outside tasks -/
  | gpu
  | readDword (ofCcb : Bool) (index : ℕ)
  | taskYields
  | taskDone
  deriving DecidableEq

namespace State

def start (gfxReservedSize : ℕ) : State :=
  { dcbBuffer := { capacity := gfxReservedSize }, ccbBuffer := { capacity := gfxReservedSize } }

def submitGfx (s : State) (dcb ccb : List ℕ) (pairs : List (List ℕ × List ℕ)) : State :=
  if s.dcbBuffer.capacity < s.dcbBuffer.offset + dcb.length then
    { s with fault := some .dcbOutOfReservedSpace }
  else if s.ccbBuffer.capacity < s.ccbBuffer.offset + ccb.length then
    { s with fault := some .ccbOutOfReservedSpace }
  else
    { s with
      dcbBuffer := (s.dcbBuffer.grow dcb.length).copy dcb
      ccbBuffer := (s.ccbBuffer.grow ccb.length).copy ccb
      guest := .emplace ⟨⟨s.dcbBuffer.offset, dcb.length⟩, ⟨s.ccbBuffer.offset, ccb.length⟩,
        dcb, ccb⟩ pairs }

/-- The guest thread in `sceGnmSubmitCommandBuffers` and `sceGnmSubmitDone`. -/
def guestStep (initSequence : List ℕ) (s : State) : Option State :=
  match s.guest with
  | .outside => none
  | .waitSubmit pairs =>
      if s.submissionLock then none else some { s with guest := .submitting pairs }
  | .submitting pairs =>
      if s.sendInitPacket then
        some ({ s with sendInitPacket := false }.submitGfx initSequence [] pairs)
      else
        match pairs with
        | [] => some { s with guest := .outside }
        | (dcb, ccb) :: rest => some (s.submitGfx dcb ccb rest)
  | .emplace task pairs =>
      some { s with submits := s.submits ++ [task], guest := .count pairs }
  | .count pairs => some { s with numSubmits := s.numSubmits + 1, guest := .submitting pairs }
  | .waitDone => if s.submissionLock then none else some { s with guest := .testIdle }
  | .testIdle =>
      some { s with guest := if s.numSubmits = 0 then .submitDone else .raiseLock }
  | .raiseLock => some { s with submissionLock := true, guest := .submitDone }
  | .submitDone =>
      some { s with
        dcbBuffer := { s.dcbBuffer with offset := 0 }
        ccbBuffer := { s.ccbBuffer with offset := 0 }
        submitDone := true
        sendInitPacket := true
        guest := .outside }

/-- The GPU thread in `Process`, outside the tasks. -/
def gpuStep (s : State) : Option State :=
  match s.gpu with
  | .waiting => if s.numSubmits ≠ 0 ∨ s.submitDone then some { s with gpu := .loop } else none
  | .loop => some { s with gpu := if s.numSubmits ≠ 0 then .front else .afterLoop }
  | .front => some { s with gpu := if s.submits.isEmpty then .loop else .running }
  | .running => none
  | .pop => some { s with submits := s.submits.tail, gpu := .decrement }
  | .decrement => some { s with numSubmits := s.numSubmits - 1, gpu := .loop }
  | .afterLoop => some { s with gpu := if s.submitDone then .flush else .signal }
  | .flush => some { s with submitDone := false, gpu := .signal }
  | .signal => some { s with submissionLock := false, gpu := .waiting }

def readDword (s : State) (ofCcb : Bool) (index : ℕ) : Option State :=
  match s.gpu, s.submits with
  | .running, task :: _ =>
      let span := if ofCcb then task.ccb else task.dcb
      let data := if ofCcb then s.ccbBuffer.data else s.dcbBuffer.data
      if index < span.length then
        some { s with reads := ⟨task, ofCcb, index, data.getD (span.start + index) 0⟩ :: s.reads }
      else none
  | _, _ => none

/-- A step of one of the two threads; nothing runs after a failed assertion. -/
def step (initSequence : List ℕ) (s : State) (a : Action) : Option State :=
  if s.fault ≠ none then none
  else
    match a with
    | .sceGnmSubmitCommandBuffers pairs =>
        if s.guest = .outside then some { s with guest := .waitSubmit pairs } else none
    | .sceGnmSubmitDone =>
        if s.guest = .outside then some { s with guest := .waitDone } else none
    | .guest => s.guestStep initSequence
    | .gpu => s.gpuStep
    | .readDword ofCcb index => s.readDword ofCcb index
    | .taskYields => if s.gpu = .running then some { s with gpu := .loop } else none
    | .taskDone => if s.gpu = .running then some { s with gpu := .pop } else none

end State

end CommandCopies

end OrbitConsole.VideoCore
