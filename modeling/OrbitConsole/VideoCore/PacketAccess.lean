import Mathlib.Algebra.Group.Nat.Defs
import OrbitConsole.VideoCore.Pm4

/-!
# What command buffers touch

`Liverpool::ProcessGraphics`, `ProcessCeUpdate` and `ProcessCompute` as the accesses they
make: the dwords they read of a command buffer and what they write of the registers, the
compute state, the constants heap and `tmp_packet`. The guest may write its memory at any
time, so every step has a memory of its own.
-/

namespace OrbitConsole.VideoCore

open Pm4

def numRegs : ℕ := 0xD000
def configRegWordOffset : ℕ := 0x2000
def shRegWordOffset : ℕ := 0x2C00
def contextRegWordOffset : ℕ := 0xA000
def uconfigRegWordOffset : ℕ := 0xC000

def computeProgramDwords : ℕ := 80

def constantsHeapSize : ℕ := 49152

def tmpPacketSize : ℕ := 1024

/-- What a step of a command processor touches. -/
inductive Access
  /-- Dwords of the packet, of which `available` lie in the submitted span. -/
  | dwords (first count available : ℕ)
  /-- A packet is executed. -/
  | execute (length available : ℕ)
  /-- The header before the byte `offset` of the submitted span. -/
  | headerBefore (offset : ℕ)
  /-- Dwords of `reg_array`. -/
  | regs (first count : ℕ)
  /-- Dwords of the compute state of a queue. -/
  | csState (first count : ℕ)
  /-- Bytes of the constants heap. -/
  | constants (first count : ℕ)
  /-- Dwords of `tmp_packet`. -/
  | tmpPacket (first count : ℕ)
  deriving DecidableEq

/-- A block copy stays in an array; one of no elements touches nothing. -/
def BlockIn (first count size : ℕ) : Prop := count = 0 ∨ first + count ≤ size

instance (first count size : ℕ) : Decidable (BlockIn first count size) :=
  inferInstanceAs (Decidable (_ ∨ _))

/-- The access stays where it belongs. -/
def Access.InBounds : Access → Prop
  | .dwords first count available => BlockIn first count available
  | .execute length available => length ≤ available
  | .headerBefore offset => 4 ≤ offset
  | .regs first count => BlockIn first count numRegs
  | .csState first count => BlockIn first count computeProgramDwords
  | .constants first count => BlockIn first count constantsHeapSize
  | .tmpPacket first count => BlockIn first count tmpPacketSize

instance : DecidablePred Access.InBounds := fun a => by
  cases a <;> unfold Access.InBounds <;> infer_instance

/-- What the processor is built and run with. -/
structure Config where
  rasterizer : Bool
  guestMarkers : Bool

/-- What a step finds: the memory of the guest, whether the test of a wait succeeds, and how
many dwords of a marker's label the driver reads. -/
structure Env where
  mem : ℕ → ℕ
  ready : Bool
  label : ℕ

/-- Dwords of a command buffer. -/
structure Span where
  addr : ℕ
  size : ℕ
  deriving DecidableEq

def nextPacket (span : Span) (offset : ℕ) : Span :=
  if span.size < offset then { addr := 0, size := 0 }
  else { addr := span.addr + 4 * offset, size := span.size - offset }

structure Packet where
  dword : ℕ → ℕ
  available : ℕ

/-- What becomes of the buffer after a packet. -/
inductive Outcome
  | next
  | skip (dwords : ℕ)
  | call (span : Span)
  | wait
  | stop
  deriving DecidableEq

/-- A bit field of a dword. -/
def bits (raw first width : ℕ) : ℕ := raw / 2 ^ first % 2 ^ width

namespace Packet

/-- Reads of single dwords. -/
def fields (p : Packet) (indices : List ℕ) : List Access :=
  indices.map fun i => .dwords i 1 p.available

/-- `PM4CmdSetData::reg_offset`, and the offset of the packets that go to the constants heap. -/
def regOffset (p : Packet) : ℕ := p.dword 1 % 65536

/-- `PM4CmdIndirectBuffer`. -/
def indirect (p : Packet) : Span :=
  { addr := bits (p.dword 2) 0 16 * 4294967296 + p.dword 1, size := bits (p.dword 3) 0 20 }

end Packet

/-- `count - 1` of a `Set*Reg` packet. -/
def payloadDwords (count : ℕ) : ℕ := (count + 4294967295) % 4294967296

def setReg (base count : ℕ) (p : Packet) : List Access :=
  p.fields [1] ++ [.dwords 2 (payloadDwords count) p.available,
    .regs (base + p.regOffset) (payloadDwords count)]

def setDefaults : List Access :=
  .regs 0 numRegs :: .regs (contextRegWordOffset + 0x80) 85 ::
    [0x00d, 0x1b6, 0x204, 0x205, 0x295, 0x296, 0x297, 0x2aa, 0x2f7, 0x2f9, 0x2fa, 0x2fb, 0x2fc,
      0x2fd, 0x316, 0x317].map fun i => .regs (contextRegWordOffset + i) 1

def cbColorBases : List ℕ :=
  [0xA318, 0xA327, 0xA336, 0xA345, 0xA354, 0xA363, 0xA372, 0xA381]

def cbColorCmasks : List ℕ :=
  [0xA31F, 0xA32E, 0xA33D, 0xA34C, 0xA35B, 0xA36A, 0xA379, 0xA388]

def dbZInfo : ℕ := 0xA010

def nopHint (regAddr count : ℕ) : Option ℕ :=
  if regAddr ∈ cbColorBases then
    if count = 0x0e ∨ count = 0x0d ∨ count = 0x0b then some count else none
  else if regAddr ∈ cbColorCmasks then
    if count = 4 then some count else none
  else if regAddr = dbZInfo then
    if count = 8 then some 20 else none
  else none

def setContextReg (count : ℕ) (p : Packet) : List Access × Outcome :=
  let accesses := setReg contextRegWordOffset count p
  match nopHint (contextRegWordOffset + p.regOffset) (headerCount (p.dword 0)) with
  | none => (accesses, .next)
  | some hint =>
      if p.dword (2 + hint) = 0xc0001000 then
        (accesses ++ p.fields [2 + hint, 3 + hint], .next)
      else (accesses ++ p.fields [2 + hint], .stop)

/-- The destination of `SetShReg` is the compute state. -/
def ComputeReg (p : Packet) : Prop :=
  0x200 ≤ p.regOffset ∧ p.regOffset ≤ 0x200 + computeProgramDwords

instance (p : Packet) : Decidable (ComputeReg p) := inferInstanceAs (Decidable (_ ∧ _))

def setShReg (count : ℕ) (p : Packet) : List Access × Outcome :=
  if ComputeReg p then
    if payloadDwords count ≤ computeProgramDwords then
      (p.fields [1] ++ [.dwords 2 (payloadDwords count) p.available,
        .csState (p.regOffset - 0x200) (payloadDwords count)], .next)
    else (p.fields [1], .stop)
  else (setReg shRegWordOffset count p, .next)

def debugMarkerPush : ℕ := 0x68750001
def debugColorMarkerPush : ℕ := 0x6875000e

def graphicsNop (cfg : Config) (env : Env) (p : Packet) : List Access :=
  let count := headerCount (p.dword 0)
  if count = 0 then []
  else if (p.dword 1 = debugMarkerPush ∨ p.dword 1 = debugColorMarkerPush) ∧
      cfg.rasterizer = true ∧ cfg.guestMarkers = true then
    if p.dword 1 = debugMarkerPush then
      p.fields [1] ++ [.dwords 2 env.label p.available]
    else
      p.fields [1] ++ [.dwords (2 + count / 2) (1 + count % 2) p.available,
        .dwords 2 env.label p.available]
  else p.fields [1]

def eventWrite (p : Packet) : List Access :=
  if bits (p.dword 1) 0 6 ≠ 31 ∧ bits (p.dword 1) 8 4 = 1 ∧ bits (p.dword 1) 0 6 = 57 then
    p.fields [1, 2, 3]
  else p.fields [1]

def eventWriteEos (cfg : Config) (p : Packet) : List Access × Outcome :=
  let command := bits (p.dword 3) 29 3
  if command = 2 then (p.fields [3, 2, 4], .next)
  else if command = 1 then
    if bits (p.dword 4) 16 16 = 1 then
      (p.fields [3, 4] ++ if cfg.rasterizer then p.fields [4, 2] else [], .next)
    else (p.fields [3, 4], .stop)
  else (p.fields [3], .stop)

def eventWriteEop (p : Packet) : List Access × Outcome :=
  let dataSel := bits (p.dword 3) 29 3
  let intSel := bits (p.dword 3) 24 2
  let data := if dataSel = 1 then [4] else if dataSel = 2 then [4, 5] else []
  (p.fields ([2, 3] ++ data),
    if 4 < dataSel ∨ intSel = 3 ∨ (intSel = 1 ∧ dataSel ≠ 0) then .stop else .next)

/-- What `DmaData` reads for its source and destination; `none` where it stops. -/
def dmaOperands (p : Packet) : Option (List ℕ) :=
  let src := bits (p.dword 1) 29 2
  let dst := bits (p.dword 1) 20 2
  let toMemory := dst = 0 ∨ dst = 3
  let fromMemory := src = 0 ∨ src = 3
  if src = 2 ∧ dst = 1 then some [4, 6, 2]
  else if fromMemory ∧ dst = 1 then some [4, 2, 3, 6]
  else if src = 2 ∧ toMemory then some [4, 5, 6, 2]
  else if src = 1 ∧ toMemory then some [4, 5, 2, 6]
  else if fromMemory ∧ toMemory then some [4, 5, 2, 3, 6]
  else none

def dmaData (cfg : Config) (p : Packet) : List Access × Outcome :=
  if p.dword 4 = 0x3022C ∨ cfg.rasterizer = false then (p.fields [4], .next)
  else
    match dmaOperands p with
    | some operands => (p.fields ([4, 1] ++ operands), .next)
    | none => (p.fields [4, 1], .stop)

/-- The bytes of `WriteData`, in dwords: `(count - 2) * 4` in 32 bits. -/
def writeDataDwords (p : Packet) : ℕ :=
  (headerCount (p.dword 0) + 4294967294) * 4 % 4294967296 / 4

/-- `WriteData`; the graphics queue takes the address before it looks at `wr_one_addr`. -/
def writeData (early : Bool) (p : Packet) : List Access × Outcome :=
  if bits (p.dword 1) 8 4 = 2 ∨ bits (p.dword 1) 8 4 = 5 then
    if bits (p.dword 1) 16 1 = 0 then
      (p.fields [1, 2, 3] ++ [.dwords 4 (writeDataDwords p) p.available], .next)
    else (p.fields (1 :: if early then [2, 3] else []), .stop)
  else (p.fields [1], .stop)

def memSemaphore (env : Env) (p : Packet) : List Access × Outcome :=
  (p.fields [2, 1], if bits (p.dword 2) 29 3 = 6 ∨ env.ready then .next else .wait)

def rewind (cfg : Config) (p : Packet) : List Access × Outcome :=
  if cfg.rasterizer then
    (p.fields [1], if bits (p.dword 1) 31 1 = 1 then .next else .wait)
  else ([], .next)

/-- `PM4CmdWaitRegMem::Test`: the operands, and whether the function is a reserved one. -/
def waitTest (env : Env) (p : Packet) : List Access × Outcome :=
  let operands := if bits (p.dword 1) 4 1 = 1 then [1, 2, 3] else [1, 2]
  let function := bits (p.dword 1) 0 3
  if function = 0 then (p.fields operands, .next)
  else if function = 7 then (p.fields operands, .stop)
  else (p.fields (operands ++ [4, 5]), if env.ready then .next else .wait)

/-- The opcodes that some processor has a case for. -/
inductive PM4ItOpcode
  | Nop | SetBase | ClearState | IndexBufferSize | DispatchDirect | DispatchIndirect
  | SetPredication | CondExec | DrawIndirect | DrawIndexIndirect | IndexBase | DrawIndex2
  | ContextControl | IndexType | DrawIndirectMulti | DrawIndexAuto | NumInstances
  | IndirectBufferConst | StrmoutBufferUpdate | DrawIndexOffset2 | WriteData
  | DrawIndexIndirectMulti | MemSemaphore | WaitRegMem | IndirectBuffer | CopyData | PfpSyncMe
  | EventWrite | EventWriteEop | EventWriteEos | ReleaseMem | DmaData | AcquireMem | Rewind
  | SetConfigReg | SetContextReg | SetShReg | SetQueueReg | SetUconfigReg | WriteConstRam
  | DumpConstRam | IncrementCeCounter | IncrementDeCounter | WaitOnCeCounter
  | WaitOnDeCounterDiff | GetLodStats | DrawIndexIndirectCountMulti
  deriving DecidableEq

def PM4ItOpcode.ofRaw : ℕ → Option PM4ItOpcode
  | 0x10 => some .Nop
  | 0x11 => some .SetBase
  | 0x12 => some .ClearState
  | 0x13 => some .IndexBufferSize
  | 0x15 => some .DispatchDirect
  | 0x16 => some .DispatchIndirect
  | 0x20 => some .SetPredication
  | 0x22 => some .CondExec
  | 0x24 => some .DrawIndirect
  | 0x25 => some .DrawIndexIndirect
  | 0x26 => some .IndexBase
  | 0x27 => some .DrawIndex2
  | 0x28 => some .ContextControl
  | 0x2A => some .IndexType
  | 0x2C => some .DrawIndirectMulti
  | 0x2D => some .DrawIndexAuto
  | 0x2F => some .NumInstances
  | 0x33 => some .IndirectBufferConst
  | 0x34 => some .StrmoutBufferUpdate
  | 0x35 => some .DrawIndexOffset2
  | 0x37 => some .WriteData
  | 0x38 => some .DrawIndexIndirectMulti
  | 0x39 => some .MemSemaphore
  | 0x3C => some .WaitRegMem
  | 0x3F => some .IndirectBuffer
  | 0x40 => some .CopyData
  | 0x42 => some .PfpSyncMe
  | 0x46 => some .EventWrite
  | 0x47 => some .EventWriteEop
  | 0x48 => some .EventWriteEos
  | 0x49 => some .ReleaseMem
  | 0x50 => some .DmaData
  | 0x58 => some .AcquireMem
  | 0x59 => some .Rewind
  | 0x68 => some .SetConfigReg
  | 0x69 => some .SetContextReg
  | 0x76 => some .SetShReg
  | 0x78 => some .SetQueueReg
  | 0x79 => some .SetUconfigReg
  | 0x81 => some .WriteConstRam
  | 0x83 => some .DumpConstRam
  | 0x84 => some .IncrementCeCounter
  | 0x85 => some .IncrementDeCounter
  | 0x86 => some .WaitOnCeCounter
  | 0x88 => some .WaitOnDeCounterDiff
  | 0x8E => some .GetLodStats
  | 0x9D => some .DrawIndexIndirectCountMulti
  | _ => none

def releaseMem (p : Packet) : List Access × Outcome :=
  let dataSel := bits (p.dword 2) 29 3
  let intSel := bits (p.dword 2) 24 3
  let data :=
    if dataSel = 1 ∨ dataSel = 5 then [3, 4, 5]
    else if dataSel = 2 then [3, 4, 5, 6]
    else if dataSel = 3 ∨ dataSel = 4 then [3, 4]
    else []
  (p.fields (2 :: data),
    if dataSel = 0 ∨ 5 < dataSel ∨ (intSel ≠ 0 ∧ intSel ≠ 2 ∧ intSel ≠ 3) then .stop else .next)

def graphicsPacket (cfg : Config) (env : Env) (count : ℕ) (p : Packet) :
    PM4ItOpcode → Option (List Access × Outcome)
  | .Nop => some (graphicsNop cfg env p, .next)
  | .ContextControl | .SetPredication | .AcquireMem | .IncrementDeCounter | .PfpSyncMe
  | .GetLodStats => some ([], .next)
  | .ClearState => some (setDefaults, .next)
  | .SetConfigReg => some (setReg configRegWordOffset count p, .next)
  | .SetContextReg => some (setContextReg count p)
  | .SetShReg => some (setShReg count p)
  | .SetUconfigReg => some (setReg uconfigRegWordOffset count p, .next)
  | .IndexType | .NumInstances | .IndexBufferSize | .DrawIndirect | .DrawIndexIndirect
  | .DispatchIndirect | .CopyData | .StrmoutBufferUpdate => some (p.fields [1], .next)
  | .IndexBase | .DrawIndexAuto => some (p.fields [1, 2], .next)
  | .DrawIndex2 => some (p.fields [1, 2, 3, 4, 5], .next)
  | .DrawIndexOffset2 =>
      some (p.fields ([1, 3, 4] ++ if cfg.rasterizer then [2] else []), .next)
  | .DrawIndirectMulti | .DrawIndexIndirectMulti =>
      some (p.fields ([1] ++ if cfg.rasterizer then [5, 4] else []), .next)
  | .DrawIndexIndirectCountMulti =>
      some (p.fields ([1] ++ if cfg.rasterizer then
        [8, 5, 4] ++ if bits (p.dword 4) 30 1 = 1 then [6, 7] else [] else []), .next)
  | .DispatchDirect => some (p.fields [1, 2, 3, 4], .next)
  | .SetBase =>
      some (if bits (p.dword 1) 0 4 = 1 then (p.fields [1, 2, 3], .next)
        else (p.fields [1], .stop))
  | .EventWrite => some (eventWrite p, .next)
  | .EventWriteEos => some (eventWriteEos cfg p)
  | .EventWriteEop => some (eventWriteEop p)
  | .DmaData => some (dmaData cfg p)
  | .WriteData => some (writeData true p)
  | .MemSemaphore => some (memSemaphore env p)
  | .Rewind => some (rewind cfg p)
  | .WaitRegMem => some (p.fields [3, 2] ++ (waitTest env p).1, (waitTest env p).2)
  | .IndirectBuffer => some (p.fields [1, 2, 3], .call p.indirect)
  | .WaitOnCeCounter => some ([], if env.ready then .next else .wait)
  | .CondExec =>
      -- the flag is a byte of the guest's memory
      if env.mem (bits (p.dword 2) 0 16 * 4294967296 + bits (p.dword 1) 2 30 * 4) % 256 = 0 then
        some (p.fields [2, 1, 3], .skip (packetLength (p.dword 0) + bits (p.dword 3) 0 14))
      else some (p.fields [2, 1], .next)
  | _ => none

/-- The cases of `ProcessCeUpdate`. -/
def constantPacket (env : Env) (p : Packet) : PM4ItOpcode → Option (List Access × Outcome)
  | .Nop | .IncrementCeCounter => some ([], .next)
  | .WriteConstRam =>
      some (p.fields [1] ++ [.dwords 2 (headerCount (p.dword 0)) p.available,
        .constants p.regOffset (4 * headerCount (p.dword 0))], .next)
  | .DumpConstRam =>
      some (p.fields [3, 4, 1, 2] ++
        [.constants p.regOffset (4 * bits (p.dword 2) 0 15)], .next)
  | .WaitOnDeCounterDiff => some (p.fields [1], if env.ready then .next else .wait)
  | .IndirectBufferConst => some (p.fields [1, 2, 3], .call p.indirect)
  | _ => none

/-- A packet that is being executed: its opcode, `NumWords` of its header, how far the next one
is, and how many dwords it has if it was put together in `tmp_packet`. -/
structure Executing where
  op : PM4ItOpcode
  count : ℕ
  next : ℕ
  buffered : Option ℕ

/-- A call of one of the processors: its buffer, what is left of it, the headers that
`indirect_patches` names, and the packet it is in. -/
structure Frame where
  buffer : Span
  rest : Span
  patches : List ℕ
  executing : Option Executing

/-- A call with a submitted or an indirect buffer. -/
def Frame.ofSpan (span : Span) : Frame :=
  { buffer := span, rest := span, patches := [], executing := none }

def Span.packet (span : Span) (mem : ℕ → ℕ) : Packet :=
  { dword := fun i => mem (span.addr + 4 * i), available := span.size }

/-- `DmaData` that writes the dimensions of a dispatch of the same buffer: the header before
them is looked at. -/
def PatchesDispatch (cfg : Config) (buffer : Span) (p : Packet) : Prop :=
  let dst := p.dword 5 * 4294967296 + p.dword 4
  p.dword 4 ≠ 0x3022C ∧ cfg.rasterizer = true ∧ dmaOperands p = some [4, 5, 2, 3, 6] ∧
    buffer.addr ≤ dst ∧ dst < buffer.addr + 4 * buffer.size ∧ bits (p.dword 6) 0 21 = 12

instance (cfg : Config) (buffer : Span) (p : Packet) :
    Decidable (PatchesDispatch cfg buffer p) := by
  unfold PatchesDispatch
  infer_instance

def computeDmaData (cfg : Config) (env : Env) (buffer : Span) (p : Packet) :
    List Access × Outcome × Option ℕ :=
  let dst := p.dword 5 * 4294967296 + p.dword 4
  if PatchesDispatch cfg buffer p then
    ((dmaData cfg p).1 ++ [.headerBefore (dst - buffer.addr)], .next,
      if headerType (env.mem (dst - 4)) = 3 ∧ headerOpcode (env.mem (dst - 4)) = 0x15 then
        some (dst - 4)
      else none)
  else ((dmaData cfg p).1, (dmaData cfg p).2, none)

/-- The cases of `ProcessCompute` but for `DmaData`; `header` is where the packet is in
memory, unless it was buffered. -/
def computePacket (cfg : Config) (env : Env) (count : ℕ) (patches : List ℕ) (header : Option ℕ)
    (p : Packet) : PM4ItOpcode → Option (List Access × Outcome)
  | .Nop | .AcquireMem | .EventWrite => some ([], .next)
  | .IndirectBuffer => some (p.fields [1, 2, 3], .call p.indirect)
  | .Rewind => some (rewind cfg p)
  | .SetShReg => some (setShReg count p)
  | .SetQueueReg => some (p.fields [1], .next)
  | .DispatchDirect =>
      some (if ∃ a ∈ patches, header = some a then [] else p.fields [1, 2, 3, 4], .next)
  | .DispatchIndirect => some (p.fields [1, 2], .next)
  | .WriteData => some (writeData false p)
  | .MemSemaphore => some (memSemaphore env p)
  | .WaitRegMem =>
      some (if bits (p.dword 1) 8 1 = 0 then waitTest env p else (p.fields [1], .stop))
  | .ReleaseMem => some (releaseMem p)
  | _ => none

/-- Which of the processors runs. -/
inductive Engine
  | graphics
  | constant
  | compute
  deriving DecidableEq

/-- The calls that are active, the innermost first, and the packet that `AscQueueInfo`
buffers. -/
structure ProcState where
  frames : List Frame
  tmpPacket : ℕ → ℕ
  tmpDwords : ℕ

/-- A buffer is submitted. -/
def ProcState.start (span : Span) (tmpPacket : ℕ → ℕ) (tmpDwords : ℕ) : ProcState :=
  { frames := [Frame.ofSpan span], tmpPacket, tmpDwords }

namespace Frame

def advance (f : Frame) (n : ℕ) : Frame :=
  { f with rest := nextPacket f.rest n, executing := none }

/-- The frame begins a packet. -/
def enter (f : Frame) (header next : ℕ) (buffered : Option ℕ) : Option Frame :=
  (PM4ItOpcode.ofRaw (headerOpcode header)).map fun op =>
    { f with executing := some { op, count := numWords header, next, buffered } }

def packet (f : Frame) (mem tmpPacket : ℕ → ℕ) (e : Executing) : Packet :=
  match e.buffered with
  | none => f.rest.packet mem
  | some n => { dword := tmpPacket, available := n }

end Frame

/-- The head of the loop of `ProcessGraphics` and `ProcessCeUpdate`. -/
def fetchPacket (engine : Engine) (env : Env) (s : ProcState) (f : Frame) (below : List Frame) :
    List Access × Option ProcState :=
  let header := env.mem f.rest.addr
  let next : Option Frame :=
    if headerType header = 2 ∧ engine = .graphics then some (f.advance 1)
    else if headerType header = 3 then f.enter header (packetLength header) none
    else none
  ([.dwords 0 1 f.rest.size], next.map fun f' => { s with frames := f' :: below })

/-- `header` is in `tmp_packet`: how much of the buffer completes the packet there. -/
def buffered (s : ProcState) : ℕ :=
  (packetLength (s.tmpPacket 0) + 4294967296 - s.tmpDwords) % 4294967296

def copyDwords (tmpPacket : ℕ → ℕ) (first count : ℕ) (source : ℕ → ℕ) : ℕ → ℕ :=
  fun i => if first ≤ i ∧ i < first + count then source (i - first) else tmpPacket i

def fetchCompute (env : Env) (s : ProcState) (f : Frame) (below : List Frame) :
    List Access × Option ProcState :=
  let source := (f.rest.packet env.mem).dword
  let isBuffered := 0 < s.tmpDwords
  let next := if isBuffered then buffered s else packetLength (source 0)
  let tmpPacket := if isBuffered then copyDwords s.tmpPacket s.tmpDwords next source
    else s.tmpPacket
  let header := if isBuffered then tmpPacket 0 else source 0
  let available := if isBuffered then some (s.tmpDwords + next) else none
  let copies : List Access :=
    if isBuffered then [.dwords 0 next f.rest.size, .tmpPacket s.tmpDwords next] else []
  if f.rest.size < next then
    (.dwords 0 1 f.rest.size :: copies ++ [.tmpPacket 0 f.rest.size],
      some { s with
        frames := { f with rest := { f.rest with size := 0 } } :: below
        tmpPacket := copyDwords tmpPacket 0 f.rest.size source
        tmpDwords := f.rest.size })
  else
    let frame : Option Frame :=
      if headerType header = 2 then some (f.advance 1)
      else if headerType header = 3 then f.enter header next available
      else none
    (.dwords 0 1 f.rest.size :: copies,
      frame.map fun f' => { frames := f' :: below, tmpPacket, tmpDwords := 0 })

/-- The end of a packet: `ProcessGraphics` and `ProcessCeUpdate` read its header again. -/
def finishPacket (engine : Engine) (env : Env) (f : Frame) (e : Executing) : List Access × Frame :=
  if engine = .compute then ([], f.advance e.next)
  else ([.dwords 0 1 f.rest.size], f.advance (packetLength (env.mem f.rest.addr)))

def packetCase (cfg : Config) (engine : Engine) (env : Env) (f : Frame) (e : Executing)
    (p : Packet) : Option (List Access × Outcome × Option ℕ) :=
  match engine with
  | .graphics => (graphicsPacket cfg env e.count p e.op).map fun r => (r.1, r.2, none)
  | .constant => (constantPacket env p e.op).map fun r => (r.1, r.2, none)
  | .compute =>
      if e.op = .DmaData then some (computeDmaData cfg env f.buffer p)
      else
        let header := if e.buffered = none then some f.rest.addr else none
        (computePacket cfg env e.count f.patches header p e.op).map fun r => (r.1, r.2, none)

def executePacket (cfg : Config) (engine : Engine) (env : Env) (s : ProcState) (f : Frame)
    (below : List Frame) (e : Executing) : List Access × Option ProcState :=
  let p := f.packet env.mem s.tmpPacket e
  match packetCase cfg engine env f e p with
  | none => ([], none)
  | some (accesses, outcome, patch) =>
      let f := { f with patches := patch.toList ++ f.patches }
      let accesses := .execute (e.count + 1) p.available :: accesses
      match outcome with
      | .next =>
          let (header, f) := finishPacket engine env f e
          (accesses ++ header, some { s with frames := f :: below })
      | .skip n => (accesses, some { s with frames := f.advance n :: below })
      | .call span => (accesses, some { s with frames := Frame.ofSpan span :: f :: below })
      | .wait => (accesses, some s)
      | .stop => (accesses, none)

/-- A step of a processor: what it touches, and the state after it unless it is done or
stops. -/
def procStep (cfg : Config) (engine : Engine) (env : Env) (s : ProcState) :
    List Access × Option ProcState :=
  match s.frames with
  | [] => ([], none)
  | f :: below =>
      match f.executing with
      | some e => executePacket cfg engine env s f below e
      | none =>
          if f.rest.size = 0 then
            match below with
            | [] => ([], none)
            | caller :: below =>
                match caller.executing with
                | none => ([], none)
                | some e =>
                    let (header, caller) := finishPacket engine env caller e
                    (header, some { s with frames := caller :: below })
          else if engine = .compute then fetchCompute env s f below
          else fetchPacket engine env s f below

/-- What a processor touches as it runs. -/
def procRun (cfg : Config) (engine : Engine) : List Env → ProcState → List Access
  | [], _ => []
  | env :: rest, s =>
      (procStep cfg engine env s).1 ++
        match (procStep cfg engine env s).2 with
        | none => []
        | some s' => procRun cfg engine rest s'

end OrbitConsole.VideoCore
