import OrbitConsole.VideoCore.Pm4

/-!
# The compute queues

`Liverpool::ProcessCompute`: how it puts the packets of a queue together from the
buffers that are submitted. A packet that is executed is kept as its dwords; what
it does is not modelled but for `IndirectBuffer`. A copy that reads beyond the
submitted buffer or writes beyond `tmp_packet` is undefined.
-/

namespace OrbitConsole.VideoCore

open Pm4

def pm4BufferSize : ℕ := 1024

structure AscQueueInfo where
  readAddr : ℕ
  ringSizeDw : ℕ
  tmpPacket : List ℕ
  tmpDwords : ℕ
  deriving DecidableEq

def opIndirectBuffer : ℕ := 0x3F

/-- The other opcodes that `ProcessCompute` has a case for: `Nop`, `DmaData`, `AcquireMem`,
`Rewind`, `SetShReg`, `SetQueueReg`, `DispatchDirect`, `DispatchIndirect`, `WriteData`,
`MemSemaphore`, `WaitRegMem`, `ReleaseMem` and `EventWrite`. -/
def computeOpcodes : List ℕ :=
  [0x10, 0x50, 0x58, 0x59, 0x76, 0x78, 0x15, 0x16, 0x37, 0x39, 0x3c, 0x49, 0x46]

def indirectBuffer (mem : ℕ → ℕ) (packet : List ℕ) : List ℕ :=
  let ibaseLo := packet.getD 1 0
  let ibaseHi := packet.getD 2 0 % 65536
  let ibSize := packet.getD 3 0 % 1048576
  (List.range ibSize).map fun i => mem (ibaseHi * 4294967296 + ibaseLo + 4 * i)

/-- `memcpy` into `tmp_packet`, from a dword of it on. -/
def copyInto (tmp : List ℕ) (offset : ℕ) (data : List ℕ) : List ℕ :=
  tmp.take offset ++ data ++ tmp.drop (offset + data.length)

namespace AscQueueInfo

/-- The part of `read_addr` that only `ProcessCompute<false>` does. -/
def advance (queue : AscQueueInfo) (isIndirect : Bool) (n : ℕ) : Exec AscQueueInfo :=
  if isIndirect then .ok queue
  else if queue.ringSizeDw = 0 then .error .undefined
  else .ok { queue with readAddr := (queue.readAddr + n) % 4294967296 % queue.ringSizeDw }

/-- Where the next packet is read, how many dwords of the buffer it takes, and the queue
without a buffered packet. -/
def fetch (queue : AscQueueInfo) (acb : List ℕ) : Exec (List ℕ × ℕ × AscQueueInfo) :=
  if 0 < queue.tmpDwords then
    let nextDwOff :=
      (packetLength (queue.tmpPacket.headD 0) + 4294967296 - queue.tmpDwords) % 4294967296
    if acb.length < nextDwOff ∨ pm4BufferSize < queue.tmpDwords + nextDwOff then
      .error .undefined
    else
      let tmpPacket := copyInto queue.tmpPacket queue.tmpDwords (acb.take nextDwOff)
      .ok (tmpPacket, nextDwOff, { queue with tmpPacket := tmpPacket, tmpDwords := 0 })
  else .ok (acb, packetLength (acb.headD 0), queue)

end AscQueueInfo

/-- `ProcessCompute`, with the packets it executes. Every loop and call takes one unit of
fuel. -/
def processCompute (mem : ℕ → ℕ) : ℕ → Bool → List ℕ → AscQueueInfo →
    Exec (List (List ℕ) × AscQueueInfo)
  | 0, _, _, _ => .error .diverges
  | fuel + 1, isIndirect, acb, queue =>
      if acb = [] then .ok ([], queue)
      else do
        let (source, nextDwOff, queue) ← queue.fetch acb
        let header := source.headD 0
        if acb.length < nextDwOff then
          if pm4BufferSize < acb.length then .error .undefined
          else
            let queue := { queue with
              tmpPacket := copyInto queue.tmpPacket 0 acb
              tmpDwords := acb.length }
            let queue ← queue.advance isIndirect acb.length
            .ok ([], queue)
        else if headerType header = 2 then
          let queue ← queue.advance isIndirect 1
          processCompute mem fuel isIndirect (acb.drop 1) queue
        else if headerType header ≠ 3 then
          .error (.assertion "Invalid PM4 type")
        else
          let packet := source.take (packetLength header)
          if headerOpcode header = opIndirectBuffer then
            let (inner, queue) ←
              processCompute mem fuel true (indirectBuffer mem packet) queue
            let queue ← queue.advance isIndirect nextDwOff
            let (rest, queue) ←
              processCompute mem fuel isIndirect (acb.drop nextDwOff) queue
            .ok (packet :: inner ++ rest, queue)
          else if headerOpcode header ∈ computeOpcodes then
            let queue ← queue.advance isIndirect nextDwOff
            let (rest, queue) ←
              processCompute mem fuel isIndirect (acb.drop nextDwOff) queue
            .ok (packet :: rest, queue)
          else .error (.assertion "Unknown PM4 type 3 opcode")

/-- Buffers that are submitted one after the other; what `read_addr` points to after each. -/
def submitAll (mem : ℕ → ℕ) (fuel : ℕ) : List (List ℕ) → AscQueueInfo →
    Exec (List (List ℕ) × List ℕ)
  | [], _ => .ok ([], [])
  | acb :: rest, queue => do
      let (packets, queue) ← processCompute mem fuel false acb queue
      let (packets', addrs) ← submitAll mem fuel rest queue
      .ok (packets ++ packets', queue.readAddr :: addrs)

end OrbitConsole.VideoCore
