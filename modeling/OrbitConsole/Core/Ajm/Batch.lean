import OrbitConsole.Common.Machine
import OrbitConsole.Library.Bytes

/-!
# Audio batches

The functions that write the jobs of a batch one after another into a buffer, and
`AjmBatch::FromBatchBuffer`, which reads them back. A read past the end of the bytes it
is made on, which only a `DEBUG_ASSERT` would notice, is `Fault.undefined`. Guest memory
is a parameter; pointers into it do not wrap around. The parser also initialises the
sideband structures in guest memory; they are taken not to lie in the batch, nor in what
is read while it is parsed.
-/

namespace OrbitConsole.Ajm

open Bytes

def ajmIdentJob : ℕ := 0
def ajmIdentInputRunBuf : ℕ := 1
def ajmIdentInputControlBuf : ℕ := 2
def ajmIdentControlFlags : ℕ := 3
def ajmIdentRunFlags : ℕ := 4
def ajmIdentReturnAddressBuf : ℕ := 6
def ajmIdentInlineBuf : ℕ := 7
def ajmIdentOutputRunBuf : ℕ := 17
def ajmIdentOutputControlBuf : ℕ := 18

def ajmInstanceStatistics : ℕ := 0x80000

structure AjmBuffer where
  pAddress : ℕ
  size : ℕ
  deriving DecidableEq

def AjmBuffer.NonEmpty (b : AjmBuffer) : Prop := b.pAddress ≠ 0 ∧ b.size ≠ 0

instance : DecidablePred AjmBuffer.NonEmpty := fun _ => inferInstanceAs (Decidable (_ ∧ _))

/-! ### Writing -/

/-- `ident` and `payload` of a header; the reserved bits stay those of the last byte there. -/
def chunkHeader (last : UInt8) (ident payload : ℕ) : List UInt8 :=
  little 4 (ident % 64 + payload % 1048576 * 64 + last.toNat / 4 * 67108864)

def chunkBuffer (last : UInt8) (ident : ℕ) (b : AjmBuffer) : List UInt8 :=
  chunkHeader last ident 0 ++ little 4 b.size ++ little 8 b.pAddress

def chunkFlags (last : UInt8) (ident flags : ℕ) : List UInt8 :=
  chunkHeader last ident (flags / 4294967296) ++ little 4 flags

/-- A chunk behind the job's chunks so far; `old i` is the byte that stood at the place `i`
of the job. -/
def writeBuffer (old : ℕ → UInt8) (ident : ℕ) (b : AjmBuffer) (out : List UInt8) : List UInt8 :=
  out ++ chunkBuffer (old (8 + out.length + 3)) ident b

def writeFlags (old : ℕ → UInt8) (ident flags : ℕ) (out : List UInt8) : List UInt8 :=
  out ++ chunkFlags (old (8 + out.length + 3)) ident flags

def writeReturnAddress (old : ℕ → UInt8) (pReturnAddress : ℕ) (out : List UInt8) : List UInt8 :=
  if pReturnAddress ≠ 0 then writeBuffer old ajmIdentReturnAddressBuf ⟨pReturnAddress, 0⟩ out
  else out

/-- The loops over split buffers. -/
def writeBuffers (old : ℕ → UInt8) (ident : ℕ) (bs : List AjmBuffer) (out : List UInt8) :
    List UInt8 :=
  bs.foldl (fun out b => writeBuffer old ident b out) out

def writeJob (old : ℕ → UInt8) (instanceId : ℕ) (chunks : List UInt8) : List UInt8 :=
  chunkHeader (old 3) ajmIdentJob instanceId ++ little 4 chunks.length ++ chunks

def controlMask (instanceId : ℕ) : ℕ :=
  if instanceId = ajmInstanceStatistics then 0xC0018007 else 0x60000000E7FF

def runMask : ℕ := 0xE00000001FFF

inductive Call where
  | batchJobControlBufferRa (instanceId flags : ℕ) (sidebandInput sidebandOutput : AjmBuffer)
      (pReturnAddress : ℕ)
  | batchJobInlineBuffer (dataInput : List UInt8)
  | batchJobRunBufferRa (instanceId flags : ℕ) (dataInput dataOutput sidebandOutput : AjmBuffer)
      (pReturnAddress : ℕ)
  | batchJobRunSplitBufferRa (instanceId flags : ℕ) (dataInputBuffers : List AjmBuffer)
      (dataOutputBuffers : List AjmBuffer) (sidebandOutput : AjmBuffer) (pReturnAddress : ℕ)

def runChunks (old : ℕ → UInt8) (flags : ℕ) (inputs outputs : List AjmBuffer)
    (sidebandOutput : AjmBuffer) (pReturnAddress : ℕ) : List UInt8 :=
  let out := writeReturnAddress old pReturnAddress []
  let out := writeBuffers old ajmIdentInputRunBuf inputs out
  let out := writeFlags old ajmIdentRunFlags (flags &&& runMask) out
  let out := writeBuffers old ajmIdentOutputRunBuf outputs out
  writeBuffer old ajmIdentOutputControlBuf sidebandOutput out

def controlChunks (old : ℕ → UInt8) (instanceId flags : ℕ) (sidebandInput sidebandOutput : AjmBuffer)
    (pReturnAddress : ℕ) : List UInt8 :=
  let out := writeReturnAddress old pReturnAddress []
  let out := writeBuffer old ajmIdentInputControlBuf sidebandInput out
  let out := writeFlags old ajmIdentControlFlags (flags &&& controlMask instanceId) out
  writeBuffer old ajmIdentOutputControlBuf sidebandOutput out

def Call.write (old : ℕ → UInt8) : Call → List UInt8
  | .batchJobControlBufferRa instanceId flags sidebandInput sidebandOutput pReturnAddress =>
      writeJob old instanceId
        (controlChunks old instanceId flags sidebandInput sidebandOutput pReturnAddress)
  | .batchJobInlineBuffer dataInput =>
      let size := alignUp dataInput.length 8 % 4294967296
      chunkHeader (old 3) ajmIdentInlineBuf 0 ++ little 4 size ++
        (List.range size).map fun i => dataInput.getD i (old (8 + i))
  | .batchJobRunBufferRa instanceId flags dataInput dataOutput sidebandOutput pReturnAddress =>
      writeJob old instanceId
        (runChunks old flags [dataInput] [dataOutput] sidebandOutput pReturnAddress)
  | .batchJobRunSplitBufferRa instanceId flags inputs outputs sidebandOutput pReturnAddress =>
      writeJob old instanceId (runChunks old flags inputs outputs sidebandOutput pReturnAddress)

/-- Calls one after another, each over what stood in the buffer. -/
def writeBatch (calls : List ((ℕ → UInt8) × Call)) : List UInt8 :=
  calls.flatMap fun c => c.2.write c.1

/-! ### Reading -/

def consume (n : ℕ) (buf : List UInt8) : Exec (List UInt8 × List UInt8) :=
  if n ≤ buf.length then .ok (buf.take n, buf.drop n) else .error .undefined

/-- `Peek<AjmChunkHeader>`: `ident` and `payload`. -/
def peekHeader (buf : List UInt8) : Exec (ℕ × ℕ) := do
  let (bytes, _) ← consume 4 buf
  let word := ofLittle bytes
  .ok (word % 64, word / 64 % 1048576)

def consumeBuffer (buf : List UInt8) : Exec (AjmBuffer × List UInt8) := do
  let (_, rest) ← consume 4 buf
  let (size, rest) ← consume 4 rest
  let (pAddress, rest) ← consume 8 rest
  .ok (⟨ofLittle pAddress, ofLittle size⟩, rest)

def consumeFlags (buf : List UInt8) : Exec (ℕ × List UInt8) := do
  let (_, payload) ← peekHeader buf
  let (_, rest) ← consume 4 buf
  let (low, rest) ← consume 4 rest
  .ok (payload * 4294967296 + ofLittle low, rest)

/-- The local variables of the job parsers. -/
structure Params where
  jobFlags : Option ℕ := none
  inputControlBuffer : Option AjmBuffer := none
  outputControlBuffer : Option AjmBuffer := none
  input : List UInt8 := []
  outputs : List AjmBuffer := []
  deriving DecidableEq

def bytesAt (mem : ℕ → UInt8) (addr size : ℕ) : List UInt8 :=
  (List.range size).map fun i => mem (addr + i)

/-- One round of the loop of a job parser; the one of statistics jobs knows fewer chunks. -/
def readChunk (mem : ℕ → UInt8) (statistics : Bool) (buf : List UInt8) (s : Params) :
    Exec (Params × List UInt8) := do
  let (ident, _) ← peekHeader buf
  if ident = ajmIdentInputRunBuf ∧ statistics = false then
    let (b, rest) ← consumeBuffer buf
    .ok ({ s with input := s.input ++ bytesAt mem b.pAddress b.size }, rest)
  else if ident = ajmIdentInputControlBuf then
    assertMsg (s.inputControlBuffer = none)
      "Only one instance of input control buffer is allowed per job"
    let (b, rest) ← consumeBuffer buf
    .ok (if b.NonEmpty then { s with inputControlBuffer := some b } else s, rest)
  else if ident = ajmIdentControlFlags ∨ ident = ajmIdentRunFlags ∧ statistics = false then
    assertMsg (s.jobFlags = none) "Only one instance of job flags is allowed per job"
    let (flags, rest) ← consumeFlags buf
    .ok ({ s with jobFlags := some flags }, rest)
  else if ident = ajmIdentReturnAddressBuf then
    let (_, rest) ← consume 16 buf
    .ok (s, rest)
  else if ident = ajmIdentOutputRunBuf ∧ statistics = false then
    let (b, rest) ← consumeBuffer buf
    .ok (if b.NonEmpty then { s with outputs := s.outputs ++ [b] } else s, rest)
  else if ident = ajmIdentOutputControlBuf then
    assertMsg (s.outputControlBuffer = none)
      "Only one instance of output control buffer is allowed per job"
    let (b, rest) ← consumeBuffer buf
    .ok (if b.NonEmpty then { s with outputControlBuffer := some b } else s, rest)
  else .error (.assertion "Unknown chunk")

/-- The loop of a job parser, at most `fuel` rounds. -/
def readChunks (mem : ℕ → UInt8) (statistics : Bool) : ℕ → List UInt8 → Params → Exec Params
  | 0, _, _ => .error .diverges
  | fuel + 1, buf, s =>
      if buf = [] then .ok s
      else do
        let (s, rest) ← readChunk mem statistics buf s
        readChunks mem statistics fuel rest s

structure Sideband where
  buffer : AjmBuffer
  offset : ℕ := 0

def Sideband.isEmpty (b : Sideband) : Prop := b.buffer.size ≤ b.offset

instance : DecidablePred Sideband.isEmpty := fun _ => inferInstanceAs (Decidable (_ ≤ _))

/-- A structure of `size` bytes if it is wanted; unless `always`, only while some of the buffer
is left. -/
def Sideband.take (b : Sideband) (wanted always : Bool) (size : ℕ) : Option ℕ × Sideband :=
  if wanted = true ∧ (always = true ∨ ¬ b.isEmpty) then
    (some (b.buffer.pAddress + b.offset), { b with offset := b.offset + size })
  else (none, b)

structure JobInput where
  initParams : Option (List UInt8) := none
  resampleParameters : Option (List UInt8) := none
  statisticsEngineParameters : Option (List UInt8) := none
  format : Option (List UInt8) := none
  gaplessDecode : Option (List UInt8) := none
  buffer : List UInt8 := []
  deriving DecidableEq

structure JobOutput where
  buffers : List AjmBuffer := []
  pResult : Option ℕ := none
  pStream : Option ℕ := none
  pFormat : Option ℕ := none
  pMemory : Option ℕ := none
  pEnginePerCodec : Option ℕ := none
  pEngine : Option ℕ := none
  pGaplessDecode : Option ℕ := none
  pMframe : Option ℕ := none
  pCodecInfo : Option ℕ := none
  deriving DecidableEq

structure AjmJob where
  instanceId : ℕ
  flags : ℕ
  input : JobInput
  output : JobOutput
  deriving DecidableEq

/-- The sideband structures that are initialised, with their sizes. -/
def JobOutput.initialised (o : JobOutput) : List (ℕ × ℕ) :=
  [(o.pResult, 8), (o.pStream, 16), (o.pFormat, 24), (o.pMemory, 24), (o.pEnginePerCodec, 16),
    (o.pEngine, 16), (o.pGaplessDecode, 8), (o.pMframe, 8)].filterMap
      fun p => p.1.map fun addr => (addr, p.2)

def statisticsInput (mem : ℕ → UInt8) (flags : ℕ) (b : AjmBuffer) (input : JobInput) :
    JobInput :=
  let (engine, _) := (Sideband.mk b 0).take (flags.testBit 31) true 16
  { input with statisticsEngineParameters := engine.map (bytesAt mem · 16) }

def statisticsOutput (flags : ℕ) (b : AjmBuffer) (output : JobOutput) : JobOutput :=
  let (result, s) := (Sideband.mk b 0).take true true 8
  let (engine, s) := s.take (flags.testBit 31) true 16
  let (enginePerCodec, s) := s.take (flags.testBit 30) true 16
  let (memory, _) := s.take (flags.testBit 15) true 24
  { output with
    pResult := result
    pEngine := engine
    pEnginePerCodec := enginePerCodec
    pMemory := memory }

def jobInput (mem : ℕ → UInt8) (flags : ℕ) (b : AjmBuffer) (input : JobInput) : JobInput :=
  let (format, s) := (Sideband.mk b 0).take (flags.testBit 46) false 24
  let (gapless, s) := s.take (flags.testBit 45) false 8
  let (resample, s) := s.take (flags.testBit 15) true 8
  let (init, _) := s.take (flags.testBit 14) true 8
  { input with
    format := format.map (bytesAt mem · 24)
    gaplessDecode := gapless.map (bytesAt mem · 8)
    resampleParameters := resample.map (bytesAt mem · 8)
    initParams := init.map (bytesAt mem · 8) }

def jobOutput (flags : ℕ) (b : AjmBuffer) (output : JobOutput) : JobOutput :=
  let (result, s) := (Sideband.mk b 0).take true true 8
  let (stream, s) := s.take (flags.testBit 47) false 16
  let (format, s) := s.take (flags.testBit 46) false 24
  let (gapless, s) := s.take (flags.testBit 45) false 8
  let (mframe, s) := s.take (flags.testBit 12) false 8
  let (codecInfo, _) := s.take (flags.testBit 11) false 0
  { output with
    pResult := result
    pStream := stream
    pFormat := format
    pGaplessDecode := gapless
    pMframe := mframe
    pCodecInfo := codecInfo }

/-- What the job parsers make of the chunks. -/
def finishJob (mem : ℕ → UInt8) (statistics : Bool) (instanceId : ℕ) (s : Params) :
    Exec AjmJob := do
  assertMsg (s.jobFlags ≠ none) "job_flags.has_value()"
  let flags := s.jobFlags.getD 0
  let input : JobInput := { buffer := s.input }
  let output : JobOutput := { buffers := s.outputs }
  .ok {
    instanceId := instanceId
    flags := flags
    input := match s.inputControlBuffer with
      | some b => (if statistics then statisticsInput else jobInput) mem flags b input
      | none => input
    output := match s.outputControlBuffer with
      | some b => (if statistics then statisticsOutput else jobOutput) flags b output
      | none => output }

def ajmStatisticsJobFromBatchBuffer (mem : ℕ → UInt8) (instanceId : ℕ) (buf : List UInt8) :
    Exec AjmJob := do
  let s ← readChunks mem true (buf.length + 1) buf {}
  finishJob mem true instanceId s

def ajmJobFromBatchBuffer (mem : ℕ → UInt8) (instanceId : ℕ) (buf : List UInt8) :
    Exec AjmJob := do
  let s ← readChunks mem false (buf.length + 1) buf {}
  finishJob mem false instanceId s

def readJob (mem : ℕ → UInt8) (buf : List UInt8) : Exec (Option AjmJob × List UInt8) := do
  let (ident, payload) ← peekHeader buf
  let (_, rest) ← consume 4 buf
  let (size, rest) ← consume 4 rest
  let (chunks, rest) ← consume (ofLittle size) rest
  -- inline buffers hold sideband input data and are skipped
  if ident = ajmIdentInlineBuf then .ok (none, rest)
  else do
    assertMsg (ident = ajmIdentJob) "job_chunk.header.ident == AjmIdentJob"
    let job ← (if payload = ajmInstanceStatistics then
      ajmStatisticsJobFromBatchBuffer mem payload chunks
    else ajmJobFromBatchBuffer mem payload chunks)
    .ok (some job, rest)

def readJobs (mem : ℕ → UInt8) : ℕ → List UInt8 → Exec (List AjmJob)
  | 0, _ => .error .diverges
  | fuel + 1, buf =>
      if buf = [] then .ok []
      else do
        let (job, rest) ← readJob mem buf
        let jobs ← readJobs mem fuel rest
        .ok (job.toList ++ jobs)

def fromBatchBuffer (mem : ℕ → UInt8) (data : List UInt8) : Exec (List AjmJob) :=
  readJobs mem (data.length + 1) data

end OrbitConsole.Ajm
