import OrbitConsole.VideoCore.PacketAccess

/-!
# Command buffers that touch only what is theirs

A packet is harmless exactly if it lies in what is left of its buffer together with the
dwords that its case reads, and if what it copies fits where it goes. `procRun` makes no
access out of bounds exactly if every packet it comes to is harmless.
-/

namespace OrbitConsole.VideoCore

open Pm4

variable {cfg : Config} {env : Env} {p : Packet} {count : ℕ}

namespace Access

@[simp] theorem dwords_inBounds {i n m : ℕ} : (dwords i n m).InBounds ↔ BlockIn i n m := Iff.rfl

@[simp] theorem execute_inBounds {n m : ℕ} : (execute n m).InBounds ↔ n ≤ m := Iff.rfl

@[simp] theorem headerBefore_inBounds {n : ℕ} : (headerBefore n).InBounds ↔ 4 ≤ n := Iff.rfl

@[simp] theorem regs_inBounds {i n : ℕ} : (regs i n).InBounds ↔ BlockIn i n numRegs := Iff.rfl

@[simp] theorem csState_inBounds {i n : ℕ} :
    (csState i n).InBounds ↔ BlockIn i n computeProgramDwords := Iff.rfl

@[simp] theorem constants_inBounds {i n : ℕ} :
    (constants i n).InBounds ↔ BlockIn i n constantsHeapSize := Iff.rfl

@[simp] theorem tmpPacket_inBounds {i n : ℕ} :
    (tmpPacket i n).InBounds ↔ BlockIn i n tmpPacketSize := Iff.rfl

end Access

theorem forall_fields (l : List ℕ) :
    (∀ a ∈ p.fields l, a.InBounds) ↔ ∀ i ∈ l, i < p.available := by
  rw [Packet.fields, List.forall_mem_map]
  refine forall₂_congr fun i _ => ?_
  rw [Access.dwords_inBounds, BlockIn]
  omega

theorem fields_inBounds {l : List ℕ} {last : ℕ} (hmem : last ∈ l) (hle : ∀ i ∈ l, i ≤ last) :
    (∀ a ∈ p.fields l, a.InBounds) ↔ last + 1 ≤ p.available := by
  rw [forall_fields]
  exact ⟨fun h => h last hmem, fun h i hi => Nat.lt_of_le_of_lt (hle i hi) h⟩

theorem forall_append {l l' : List Access} :
    (∀ a ∈ l ++ l', a.InBounds) ↔ (∀ a ∈ l, a.InBounds) ∧ ∀ a ∈ l', a.InBounds :=
  List.forall_mem_append

section Cases

/-- What a register packet reaches: its header, the offset and the payload. -/
def setRegExtent (count : ℕ) : ℕ := 2 + payloadDwords count

theorem setReg_inBounds (base : ℕ) : (∀ a ∈ setReg base count p, a.InBounds) ↔
    setRegExtent count ≤ p.available ∧
      BlockIn (base + p.regOffset) (payloadDwords count) numRegs := by
  simp only [setReg, forall_append, forall_fields, List.forall_mem_cons, List.not_mem_nil,
    IsEmpty.forall_iff, implies_true, and_true, Access.dwords_inBounds, Access.regs_inBounds,
    setRegExtent]
  have : (1 < p.available ∧ BlockIn 2 (payloadDwords count) p.available) ↔
      2 + payloadDwords count ≤ p.available := by
    unfold BlockIn
    omega
  rw [← and_assoc, this]

theorem setDefaults_inBounds : ∀ a ∈ setDefaults, a.InBounds := by decide

def setContextExtent (count : ℕ) (p : Packet) : ℕ :=
  match nopHint (contextRegWordOffset + p.regOffset) (headerCount (p.dword 0)) with
  | none => setRegExtent count
  | some hint =>
      max (setRegExtent count) (if p.dword (2 + hint) = 0xc0001000 then 4 + hint else 3 + hint)

theorem setContextReg_inBounds : (∀ a ∈ (setContextReg count p).1, a.InBounds) ↔
    setContextExtent count p ≤ p.available ∧
      BlockIn (contextRegWordOffset + p.regOffset) (payloadDwords count) numRegs := by
  unfold setContextReg setContextExtent
  cases nopHint (contextRegWordOffset + p.regOffset) (headerCount (p.dword 0)) with
  | none => exact setReg_inBounds _
  | some hint =>
      dsimp only
      split
      case isTrue =>
          simp only [forall_append, setReg_inBounds, forall_fields, List.forall_mem_cons,
            List.not_mem_nil, IsEmpty.forall_iff, implies_true, and_true]
          exact ⟨fun ⟨⟨hreg, hfits⟩, _, hhint⟩ => ⟨by omega, hfits⟩,
            fun ⟨hreach, hfits⟩ => ⟨⟨by omega, hfits⟩, by omega, by omega⟩⟩
      case isFalse =>
          simp only [forall_append, setReg_inBounds, forall_fields, List.forall_mem_cons,
            List.not_mem_nil, IsEmpty.forall_iff, implies_true, and_true]
          exact ⟨fun ⟨⟨hreg, hfits⟩, hhint⟩ => ⟨by omega, hfits⟩,
            fun ⟨hreach, hfits⟩ => ⟨⟨by omega, hfits⟩, by omega⟩⟩

/-- A register packet that may go to the compute state is refused if its payload is longer. -/
def setShExtent (count : ℕ) (p : Packet) : ℕ :=
  if ComputeReg p ∧ computeProgramDwords < payloadDwords count then 2 else setRegExtent count

def ShRegFits (count : ℕ) (p : Packet) : Prop :=
  if ComputeReg p then
    payloadDwords count ≤ computeProgramDwords →
      BlockIn (p.regOffset - 0x200) (payloadDwords count) computeProgramDwords
  else BlockIn (shRegWordOffset + p.regOffset) (payloadDwords count) numRegs

theorem setShReg_inBounds : (∀ a ∈ (setShReg count p).1, a.InBounds) ↔
    setShExtent count p ≤ p.available ∧ ShRegFits count p := by
  unfold setShReg setShExtent ShRegFits
  by_cases hreg : ComputeReg p
  · by_cases hsize : payloadDwords count ≤ computeProgramDwords
    · simp only [hreg, hsize, if_true, forall_append, forall_fields, List.forall_mem_cons,
        List.not_mem_nil, IsEmpty.forall_iff, implies_true, and_true, Access.dwords_inBounds,
        Access.csState_inBounds, Nat.not_lt.2 hsize, and_false, if_false, setRegExtent,
        forall_const]
      have : (1 < p.available ∧ BlockIn 2 (payloadDwords count) p.available) ↔
          2 + payloadDwords count ≤ p.available := by
        unfold BlockIn
        omega
      rw [← and_assoc, this]
    · simp [hreg, hsize, forall_fields, Nat.lt_of_not_le hsize, Nat.succ_le_iff]
  · simp [hreg, setReg_inBounds]

def nopExtent (cfg : Config) (env : Env) (p : Packet) : ℕ :=
  let count := headerCount (p.dword 0)
  if count = 0 then 0
  else if (p.dword 1 = debugMarkerPush ∨ p.dword 1 = debugColorMarkerPush) ∧
      cfg.rasterizer = true ∧ cfg.guestMarkers = true then
    if p.dword 1 = debugMarkerPush then 2 + env.label
    else max (2 + env.label) (2 + count / 2 + (1 + count % 2))
  else 2

theorem graphicsNop_inBounds : (∀ a ∈ graphicsNop cfg env p, a.InBounds) ↔
    nopExtent cfg env p ≤ p.available := by
  unfold graphicsNop nopExtent
  dsimp only
  split
  · simp
  · split
    · split <;>
        simp only [forall_append, forall_fields, List.forall_mem_cons, List.not_mem_nil,
          IsEmpty.forall_iff, implies_true, and_true, Access.dwords_inBounds, BlockIn] <;>
        omega
    · simp [forall_fields, Nat.succ_le_iff]

def eventWriteExtent (p : Packet) : ℕ :=
  if bits (p.dword 1) 0 6 ≠ 31 ∧ bits (p.dword 1) 8 4 = 1 ∧ bits (p.dword 1) 0 6 = 57 then 4
  else 2

theorem eventWrite_inBounds : (∀ a ∈ eventWrite p, a.InBounds) ↔
    eventWriteExtent p ≤ p.available := by
  unfold eventWrite eventWriteExtent
  split <;> exact fields_inBounds (by decide) (by decide)

def eventWriteEosExtent (p : Packet) : ℕ :=
  if bits (p.dword 3) 29 3 = 1 ∨ bits (p.dword 3) 29 3 = 2 then 5 else 4

theorem eventWriteEos_inBounds : (∀ a ∈ (eventWriteEos cfg p).1, a.InBounds) ↔
    eventWriteEosExtent p ≤ p.available := by
  unfold eventWriteEos eventWriteEosExtent
  dsimp only
  split_ifs <;>
    simp only [forall_append, forall_fields, List.forall_mem_cons, List.not_mem_nil,
      IsEmpty.forall_iff, implies_true, and_true] <;>
    omega

def eventWriteEopExtent (p : Packet) : ℕ :=
  let dataSel := bits (p.dword 3) 29 3
  if dataSel = 1 then 5 else if dataSel = 2 then 6 else 4

theorem eventWriteEop_inBounds : (∀ a ∈ (eventWriteEop p).1, a.InBounds) ↔
    eventWriteEopExtent p ≤ p.available := by
  unfold eventWriteEop eventWriteEopExtent
  dsimp only
  split_ifs <;> exact fields_inBounds (by decide) (by decide)

theorem dmaOperands_lt {operands : List ℕ} (h : dmaOperands p = some operands) :
    ∀ i ∈ operands, i < 7 := by
  unfold dmaOperands at h
  dsimp only at h
  split_ifs at h <;> obtain rfl := Option.some.inj h <;> decide

theorem six_mem_dmaOperands {operands : List ℕ} (h : dmaOperands p = some operands) :
    6 ∈ operands := by
  unfold dmaOperands at h
  dsimp only at h
  split_ifs at h <;> obtain rfl := Option.some.inj h <;> decide

def dmaExtent (cfg : Config) (p : Packet) : ℕ :=
  if p.dword 4 = 0x3022C ∨ cfg.rasterizer = false ∨ dmaOperands p = none then 5 else 7

theorem dmaData_inBounds : (∀ a ∈ (dmaData cfg p).1, a.InBounds) ↔
    dmaExtent cfg p ≤ p.available := by
  unfold dmaData dmaExtent
  by_cases hskip : p.dword 4 = 0x3022C ∨ cfg.rasterizer = false
  · rw [if_pos hskip, if_pos (by tauto), forall_fields]
    simp [Nat.succ_le_iff]
  · rw [if_neg hskip]
    cases hop : dmaOperands p with
    | none =>
        rw [if_pos (.inr (.inr rfl))]
        exact fields_inBounds (by decide) (by decide)
    | some operands =>
        rw [if_neg (by simpa using hskip)]
        have hfirst : ∀ i ∈ [4, 1], i ≤ 6 := by decide
        refine fields_inBounds (List.mem_append_right _ (six_mem_dmaOperands hop)) fun i hi => ?_
        obtain hi | hi := List.mem_append.1 hi
        · exact hfirst i hi
        · exact Nat.le_of_lt_succ (dmaOperands_lt hop i hi)

def writeDataExtent (early : Bool) (p : Packet) : ℕ :=
  if bits (p.dword 1) 8 4 = 2 ∨ bits (p.dword 1) 8 4 = 5 then
    if bits (p.dword 1) 16 1 = 0 then 4 + writeDataDwords p else if early then 4 else 2
  else 2

theorem writeData_inBounds (early : Bool) : (∀ a ∈ (writeData early p).1, a.InBounds) ↔
    writeDataExtent early p ≤ p.available := by
  unfold writeData writeDataExtent
  split_ifs <;>
    simp only [forall_append, forall_fields, List.forall_mem_cons, List.not_mem_nil,
      IsEmpty.forall_iff, implies_true, and_true, Access.dwords_inBounds, BlockIn] <;>
    omega

theorem memSemaphore_inBounds : (∀ a ∈ (memSemaphore env p).1, a.InBounds) ↔
    3 ≤ p.available := by
  exact fields_inBounds (by decide) (by decide)

def rewindExtent (cfg : Config) : ℕ := if cfg.rasterizer then 2 else 0

theorem rewind_inBounds : (∀ a ∈ (rewind cfg p).1, a.InBounds) ↔
    rewindExtent cfg ≤ p.available := by
  unfold rewind rewindExtent
  split_ifs <;> simp [forall_fields, Nat.succ_le_iff]

/-- `Test` compares the value with the reference and the mask unless it is always true. -/
def waitExtent (p : Packet) : ℕ :=
  let function := bits (p.dword 1) 0 3
  if function = 0 ∨ function = 7 then if bits (p.dword 1) 4 1 = 1 then 4 else 3 else 6

theorem waitTest_inBounds : (∀ a ∈ (waitTest env p).1, a.InBounds) ↔
    waitExtent p ≤ p.available := by
  unfold waitTest waitExtent
  dsimp only
  split_ifs <;>
    simp only [forall_fields, List.forall_mem_append, List.forall_mem_cons, List.not_mem_nil,
      IsEmpty.forall_iff, implies_true, and_true] <;>
    omega

def releaseMemExtent (p : Packet) : ℕ :=
  let dataSel := bits (p.dword 2) 29 3
  if dataSel = 1 ∨ dataSel = 5 then 6
  else if dataSel = 2 then 7
  else if dataSel = 3 ∨ dataSel = 4 then 5
  else 3

theorem releaseMem_inBounds : (∀ a ∈ (releaseMem p).1, a.InBounds) ↔
    releaseMemExtent p ≤ p.available := by
  unfold releaseMem releaseMemExtent
  dsimp only
  split_ifs <;> exact fields_inBounds (by decide) (by decide)

end Cases

section Tables

/-- How many dwords from its header on a case of `ProcessGraphics` reads. -/
def graphicsExtent (cfg : Config) (env : Env) (count : ℕ) (p : Packet) : PM4ItOpcode → Option ℕ
  | .Nop => some (nopExtent cfg env p)
  | .ContextControl | .SetPredication | .AcquireMem | .IncrementDeCounter | .PfpSyncMe
  | .GetLodStats | .ClearState | .WaitOnCeCounter => some 0
  | .SetConfigReg | .SetUconfigReg => some (setRegExtent count)
  | .SetContextReg => some (setContextExtent count p)
  | .SetShReg => some (setShExtent count p)
  | .IndexType | .NumInstances | .IndexBufferSize | .DrawIndirect | .DrawIndexIndirect
  | .DispatchIndirect | .CopyData | .StrmoutBufferUpdate => some 2
  | .IndexBase | .DrawIndexAuto | .MemSemaphore => some 3
  | .DrawIndex2 => some 6
  | .DrawIndexOffset2 | .DispatchDirect => some 5
  | .DrawIndirectMulti | .DrawIndexIndirectMulti => some (if cfg.rasterizer then 6 else 2)
  | .DrawIndexIndirectCountMulti => some (if cfg.rasterizer then 9 else 2)
  | .SetBase => some (if bits (p.dword 1) 0 4 = 1 then 4 else 2)
  | .EventWrite => some (eventWriteExtent p)
  | .EventWriteEos => some (eventWriteEosExtent p)
  | .EventWriteEop => some (eventWriteEopExtent p)
  | .DmaData => some (dmaExtent cfg p)
  | .WriteData => some (writeDataExtent true p)
  | .Rewind => some (rewindExtent cfg)
  | .WaitRegMem => some (max 4 (waitExtent p))
  | .IndirectBuffer => some 4
  | .CondExec => some
      (if env.mem (bits (p.dword 2) 0 16 * 4294967296 + bits (p.dword 1) 2 30 * 4) % 256 = 0
        then 4 else 3)
  | _ => none

/-- What a case of `ProcessGraphics` copies fits where it goes. -/
def GraphicsFits (count : ℕ) (p : Packet) : PM4ItOpcode → Prop
  | .SetConfigReg => BlockIn (configRegWordOffset + p.regOffset) (payloadDwords count) numRegs
  | .SetContextReg => BlockIn (contextRegWordOffset + p.regOffset) (payloadDwords count) numRegs
  | .SetUconfigReg => BlockIn (uconfigRegWordOffset + p.regOffset) (payloadDwords count) numRegs
  | .SetShReg => ShRegFits count p
  | _ => True

/-- How many dwords from its header on a case of `ProcessCeUpdate` reads. -/
def constantExtent (p : Packet) : PM4ItOpcode → Option ℕ
  | .Nop | .IncrementCeCounter => some 0
  | .WriteConstRam => some (2 + headerCount (p.dword 0))
  | .DumpConstRam => some 5
  | .WaitOnDeCounterDiff => some 2
  | .IndirectBufferConst => some 4
  | _ => none

/-- What a case of `ProcessCeUpdate` copies lies in the constants heap. -/
def ConstantFits (p : Packet) : PM4ItOpcode → Prop
  | .WriteConstRam => BlockIn p.regOffset (4 * headerCount (p.dword 0)) constantsHeapSize
  | .DumpConstRam => BlockIn p.regOffset (4 * bits (p.dword 2) 0 15) constantsHeapSize
  | _ => True

/-- How many dwords from its header on a case of `ProcessCompute` reads. -/
def computeExtent (cfg : Config) (count : ℕ) (patches : List ℕ) (header : Option ℕ)
    (p : Packet) : PM4ItOpcode → Option ℕ
  | .Nop | .AcquireMem | .EventWrite => some 0
  | .IndirectBuffer => some 4
  | .Rewind => some (rewindExtent cfg)
  | .SetShReg => some (setShExtent count p)
  | .SetQueueReg => some 2
  | .DispatchDirect => some (if ∃ a ∈ patches, header = some a then 0 else 5)
  | .DispatchIndirect | .MemSemaphore => some 3
  | .WriteData => some (writeDataExtent false p)
  | .WaitRegMem => some (if bits (p.dword 1) 8 1 = 0 then waitExtent p else 2)
  | .ReleaseMem => some (releaseMemExtent p)
  | _ => none

/-- What a case of `ProcessCompute` copies fits where it goes. -/
def ComputeFits (count : ℕ) (p : Packet) : PM4ItOpcode → Prop
  | .SetShReg => ShRegFits count p
  | _ => True

/-- A case reads exactly its extent, and writes what is said of it. -/
def Agrees (available : ℕ) : Option (List Access × Outcome) → Option ℕ → Prop → Prop
  | some r, some extent, fits => (∀ a ∈ r.1, a.InBounds) ↔ extent ≤ available ∧ fits
  | none, none, _ => True
  | _, _, _ => False

theorem agrees_of_iff {available extent : ℕ} {accesses : List Access} {outcome : Outcome}
    (h : (∀ a ∈ accesses, a.InBounds) ↔ extent ≤ available) :
    Agrees available (some (accesses, outcome)) (some extent) True := by
  simpa [Agrees] using h

theorem graphicsPacket_agrees (op : PM4ItOpcode) :
    Agrees p.available (graphicsPacket cfg env count p op) (graphicsExtent cfg env count p op)
      (GraphicsFits count p op) := by
  cases op
  case SetConfigReg => exact setReg_inBounds _
  case SetContextReg => exact setContextReg_inBounds
  case SetUconfigReg => exact setReg_inBounds _
  case SetShReg => exact setShReg_inBounds
  case Nop => exact agrees_of_iff graphicsNop_inBounds
  case ClearState => exact agrees_of_iff (by simpa using setDefaults_inBounds)
  case EventWrite => exact agrees_of_iff eventWrite_inBounds
  case EventWriteEos => exact agrees_of_iff eventWriteEos_inBounds
  case EventWriteEop => exact agrees_of_iff eventWriteEop_inBounds
  case DmaData => exact agrees_of_iff dmaData_inBounds
  case WriteData => exact agrees_of_iff (writeData_inBounds true)
  case MemSemaphore => exact agrees_of_iff (@memSemaphore_inBounds env p)
  case Rewind => exact agrees_of_iff rewind_inBounds
  case WaitRegMem =>
      refine agrees_of_iff ?_
      rw [forall_append, waitTest_inBounds, @fields_inBounds p _ 3 (by decide) (by decide)]
      omega
  case SetBase =>
      simp only [graphicsPacket, graphicsExtent]
      split <;> exact agrees_of_iff (fields_inBounds (by decide) (by decide))
  case CondExec =>
      simp only [graphicsPacket, graphicsExtent]
      split <;> exact agrees_of_iff (fields_inBounds (by decide) (by decide))
  case DrawIndexIndirectCountMulti =>
      refine agrees_of_iff ?_
      split_ifs <;> exact fields_inBounds (by decide) (by decide)
  case DrawIndexOffset2 =>
      refine agrees_of_iff ?_
      split_ifs <;> exact fields_inBounds (by decide) (by decide)
  case DrawIndirectMulti | DrawIndexIndirectMulti =>
      refine agrees_of_iff ?_
      split_ifs <;> exact fields_inBounds (by decide) (by decide)
  all_goals first
    | exact True.intro
    | exact agrees_of_iff (by simp)
    | exact agrees_of_iff (fields_inBounds (by decide) (by decide))

theorem constantPacket_agrees (op : PM4ItOpcode) :
    Agrees p.available (constantPacket env p op) (constantExtent p op) (ConstantFits p op) := by
  cases op
  case WriteConstRam =>
      simp only [Agrees, constantPacket, constantExtent, ConstantFits, forall_append,
        forall_fields, List.forall_mem_cons, List.not_mem_nil, IsEmpty.forall_iff, implies_true,
        and_true, Access.dwords_inBounds, Access.constants_inBounds]
      rw [← and_assoc]
      refine and_congr_left fun _ => ?_
      unfold BlockIn
      omega
  case DumpConstRam =>
      simp only [Agrees, constantPacket, constantExtent, ConstantFits, forall_append,
        forall_fields, List.forall_mem_cons, List.not_mem_nil, IsEmpty.forall_iff, implies_true,
        and_true, Access.constants_inBounds]
      refine and_congr_left fun _ => ?_
      omega
  all_goals first
    | exact True.intro
    | exact agrees_of_iff (by simp)
    | exact agrees_of_iff (fields_inBounds (by decide) (by decide))

theorem computePacket_agrees (patches : List ℕ) (header : Option ℕ) (op : PM4ItOpcode) :
    Agrees p.available (computePacket cfg env count patches header p op)
      (computeExtent cfg count patches header p op) (ComputeFits count p op) := by
  cases op
  case SetShReg => exact setShReg_inBounds
  case WriteData => exact agrees_of_iff (writeData_inBounds false)
  case MemSemaphore => exact agrees_of_iff (@memSemaphore_inBounds env p)
  case Rewind => exact agrees_of_iff rewind_inBounds
  case ReleaseMem => exact agrees_of_iff releaseMem_inBounds
  case WaitRegMem =>
      simp only [computePacket, computeExtent]
      split
      · exact agrees_of_iff waitTest_inBounds
      · exact agrees_of_iff (by simp [forall_fields, Nat.succ_le_iff])
  case DispatchDirect =>
      refine agrees_of_iff ?_
      split
      · simp
      · exact fields_inBounds (by decide) (by decide)
  all_goals first
    | exact True.intro
    | exact agrees_of_iff (by simp)
    | exact agrees_of_iff (fields_inBounds (by decide) (by decide))

end Tables

section Steps

variable {engine : Engine} {f : Frame} {below : List Frame} {e : Executing} {s s' : ProcState}

def caseExtent (cfg : Config) (engine : Engine) (env : Env) (f : Frame) (e : Executing)
    (p : Packet) : Option ℕ :=
  match engine with
  | .graphics => graphicsExtent cfg env e.count p e.op
  | .constant => constantExtent p e.op
  | .compute =>
      if e.op = .DmaData then some (dmaExtent cfg p)
      else
        let header := if e.buffered = none then some f.rest.addr else none
        computeExtent cfg e.count f.patches header p e.op

/-- What a packet copies fits where it goes; a dispatch is patched only behind its header. -/
def CaseFits (cfg : Config) (engine : Engine) (f : Frame) (e : Executing) (p : Packet) : Prop :=
  match engine with
  | .graphics => GraphicsFits e.count p e.op
  | .constant => ConstantFits p e.op
  | .compute =>
      if e.op = .DmaData then
        PatchesDispatch cfg f.buffer p →
          f.buffer.addr + 4 ≤ p.dword 5 * 4294967296 + p.dword 4
      else ComputeFits e.count p e.op

/-- A packet that has a case lies in what is left of the buffer, with all that its case reads,
and what it copies fits where it goes. -/
def PacketOk (cfg : Config) (engine : Engine) (env : Env) (f : Frame) (e : Executing)
    (p : Packet) : Prop :=
  ∀ extent, caseExtent cfg engine env f e p = some extent →
    (e.count + 1 ≤ p.available ∧ extent ≤ p.available) ∧ CaseFits cfg engine f e p

def FetchOk (env : Env) (s : ProcState) (f : Frame) : Prop :=
  if 0 < s.tmpDwords then
    buffered s ≤ f.rest.size ∧ BlockIn s.tmpDwords (buffered s) tmpPacketSize
  else f.rest.size < packetLength (env.mem f.rest.addr) → f.rest.size ≤ tmpPacketSize

def StepOk (cfg : Config) (engine : Engine) (env : Env) (s : ProcState) : Prop :=
  match s.frames with
  | [] => True
  | f :: _ =>
      match f.executing with
      | some e => PacketOk cfg engine env f e (f.packet env.mem s.tmpPacket e)
      | none => f.rest.size ≠ 0 → engine = .compute → FetchOk env s f

theorem computeDmaData_inBounds : (∀ a ∈ (computeDmaData cfg env f.buffer p).1, a.InBounds) ↔
    dmaExtent cfg p ≤ p.available ∧ (PatchesDispatch cfg f.buffer p →
      f.buffer.addr + 4 ≤ p.dword 5 * 4294967296 + p.dword 4) := by
  unfold computeDmaData
  by_cases hpatch : PatchesDispatch cfg f.buffer p
  · have := hpatch.2.2.2.1
    simp only [hpatch, if_true, forall_append, dmaData_inBounds, List.forall_mem_cons,
      List.not_mem_nil, IsEmpty.forall_iff, implies_true, and_true, forall_const,
      Access.headerBefore_inBounds]
    omega
  · simp [hpatch, dmaData_inBounds]

theorem packetCase_agrees : match packetCase cfg engine env f e p,
      caseExtent cfg engine env f e p with
    | some r, some extent => (∀ a ∈ r.1, a.InBounds) ↔
        extent ≤ p.available ∧ CaseFits cfg engine f e p
    | none, none => True
    | _, _ => False := by
  have lift : ∀ {r : Option (List Access × Outcome)} {x : Option ℕ} {fits : Prop},
      Agrees p.available r x fits →
      match r.map fun r => (r.1, r.2, (none : Option ℕ)), x with
      | some r, some extent => (∀ a ∈ r.1, a.InBounds) ↔ extent ≤ p.available ∧ fits
      | none, none => True
      | _, _ => False := by
    intro r x fits h
    cases r <;> cases x <;> exact h
  cases engine with
  | graphics => exact lift (graphicsPacket_agrees e.op)
  | constant => exact lift (constantPacket_agrees e.op)
  | compute =>
      unfold packetCase caseExtent CaseFits
      by_cases hop : e.op = .DmaData
      · simp only [hop, if_true]
        exact computeDmaData_inBounds
      · simp only [hop, if_false]
        exact lift (computePacket_agrees f.patches _ e.op)

theorem finishPacket_inBounds (hrest : 0 < f.rest.size) :
    ∀ a ∈ (finishPacket engine env f e).1, a.InBounds := by
  unfold finishPacket
  split
  · simp
  · simpa [BlockIn, Nat.succ_le_iff] using hrest

theorem executePacket_inBounds (hrest : 0 < f.rest.size) :
    (∀ a ∈ (executePacket cfg engine env s f below e).1, a.InBounds) ↔
      PacketOk cfg engine env f e (f.packet env.mem s.tmpPacket e) := by
  have hcase := @packetCase_agrees cfg env (f.packet env.mem s.tmpPacket e) engine f e
  unfold executePacket PacketOk
  dsimp only
  cases hr : packetCase cfg engine env f e (f.packet env.mem s.tmpPacket e) with
  | none =>
      cases hx : caseExtent cfg engine env f e (f.packet env.mem s.tmpPacket e) with
      | none => simp
      | some extent => simp only [hr, hx] at hcase
  | some r =>
      cases hx : caseExtent cfg engine env f e (f.packet env.mem s.tmpPacket e) with
      | none => simp only [hr, hx] at hcase
      | some extent =>
          simp only [hr, hx] at hcase
          obtain ⟨accesses, outcome, patch⟩ := r
          have key : (∀ a ∈ Access.execute (e.count + 1)
                (f.packet env.mem s.tmpPacket e).available :: accesses, a.InBounds) ↔
              ∀ extent', some extent = some extent' →
                (e.count + 1 ≤ (f.packet env.mem s.tmpPacket e).available ∧
                  extent' ≤ (f.packet env.mem s.tmpPacket e).available) ∧
                CaseFits cfg engine f e (f.packet env.mem s.tmpPacket e) := by
            simp only [List.forall_mem_cons, Access.execute_inBounds, hcase, Option.some.injEq,
              forall_eq', and_assoc]
          cases outcome
          case next =>
              refine (forall_append.trans ?_).trans key
              exact and_iff_left (finishPacket_inBounds hrest)
          all_goals exact key

theorem fetchCompute_inBounds (hrest : 0 < f.rest.size) :
    (∀ a ∈ (fetchCompute env s f below).1, a.InBounds) ↔ FetchOk env s f := by
  have hheader : BlockIn 0 1 f.rest.size := .inr (by omega)
  unfold fetchCompute FetchOk
  by_cases htmp : 0 < s.tmpDwords
  · simp only [htmp, if_true]
    split
    case isTrue hsplit =>
        simp only [List.cons_append, List.nil_append, List.forall_mem_cons,
          Access.dwords_inBounds, Access.tmpPacket_inBounds]
        refine ⟨fun h => absurd h.2.1 ?_, fun h => absurd h.1 (Nat.not_le.2 hsplit)⟩
        unfold BlockIn
        omega
    case isFalse hfits =>
        simp only [List.forall_mem_cons, List.not_mem_nil, IsEmpty.forall_iff, implies_true,
          and_true, Access.dwords_inBounds, Access.tmpPacket_inBounds, hheader, true_and]
        refine and_congr_left fun _ => ?_
        unfold BlockIn
        omega
  · simp only [htmp, if_false]
    split
    case isTrue hsplit =>
        have hsplit : f.rest.size < packetLength (env.mem f.rest.addr) := hsplit
        simp only [List.cons_append, List.nil_append, List.forall_mem_cons,
          List.not_mem_nil, IsEmpty.forall_iff, implies_true, and_true, Access.dwords_inBounds,
          Access.tmpPacket_inBounds, hheader, true_and, hsplit, forall_const]
        unfold BlockIn
        omega
    case isFalse hfits =>
        have hfits : ¬ f.rest.size < packetLength (env.mem f.rest.addr) := hfits
        simp [hheader, hfits]

/-- A call that is in a packet has not used its buffer up. -/
def Started (s : ProcState) : Prop := ∀ f ∈ s.frames, f.executing ≠ none → 0 < f.rest.size

theorem procStep_inBounds (h : Started s) :
    (∀ a ∈ (procStep cfg engine env s).1, a.InBounds) ↔ StepOk cfg engine env s := by
  unfold procStep StepOk
  cases hframes : s.frames with
  | nil => simp
  | cons f below =>
      dsimp only
      have hf : f.executing ≠ none → 0 < f.rest.size :=
        h f (by rw [hframes]; exact List.mem_cons_self)
      cases hexec : f.executing with
      | some e => exact executePacket_inBounds (hf (by rw [hexec]; exact Option.some_ne_none _))
      | none =>
          dsimp only
          by_cases hempty : f.rest.size = 0
          · simp only [hempty, if_true, ne_eq, not_true_eq_false, IsEmpty.forall_iff, iff_true]
            cases below with
            | nil => simp
            | cons caller below =>
                dsimp only
                cases hcaller : caller.executing with
                | none => simp
                | some e =>
                    refine finishPacket_inBounds (h caller ?_ ?_)
                    · rw [hframes]
                      exact List.mem_cons_of_mem _ List.mem_cons_self
                    · rw [hcaller]
                      exact Option.some_ne_none _
          · have hrest := Nat.pos_of_ne_zero hempty
            simp only [hempty, if_false, ne_eq, not_false_eq_true, forall_const]
            split
            case isTrue hengine => simp [fetchCompute_inBounds hrest, hengine]
            case isFalse hengine =>
                simp only [hengine, IsEmpty.forall_iff, iff_true, fetchPacket]
                simpa [BlockIn, Nat.succ_le_iff] using hrest

theorem finishPacket_executing : (finishPacket engine env f e).2.executing = none := by
  unfold finishPacket
  split <;> rfl

theorem enter_rest {header next : ℕ} {source : Option ℕ} {f' : Frame}
    (h : f.enter header next source = some f') : f'.rest = f.rest := by
  unfold Frame.enter at h
  obtain ⟨op, -, rfl⟩ := Option.map_eq_some_iff.1 h
  rfl

theorem fetched_frame {P Q : Prop} [Decidable P] [Decidable Q] {header next : ℕ}
    {source : Option ℕ} {f' : Frame}
    (h : (if P then some (f.advance 1) else if Q then f.enter header next source else none) =
      some f') :
    f'.executing = none ∨ f'.rest = f.rest := by
  split_ifs at h
  · obtain rfl := Option.some.inj h
    exact .inl rfl
  · exact .inr (enter_rest h)

theorem started_executePacket (hs : Started s) (hframes : s.frames = f :: below)
    (h : (executePacket cfg engine env s f below e).2 = some s') : Started s' := by
  have hall := hs
  unfold Started at hall
  rw [hframes, List.forall_mem_cons] at hall
  unfold executePacket at h
  dsimp only at h
  split at h
  · cases h
  · next accesses outcome patch _ =>
      cases outcome <;> dsimp only at h <;> cases h
      case next =>
          refine List.forall_mem_cons.2 ⟨fun hne => absurd finishPacket_executing hne, hall.2⟩
      case skip => exact List.forall_mem_cons.2 ⟨fun hne => absurd rfl hne, hall.2⟩
      case call =>
          exact List.forall_mem_cons.2 ⟨fun hne => absurd rfl hne,
            List.forall_mem_cons.2 ⟨hall.1, hall.2⟩⟩
      case wait => exact hs

theorem started_fetchPacket (hs : Started s) (hframes : s.frames = f :: below)
    (hrest : 0 < f.rest.size) (h : (fetchPacket engine env s f below).2 = some s') :
    Started s' := by
  unfold Started at hs
  rw [hframes, List.forall_mem_cons] at hs
  obtain ⟨f', hf', rfl⟩ := Option.map_eq_some_iff.1 h
  refine List.forall_mem_cons.2 ⟨fun hne => ?_, hs.2⟩
  obtain hnone | hsame := fetched_frame hf'
  · exact absurd hnone hne
  · exact hsame ▸ hrest

theorem started_fetchCompute (hs : Started s) (hframes : s.frames = f :: below)
    (hexec : f.executing = none) (hrest : 0 < f.rest.size)
    (h : (fetchCompute env s f below).2 = some s') : Started s' := by
  unfold Started at hs
  rw [hframes, List.forall_mem_cons] at hs
  unfold fetchCompute at h
  dsimp only at h
  by_cases hsplit : f.rest.size <
      (if 0 < s.tmpDwords then buffered s else packetLength ((f.rest.packet env.mem).dword 0))
  · rw [if_pos hsplit] at h
    cases h
    exact List.forall_mem_cons.2 ⟨fun hne => absurd hexec hne, hs.2⟩
  · rw [if_neg hsplit] at h
    obtain ⟨f', hf', rfl⟩ := Option.map_eq_some_iff.1 h
    refine List.forall_mem_cons.2 ⟨fun hne => ?_, hs.2⟩
    obtain hnone | hsame := fetched_frame hf'
    · exact absurd hnone hne
    · exact hsame ▸ hrest

theorem started_procStep (hs : Started s) (h : (procStep cfg engine env s).2 = some s') :
    Started s' := by
  unfold procStep at h
  cases hframes : s.frames with
  | nil => simp [hframes] at h
  | cons f below =>
      rw [hframes] at h
      dsimp only at h
      cases hexec : f.executing with
      | some e =>
          rw [hexec] at h
          exact started_executePacket hs hframes h
      | none =>
          rw [hexec] at h
          dsimp only at h
          by_cases hempty : f.rest.size = 0
          · rw [if_pos hempty] at h
            cases below with
            | nil => cases h
            | cons caller below =>
                dsimp only at h
                cases hcaller : caller.executing with
                | none => simp [hcaller] at h
                | some e =>
                    simp only [hcaller, Option.some.injEq] at h
                    subst h
                    unfold Started at hs
                    rw [hframes, List.forall_mem_cons, List.forall_mem_cons] at hs
                    exact List.forall_mem_cons.2
                      ⟨fun hne => absurd finishPacket_executing hne, hs.2.2⟩
          · rw [if_neg hempty] at h
            have hrest := Nat.pos_of_ne_zero hempty
            split at h
            · exact started_fetchCompute hs hframes hexec hrest h
            · exact started_fetchPacket hs hframes hrest h

theorem started_start (span : Span) (tmpPacket : ℕ → ℕ) (tmpDwords : ℕ) :
    Started (ProcState.start span tmpPacket tmpDwords) :=
  List.forall_mem_cons.2 ⟨fun hne => absurd rfl hne, by simp⟩

def RunOk (cfg : Config) (engine : Engine) : List Env → ProcState → Prop
  | [], _ => True
  | env :: rest, s =>
      StepOk cfg engine env s ∧
        ∀ s', (procStep cfg engine env s).2 = some s' → RunOk cfg engine rest s'

theorem procRun_inBounds {envs : List Env} (h : Started s) :
    (∀ a ∈ procRun cfg engine envs s, a.InBounds) ↔ RunOk cfg engine envs s := by
  induction envs generalizing s with
  | nil => simp [procRun, RunOk]
  | cons env rest ih =>
      unfold procRun RunOk
      rw [forall_append, procStep_inBounds h]
      refine and_congr_right fun _ => ?_
      cases hstep : (procStep cfg engine env s).2 with
      | none => simp
      | some s' => simpa using ih (started_procStep h hstep)

/-- A command buffer touches nothing but what is its own exactly if every packet that the
processor comes to is harmless. -/
theorem commands_in_bounds_iff (cfg : Config) (engine : Engine) (envs : List Env) (span : Span)
    (tmpPacket : ℕ → ℕ) (tmpDwords : ℕ) :
    (∀ a ∈ procRun cfg engine envs (ProcState.start span tmpPacket tmpDwords), a.InBounds) ↔
      RunOk cfg engine envs (ProcState.start span tmpPacket tmpDwords) :=
  procRun_inBounds (started_start span tmpPacket tmpDwords)

def memOf (addr : ℕ) (dwords : List ℕ) (at_ : ℕ) : ℕ := dwords.getD ((at_ - addr) / 4) 0

def sampleEnv (dwords : List ℕ) : Env :=
  { mem := memOf 0x1000 dwords, ready := true, label := 0 }

/-- `SetUconfigReg` with an offset of 0x1000 writes behind `reg_array`, and a `SetContextReg` of
three dwords is executed with one left. -/
theorem commands_out_of_bounds :
    .regs 0xD000 1 ∈ procRun ⟨false, false⟩ .graphics
        (List.replicate 2 (sampleEnv [0xC0017900, 0x1000, 7]))
        (ProcState.start ⟨0x1000, 3⟩ (fun _ => 0) 0) ∧
      ¬ (Access.regs 0xD000 1).InBounds ∧
      .execute 3 1 ∈ procRun ⟨false, false⟩ .graphics
        (List.replicate 2 (sampleEnv [0xC0016900, 0, 7]))
        (ProcState.start ⟨0x1000, 1⟩ (fun _ => 0) 0) ∧
      ¬ (Access.execute 3 1).InBounds := by
  decide

end Steps

end OrbitConsole.VideoCore
