import Mathlib.Algebra.GroupWithZero.Nat
import OrbitConsole.Core.Ajm.Batch

/-!
# What is written into an audio batch is read back

The chunks of a job are read one by one as they were written, so a batch yields one job
for each call that is no inline buffer. A run on the statistics instance is not read, and
the structures of a sideband output buffer are only compared with its end before they are
put there.
-/

namespace OrbitConsole.Ajm

open Bytes

variable {mem : ℕ → UInt8} {statistics : Bool} {last : UInt8} {ident payload flags n : ℕ}
variable {b : AjmBuffer} {rest buf : List UInt8} {s s' s₁ : Params} {old : ℕ → UInt8}

/-! ### Chunks -/

theorem consume_append {a : List UInt8} (h : a.length = n) :
    consume n (a ++ rest) = .ok (a, rest) := by
  subst h
  rw [consume, if_pos (by simp), List.take_left, List.drop_left]

theorem ofLittle_little_four {k : ℕ} (h : k < 4294967296) : ofLittle (little 4 k) = k := by
  rw [ofLittle_little]
  exact Nat.mod_eq_of_lt (by simpa using h)

theorem peekHeader_append (hident : ident < 64) (hpayload : payload < 1048576) :
    peekHeader (chunkHeader last ident payload ++ rest) = .ok (ident, payload) := by
  have hlast := last.toNat_lt
  rw [peekHeader, consume_append (by simp [chunkHeader])]
  simp only [bind, Except.bind, chunkHeader]
  rw [ofLittle_little_four (by omega)]
  refine congrArg Except.ok (Prod.ext ?_ ?_) <;> simp only <;> omega

/-- Sizes and pointers as the chunks store them. -/
def AjmBuffer.Valid (b : AjmBuffer) : Prop :=
  b.size < 4294967296 ∧ b.pAddress < 18446744073709551616

theorem consumeBuffer_append (hb : b.Valid) :
    consumeBuffer (chunkBuffer last ident b ++ rest) = .ok (b, rest) := by
  have haddr : ofLittle (little 8 b.pAddress) = b.pAddress := by
    rw [ofLittle_little]
    exact Nat.mod_eq_of_lt (by simpa using hb.2)
  rw [consumeBuffer, chunkBuffer, List.append_assoc, List.append_assoc,
    consume_append (by simp [chunkHeader])]
  simp only [bind, Except.bind]
  rw [consume_append (by simp)]
  simp only
  rw [consume_append (by simp)]
  simp only [haddr, ofLittle_little_four hb.1]

theorem consumeFlags_append (hident : ident < 64) (hflags : flags < 4503599627370496) :
    consumeFlags (chunkFlags last ident flags ++ rest) = .ok (flags, rest) := by
  have hlow : ofLittle (little 4 flags) = flags % 4294967296 := ofLittle_little 4 flags
  rw [consumeFlags, chunkFlags, List.append_assoc, peekHeader_append hident (by omega)]
  simp only [bind, Except.bind]
  rw [consume_append (by simp [chunkHeader])]
  simp only
  rw [consume_append (by simp)]
  simp only [hlow]
  refine congrArg Except.ok (Prod.ext ?_ rfl)
  simp only
  omega

theorem peekHeader_chunkBuffer (hident : ident < 64) :
    peekHeader (chunkBuffer last ident b ++ rest) = .ok (ident, 0) := by
  rw [chunkBuffer, List.append_assoc, List.append_assoc, peekHeader_append hident (by omega)]

theorem peekHeader_chunkFlags (hident : ident < 64) (hflags : flags < 4503599627370496) :
    peekHeader (chunkFlags last ident flags ++ rest) = .ok (ident, flags / 4294967296) := by
  rw [chunkFlags, List.append_assoc, peekHeader_append hident (by omega)]

@[simp] theorem length_chunkBuffer : (chunkBuffer last ident b).length = 16 := by
  simp [chunkBuffer, chunkHeader]

@[simp] theorem length_chunkFlags : (chunkFlags last ident flags).length = 8 := by
  simp [chunkFlags, chunkHeader]

/-! ### The loop of a job -/

theorem readChunk_returnAddress :
    readChunk mem statistics (chunkBuffer last ajmIdentReturnAddressBuf b ++ rest) s =
      .ok (s, rest) := by
  rw [readChunk, peekHeader_chunkBuffer (by decide), consume_append (by simp)]
  simp [bind, Except.bind, ajmIdentInputRunBuf, ajmIdentReturnAddressBuf, ajmIdentInputControlBuf,
    ajmIdentControlFlags, ajmIdentRunFlags]

theorem readChunk_inputRun (hb : b.Valid) :
    readChunk mem false (chunkBuffer last ajmIdentInputRunBuf b ++ rest) s =
      .ok ({ s with input := s.input ++ bytesAt mem b.pAddress b.size }, rest) := by
  rw [readChunk, peekHeader_chunkBuffer (by decide), consumeBuffer_append hb]
  simp [bind, Except.bind]

theorem readChunk_inputControl (hb : b.Valid) (h : s.inputControlBuffer = none) :
    readChunk mem statistics (chunkBuffer last ajmIdentInputControlBuf b ++ rest) s =
      .ok (if b.NonEmpty then { s with inputControlBuffer := some b } else s, rest) := by
  rw [readChunk, peekHeader_chunkBuffer (by decide), consumeBuffer_append hb]
  simp [bind, Except.bind, assertMsg, h, ajmIdentInputRunBuf, ajmIdentInputControlBuf]

theorem readChunk_outputRun (hb : b.Valid) :
    readChunk mem false (chunkBuffer last ajmIdentOutputRunBuf b ++ rest) s =
      .ok (if b.NonEmpty then { s with outputs := s.outputs ++ [b] } else s, rest) := by
  rw [readChunk, peekHeader_chunkBuffer (by decide), consumeBuffer_append hb]
  simp [bind, Except.bind, ajmIdentInputRunBuf, ajmIdentOutputRunBuf, ajmIdentInputControlBuf,
    ajmIdentControlFlags, ajmIdentRunFlags, ajmIdentReturnAddressBuf]

theorem readChunk_outputControl (hb : b.Valid) (h : s.outputControlBuffer = none) :
    readChunk mem statistics (chunkBuffer last ajmIdentOutputControlBuf b ++ rest) s =
      .ok (if b.NonEmpty then { s with outputControlBuffer := some b } else s, rest) := by
  rw [readChunk, peekHeader_chunkBuffer (by decide), consumeBuffer_append hb]
  simp [bind, Except.bind, assertMsg, h, ajmIdentInputRunBuf, ajmIdentOutputControlBuf,
    ajmIdentInputControlBuf, ajmIdentControlFlags, ajmIdentRunFlags, ajmIdentReturnAddressBuf,
    ajmIdentOutputRunBuf]

theorem readChunk_flags (hident : ident = ajmIdentControlFlags ∨
      ident = ajmIdentRunFlags ∧ statistics = false)
    (hflags : flags < 4503599627370496) (h : s.jobFlags = none) :
    readChunk mem statistics (chunkFlags last ident flags ++ rest) s =
      .ok ({ s with jobFlags := some flags }, rest) := by
  have hlt : ident < 64 := by
    rcases hident with rfl | ⟨rfl, -⟩ <;> decide
  have hne : ident ≠ ajmIdentInputRunBuf ∧ ident ≠ ajmIdentInputControlBuf := by
    rcases hident with rfl | ⟨rfl, -⟩ <;> decide
  rw [readChunk, peekHeader_chunkFlags hlt hflags, consumeFlags_append hlt hflags]
  simp [bind, Except.bind, assertMsg, h, hne, hident]

def Reads (mem : ℕ → UInt8) (statistics : Bool) (write : List UInt8 → List UInt8) (n : ℕ)
    (s s' : Params) : Prop :=
  ∀ out, ∃ bytes, write out = out ++ bytes ∧ 8 * n ≤ bytes.length ∧ ∀ fuel rest,
    readChunks mem statistics (fuel + n) (bytes ++ rest) s = readChunks mem statistics fuel rest s'

variable {write write' : List UInt8 → List UInt8} {m : ℕ}

theorem Reads.comp (h : Reads mem statistics write n s s₁)
    (h' : Reads mem statistics write' m s₁ s') :
    Reads mem statistics (fun out => write' (write out)) (n + m) s s' := by
  intro out
  obtain ⟨bytes, hwrite, hlen, hread⟩ := h out
  obtain ⟨bytes', hwrite', hlen', hread'⟩ := h' (write out)
  refine ⟨bytes ++ bytes', ?_, ?_, fun fuel rest => ?_⟩
  · change write' (write out) = _
    rw [hwrite', hwrite, List.append_assoc]
  · rw [List.length_append]
    omega
  · rw [List.append_assoc, Nat.add_comm n m, ← Nat.add_assoc, hread, hread']

theorem readChunks_succ {fuel : ℕ} (hne : buf ≠ [])
    (h : readChunk mem statistics buf s = .ok (s', rest)) :
    readChunks mem statistics (fuel + 1) buf s = readChunks mem statistics fuel rest s' := by
  rw [readChunks, if_neg hne, h]
  rfl

theorem ne_nil_of_length {a : List UInt8} (h : 0 < a.length) : a ++ rest ≠ [] := by
  intro hnil
  rw [List.append_eq_nil_iff] at hnil
  simp [hnil.1] at h

theorem Reads.writeBuffer
    (h : ∀ last rest, readChunk mem statistics (chunkBuffer last ident b ++ rest) s =
      .ok (s', rest)) : Reads mem statistics (Ajm.writeBuffer old ident b) 1 s s' := fun out =>
  ⟨_, rfl, by simp, fun _ rest =>
    readChunks_succ (ne_nil_of_length (by simp)) (h _ rest)⟩

theorem Reads.writeFlags
    (h : ∀ last rest, readChunk mem statistics (chunkFlags last ident flags ++ rest) s =
      .ok (s', rest)) : Reads mem statistics (Ajm.writeFlags old ident flags) 1 s s' := fun out =>
  ⟨_, rfl, by simp, fun _ rest =>
    readChunks_succ (ne_nil_of_length (by simp)) (h _ rest)⟩

theorem Reads.nil : Reads mem statistics id 0 s s := fun out =>
  ⟨[], (List.append_nil out).symm, by simp, fun _ _ => rfl⟩

theorem reads_returnAddress (mem : ℕ → UInt8) (statistics : Bool) (old : ℕ → UInt8) (s : Params)
    (pReturnAddress : ℕ) :
    ∃ n, Reads mem statistics (writeReturnAddress old pReturnAddress) n s s := by
  by_cases h : pReturnAddress ≠ 0
  · refine ⟨1, ?_⟩
    have hwrite : writeReturnAddress old pReturnAddress =
        writeBuffer old ajmIdentReturnAddressBuf ⟨pReturnAddress, 0⟩ :=
      funext fun out => if_pos h
    rw [hwrite]
    exact Reads.writeBuffer fun _ _ => readChunk_returnAddress
  · refine ⟨0, ?_⟩
    have hwrite : writeReturnAddress old pReturnAddress = id := funext fun out => if_neg h
    rw [hwrite]
    exact Reads.nil

theorem writeBuffers_cons (bs : List AjmBuffer) : writeBuffers old ident (b :: bs) =
    fun out => writeBuffers old ident bs (writeBuffer old ident b out) := rfl

/-- The input data of the buffers. -/
def gather (mem : ℕ → UInt8) (bs : List AjmBuffer) : List UInt8 :=
  bs.flatMap fun b => bytesAt mem b.pAddress b.size

theorem reads_inputs (bs : List AjmBuffer) (h : ∀ b ∈ bs, b.Valid) :
    Reads mem false (writeBuffers old ajmIdentInputRunBuf bs) bs.length s
      { s with input := s.input ++ gather mem bs } := by
  induction bs generalizing s with
  | nil =>
      simp only [gather, List.flatMap_nil, List.append_nil]
      exact Reads.nil
  | cons b bs ih =>
      have hfirst : Reads mem false (writeBuffer old ajmIdentInputRunBuf b) 1 s
          { s with input := s.input ++ bytesAt mem b.pAddress b.size } :=
        Reads.writeBuffer fun _ _ => readChunk_inputRun (h b List.mem_cons_self)
      have hrest := hfirst.comp (ih fun b hb => h b (List.mem_cons_of_mem _ hb))
      rw [List.length_cons, Nat.add_comm, writeBuffers_cons]
      simpa only [gather, List.flatMap_cons, List.append_assoc] using hrest

theorem reads_outputs (bs : List AjmBuffer) (h : ∀ b ∈ bs, b.Valid) :
    Reads mem false (writeBuffers old ajmIdentOutputRunBuf bs) bs.length s
      { s with outputs := s.outputs ++ bs.filter AjmBuffer.NonEmpty } := by
  induction bs generalizing s with
  | nil =>
      simp only [List.filter_nil, List.append_nil]
      exact Reads.nil
  | cons b bs ih =>
      have hfirst : Reads mem false (writeBuffer old ajmIdentOutputRunBuf b) 1 s
          (if b.NonEmpty then { s with outputs := s.outputs ++ [b] } else s) :=
        Reads.writeBuffer fun _ _ => readChunk_outputRun (h b List.mem_cons_self)
      have hrest := hfirst.comp (ih fun b hb => h b (List.mem_cons_of_mem _ hb))
      rw [List.length_cons, Nat.add_comm, writeBuffers_cons]
      by_cases hne : b.NonEmpty
      · simpa [hne] using hrest
      · simpa [hne] using hrest

theorem Reads.run (h : Reads mem statistics write n {} s') :
    readChunks mem statistics ((write []).length + 1) (write []) {} = .ok s' := by
  obtain ⟨bytes, hwrite, hlen, hread⟩ := h []
  rw [hwrite, List.nil_append]
  have hfuel : bytes.length + 1 = (bytes.length - n) + 1 + n := by omega
  have hrun := hread ((bytes.length - n) + 1) []
  rw [List.append_nil] at hrun
  rw [hfuel, hrun, readChunks, if_pos rfl]

/-! ### Whole jobs -/

/-- What the loop leaves of a run. -/
def runParams (mem : ℕ → UInt8) (flags : ℕ) (inputs outputs : List AjmBuffer)
    (sidebandOutput : AjmBuffer) : Params where
  jobFlags := some (flags &&& runMask)
  outputControlBuffer := if sidebandOutput.NonEmpty then some sidebandOutput else none
  input := gather mem inputs
  outputs := outputs.filter AjmBuffer.NonEmpty

def controlParams (instanceId flags : ℕ) (sidebandInput sidebandOutput : AjmBuffer) :
    Params where
  jobFlags := some (flags &&& controlMask instanceId)
  inputControlBuffer := if sidebandInput.NonEmpty then some sidebandInput else none
  outputControlBuffer := if sidebandOutput.NonEmpty then some sidebandOutput else none

theorem runMask_lt (flags : ℕ) : flags &&& runMask < 4503599627370496 :=
  lt_of_le_of_lt Nat.and_le_right (by decide)

theorem controlMask_lt (instanceId flags : ℕ) :
    flags &&& controlMask instanceId < 4503599627370496 := by
  refine lt_of_le_of_lt Nat.and_le_right ?_
  unfold controlMask
  split <;> decide

theorem readChunks_run {inputs outputs : List AjmBuffer} {sidebandOutput : AjmBuffer}
    {pReturnAddress : ℕ} (hin : ∀ b ∈ inputs, b.Valid) (hout : ∀ b ∈ outputs, b.Valid)
    (hside : sidebandOutput.Valid) :
    let chunks := runChunks old flags inputs outputs sidebandOutput pReturnAddress
    readChunks mem false (chunks.length + 1) chunks {} =
      .ok (runParams mem flags inputs outputs sidebandOutput) := by
  obtain ⟨n, hra⟩ := reads_returnAddress mem false old {} pReturnAddress
  have hflags : Reads mem false (writeFlags old ajmIdentRunFlags (flags &&& runMask)) 1
      { input := gather mem inputs }
      { input := gather mem inputs, jobFlags := some (flags &&& runMask) } :=
    Reads.writeFlags fun _ _ => readChunk_flags (.inr ⟨rfl, rfl⟩) (runMask_lt flags) rfl
  have hlast : Reads mem false (writeBuffer old ajmIdentOutputControlBuf sidebandOutput) 1
      { input := gather mem inputs, jobFlags := some (flags &&& runMask),
        outputs := outputs.filter AjmBuffer.NonEmpty }
      (runParams mem flags inputs outputs sidebandOutput) := by
    refine Reads.writeBuffer fun _ _ => ?_
    rw [readChunk_outputControl hside rfl, runParams]
    split <;> rfl
  exact ((((hra.comp (reads_inputs inputs hin)).comp hflags).comp
    (reads_outputs outputs hout)).comp hlast).run

theorem readChunks_control {instanceId : ℕ} {sidebandInput sidebandOutput : AjmBuffer}
    {pReturnAddress : ℕ} (hin : sidebandInput.Valid) (hout : sidebandOutput.Valid) :
    let chunks := controlChunks old instanceId flags sidebandInput sidebandOutput pReturnAddress
    readChunks mem statistics (chunks.length + 1) chunks {} =
      .ok (controlParams instanceId flags sidebandInput sidebandOutput) := by
  obtain ⟨n, hra⟩ := reads_returnAddress mem statistics old {} pReturnAddress
  have hfirst : Reads mem statistics (writeBuffer old ajmIdentInputControlBuf sidebandInput) 1 {}
      { inputControlBuffer := if sidebandInput.NonEmpty then some sidebandInput else none } := by
    refine Reads.writeBuffer fun _ _ => ?_
    rw [readChunk_inputControl hin rfl]
    split <;> rfl
  have hflags : Reads mem statistics
      (writeFlags old ajmIdentControlFlags (flags &&& controlMask instanceId)) 1
      { inputControlBuffer := if sidebandInput.NonEmpty then some sidebandInput else none }
      { inputControlBuffer := if sidebandInput.NonEmpty then some sidebandInput else none,
        jobFlags := some (flags &&& controlMask instanceId) } :=
    Reads.writeFlags fun _ _ => readChunk_flags (.inl rfl) (controlMask_lt instanceId flags) rfl
  have hlast : Reads mem statistics (writeBuffer old ajmIdentOutputControlBuf sidebandOutput) 1
      { inputControlBuffer := if sidebandInput.NonEmpty then some sidebandInput else none,
        jobFlags := some (flags &&& controlMask instanceId) }
      (controlParams instanceId flags sidebandInput sidebandOutput) := by
    refine Reads.writeBuffer fun _ _ => ?_
    rw [readChunk_outputControl hout rfl, controlParams]
    split <;> rfl
  exact (((hra.comp hfirst).comp hflags).comp hlast).run

/-! ### Sideband output -/

/-- Structures put one after another into what is left of a buffer: each finds its place, or
nothing is left of the buffer. -/
def FitsLeft : ℕ → List ℕ → Prop
  | _, [] => True
  | left, n :: rest => left = 0 ∨ n ≤ left ∧ FitsLeft (left - n) rest

instance : ∀ left sizes, Decidable (FitsLeft left sizes)
  | _, [] => isTrue True.intro
  | left, n :: rest =>
      have := instDecidableFitsLeft (left - n) rest
      inferInstanceAs (Decidable (_ ∨ _ ∧ _))

/-- The structures that the flags of a job ask for. -/
def wantedSizes (flags : ℕ) : List ℕ :=
  ([(47, 16), (46, 24), (45, 8), (12, 8)].filter fun p : ℕ × ℕ => flags.testBit p.1).map (·.2)

def wantedStatistics (flags : ℕ) : ℕ :=
  (([(31, 16), (30, 16), (15, 24)].filter fun p : ℕ × ℕ => flags.testBit p.1).map (·.2)).sum

/-- The result has its place, and so have the structures behind it. -/
def SidebandFits (statistics : Bool) (flags size : ℕ) : Prop :=
  8 ≤ size ∧ if statistics then 8 + wantedStatistics flags ≤ size
    else FitsLeft (size - 8) (wantedSizes flags)

def Within (b : AjmBuffer) (o : JobOutput) : Prop :=
  ∀ p ∈ o.initialised, b.pAddress ≤ p.1 ∧ p.1 + p.2 ≤ b.pAddress + b.size

theorem within_statisticsOutput (outputs : List AjmBuffer) :
    Within b (statisticsOutput flags b { buffers := outputs }) ↔
      SidebandFits true flags b.size := by
  unfold statisticsOutput SidebandFits wantedStatistics
  simp only [List.filter_cons, List.filter_nil]
  cases flags.testBit 31 <;> cases flags.testBit 30 <;> cases flags.testBit 15 <;>
    simp [Sideband.take, Within, JobOutput.initialised] <;> omega

/-- The structure, if it is put anywhere, lies in the buffer. -/
def Inside (b : AjmBuffer) (p : Option ℕ × ℕ) : Prop :=
  ∀ addr ∈ p.1, b.pAddress ≤ addr ∧ addr + p.2 ≤ b.pAddress + b.size

theorem inside_none (b : AjmBuffer) (n : ℕ) : Inside b (none, n) := fun _ h => by cases h

theorem within_iff (b : AjmBuffer) (o : JobOutput) :
    Within b o ↔ ∀ p ∈ [(o.pResult, 8), (o.pStream, 16), (o.pFormat, 24), (o.pMemory, 24),
      (o.pEnginePerCodec, 16), (o.pEngine, 16), (o.pGaplessDecode, 8), (o.pMframe, 8)],
        Inside b p := by
  unfold Within JobOutput.initialised
  constructor
  · intro h p hp addr haddr
    exact h (addr, p.2) (List.mem_filterMap.2 ⟨p, hp, by rw [haddr]; rfl⟩)
  · intro h q hq
    obtain ⟨p, hp, hq⟩ := List.mem_filterMap.1 hq
    obtain ⟨addr, haddr, rfl⟩ := Option.map_eq_some_iff.1 hq
    exact h p hp addr haddr

/-- Structures taken one after another, each with its size. -/
def placed : Sideband → List (Bool × ℕ) → List (Option ℕ × ℕ)
  | _, [] => []
  | s, (wanted, n) :: rest =>
      ((s.take wanted false n).1, n) :: placed (s.take wanted false n).2 rest

theorem fitsLeft_zero (sizes : List ℕ) : FitsLeft 0 sizes := by
  cases sizes with
  | nil => trivial
  | cons n rest => exact .inl rfl

theorem placed_inside (s : Sideband) (l : List (Bool × ℕ)) :
    (∀ p ∈ placed s l, Inside s.buffer p) ↔
      FitsLeft (s.buffer.size - s.offset) ((l.filter (·.1)).map (·.2)) := by
  induction l generalizing s with
  | nil => simp [placed, FitsLeft]
  | cons e rest ih =>
      obtain ⟨wanted, n⟩ := e
      rw [placed, List.forall_mem_cons]
      cases wanted with
      | false =>
          have htake : s.take false false n = (none, s) := rfl
          rw [htake, ih]
          exact and_iff_right (inside_none _ _)
      | true =>
          rw [List.filter_cons_of_pos rfl, List.map_cons, FitsLeft]
          by_cases hempty : s.isEmpty
          · have htake : s.take true false n = (none, s) := by simp [Sideband.take, hempty]
            have hleft : s.buffer.size - s.offset = 0 := Nat.sub_eq_zero_of_le hempty
            rw [htake, ih, hleft]
            exact ⟨fun _ => .inl rfl, fun _ => ⟨inside_none _ _, fitsLeft_zero _⟩⟩
          · have htake : s.take true false n =
                (some (s.buffer.pAddress + s.offset), { s with offset := s.offset + n }) := by
              simp [Sideband.take, hempty]
            have hrest := ih { s with offset := s.offset + n }
            rw [← Nat.sub_sub] at hrest
            rw [htake, hrest]
            have hinside : Inside s.buffer (some (s.buffer.pAddress + s.offset), n) ↔
                n ≤ s.buffer.size - s.offset := by
              unfold Sideband.isEmpty at hempty
              simp only [Inside, Option.mem_some_iff, forall_eq']
              omega
            have hpos : s.buffer.size - s.offset ≠ 0 := by
              unfold Sideband.isEmpty at hempty
              omega
            rw [hinside, or_iff_right hpos]

theorem within_jobOutput (outputs : List AjmBuffer) :
    Within b (jobOutput flags b { buffers := outputs }) ↔ SidebandFits false flags b.size := by
  have hparts : Within b (jobOutput flags b { buffers := outputs }) ↔
      Inside b (some (b.pAddress + 0), 8) ∧ ∀ p ∈ placed ⟨b, 0 + 8⟩ [(flags.testBit 47, 16),
        (flags.testBit 46, 24), (flags.testBit 45, 8), (flags.testBit 12, 8)], Inside b p := by
    rw [within_iff]
    simp only [placed, List.forall_mem_cons]
    constructor
    · rintro ⟨hresult, hstream, hformat, -, -, -, hgapless, hmframe, -⟩
      exact ⟨hresult, hstream, hformat, hgapless, hmframe, fun _ h => by cases h⟩
    · rintro ⟨hresult, hstream, hformat, hgapless, hmframe, -⟩
      exact ⟨hresult, hstream, hformat, inside_none _ _, inside_none _ _, inside_none _ _,
        hgapless, hmframe, fun _ h => by cases h⟩
  have hwanted : wantedSizes flags = (([(flags.testBit 47, 16), (flags.testBit 46, 24),
      (flags.testBit 45, 8), (flags.testBit 12, 8)] : List (Bool × ℕ)).filter (·.1)).map
        (·.2) := by
    unfold wantedSizes
    simp only [List.filter_cons, List.filter_nil]
    split_ifs <;> rfl
  have hresult : Inside b (some (b.pAddress + 0), 8) ↔ 8 ≤ b.size := by
    simp only [Inside, Option.mem_some_iff, forall_eq']
    omega
  rw [hparts, hresult, placed_inside ⟨b, 0 + 8⟩, ← hwanted]
  exact Iff.rfl

/-! ### Calls and their jobs -/

theorem finishJob_spec (mem : ℕ → UInt8) (statistics : Bool) (instanceId : ℕ)
    {sideband : AjmBuffer} (h : s.jobFlags = some flags)
    (hside : s.outputControlBuffer = if sideband.NonEmpty then some sideband else none) :
    ∃ job, finishJob mem statistics instanceId s = .ok job ∧ job.instanceId = instanceId ∧
      job.flags = flags ∧ job.input.buffer = s.input ∧ job.output.buffers = s.outputs ∧
        (Within sideband job.output ↔
          (sideband.NonEmpty → SidebandFits statistics flags sideband.size)) := by
  have hasserted : assertMsg (s.jobFlags ≠ none) "job_flags.has_value()" = .ok () := by
    simp [assertMsg, h]
  refine ⟨_, by rw [finishJob, hasserted]; rfl, rfl, by simp [h], ?_, ?_, ?_⟩
  · cases s.inputControlBuffer with
    | none => rfl
    | some b => cases statistics <;> rfl
  · cases s.outputControlBuffer with
    | none => rfl
    | some b => cases statistics <;> rfl
  · rw [hside]
    by_cases hne : sideband.NonEmpty
    · rw [if_pos hne, forall_prop_of_true hne, h]
      cases statistics
      · exact within_jobOutput s.outputs
      · exact within_statisticsOutput s.outputs
    · rw [if_neg hne]
      exact ⟨fun _ h => absurd h hne, fun _ p hp => by cases hp⟩

theorem readChunk_unknown (h : peekHeader buf = .ok (ident, payload))
    (hident : ident = ajmIdentInputRunBuf ∨ ident = ajmIdentRunFlags) :
    readChunk mem true buf s = .error (.assertion "Unknown chunk") := by
  rw [readChunk, h]
  rcases hident with rfl | rfl <;>
    simp [bind, Except.bind, ajmIdentInputRunBuf, ajmIdentInputControlBuf, ajmIdentControlFlags,
      ajmIdentRunFlags, ajmIdentReturnAddressBuf, ajmIdentOutputRunBuf, ajmIdentOutputControlBuf]

theorem writeBuffers_append (old : ℕ → UInt8) (ident : ℕ) (bs : List AjmBuffer)
    (out : List UInt8) :
    ∃ bytes, writeBuffers old ident bs out = out ++ bytes ∧ bytes.length = 16 * bs.length := by
  induction bs generalizing out with
  | nil => exact ⟨[], (List.append_nil out).symm, rfl⟩
  | cons b bs ih =>
      obtain ⟨bytes, hbytes, hlen⟩ := ih (writeBuffer old ident b out)
      refine ⟨chunkBuffer (old (8 + out.length + 3)) ident b ++ bytes, ?_, ?_⟩
      · rw [writeBuffers_cons]
        simp only
        rw [hbytes, writeBuffer, List.append_assoc]
      · rw [List.length_append, length_chunkBuffer, hlen, List.length_cons]
        omega

theorem outputs_append (old : ℕ → UInt8) (outputs : List AjmBuffer) (sideband : AjmBuffer)
    (out : List UInt8) :
    ∃ more, writeBuffer old ajmIdentOutputControlBuf sideband
      (writeBuffers old ajmIdentOutputRunBuf outputs out) = out ++ more := by
  obtain ⟨bytes, hbytes, -⟩ := writeBuffers_append old ajmIdentOutputRunBuf outputs out
  rw [hbytes, writeBuffer, List.append_assoc]
  exact ⟨_, rfl⟩

theorem runChunks_append (old : ℕ → UInt8) (flags : ℕ) (inputs outputs : List AjmBuffer)
    (sideband : AjmBuffer) (pReturnAddress : ℕ) : ∃ ident payload bytes,
      (ident = ajmIdentInputRunBuf ∨ ident = ajmIdentRunFlags) ∧ 0 < bytes.length ∧
        peekHeader bytes = .ok (ident, payload) ∧
          runChunks old flags inputs outputs sideband pReturnAddress =
            writeReturnAddress old pReturnAddress [] ++ bytes := by
  unfold runChunks
  generalize writeReturnAddress old pReturnAddress [] = out
  have hflags := runMask_lt flags
  cases inputs with
  | nil =>
      obtain ⟨more, hmore⟩ := outputs_append old outputs sideband
        (writeFlags old ajmIdentRunFlags (flags &&& runMask) out)
      rw [writeFlags, List.append_assoc] at hmore
      refine ⟨ajmIdentRunFlags, _, _, .inr rfl, ?_,
        peekHeader_chunkFlags (by decide) hflags, hmore⟩
      rw [List.length_append, length_chunkFlags]
      omega
  | cons b bs =>
      obtain ⟨bytes, hbytes, -⟩ := writeBuffers_append old ajmIdentInputRunBuf bs
        (writeBuffer old ajmIdentInputRunBuf b out)
      obtain ⟨more, hmore⟩ := outputs_append old outputs sideband
        (writeFlags old ajmIdentRunFlags (flags &&& runMask)
          (writeBuffers old ajmIdentInputRunBuf bs (writeBuffer old ajmIdentInputRunBuf b out)))
      refine ⟨ajmIdentInputRunBuf, 0, chunkBuffer (old (8 + out.length + 3)) ajmIdentInputRunBuf b ++
        (bytes ++ (chunkFlags (old (8 + (writeBuffer old ajmIdentInputRunBuf b out ++
          bytes).length + 3)) ajmIdentRunFlags (flags &&& runMask) ++ more)), .inl rfl, ?_,
        peekHeader_chunkBuffer (by decide), hmore.trans ?_⟩
      · rw [List.length_append, length_chunkBuffer]
        omega
      · rw [hbytes, writeFlags]
        simp only [writeBuffer, List.append_assoc]

theorem statistics_run {inputs outputs : List AjmBuffer} {sideband : AjmBuffer}
    {instanceId pReturnAddress : ℕ} (job : AjmJob) :
    ajmStatisticsJobFromBatchBuffer mem instanceId
      (runChunks old flags inputs outputs sideband pReturnAddress) ≠ .ok job := by
  obtain ⟨ident, payload, bytes, hident, hlen, hpeek, hchunks⟩ := runChunks_append old flags
    inputs outputs sideband pReturnAddress
  obtain ⟨n, hra⟩ := reads_returnAddress mem true old {} pReturnAddress
  obtain ⟨ra, hwrite, hraLen, hread⟩ := hra []
  rw [List.nil_append] at hwrite
  rw [ajmStatisticsJobFromBatchBuffer, hchunks, hwrite, List.length_append]
  have hfuel : ra.length + bytes.length + 1 = (ra.length + bytes.length - n) + 1 + n := by omega
  rw [hfuel, hread, readChunks, if_neg (List.ne_nil_of_length_pos hlen),
    readChunk_unknown hpeek hident]
  exact fun h => by cases h

namespace Call

def isInline : Call → Bool
  | .batchJobInlineBuffer _ => true
  | _ => false

def isRun : Call → Bool
  | .batchJobRunBufferRa .. | .batchJobRunSplitBufferRa .. => true
  | _ => false

def instanceId : Call → ℕ
  | .batchJobControlBufferRa instanceId .. | .batchJobRunBufferRa instanceId ..
  | .batchJobRunSplitBufferRa instanceId .. => instanceId
  | .batchJobInlineBuffer _ => 0

def maskedFlags : Call → ℕ
  | .batchJobControlBufferRa instanceId flags .. => flags &&& controlMask instanceId
  | .batchJobRunBufferRa _ flags .. | .batchJobRunSplitBufferRa _ flags .. => flags &&& runMask
  | .batchJobInlineBuffer _ => 0

def inputs : Call → List AjmBuffer
  | .batchJobRunBufferRa _ _ dataInput .. => [dataInput]
  | .batchJobRunSplitBufferRa _ _ inputs .. => inputs
  | _ => []

def outputs : Call → List AjmBuffer
  | .batchJobRunBufferRa _ _ _ dataOutput .. => [dataOutput]
  | .batchJobRunSplitBufferRa _ _ _ outputs .. => outputs
  | _ => []

def sidebandOutput : Call → AjmBuffer
  | .batchJobControlBufferRa _ _ _ sideband _ | .batchJobRunBufferRa _ _ _ _ sideband _
  | .batchJobRunSplitBufferRa _ _ _ _ sideband _ => sideband
  | .batchJobInlineBuffer _ => ⟨0, 0⟩

/-- Instance ids below 2^20, sizes below 2^32 and pointers of 64 bits. -/
def Valid : Call → Prop
  | .batchJobControlBufferRa instanceId _ input sideband _ =>
      instanceId < 1048576 ∧ input.Valid ∧ sideband.Valid
  | .batchJobInlineBuffer dataInput => dataInput.length < 4294967296
  | .batchJobRunBufferRa instanceId _ input output sideband _ =>
      instanceId < 1048576 ∧ input.Valid ∧ output.Valid ∧ sideband.Valid
  | .batchJobRunSplitBufferRa instanceId _ inputs outputs sideband _ =>
      instanceId < 1048576 ∧ (∀ b ∈ inputs, b.Valid) ∧ (∀ b ∈ outputs, b.Valid) ∧ sideband.Valid

structure Yields (mem : ℕ → UInt8) (c : Call) (job : AjmJob) : Prop where
  instanceId : job.instanceId = c.instanceId
  flags : job.flags = c.maskedFlags
  input : job.input.buffer = gather mem c.inputs
  outputs : job.output.buffers = c.outputs.filter AjmBuffer.NonEmpty

def chunks (old : ℕ → UInt8) : Call → List UInt8
  | .batchJobControlBufferRa instanceId flags input sideband pReturnAddress =>
      controlChunks old instanceId flags input sideband pReturnAddress
  | .batchJobInlineBuffer _ => []
  | .batchJobRunBufferRa _ flags input output sideband pReturnAddress =>
      runChunks old flags [input] [output] sideband pReturnAddress
  | .batchJobRunSplitBufferRa _ flags inputs outputs sideband pReturnAddress =>
      runChunks old flags inputs outputs sideband pReturnAddress

/-- No run uses the statistics instance, and a sideband output buffer has place for what is
put into it. A sideband input that is shorter than its masked flags ask for is read past its
end, which only a `DEBUG_ASSERT` would notice: `parse` takes the guest memory behind it. -/
def Fits (c : Call) : Prop :=
  (c.isRun = true → c.instanceId ≠ ajmInstanceStatistics) ∧ (c.sidebandOutput.NonEmpty →
    SidebandFits (c.instanceId = ajmInstanceStatistics) c.maskedFlags c.sidebandOutput.size)

def parse (mem : ℕ → UInt8) (old : ℕ → UInt8) (c : Call) : Exec AjmJob :=
  if c.instanceId = ajmInstanceStatistics then
    ajmStatisticsJobFromBatchBuffer mem c.instanceId (c.chunks old)
  else ajmJobFromBatchBuffer mem c.instanceId (c.chunks old)

def Good (mem : ℕ → UInt8) (old : ℕ → UInt8) (c : Call) : Prop :=
  ∃ job, c.parse mem old = .ok job ∧ c.Yields mem job ∧ Within c.sidebandOutput job.output

end Call

variable {c : Call}

theorem good_of_params (hrun : c.isRun = true → c.instanceId ≠ ajmInstanceStatistics)
    (hread : readChunks mem (c.instanceId = ajmInstanceStatistics)
      ((c.chunks old).length + 1) (c.chunks old) {} = .ok s)
    (hflags : s.jobFlags = some c.maskedFlags) (hinput : s.input = gather mem c.inputs)
    (houtputs : s.outputs = c.outputs.filter AjmBuffer.NonEmpty)
    (hside : s.outputControlBuffer =
      if c.sidebandOutput.NonEmpty then some c.sidebandOutput else none) :
    c.Good mem old ↔ c.Fits := by
  obtain ⟨job, hjob, hid, hjobFlags, hjobInput, hjobOutputs, hwithin⟩ := finishJob_spec
    mem (decide (c.instanceId = ajmInstanceStatistics)) c.instanceId hflags hside
  have hparse : c.parse mem old = .ok job := by
    unfold Call.parse
    by_cases hstat : c.instanceId = ajmInstanceStatistics
    · simp only [hstat, decide_true] at hread hjob
      rw [if_pos hstat, ajmStatisticsJobFromBatchBuffer, hread, hstat]
      exact hjob
    · simp only [hstat, decide_false] at hread hjob
      rw [if_neg hstat, ajmJobFromBatchBuffer, hread]
      exact hjob
  constructor
  · rintro ⟨job', hjob', -, hwithin'⟩
    obtain rfl := Except.ok.inj (hparse.symm.trans hjob')
    exact ⟨hrun, hwithin.1 hwithin'⟩
  · intro hfits
    exact ⟨job, hparse, ⟨hid, hjobFlags, hjobInput.trans hinput, hjobOutputs.trans houtputs⟩,
      hwithin.2 hfits.2⟩

theorem run_good_iff (flags pReturnAddress : ℕ) (hrun : c.isRun = true)
    (hin : ∀ b ∈ c.inputs, b.Valid) (hout : ∀ b ∈ c.outputs, b.Valid)
    (hside : c.sidebandOutput.Valid) (hflags : c.maskedFlags = flags &&& runMask)
    (hchunks : c.chunks old =
      runChunks old flags c.inputs c.outputs c.sidebandOutput pReturnAddress) :
    c.Good mem old ↔ c.Fits := by
  by_cases hstat : c.instanceId = ajmInstanceStatistics
  · constructor
    · rintro ⟨job, hjob, -⟩
      rw [Call.parse, if_pos hstat, hchunks] at hjob
      exact absurd hjob (statistics_run job)
    · exact fun hfits => absurd hstat (hfits.1 hrun)
  · refine good_of_params (s := runParams mem flags c.inputs c.outputs c.sidebandOutput)
      (fun _ => hstat) ?_ (congrArg some hflags.symm) rfl rfl rfl
    rw [decide_eq_false hstat, hchunks]
    exact readChunks_run hin hout hside

theorem good_iff (hvalid : c.Valid) (hinline : c.isInline = false) :
    c.Good mem old ↔ c.Fits := by
  cases c with
  | batchJobInlineBuffer dataInput => cases hinline
  | batchJobControlBufferRa instanceId flags input sideband pReturnAddress =>
      obtain ⟨-, hin, hout⟩ := hvalid
      exact good_of_params (s := controlParams instanceId flags input sideband)
        (fun h => by cases h) (readChunks_control hin hout) rfl rfl rfl rfl
  | batchJobRunBufferRa instanceId flags input output sideband pReturnAddress =>
      obtain ⟨-, hin, hout, hside⟩ := hvalid
      exact run_good_iff flags pReturnAddress rfl
        (List.forall_mem_singleton.2 hin) (List.forall_mem_singleton.2 hout) hside rfl rfl
  | batchJobRunSplitBufferRa instanceId flags inputs outputs sideband pReturnAddress =>
      obtain ⟨-, hin, hout, hside⟩ := hvalid
      exact run_good_iff flags pReturnAddress rfl hin hout hside
        rfl rfl

/-! ### Batches -/

namespace Call

/-- The bytes of the chunks of a job. -/
def jobSize : Call → ℕ
  | batchJobControlBufferRa _ _ _ _ pReturnAddress =>
      (if pReturnAddress ≠ 0 then 16 else 0) + 40
  | batchJobInlineBuffer _ => 0
  | batchJobRunBufferRa _ _ _ _ _ pReturnAddress => (if pReturnAddress ≠ 0 then 16 else 0) + 56
  | batchJobRunSplitBufferRa _ _ inputs outputs _ pReturnAddress =>
      (if pReturnAddress ≠ 0 then 16 else 0) + 16 * (inputs.length + outputs.length) + 24

end Call

@[simp] theorem length_writeBuffer (out : List UInt8) :
    (writeBuffer old ident b out).length = out.length + 16 := by
  rw [writeBuffer, List.length_append, length_chunkBuffer]

@[simp] theorem length_writeFlags (out : List UInt8) :
    (writeFlags old ident flags out).length = out.length + 8 := by
  rw [writeFlags, List.length_append, length_chunkFlags]

theorem length_writeReturnAddress (pReturnAddress : ℕ) :
    (writeReturnAddress old pReturnAddress []).length = if pReturnAddress ≠ 0 then 16 else 0 := by
  unfold writeReturnAddress
  split <;> simp

theorem length_writeBuffers (bs : List AjmBuffer) (out : List UInt8) :
    (writeBuffers old ident bs out).length = out.length + 16 * bs.length := by
  obtain ⟨bytes, hbytes, hlen⟩ := writeBuffers_append old ident bs out
  rw [hbytes, List.length_append, hlen]

theorem length_runChunks (flags : ℕ) (inputs outputs : List AjmBuffer) (sideband : AjmBuffer)
    (pReturnAddress : ℕ) :
    (runChunks old flags inputs outputs sideband pReturnAddress).length =
      (if pReturnAddress ≠ 0 then 16 else 0) + 16 * (inputs.length + outputs.length) + 24 := by
  rw [runChunks, length_writeBuffer, length_writeBuffers, length_writeFlags, length_writeBuffers,
    length_writeReturnAddress]
  omega

theorem length_chunks (c : Call) : (c.chunks old).length = c.jobSize := by
  cases c with
  | batchJobInlineBuffer dataInput => rfl
  | batchJobControlBufferRa instanceId flags input sideband pReturnAddress =>
      rw [Call.chunks, controlChunks, length_writeBuffer, length_writeFlags, length_writeBuffer,
        length_writeReturnAddress]
      rfl
  | batchJobRunBufferRa instanceId flags input output sideband pReturnAddress =>
      rw [Call.chunks, length_runChunks]
      rfl
  | batchJobRunSplitBufferRa instanceId flags inputs outputs sideband pReturnAddress =>
      rw [Call.chunks, length_runChunks]
      rfl

theorem readJob_inline (dataInput : List UInt8) :
    readJob mem ((Call.batchJobInlineBuffer dataInput).write old ++ rest) = .ok (none, rest) := by
  have hsize : alignUp dataInput.length 8 % 4294967296 < 4294967296 := Nat.mod_lt _ (by decide)
  simp only [Call.write]
  generalize alignUp dataInput.length 8 % 4294967296 = size at hsize ⊢
  rw [List.append_assoc, List.append_assoc, readJob, peekHeader_append (by decide) (by decide),
    consume_append (by simp [chunkHeader])]
  simp only [bind, Except.bind]
  rw [consume_append (by simp)]
  simp only [ofLittle_little_four hsize]
  rw [consume_append (by simp)]
  simp only
  rw [if_pos trivial]

theorem readJob_job (hinline : c.isInline = false) (hvalid : c.Valid)
    (hshort : c.jobSize < 4294967296) :
    readJob mem (c.write old ++ rest) =
      (c.parse mem old).bind fun job => .ok (some job, rest) := by
  have hwrite : c.write old = writeJob old c.instanceId (c.chunks old) := by
    cases c with
    | batchJobInlineBuffer dataInput => cases hinline
    | _ => rfl
  have hid : c.instanceId < 1048576 := by
    cases c with
    | batchJobInlineBuffer dataInput => cases hinline
    | _ => exact hvalid.1
  have hlen : (c.chunks old).length < 4294967296 := (length_chunks c).trans_lt hshort
  rw [hwrite, writeJob, List.append_assoc, List.append_assoc, readJob,
    peekHeader_append (by decide) hid, consume_append (by simp [chunkHeader])]
  simp only [bind, Except.bind]
  rw [consume_append (by simp)]
  simp only [ofLittle_little_four hlen]
  rw [consume_append rfl]
  simp only [Call.parse, ajmIdentJob, ajmIdentInlineBuf, assertMsg]
  rw [if_neg (by decide)]
  rfl

theorem eight_le_length_write (old : ℕ → UInt8) (c : Call) : 8 ≤ (c.write old).length := by
  cases c <;>
    simp only [Call.write, writeJob, chunkHeader, List.length_append, length_little] <;> omega

theorem write_ne_nil (c : Call) : c.write old ++ rest ≠ [] :=
  ne_nil_of_length (lt_of_lt_of_le (by decide) (eight_le_length_write old c))

def Agrees (mem : ℕ → UInt8) (calls : List ((ℕ → UInt8) × Call)) (jobs : List AjmJob) : Prop :=
  List.Forall₂ (fun (c : Call) job => c.Yields mem job ∧ Within c.sidebandOutput job.output)
    ((calls.map (·.2)).filter (! ·.isInline)) jobs

/-- The bytes of the calls are read as their jobs, with the sideband structures in place. -/
def BatchAgrees (mem : ℕ → UInt8) (calls : List ((ℕ → UInt8) × Call)) : Prop :=
  ∃ jobs, fromBatchBuffer mem (writeBatch calls) = .ok jobs ∧ Agrees mem calls jobs

theorem readJobs_iff {calls : List ((ℕ → UInt8) × Call)} (hvalid : ∀ c ∈ calls, c.2.Valid)
    (hshort : ∀ c ∈ calls, c.2.jobSize < 4294967296) (fuel : ℕ)
    (hfuel : (writeBatch calls).length < fuel) :
    (∃ jobs, readJobs mem fuel (writeBatch calls) = .ok jobs ∧ Agrees mem calls jobs) ↔
      ∀ c ∈ calls, c.2.isInline = false → c.2.Good mem c.1 := by
  induction calls generalizing fuel with
  | nil =>
      obtain ⟨fuel, rfl⟩ := Nat.exists_eq_add_one.2 hfuel
      exact ⟨fun _ _ hc => (by cases hc), fun _ => ⟨[], rfl, .nil⟩⟩
  | cons c calls ih =>
      obtain ⟨old, c⟩ := c
      obtain ⟨fuel, rfl⟩ := Nat.exists_eq_add_one.2 (Nat.zero_lt_of_lt hfuel)
      have hwrite : writeBatch ((old, c) :: calls) = c.write old ++ writeBatch calls := rfl
      rw [hwrite, List.length_append] at hfuel
      have hlen := eight_le_length_write old c
      have ih := ih (fun c hc => hvalid c (List.mem_cons_of_mem _ hc))
        (fun c hc => hshort c (List.mem_cons_of_mem _ hc)) fuel (by omega)
      rw [List.forall_mem_cons, ← ih, hwrite, readJobs, if_neg (write_ne_nil c)]
      by_cases hinline : c.isInline = true
      · have hread : readJob mem (c.write old ++ writeBatch calls) =
            .ok (none, writeBatch calls) := by
          cases c with
          | batchJobInlineBuffer dataInput => exact readJob_inline dataInput
          | _ => cases hinline
        have hagrees (jobs : List AjmJob) :
            Agrees mem ((old, c) :: calls) jobs ↔ Agrees mem calls jobs := by
          simp [Agrees, hinline]
        rw [hread]
        simp only [hagrees, hinline]
        constructor
        · rintro ⟨jobs, hjobs, h⟩
          obtain ⟨p, hp, hjobs⟩ := Exec.bind_eq_ok.1 hjobs
          obtain rfl := Except.ok.inj hp
          obtain ⟨jobs', hjobs', hjobs⟩ := Exec.bind_eq_ok.1 hjobs
          obtain rfl := Except.ok.inj hjobs
          exact ⟨fun h => (by cases h), jobs', hjobs', h⟩
        · rintro ⟨-, jobs, hjobs, h⟩
          exact ⟨jobs, Exec.bind_eq_ok.2 ⟨(none, writeBatch calls), rfl,
            Exec.bind_eq_ok.2 ⟨jobs, hjobs, rfl⟩⟩, h⟩
      · rw [Bool.not_eq_true] at hinline
        have hfirst := hvalid (old, c) List.mem_cons_self
        rw [readJob_job hinline hfirst (hshort (old, c) List.mem_cons_self)]
        have hfilter : (((old, c) :: calls).map (·.2)).filter (! ·.isInline) =
            c :: (calls.map (·.2)).filter (! ·.isInline) := by
          simp [hinline]
        rw [forall_prop_of_true hinline]
        unfold Agrees
        rw [hfilter]
        constructor
        · rintro ⟨jobs, hjobs, h⟩
          obtain ⟨p, hp, hjobs⟩ := Exec.bind_eq_ok.1 hjobs
          obtain ⟨job, hjob, hp⟩ := Exec.bind_eq_ok.1 hp
          obtain rfl := Except.ok.inj hp
          obtain ⟨jobs', hjobs', hjobs⟩ := Exec.bind_eq_ok.1 hjobs
          obtain rfl := Except.ok.inj hjobs
          obtain ⟨hgood, hrest⟩ := List.forall₂_cons.1 h
          exact ⟨⟨job, hjob, hgood⟩, jobs', hjobs', hrest⟩
        · rintro ⟨⟨job, hjob, hgood⟩, jobs, hjobs, h⟩
          refine ⟨job :: jobs, Exec.bind_eq_ok.2 ⟨(some job, writeBatch calls), ?_, ?_⟩,
            .cons hgood h⟩
          · rw [hjob]
            rfl
          · exact Exec.bind_eq_ok.2 ⟨jobs, hjobs, rfl⟩

theorem batchAgrees_iff {calls : List ((ℕ → UInt8) × Call)} (hvalid : ∀ c ∈ calls, c.2.Valid)
    (hshort : ∀ c ∈ calls, c.2.jobSize < 4294967296) :
    BatchAgrees mem calls ↔ ∀ c ∈ calls, c.2.isInline = false → c.2.Fits := by
  rw [BatchAgrees, fromBatchBuffer, readJobs_iff hvalid hshort _ (Nat.lt_succ_self _)]
  exact forall₂_congr fun c hc => imp_congr_right fun hinline => good_iff (hvalid c hc) hinline

/-- Where no job takes 2^32 bytes, a batch is read as it was written exactly when its calls fit:
no run uses the statistics instance, and each sideband output buffer has place. -/
theorem batch_agrees (mem : ℕ → UInt8) (calls : List ((ℕ → UInt8) × Call))
    (hvalid : ∀ c ∈ calls, c.2.Valid) :
    ((∀ c ∈ calls, c.2.jobSize < 4294967296 ∧ (c.2.isInline = false → c.2.Fits)) →
      BatchAgrees mem calls) ∧
    ((∀ c ∈ calls, c.2.jobSize < 4294967296) → BatchAgrees mem calls →
      ∀ c ∈ calls, c.2.isInline = false → c.2.Fits) :=
  ⟨fun h => (batchAgrees_iff hvalid fun c hc => (h c hc).1).2 fun c hc => (h c hc).2,
    fun hshort => (batchAgrees_iff hvalid hshort).1⟩

/-- A control job whose sideband output is just the result, as the control mask takes the flag of
the stream away, inline data, and a run with two inputs and no sideband output. -/
def sampleCalls : List ((ℕ → UInt8) × Call) :=
  [(fun _ => 0xFF, .batchJobControlBufferRa 1 0x800000000000 ⟨0, 0⟩ ⟨0x1000, 24⟩ 0),
    (fun _ => 0, .batchJobInlineBuffer [1, 2, 3]),
    (fun _ => 7, .batchJobRunSplitBufferRa 2 0 [⟨0x2000, 2⟩, ⟨0x3000, 1⟩] [⟨0x4000, 8⟩] ⟨0, 0⟩
      0x5000)]

instance : DecidablePred AjmBuffer.Valid := fun _ => inferInstanceAs (Decidable (_ ∧ _))

instance : DecidablePred Call.Valid := fun c => match c with
  | .batchJobControlBufferRa .. | .batchJobRunBufferRa .. | .batchJobRunSplitBufferRa .. =>
      inferInstanceAs (Decidable (_ ∧ _))
  | .batchJobInlineBuffer _ => inferInstanceAs (Decidable (_ < _))

instance (statistics : Bool) (flags size : ℕ) : Decidable (SidebandFits statistics flags size) :=
  inferInstanceAs (Decidable (8 ≤ size ∧ if statistics then 8 + wantedStatistics flags ≤ size
    else FitsLeft (size - 8) (wantedSizes flags)))

instance : DecidablePred Call.Fits := fun _ => inferInstanceAs (Decidable (_ ∧ _))

theorem batch_agrees_sample : BatchAgrees (fun _ => 5) sampleCalls :=
  (batch_agrees (fun _ => 5) sampleCalls (by decide)).1 (by decide)

/-- The result of a control job is put into a sideband output buffer of one byte. -/
theorem batch_agrees_fails :
    let calls : List ((ℕ → UInt8) × Call) :=
      [(fun _ => 0, .batchJobControlBufferRa 1 0 ⟨0, 0⟩ ⟨0x1000, 1⟩ 0)]
    (∀ c ∈ calls, c.2.Valid) ∧ ¬ BatchAgrees (fun _ => 0) calls := by
  refine ⟨by decide, fun h => ?_⟩
  have hfits := (batchAgrees_iff (by decide) (by decide)).1 h _
    List.mem_cons_self rfl
  exact absurd hfits (by decide)

end OrbitConsole.Ajm
