import Mathlib.Algebra.Group.Nat.Defs
import OrbitConsole.Common.Machine
import OrbitConsole.Library.Transition

/-!
# The stream buffer

A buffer that is filled from its start to its end and then from its start again.
Every committed region is summarised by a watch: the end of the region and the
scheduler tick of the commands that read it. After the buffer has wrapped around,
the watches of the round before are waited for, as far as a new region needs it.
-/

namespace OrbitConsole.VideoCore

open Exec

/-! ### The scheduler -/

/-- The ticks of a scheduler: the one of the commands being recorded, and the last one the GPU
is known to have reached. -/
structure Scheduler where
  current_tick : ℕ
  gpu_tick : ℕ
  deriving DecidableEq, Repr

namespace Scheduler

/-- The timeline semaphore starts at 0 and the first tick is 1. -/
def start : Scheduler := ⟨1, 0⟩

def flush (s : Scheduler) : Scheduler := { s with current_tick := s.current_tick + 1 }

/-- `MasterSemaphore::Refresh` when the semaphore has the given value. -/
def refresh (counter : ℕ) (s : Scheduler) : Scheduler :=
  if counter < s.gpu_tick then s else { s with gpu_tick := counter }

def isFree (counter tick : ℕ) (s : Scheduler) : Bool × Scheduler :=
  if tick ≤ s.gpu_tick then (true, s)
  else
    let s := s.refresh counter
    (decide (tick ≤ s.gpu_tick), s)

def wait (counter tick : ℕ) (s : Scheduler) : Scheduler :=
  let s := if s.current_tick ≤ tick then s.flush else s
  if tick ≤ s.gpu_tick then s else s.refresh (max counter tick)

end Scheduler

/-! ### The buffer -/

inductive MemoryUsage where
  | deviceLocal
  | upload
  | download
  | stream
  deriving DecidableEq, Repr

/-- What a stream buffer is created with. Alignments are powers of two that a `u64` can hold;
the device promises one for its atom size. -/
structure StreamParams where
  size_bytes : ℕ
  usage : MemoryUsage
  is_coherent : Bool
  nonCoherentAtomSize : ℕ
  size_lt : size_bytes < 2 ^ 63
  atom_pow : ∃ k ≤ 63, nonCoherentAtomSize = 2 ^ k

structure Watch where
  tick : ℕ
  upper_bound : ℕ
  deriving DecidableEq, Repr

structure StreamBuffer where
  offset : ℕ
  mapped_size : ℕ
  current_watches : List Watch
  current_watch_cursor : ℕ
  invalidation_mark : Option ℕ
  previous_watches : List Watch
  wait_cursor : ℕ
  wait_bound : ℕ
  deriving DecidableEq, Repr

namespace StreamBuffer

def watchesInitialReserve : ℕ := 0x4000
def watchesReserveChunk : ℕ := 0x1000

def reserveWatches (watches : List Watch) (grow_size : ℕ) : List Watch :=
  watches ++ List.replicate grow_size ⟨0, 0⟩

/-- The constructor. -/
def start : StreamBuffer where
  offset := 0
  mapped_size := 0
  current_watches := reserveWatches [] watchesInitialReserve
  current_watch_cursor := 0
  invalidation_mark := none
  previous_watches := reserveWatches [] watchesInitialReserve
  wait_cursor := 0
  wait_bound := 0

/-- The loop of `WaitPendingOperations`, which ends after at most `mark - wait_cursor` rounds.
`counter i` is the value of the semaphore when watch `i` is looked at. -/
def waitLoop (counter : ℕ → ℕ) (requested_upper_bound : ℕ) (allow_wait : Bool) (mark : ℕ) :
    ℕ → StreamBuffer → Scheduler → Exec (Bool × StreamBuffer × Scheduler)
  | 0, b, s => pure (true, b, s)
  | n + 1, b, s =>
      if b.wait_bound < requested_upper_bound ∧ b.wait_cursor < mark then
        match b.previous_watches[b.wait_cursor]? with
        | none => throw .undefined
        | some watch =>
            let (free, s) := s.isFree (counter b.wait_cursor) watch.tick
            if free = false ∧ allow_wait = false then pure (false, b, s)
            else
              let s := s.wait (counter b.wait_cursor) watch.tick
              let b := { b with wait_bound := watch.upper_bound, wait_cursor := b.wait_cursor + 1 }
              waitLoop counter requested_upper_bound allow_wait mark n b s
      else pure (true, b, s)

def waitPendingOperations (counter : ℕ → ℕ) (requested_upper_bound : ℕ) (allow_wait : Bool)
    (b : StreamBuffer) (s : Scheduler) : Exec (Bool × StreamBuffer × Scheduler) :=
  match b.invalidation_mark with
  | none => pure (true, b, s)
  | some mark =>
      waitLoop counter requested_upper_bound allow_wait mark (mark - b.wait_cursor) b s

/-- The part of `Map` that starts over from the beginning of the buffer. -/
def wrap (b : StreamBuffer) : StreamBuffer :=
  { b with
    invalidation_mark := some b.current_watch_cursor
    current_watch_cursor := 0
    offset := 0
    previous_watches := b.current_watches
    current_watches := b.previous_watches
    wait_cursor := 0
    wait_bound := 0 }

/-- `StreamBuffer::Map`: the offset of the region, or none for the null pointer. -/
def map (d : StreamParams) (counter : ℕ → ℕ) (size alignment : ℕ) (allow_wait : Bool)
    (b : StreamBuffer) (s : Scheduler) : Exec (Option ℕ × StreamBuffer × Scheduler) :=
  let size :=
    if d.is_coherent = false ∧ d.usage = .stream then alignUp size d.nonCoherentAtomSize
    else size
  if d.size_bytes < size then pure (none, b, s)
  else do
    let b := { b with mapped_size := size }
    let b := if 0 < alignment then { b with offset := alignUp b.offset alignment } else b
    let b := if d.size_bytes < add64 b.offset size then wrap b else b
    let (ready, b, s) ← waitPendingOperations counter (add64 b.offset size) allow_wait b s
    if ready = false then return (none, b, s)
    return (some b.offset, b, s)

/-- The part of `Commit` that takes the next watch. -/
def addWatch (b : StreamBuffer) (s : Scheduler) : Exec StreamBuffer :=
  let watches :=
    if b.current_watches.length ≤ b.current_watch_cursor + 1 then
      reserveWatches b.current_watches watchesReserveChunk
    else b.current_watches
  if b.current_watch_cursor < watches.length then
    pure { b with
      current_watches := watches.set b.current_watch_cursor ⟨s.current_tick, b.offset⟩
      current_watch_cursor := b.current_watch_cursor + 1 }
  else throw .undefined

/-- `StreamBuffer::Commit`. The watch that is compared is the one after the last one taken. -/
def commit (b : StreamBuffer) (s : Scheduler) : Exec StreamBuffer :=
  let b := { b with offset := add64 b.offset b.mapped_size }
  if b.current_watch_cursor = 0 then addWatch b s
  else
    match b.current_watches[b.current_watch_cursor]? with
    | none => throw .undefined
    | some watch =>
        if watch.tick = s.current_tick then
          pure { b with
            current_watches :=
              b.current_watches.set b.current_watch_cursor { watch with upper_bound := b.offset } }
        else addWatch b s

end StreamBuffer

/-! ### Runs -/

structure Region where
  lo : ℕ
  hi : ℕ
  tick : ℕ
  deriving DecidableEq, Repr

structure StreamSystem where
  buffer : StreamBuffer
  scheduler : Scheduler
  mapped : Bool
  committed : List Region
  deriving DecidableEq, Repr

/-- What happens to a stream buffer and its scheduler. -/
inductive StreamAction where
  /-- Recorded commands are submitted. -/
  | flush
  /-- The GPU has come so far. -/
  | progress (counter : ℕ)
  | map (counter : ℕ → ℕ) (size alignment : ℕ) (allow_wait : Bool)
  | commit

namespace StreamSystem

def start : StreamSystem := ⟨.start, .start, false, []⟩

/-- A region that was mapped is committed before the next one is mapped. -/
def step (d : StreamParams) (st : StreamSystem) : StreamAction → Option StreamSystem
  | .flush => some { st with scheduler := st.scheduler.flush }
  | .progress counter => some { st with scheduler := st.scheduler.refresh counter }
  | .map counter size alignment allow_wait =>
      if st.mapped then none
      else
        match st.buffer.map d counter size alignment allow_wait st.scheduler with
        | .ok (offset, b, s) =>
            some { st with buffer := b, scheduler := s, mapped := offset.isSome }
        | .error _ => none
  | .commit =>
      if st.mapped then
        match st.buffer.commit st.scheduler with
        | .ok b =>
            let region : Region :=
              ⟨st.buffer.offset, st.buffer.offset + st.buffer.mapped_size,
                st.scheduler.current_tick⟩
            some { st with buffer := b, mapped := false, committed := region :: st.committed }
        | .error _ => none
      else none

/-- The arguments `Map` is called with. -/
def Admitted (d : StreamParams) (_ : StreamSystem) : StreamAction → Prop
  | .map _ size alignment _ =>
      size ≤ d.size_bytes ∧ (alignment = 0 ∨ ∃ k ≤ 63, alignment = 2 ^ k)
  | _ => True

end StreamSystem

end OrbitConsole.VideoCore
