import OrbitConsole.Common.Counter
import OrbitConsole.Library.Tally
import OrbitConsole.Library.Transition

/-!
# The GPU command processor

`Liverpool::Process` and the threads that submit to it, send it commands and wait
for it. What is done under `submit_mutex` is one step, with the thread that its
`notify_one` wakes; the mutex of a queue is held from the end of a task until the
waiting threads are notified. A coroutine is the list of its packets and yields;
before each packet it calls `ProcessCommands`.
-/

namespace OrbitConsole.VideoCore

def numGfxRings : ℕ := 1
def numComputePipes : ℕ := 7
def numQueuesPerPipe : ℕ := 8
def numComputeRings : ℕ := numComputePipes * numQueuesPerPipe
def numTotalQueues : ℕ := numGfxRings + numComputeRings

abbrev QueueId := Fin numTotalQueues

instance : NeZero numTotalQueues := ⟨by decide⟩

inductive TaskOp where
  | packet
  | yield
  deriving DecidableEq

/-- A coroutine and what it still has to do. -/
structure GpuTask where
  id : ℕ
  ops : List TaskOp
  deriving DecidableEq

/-- A callback; a waiting sender is released at its end. -/
structure Command (ι : Type) where
  id : ℕ
  waiter : Option ι
  deriving DecidableEq

/-- Where `ProcessCommands` was called. -/
inductive Back where
  | select
  | task
  deriving DecidableEq

/-- Where the thread in `Process` stands. -/
inductive ProcessorPc (ι : Type) where
  /-- at the test of `CondvarWait` -/
  | waiting
  | blocked (woken : Bool)
  /-- at the head of the inner loop, about to load `num_submits` -/
  | head
  /-- about to load `num_commands` there -/
  | headCommands
  /-- at the head of the loop of `ProcessCommands` -/
  | commands (back : Back)
  | popCommand (back : Back)
  | callback (c : Command ι) (back : Back)
  /-- about to go on to the next queue -/
  | select
  /-- about to look at the front of the queue -/
  | front
  /-- in the task at the front of the queue -/
  | resumed
  /-- about to do `--num_submits`, with the mutex of the queue -/
  | decrement
  /-- about to notify, with the mutex of the queue -/
  | notify
  /-- about to load `submit_done` -/
  | afterLoop
  /-- in `OnSubmit` and `Flush` -/
  | flushing
  deriving DecidableEq

def Back.pc {ι : Type} : Back → ProcessorPc ι
  | .select => .select
  | .task => .resumed

/-- Where another thread stands. -/
inductive CallerPc where
  | idle
  /-- in `SubmitGfx` or `SubmitAsc`, about to put its task into the queue -/
  | pushing (q : QueueId) (task : GpuTask)
  /-- about to count it -/
  | counting (q : QueueId)
  /-- in `SendCommand`, waiting for the semaphore -/
  | acquiring
  /-- at the test of `WaitGpuIdle` -/
  | waitIdle
  | blocked (woken : Bool)
  deriving DecidableEq

def CallerPc.wake : CallerPc → CallerPc
  | .blocked _ => .blocked true
  | pc => pc

/-- The members of `Liverpool` that its threads share, and the threads. From `submitted` on it
is history: the tasks of each queue, the commands, and whether `SubmitDone` was called since
`OnSubmit` was last called. -/
structure Liverpool (ι : Type) where
  numSubmits : ℕ := 0
  numCommands : ℕ := 0
  submitDone : Bool := false
  submits : QueueId → List GpuTask := fun _ => []
  numMappedQueues : ℕ := 1
  commandQueue : List (Command ι) := []
  sem : ι → Bool := fun _ => false
  currQid : Option QueueId := none
  processor : ProcessorPc ι := .waiting
  callers : ι → CallerPc := fun _ => .idle
  submitted : QueueId → List ℕ := fun _ => []
  completed : QueueId → List ℕ := fun _ => []
  sent : List (Command ι) := []
  executed : List (Command ι) := []
  flushDue : Bool := false

inductive GpuAction (ι : Type) where
  /-- a call of `SubmitGfx`, or of `SubmitAsc` for another queue -/
  | submit (i : ι) (q : QueueId) (task : GpuTask)
  | sendCommand (i : ι) (id : ℕ) (wait : Bool) (target : Option (Option ι))
  | submitDone (i : ι) (target : Option (Option ι))
  | waitGpuIdle (i : ι)
  /-- the next step of a thread in a call -/
  | caller (i : ι) (target : Option (Option ι))
  | processor
  | spuriousProcessor
  | spuriousCaller (i : ι)

namespace Liverpool

variable {ι : Type} [DecidableEq ι]

def setCaller (s : Liverpool ι) (i : ι) (pc : CallerPc) : Liverpool ι :=
  { s with callers := Function.update s.callers i pc }

def currQueue (s : Liverpool ι) : List GpuTask :=
  match s.currQid with
  | none => []
  | some q => s.submits q

def accessHeld (s : Liverpool ι) (q : QueueId) : Bool :=
  (s.processor = .decrement ∨ s.processor = .notify) ∧ s.currQid = some q

def CanNotify (s : Liverpool ι) : Option (Option ι) → Prop
  | none => s.processor ≠ .blocked false ∧ ∀ i, s.callers i ≠ .blocked false
  | some none => s.processor = .blocked false
  | some (some i) => s.callers i = .blocked false

instance [Fintype ι] (s : Liverpool ι) : DecidablePred s.CanNotify :=
  fun target => match target with
    | none => inferInstanceAs (Decidable (_ ∧ _))
    | some none => inferInstanceAs (Decidable (_ = _))
    | some (some _) => inferInstanceAs (Decidable (_ = _))

def wakeOne (s : Liverpool ι) : Option (Option ι) → Liverpool ι
  | none => s
  | some none => { s with processor := .blocked true }
  | some (some i) => s.setCaller i (.blocked true)

/-- `submit_cv.notify_one()`. -/
def notifyOne [Fintype ι] (s : Liverpool ι) (target : Option (Option ι)) :
    Option (Liverpool ι) :=
  if s.CanNotify target then some (s.wakeOne target) else none

def stepCaller [Fintype ι] (s : Liverpool ι) (i : ι) (target : Option (Option ι)) :
    Option (Liverpool ι) :=
  match s.callers i with
  | .idle => none
  | .pushing q task =>
      if s.accessHeld q then none
      else some { s.setCaller i (.counting q) with
        submits := Function.update s.submits q (s.submits q ++ [task])
        submitted := Function.update s.submitted q (s.submitted q ++ [task.id]) }
  | .counting q =>
      { s.setCaller i .idle with
        numMappedQueues := max s.numMappedQueues (q.val + 1)
        numSubmits := incU32 s.numSubmits }.notifyOne target
  | .acquiring => if s.sem i then some (s.setCaller i .idle) else none
  | .waitIdle => some (s.setCaller i (if s.numSubmits = 0 then .idle else .blocked false))
  | .blocked woken => if woken then some (s.setCaller i .waitIdle) else none

def nextQid (s : Liverpool ι) : QueueId :=
  match s.currQid with
  | none => 0
  | some q => Fin.ofNat numTotalQueues ((q.val + 1) % s.numMappedQueues)

def stepProcessor (s : Liverpool ι) : Option (Liverpool ι) :=
  match s.processor with
  | .waiting =>
      if s.numCommands ≠ 0 ∨ s.numSubmits ≠ 0 ∨ s.submitDone then
        some { s with processor := .head, currQid := none }
      else some { s with processor := .blocked false }
  | .blocked woken => if woken then some { s with processor := .waiting } else none
  | .head =>
      some { s with processor := if s.numSubmits ≠ 0 then .commands .select else .headCommands }
  | .headCommands =>
      some { s with processor := if s.numCommands ≠ 0 then .commands .select else .afterLoop }
  | .commands back =>
      some { s with processor := if s.numCommands ≠ 0 then .popCommand back else back.pc }
  | .popCommand back =>
      match s.commandQueue with
      | [] => none
      | c :: rest => some { s with
          processor := .callback c back
          commandQueue := rest
          numCommands := decU32 s.numCommands }
  | .callback c back => some { s with
      processor := .commands back
      executed := s.executed ++ [c]
      sem := match c.waiter with
        | none => s.sem
        | some i => Function.update s.sem i true }
  | .select => some { s with processor := .front, currQid := some s.nextQid }
  | .front =>
      some { s with processor := if s.currQueue = [] then .head else .resumed }
  | .resumed =>
      match s.currQid, s.currQueue with
      | some q, task :: rest =>
          match task.ops with
          | [] => some { s with
              processor := .decrement
              submits := Function.update s.submits q rest
              completed := Function.update s.completed q (s.completed q ++ [task.id]) }
          | .packet :: ops => some { s with
              processor := .commands .task
              submits := Function.update s.submits q ({ task with ops := ops } :: rest) }
          | .yield :: ops => some { s with
              processor := .head
              submits := Function.update s.submits q ({ task with ops := ops } :: rest) }
      | _, _ => none
  | .decrement => some { s with processor := .notify, numSubmits := decU32 s.numSubmits }
  | .notify => some { s with processor := .head, callers := fun i => (s.callers i).wake }
  | .afterLoop =>
      if s.submitDone then some { s with processor := .flushing, flushDue := false }
      else some { s with processor := .waiting }
  | .flushing => some { s with processor := .waiting, submitDone := false }

def step [Fintype ι] (s : Liverpool ι) : GpuAction ι → Option (Liverpool ι)
  | .submit i q task =>
      if s.callers i = .idle then some (s.setCaller i (.pushing q task)) else none
  | .sendCommand i id wait target =>
      if s.callers i = .idle then
        let c : Command ι := ⟨id, if wait then some i else none⟩
        { s.setCaller i (if wait then .acquiring else .idle) with
          commandQueue := s.commandQueue ++ [c]
          sent := s.sent ++ [c]
          numCommands := incU32 s.numCommands
          sem := if wait then Function.update s.sem i false else s.sem }.notifyOne target
      else none
  | .submitDone i target =>
      if s.callers i = .idle then
        { s with submitDone := true, flushDue := true }.notifyOne target
      else none
  | .waitGpuIdle i =>
      if s.callers i = .idle then some (s.setCaller i .waitIdle) else none
  | .caller i target => s.stepCaller i target
  | .processor => s.stepProcessor
  | .spuriousProcessor =>
      match s.processor with
      | .blocked _ => some { s with processor := .blocked true }
      | _ => none
  | .spuriousCaller i =>
      match s.callers i with
      | .blocked _ => some (s.setCaller i (.blocked true))
      | _ => none

/-- The state of a new `Liverpool`. -/
def init : Liverpool ι := {}

end Liverpool

end OrbitConsole.VideoCore
