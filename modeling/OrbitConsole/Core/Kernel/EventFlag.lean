import OrbitConsole.Core.Kernel.Semaphore

/-!
# Event flags

`EventFlagInternal` and the threads that wait in it. A thread in the condition
variable gives up the mutex, wakes up (it is notified, its time runs out, or for
no reason), takes the mutex again and looks whether it may go on. `Cancel` is
two steps, since it lets the waiting threads go in between. The time left, which
a timed call writes back, is not modelled.
-/

namespace OrbitConsole.Kernel

open Memory (orbisOk)

def errorEperm : ℤ := 0x80020001 - 0x100000000

namespace EventFlag

inductive ClearMode where
  | none
  | all
  | bits
  deriving DecidableEq

inductive WaitMode where
  | and
  | or
  deriving DecidableEq

inductive ThreadMode where
  | single
  | multi
  deriving DecidableEq

inductive Status where
  | set
  | canceled
  | deleted
  deriving DecidableEq

structure WaitCall where
  bits : BitVec 64
  waitMode : WaitMode
  clearMode : ClearMode
  timed : Bool
  deriving DecidableEq

inductive EvfPhase where
  | absent
  /-- in the condition variable -/
  | blocked (call : WaitCall)
  /-- about to take the mutex again -/
  | woken (call : WaitCall) (timedOut : Bool)
  /-- with the result and the pattern it reports -/
  | returned (result : ℤ) (pattern : BitVec 64)
  deriving DecidableEq

end EventFlag

open EventFlag

structure EventFlagInternal where
  status : Status := .set
  waitingThreads : ℕ := 0
  threadMode : ThreadMode
  bits : BitVec 64

structure EvfState extends EventFlagInternal where
  phase : ℕ → EvfPhase
  arrived : ℕ

namespace EvfState

/-- `sceKernelCreateEventFlag`, on a name it accepts. -/
def create (threadMode : ThreadMode) (initPattern : BitVec 64) : EvfState :=
  { threadMode := threadMode
    bits := initPattern
    phase := fun _ => .absent
    arrived := 0 }

def waitFunc (s : EvfState) (call : WaitCall) : Bool :=
  s.status = .canceled || s.status = .deleted ||
    (call.waitMode = .and && s.bits &&& call.bits = call.bits) ||
    (call.waitMode = .or && s.bits &&& call.bits ≠ 0)

/-- The end of `Wait` after the condition holds: the state it leaves (with the thread no longer
counted) and the result. -/
def finish (s : EvfState) (call : WaitCall) : EvfState × ℤ :=
  if s.status = .canceled then (s, errorEcanceled)
  else if s.status = .deleted then (s, errorEacces)
  else match call.clearMode with
    | .all => ({ s with bits := 0 }, orbisOk)
    | .bits => ({ s with bits := s.bits &&& ~~~call.bits }, orbisOk)
    | .none => (s, orbisOk)

def wait (s : EvfState) (call : WaitCall) : EvfState × Option ℤ :=
  if s.threadMode = .single ∧ 0 < s.waitingThreads then (s, some errorEperm)
  -- the count goes up and down again while the mutex is held
  else if s.waitFunc call then
    let r := s.finish call
    (r.1, some r.2)
  else
    ({ s with
        waitingThreads := s.waitingThreads + 1
        phase := Function.update s.phase s.arrived (.blocked call)
        arrived := s.arrived + 1 }, none)

/-- A waiting thread leaves the condition variable. -/
def wake (s : EvfState) (i : ℕ) (timedOut : Bool) : Option EvfState :=
  match s.phase i with
  | .blocked call =>
      if timedOut && !call.timed then none
      else some { s with phase := Function.update s.phase i (.woken call timedOut) }
  | _ => none

/-- A woken thread takes the mutex and looks at the condition: it returns, or it goes back to
the condition variable. -/
def resume (s : EvfState) (i : ℕ) : Option EvfState :=
  match s.phase i with
  | .woken call timedOut =>
      if s.waitFunc call then
        let r := { s with waitingThreads := s.waitingThreads - 1 }.finish call
        some { r.1 with phase := Function.update s.phase i (.returned r.2 s.bits) }
      else if timedOut then
        some { s with
          waitingThreads := s.waitingThreads - 1
          phase := Function.update s.phase i (.returned errorEtimedout s.bits) }
      else some { s with phase := Function.update s.phase i (.blocked call) }
  | _ => none

def set (s : EvfState) (bits : BitVec 64) : Option EvfState :=
  if s.status = .set then some { s with bits := s.bits ||| bits } else none

def clear (s : EvfState) (bits : BitVec 64) : Option EvfState :=
  if s.status = .set then some { s with bits := s.bits &&& bits } else none

/-- `Cancel`, up to where it lets the waiting threads go. -/
def cancel (s : EvfState) (setPattern : BitVec 64) : Option EvfState :=
  if s.status = .set then some { s with status := .canceled, bits := setPattern } else none

def cancelEnd (s : EvfState) : Option EvfState :=
  if s.status = .canceled ∧ s.waitingThreads = 0 then some { s with status := .set } else none

end EvfState

/-- What the threads do to an event flag; `cancelEnd` is in the middle of a call. -/
inductive EvfAction where
  | wait (call : WaitCall)
  | wake (i : ℕ) (timedOut : Bool)
  | resume (i : ℕ)
  | set (bits : BitVec 64)
  | clear (bits : BitVec 64)
  | cancel (setPattern : BitVec 64)
  | cancelEnd

def EvfState.step (s : EvfState) : EvfAction → Option EvfState
  | .wait call => some (s.wait call).1
  | .wake i timedOut => s.wake i timedOut
  | .resume i => s.resume i
  | .set bits => s.set bits
  | .clear bits => s.clear bits
  | .cancel setPattern => s.cancel setPattern
  | .cancelEnd => s.cancelEnd

end OrbitConsole.Kernel
