import Mathlib.Logic.Function.Basic
import OrbitConsole.Core.Memory.Direct
import OrbitConsole.Library.Transition

/-!
# Kernel semaphores

`OrbisSem` and the threads that wait in it. Everything a call does while it
holds the mutex is one step. A call of `Wait` that has to wait takes three: it
queues itself and gives up the mutex, it leaves its own binary semaphore (with a
token, or because its time ran out), and it takes the mutex again and returns.
The time left, which a timed call writes back, is not modelled.
-/

namespace OrbitConsole.Kernel

open Memory (orbisOk errorEbusy errorEinval)

def errorEacces : ℤ := 0x8002000D - 0x100000000
def errorEtimedout : ℤ := 0x8002003C - 0x100000000
def errorEcanceled : ℤ := 0x80020055 - 0x100000000

/-- An `s32` after an operation that may leave its range. -/
def wrap32 (x : ℤ) : ℤ := Int.bmod x 4294967296

@[simp] theorem wrap32_eq {x : ℤ} (h : -2147483648 ≤ x) (h' : x < 2147483648) :
    wrap32 x = x :=
  Int.bmod_eq_of_le (by omega) (by omega)

theorem wrap32_of_le {x : ℤ} (h : 2147483648 ≤ x) (h' : x < 6442450944) :
    wrap32 x = x - 4294967296 := by
  unfold wrap32 Int.bmod
  dsimp only
  split <;> omega

def IsS32 (x : ℤ) : Prop := -2147483648 ≤ x ∧ x < 2147483648

instance (x : ℤ) : Decidable (IsS32 x) := inferInstanceAs (Decidable (_ ∧ _))

structure WaitingThread where
  /-- the tokens of the binary semaphore -/
  sem : ℕ := 0
  priority : ℕ := 0
  needCount : ℤ := 0
  wasSignaled : Bool := false
  wasDeleted : Bool := false
  wasCanceled : Bool := false
  deriving DecidableEq

namespace WaitingThread

def getResult (waiter : WaitingThread) : ℤ :=
  if waiter.wasSignaled then orbisOk
  else if waiter.wasDeleted then errorEacces
  else if waiter.wasCanceled then errorEcanceled
  else errorEtimedout

def signaled (waiter : WaitingThread) : WaitingThread :=
  { waiter with wasSignaled := true, sem := waiter.sem + 1 }

def canceled (waiter : WaitingThread) : WaitingThread :=
  { waiter with wasCanceled := true, sem := waiter.sem + 1 }

def deleted (waiter : WaitingThread) : WaitingThread :=
  { waiter with wasDeleted := true, sem := waiter.sem + 1 }

end WaitingThread

/-- Where a call of `Wait` that had to wait stands. -/
inductive WaitPhase where
  | absent
  /-- in `sem.acquire ()`, or in `sem.try_acquire_for ()` -/
  | blocked (timed : Bool)
  /-- about to take the mutex again -/
  | woken
  | returned (result : ℤ)
  deriving DecidableEq

structure OrbisSem where
  waitList : List ℕ
  tokenCount : ℤ
  maxCount : ℤ
  initCount : ℤ
  isFifo : Bool

/-- A semaphore and the calls that had to wait in it, numbered as they arrived. -/
structure SemState extends OrbisSem where
  waiter : ℕ → WaitingThread
  phase : ℕ → WaitPhase
  arrived : ℕ
  /-- the tokens `Signal` has handed to waiting threads so far -/
  granted : ℤ

namespace SemState

/-- `sceKernelCreateSema`, on a name that is not null. -/
def create (attr : ℕ) (initCount maxCount : ℤ) : Option SemState :=
  if 2 < attr ∨ initCount < 0 ∨ maxCount ≤ 0 ∨ maxCount < initCount then none
  else some
    { waitList := []
      tokenCount := initCount
      maxCount := maxCount
      initCount := initCount
      isFifo := attr = 1
      waiter := fun _ => {}
      phase := fun _ => .absent
      arrived := 0
      granted := 0 }

def addWaiter (isFifo : Bool) (priority : ℕ → ℕ) (waitList : List ℕ) (waiter : ℕ) : List ℕ :=
  -- Insert at the end of the list for FIFO order.
  if isFifo then waitList ++ [waiter]
  -- Find the first with lower priority (greater number) and insert right before it.
  else waitList.takeWhile (fun i => priority i ≤ priority waiter) ++
    waiter :: waitList.dropWhile (fun i => priority i ≤ priority waiter)

def wait (s : SemState) (priority : ℕ) (canBlock : Bool) (needCount : ℤ)
    (timeout : Option ℕ) : SemState × Option ℤ :=
  if needCount ≤ s.tokenCount then
    ({ s with tokenCount := wrap32 (s.tokenCount - needCount) }, some orbisOk)
  else if !canBlock then (s, some errorEbusy)
  else if timeout = some 0 then (s, some errorEtimedout)
  else
    let waiter : WaitingThread :=
      { priority := if s.isFifo then 0 else priority, needCount := needCount }
    let waiters := Function.update s.waiter s.arrived waiter
    ({ s with
        waitList := addWaiter s.isFifo (fun i => (waiters i).priority) s.waitList s.arrived
        waiter := waiters
        phase := Function.update s.phase s.arrived (.blocked timeout.isSome)
        arrived := s.arrived + 1 }, none)

/-- The loop of `Signal`: the waiting threads that stay on the list, the tokens left, and
the waiting threads with their flags. -/
def grant : List ℕ → ℤ → (ℕ → WaitingThread) → List ℕ × ℤ × (ℕ → WaitingThread)
  | [], tokenCount, waiter => ([], tokenCount, waiter)
  | i :: rest, tokenCount, waiter =>
      if tokenCount < (waiter i).needCount then
        let r := grant rest tokenCount waiter
        (i :: r.1, r.2)
      else grant rest (wrap32 (tokenCount - (waiter i).needCount))
        (Function.update waiter i (waiter i).signaled)

/-- `Signal`; the sum wraps around where the source leaves it undefined. -/
def signal (s : SemState) (signalCount : ℤ) : SemState × Bool :=
  if s.maxCount < wrap32 (s.tokenCount + signalCount) then (s, false)
  else
    let r := grant s.waitList (wrap32 (s.tokenCount + signalCount)) s.waiter
    ({ s with
        waitList := r.1
        tokenCount := r.2.1
        waiter := r.2.2
        granted := s.granted + (wrap32 (s.tokenCount + signalCount) - r.2.1) }, true)

/-- The loop of `Cancel` and `Delete` over the whole list. -/
def markAll (f : WaitingThread → WaitingThread) (waitList : List ℕ)
    (waiter : ℕ → WaitingThread) : ℕ → WaitingThread :=
  waitList.foldl (fun waiter i => Function.update waiter i (f (waiter i))) waiter

def cancel (s : SemState) (setCount : ℤ) : SemState × ℕ :=
  ({ s with
      waiter := markAll WaitingThread.canceled s.waitList s.waiter
      waitList := []
      tokenCount := if setCount < 0 then s.initCount else setCount }, s.waitList.length)

def delete (s : SemState) : SemState :=
  { s with
    waiter := markAll WaitingThread.deleted s.waitList s.waiter
    waitList := [] }

/-- A waiting thread takes the token of its binary semaphore. -/
def acquire (s : SemState) (i : ℕ) : Option SemState :=
  match s.phase i with
  | .blocked _ =>
      if (s.waiter i).sem = 0 then none
      else some { s with
        waiter := Function.update s.waiter i { s.waiter i with sem := (s.waiter i).sem - 1 }
        phase := Function.update s.phase i .woken }
  | _ => none

/-- The time of a waiting thread runs out. -/
def expire (s : SemState) (i : ℕ) : Option SemState :=
  match s.phase i with
  | .blocked true => some { s with phase := Function.update s.phase i .woken }
  | _ => none

/-- A woken thread takes the mutex and returns; after a timeout it leaves the list. -/
def resume (s : SemState) (i : ℕ) : Option SemState :=
  match s.phase i with
  | .woken =>
      let result := (s.waiter i).getResult
      some { s with
        waitList := if result = errorEtimedout then s.waitList.erase i else s.waitList
        phase := Function.update s.phase i (.returned result) }
  | _ => none

end SemState

/-- What the threads do to a semaphore. -/
inductive SemAction where
  | wait (priority : ℕ) (canBlock : Bool) (needCount : ℤ) (timeout : Option ℕ)
  | acquire (i : ℕ)
  | expire (i : ℕ)
  | resume (i : ℕ)
  | signal (signalCount : ℤ)
  | cancel (setCount : ℤ)
  | delete

def SemState.step (s : SemState) : SemAction → Option SemState
  | .wait priority canBlock needCount timeout =>
      some (s.wait priority canBlock needCount timeout).1
  | .acquire i => s.acquire i
  | .expire i => s.expire i
  | .resume i => s.resume i
  | .signal signalCount => some (s.signal signalCount).1
  | .cancel setCount => some (s.cancel setCount).1
  | .delete => some s.delete

def SemAction.IsS32 : SemAction → Prop
  | .wait _ _ needCount _ => Kernel.IsS32 needCount
  | .signal signalCount => Kernel.IsS32 signalCount
  | .cancel setCount => Kernel.IsS32 setCount
  | _ => True

instance : (a : SemAction) → Decidable a.IsS32
  | .wait _ _ needCount _ => inferInstanceAs (Decidable (Kernel.IsS32 needCount))
  | .signal signalCount => inferInstanceAs (Decidable (Kernel.IsS32 signalCount))
  | .cancel setCount => inferInstanceAs (Decidable (Kernel.IsS32 setCount))
  | .acquire _ | .expire _ | .resume _ | .delete => inferInstanceAs (Decidable True)

end OrbitConsole.Kernel
