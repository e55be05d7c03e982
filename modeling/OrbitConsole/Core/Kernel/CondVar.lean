import Mathlib.Data.Int.Notation
import Mathlib.Data.Nat.Notation
import Mathlib.Logic.Function.Basic
import OrbitConsole.Library.Transition

/-!
# Condition variables

`PthreadCond`, the mutexes it works with and the wake semaphores of the threads.
What a call does under the lock of a sleep queue is one step, but for `Wait`,
which gives up its mutex in the middle. A release that a call is about to make
stands in `releases` of its thread; the thread goes on when all are made. Threads
are not cancelled. The `SleepQueue` objects that the threads lend each other are
not modelled, only who is blocked on which condition variable.
-/

namespace OrbitConsole.Kernel

def posixEdeadlk : ℤ := 11
def posixEagain : ℤ := 35
def posixEtimedout : ℤ := 60

inductive PthreadMutexType where
  | errorCheck
  | recursive
  | normal
  | adaptiveNp
  deriving DecidableEq

structure PthreadMutex where
  type : PthreadMutexType
  /-- the flag `Deferred` -/
  deferred : Bool := false
  owner : Option ℕ := none
  count : ℤ := 0

namespace PthreadMutex

/-- `SelfLock` without a time limit; a normal mutex ends the emulator. -/
def selfLock (mp : PthreadMutex) : Option (PthreadMutex × ℤ) :=
  match mp.type with
  | .errorCheck | .adaptiveNp => some (mp, posixEdeadlk)
  | .normal => none
  | .recursive =>
      if mp.count + 1 < 2147483648 then some ({ mp with count := mp.count + 1 }, 0)
      else some (mp, posixEagain)

/-- `Lock`, once it gets through. -/
def lock (mp : PthreadMutex) (curthread : ℕ) : Option (PthreadMutex × ℤ) :=
  if mp.owner = some curthread then mp.selfLock
  else if mp.owner = none then some ({ mp with owner := some curthread }, 0)
  else none

def unlock (mp : PthreadMutex) : PthreadMutex × Bool :=
  if mp.type = .recursive ∧ 0 < mp.count then ({ mp with count := mp.count - 1 }, false)
  else ({ mp with deferred := false, owner := none }, mp.deferred)

def cvUnlock (mp : PthreadMutex) : PthreadMutex × ℤ :=
  ({ mp with count := 0 }.unlock.1, mp.count)

def cvLock (mp : PthreadMutex) (curthread : ℕ) (recurse : ℤ) : Option (PthreadMutex × ℤ) :=
  (mp.lock curthread).map fun r => if r.2 = 0 then ({ r.1 with count := recurse }, 0) else r

end PthreadMutex

structure CondCall where
  cond : ℕ
  mutex : ℕ
  timed : Bool
  entry : ℤ
  recurse : ℤ := 0
  deriving DecidableEq

/-- Where a thread stands. -/
inductive CondPhase where
  | idle
  /-- about to take the lock of the sleep queue -/
  | entering (call : CondCall)
  /-- with the lock of the sleep queue, after `CvUnlock` -/
  | queueing (call : CondCall)
  /-- about to call `Sleep` -/
  | queued (call : CondCall)
  /-- in the wake semaphore -/
  | sleeping (call : CondCall)
  | woken (call : CondCall) (timedOut : Bool)
  /-- in `CvLock` -/
  | relocking (call : CondCall) (error : ℤ)
  /-- back from `Wait` -/
  | returned (call : CondCall) (error : ℤ)
  /-- an assertion of `Wait` has failed -/
  | unreachable
  deriving DecidableEq

/-- The members of `Pthread` that its waits use. -/
structure Pthread where
  wakeSema : ℕ := 0
  wchan : Option ℕ := none
  mutexObj : Option ℕ := none
  willSleep : Bool := false
  deferWaiters : List ℕ := []
  /-- the releases its current call is about to make -/
  releases : List ℕ := []
  phase : CondPhase := .idle
  /-- a signal or a broadcast has taken it off the queue since it queued itself -/
  dequeued : Bool := false

namespace Pthread

def maxDeferWaiters : ℕ := 50

def wakeAll (p : Pthread) : Pthread :=
  { p with releases := p.releases ++ p.deferWaiters, deferWaiters := [] }

/-- The part of `Signal` and of `Broadcast` that defers waking a thread. -/
def defer (p : Pthread) (td : ℕ) : Pthread :=
  let p := if maxDeferWaiters ≤ p.deferWaiters.length then p.wakeAll else p
  { p with deferWaiters := p.deferWaiters ++ [td] }

/-- The thread is between two calls. -/
def free (p : Pthread) : Bool :=
  p.releases.isEmpty && match p.phase with
    | .idle => true
    | .returned _ _ => true
    | _ => false

end Pthread

/-- The threads, the mutexes, who is blocked on each condition variable, and the locks of the
chains of sleep queues. -/
structure CondState where
  thread : ℕ → Pthread
  mutex : ℕ → PthreadMutex
  blocked : ℕ → List ℕ
  chainLocked : ℕ → Bool
  /-- a wake semaphore was released while it had a token -/
  overReleased : Bool

namespace CondState

def init (type : ℕ → PthreadMutexType) : CondState :=
  { thread := fun _ => {}
    mutex := fun m => { type := type m }
    blocked := fun _ => []
    chainLocked := fun _ => false
    overReleased := false }

def setThread (s : CondState) (t : ℕ) (p : Pthread) : CondState :=
  { s with thread := Function.update s.thread t p }

def setMutex (s : CondState) (m : ℕ) (mp : PthreadMutex) : CondState :=
  { s with mutex := Function.update s.mutex m mp }

/-- `Wait`, up to the lock of the sleep queue; without the mutex it returns at once. -/
def wait (s : CondState) (t c m : ℕ) (timed : Bool) : Option CondState :=
  let p := s.thread t
  if !p.free then none
  else if (s.mutex m).owner ≠ some t then some (s.setThread t { p with phase := .idle })
  else if p.wchan ≠ none then some (s.setThread t { p with phase := .unreachable })
  else some (s.setThread t { p with phase := .entering ⟨c, m, timed, (s.mutex m).count, 0⟩ })

def enter (hash : ℕ → ℕ) (s : CondState) (t : ℕ) : Option CondState :=
  let p := s.thread t
  match p.phase with
  | .entering call =>
      if s.chainLocked (hash call.cond) then none
      else
        let r := (s.mutex call.mutex).cvUnlock
        let p := { p with willSleep := true, phase := .queueing { call with recurse := r.2 } }
        some { (s.setMutex call.mutex r.1).setThread t p with
          chainLocked := Function.update s.chainLocked (hash call.cond) true }
  | _ => none

/-- `SleepqAdd` and `ClearWake`; the lock of the chain is given up. -/
def add (hash : ℕ → ℕ) (s : CondState) (t : ℕ) : Option CondState :=
  let p := s.thread t
  match p.phase with
  | .queueing call =>
      some { s.setThread t { p with
          mutexObj := some call.mutex
          wchan := some call.cond
          wakeSema := p.wakeSema - 1
          dequeued := false
          phase := .queued call } with
        blocked := Function.update s.blocked call.cond (t :: s.blocked call.cond)
        chainLocked := Function.update s.chainLocked (hash call.cond) false }
  | _ => none

def sleep (s : CondState) (t : ℕ) : Option CondState :=
  let p := s.thread t
  match p.phase with
  | .queued call =>
      some (s.setThread t { p.wakeAll with willSleep := false, phase := .sleeping call })
  | _ => none

def acquire (s : CondState) (t : ℕ) : Option CondState :=
  let p := s.thread t
  match p.phase with
  | .sleeping call =>
      if p.releases ≠ [] ∨ p.wakeSema = 0 then none
      else some (s.setThread t
        { p with wakeSema := p.wakeSema - 1, phase := .woken call false })
  | _ => none

/-- The time of a timed wait runs out. -/
def expire (s : CondState) (t : ℕ) : Option CondState :=
  let p := s.thread t
  match p.phase with
  | .sleeping call =>
      if p.releases ≠ [] ∨ call.timed = false then none
      else some (s.setThread t { p with phase := .woken call true })
  | _ => none

/-- After the sleep, under the lock of the sleep queue. -/
def recheck (hash : ℕ → ℕ) (s : CondState) (t : ℕ) : Option CondState :=
  let p := s.thread t
  match p.phase with
  | .woken call timedOut =>
      if s.chainLocked (hash call.cond) then none
      else if p.wchan = none then
        some (s.setThread t { p with mutexObj := none, phase := .relocking call 0 })
      else if timedOut then
        some { s.setThread t { p with
            mutexObj := none
            wchan := none
            phase := .relocking call posixEtimedout } with
          blocked := Function.update s.blocked call.cond
            ((s.blocked call.cond).filter (· ≠ t)) }
      else some (s.setThread t { p with phase := .unreachable })
  | _ => none

def relock (s : CondState) (t : ℕ) : Option CondState :=
  let p := s.thread t
  match p.phase with
  | .relocking call error =>
      ((s.mutex call.mutex).cvLock t call.recurse).map fun r =>
        (s.setMutex call.mutex r.1).setThread t
          { p with phase := .returned call (if error = 0 then r.2 else error) }
  | _ => none

/-- `Signal (nullptr)`, up to the release it still has to make. -/
def signal (hash : ℕ → ℕ) (s : CondState) (u c : ℕ) : Option CondState :=
  let p := { s.thread u with phase := .idle }
  if !(s.thread u).free || s.chainLocked (hash c) then none
  else match s.blocked c with
    | [] => some (s.setThread u p)
    | td :: rest =>
        match (s.thread td).mutexObj with
        -- it would be read through a null pointer
        | none => none
        | some m =>
            let s : CondState :=
              { s.setThread td { s.thread td with wchan := none, dequeued := true } with
                blocked := Function.update s.blocked c rest }
            if (s.mutex m).owner = some u then
              some ((s.setThread u (p.defer td)).setMutex m
                { s.mutex m with deferred := true })
            else some (s.setThread u { p with releases := p.releases ++ [td] })

/-- `drop_cb` of `Broadcast` for one thread: the current thread and the array `waddrs`. -/
def dropOne (s : CondState) (u : ℕ) (r : Pthread × List ℕ) (td : ℕ) : Pthread × List ℕ :=
  if ((s.thread td).mutexObj.map fun m => (s.mutex m).owner) = some (some u) then
    (r.1.defer td, r.2)
  else if Pthread.maxDeferWaiters ≤ r.2.length then
    ({ r.1 with releases := r.1.releases ++ r.2 }, [td])
  else (r.1, r.2 ++ [td])

def broadcast (hash : ℕ → ℕ) (s : CondState) (u c : ℕ) : Option CondState :=
  let p := { s.thread u with phase := .idle }
  if !(s.thread u).free || s.chainLocked (hash c) then none
  else
    let r := (s.blocked c).foldl (s.dropOne u) (p, [])
    let woken := fun t =>
      if t ∈ s.blocked c then { s.thread t with wchan := none, dequeued := true } else s.thread t
    some
      { thread := Function.update woken u { r.1 with releases := r.1.releases ++ r.2 }
        mutex := fun m =>
          { s.mutex m with
            deferred := (s.mutex m).deferred || ((s.mutex m).owner == some u &&
              (s.blocked c).any fun td => (s.thread td).mutexObj == some m) }
        blocked := Function.update s.blocked c []
        chainLocked := s.chainLocked
        overReleased := s.overReleased }

def deliver (s : CondState) (u : ℕ) : Option CondState :=
  match (s.thread u).releases with
  | [] => none
  | td :: rest =>
      let s := s.setThread u { s.thread u with releases := rest }
      let s' := s.setThread td { s.thread td with wakeSema := (s.thread td).wakeSema + 1 }
      some { s' with overReleased := s.overReleased || 0 < (s.thread td).wakeSema }

def lock (s : CondState) (t m : ℕ) : Option CondState :=
  if !(s.thread t).free then none
  else ((s.mutex m).lock t).map fun r =>
    (s.setMutex m r.1).setThread t { s.thread t with phase := .idle }

def unlock (s : CondState) (t m : ℕ) : Option CondState :=
  let p := { s.thread t with phase := .idle }
  if !(s.thread t).free then none
  else if (s.mutex m).owner ≠ some t then some (s.setThread t p)
  else
    let r := (s.mutex m).unlock
    some ((s.setMutex m r.1).setThread t (if !p.willSleep && r.2 then p.wakeAll else p))

end CondState

/-- What the threads do. -/
inductive CondAction where
  | wait (t c m : ℕ) (timed : Bool)
  | enter (t : ℕ)
  | add (t : ℕ)
  | sleep (t : ℕ)
  | acquire (t : ℕ)
  | expire (t : ℕ)
  | recheck (t : ℕ)
  | relock (t : ℕ)
  | signal (u c : ℕ)
  | broadcast (u c : ℕ)
  | deliver (u : ℕ)
  | lock (t m : ℕ)
  | unlock (t m : ℕ)

def CondState.step (hash : ℕ → ℕ) (s : CondState) : CondAction → Option CondState
  | .wait t c m timed => s.wait t c m timed
  | .enter t => s.enter hash t
  | .add t => s.add hash t
  | .sleep t => s.sleep t
  | .acquire t => s.acquire t
  | .expire t => s.expire t
  | .recheck t => s.recheck hash t
  | .relock t => s.relock t
  | .signal u c => s.signal hash u c
  | .broadcast u c => s.broadcast hash u c
  | .deliver u => s.deliver u
  | .lock t m => s.lock t m
  | .unlock t m => s.unlock t m

end OrbitConsole.Kernel
