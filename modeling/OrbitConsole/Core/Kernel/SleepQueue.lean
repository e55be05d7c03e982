import Mathlib.Data.Int.Notation
import Mathlib.Data.Nat.Notation
import Mathlib.Logic.Function.Basic
import OrbitConsole.Library.Transition

/-!
# Sleep queues

The `SleepQueue` objects and the table of the active ones. A thread brings its
own object when it queues itself and takes one when it leaves, which need not be
the same. Objects and threads are named by their pointers; a null pointer to an
object is `none`, and a null wait channel is zero. Below it is what
`PthreadCond` does with them, on the members of the threads and the mutexes
that it reads. What would read or write through a bad pointer gives `none`.
-/

namespace OrbitConsole.Kernel

open Function (update)

structure SleepQueue where
  /-- `sq_blocked` -/
  blocked : List ℕ := []
  /-- `sq_freeq` -/
  freeq : List ℕ := []
  /-- `sq_wchan` -/
  wchan : ℕ := 0

def scHash (wchan : ℕ) : ℕ := ((wchan >>> 3) ^^^ (wchan >>> (9 + 3))) &&& (1 <<< 9 - 1)

/-- The objects, `sc_queues` of every chain of `sc_table`, and `sleepqueue` and `wchan` of the
threads. -/
structure Sleepq where
  queue : ℕ → SleepQueue
  queues : ℕ → List ℕ
  sleepqueue : ℕ → Option ℕ
  wchan : ℕ → ℕ

namespace Sleepq

/-- Every thread with the object it was allocated with. -/
def init (own : ℕ → ℕ) : Sleepq :=
  { queue := fun _ => {}
    queues := fun _ => []
    sleepqueue := fun td => some (own td)
    wchan := fun _ => 0 }

def setQueue (s : Sleepq) (sq : ℕ) (q : SleepQueue) : Sleepq :=
  { s with queue := update s.queue sq q }

def setThread (s : Sleepq) (td : ℕ) (own : Option ℕ) (wchan : ℕ) : Sleepq :=
  { s with
    sleepqueue := update s.sleepqueue td own
    wchan := update s.wchan td wchan }

def lookup (s : Sleepq) (wchan : ℕ) : Option ℕ :=
  (s.queues (scHash wchan)).find? fun sq => (s.queue sq).wchan = wchan

def add (s : Sleepq) (wchan td : ℕ) : Option Sleepq :=
  match s.lookup wchan, s.sleepqueue td with
  | _, none => none
  | some sq, some own =>
      let q := s.queue sq
      some ((s.setThread td none wchan).setQueue sq
        { q with freeq := own :: q.freeq, blocked := td :: q.blocked })
  | none, some own =>
      let q := s.queue own
      some { (s.setThread td none wchan).setQueue own
          { q with wchan := wchan, blocked := td :: q.blocked } with
        queues := update s.queues (scHash wchan) (own :: s.queues (scHash wchan)) }

/-- `unlink`: the object leaves the list it is on. -/
def unlink (s : Sleepq) (sq : ℕ) : Sleepq :=
  { s with
    queue := fun q => { s.queue q with freeq := (s.queue q).freeq.filter (· ≠ sq) }
    queues := fun h => (s.queues h).filter (· ≠ sq) }

def remove (s : Sleepq) (sq td : ℕ) : Option (Sleepq × Bool) :=
  let q := s.queue sq
  let blocked := q.blocked.filter (· ≠ td)
  if blocked = [] then
    some ((((s.setQueue sq { q with blocked := blocked }).setThread td (some sq) 0).unlink sq),
      false)
  else match q.freeq with
    | [] => none
    | own :: rest =>
        some ((s.setQueue sq { q with blocked := blocked, freeq := rest }).setThread td
          (some own) 0, true)

/-- The loop of `SleepqDrop` over the threads behind the first. -/
def giveEach (s : Sleepq) : List ℕ → List ℕ → Option Sleepq
  | [], _ => some s
  | _ :: _, [] => none
  | td :: tds, sq :: sqs => (s.setThread td (some sq) 0).giveEach tds sqs

def drop (s : Sleepq) (sq : ℕ) : Option Sleepq :=
  let q := s.queue sq
  match q.blocked with
  | [] => some s
  | td :: rest =>
      (((s.unlink sq).setThread td (some sq) 0).giveEach rest q.freeq).map fun s =>
        s.setQueue sq { s.queue sq with blocked := [], freeq := [] }

end Sleepq

inductive SleepqAction where
  | add (wchan td : ℕ)
  | remove (sq td : ℕ)
  | drop (sq : ℕ)

def Sleepq.step (s : Sleepq) : SleepqAction → Option Sleepq
  | .add wchan td => s.add wchan td
  | .remove sq td => (s.remove sq td).map (·.1)
  | .drop sq => s.drop sq

def Sleepq.Queued (s : Sleepq) : SleepqAction → Prop
  | .remove sq td => td ∈ (s.queue sq).blocked
  | _ => True

def posixEsrch : ℤ := 3

structure CondQueues where
  sleepq : Sleepq
  /-- `FindThread` finds the thread, and it is not dead -/
  found : ℕ → Bool
  mutexObj : ℕ → Option ℕ
  /-- the tokens in `wake_sema` -/
  wakeSema : ℕ → ℕ
  /-- `defer_waiters`, up to `nwaiter_defer` -/
  deferWaiters : ℕ → List ℕ
  /-- `m_owner` -/
  owner : ℕ → Option ℕ
  /-- the flag `Deferred` -/
  deferred : ℕ → Bool
  hasUserWaiters : ℕ → Bool

namespace CondQueues

/-- Threads and mutexes at rest. -/
def init (own : ℕ → ℕ) (owner : ℕ → Option ℕ) : CondQueues :=
  { sleepq := .init own
    found := fun _ => true
    mutexObj := fun _ => none
    wakeSema := fun _ => 0
    deferWaiters := fun _ => []
    owner := owner
    deferred := fun _ => false
    hasUserWaiters := fun _ => false }

def releaseAll (s : CondQueues) (tds : List ℕ) : CondQueues :=
  { s with wakeSema := fun t => s.wakeSema t + tds.count t }

def wakeAll (s : CondQueues) (u : ℕ) : CondQueues :=
  { s.releaseAll (s.deferWaiters u) with
    deferWaiters := update s.deferWaiters u [] }

def maxDeferWaiters : ℕ := 50

/-- Waking a thread is put off until the current thread, which owns the mutex, gives it up. -/
def defer (s : CondQueues) (u td m : ℕ) : CondQueues :=
  let s := if maxDeferWaiters ≤ (s.deferWaiters u).length then s.wakeAll u else s
  { s with
    deferWaiters := update s.deferWaiters u (s.deferWaiters u ++ [td])
    deferred := update s.deferred m true }

def signal (s : CondQueues) (u c : ℕ) (thread : Option ℕ) : Option (CondQueues × ℤ) :=
  if thread.any fun td => !s.found td then some (s, posixEsrch)
  else match s.sleepq.lookup c with
    | none => some (s, 0)
    | some sq =>
        (thread.or (s.sleepq.queue sq).blocked.head?).bind fun td =>
        (s.sleepq.remove sq td).bind fun r =>
        (s.mutexObj td).map fun m =>
          let s := { s with
            sleepq := r.1
            hasUserWaiters := update s.hasUserWaiters c r.2 }
          if s.owner m = some u then (s.defer u td m, 0) else (s.releaseAll [td], 0)

/-- `drop_cb` of `Broadcast`, with the array `waddrs`. -/
def dropCb (u : ℕ) (r : CondQueues × List ℕ) (td : ℕ) : Option (CondQueues × List ℕ) :=
  (r.1.mutexObj td).map fun m =>
    if r.1.owner m = some u then (r.1.defer u td m, r.2)
    else if maxDeferWaiters ≤ r.2.length then (r.1.releaseAll r.2, [td])
    else (r.1, r.2 ++ [td])

def broadcast (s : CondQueues) (u c : ℕ) : Option CondQueues :=
  match s.sleepq.lookup c with
  | none => some s
  | some sq =>
      ((s.sleepq.queue sq).blocked.foldlM (dropCb u) (s, [])).bind fun r =>
      (s.sleepq.drop sq).map fun q =>
        { r.1.releaseAll r.2 with
          sleepq := q
          hasUserWaiters := update s.hasUserWaiters c false }

def wait (s : CondQueues) (t c m : ℕ) : Option CondQueues :=
  if s.sleepq.wchan t ≠ 0 ∨ s.mutexObj t ≠ none then none
  else (s.sleepq.add c t).map fun q =>
    { s with
      sleepq := q
      mutexObj := update s.mutexObj t (some m)
      wakeSema := update s.wakeSema t (s.wakeSema t - 1)
      hasUserWaiters := update s.hasUserWaiters c true }

/-- `Wait` after its time has run out or the thread is cancelled, and nobody has taken it off
the queue. -/
def giveUp (s : CondQueues) (t c : ℕ) : Option CondQueues :=
  if s.sleepq.wchan t = 0 then none
  else (s.sleepq.lookup c).bind fun sq => (s.sleepq.remove sq t).map fun r =>
    { s with
      sleepq := r.1
      mutexObj := update s.mutexObj t none
      hasUserWaiters := update s.hasUserWaiters c r.2 }

/-- `Wait` after the thread was taken off the queue. -/
def goOn (s : CondQueues) (t : ℕ) : Option CondQueues :=
  if s.sleepq.wchan t ≠ 0 then none
  else some { s with mutexObj := update s.mutexObj t none }

/-- The thread takes the token of its wake semaphore. -/
def acquire (s : CondQueues) (t : ℕ) : Option CondQueues :=
  if s.wakeSema t = 0 then none
  else some { s with wakeSema := update s.wakeSema t (s.wakeSema t - 1) }

/-- The thread ends; it is not in `Wait`. -/
def exit (s : CondQueues) (t : ℕ) : Option CondQueues :=
  if s.sleepq.wchan t ≠ 0 ∨ s.mutexObj t ≠ none then none
  else some { s with found := update s.found t false }

/-- A mutex is taken, or given up, with `WakeAll` or not. -/
def setOwner (s : CondQueues) (u m : ℕ) (owner : Option ℕ) (deferred wakes : Bool) :
    CondQueues :=
  { if wakes then s.wakeAll u else s with
    owner := update s.owner m owner
    deferred := update s.deferred m deferred }

end CondQueues

inductive CondQueuesAction where
  | signal (u c : ℕ) (thread : Option ℕ)
  | broadcast (u c : ℕ)
  | wait (t c m : ℕ)
  | giveUp (t c : ℕ)
  | goOn (t : ℕ)
  | acquire (t : ℕ)
  | exit (t : ℕ)
  | setOwner (u m : ℕ) (owner : Option ℕ) (deferred wakes : Bool)

def CondQueues.step (s : CondQueues) : CondQueuesAction → Option CondQueues
  | .signal u c thread => (s.signal u c thread).map (·.1)
  | .broadcast u c => s.broadcast u c
  | .wait t c m => s.wait t c m
  | .giveUp t c => s.giveUp t c
  | .goOn t => s.goOn t
  | .acquire t => s.acquire t
  | .exit t => s.exit t
  | .setOwner u m owner deferred wakes => some (s.setOwner u m owner deferred wakes)

end OrbitConsole.Kernel
