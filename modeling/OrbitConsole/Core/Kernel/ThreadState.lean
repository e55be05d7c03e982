import Mathlib.Data.Int.Notation
import Mathlib.Data.Nat.Notation
import Mathlib.Logic.Function.Basic
import OrbitConsole.Library.Transition

/-!
# The life of a `Pthread`

`ThreadState` with its list of threads and its list of threads to collect, and
the calls that look a thread up, join, detach or end it. What is done under the
lock of a thread, or of the list, is one step, but for `TryCollect`, which gives
up the lock of the list before that of the thread. A call knows a thread by its
pointer and by how often the pointer was allocated before; a step on a thread
that is gone, or another one by now, is a fault.
-/

namespace OrbitConsole.Kernel

namespace Reclaim

structure Pthread where
  /-- allocated, and not freed since -/
  live : Bool := false
  /-- how often the pointer was allocated -/
  gen : ℕ := 0
  locked : Bool := false
  refcount : ℤ := 0
  dead : Bool := false
  /-- the flag `Detached` -/
  detached : Bool := false
  joiner : Option ℕ := none
  /-- `tid` is `TidTerminated` -/
  terminated : Bool := false

namespace Pthread

def shouldCollect (td : Pthread) : Bool := td.refcount = 0 && td.dead && td.detached

/-- `TryCollect`, up to where it takes the lock of the list. -/
def tryCollect (td : Pthread) : Pthread :=
  if td.shouldCollect then { td with refcount := td.refcount + 1 } else td

end Pthread

/-- Where a call stands, with the pointer and the number of its allocation. -/
inductive GcOp where
  | idle
  /-- in the loop of `JoinThread` -/
  | joining (td gen : ℕ)
  /-- behind the loop of `JoinThread` -/
  | joined (td gen : ℕ)
  /-- between `RefAdd` and `RefDelete` -/
  | holding (td gen : ℕ)
  /-- in `TryCollect`, about to take the lock of the list -/
  | collecting (td gen : ℕ) (exits : Bool)
  /-- in `TryCollect`, about to give up the lock of the thread -/
  | unlocking (td gen : ℕ) (exits : Bool)
  /-- in `ExitThread`, about to store `TidTerminated` -/
  | storing (td gen : ℕ)
  /-- in `ExitThread`, about to notify the joiner -/
  | notifying (td gen : ℕ)
  /-- in `ExitThread`, about to end the native thread -/
  | leaving (td gen : ℕ)
  /-- in `Alloc`, about to call `Collect` -/
  | gathering
  /-- in `Collect`, with `work_list` -/
  | freeing (workList : List ℕ)
  deriving DecidableEq

namespace GcOp

/-- Where a call goes on after `TryCollect`. -/
def next (td gen : ℕ) (exits : Bool) : GcOp := if exits then .storing td gen else .idle

/-- The thread a call works on. -/
def target : GcOp → Option (ℕ × ℕ)
  | .idle | .gathering | .freeing _ => none
  | .joining td gen | .joined td gen | .holding td gen | .collecting td gen _
  | .unlocking td gen _ | .storing td gen | .notifying td gen | .leaving td gen => some (td, gen)

def workList : GcOp → List ℕ
  | .freeing workList => workList
  | _ => []

end GcOp

structure ThreadState where
  thread : ℕ → Pthread
  /-- `threads` -/
  linked : ℕ → Bool
  gcList : List ℕ
  op : ℕ → GcOp
  /-- a call has worked on a thread that was gone -/
  fault : Bool

namespace ThreadState

def init : ThreadState :=
  { thread := fun _ => {}
    linked := fun _ => false
    gcList := []
    op := fun _ => .idle
    fault := false }

def set (s : ThreadState) (k : ℕ) (op : GcOp) (td : ℕ) (p : Pthread) : ThreadState :=
  { s with thread := Function.update s.thread td p, op := Function.update s.op k op }

/-- What comes of a step on a thread that a call holds a pointer to. -/
def access (s : ThreadState) (td gen : ℕ) (s' : Option ThreadState) : Option ThreadState :=
  if (s.thread td).live ∧ (s.thread td).gen = gen then s' else some { s with fault := true }

/-- The call goes on behind the first part of `TryCollect`. -/
def tryCollect (s : ThreadState) (k td gen : ℕ) (exits : Bool) (p : Pthread) : ThreadState :=
  s.set k (if p.shouldCollect then .collecting td gen exits else .next td gen exits) td
    p.tryCollect

def find (s : ThreadState) (td : ℕ) : Bool := s.linked td && !(s.thread td).locked

/-- `Alloc` and `Link`, on a pointer that is not in use. -/
def create (s : ThreadState) (td : ℕ) (detached : Bool) : Option ThreadState :=
  if (s.thread td).live then none
  else some { s with
    thread := Function.update s.thread td
      { live := true, gen := (s.thread td).gen + 1, refcount := 1, detached := detached }
    linked := Function.update s.linked td true }

def join (s : ThreadState) (k td : ℕ) : Option ThreadState :=
  let p := s.thread td
  if s.op k ≠ .idle then none
  else if !s.linked td then some s
  else if p.locked then none
  else if p.detached ∨ p.joiner ≠ none then some s
  else some (s.set k (.joining td p.gen) td { p with joiner := some k })

def joinPoll (s : ThreadState) (k : ℕ) : Option ThreadState :=
  match s.op k with
  | .joining td gen =>
      s.access td gen (if (s.thread td).terminated then some (s.set k (.joined td gen) td
        (s.thread td)) else some s)
  | _ => none

def joinEnd (s : ThreadState) (k : ℕ) : Option ThreadState :=
  match s.op k with
  | .joined td gen =>
      s.access td gen (if (s.thread td).locked then none
        else some (s.tryCollect k td gen false
          { s.thread td with detached := true, joiner := none }))
  | _ => none

def detach (s : ThreadState) (k td : ℕ) : Option ThreadState :=
  let p := s.thread td
  if s.op k ≠ .idle then none
  else if !s.linked td then some s
  else if p.locked then none
  else if p.detached ∨ p.joiner ≠ none then some s
  else some (s.tryCollect k td p.gen false { p with detached := true })

def refAdd (s : ThreadState) (k td : ℕ) (includeDead : Bool) : Option ThreadState :=
  let p := s.thread td
  if s.op k ≠ .idle then none
  else if !s.linked td then some s
  else if p.locked then none
  else if !includeDead && p.dead then some s
  else some (s.set k (.holding td p.gen) td { p with refcount := p.refcount + 1 })

def refUse (s : ThreadState) (k : ℕ) : Option ThreadState :=
  match s.op k with
  | .holding td gen => s.access td gen (some s)
  | _ => none

def refDelete (s : ThreadState) (k : ℕ) : Option ThreadState :=
  match s.op k with
  | .holding td gen =>
      s.access td gen (if (s.thread td).locked then none
        else some (s.tryCollect k td gen false
          { s.thread td with refcount := (s.thread td).refcount - 1 }))
  | _ => none

def exit (s : ThreadState) (k td : ℕ) : Option ThreadState :=
  let p := s.thread td
  if s.op k ≠ .idle ∨ !p.live ∨ p.dead ∨ p.locked then none
  else some (s.tryCollect k td p.gen true { p with dead := true, refcount := p.refcount - 1 })

def collect (s : ThreadState) (k : ℕ) : Option ThreadState :=
  match s.op k with
  | .collecting td gen exits =>
      let p := { s.thread td with refcount := (s.thread td).refcount - 1, locked := true }
      s.access td gen (if (s.thread td).locked then none
        else
          let s' := s.set k (.unlocking td gen exits) td p
          if p.shouldCollect then some { s' with
            linked := Function.update s.linked td false
            gcList := s.gcList ++ [td] }
          else some s')
  | _ => none

/-- `TryCollect` gives up the lock of the thread. -/
def unlock (s : ThreadState) (k : ℕ) : Option ThreadState :=
  match s.op k with
  | .unlocking td gen exits =>
      s.access td gen (some (s.set k (.next td gen exits) td { s.thread td with locked := false }))
  | _ => none

def exitStep (s : ThreadState) (k : ℕ) : Option ThreadState :=
  match s.op k with
  | .storing td gen =>
      s.access td gen (some (s.set k (.notifying td gen) td
        { s.thread td with terminated := true }))
  | .notifying td gen => s.access td gen (some (s.set k (.leaving td gen) td (s.thread td)))
  | .leaving td gen => s.access td gen (some (s.set k .idle td (s.thread td)))
  | _ => none

def gcThreshold : ℕ := 5

/-- `GcNeeded`, which `Alloc` asks, without a lock, before it collects. -/
def gcNeeded (s : ThreadState) (k : ℕ) : Option ThreadState :=
  if s.op k ≠ .idle then none
  else if gcThreshold ≤ s.gcList.length then
    some { s with op := Function.update s.op k .gathering }
  else some s

/-- The part of `Collect` under the lock of the list. -/
def gather (s : ThreadState) (k : ℕ) : Option ThreadState :=
  if s.op k ≠ .gathering then none
  else some { s with
    gcList := s.gcList.filter fun td => !(s.thread td).terminated
    op := Function.update s.op k
      (.freeing (s.gcList.filter fun td => (s.thread td).terminated)) }

def free (s : ThreadState) (k : ℕ) : Option ThreadState :=
  match s.op k with
  | .freeing [] => some { s with op := Function.update s.op k .idle }
  | .freeing (td :: rest) =>
      some { s.set k (.freeing rest) td { s.thread td with live := false } with
        fault := s.fault || !(s.thread td).live }
  | _ => none

end ThreadState

inductive GcAction where
  | create (td : ℕ) (detached : Bool)
  | join (k td : ℕ)
  | joinPoll (k : ℕ)
  | joinEnd (k : ℕ)
  | detach (k td : ℕ)
  | refAdd (k td : ℕ) (includeDead : Bool)
  | refUse (k : ℕ)
  | refDelete (k : ℕ)
  | exit (k td : ℕ)
  | collect (k : ℕ)
  | unlock (k : ℕ)
  | exitStep (k : ℕ)
  | gcNeeded (k : ℕ)
  | gather (k : ℕ)
  | free (k : ℕ)

def ThreadState.step (s : ThreadState) : GcAction → Option ThreadState
  | .create td detached => s.create td detached
  | .join k td => s.join k td
  | .joinPoll k => s.joinPoll k
  | .joinEnd k => s.joinEnd k
  | .detach k td => s.detach k td
  | .refAdd k td includeDead => s.refAdd k td includeDead
  | .refUse k => s.refUse k
  | .refDelete k => s.refDelete k
  | .exit k td => s.exit k td
  | .collect k => s.collect k
  | .unlock k => s.unlock k
  | .exitStep k => s.exitStep k
  | .gcNeeded k => s.gcNeeded k
  | .gather k => s.gather k
  | .free k => s.free k

end Reclaim

end OrbitConsole.Kernel
