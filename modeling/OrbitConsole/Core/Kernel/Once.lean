import Mathlib.Logic.Function.Basic
import OrbitConsole.Library.Transition

/-!
# One-time initialisation

`posix_pthread_once` on one control, by any threads in any interleaving of its atomic
operations. A call made by `init_routine` itself counts as one of another thread.
-/

namespace OrbitConsole.Kernel

namespace Once

inductive PthreadOnceState where
  | neverDone
  | done
  | inProgress
  | wait
  /-- None of the enumerators. -/
  | other (value : ℕ)
  deriving DecidableEq

/-- What a thread does next. -/
inductive Phase where
  /-- Not inside a call. -/
  | idle
  /-- `state.load()` at the head of the loop. -/
  | loop
  /-- `NeverDone` was loaded. -/
  | tryStart
  /-- `InProgress` was loaded. -/
  | tryWait
  /-- The comparison in `state.wait(Wait)`. -/
  | waitCheck
  | blocked
  /-- Inside `init_routine`. -/
  | running
  /-- `init_routine` has returned. -/
  | completing
  | completeStore
  | completeNotify
  /-- The head of `once_cancel_handler`. -/
  | cancelling
  | cancelStore
  | cancelNotify
  deriving DecidableEq

/-- The control and the threads. `eligible t u` says that `u` has been blocked ever since `t`
stored the value that its notification is about. The last two fields are a history: how many
runs of `init_routine` have returned, and the results of calls, each with that number. -/
structure State (τ : Type*) where
  state : PthreadOnceState
  phase : τ → Phase
  eligible : τ → τ → Bool
  completed : ℕ
  returns : List (ℕ × ℕ)

def posixEinval : ℕ := 22

inductive Action (τ : Type*) where
  | call (t : τ)
  | load (t : τ)
  | compareExchange (t : τ)
  | check (t : τ)
  | store (t : τ)
  /-- `notify_all` wakes who is eligible, and whoever else. -/
  | notify (t : τ) (others : τ → Bool)
  /-- `init_routine` returns. -/
  | finish (t : τ)
  /-- The thread is cancelled inside `init_routine`. -/
  | cancel (t : τ)
  /-- A waiting thread looks at the value without having been notified. -/
  | spurious (t : τ)

namespace State

variable {τ : Type*} [DecidableEq τ]

def set (s : State τ) (t : τ) (p : Phase) : State τ :=
  { s with phase := Function.update s.phase t p }

def withState (s : State τ) (x : PthreadOnceState) : State τ := { s with state := x }

def ret (s : State τ) (t : τ) (code : ℕ) : State τ :=
  { s.set t .idle with returns := (code, s.completed) :: s.returns }

def load (s : State τ) (t : τ) : State τ :=
  match s.state with
  | .done => s.ret t 0
  | .neverDone => s.set t .tryStart
  | .inProgress => s.set t .tryWait
  | .wait => s.set t .waitCheck
  | .other _ => s.ret t posixEinval

def compareExchange (s : State τ) (t : τ) : Option (State τ) :=
  match s.phase t with
  | .tryStart =>
      some (if s.state = .neverDone then (s.withState .inProgress).set t .running
        else s.set t .loop)
  | .tryWait =>
      some (if s.state = .inProgress then (s.withState .wait).set t .waitCheck
        else s.set t .loop)
  | .completing =>
      some (if s.state = .inProgress then (s.withState .done).ret t 0
        else s.set t .completeStore)
  | .cancelling =>
      some (if s.state = .inProgress then (s.withState .neverDone).set t .idle
        else s.set t .cancelStore)
  | _ => none

/-- The threads that wait now are eligible for the notification. -/
def publish (s : State τ) (t : τ) (x : PthreadOnceState) (p : Phase) : State τ :=
  { (s.withState x).set t p with
    eligible := Function.update s.eligible t fun u => s.phase u = .blocked }

def store (s : State τ) (t : τ) : Option (State τ) :=
  match s.phase t with
  | .completeStore => some (s.publish t .done .completeNotify)
  | .cancelStore => some (s.publish t .neverDone .cancelNotify)
  | _ => none

/-- The threads of a set that are blocked look at the value again. -/
def wake (s : State τ) (who : τ → Bool) : State τ :=
  { s with
    phase := fun u => if s.phase u = .blocked ∧ who u = true then .waitCheck else s.phase u
    eligible := fun v u => s.eligible v u && !who u }

def notify (s : State τ) (t : τ) (others : τ → Bool) : Option (State τ) :=
  let s' := s.wake fun u => s.eligible t u || others u
  match s.phase t with
  | .completeNotify => some (s'.ret t 0)
  | .cancelNotify => some (s'.set t .idle)
  | _ => none

end State

section System

variable {τ : Type*} [DecidableEq τ]

def step (s : State τ) : Action τ → Option (State τ)
  | .call t => if s.phase t = .idle then some (s.set t .loop) else none
  | .load t => if s.phase t = .loop then some (s.load t) else none
  | .compareExchange t => s.compareExchange t
  | .check t =>
      if s.phase t = .waitCheck then
        some (if s.state = .wait then s.set t .blocked else s.set t .loop)
      else none
  | .store t => s.store t
  | .notify t others => s.notify t others
  | .finish t =>
      if s.phase t = .running then
        some { s.set t .completing with completed := s.completed + 1 }
      else none
  | .cancel t => if s.phase t = .running then some (s.set t .cancelling) else none
  | .spurious t => if s.phase t = .blocked then some (s.wake fun u => u = t) else none

/-- A control no call has been made on. -/
def start : State τ where
  state := .neverDone
  phase := fun _ => .idle
  eligible := fun _ _ => false
  completed := 0
  returns := []

/-- No thread can take a step of the function or of its handler. Nothing is said of
`init_routine`, which may still be running. -/
def Stuck (s : State τ) : Prop :=
  ∀ t, step s (.load t) = none ∧ step s (.compareExchange t) = none ∧
    step s (.check t) = none ∧ step s (.store t) = none ∧
    ∀ others, step s (.notify t others) = none

end System

end Once

end OrbitConsole.Kernel
