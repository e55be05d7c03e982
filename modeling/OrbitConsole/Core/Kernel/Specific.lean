import Mathlib.Algebra.Group.Nat.Defs
import Mathlib.Data.List.Range
import Mathlib.Logic.Function.Basic
import OrbitConsole.Library.Transition

/-!
# Thread-specific data

The keys and the values of each thread. A call is one step of a run; the clean-up at the
end of a thread gives the lock up while a destructor runs, in which the thread and others
go on calling. Pointers are numbers and null is zero.
-/

namespace OrbitConsole.Kernel

open Function (update)

namespace Specific

def pthreadKeysMax : ℕ := 256
def pthreadDestructorIterations : ℕ := 4

def posixEnomem : ℕ := 12
def posixEinval : ℕ := 22
def posixEagain : ℕ := 35

/-- An entry of `ThreadKeytable`; the number of its generation has 32 bits. -/
structure PthreadKey where
  allocated : Bool
  seqno : ℕ
  destructor : ℕ

abbrev KeyTable := ℕ → PthreadKey

structure PthreadSpecificElem where
  data : ℕ
  seqno : ℕ
  deriving DecidableEq

/-- The fields of `Pthread` the functions work on. -/
structure Pthread where
  specific : Option (ℕ → PthreadSpecificElem)
  specific_data_count : ℤ

/-! ### Keys -/

def freeKey (table : KeyTable) : Option ℕ :=
  (List.range pthreadKeysMax).find? fun k => !(table k).allocated

def keyCreate (table : KeyTable) (destructor : ℕ) : ℕ × Option ℕ × KeyTable :=
  match freeKey table with
  | some k =>
      (0, some k, update table k
        { allocated := true, destructor := destructor, seqno := ((table k).seqno + 1) % 2 ^ 32 })
  | none => (posixEagain, none, table)

/-- `posix_pthread_key_delete`. The key is compared as an unsigned number. -/
def keyDelete (table : KeyTable) (key : BitVec 32) : ℕ × KeyTable :=
  if pthreadKeysMax ≤ key.toNat then (posixEinval, table)
  else if (table key.toNat).allocated = false then (posixEinval, table)
  else (0, update table key.toNat { table key.toNat with allocated := false })

/-! ### Values -/

/-- The elements of a thread, allocated at its first use. -/
def elems (thread : Pthread) : ℕ → PthreadSpecificElem := thread.specific.getD fun _ => ⟨0, 0⟩

/-- `posix_pthread_setspecific`; `canAllocate` says whether there is memory for the elements. -/
def setspecific (table : KeyTable) (thread : Pthread) (key : BitVec 32) (value : ℕ)
    (canAllocate : Bool) : ℕ × Pthread :=
  if thread.specific.isNone ∧ canAllocate = false then (posixEnomem, thread)
  else
    let f := elems thread
    let count := thread.specific_data_count
    if pthreadKeysMax ≤ key.toNat then (posixEinval, { thread with specific := some f })
    else if (table key.toNat).allocated = false then
      (posixEinval, { thread with specific := some f })
    else
      let count :=
        if (f key.toNat).data = 0 then if value ≠ 0 then count + 1 else count
        else if value = 0 then count - 1 else count
      (0, { specific := some (update f key.toNat ⟨value, (table key.toNat).seqno⟩)
            specific_data_count := count })

def getspecific (table : KeyTable) (thread : Pthread) (key : BitVec 32) : ℕ :=
  match thread.specific with
  | none => 0
  | some f =>
      if pthreadKeysMax ≤ key.toNat then 0
      else if (table key.toNat).allocated = true ∧
          (f key.toNat).seqno = (table key.toNat).seqno then
        (f key.toNat).data
      else 0

/-! ### The end of a thread -/

/-- The elements and their count, which the clean-up works on. -/
structure Values where
  elems : ℕ → PthreadSpecificElem
  count : ℤ

structure DestructorCall where
  key : ℕ
  destructor : ℕ
  data : ℕ
  deriving DecidableEq

def Values.clear (v : Values) (key : ℕ) : Values where
  elems := update v.elems key { v.elems key with data := 0 }
  count := v.count - 1

/-- The body of the inner loop. A key that was deleted loses its value without a destructor. -/
def visitKey (table : KeyTable) (v : Values) (key : ℕ) : Values × Option DestructorCall :=
  let elem := v.elems key
  if (table key).allocated = true ∧ elem.data ≠ 0 then
    (v.clear key,
      if elem.seqno = (table key).seqno ∧ (table key).destructor ≠ 0 then
        some ⟨key, (table key).destructor, elem.data⟩
      else none)
  else if elem.data ≠ 0 then (v.clear key, none)
  else (v, none)

/-- The inner loop with `n` keys to go, up to the first destructor. -/
def scanKeys (table : KeyTable) : ℕ → Values → Values × Option DestructorCall
  | 0, v => (v, none)
  | n + 1, v =>
      if 0 < v.count then
        match visitKey table v (pthreadKeysMax - (n + 1)) with
        | (v', some call) => (v', some call)
        | (v', none) => scanKeys table n v'
      else (v, none)

/-- The outer loop with so many rounds to go, and with the rounds that are left at a
destructor. -/
def scanRounds (table : KeyTable) : ℕ → Values → Values × Option (ℕ × DestructorCall)
  | 0, v => (v, none)
  | rounds + 1, v =>
      if 0 < v.count then
        match scanKeys table pthreadKeysMax v with
        | (v', some call) => (v', some (rounds, call))
        | (v', none) => scanRounds table rounds v'
      else (v, none)

/-- The loops behind a destructor that has returned. -/
def resumeScan (table : KeyTable) (rounds key : ℕ) (v : Values) :
    Values × Option (ℕ × DestructorCall) :=
  match scanKeys table (pthreadKeysMax - (key + 1)) v with
  | (v', some call) => (v', some (rounds, call))
  | (v', none) => scanRounds table rounds v'

/-! ### Runs -/

inductive Phase where
  | alive
  | inDestructor (rounds : ℕ) (call : DestructorCall)
  | exited
  deriving DecidableEq

/-- The keys and the threads. `creations` counts the creations of each key. `lastSet` is the last
value a thread has set for a key since the latest of them; it is null again once the end of the
thread has taken the value. -/
structure State (τ : Type*) where
  table : KeyTable
  thread : τ → Pthread
  phase : τ → Phase
  creations : ℕ → ℕ
  lastSet : τ → ℕ → ℕ

inductive Action (τ : Type*) where
  | create (destructor : ℕ)
  | delete (key : BitVec 32)
  | set (t : τ) (key : BitVec 32) (value : ℕ) (canAllocate : Bool)
  | exit (t : τ)
  /-- The destructor a thread is in returns. -/
  | resume (t : τ)

section System

variable {τ : Type*} [DecidableEq τ]

/-- A thread at the next destructor of its clean-up, or at its end, where its elements are
deleted. -/
def State.afterScan (s : State τ) (t : τ) (scan : Values × Option (ℕ × DestructorCall)) :
    State τ :=
  match scan.2 with
  | some (rounds, call) =>
      { s with
        thread := update s.thread t ⟨some scan.1.elems, scan.1.count⟩
        phase := update s.phase t (.inDestructor rounds call)
        lastSet := update s.lastSet t fun k =>
          if (scan.1.elems k).data = 0 then 0 else s.lastSet t k }
  | none =>
      { s with
        thread := update s.thread t ⟨none, scan.1.count⟩
        phase := update s.phase t .exited
        lastSet := update s.lastSet t fun _ => 0 }

def step (s : State τ) : Action τ → Option (State τ)
  | .create destructor =>
      match keyCreate s.table destructor with
      | (_, some k, table) =>
          some { s with
            table := table
            creations := update s.creations k (s.creations k + 1)
            lastSet := fun t => update (s.lastSet t) k 0 }
      | (_, none, table) => some { s with table := table }
  | .delete key => some { s with table := (keyDelete s.table key).2 }
  | .set t key value canAllocate =>
      if s.phase t = .exited then none
      else
        match setspecific s.table (s.thread t) key value canAllocate with
        | (code, thread) =>
            some { s with
              thread := update s.thread t thread
              lastSet := if code = 0 then
                update s.lastSet t (update (s.lastSet t) key.toNat value)
                else s.lastSet }
  | .exit t =>
      if s.phase t = .alive then
        match (s.thread t).specific with
        | none => some { s with phase := update s.phase t .exited }
        | some f =>
            some (s.afterScan t (scanRounds s.table pthreadDestructorIterations
              ⟨f, (s.thread t).specific_data_count⟩))
      else none
  | .resume t =>
      match s.phase t, (s.thread t).specific with
      | .inDestructor rounds call, some f =>
          some (s.afterScan t (resumeScan s.table rounds call.key
            ⟨f, (s.thread t).specific_data_count⟩))
      | _, _ => none

/-- No key has been created, and no thread has elements. -/
def start : State τ where
  table := fun _ => ⟨false, 0, 0⟩
  thread := fun _ => ⟨none, 0⟩
  phase := fun _ => .alive
  creations := fun _ => 0
  lastSet := fun _ _ => 0

def FewCreations (s : State τ) : Action τ → Prop
  | .create _ => ∀ k, freeKey s.table = some k → s.creations k + 1 < 2 ^ 32
  | _ => True

end System

end Specific

end OrbitConsole.Kernel
