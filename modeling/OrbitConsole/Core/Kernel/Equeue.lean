import Mathlib.Algebra.Group.Int.Defs
import OrbitConsole.Core.Kernel.Semaphore

/-!
# Event queues

`EqueueInternal`: the events of a queue, and the short high-resolution timers that it keeps apart
from them. Everything a method does while it holds the mutex is one step. The products and sums
of an `s64` wrap around where the source leaves them undefined.
-/

namespace OrbitConsole.Kernel

open Memory (orbisOk errorEnoent)

/-- An `s64` after an operation that may leave its range. -/
def wrap64 (x : ℤ) : ℤ := Int.bmod x 18446744073709551616

structure OrbisKernelTimespec where
  tv_sec : ℤ
  tv_nsec : ℤ
  deriving DecidableEq

structure OrbisKernelBintime where
  sec : ℤ
  frac : ℤ
  deriving DecidableEq

namespace Equeue

/-- `OrbisKernelEvent::Filter`. -/
inductive Filter
  | none
  | read
  | write
  | aio
  | vnode
  | proc
  | signal
  | timer
  | fs
  | lio
  | user
  | polling
  | videoOut
  | graphicsCore
  | hrTimer
  deriving DecidableEq

/-- The bits of `OrbisKernelEvent::Flags` that the queue looks at. -/
def flagAdd : BitVec 16 := 0x1

def flagOneShot : BitVec 16 := 0x10

def flagClear : BitVec 16 := 0x20

structure OrbisKernelEvent where
  ident : BitVec 64
  filter : Filter
  flags : BitVec 16
  fflags : BitVec 32
  data : BitVec 64
  udata : BitVec 64
  deriving DecidableEq

/-- `EqueueEvent`, with its interval in nanoseconds; the timer of the host is not modelled. -/
structure EqueueEvent where
  event : OrbisKernelEvent
  timer_interval : ℤ
  is_triggered : Bool
  deriving DecidableEq

structure SmallTimer where
  event : OrbisKernelEvent
  added : ℤ
  interval : ℤ
  deriving DecidableEq

/-! ### Intervals -/

/-- The time that `sceKernelAddHRTimerEvent` passes on. -/
def bintimeOf (ts : OrbisKernelTimespec) : OrbisKernelBintime :=
  { sec := ts.tv_sec, frac := wrap64 (ts.tv_nsec * 0x44b82fa09) }

/-- What `AddEvent` and `AddSmallTimer` make of it. -/
def intervalOf (time : OrbisKernelBintime) : ℤ :=
  let tv_nsec := (1000000000 * (time.frac / 2 ^ 32)) / 2 ^ 32
  wrap64 (tv_nsec + wrap64 (time.sec * 1000000000))

/-- The interval that `AddEvent` finds; `time` is what the data of an HR timer points to. -/
def timerInterval (event : OrbisKernelEvent) (time : OrbisKernelBintime) : ℤ :=
  match event.filter with
  | .timer => wrap64 (event.data.toNat * 1000000)
  | .hrTimer => intervalOf time
  | _ => 0

/-! ### Events -/

namespace EqueueEvent

def clear (ev : EqueueEvent) : EqueueEvent :=
  { ev with is_triggered := false, event := { ev.event with fflags := 0, data := 0 } }

def triggerDisplay (ev : EqueueEvent) (data time : BitVec 64) : EqueueEvent :=
  let ev := { ev with is_triggered := true }
  if data = 0 then ev
  else if data &&& 0xff = ev.event.ident ∧ ev.event.ident ≠ 0xfe then
    let count := (ev.event.data >>> 12) &&& 0xf
    let count := if count ≠ 0xf then count + 1 else count
    { ev with event := { ev.event with
        data := (time &&& 0xfff) ||| (count <<< 12) ||| (data &&& 0xffffffffffff0000) } }
  else ev

def trigger (ev : EqueueEvent) (filter : Filter) (data time : BitVec 64) : EqueueEvent :=
  match filter with
  | .videoOut => ev.triggerDisplay data time
  | .user => { ev with is_triggered := true, event := { ev.event with udata := data } }
  | .timer | .hrTimer =>
      { ev with is_triggered := true, event := { ev.event with data := ev.event.data + 1 } }
  | _ => { ev with is_triggered := true, event := { ev.event with data := data } }

def is (ev : EqueueEvent) (id : BitVec 64) (filter : Filter) : Bool :=
  ev.event.ident = id && ev.event.filter = filter

end EqueueEvent

end Equeue

open Equeue

/-- The members of `EqueueInternal`. The short timers are filed under the ids of their events; the
order in which their map is gone through is that of the list. -/
structure EqueueInternal where
  m_events : List EqueueEvent
  m_small_timers : List SmallTimer
  deriving DecidableEq

namespace EqueueInternal

def empty : EqueueInternal := { m_events := [], m_small_timers := [] }

def eventExists (q : EqueueInternal) (id : BitVec 64) (filter : Filter) : Bool :=
  q.m_events.any (·.is id filter)

def addEvent (q : EqueueInternal) (event : OrbisKernelEvent) (time : OrbisKernelBintime) :
    EqueueInternal :=
  let interval := timerInterval event time
  if q.eventExists event.ident event.filter then
    -- Trigger status and event data should remain intact.
    { q with m_events := q.m_events.map fun old =>
        if old.is event.ident event.filter then
          { old with timer_interval := interval, event := { old.event with udata := event.udata } }
        else old }
  else
    let flags := event.flags &&& ~~~flagAdd
    let flags := if event.filter ≠ .user then flags ||| flagClear else flags
    { q with m_events := q.m_events ++
        [{ event := { event with data := 0, flags := flags }
           timer_interval := interval
           is_triggered := false }] }

def removeEvent (q : EqueueInternal) (id : BitVec 64) (filter : Filter) : EqueueInternal × Bool :=
  ({ q with m_events := q.m_events.eraseP (·.is id filter) }, q.eventExists id filter)

def triggerEvent (q : EqueueInternal) (id : BitVec 64) (filter : Filter) (data time : BitVec 64) :
    EqueueInternal × Bool :=
  ({ q with m_events := q.m_events.map fun ev =>
      if ev.is id filter then ev.trigger filter data time else ev }, q.eventExists id filter)

def takeTriggered : List EqueueEvent → ℕ → List EqueueEvent × List OrbisKernelEvent
  | [], _ => ([], [])
  | ev :: rest, num =>
      if ev.is_triggered then
        let ev' := if ev.event.flags &&& flagClear ≠ 0 then ev.clear else ev
        let kept := if ev.event.flags &&& flagOneShot ≠ 0 then [] else [ev']
        -- the loop ends when the count is `num`
        if num = 1 then (kept ++ rest, [ev.event])
        else
          let r := takeTriggered rest (num - 1)
          (kept ++ r.1, ev.event :: r.2)
      else
        let r := takeTriggered rest num
        (ev :: r.1, r.2)

def getTriggeredEvents (q : EqueueInternal) (num : ℕ) : EqueueInternal × List OrbisKernelEvent :=
  let r := takeTriggered q.m_events num
  ({ q with m_events := r.1 }, r.2)

def hasSmallTimer (q : EqueueInternal) : Bool := !q.m_small_timers.isEmpty

def addSmallTimer (q : EqueueInternal) (event : OrbisKernelEvent) (time : OrbisKernelBintime)
    (now : ℤ) : EqueueInternal :=
  { q with m_small_timers :=
      { event := event, added := now, interval := intervalOf time } ::
        q.m_small_timers.filter (·.event.ident ≠ event.ident) }

def removeSmallTimer (q : EqueueInternal) (id : BitVec 64) : EqueueInternal × Bool :=
  if q.hasSmallTimer then
    ({ q with m_small_timers := q.m_small_timers.filter (·.event.ident ≠ id) },
      q.m_small_timers.any (·.event.ident = id))
  else (q, false)

/-- A round of `WaitForSmallTimer`: timers that are over are taken out, at most `num` of them. -/
def takeSmallTimers (now : ℤ) : List SmallTimer → ℕ → List SmallTimer × List OrbisKernelEvent
  | timers, 0 => (timers, [])
  | [], _ => ([], [])
  | st :: rest, num + 1 =>
      if st.interval ≤ now - st.added then
        let r := takeSmallTimers now rest num
        (r.1, st.event :: r.2)
      else
        let r := takeSmallTimers now rest (num + 1)
        (st :: r.1, r.2)

def waitForSmallTimer (q : EqueueInternal) (num : ℕ) (now : ℤ) :
    EqueueInternal × List OrbisKernelEvent :=
  let r := takeSmallTimers now q.m_small_timers num
  ({ q with m_small_timers := r.1 }, r.2)

end EqueueInternal

/-! ### High-resolution timers -/

def hrTimerSpinlockThresholdNs : ℤ := 1200000

/-- An `int` where a `u64` is expected. -/
def identOf (id : BitVec 32) : BitVec 64 := id.signExtend 64

def hrTimerEvent (id : BitVec 32) (udata data : BitVec 64) : OrbisKernelEvent :=
  { ident := identOf id
    filter := .hrTimer
    flags := flagAdd ||| flagOneShot
    fflags := 0
    data := data
    udata := udata }

def sceKernelAddHRTimerEvent (q : EqueueInternal) (id : BitVec 32) (ts : OrbisKernelTimespec)
    (udata data : BitVec 64) (now : ℤ) : EqueueInternal × ℤ :=
  let total_ns := wrap64 (wrap64 (ts.tv_sec * 1000000000) + ts.tv_nsec)
  let event := hrTimerEvent id udata data
  if total_ns < hrTimerSpinlockThresholdNs then
    (q.addSmallTimer event (bintimeOf ts) now, orbisOk)
  else (q.addEvent event (bintimeOf ts), orbisOk)

def sceKernelDeleteHRTimerEvent (q : EqueueInternal) (id : BitVec 32) : EqueueInternal × ℤ :=
  if q.hasSmallTimer then
    let r := q.removeSmallTimer (identOf id)
    (r.1, if r.2 then orbisOk else errorEnoent)
  else
    let r := q.removeEvent (identOf id) .hrTimer
    (r.1, if r.2 then orbisOk else errorEnoent)

/-- What is done to a queue. -/
inductive EqueueAction
  | addEvent (event : OrbisKernelEvent) (time : OrbisKernelBintime)
  | removeEvent (id : BitVec 64) (filter : Filter)
  | triggerEvent (id : BitVec 64) (filter : Filter) (data time : BitVec 64)
  | getTriggeredEvents (num : ℕ)
  | waitForSmallTimer (num : ℕ) (now : ℤ)
  | addHRTimer (id : BitVec 32) (ts : OrbisKernelTimespec) (udata data : BitVec 64) (now : ℤ)
  | deleteHRTimer (id : BitVec 32)

def EqueueInternal.step (q : EqueueInternal) : EqueueAction → Option EqueueInternal
  | .addEvent event time => some (q.addEvent event time)
  | .removeEvent id filter => some (q.removeEvent id filter).1
  | .triggerEvent id filter data time => some (q.triggerEvent id filter data time).1
  | .getTriggeredEvents num => some (q.getTriggeredEvents num).1
  | .waitForSmallTimer num now => some (q.waitForSmallTimer num now).1
  | .addHRTimer id ts udata data now => some (sceKernelAddHRTimerEvent q id ts udata data now).1
  | .deleteHRTimer id => some (sceKernelDeleteHRTimerEvent q id).1

end OrbitConsole.Kernel
