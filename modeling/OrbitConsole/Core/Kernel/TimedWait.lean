import OrbitConsole.Core.Kernel.EventFlag

/-!
# The time left of a timed wait

What the calls of `Wait` of a semaphore and of an event flag write back to their
timeout. The elapsed time is the difference of two readings of a clock, in
microseconds, and may be anything.
-/

namespace OrbitConsole.Kernel

open Memory (orbisOk)

/-- How a call with a timeout ends: its result, what it leaves in `*timeout`, and the elapsed time
if it has measured one. -/
structure Completion where
  result : ℤ
  left : BitVec 32
  elapsed : Option ℤ

/-- The time left is at most the timeout, and none is left once it has been reached. -/
def Completion.Sane (c : Completion) (timeout : BitVec 32) : Prop :=
  c.left ≤ timeout ∧ ∀ time, c.elapsed = some time → (timeout.toNat : ℤ) ≤ time → c.left = 0

def WaitingThread.timeLeft (waiter : WaitingThread) (timeout : BitVec 32) (time : ℤ) : BitVec 32 :=
  if waiter.wasSignaled then timeout - BitVec.ofInt 32 time else 0

/-- A call of `OrbisSem::Wait` with a timeout. If it has to wait, `waiter` is the waiting thread
when it has the mutex again. -/
def SemState.waitTimed (s : SemState) (priority : ℕ) (canBlock : Bool) (needCount : ℤ)
    (timeout : BitVec 32) (waiter : WaitingThread) (time : ℤ) : Completion :=
  match (s.wait priority canBlock needCount (some timeout.toNat)).2 with
  | some result => { result := result, left := timeout, elapsed := none }
  | none =>
      { result := waiter.getResult, left := waiter.timeLeft timeout time, elapsed := some time }

/-- What `EventFlagInternal::Wait` writes back. -/
def EvfState.timeLeft (micros : BitVec 32) (elapsed : ℤ) : BitVec 32 :=
  if (micros.toNat : ℤ) ≤ elapsed then 0 else BitVec.ofInt 32 (micros.toNat - elapsed)

/-- A call of `EventFlagInternal::Wait` with a timeout that looks at the condition for the last
time in the state `s'`. -/
def EvfState.waitTimed (s s' : EvfState) (call : EventFlag.WaitCall) (micros : BitVec 32)
    (elapsed : ℤ) : Completion :=
  if s.threadMode = .single ∧ 0 < s.waitingThreads then
    { result := errorEperm, left := micros, elapsed := none }
  else if s'.waitFunc call then
    { result := (s'.finish call).2
      left := timeLeft micros elapsed
      elapsed := some elapsed }
  else { result := errorEtimedout, left := 0, elapsed := none }

/-! ### Sane times -/

/-- The clock did not go back, or so far that the time left wraps around. -/
def Forward (timeout : BitVec 32) (time : ℤ) : Prop :=
  0 ≤ time ∨ (-time) % 4294967296 = 0 ∨ 4294967296 ≤ timeout.toNat + (-time) % 4294967296

def InTime (timeout : BitVec 32) (time : ℤ) : Prop :=
  (timeout.toNat : ℤ) ≤ time → (time - timeout.toNat) % 4294967296 = 0

instance (timeout : BitVec 32) (time : ℤ) : Decidable (Forward timeout time) :=
  inferInstanceAs (Decidable (_ ∨ _))

variable {timeout : BitVec 32} {time : ℤ}

theorem sub_ofInt_toNat (timeout : BitVec 32) (time : ℤ) :
    ((timeout - BitVec.ofInt 32 time).toNat : ℤ) = (timeout.toNat - time) % 4294967296 := by
  rw [BitVec.toNat_sub, BitVec.toNat_ofInt]
  omega

theorem wrapped_le_iff (h : time < timeout.toNat) :
    (timeout.toNat - time) % 4294967296 ≤ (timeout.toNat : ℤ) ↔ Forward timeout time := by
  have hlt := timeout.isLt
  unfold Forward
  omega

theorem WaitingThread.sane_timeLeft_iff {waiter : WaitingThread}
    (h : waiter.wasSignaled = true) (result : ℤ) :
    (Completion.mk result (waiter.timeLeft timeout time) (some time)).Sane timeout ↔
      Forward timeout time ∧ InTime timeout time := by
  have hleft := sub_ofInt_toNat timeout time
  have hlt := timeout.isLt
  have hzero : timeout - BitVec.ofInt 32 time = 0 ↔
      (timeout.toNat - time) % 4294967296 = 0 := by
    have h0 : (0 : BitVec 32).toNat = 0 := rfl
    rw [← hleft, ← BitVec.toNat_inj, h0]
    exact Int.natCast_eq_zero.symm
  unfold Completion.Sane WaitingThread.timeLeft
  rw [if_pos h, BitVec.le_def, ← Int.ofNat_le, hleft]
  simp only [Option.some.injEq, forall_eq', hzero]
  unfold InTime
  by_cases hover : (timeout.toNat : ℤ) ≤ time
  · simp only [hover, forall_true_left]
    unfold Forward
    omega
  · simp only [hover, false_imp_iff, and_true]
    exact wrapped_le_iff (not_le.1 hover)

theorem EvfState.sane_timeLeft_iff (result : ℤ) :
    (Completion.mk result (EvfState.timeLeft timeout time) (some time)).Sane timeout ↔
      Forward timeout time := by
  have hlt := timeout.isLt
  unfold Completion.Sane EvfState.timeLeft
  simp only [Option.some.injEq, forall_eq']
  split
  case isTrue hover =>
    exact iff_of_true ⟨BitVec.le_def.2 (Nat.zero_le _), fun _ => rfl⟩ (.inl (by omega))
  case isFalse hover =>
    rw [← wrapped_le_iff (not_le.1 hover), BitVec.le_def, ← Int.ofNat_le, BitVec.toNat_ofInt]
    simp only [hover, false_imp_iff, and_true]
    omega

theorem Completion.sane_of_none {c : Completion} (hleft : c.left ≤ timeout)
    (h : c.elapsed = none) : c.Sane timeout :=
  ⟨hleft, fun time htime => by rw [h] at htime; cases htime⟩

/-- When the time left by a semaphore is sane: if the thread was not signaled, or in time. -/
def SemSane (s : SemState) (priority : ℕ) (canBlock : Bool) (needCount : ℤ)
    (timeout : BitVec 32) (waiter : WaitingThread) (time : ℤ) : Prop :=
  (s.wait priority canBlock needCount (some timeout.toNat)).2 = none →
    waiter.wasSignaled = true → Forward timeout time ∧ InTime timeout time

theorem SemState.waitTimed_sane_iff (s : SemState) (priority : ℕ) (canBlock : Bool)
    (needCount : ℤ) (timeout : BitVec 32) (waiter : WaitingThread) (time : ℤ) :
    (s.waitTimed priority canBlock needCount timeout waiter time).Sane timeout ↔
      SemSane s priority canBlock needCount timeout waiter time := by
  unfold SemState.waitTimed SemSane
  cases h : (s.wait priority canBlock needCount (some timeout.toNat)).2 with
  | some result =>
      exact iff_of_true (Completion.sane_of_none (BitVec.le_refl _) rfl) fun h => by cases h
  | none =>
      cases hsignaled : waiter.wasSignaled with
      | true => simpa using WaitingThread.sane_timeLeft_iff hsignaled waiter.getResult
      | false =>
          refine iff_of_true ⟨?_, fun _ _ _ => ?_⟩ fun _ h => by cases h
          all_goals simp only [WaitingThread.timeLeft, hsignaled, Bool.false_eq_true, if_false]
          exact BitVec.le_def.2 (Nat.zero_le _)

/-- And by an event flag: if the condition did not hold in the end, or the clock went forward. -/
def EvfSane (s s' : EvfState) (call : EventFlag.WaitCall) (micros : BitVec 32) (elapsed : ℤ) :
    Prop :=
  ¬ (s.threadMode = .single ∧ 0 < s.waitingThreads) → s'.waitFunc call = true →
    Forward micros elapsed

theorem EvfState.waitTimed_sane_iff (s s' : EvfState) (call : EventFlag.WaitCall)
    (micros : BitVec 32) (elapsed : ℤ) :
    (s.waitTimed s' call micros elapsed).Sane micros ↔ EvfSane s s' call micros elapsed := by
  unfold EvfState.waitTimed EvfSane
  split
  case isTrue hsingle =>
    exact iff_of_true (Completion.sane_of_none (BitVec.le_refl _) rfl) fun h => absurd hsingle h
  case isFalse hsingle =>
    split
    case isTrue hfunc => simpa [hsingle, hfunc] using EvfState.sane_timeLeft_iff (s'.finish call).2
    case isFalse hfunc =>
      exact iff_of_true (Completion.sane_of_none (BitVec.le_def.2 (Nat.zero_le _)) rfl)
        fun _ h => absurd h hfunc

/-- The time left is sane exactly if a signaled thread of a semaphore was in time, and the clock
did not go back. -/
theorem timedWait_sane_iff (timeout : BitVec 32) (time : ℤ) :
    (∀ (s : SemState) (priority : ℕ) (canBlock : Bool) (needCount : ℤ) (waiter : WaitingThread),
      (s.waitTimed priority canBlock needCount timeout waiter time).Sane timeout ↔
        SemSane s priority canBlock needCount timeout waiter time) ∧
    ∀ (s s' : EvfState) (call : EventFlag.WaitCall),
      (s.waitTimed s' call timeout time).Sane timeout ↔ EvfSane s s' call timeout time :=
  ⟨fun s priority canBlock needCount waiter =>
      s.waitTimed_sane_iff priority canBlock needCount timeout waiter time,
    fun s s' call => s.waitTimed_sane_iff s' call timeout time⟩

/-- A thread that is signaled five microseconds after its deadline has over an hour left. -/
theorem timedWait_sane_fails : ∃ s, SemState.create 1 0 1 = some s ∧
    (s.waitTimed 0 true 1 100 ({ needCount := 1 } : WaitingThread).signaled 105) =
      { result := orbisOk, left := 4294967291, elapsed := some 105 } ∧
    ¬ (s.waitTimed 0 true 1 100 ({ needCount := 1 } : WaitingThread).signaled 105).Sane 100 := by
  refine ⟨_, rfl, rfl, fun h => ?_⟩
  exact absurd h.1 (by decide)

end OrbitConsole.Kernel
