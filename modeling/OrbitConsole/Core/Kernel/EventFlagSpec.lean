import Mathlib.Data.Finset.Card
import OrbitConsole.Core.Kernel.EventFlag

/-!
# Event flags over all runs

A run is accompanied by its history: which calls of `Wait` and `Poll` have
returned, with the bits they found and left, and which threads each `Cancel` found
waiting. While a `Cancel` lets the threads go, the status keeps every other change
of the bits and every other `Cancel` out, so each waiting thread sees it.
-/

namespace OrbitConsole.Kernel

open Function (update update_of_ne update_self)

open Memory (orbisOk errorEbusy)
open EventFlag Transition

/-! ### Waiting threads -/

/-- The call stands in the condition variable or is about to take the mutex again. -/
def EventFlag.EvfPhase.waiting : EvfPhase → Bool
  | .blocked _ => true
  | .woken _ _ => true
  | _ => false

/-- The threads inside a wait. -/
def EvfState.waiters (s : EvfState) : Finset ℕ :=
  (Finset.range s.arrived).filter fun i => (s.phase i).waiting = true

/-- What every run keeps, apart from the history. -/
structure EvfState.Inv (s : EvfState) : Prop where
  count : s.waitingThreads = s.waiters.card
  absent : ∀ i, s.arrived ≤ i → s.phase i = .absent
  single : s.threadMode = .single → s.waitingThreads ≤ 1
  status : s.status ≠ .deleted

namespace EvfState

variable {s s' : EvfState} {call : WaitCall} {i : ℕ}

theorem mem_waiters (h : s.Inv) : i ∈ s.waiters ↔ (s.phase i).waiting = true := by
  unfold waiters
  rw [Finset.mem_filter, Finset.mem_range, and_iff_right_iff_imp]
  intro hwaiting
  by_contra hi
  rw [h.absent i (by omega)] at hwaiting
  cases hwaiting

theorem inv_create (threadMode : ThreadMode) (initPattern : BitVec 64) :
    (create threadMode initPattern).Inv :=
  ⟨rfl, fun _ _ => rfl, fun _ => Nat.zero_le 1, by rintro ⟨⟩⟩

theorem Inv.setBits (h : s.Inv) (bits : BitVec 64) : Inv { s with bits := bits } :=
  ⟨h.count, h.absent, h.single, h.status⟩

theorem Inv.block (h : s.Inv) (call : WaitCall)
    (hsingle : ¬ (s.threadMode = .single ∧ 0 < s.waitingThreads)) :
    Inv { s with
      waitingThreads := s.waitingThreads + 1
      phase := update s.phase s.arrived (.blocked call)
      arrived := s.arrived + 1 } where
  count := by
    have hnew : s.arrived ∉ s.waiters := by
      unfold waiters
      rw [Finset.mem_filter, Finset.mem_range]
      exact fun hmem => Nat.lt_irrefl _ hmem.1
    have hinsert : waiters { s with
        waitingThreads := s.waitingThreads + 1
        phase := update s.phase s.arrived (.blocked call)
        arrived := s.arrived + 1 } = insert s.arrived s.waiters := by
      ext j
      simp only [waiters, Finset.mem_filter, Finset.mem_range, Finset.mem_insert]
      by_cases hj : j = s.arrived
      · subst hj
        rw [update_self]
        exact ⟨fun _ => Or.inl rfl, fun _ => ⟨Nat.lt_succ_self _, rfl⟩⟩
      · rw [update_of_ne hj, or_iff_right hj]
        refine and_congr_left fun _ => ?_
        omega
    rw [hinsert, Finset.card_insert_of_notMem hnew, h.count]
  absent := by
    intro j hj
    simp only at hj ⊢
    rw [update_of_ne (by omega)]
    exact h.absent j (by omega)
  single := by
    intro hmode
    simp only at hmode ⊢
    by_contra hmany
    exact hsingle ⟨hmode, by omega⟩
  status := h.status

theorem Inv.move (h : s.Inv) {phase : EvfPhase} (hold : (s.phase i).waiting = true)
    (hnew : phase.waiting = true) : Inv { s with phase := update s.phase i phase } where
  count := by
    have hsame : waiters { s with phase := update s.phase i phase } = s.waiters := by
      ext j
      simp only [waiters, Finset.mem_filter]
      by_cases hj : j = i
      · subst hj
        rw [update_self, hold, hnew]
      · rw [update_of_ne hj]
    rw [hsame]
    exact h.count
  absent := by
    intro j hj
    have hne : j ≠ i := by
      rintro rfl
      rw [h.absent j hj] at hold
      cases hold
    show update s.phase i phase j = .absent
    rw [update_of_ne hne]
    exact h.absent j hj
  single := h.single
  status := h.status

theorem Inv.leave (h : s.Inv) {phase : EvfPhase} (hold : (s.phase i).waiting = true)
    (hnew : phase.waiting = false) :
    waiters { s with
      waitingThreads := s.waitingThreads - 1
      phase := update s.phase i phase } = s.waiters.erase i ∧
    Inv { s with
      waitingThreads := s.waitingThreads - 1
      phase := update s.phase i phase } := by
  have herase : waiters { s with
      waitingThreads := s.waitingThreads - 1
      phase := update s.phase i phase } = s.waiters.erase i := by
    ext j
    simp only [waiters, Finset.mem_filter, Finset.mem_erase]
    by_cases hj : j = i
    · subst hj
      rw [update_self, hnew]
      exact ⟨fun hmem => absurd hmem.2 (by decide), fun hmem => absurd rfl hmem.1⟩
    · rw [update_of_ne hj]
      exact ⟨fun hmem => ⟨hj, hmem⟩, And.right⟩
  refine ⟨herase, ?_, fun j hj => ?_, fun hmode => ?_, h.status⟩
  · rw [herase, Finset.card_erase_of_mem ((mem_waiters h).mpr hold)]
    exact congrArg (· - 1) h.count
  · have hne : j ≠ i := by
      rintro rfl
      rw [h.absent j hj] at hold
      cases hold
    show update s.phase i phase j = .absent
    rw [update_of_ne hne]
    exact h.absent j hj
  · exact Nat.le_trans (Nat.sub_le _ _) (h.single hmode)

end EvfState

/-! ### The history of a run -/

structure EvfReturn where
  call : WaitCall
  result : ℤ
  /-- `*result`, when it is written -/
  pattern : Option (BitVec 64)
  /-- the bits when the call found its condition true or gave up, and when it let the mutex go -/
  before : BitVec 64
  after : BitVec 64
  /-- how many calls of `Cancel` had returned when the call began, and when it returned -/
  began : ℕ
  ended : ℕ
  /-- a call of `Cancel` was letting the threads go -/
  canceling : Bool

/-- A call of `Cancel`: the threads it found waiting and the number it reported. -/
structure CancelCall where
  waiters : Finset ℕ
  reported : ℕ
  deriving DecidableEq

/-- An event flag with the calls that have returned, the `Cancel` in progress and the ones that
have returned. -/
structure EvfHistory where
  flag : EvfState
  returned : List EvfReturn
  current : Option CancelCall
  past : List CancelCall
  began : ℕ → ℕ
  polls : ℕ → Bool

/-- `Poll` is a `Wait` with no time that reports a timeout differently. -/
def pollResult (poll : Bool) (ret : ℤ) : ℤ :=
  if poll = true ∧ ret = errorEtimedout then errorEbusy else ret

inductive EvfEvent where
  | wait (call : WaitCall)
  | poll (bits : BitVec 64) (waitMode : WaitMode) (clearMode : ClearMode)
  | wake (i : ℕ) (timedOut : Bool)
  | resume (i : ℕ)
  | set (bits : BitVec 64)
  | clear (bits : BitVec 64)
  | cancel (setPattern : BitVec 64)
  | cancelEnd

namespace EvfHistory

def create (threadMode : ThreadMode) (initPattern : BitVec 64) : EvfHistory where
  flag := .create threadMode initPattern
  returned := []
  current := none
  past := []
  began := fun _ => 0
  polls := fun _ => false

def enter (h : EvfHistory) (poll : Bool) (call : WaitCall) : EvfHistory :=
  let r := h.flag.wait call
  match r.2 with
  | some result =>
      { h with
        flag := r.1
        returned :=
          { call := call
            result := pollResult poll result
            pattern := if result = errorEperm then none else some h.flag.bits
            before := h.flag.bits
            after := r.1.bits
            began := h.past.length
            ended := h.past.length
            canceling := h.current.isSome } :: h.returned }
  | none =>
      { h with
        flag := r.1
        began := update h.began h.flag.arrived h.past.length
        polls := update h.polls h.flag.arrived poll }

def leave (h : EvfHistory) (i : ℕ) : Option EvfHistory :=
  match h.flag.phase i, h.flag.resume i with
  | .woken call _, some flag =>
      match flag.phase i with
      | .returned result pattern =>
          some { h with
            flag := flag
            returned :=
              { call := call
                result := pollResult (h.polls i) result
                pattern := some pattern
                before := h.flag.bits
                after := flag.bits
                began := h.began i
                ended := h.past.length
                canceling := h.current.isSome } :: h.returned }
      | _ => some { h with flag := flag }
  | _, _ => none

def step (h : EvfHistory) : EvfEvent → Option EvfHistory
  | .wait call => some (h.enter false call)
  | .poll bits waitMode clearMode => some (h.enter true ⟨bits, waitMode, clearMode, true⟩)
  | .wake i timedOut => (h.flag.wake i timedOut).map fun flag => { h with flag := flag }
  | .resume i => h.leave i
  | .set bits => (h.flag.set bits).map fun flag => { h with flag := flag }
  | .clear bits => (h.flag.clear bits).map fun flag => { h with flag := flag }
  | .cancel setPattern =>
      (h.flag.cancel setPattern).map fun flag =>
        { h with
          flag := flag, current := some ⟨h.flag.waiters, h.flag.waitingThreads⟩ }
  | .cancelEnd =>
      (h.flag.cancelEnd).map fun flag =>
        { h with flag := flag, current := none, past := h.current.toList ++ h.past }

end EvfHistory

/-! ### What a call returns -/

def EventFlag.WaitCall.Satisfied (call : WaitCall) (bits : BitVec 64) : Prop :=
  match call.waitMode with
  | .and => bits &&& call.bits = call.bits
  | .or => bits &&& call.bits ≠ 0

def EventFlag.WaitCall.cleared (call : WaitCall) (bits : BitVec 64) : BitVec 64 :=
  match call.clearMode with
  | .none => bits
  | .all => 0
  | .bits => bits &&& ~~~call.bits

namespace EvfState

variable {s s' : EvfState} {call : WaitCall} {i : ℕ}

theorem finish_canceled (hstatus : s.status = .canceled) :
    s.finish call = (s, errorEcanceled) :=
  if_pos hstatus

theorem finish_ok (hstatus : s.status ≠ .canceled) (hdeleted : s.status ≠ .deleted) :
    s.finish call = ({ s with bits := call.cleared s.bits }, orbisOk) := by
  unfold finish WaitCall.cleared
  rw [if_neg hstatus, if_neg hdeleted]
  cases call.clearMode <;> rfl

theorem satisfied_of_waitFunc (h : s.waitFunc call = true) (hstatus : s.status ≠ .canceled)
    (hdeleted : s.status ≠ .deleted) : call.Satisfied s.bits := by
  unfold waitFunc at h
  unfold WaitCall.Satisfied
  cases hmode : call.waitMode with
  | and => simpa [hmode, hstatus, hdeleted] using h
  | or => simpa [hmode, hstatus, hdeleted] using h

theorem waitFunc_canceled (h : s.status = .canceled) : s.waitFunc call = true := by
  simp [waitFunc, h]

theorem resume_cases (h : s.Inv) (hs : s.resume i = some s') :
    ∃ call timedOut, s.phase i = .woken call timedOut ∧
      (s.status = .canceled ∧ s' = { s with
          waitingThreads := s.waitingThreads - 1
          phase := update s.phase i (.returned errorEcanceled s.bits) } ∨
      s.status ≠ .canceled ∧ call.Satisfied s.bits ∧ s' = { s with
          waitingThreads := s.waitingThreads - 1
          bits := call.cleared s.bits
          phase := update s.phase i (.returned orbisOk s.bits) } ∨
      s.status ≠ .canceled ∧ s' = { s with
          waitingThreads := s.waitingThreads - 1
          phase := update s.phase i (.returned errorEtimedout s.bits) } ∨
      s.status ≠ .canceled ∧ s' = { s with
          phase := update s.phase i (.blocked call) }) := by
  unfold resume at hs
  split at hs
  · next call timedOut hphase =>
      refine ⟨call, timedOut, hphase, ?_⟩
      by_cases hstatus : s.status = .canceled
      · rw [if_pos (waitFunc_canceled hstatus)] at hs
        rw [finish_canceled (s := { s with waitingThreads := s.waitingThreads - 1 }) hstatus] at hs
        cases hs
        exact Or.inl ⟨hstatus, rfl⟩
      · refine Or.inr ?_
        split at hs
        · next hcond =>
            rw [finish_ok (s := { s with waitingThreads := s.waitingThreads - 1 }) hstatus
              h.status] at hs
            cases hs
            exact Or.inl ⟨hstatus, satisfied_of_waitFunc hcond hstatus h.status, rfl⟩
        · split at hs
          · cases hs
            exact Or.inr (Or.inl ⟨hstatus, rfl⟩)
          · cases hs
            exact Or.inr (Or.inr ⟨hstatus, rfl⟩)
  · cases hs

theorem wait_cases (h : s.Inv) (call : WaitCall) :
    s.threadMode = .single ∧ 0 < s.waitingThreads ∧ s.wait call = (s, some errorEperm) ∨
    s.status = .canceled ∧ s.wait call = (s, some errorEcanceled) ∨
    s.status ≠ .canceled ∧ call.Satisfied s.bits ∧
      s.wait call = ({ s with bits := call.cleared s.bits }, some orbisOk) ∨
    s.status ≠ .canceled ∧ ¬ (s.threadMode = .single ∧ 0 < s.waitingThreads) ∧
      s.wait call = ({ s with
        waitingThreads := s.waitingThreads + 1
        phase := update s.phase s.arrived (.blocked call)
        arrived := s.arrived + 1 }, none) := by
  unfold wait
  split
  · next hsingle => exact Or.inl ⟨hsingle.1, hsingle.2, rfl⟩
  next hsingle =>
  refine Or.inr ?_
  by_cases hstatus : s.status = .canceled
  · rw [if_pos (waitFunc_canceled hstatus), finish_canceled hstatus]
    exact Or.inl ⟨hstatus, rfl⟩
  refine Or.inr ?_
  split
  · next hcond =>
      rw [finish_ok hstatus h.status]
      exact Or.inl ⟨hstatus, satisfied_of_waitFunc hcond hstatus h.status, rfl⟩
  · exact Or.inr ⟨hstatus, hsingle, rfl⟩

end EvfState

structure EvfReturn.Good (r : EvfReturn) : Prop where
  ok : r.result = orbisOk → r.pattern = some r.before ∧ r.call.Satisfied r.before ∧
    r.after = r.call.cleared r.before
  canceled : r.result = errorEcanceled → r.canceling = true ∧ r.began ≤ r.ended

theorem pollResult_eq_ok {poll : Bool} {ret : ℤ} :
    pollResult poll ret = orbisOk ↔ ret = orbisOk := by
  unfold pollResult
  split
  · next h =>
      rw [h.2]
      decide
  · rfl

theorem pollResult_eq_ecanceled {poll : Bool} {ret : ℤ} :
    pollResult poll ret = errorEcanceled ↔ ret = errorEcanceled := by
  unfold pollResult
  split
  · next h =>
      rw [h.2]
      decide
  · rfl

namespace EvfHistory

def Canceled (s : EvfState) (i : ℕ) : Prop :=
  ∃ pattern, s.phase i = .returned errorEcanceled pattern

/-- The invariant of the runs. -/
structure Inv (threadMode : ThreadMode) (h : EvfHistory) : Prop where
  flag : h.flag.Inv
  mode : h.flag.threadMode = threadMode
  status : h.flag.status = .canceled ↔ h.current.isSome
  current : ∀ c, h.current = some c → c.reported = c.waiters.card ∧
    ∀ i ∈ c.waiters, (h.flag.phase i).waiting = true ∨ Canceled h.flag i
  past : ∀ c ∈ h.past, c.reported = c.waiters.card ∧ ∀ i ∈ c.waiters, Canceled h.flag i
  began : ∀ i, h.began i ≤ h.past.length
  returned : ∀ r ∈ h.returned, r.Good

variable {threadMode : ThreadMode} {h h' : EvfHistory}

theorem inv_create (threadMode : ThreadMode) (initPattern : BitVec 64) :
    (create threadMode initPattern).Inv threadMode := by
  refine ⟨EvfState.inv_create threadMode initPattern, rfl, ⟨by rintro ⟨⟩, by rintro ⟨⟩⟩, ?_, ?_,
    fun _ => Nat.le_refl 0, ?_⟩
  · rintro c ⟨⟩
  · intro c hc
    exact absurd hc List.not_mem_nil
  · intro r hr
    exact absurd hr List.not_mem_nil

theorem Inv.advance (hinv : h.Inv threadMode) {flag : EvfState} (hflag : flag.Inv)
    (hmode : flag.threadMode = h.flag.threadMode) (hstatus : flag.status = h.flag.status)
    (hkeep : ∀ j, Canceled h.flag j → Canceled flag j)
    (hwait : h.flag.status = .canceled → ∀ j, (h.flag.phase j).waiting = true →
      (flag.phase j).waiting = true ∨ Canceled flag j)
    {returned : List EvfReturn} (hreturned : ∀ r ∈ returned, r.Good) {began : ℕ → ℕ}
    (hbegan : ∀ i, began i ≤ h.past.length) (polls : ℕ → Bool) :
    Inv threadMode { h with flag := flag, returned := returned, began := began, polls := polls } where
  flag := hflag
  mode := hmode.trans hinv.mode
  status := by
    show flag.status = .canceled ↔ _
    rw [hstatus]
    exact hinv.status
  current := by
    intro c hc
    have hcanceled : h.flag.status = .canceled :=
      hinv.status.mpr (by rw [show _ = some c from hc]; rfl)
    obtain ⟨hcount, hthreads⟩ := hinv.current c hc
    refine ⟨hcount, fun i hi => ?_⟩
    obtain hwaiting | hdone := hthreads i hi
    · exact hwait hcanceled i hwaiting
    · exact Or.inr (hkeep i hdone)
  past := fun c hc => ⟨(hinv.past c hc).1, fun i hi => hkeep i ((hinv.past c hc).2 i hi)⟩
  began := hbegan
  returned := hreturned

theorem canceled_update {s : EvfState} {i : ℕ} {phase : EvfPhase}
    (hold : ∀ pattern, s.phase i ≠ .returned errorEcanceled pattern) {j : ℕ} (hj : Canceled s j) :
    ∃ pattern, update s.phase i phase j = .returned errorEcanceled pattern := by
  obtain ⟨pattern, hphase⟩ := hj
  have hne : j ≠ i := by
    rintro rfl
    exact hold pattern hphase
  exact ⟨pattern, by rw [update_of_ne hne, hphase]⟩

theorem Inv.enter (hinv : h.Inv threadMode) (poll : Bool) (call : WaitCall) :
    (h.enter poll call).Inv threadMode := by
  obtain ⟨-, -, heq⟩ | ⟨hstatus, heq⟩ | ⟨hstatus, hsat, heq⟩ | ⟨hstatus, hsingle, heq⟩ :=
    EvfState.wait_cases hinv.flag call
  · rw [EvfHistory.enter, heq]
    refine hinv.advance hinv.flag rfl rfl (fun _ => id) (fun _ _ => Or.inl) (fun r hr => ?_)
      hinv.began h.polls
    obtain rfl | hr := List.mem_cons.mp hr
    · refine ⟨fun hok => ?_, fun hcanceled => ?_⟩
      · exact absurd (pollResult_eq_ok.mp hok) (by decide)
      · exact absurd (pollResult_eq_ecanceled.mp hcanceled) (by decide)
    · exact hinv.returned r hr
  · rw [EvfHistory.enter, heq]
    refine hinv.advance hinv.flag rfl rfl (fun _ => id) (fun _ _ => Or.inl) (fun r hr => ?_)
      hinv.began h.polls
    obtain rfl | hr := List.mem_cons.mp hr
    · refine ⟨fun hok => ?_, fun _ => ⟨hinv.status.mp hstatus, Nat.le_refl _⟩⟩
      exact absurd (pollResult_eq_ok.mp hok) (by decide)
    · exact hinv.returned r hr
  · have hpattern : (if orbisOk = errorEperm then none else some h.flag.bits) =
        some h.flag.bits := if_neg (by decide)
    rw [EvfHistory.enter, heq]
    refine hinv.advance (hinv.flag.setBits (call.cleared h.flag.bits)) rfl rfl (fun _ => id)
      (fun _ _ => Or.inl) (fun r hr => ?_) hinv.began h.polls
    obtain rfl | hr := List.mem_cons.mp hr
    · refine ⟨fun _ => ⟨hpattern, hsat, rfl⟩, fun hcanceled => ?_⟩
      exact absurd (pollResult_eq_ecanceled.mp hcanceled) (by decide)
    · exact hinv.returned r hr
  · rw [EvfHistory.enter, heq]
    have habsent := hinv.flag.absent h.flag.arrived (Nat.le_refl _)
    refine hinv.advance (hinv.flag.block call hsingle) rfl rfl (fun j hj => ?_)
      (fun hcanceled => absurd hcanceled hstatus) hinv.returned (fun i => ?_) _
    · exact canceled_update (fun pattern => by rw [habsent]; rintro ⟨⟩) hj
    · obtain rfl | hi := eq_or_ne i h.flag.arrived
      · rw [update_self]
      · rw [update_of_ne hi]
        exact hinv.began i

theorem Inv.leave {i : ℕ} (hinv : h.Inv threadMode) (hs : h.leave i = some h') :
    h'.Inv threadMode := by
  unfold EvfHistory.leave at hs
  split at hs
  case h_2 => cases hs
  next call' timedOut' flag hphase' hresume =>
  obtain ⟨call, timedOut, hphase, hcases⟩ := EvfState.resume_cases hinv.flag hresume
  rw [hphase] at hphase'
  cases hphase'
  have hwaiting : (h.flag.phase i).waiting = true := by rw [hphase]; rfl
  have hreturned : ∀ pattern, h.flag.phase i ≠ .returned errorEcanceled pattern := by
    intro pattern
    rw [hphase]
    rintro ⟨⟩
  -- the other threads stay where they are
  have hothers : ∀ {phase : EvfPhase} {j : ℕ}, (h.flag.phase j).waiting = true →
      (update h.flag.phase i phase j).waiting = true ∨
        update h.flag.phase i phase j = phase := by
    intro phase j hj
    obtain rfl | hne := eq_or_ne j i
    · exact Or.inr (update_self ..)
    · rw [update_of_ne hne]
      exact Or.inl hj
  obtain ⟨hstatus, rfl⟩ | ⟨hstatus, hsat, rfl⟩ | ⟨hstatus, rfl⟩ | ⟨hstatus, rfl⟩ := hcases
  · simp only [update_self] at hs
    cases hs
    refine hinv.advance (hinv.flag.leave hwaiting rfl).2 rfl rfl
      (fun j hj => canceled_update hreturned hj) (fun _ j hj => ?_) (fun r hr => ?_) hinv.began
      h.polls
    · obtain hstill | hdone := hothers hj
      · exact Or.inl hstill
      · exact Or.inr ⟨h.flag.bits, hdone⟩
    · obtain rfl | hr := List.mem_cons.mp hr
      · refine ⟨fun hok => ?_, fun _ => ⟨hinv.status.mp hstatus, hinv.began i⟩⟩
        exact absurd (pollResult_eq_ok.mp hok) (by decide)
      · exact hinv.returned r hr
  · simp only [update_self] at hs
    cases hs
    refine hinv.advance ((hinv.flag.leave hwaiting rfl).2.setBits _) rfl rfl
      (fun j hj => canceled_update hreturned hj) (fun hcanceled => absurd hcanceled hstatus)
      (fun r hr => ?_) hinv.began h.polls
    obtain rfl | hr := List.mem_cons.mp hr
    · refine ⟨fun _ => ⟨rfl, hsat, rfl⟩, fun hcanceled => ?_⟩
      exact absurd (pollResult_eq_ecanceled.mp hcanceled) (by decide)
    · exact hinv.returned r hr
  · simp only [update_self] at hs
    cases hs
    refine hinv.advance (hinv.flag.leave hwaiting rfl).2 rfl rfl
      (fun j hj => canceled_update hreturned hj) (fun hcanceled => absurd hcanceled hstatus)
      (fun r hr => ?_) hinv.began h.polls
    obtain rfl | hr := List.mem_cons.mp hr
    · refine ⟨fun hok => ?_, fun hcanceled => ?_⟩
      · exact absurd (pollResult_eq_ok.mp hok) (by decide)
      · exact absurd (pollResult_eq_ecanceled.mp hcanceled) (by decide)
    · exact hinv.returned r hr
  · simp only [update_self] at hs
    cases hs
    exact hinv.advance (hinv.flag.move hwaiting rfl) rfl rfl
      (fun j hj => canceled_update hreturned hj) (fun hcanceled => absurd hcanceled hstatus)
      hinv.returned hinv.began h.polls

/-- The cancels so far have reported the threads that they released. -/
theorem inv_step (h h' : EvfHistory) (e : EvfEvent) (hinv : h.Inv threadMode)
    (hs : h.step e = some h') : h'.Inv threadMode := by
  cases e with
  | wait call =>
      cases hs
      exact hinv.enter false call
  | poll bits waitMode clearMode =>
      cases hs
      exact hinv.enter true _
  | wake i timedOut =>
      obtain ⟨flag, hwake, rfl⟩ := Option.map_eq_some_iff.mp hs
      unfold EvfState.wake at hwake
      split at hwake
      case h_2 => cases hwake
      next call hphase =>
      split at hwake
      · cases hwake
      cases hwake
      have hwaiting : (h.flag.phase i).waiting = true := by rw [hphase]; rfl
      refine hinv.advance (hinv.flag.move hwaiting rfl) rfl rfl
        (fun j hj => canceled_update (fun pattern => by rw [hphase]; rintro ⟨⟩) hj)
        (fun _ j hj => Or.inl ?_) hinv.returned hinv.began h.polls
      show (update h.flag.phase i _ j).waiting = true
      obtain rfl | hne := eq_or_ne j i
      · rw [update_self]
        rfl
      · rw [update_of_ne hne]
        exact hj
  | resume i => exact hinv.leave hs
  | set bits =>
      obtain ⟨flag, hset, rfl⟩ := Option.map_eq_some_iff.mp hs
      unfold EvfState.set at hset
      split at hset
      · cases hset
        exact hinv.advance (hinv.flag.setBits (h.flag.bits ||| bits)) rfl rfl (fun _ => id)
          (fun _ _ => Or.inl) hinv.returned hinv.began h.polls
      · cases hset
  | clear bits =>
      obtain ⟨flag, hclear, rfl⟩ := Option.map_eq_some_iff.mp hs
      unfold EvfState.clear at hclear
      split at hclear
      · cases hclear
        exact hinv.advance (hinv.flag.setBits (h.flag.bits &&& bits)) rfl rfl (fun _ => id)
          (fun _ _ => Or.inl) hinv.returned hinv.began h.polls
      · cases hclear
  | cancel setPattern =>
      obtain ⟨flag, hcancel, rfl⟩ := Option.map_eq_some_iff.mp hs
      unfold EvfState.cancel at hcancel
      split at hcancel
      case isFalse => cases hcancel
      cases hcancel
      refine ⟨⟨hinv.flag.count, hinv.flag.absent, hinv.flag.single, by rintro ⟨⟩⟩, hinv.mode,
        ⟨fun _ => rfl, fun _ => rfl⟩, ?_, hinv.past, hinv.began, hinv.returned⟩
      rintro c ⟨⟩
      exact ⟨hinv.flag.count, fun i hi => Or.inl ((EvfState.mem_waiters hinv.flag).mp hi)⟩
  | cancelEnd =>
      obtain ⟨flag, hend, rfl⟩ := Option.map_eq_some_iff.mp hs
      unfold EvfState.cancelEnd at hend
      split at hend
      case isFalse => cases hend
      next hcond =>
      cases hend
      have hnone : ∀ i, (h.flag.phase i).waiting ≠ true := by
        intro i hi
        have hmem := (EvfState.mem_waiters hinv.flag).mpr hi
        have hcard := Finset.card_pos.mpr ⟨i, hmem⟩
        rw [← hinv.flag.count] at hcard
        omega
      refine ⟨⟨hinv.flag.count, hinv.flag.absent, hinv.flag.single, by rintro ⟨⟩⟩, hinv.mode,
        ⟨by rintro ⟨⟩, by rintro ⟨⟩⟩, by rintro c ⟨⟩, fun c hc => ?_, fun i => ?_, hinv.returned⟩
      · obtain hc | hc := List.mem_append.mp hc
        · obtain ⟨hcount, hthreads⟩ := hinv.current c (Option.mem_toList.mp hc)
          refine ⟨hcount, fun i hi => ?_⟩
          exact (hthreads i hi).resolve_left (hnone i)
        · exact hinv.past c hc
      · refine Nat.le_trans (hinv.began i) ?_
        show h.past.length ≤ (h.current.toList ++ h.past).length
        rw [List.length_append]
        exact Nat.le_add_left _ _

/-! ### A cancel comes to its end -/

theorem leave_canceled {i : ℕ} {call : WaitCall} {timedOut : Bool}
    (hstatus : h.flag.status = .canceled) (hphase : h.flag.phase i = .woken call timedOut) :
    ∃ h', h.step (.resume i) = some h' ∧ h'.current = h.current ∧ h'.past = h.past ∧
      h'.flag.waitingThreads = h.flag.waitingThreads - 1 := by
  have hresume : h.flag.resume i = some { h.flag with
      waitingThreads := h.flag.waitingThreads - 1
      phase := update h.flag.phase i (.returned errorEcanceled h.flag.bits) } := by
    unfold EvfState.resume
    rw [hphase]
    dsimp only
    rw [if_pos (EvfState.waitFunc_canceled hstatus), EvfState.finish_canceled
      (s := { h.flag with waitingThreads := h.flag.waitingThreads - 1 }) hstatus]
  simp only [step, EvfHistory.leave, hphase, hresume, update_self]
  exact ⟨_, rfl, rfl, rfl, rfl⟩

theorem exists_cancelEnd (n : ℕ) (hinv : h.Inv threadMode) (hstatus : h.flag.status = .canceled)
    (hn : h.flag.waitingThreads = n) :
    ∃ h', Reachable step (fun _ _ => True) h h' ∧ h'.current = none ∧
      h'.past = h.current.toList ++ h.past := by
  induction n generalizing h with
  | zero =>
      refine ⟨_, .step .cancelEnd .start True.intro (?_ : h.step .cancelEnd = some
        { h with
          flag := { h.flag with status := .set }
          current := none
          past := h.current.toList ++ h.past }), rfl, rfl⟩
      rw [step, EvfState.cancelEnd, if_pos ⟨hstatus, hn⟩]
      rfl
  | succ n ih =>
      have hcard := hinv.flag.count
      rw [hn] at hcard
      obtain ⟨i, hi⟩ := Finset.card_pos.mp (by omega : 0 < h.flag.waiters.card)
      have hwaiting := (EvfState.mem_waiters hinv.flag).mp hi
      -- the thread is woken first, if it is still in the condition variable
      obtain ⟨h₁, hrun, hinv₁, hstatus₁, hcurrent₁, hpast₁, hcount₁, call, timedOut, hphase₁⟩ :
          ∃ h₁, Reachable step (fun _ _ => True) h h₁ ∧ h₁.Inv threadMode ∧
            h₁.flag.status = .canceled ∧ h₁.current = h.current ∧ h₁.past = h.past ∧
            h₁.flag.waitingThreads = n + 1 ∧
            ∃ call timedOut, h₁.flag.phase i = .woken call timedOut := by
        cases hphase : h.flag.phase i with
        | absent => rw [hphase] at hwaiting; cases hwaiting
        | returned => rw [hphase] at hwaiting; cases hwaiting
        | woken call timedOut =>
            exact ⟨h, .start, hinv, hstatus, rfl, rfl, hn, call, timedOut, hphase⟩
        | blocked call =>
            have hwake : h.step (.wake i false) = some { h with
                flag := { h.flag with
                  phase := update h.flag.phase i (.woken call false) } } := by
              simp only [step, EvfState.wake, hphase]
              rfl
            exact ⟨_, .step _ .start True.intro hwake, inv_step _ _ _ hinv hwake, hstatus, rfl, rfl,
              hn, call, false, update_self ..⟩
      obtain ⟨h₂, hleave, hcurrent₂, hpast₂, hcount₂⟩ := leave_canceled hstatus₁ hphase₁
      have hinv₂ := inv_step _ _ _ hinv₁ hleave
      have hstatus₂ : h₂.flag.status = .canceled := by
        rw [hinv₂.status, hcurrent₂, ← hinv₁.status]
        exact hstatus₁
      obtain ⟨h', hrun', hnone, hpast⟩ := ih hinv₂ hstatus₂ (by omega)
      refine ⟨h', (Reachable.step _ hrun True.intro hleave).trans hrun', hnone, ?_⟩
      rw [hpast, hcurrent₂, hpast₂, hcurrent₁, hpast₁]

end EvfHistory

open EvfHistory in
/-- Event flags in every interleaving: the count is the number of waiting threads, at most one
on a flag for single threads; a call that returns OK found its condition true, reported the
bits it found and applied its clear mode to them in one step; every `Cancel` that has returned
reported the number of the threads it found waiting, all of which it made return `ECANCELED`,
and one that lets the threads go can come to its end; and a call that returned `ECANCELED` did
so during a `Cancel` that had not returned when the call began. -/
theorem eventFlag_history {threadMode : ThreadMode} {initPattern : BitVec 64} {h : EvfHistory}
    (hreach : Reachable step (fun _ _ => True) (create threadMode initPattern) h) :
    h.flag.waitingThreads = h.flag.waiters.card ∧
    (threadMode = .single → h.flag.waiters.card ≤ 1) ∧
    (∀ r ∈ h.returned, r.result = orbisOk → r.pattern = some r.before ∧
      r.call.Satisfied r.before ∧ r.after = r.call.cleared r.before) ∧
    (∀ c ∈ h.past, c.reported = c.waiters.card ∧ ∀ i ∈ c.waiters, Canceled h.flag i) ∧
    (∀ c, h.current = some c → c.reported = c.waiters.card ∧
      ∃ h', Reachable step (fun _ _ => True) h h' ∧ c ∈ h'.past) ∧
    ∀ r ∈ h.returned, r.result = errorEcanceled → r.canceling = true ∧ r.began ≤ r.ended := by
  have hinv : h.Inv threadMode :=
    hreach.invariant (inv_create threadMode initPattern) fun s s' a hs _ hstep =>
      inv_step s s' a hs hstep
  refine ⟨hinv.flag.count, fun hsingle => ?_, fun r hr => (hinv.returned r hr).ok, hinv.past,
    fun c hc => ⟨(hinv.current c hc).1, ?_⟩, fun r hr => (hinv.returned r hr).canceled⟩
  · rw [← hinv.flag.count]
    exact hinv.flag.single (hinv.mode.trans hsingle)
  · have hstatus : h.flag.status = .canceled := hinv.status.mpr (by rw [hc]; rfl)
    obtain ⟨h', hrun, -, hpast⟩ := exists_cancelEnd _ hinv hstatus rfl
    refine ⟨h', hrun, ?_⟩
    rw [hpast, hc]
    exact List.mem_cons_self

/-- A thread waits for bit 0, and a `Cancel` begins. -/
theorem eventFlag_history_cancel :
    ∃ h, h.current = some ⟨{0}, 1⟩ ∧ h.flag.waitingThreads = h.flag.waiters.card ∧
      ∀ c, h.current = some c → ∃ h', Reachable EvfHistory.step (fun _ _ => True) h h' ∧
        c ∈ h'.past := by
  have hreach : ∃ h, run EvfHistory.step (.create .single 0)
      [.wait ⟨1, .or, .none, false⟩, .cancel 0] = some h ∧ h.current = some ⟨{0}, 1⟩ :=
    ⟨_, rfl, by decide⟩
  obtain ⟨h, hrun, hcurrent⟩ := hreach
  have hall := eventFlag_history (reachable_of_run hrun (allOk_of_forall fun _ _ _ => True.intro))
  exact ⟨h, hcurrent, hall.1, fun c hc => (hall.2.2.2.2.1 c hc).2⟩

end OrbitConsole.Kernel
