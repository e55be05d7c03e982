import OrbitConsole.Core.Kernel.SemaphoreSpec

/-!
# The order in which a semaphore serves

With positive counts a queued thread needs more than there is, so a token never
waits next to a thread it would satisfy. `completions` lists what has completed
a waiting thread; it is empty as long as the thread is queued and has one member
from then on.
-/

namespace OrbitConsole.Kernel

open Function (update update_of_ne update_self)

open Memory (orbisOk)
open Transition

variable {s s' s₀ : SemState} {i : ℕ}

/-! ### What completes a waiting thread -/

inductive Outcome where
  | signaled
  | canceled
  | deleted
  | timedOut
  deriving DecidableEq

/-- The result a call of `Wait` reports for it. -/
def Outcome.result : Outcome → ℤ
  | .signaled => orbisOk
  | .canceled => errorEcanceled
  | .deleted => errorEacces
  | .timedOut => errorEtimedout

def completions (w : WaitingThread) (phase : WaitPhase) : List Outcome :=
  (if w.wasSignaled then [.signaled] else []) ++ (if w.wasCanceled then [.canceled] else []) ++
    (if w.wasDeleted then [.deleted] else []) ++
    (if phase = .returned errorEtimedout then [.timedOut] else [])

theorem WaitingThread.Pending.completions {w : WaitingThread} (h : w.Pending)
    (phase : WaitPhase) : completions w phase =
      if phase = .returned errorEtimedout then [.timedOut] else [] := by
  obtain ⟨hsignaled, hdeleted, hcanceled⟩ := h
  simp [Kernel.completions, hsignaled, hdeleted, hcanceled]

theorem WaitingThread.Completed.completions {w : WaitingThread} (h : w.Completed)
    {phase : WaitPhase} (hphase : phase ≠ .returned errorEtimedout) :
    ∃ o, completions w phase = [o] ∧ w.getResult = o.result := by
  rcases h with ⟨h₁, h₂, h₃⟩ | ⟨h₁, h₂, h₃⟩ | ⟨h₁, h₂, h₃⟩
  · exact ⟨.signaled, by simp [Kernel.completions, h₁, h₂, h₃, hphase],
      by simp [WaitingThread.getResult, h₁, Outcome.result]⟩
  · exact ⟨.deleted, by simp [Kernel.completions, h₁, h₂, h₃, hphase],
      by simp [WaitingThread.getResult, h₁, h₂, Outcome.result]⟩
  · exact ⟨.canceled, by simp [Kernel.completions, h₁, h₂, h₃, hphase],
      by simp [WaitingThread.getResult, h₁, h₂, h₃, Outcome.result]⟩

theorem completions_congr {w w' : WaitingThread} {phase phase' : WaitPhase}
    (hsignaled : w'.wasSignaled = w.wasSignaled) (hcanceled : w'.wasCanceled = w.wasCanceled)
    (hdeleted : w'.wasDeleted = w.wasDeleted)
    (hphase : phase' = .returned errorEtimedout ↔ phase = .returned errorEtimedout) :
    completions w' phase' = completions w phase := by
  unfold completions
  rw [hsignaled, hcanceled, hdeleted]
  simp only [hphase]

structure CallOutcome (q : Prop) (w : WaitingThread) (phase : WaitPhase) : Prop where
  queued : q → completions w phase = []
  once : ¬ q → ∃ o, completions w phase = [o]
  reports : ∀ result, phase = .returned result →
    ∃ o, completions w phase = [o] ∧ result = o.result
  /-- a completed thread that still sleeps has its token -/
  wakes : ∀ timed, phase = .blocked timed → ¬ q → w.sem = 1

theorem CallOk.outcome {q : Prop} {w : WaitingThread} {phase : WaitPhase}
    (h : CallOk q w phase) : CallOutcome q w phase := by
  cases h with
  | queued hq hw hsem hphase =>
      have hne : ∀ result, phase ≠ .returned result := by
        intro result hr
        rcases hphase with ⟨timed, hp⟩ | hp <;> exact WaitPhase.noConfusion (hp.symm.trans hr)
      refine ⟨fun _ => ?_, fun hout => absurd hq hout, fun result hr => absurd hr (hne result),
        fun _ _ hout => absurd hq hout⟩
      rw [hw.completions, if_neg (hne _)]
  | completed hq hw hsem hphase =>
      have hne : phase ≠ .returned errorEtimedout := by
        intro hr
        rcases hphase with ⟨timed, hp, -⟩ | hp | hp
        · exact WaitPhase.noConfusion (hp.symm.trans hr)
        · exact WaitPhase.noConfusion (hp.symm.trans hr)
        · exact hw.getResult_ne (WaitPhase.returned.inj (hp.symm.trans hr))
      obtain ⟨o, ho, hresult⟩ := hw.completions hne
      refine ⟨fun hin => absurd hin hq, fun _ => ⟨o, ho⟩, fun result hr => ⟨o, ho, ?_⟩,
        fun timed hp _ => ?_⟩
      · rcases hphase with ⟨timed, hp, -⟩ | hp | hp
        · exact WaitPhase.noConfusion (hp.symm.trans hr)
        · exact WaitPhase.noConfusion (hp.symm.trans hr)
        · exact (WaitPhase.returned.inj (hp.symm.trans hr)).symm.trans hresult
      · rcases hphase with ⟨timed', -, hsem⟩ | hp' | hp'
        · exact hsem
        · exact WaitPhase.noConfusion (hp'.symm.trans hp)
        · exact WaitPhase.noConfusion (hp'.symm.trans hp)
  | timedOut hq hw hsem hphase =>
      have ho : completions w phase = [.timedOut] := by rw [hw.completions, if_pos hphase]
      refine ⟨fun hin => absurd hin hq, fun _ => ⟨_, ho⟩, fun result hr => ⟨_, ho, ?_⟩,
        fun timed hp => ?_⟩
      · exact (WaitPhase.returned.inj (hphase.symm.trans hr)).symm
      · exact WaitPhase.noConfusion (hphase.symm.trans hp)

/-! ### The counts the calls pass -/

def SemAction.Positive (s : SemState) : SemAction → Prop
  | .wait _ _ needCount _ => Kernel.IsS32 needCount ∧ 1 ≤ needCount
  | .signal signalCount =>
      Kernel.IsS32 signalCount ∧ 1 ≤ signalCount ∧ s.tokenCount + signalCount < 2147483648
  | .cancel setCount => Kernel.IsS32 setCount
  | _ => True

instance (s : SemState) : (a : SemAction) → Decidable (a.Positive s)
  | .wait _ _ _ _ => inferInstanceAs (Decidable (_ ∧ _))
  | .signal _ => inferInstanceAs (Decidable (_ ∧ _ ∧ _))
  | .cancel setCount => inferInstanceAs (Decidable (Kernel.IsS32 setCount))
  | .acquire _ | .expire _ | .resume _ | .delete => inferInstanceAs (Decidable True)

theorem Sound.inRange (h : Sound s) {a : SemAction} (hpos : a.Positive s) : a.InRange s := by
  obtain ⟨hnonneg, hlt⟩ := h.token
  cases a with
  | wait priority canBlock needCount timeout =>
      intro _
      have := hpos.2
      omega
  | signal signalCount =>
      have := hpos.2.1
      exact ⟨by omega, hpos.2.2⟩
  | cancel setCount => exact hpos.2
  | _ => exact True.intro

/-- Every queued thread needs more tokens than there are. -/
def Short (s : SemState) : Prop := ∀ i ∈ s.waitList, s.tokenCount < (s.waiter i).needCount

theorem Sound.short_wait (h : Sound s) (hshort : Short s) {priority : ℕ} {canBlock : Bool}
    {needCount : ℤ} {timeout : Option ℕ} (hneed : 1 ≤ needCount) :
    Short (s.wait priority canBlock needCount timeout).1 := by
  unfold SemState.wait
  split
  · next hle =>
      intro i hi
      have hless := hshort i hi
      obtain ⟨-, hlt⟩ := h.token
      change wrap32 (s.tokenCount - needCount) < (s.waiter i).needCount
      rw [wrap32_eq (by omega) (by omega)]
      omega
  · next hgt =>
      split
      · exact hshort
      split
      · exact hshort
      · intro i hi
        change s.tokenCount < (update s.waiter s.arrived _ i).needCount
        rcases mem_addWaiter.1 hi with rfl | hi
        · rw [update_self]
          exact not_le.1 hgt
        · rw [update_of_ne (h.arrived i hi).ne]
          exact hshort i hi

theorem Sound.short_signal (h : Sound s) (hshort : Short s) {signalCount : ℤ}
    (hrange : 0 ≤ s.tokenCount + signalCount ∧ s.tokenCount + signalCount < 2147483648) :
    Short (s.signal signalCount).1 := by
  unfold SemState.signal
  split
  · exact hshort
  · rw [wrap32_eq (by omega) hrange.2]
    have hgrant := h.granted_of_signal hrange
    intro i hi
    change _ < ((SemState.grant _ _ _).2.2 i).needCount
    rw [hgrant.waiter_eq, if_neg fun hout => hout.2 hi]
    exact hgrant.kept i hi

/-- After a step no waiter of the list could be granted its tokens. -/
theorem Sound.short_step (h : Sound s) (hshort : Short s) {a : SemAction}
    (hpos : a.Positive s) (hs : s.step a = some s') : Short s' := by
  cases a with
  | wait priority canBlock needCount timeout =>
      cases hs
      exact h.short_wait hshort hpos.2
  | acquire i =>
      simp only [SemState.step, SemState.acquire] at hs
      split at hs
      · split at hs <;> cases hs
        intro j hj
        change s.tokenCount < (update s.waiter i _ j).needCount
        rcases eq_or_ne j i with rfl | hne
        · rw [update_self]
          exact hshort j hj
        · rw [update_of_ne hne]
          exact hshort j hj
      · cases hs
  | expire i =>
      simp only [SemState.step, SemState.expire] at hs
      split at hs <;> cases hs
      exact hshort
  | resume i =>
      simp only [SemState.step, SemState.resume] at hs
      split at hs <;> cases hs
      intro j hj
      apply hshort j
      simp only at hj
      split at hj
      · exact List.mem_of_mem_erase hj
      · exact hj
  | signal signalCount =>
      cases hs
      exact h.short_signal hshort (h.inRange hpos)
  | cancel setCount =>
      cases hs
      exact fun i hi => absurd hi List.not_mem_nil
  | delete =>
      cases hs
      exact fun i hi => absurd hi List.not_mem_nil

/-! ### Every thread is completed once -/

/-- What an action completes a thread with. -/
def SemAction.outcome (i : ℕ) : SemAction → Option Outcome
  | .signal _ => some .signaled
  | .cancel _ => some .canceled
  | .delete => some .deleted
  | .resume j => if j = i then some .timedOut else none
  | _ => none

/-- An action leaves the completions of a thread as they are, or adds the first one. -/
def Completes (s s' : SemState) (a : SemAction) (i : ℕ) : Prop :=
  completions (s'.waiter i) (s'.phase i) = completions (s.waiter i) (s.phase i) ∨
    completions (s.waiter i) (s.phase i) = [] ∧ ∃ o, a.outcome i = some o ∧
      completions (s'.waiter i) (s'.phase i) = [o]

theorem Sound.completions_of_mem (h : Sound s) (hi : i ∈ s.waitList) :
    completions (s.waiter i) (s.phase i) = [] :=
  (h.calls i (h.arrived i hi)).outcome.queued hi

theorem Sound.pending_of_mem (h : Sound s) (hi : i ∈ s.waitList) :
    (s.waiter i).Pending ∧ s.phase i ≠ .returned errorEtimedout := by
  have hpending := (h.calls i (h.arrived i hi)).pending hi
  refine ⟨hpending, fun hphase => ?_⟩
  have hnone := h.completions_of_mem hi
  rw [hpending.completions, if_pos hphase] at hnone
  cases hnone

theorem Sound.completes_of_loop (h : Sound s) {f : WaitingThread → WaitingThread} {o : Outcome}
    {a : SemAction} (ha : a.outcome i = some o)
    (hf : ∀ w : WaitingThread, w.Pending →
      ∀ phase, phase ≠ .returned errorEtimedout → completions (f w) phase = [o])
    (hphase : s'.phase = s.phase)
    (hwaiter : i ∈ s.waitList ∧ s'.waiter i = f (s.waiter i) ∨ s'.waiter i = s.waiter i) :
    Completes s s' a i := by
  unfold Completes
  rw [hphase]
  rcases hwaiter with ⟨hmem, hnew⟩ | hold
  · obtain ⟨hpending, hne⟩ := h.pending_of_mem hmem
    rw [hnew]
    exact .inr ⟨h.completions_of_mem hmem, o, ha, hf _ hpending _ hne⟩
  · rw [hold]
    exact .inl rfl

theorem Sound.markAll_cases (h : Sound s) (f : WaitingThread → WaitingThread) (i : ℕ) :
    i ∈ s.waitList ∧ SemState.markAll f s.waitList s.waiter i = f (s.waiter i) ∨
      SemState.markAll f s.waitList s.waiter i = s.waiter i := by
  rw [markAll_eq h.nodup]
  split
  · next hmem => exact .inl ⟨hmem, rfl⟩
  · exact .inr rfl

theorem Sound.completions_wait (h : Sound s) {priority : ℕ} {canBlock : Bool} {needCount : ℤ}
    {timeout : Option ℕ} :
    completions ((s.wait priority canBlock needCount timeout).1.waiter i)
      ((s.wait priority canBlock needCount timeout).1.phase i) =
      completions (s.waiter i) (s.phase i) := by
  unfold SemState.wait
  split
  · rfl
  split
  · rfl
  split
  · rfl
  simp only
  rcases eq_or_ne i s.arrived with rfl | hne
  · obtain ⟨hphase, hwaiter⟩ := h.absent _ le_rfl
    rw [update_self, update_self, hphase, hwaiter]
    rfl
  · rw [update_of_ne hne, update_of_ne hne]

theorem Sound.completes_signal (h : Sound s) {signalCount : ℤ}
    (hrange : 0 ≤ s.tokenCount + signalCount ∧ s.tokenCount + signalCount < 2147483648) :
    Completes s (s.signal signalCount).1 (.signal signalCount) i := by
  by_cases hmax : s.maxCount < wrap32 (s.tokenCount + signalCount)
  · unfold SemState.signal
    rw [if_pos hmax]
    exact .inl rfl
  · apply h.completes_of_loop (f := WaitingThread.signaled) (o := .signaled) rfl
    · rintro w ⟨-, hdeleted, hcanceled⟩ phase hphase
      simp [completions, WaitingThread.signaled, hdeleted, hcanceled, hphase]
    · unfold SemState.signal
      rw [if_neg hmax]
    · unfold SemState.signal
      rw [if_neg hmax, wrap32_eq (by omega) hrange.2]
      simp only
      rw [(h.granted_of_signal hrange).waiter_eq]
      split
      · next hmem => exact .inl ⟨hmem.1, rfl⟩
      · exact .inr rfl

theorem Sound.completes_resume (h : Sound s) {j : ℕ} (hs : s.resume j = some s') :
    Completes s s' (.resume j) i := by
  unfold SemState.resume at hs
  split at hs
  · next hwoken =>
      cases hs
      rcases eq_or_ne i j with rfl | hne
      · have hi := h.lt_arrived (i := i) (by rw [hwoken]; simp)
        have hnone : s.phase i ≠ .returned errorEtimedout := by
          rw [hwoken]
          exact WaitPhase.noConfusion
        unfold Completes
        simp only [update_self]
        cases h.calls i hi with
        | queued hq hw hsem hphase =>
            refine .inr ⟨h.completions_of_mem hq, .timedOut, if_pos rfl, ?_⟩
            rw [hw.completions, hw.getResult, if_pos rfl]
        | completed hq hw hle hphase =>
            refine .inl (completions_congr rfl rfl rfl ⟨fun hr => ?_, fun hr => absurd hr hnone⟩)
            exact absurd (WaitPhase.returned.inj hr) hw.getResult_ne
        | timedOut hq hw hsem hphase => exact absurd hphase hnone
      · left
        change completions (s.waiter i) (update s.phase j _ i) = _
        rw [update_of_ne hne]
  · cases hs

theorem Sound.completes (h : Sound s) {a : SemAction} (hrange : a.InRange s)
    (hs : s.step a = some s') : Completes s s' a i := by
  cases a with
  | wait priority canBlock needCount timeout =>
      cases hs
      exact .inl h.completions_wait
  | acquire j =>
      left
      simp only [SemState.step, SemState.acquire] at hs
      split at hs
      · next timed hphase =>
          split at hs <;> cases hs
          simp only
          rcases eq_or_ne i j with rfl | hne
          · rw [update_self, update_self, hphase]
            exact completions_congr rfl rfl rfl (by simp)
          · rw [update_of_ne hne, update_of_ne hne]
      · cases hs
  | expire j =>
      left
      simp only [SemState.step, SemState.expire] at hs
      split at hs <;> cases hs
      next hphase =>
        simp only
        rcases eq_or_ne i j with rfl | hne
        · rw [update_self, hphase]
          exact completions_congr rfl rfl rfl (by simp)
        · rw [update_of_ne hne]
  | resume j => exact h.completes_resume hs
  | signal signalCount =>
      cases hs
      exact h.completes_signal hrange
  | cancel setCount =>
      cases hs
      apply h.completes_of_loop (f := WaitingThread.canceled) (o := .canceled) rfl
      · rintro w ⟨hsignaled, hdeleted, -⟩ phase hphase
        simp [completions, WaitingThread.canceled, hsignaled, hdeleted, hphase]
      · rfl
      · exact h.markAll_cases _ i
  | delete =>
      cases hs
      apply h.completes_of_loop (f := WaitingThread.deleted) (o := .deleted) rfl
      · rintro w ⟨hsignaled, -, hcanceled⟩ phase hphase
        simp [completions, WaitingThread.deleted, hsignaled, hcanceled, hphase]
      · rfl
      · exact h.markAll_cases _ i

/-! ### The tokens that waiting threads got -/

def returnedNeed (s : SemState) : ℤ :=
  ∑ i ∈ Finset.range s.arrived, if s.phase i = .returned orbisOk then (s.waiter i).needCount else 0

/-- The needs of the calls that were signaled and are yet to return. -/
def inFlightNeed (s : SemState) : ℤ :=
  ∑ i ∈ Finset.range s.arrived,
    if (s.waiter i).wasSignaled ∧ s.phase i ≠ .returned orbisOk then (s.waiter i).needCount else 0

theorem WaitingThread.Completed.wasSignaled {w : WaitingThread} (h : w.Completed)
    (hresult : w.getResult = orbisOk) : w.wasSignaled = true := by
  rcases h with ⟨h₁, -, -⟩ | ⟨h₁, h₂, -⟩ | ⟨h₁, h₂, h₃⟩
  · exact h₁
  · simp [WaitingThread.getResult, h₁, h₂, errorEacces, orbisOk] at hresult
  · simp [WaitingThread.getResult, h₁, h₂, h₃, errorEcanceled, orbisOk] at hresult

theorem CallOk.wasSignaled {q : Prop} {w : WaitingThread} {phase : WaitPhase}
    (h : CallOk q w phase) (hphase : phase = .returned orbisOk) : w.wasSignaled = true := by
  cases h with
  | queued _ _ _ hp =>
      rcases hp with ⟨timed, hp⟩ | hp <;> exact WaitPhase.noConfusion (hp.symm.trans hphase)
  | completed _ hw _ hp =>
      rcases hp with ⟨timed, hp, -⟩ | hp | hp
      · exact WaitPhase.noConfusion (hp.symm.trans hphase)
      · exact WaitPhase.noConfusion (hp.symm.trans hphase)
      · exact hw.wasSignaled (WaitPhase.returned.inj (hp.symm.trans hphase))
  | timedOut _ _ _ hp =>
      have hcode := WaitPhase.returned.inj (hp.symm.trans hphase)
      exact absurd hcode (by decide)

theorem Sound.granted_eq (h : Sound s) : s.granted = returnedNeed s + inFlightNeed s := by
  rw [h.granted, signaledNeed, returnedNeed, inFlightNeed, ← Finset.sum_add_distrib]
  apply Finset.sum_congr rfl
  intro i hi
  have hcall := h.calls i (Finset.mem_range.1 hi)
  by_cases hphase : s.phase i = .returned orbisOk
  · simp [hphase, hcall.wasSignaled hphase]
  · simp [hphase]

/-! ### All runs -/

theorem Sound.resume_frame (h : Sound s) (hs : s.step (.resume i) = some s') :
    s'.tokenCount = s.tokenCount ∧ s'.waiter = s.waiter ∧
      (∀ j, j ≠ i → s'.phase j = s.phase j) ∧ s'.waitList = s.waitList.erase i ∧
      i ∉ s'.waitList := by
  simp only [SemState.step, SemState.resume] at hs
  split at hs
  · next hphase =>
      cases hs
      have hi := h.lt_arrived (i := i) (by rw [hphase]; simp)
      have hlist : (if (s.waiter i).getResult = errorEtimedout then s.waitList.erase i
          else s.waitList) = s.waitList.erase i := by
        split
        · rfl
        · next hresult =>
            symm
            apply List.erase_of_not_mem
            intro hin
            exact hresult ((h.calls i hi).pending hin).getResult
      refine ⟨rfl, rfl, fun j hj => update_of_ne hj _ _, hlist, ?_⟩
      simp only
      rw [hlist]
      exact h.nodup.not_mem_erase
  · cases hs

/-- With positive counts every queued thread needs more than there is, the list is ordered by
priority number and arrival, each thread is completed once, by the action whose outcome it
reports, one that timed out leaves the list alone, and the tokens granted are the needs of the
calls that returned `ORBIS_OK` and of those about to. -/
theorem waiters_served_once {attr : ℕ} {initCount maxCount : ℤ}
    (hcreate : SemState.create attr initCount maxCount = some s₀) (hinit : IsS32 initCount)
    (h : Reachable SemState.step (fun s a => a.Positive s) s₀ s) :
    (∀ i ∈ s.waitList, s.tokenCount < (s.waiter i).needCount) ∧
      s.waitList.Pairwise (Before s.waiter) ∧ (attr = 1 → s.waitList.Pairwise (· < ·)) ∧
      (∀ i, i < s.arrived → CallOutcome (i ∈ s.waitList) (s.waiter i) (s.phase i)) ∧
      s.granted = returnedNeed s + inFlightNeed s ∧
      ∀ a s', a.Positive s → s.step a = some s' →
        (∀ i, Completes s s' a i) ∧
          ∀ i, a = .resume i → s'.tokenCount = s.tokenCount ∧ s'.waiter = s.waiter ∧
            (∀ j, j ≠ i → s'.phase j = s.phase j) ∧ s'.waitList = s.waitList.erase i ∧
            i ∉ s'.waitList := by
  have hboth : (Sound s ∧ s.isFifo = decide (attr = 1)) ∧ Short s := by
    apply h.invariant (P := fun s => (Sound s ∧ s.isFifo = decide (attr = 1)) ∧ Short s)
    · refine ⟨⟨Sound.create hcreate hinit, ?_⟩, ?_⟩
      all_goals
        unfold SemState.create at hcreate
        split at hcreate
        · cases hcreate
        · cases hcreate
          first
            | rfl
            | exact fun i hi => absurd hi List.not_mem_nil
    · intro s s' a hs ha hstep
      exact ⟨⟨hs.1.1.step (hs.1.1.inRange ha) hstep, (const_step hstep).2.2.trans hs.1.2⟩,
        hs.1.1.short_step hs.2 ha hstep⟩
  obtain ⟨⟨hs, hfifo⟩, hshort⟩ := hboth
  refine ⟨hshort, hs.sorted, fun hattr => ?_, fun i hi => (hs.calls i hi).outcome, hs.granted_eq,
    fun a s' ha hstep => ⟨fun i => hs.completes (hs.inRange ha) hstep, ?_⟩⟩
  · have hprio := hs.fifo (by rw [hfifo, hattr]; rfl)
    apply hs.sorted.imp
    rintro i j (hlt | ⟨-, hlt⟩)
    · rw [hprio i, hprio j] at hlt
      exact absurd hlt (lt_irrefl 0)
    · exact hlt
  · rintro i rfl
    exact hs.resume_frame hstep

theorem waiters_served_once_sample : ∃ s₀ s, SemState.create 2 0 5 = some s₀ ∧
    run SemState.step s₀ [.wait 700 true 2 none, .wait 300 true 1 (some 20), .signal 1,
      .expire 1, .resume 1] = some s ∧ s.granted = returnedNeed s + inFlightNeed s := by
  obtain ⟨s₀, hs₀⟩ : ∃ s₀, SemState.create 2 0 5 = some s₀ := ⟨_, rfl⟩
  obtain ⟨s, hs⟩ : ∃ s, run SemState.step s₀ [.wait 700 true 2 none,
      .wait 300 true 1 (some 20), .signal 1, .expire 1, .resume 1] = some s := by
    cases hs₀
    exact ⟨_, rfl⟩
  refine ⟨s₀, s, hs₀, hs, (waiters_served_once hs₀ (by decide)
    (reachable_of_run hs ?_)).2.2.2.2.1⟩
  cases hs₀
  refine ⟨⟨by decide, by decide⟩, fun _ h₁ => ⟨⟨by decide, by decide⟩, fun _ h₂ => ⟨?_, fun _ _ =>
    ⟨True.intro, fun _ _ => ⟨True.intro, fun _ _ => True.intro⟩⟩⟩⟩⟩
  cases h₁
  cases h₂
  decide

end OrbitConsole.Kernel
