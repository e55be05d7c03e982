import OrbitConsole.Library.Transition
import Mathlib.Logic.Function.Basic
import Mathlib.Data.Nat.Notation

/-!
# The timeline semaphore

The known tick follows the value of the GPU. Any number of threads refresh it at once, each
with a compare-exchange in a loop.
-/

namespace OrbitConsole.VideoCore

open Transition

/-- `counter` is the value of the timeline semaphore, `gpuTick` the last one that was read. -/
structure MasterSemaphore where
  counter : ℕ := 0
  gpuTick : ℕ := 0
  currentTick : ℕ := 1

namespace MasterSemaphore

/-- `Refresh`, when it reads `value`. -/
def refresh (m : MasterSemaphore) (value : ℕ) : MasterSemaphore :=
  if value < m.gpuTick then m else { m with gpuTick := value }

def nextTick (m : MasterSemaphore) : MasterSemaphore := { m with currentTick := m.currentTick + 1 }

inductive Action
  | submit
  | signal (value : ℕ)
  | refresh (value : ℕ)

/-- The GPU signals what was submitted, and a refresh, also one of another thread, reads a value
that the semaphore has had. -/
def step (m : MasterSemaphore) : Action → Option MasterSemaphore
  | .submit => some m.nextTick
  | .signal value =>
      if m.counter ≤ value ∧ value < m.currentTick then some { m with counter := value } else none
  | .refresh value => if value ≤ m.counter then some (m.refresh value) else none

structure Ok (m : MasterSemaphore) : Prop where
  known : m.gpuTick ≤ m.counter
  submitted : m.counter < m.currentTick

variable {m m' : MasterSemaphore}

theorem ok_start : Ok {} := ⟨Nat.le_refl _, Nat.one_pos⟩

theorem Ok.refresh (h : m.Ok) {value : ℕ} (hvalue : value ≤ m.counter) :
    (m.refresh value).Ok ∧ (m.refresh value).counter = m.counter ∧
      (m.refresh value).currentTick = m.currentTick ∧ value ≤ (m.refresh value).gpuTick ∧
      m.gpuTick ≤ (m.refresh value).gpuTick := by
  unfold MasterSemaphore.refresh
  split
  case isTrue hlt => exact ⟨h, rfl, rfl, Nat.le_of_lt hlt, Nat.le_refl _⟩
  case isFalse hle => exact ⟨⟨hvalue, h.submitted⟩, rfl, rfl, Nat.le_refl _, Nat.le_of_not_lt hle⟩

/-- The counters only go up. -/
theorem Ok.step (h : m.Ok) {a : Action} (hs : m.step a = some m') :
    m'.Ok ∧ m.counter ≤ m'.counter ∧ m.currentTick ≤ m'.currentTick ∧ m.gpuTick ≤ m'.gpuTick := by
  cases a with
  | submit =>
      cases hs
      exact ⟨⟨h.known, Nat.lt_succ_of_lt h.submitted⟩, Nat.le_refl _, Nat.le_succ _, Nat.le_refl _⟩
  | signal value =>
      simp only [MasterSemaphore.step, Option.ite_none_right_eq_some, Option.some.injEq] at hs
      obtain ⟨⟨hle, hlt⟩, rfl⟩ := hs
      exact ⟨⟨Nat.le_trans h.known hle, hlt⟩, hle, Nat.le_refl _, Nat.le_refl _⟩
  | refresh value =>
      simp only [MasterSemaphore.step, Option.ite_none_right_eq_some, Option.some.injEq] at hs
      obtain ⟨hvalue, rfl⟩ := hs
      obtain ⟨hok, hcounter, htick, -, hknown⟩ := h.refresh hvalue
      exact ⟨hok, Nat.le_of_eq hcounter.symm, Nat.le_of_eq htick.symm, hknown⟩

end MasterSemaphore

/-! ### Refreshes that race -/

/-- Where a thread is in `Refresh`; `began` is the value of the GPU when the call began. -/
inductive RefreshPc
  | loop (began : ℕ)
  | loaded (began thisTick : ℕ)
  | read (began thisTick counter : ℕ)
  | returned (began : ℕ)

structure RefreshRun (ι : Type) where
  semaphore : MasterSemaphore := {}
  threads : ι → RefreshPc := fun _ => .returned 0

namespace RefreshRun

variable {ι : Type} [DecidableEq ι]

inductive Action (ι : Type)
  | semaphore (a : MasterSemaphore.Action)
  | thread (i : ι) (fails : Bool)

def put (s : RefreshRun ι) (i : ι) (pc : RefreshPc) : RefreshRun ι :=
  { s with threads := Function.update s.threads i pc }

/-- `compare_exchange_weak` may also fail for no reason. -/
def stepThread (s : RefreshRun ι) (i : ι) (fails : Bool) : RefreshRun ι :=
  match s.threads i with
  | .loop began => s.put i (.loaded began s.semaphore.gpuTick)
  | .loaded began thisTick =>
      if s.semaphore.counter < thisTick then s.put i (.returned began)
      else s.put i (.read began thisTick s.semaphore.counter)
  | .read began thisTick counter =>
      if s.semaphore.gpuTick = thisTick ∧ fails = false then
        { s.put i (.returned began) with semaphore := { s.semaphore with gpuTick := counter } }
      else s.put i (.loop began)
  | .returned _ => s.put i (.loop s.semaphore.counter)

def step (s : RefreshRun ι) : Action ι → Option (RefreshRun ι)
  | .semaphore a => (s.semaphore.step a).map fun m => { s with semaphore := m }
  | .thread i fails => some (s.stepThread i fails)

/-- What a thread knows. -/
def Knows (m : MasterSemaphore) : RefreshPc → Prop
  | .loop began => began ≤ m.counter
  | .loaded began thisTick => began ≤ m.counter ∧ thisTick ≤ m.gpuTick
  | .read began thisTick counter => began ≤ counter ∧ thisTick ≤ counter ∧ counter ≤ m.counter
  | .returned began => began ≤ m.gpuTick

structure Inv (s : RefreshRun ι) : Prop where
  ok : s.semaphore.Ok
  knows : ∀ i, Knows s.semaphore (s.threads i)

variable {s s' : RefreshRun ι} {m m' : MasterSemaphore}

theorem Knows.mono {pc : RefreshPc} (h : Knows m pc) (hcounter : m.counter ≤ m'.counter)
    (htick : m.gpuTick ≤ m'.gpuTick) : Knows m' pc := by
  cases pc with
  | loop => exact Nat.le_trans h hcounter
  | loaded => exact ⟨Nat.le_trans h.1 hcounter, Nat.le_trans h.2 htick⟩
  | read => exact ⟨h.1, h.2.1, Nat.le_trans h.2.2 hcounter⟩
  | returned => exact Nat.le_trans h htick

theorem Inv.set (h : s.Inv) {i : ι} {pc : RefreshPc} (hm : m.Ok)
    (hcounter : s.semaphore.counter ≤ m.counter) (htick : s.semaphore.gpuTick ≤ m.gpuTick)
    (hpc : Knows m pc) : Inv { s.put i pc with semaphore := m } := by
  refine ⟨hm, fun j => ?_⟩
  change Knows m (Function.update s.threads i pc j)
  by_cases hj : j = i
  · rw [hj, Function.update_self]
    exact hpc
  · rw [Function.update_of_ne hj]
    exact (h.knows j).mono hcounter htick

theorem inv_step {a : Action ι} (h : s.Inv) (hs : s.step a = some s') :
    s'.Inv ∧ s.semaphore.gpuTick ≤ s'.semaphore.gpuTick := by
  cases a with
  | semaphore a =>
      obtain ⟨m, hm, rfl⟩ := Option.map_eq_some_iff.1 hs
      obtain ⟨hok, hcounter, -, htick⟩ := h.ok.step hm
      exact ⟨⟨hok, fun i => (h.knows i).mono hcounter htick⟩, htick⟩
  | thread i fails =>
      cases hs
      have hknows := h.knows i
      have hset {pc : RefreshPc} (hpc : Knows s.semaphore pc) : (s.put i pc).Inv ∧ _ :=
        ⟨h.set h.ok (Nat.le_refl _) (Nat.le_refl _) hpc, Nat.le_refl s.semaphore.gpuTick⟩
      unfold stepThread
      cases hpc : s.threads i <;> rw [hpc] at hknows <;> dsimp only
      case loop began => exact hset ⟨hknows, Nat.le_refl _⟩
      case loaded began thisTick =>
        obtain ⟨hbegan, htick⟩ := hknows
        have := h.ok.known
        split
        case isTrue => exact hset (show began ≤ s.semaphore.gpuTick by omega)
        case isFalse hle => exact hset ⟨hbegan, Nat.le_of_not_lt hle, Nat.le_refl _⟩
      case read began thisTick counter =>
        obtain ⟨hbegan, htick, hcounter⟩ := hknows
        split
        case isTrue heq =>
          have hle : s.semaphore.gpuTick ≤ counter := heq.1 ▸ htick
          exact ⟨h.set ⟨hcounter, h.ok.submitted⟩ (Nat.le_refl _) hle hbegan, hle⟩
        case isFalse => exact hset (Nat.le_trans hbegan hcounter)
      case returned => exact hset (Nat.le_refl _)

/-- However refreshes race, the known tick only grows and is at most the value of the GPU, and a
thread that returns knows of every tick that the GPU had reached when it began. -/
theorem refresh_races (s s' : RefreshRun ι) (a : Action ι)
    (h : Reachable step (fun _ _ => True) {} s) (hs : s.step a = some s') :
    s.semaphore.gpuTick ≤ s'.semaphore.gpuTick ∧
      s'.semaphore.gpuTick ≤ s'.semaphore.counter ∧
      ∀ i began, s'.threads i = .returned began → began ≤ s'.semaphore.gpuTick := by
  have hinv : s.Inv := h.invariant ⟨MasterSemaphore.ok_start, fun _ => Nat.zero_le _⟩
    fun _ _ _ hinv _ hs => (inv_step hinv hs).1
  obtain ⟨hinv', htick⟩ := inv_step hinv hs
  refine ⟨htick, hinv'.ok.known, fun i began hpc => ?_⟩
  have hknows := hinv'.knows i
  rw [hpc] at hknows
  exact hknows

/-- Both threads have read the value 1; the first exchange wins and the second one fails. -/
theorem refresh_races_twoThreads : ∃ s s' : RefreshRun Bool,
    run step {} [.semaphore .submit, .semaphore (.signal 1), .thread true false,
      .thread false false, .thread true false, .thread false false, .thread true false,
      .thread false false, .thread true false] = some s ∧
    s.step (.thread false false) = some s' ∧ s'.threads true = .returned 1 ∧
    s'.threads false = .loop 1 ∧ 1 ≤ s'.semaphore.gpuTick ∧
    s.semaphore.gpuTick ≤ s'.semaphore.gpuTick := by
  have hrun : run step ({} : RefreshRun Bool) [.semaphore .submit, .semaphore (.signal 1),
      .thread true false, .thread false false, .thread true false, .thread false false,
      .thread true false, .thread false false, .thread true false] = some _ := rfl
  have hraces := refresh_races _ _ (.thread false false)
    (reachable_of_run hrun (allOk_of_forall fun _ _ _ => trivial)) (Eq.refl (some _))
  exact ⟨_, _, hrun, rfl, rfl, rfl, hraces.2.2 true 1 rfl, hraces.1⟩

end RefreshRun

end OrbitConsole.VideoCore
