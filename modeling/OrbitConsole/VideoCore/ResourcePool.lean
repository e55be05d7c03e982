import OrbitConsole.VideoCore.MasterSemaphore
import Mathlib.Data.List.GetD
import Mathlib.Data.List.Nodup

/-!
# Resource pools

A resource that is committed is stamped with the current tick and may be used by the
GPU until the timeline semaphore reaches it. A pool looks at the last tick it knows of,
which another thread can refresh at any time.
-/

namespace OrbitConsole.VideoCore

open Transition

structure ResourcePool where
  growStep : ℕ
  hintIterator : ℕ := 0
  ticks : List ℕ := []

namespace ResourcePool

def search (p : ResourcePool) (gpuTick first last : ℕ) : Option ℕ :=
  (List.range' first (last - first)).find? fun iterator => p.ticks.getD iterator 0 ≤ gpuTick

def manageOverflow (p : ResourcePool) : ResourcePool :=
  { p with ticks := p.ticks ++ List.replicate p.growStep 0 }

def found (p : ResourcePool) (i tick : ℕ) : ResourcePool :=
  { p with ticks := p.ticks.set i tick, hintIterator := (i + 1) % p.ticks.length }

/-- `CommitResource`, which refreshes to `value` if the first search fails. Its lambda has captured
`gpu_tick` by value, so the searches behind the refresh compare with the tick from before it. -/
def commitResource (p : ResourcePool) (m : MasterSemaphore) (value : ℕ) :
    ResourcePool × MasterSemaphore × ℕ :=
  match p.search m.gpuTick p.hintIterator p.ticks.length with
  | some i => (p.found i m.currentTick, m, i)
  | none =>
    let gpuTick := m.gpuTick
    let m := m.refresh value
    match p.search gpuTick p.hintIterator p.ticks.length with
    | some i => (p.found i m.currentTick, m, i)
    | none =>
      match p.search gpuTick 0 p.hintIterator with
      | some i => (p.found i m.currentTick, m, i)
      | none => (p.manageOverflow.found p.ticks.length m.currentTick, m, p.ticks.length)

variable {p p' : ResourcePool} {m m' : MasterSemaphore} {value i : ℕ}

theorem length_found : (p.found i value).ticks.length = p.ticks.length :=
  List.length_set

theorem search_eq_some {gpuTick first last : ℕ} (h : p.search gpuTick first last = some i) :
    i < last ∧ p.ticks.getD i 0 ≤ gpuTick := by
  have hmem := List.mem_range'_1.1 (List.mem_of_find?_eq_some h)
  have hfree := List.find?_some h
  simp only [decide_eq_true_eq] at hfree
  exact ⟨by omega, hfree⟩

theorem search_eq_none {gpuTick first last : ℕ} (h : p.search gpuTick first last = none)
    (hfirst : first ≤ i) (hlast : i < last) : gpuTick < p.ticks.getD i 0 := by
  have hbusy := List.find?_eq_none.1 h i (List.mem_range'_1.2 (by omega))
  simpa using hbusy

/-- What a commit does: it takes a resource whose tick the GPU has passed, or grows a pool of
resources that are all in flight as far as was known before the refresh. -/
theorem commitResource_cases (hhint : p.hintIterator ≤ p.ticks.length) (hm : m.Ok)
    (hvalue : value ≤ m.counter) (h : p.commitResource m value = (p', m', i)) :
    (m' = m ∨ m' = m.refresh value) ∧
    ((i < p.ticks.length ∧ p.ticks.getD i 0 ≤ m.counter ∧ p' = p.found i m.currentTick) ∨
      (i = p.ticks.length ∧ (∀ j < p.ticks.length, m.gpuTick < p.ticks.getD j 0) ∧
        p' = p.manageOverflow.found i m.currentTick)) := by
  obtain ⟨-, -, htick, -⟩ := hm.refresh hvalue
  unfold commitResource at h
  split at h
  case h_1 hsome =>
    cases h
    obtain ⟨hlt, hfree⟩ := search_eq_some hsome
    exact ⟨.inl rfl, .inl ⟨hlt, Nat.le_trans hfree hm.known, rfl⟩⟩
  dsimp only at h
  split at h
  case h_1 hsome =>
    cases h
    obtain ⟨hlt, hfree⟩ := search_eq_some hsome
    exact ⟨.inr rfl, .inl ⟨hlt, Nat.le_trans hfree hm.known, by rw [htick]⟩⟩
  case h_2 hback =>
    split at h
    case h_1 hsome =>
      cases h
      obtain ⟨hlt, hfree⟩ := search_eq_some hsome
      exact ⟨.inr rfl, .inl ⟨by omega, Nat.le_trans hfree hm.known, by rw [htick]⟩⟩
    case h_2 hfront =>
      cases h
      refine ⟨.inr rfl, .inr ⟨rfl, fun j hj => ?_, by rw [htick]⟩⟩
      by_cases hj' : p.hintIterator ≤ j
      · exact search_eq_none hback hj' hj
      · exact search_eq_none hfront (Nat.zero_le j) (by omega)

end ResourcePool

/-- A pool in use; `commits` are the resources that were handed out, each with its tick. -/
structure PoolRun where
  semaphore : MasterSemaphore := {}
  pool : ResourcePool
  commits : List (ℕ × ℕ) := []

namespace PoolRun

inductive Action
  | semaphore (a : MasterSemaphore.Action)
  | commit (value : ℕ)

/-- Each `Refresh` of a commit reads a value that the semaphore has had. -/
def step (s : PoolRun) : Action → Option PoolRun
  | .semaphore a => (s.semaphore.step a).map fun m => { s with semaphore := m }
  | .commit value =>
      if value ≤ s.semaphore.counter then
        let r := s.pool.commitResource s.semaphore value
        some { pool := r.1, semaphore := r.2.1
               commits := (r.2.2, s.semaphore.currentTick) :: s.commits }
      else none

structure Inv (s : PoolRun) : Prop where
  semaphore : s.semaphore.Ok
  grows : 0 < s.pool.growStep
  hint : s.pool.hintIterator ≤ s.pool.ticks.length
  index : ∀ c ∈ s.commits, c.1 < s.pool.ticks.length
  stamp : ∀ c ∈ s.commits, c.2 ≤ s.pool.ticks.getD c.1 0
  past : ∀ i, s.pool.ticks.getD i 0 ≤ s.semaphore.currentTick

variable {s s' : PoolRun} {value : ℕ}

theorem getD_set {l : List ℕ} {i j x : ℕ} (h : i < l.length) :
    (l.set i x).getD j 0 = if i = j then x else l.getD j 0 := by
  simp only [List.getD_eq_getElem?_getD, List.getElem?_set, h, if_true]
  split <;> rfl

theorem getD_grown {l : List ℕ} {n j : ℕ} : (l ++ List.replicate n 0).getD j 0 = l.getD j 0 := by
  rcases Nat.lt_or_ge j l.length with hj | hj
  · rw [List.getD_append _ _ _ _ hj]
  · rw [List.getD_append_right _ _ _ _ hj, List.getD_eq_default _ _ hj]
    simp [List.getD_eq_getElem?_getD, List.getElem?_replicate]
    split <;> rfl

/-- A resource of the pool that is not in flight is stamped with the current tick. -/
theorem Inv.found (h : s.Inv) {m' : MasterSemaphore} (hm : m'.Ok)
    (htick : m'.currentTick = s.semaphore.currentTick) {p : ResourcePool} {i : ℕ}
    (hgrow : 0 < p.growStep) (hlen : s.pool.ticks.length ≤ p.ticks.length)
    (hget : ∀ j, p.ticks.getD j 0 = s.pool.ticks.getD j 0) (hi : i < p.ticks.length) :
    Inv { pool := p.found i s.semaphore.currentTick, semaphore := m',
          commits := (i, s.semaphore.currentTick) :: s.commits } where
  semaphore := hm
  grows := hgrow
  hint := by
    change (i + 1) % p.ticks.length ≤ (p.ticks.set i _).length
    rw [List.length_set]
    exact Nat.le_of_lt (Nat.mod_lt _ (by omega))
  index := by
    change ∀ c ∈ _ :: _, _ < (p.ticks.set i _).length
    rw [List.length_set]
    rintro c (_ | ⟨_, hc⟩)
    · exact hi
    · exact Nat.lt_of_lt_of_le (h.index c hc) hlen
  stamp := by
    rintro c (_ | ⟨_, hc⟩)
    · refine Nat.le_of_eq ?_
      change _ = (p.ticks.set i _).getD i 0
      rw [getD_set hi, if_pos rfl]
    · change _ ≤ (p.ticks.set i _).getD c.1 0
      rw [getD_set hi]
      split
      · exact Nat.le_trans (h.stamp c hc) (h.past c.1)
      · rw [hget]
        exact h.stamp c hc
  past j := by
    change (p.ticks.set i _).getD j 0 ≤ m'.currentTick
    rw [getD_set hi, htick]
    split
    · exact Nat.le_refl _
    · rw [hget]
      exact h.past j

theorem commit_spec (h : s.Inv) (hs : s.step (.commit value) = some s') :
    s'.Inv ∧ ∃ i, s'.commits = (i, s.semaphore.currentTick) :: s.commits ∧
      i < s'.pool.ticks.length ∧ (∀ tick, (i, tick) ∈ s.commits → tick ≤ s.semaphore.counter) ∧
      (s.pool.ticks.length < s'.pool.ticks.length →
        ∀ j < s.pool.ticks.length, s.semaphore.gpuTick < s.pool.ticks.getD j 0) := by
  simp only [step, Option.ite_none_right_eq_some, Option.some.injEq] at hs
  obtain ⟨hvalue, rfl⟩ := hs
  obtain ⟨hok, -, htick, -⟩ := h.semaphore.refresh hvalue
  generalize hr : s.pool.commitResource s.semaphore value = r
  obtain ⟨p', m', i⟩ := r
  obtain ⟨hm', hcase⟩ := ResourcePool.commitResource_cases h.hint h.semaphore hvalue hr
  have hm : m'.Ok ∧ m'.currentTick = s.semaphore.currentTick := by
    obtain rfl | rfl := hm'
    · exact ⟨h.semaphore, rfl⟩
    · exact ⟨hok, htick⟩
  obtain ⟨hi, hfree, rfl⟩ | ⟨rfl, hbusy, rfl⟩ := hcase
  · refine ⟨h.found hm.1 hm.2 h.grows (Nat.le_refl _) (fun _ => rfl) hi, i, rfl,
      Nat.lt_of_lt_of_eq hi ResourcePool.length_found.symm,
      fun tick hmem => Nat.le_trans (h.stamp _ hmem) hfree, fun hgrown => ?_⟩
    exact absurd (Nat.lt_of_lt_of_eq hgrown ResourcePool.length_found) (Nat.lt_irrefl _)
  · have hi : s.pool.ticks.length < s.pool.manageOverflow.ticks.length := by
      have hgrow := h.grows
      simp only [ResourcePool.manageOverflow, List.length_append, List.length_replicate]
      omega
    refine ⟨h.found hm.1 hm.2 h.grows (Nat.le_of_lt hi) (fun _ => getD_grown) hi, _, rfl,
      Nat.lt_of_lt_of_eq hi ResourcePool.length_found.symm,
      fun tick hmem => absurd (h.index _ hmem) (Nat.lt_irrefl _), fun _ => hbusy⟩

/-- A commit stamps a resource with the current tick. -/
theorem inv_step {a : Action} (h : s.Inv) (hs : s.step a = some s') : s'.Inv := by
  cases a with
  | semaphore a =>
      obtain ⟨m, hm, rfl⟩ := Option.map_eq_some_iff.1 hs
      obtain ⟨hok, -, htick, -⟩ := h.semaphore.step hm
      exact { h with semaphore := hok, past := fun i => Nat.le_trans (h.past i) htick }
  | commit value => exact (commit_spec h hs).1

/-- In every run a commit hands out a resource that the GPU is done with, whoever had it before,
and the pool grows only if every resource in it was in flight as far as was known before the
refresh, whatever the refresh has read. -/
theorem commits_not_in_flight (growStep : ℕ) (hgrow : 0 < growStep) (s s' : PoolRun) (value : ℕ)
    (h : Reachable step (fun _ _ => True) { pool := { growStep := growStep } } s)
    (hs : s.step (.commit value) = some s') :
    ∃ i, s'.commits = (i, s.semaphore.currentTick) :: s.commits ∧ i < s'.pool.ticks.length ∧
      (∀ tick, (i, tick) ∈ s.commits →
        tick ≤ s.semaphore.counter ∧ tick < s.semaphore.currentTick) ∧
      (s.pool.ticks.length < s'.pool.ticks.length →
        ∀ j < s.pool.ticks.length, s.semaphore.gpuTick < s.pool.ticks.getD j 0) := by
  have hinv : s.Inv := h.invariant
    ⟨MasterSemaphore.ok_start, hgrow, Nat.le_refl _, by simp, by simp, fun _ => Nat.zero_le _⟩
    fun _ _ _ hinv _ hs => inv_step hinv hs
  obtain ⟨-, i, hcommits, hi, hfree, hgrown⟩ := commit_spec hinv hs
  exact ⟨i, hcommits, hi, fun tick hmem => ⟨hfree tick hmem,
    Nat.lt_of_le_of_lt (hfree tick hmem) hinv.semaphore.submitted⟩, hgrown⟩

/-- Both resources are committed, the GPU reaches their tick, and the third commit, whose refresh
reads it, grows the pool all the same. -/
theorem commits_not_in_flight_grown : ∃ s s' i,
    run step { pool := { growStep := 2 } } [.commit 0, .commit 0, .semaphore .submit,
      .semaphore (.signal 1)] = some s ∧
    s.step (.commit 1) = some s' ∧ s'.commits = [(i, 2), (1, 1), (0, 1)] ∧
    ∀ j < 2, s.semaphore.gpuTick < s.pool.ticks.getD j 0 := by
  have hrun : run step { pool := { growStep := 2 } } [.commit 0, .commit 0, .semaphore .submit,
      .semaphore (.signal 1)] = some _ := rfl
  obtain ⟨-, -, -, -, hgrown⟩ := commits_not_in_flight 2 (by decide) _ _ 1
    (reachable_of_run hrun (allOk_of_forall fun _ _ _ => trivial)) (Eq.refl (some _))
  exact ⟨_, _, 2, hrun, rfl, rfl, hgrown (by decide)⟩

end PoolRun

end OrbitConsole.VideoCore
