import Mathlib.Algebra.BigOperators.Group.Finset.Basic
import Mathlib.Algebra.BigOperators.Group.Finset.Piecewise
import Mathlib.Data.List.TakeWhile
import OrbitConsole.Core.Kernel.Semaphore

/-!
# Semaphores over all runs

Which counts keep the tokens in range, and who is served when. `Queued` and the
flags of a waiting thread exclude each other, so a thread is completed once; the
order of the list and the needs of the queued threads are invariants of every
run with positive counts.
-/

namespace OrbitConsole.Kernel

open Function (update update_eq_self update_of_ne update_self)

open Memory (orbisOk errorEbusy)
open Transition

variable {s s' s₀ : SemState} {waiter : ℕ → WaitingThread} {waitList : List ℕ}

/-! ### The grant loop of `Signal` -/

def signaledNeed (waiter : ℕ → WaitingThread) (n : ℕ) : ℤ :=
  ∑ i ∈ Finset.range n, if (waiter i).wasSignaled then (waiter i).needCount else 0

theorem signaledNeed_update {n i : ℕ} {w : WaitingThread} (hi : i < n)
    (hwaiter : (waiter i).wasSignaled = false) :
    signaledNeed (update waiter i w) n =
      signaledNeed waiter n + if w.wasSignaled then w.needCount else 0 := by
  have hmem : i ∈ Finset.range n := Finset.mem_range.2 hi
  unfold signaledNeed
  rw [← Finset.add_sum_erase _ _ hmem, ← Finset.add_sum_erase (Finset.range n) _ hmem]
  have hrest : ∀ j ∈ (Finset.range n).erase i,
      (if (update waiter i w j).wasSignaled then
        (update waiter i w j).needCount else 0) =
      if (waiter j).wasSignaled then (waiter j).needCount else 0 := by
    intro j hj
    rw [update_of_ne (Finset.ne_of_mem_erase hj)]
  rw [Finset.sum_congr rfl hrest, update_self, hwaiter]
  simp only [Bool.false_eq_true, if_false]
  rw [zero_add, add_comm]

theorem signaledNeed_congr {waiter' : ℕ → WaitingThread} {n : ℕ}
    (h : ∀ i < n, (waiter' i).wasSignaled = (waiter i).wasSignaled ∧
      (waiter' i).needCount = (waiter i).needCount) :
    signaledNeed waiter' n = signaledNeed waiter n := by
  apply Finset.sum_congr rfl
  intro i hi
  obtain ⟨hflag, hneed⟩ := h i (Finset.mem_range.1 hi)
  rw [hflag, hneed]

/-- What the loop does with positive needs: it keeps a part of the list, whose threads all
need more than is left; it signals the others and pays their needs. -/
structure Granted (waitList : List ℕ) (tokenCount : ℤ) (waiter : ℕ → WaitingThread)
    (r : List ℕ × ℤ × (ℕ → WaitingThread)) : Prop where
  sublist : r.1.Sublist waitList
  kept : ∀ i ∈ r.1, r.2.1 < (waiter i).needCount
  waiter_eq : ∀ i, r.2.2 i = if i ∈ waitList ∧ i ∉ r.1 then (waiter i).signaled else waiter i
  le : r.2.1 ≤ tokenCount
  nonneg : 0 ≤ r.2.1
  paid : ∀ n, (∀ i ∈ waitList, i < n ∧ (waiter i).wasSignaled = false) →
    signaledNeed r.2.2 n = signaledNeed waiter n + (tokenCount - r.2.1)

theorem grant_spec {tokenCount : ℤ} (hnodup : waitList.Nodup)
    (hpos : ∀ i ∈ waitList, 1 ≤ (waiter i).needCount) (htoken : 0 ≤ tokenCount)
    (hlt : tokenCount < 2147483648) :
    Granted waitList tokenCount waiter (SemState.grant waitList tokenCount waiter) := by
  induction waitList generalizing tokenCount waiter with
  | nil =>
      refine ⟨List.Sublist.refl _, fun i hi => absurd hi List.not_mem_nil, fun i => ?_,
        le_rfl, htoken, fun n _ => ?_⟩
      · simp [SemState.grant]
      · simp [SemState.grant]
  | cons i rest ih =>
      obtain ⟨hi, hrest⟩ := List.nodup_cons.1 hnodup
      have hneed := hpos i List.mem_cons_self
      unfold SemState.grant
      split
      · next hmore =>
          have h := ih hrest (fun j hj => hpos j (List.mem_cons_of_mem i hj)) htoken hlt
          refine ⟨h.sublist.cons_cons i, ?_, fun j => ?_, h.le, h.nonneg, fun n hn => ?_⟩
          · intro j hj
            rcases List.mem_cons.1 hj with rfl | hj
            · exact h.le.trans_lt hmore
            · exact h.kept j hj
          · rw [h.waiter_eq]
            by_cases hji : j = i
            · subst hji
              simp [hi]
            · simp [hji]
          · exact h.paid n fun j hj => hn j (List.mem_cons_of_mem i hj)
      · next henough =>
          have hle : (waiter i).needCount ≤ tokenCount := not_lt.1 henough
          rw [wrap32_eq (by omega) (by omega)]
          have hother : ∀ j ∈ rest,
              update waiter i (waiter i).signaled j = waiter j := by
            intro j hj
            apply update_of_ne
            rintro rfl
            exact hi hj
          have hpos' : ∀ j ∈ rest,
              1 ≤ (update waiter i (waiter i).signaled j).needCount := by
            intro j hj
            rw [hother j hj]
            exact hpos j (List.mem_cons_of_mem i hj)
          have hnonneg : 0 ≤ tokenCount - (waiter i).needCount := by omega
          have hless : tokenCount - (waiter i).needCount < 2147483648 := by omega
          have h := ih hrest hpos' hnonneg hless
          refine ⟨h.sublist.cons i, fun j hj => ?_, fun j => ?_, ?_, h.nonneg, fun n hn => ?_⟩
          · have := h.kept j hj
            rwa [hother j (h.sublist.subset hj)] at this
          · rw [h.waiter_eq]
            by_cases hji : j = i
            · subst hji
              have hout : j ∉ (SemState.grant rest (tokenCount - (waiter j).needCount)
                  (update waiter j (waiter j).signaled)).1 :=
                fun hmem => hi (h.sublist.subset hmem)
              rw [if_neg (fun hmem => hi hmem.1), update_self,
                if_pos ⟨List.mem_cons_self, hout⟩]
            · rw [update_of_ne hji]
              simp [hji]
          · have := h.le
            omega
          · obtain ⟨hin, hflag⟩ := hn i List.mem_cons_self
            have hpaid := h.paid n fun j hj => by
              rw [hother j hj]
              exact hn j (List.mem_cons_of_mem i hj)
            rw [hpaid, signaledNeed_update hin hflag]
            simp only [WaitingThread.signaled, if_true]
            omega

theorem markAll_eq {f : WaitingThread → WaitingThread} (hnodup : waitList.Nodup) (i : ℕ) :
    SemState.markAll f waitList waiter i = if i ∈ waitList then f (waiter i) else waiter i := by
  unfold SemState.markAll
  induction waitList generalizing waiter with
  | nil => simp
  | cons j rest ih =>
      obtain ⟨hj, hrest⟩ := List.nodup_cons.1 hnodup
      rw [List.foldl_cons, ih hrest]
      by_cases hij : i = j
      · subst hij
        simp [hj]
      · simp [hij]

/-! ### The order of the list -/

theorem mem_addWaiter {isFifo : Bool} {priority : ℕ → ℕ} {i j : ℕ} :
    j ∈ SemState.addWaiter isFifo priority waitList i ↔ j = i ∨ j ∈ waitList := by
  unfold SemState.addWaiter
  split
  · rw [List.mem_append, List.mem_singleton, or_comm]
  · rw [List.mem_append, List.mem_cons, or_left_comm, ← List.mem_append,
      List.takeWhile_append_dropWhile]

/-- Waiting threads are served by priority number, and by arrival when that is the same. -/
def Before (waiter : ℕ → WaitingThread) (i j : ℕ) : Prop :=
  (waiter i).priority < (waiter j).priority ∨
    (waiter i).priority = (waiter j).priority ∧ i < j

theorem Before.ne {i j : ℕ} (h : Before waiter i j) : i ≠ j := by
  rintro rfl
  rcases h with h | ⟨-, h⟩ <;> exact lt_irrefl _ h

theorem nodup_of_sorted (h : waitList.Pairwise (Before waiter)) : waitList.Nodup :=
  h.imp Before.ne

theorem before_congr {waiter' : ℕ → WaitingThread}
    (h : ∀ i, (waiter' i).priority = (waiter i).priority)
    (hsorted : waitList.Pairwise (Before waiter)) : waitList.Pairwise (Before waiter') := by
  apply hsorted.imp
  intro i j hij
  unfold Before
  rw [h, h]
  exact hij

theorem lt_priority_of_mem_dropWhile {p : ℕ} (h : waitList.Pairwise (Before waiter)) {j : ℕ}
    (hj : j ∈ waitList.dropWhile fun i => (waiter i).priority ≤ p) :
    p < (waiter j).priority := by
  induction waitList with
  | nil => exact absurd hj List.not_mem_nil
  | cons i rest ih =>
      obtain ⟨hi, hrest⟩ := List.pairwise_cons.1 h
      rw [List.dropWhile_cons] at hj
      split at hj
      · exact ih hrest hj
      · next hgt =>
          have hgt : p < (waiter i).priority := by simpa using hgt
          rcases List.mem_cons.1 hj with rfl | hj
          · exact hgt
          · rcases hi j hj with hlt | ⟨heq, -⟩
            · exact hgt.trans hlt
            · rwa [← heq]

theorem sorted_addWaiter {isFifo : Bool} {i : ℕ} (h : waitList.Pairwise (Before waiter))
    (hlatest : ∀ j ∈ waitList, j < i) (hfifo : isFifo = true → ∀ j, (waiter j).priority = 0) :
    (SemState.addWaiter isFifo (fun j => (waiter j).priority) waitList i).Pairwise
      (Before waiter) := by
  unfold SemState.addWaiter
  split
  · next hfirst =>
      refine List.pairwise_append.2 ⟨h, List.pairwise_singleton _ _, fun j hj k hk => ?_⟩
      obtain rfl := List.mem_singleton.1 hk
      exact .inr ⟨by rw [hfifo hfirst, hfifo hfirst], hlatest j hj⟩
  · have hsplit := h
    rw [← List.takeWhile_append_dropWhile
      (p := fun j => decide ((waiter j).priority ≤ (waiter i).priority)) (l := waitList),
      List.pairwise_append] at hsplit
    obtain ⟨htake, hdrop, hcross⟩ := hsplit
    have hbehind : ∀ j ∈ waitList.dropWhile fun j => (waiter j).priority ≤ (waiter i).priority,
        (waiter i).priority < (waiter j).priority :=
      fun j hj => lt_priority_of_mem_dropWhile h hj
    refine List.pairwise_append.2 ⟨htake, List.pairwise_cons.2 ⟨fun j hj => ?_, hdrop⟩,
      fun j hj k hk => ?_⟩
    · exact .inl (hbehind j hj)
    · rcases List.mem_cons.1 hk with rfl | hk
      · have hle : (waiter j).priority ≤ (waiter k).priority := by
          simpa using List.mem_takeWhile_imp hj
        rcases hle.lt_or_eq with hlt | heq
        · exact .inl hlt
        · exact .inr ⟨heq, hlatest j ((List.takeWhile_sublist _).subset hj)⟩
      · exact hcross j hj k hk

/-! ### One call of `Wait` -/

namespace WaitingThread

/-- No call has completed the thread yet. -/
def Pending (w : WaitingThread) : Prop :=
  w.wasSignaled = false ∧ w.wasDeleted = false ∧ w.wasCanceled = false

/-- One call has completed it, and only one. -/
def Completed (w : WaitingThread) : Prop :=
  (w.wasSignaled = true ∧ w.wasDeleted = false ∧ w.wasCanceled = false) ∨
    (w.wasSignaled = false ∧ w.wasDeleted = true ∧ w.wasCanceled = false) ∨
    (w.wasSignaled = false ∧ w.wasDeleted = false ∧ w.wasCanceled = true)

theorem Pending.getResult {w : WaitingThread} (h : w.Pending) :
    w.getResult = errorEtimedout := by
  obtain ⟨h₁, h₂, h₃⟩ := h
  simp [WaitingThread.getResult, h₁, h₂, h₃]

theorem Completed.getResult_ne {w : WaitingThread} (h : w.Completed) :
    w.getResult ≠ errorEtimedout := by
  rcases h with ⟨h₁, h₂, h₃⟩ | ⟨h₁, h₂, h₃⟩ | ⟨h₁, h₂, h₃⟩ <;>
    simp [WaitingThread.getResult, h₁, h₂, h₃, orbisOk, errorEacces, errorEcanceled,
      errorEtimedout]

end WaitingThread

/-- How far a waiting thread is: still queued, completed by a call, or timed out. A thread
that was completed while it sleeps has the token it needs to wake up. -/
inductive CallOk (queued : Prop) (w : WaitingThread) (phase : WaitPhase) : Prop
  | queued (hq : queued) (hw : w.Pending) (hsem : w.sem = 0)
      (hphase : (∃ timed, phase = .blocked timed) ∨ phase = .woken)
  | completed (hq : ¬ queued) (hw : w.Completed) (hsem : w.sem ≤ 1)
      (hphase : (∃ timed, phase = .blocked timed ∧ w.sem = 1) ∨ phase = .woken ∨
        phase = .returned w.getResult)
  | timedOut (hq : ¬ queued) (hw : w.Pending) (hsem : w.sem = 0)
      (hphase : phase = .returned errorEtimedout)

theorem CallOk.congr {q q' : Prop} {w : WaitingThread} {phase : WaitPhase}
    (h : CallOk q w phase) (hq : q ↔ q') : CallOk q' w phase := by
  cases h with
  | queued h hw hsem hphase => exact .queued (hq.1 h) hw hsem hphase
  | completed h hw hsem hphase => exact .completed (mt hq.2 h) hw hsem hphase
  | timedOut h hw hsem hphase => exact .timedOut (mt hq.2 h) hw hsem hphase

theorem CallOk.complete {q q' : Prop} {w w' : WaitingThread} {phase : WaitPhase}
    (h : CallOk q w phase) (hq : q) (hq' : ¬ q') (hw : w'.Completed)
    (hsem : w'.sem = w.sem + 1) : CallOk q' w' phase := by
  cases h with
  | queued _ _ hzero hphase =>
      refine .completed hq' hw (by omega) ?_
      rcases hphase with ⟨timed, hphase⟩ | hphase
      · exact .inl ⟨timed, hphase, by omega⟩
      · exact .inr (.inl hphase)
  | completed h => exact absurd hq h
  | timedOut h => exact absurd hq h

theorem CallOk.pending {w : WaitingThread} {q : Prop} {phase : WaitPhase}
    (h : CallOk q w phase) (hq : q) : w.Pending := by
  cases h with
  | queued _ hw => exact hw
  | completed h => exact absurd hq h
  | timedOut h => exact absurd hq h

/-! ### The invariant -/

/-- What holds between the calls as long as the tokens stay in range. -/
structure Sound (s : SemState) : Prop where
  init : 0 ≤ s.initCount ∧ s.initCount < 2147483648
  token : 0 ≤ s.tokenCount ∧ s.tokenCount < 2147483648
  arrived : ∀ i ∈ s.waitList, i < s.arrived
  absent : ∀ i, s.arrived ≤ i → s.phase i = .absent ∧ s.waiter i = {}
  sorted : s.waitList.Pairwise (Before s.waiter)
  fifo : s.isFifo = true → ∀ i, (s.waiter i).priority = 0
  need_pos : ∀ i < s.arrived, 1 ≤ (s.waiter i).needCount
  calls : ∀ i < s.arrived, CallOk (i ∈ s.waitList) (s.waiter i) (s.phase i)
  granted : s.granted = signaledNeed s.waiter s.arrived

theorem Sound.nodup (h : Sound s) : s.waitList.Nodup := nodup_of_sorted h.sorted

theorem Sound.lt_arrived (h : Sound s) {i : ℕ} (hi : s.phase i ≠ .absent) : i < s.arrived := by
  by_contra hle
  exact hi (h.absent i (not_lt.1 hle)).1

def SemAction.InRange (s : SemState) : SemAction → Prop
  | .wait _ _ needCount _ =>
      needCount ≤ s.tokenCount → s.tokenCount - needCount < 2147483648
  | .signal signalCount =>
      0 ≤ s.tokenCount + signalCount ∧ s.tokenCount + signalCount < 2147483648
  | .cancel setCount => setCount < 2147483648
  | _ => True

theorem Sound.create {attr : ℕ} {initCount maxCount : ℤ}
    (h : SemState.create attr initCount maxCount = some s) (hinit : IsS32 initCount) :
    Sound s := by
  unfold SemState.create at h
  split at h
  · cases h
  · next hcheck =>
      cases h
      simp only [not_or, not_lt] at hcheck
      refine ⟨⟨hcheck.2.1, hinit.2⟩, ⟨hcheck.2.1, hinit.2⟩, ?_, ?_, ?_, ?_, ?_, ?_, ?_⟩
      · exact fun i hi => absurd hi List.not_mem_nil
      · exact fun i _ => ⟨rfl, rfl⟩
      · exact List.Pairwise.nil
      · exact fun _ _ => rfl
      · exact fun i hi => absurd hi (Nat.not_lt_zero i)
      · exact fun i hi => absurd hi (Nat.not_lt_zero i)
      · rfl

theorem Sound.setToken (h : Sound s) {tokenCount : ℤ}
    (htoken : 0 ≤ tokenCount ∧ tokenCount < 2147483648) :
    Sound { s with tokenCount := tokenCount } :=
  ⟨h.init, htoken, h.arrived, h.absent, h.sorted, h.fifo, h.need_pos, h.calls, h.granted⟩

theorem Sound.enqueue (h : Sound s) {needCount : ℤ} {priority : ℕ} {timed : Bool}
    (hneed : s.tokenCount < needCount) :
    let w : WaitingThread :=
      { priority := if s.isFifo then 0 else priority, needCount := needCount }
    let waiter := update s.waiter s.arrived w
    Sound { s with
      waitList := SemState.addWaiter s.isFifo (fun i => (waiter i).priority) s.waitList s.arrived
      waiter := waiter
      phase := update s.phase s.arrived (.blocked timed)
      arrived := s.arrived + 1 } := by
  intro w waiter
  have hold : ∀ i < s.arrived, waiter i = s.waiter i :=
    fun i hi => update_of_ne hi.ne _ _
  have hnew : waiter s.arrived = w := update_self _ _ _
  have hfifo : s.isFifo = true → ∀ i, (waiter i).priority = 0 := by
    intro hf i
    by_cases hi : i = s.arrived
    · rw [hi, hnew]
      simp only [w, hf, if_true]
    · change (update s.waiter s.arrived w i).priority = 0
      rw [update_of_ne hi]
      exact h.fifo hf i
  have hsorted : s.waitList.Pairwise (Before waiter) := by
    apply List.Pairwise.imp_of_mem _ h.sorted
    intro i j hi hj hij
    unfold Before
    rw [hold i (h.arrived i hi), hold j (h.arrived j hj)]
    exact hij
  refine ⟨h.init, h.token, fun i hi => ?_, fun i hi => ?_,
    sorted_addWaiter hsorted h.arrived hfifo, hfifo, fun i hi => ?_, fun i hi => ?_, ?_⟩
  · rcases mem_addWaiter.1 hi with rfl | hi
    · exact Nat.lt_succ_self _
    · exact Nat.lt_succ_of_lt (h.arrived i hi)
  · have hne : i ≠ s.arrived := by
      rintro rfl
      exact absurd hi (Nat.not_succ_le_self _)
    change update s.phase s.arrived _ i = _ ∧ update s.waiter s.arrived w i = _
    rw [update_of_ne hne, update_of_ne hne]
    exact h.absent i (Nat.le_of_succ_le hi)
  · change 1 ≤ (waiter i).needCount
    rcases Nat.lt_succ_iff_lt_or_eq.1 hi with hi | rfl
    · rw [hold i hi]
      exact h.need_pos i hi
    · rw [hnew]
      have := h.token.1
      change 1 ≤ needCount
      omega
  · change CallOk (i ∈ SemState.addWaiter _ _ _ _) (waiter i)
      (update s.phase s.arrived (.blocked timed) i)
    rcases Nat.lt_succ_iff_lt_or_eq.1 hi with hi | rfl
    · rw [hold i hi, update_of_ne hi.ne]
      exact (h.calls i hi).congr (by rw [mem_addWaiter, or_iff_right hi.ne])
    · rw [hnew, update_self]
      exact .queued (mem_addWaiter.2 (.inl rfl)) ⟨rfl, rfl, rfl⟩ rfl (.inl ⟨timed, rfl⟩)
  · change s.granted = signaledNeed waiter (s.arrived + 1)
    rw [h.granted]
    unfold signaledNeed
    rw [Finset.sum_range_succ, hnew]
    simp only [w, Bool.false_eq_true, if_false, add_zero]
    apply Finset.sum_congr rfl
    intro i hi
    rw [hold i (Finset.mem_range.1 hi)]

theorem Sound.complete (h : Sound s) {waitList' : List ℕ} {waiter' : ℕ → WaitingThread}
    {tokenCount granted : ℤ} {f : WaitingThread → WaitingThread}
    (hf : ∀ w : WaitingThread, w.Pending → (f w).Completed) (hsem : ∀ w, (f w).sem = w.sem + 1)
    (hpriority : ∀ w, (f w).priority = w.priority) (hneed : ∀ w, (f w).needCount = w.needCount)
    (hsublist : waitList'.Sublist s.waitList)
    (hwaiter : ∀ i, waiter' i = if i ∈ s.waitList ∧ i ∉ waitList' then f (s.waiter i)
      else s.waiter i)
    (htoken : 0 ≤ tokenCount ∧ tokenCount < 2147483648)
    (hgranted : granted = signaledNeed waiter' s.arrived) :
    Sound { s with
      waitList := waitList'
      tokenCount := tokenCount
      waiter := waiter'
      granted := granted } := by
  have hsame : ∀ i, (waiter' i).priority = (s.waiter i).priority ∧
      (waiter' i).needCount = (s.waiter i).needCount := by
    intro i
    rw [hwaiter]
    split
    · exact ⟨hpriority _, hneed _⟩
    · exact ⟨rfl, rfl⟩
  refine ⟨h.init, htoken, fun i hi => h.arrived i (hsublist.subset hi), fun i hi => ?_,
    before_congr (fun i => (hsame i).1) (h.sorted.sublist hsublist), fun hf i => ?_,
    fun i hi => ?_, fun i hi => ?_, hgranted⟩
  · have hout : i ∉ s.waitList := fun hmem => absurd (h.arrived i hmem) (not_lt.2 hi)
    change s.phase i = _ ∧ waiter' i = _
    rw [hwaiter, if_neg fun hmem => hout hmem.1]
    exact h.absent i hi
  · exact (hsame i).1.trans (h.fifo hf i)
  · change 1 ≤ (waiter' i).needCount
    rw [(hsame i).2]
    exact h.need_pos i hi
  · change CallOk (i ∈ waitList') (waiter' i) (s.phase i)
    have hcall := h.calls i hi
    rw [hwaiter]
    split
    · next hmem =>
        exact hcall.complete hmem.1 hmem.2 (hf _ (hcall.pending hmem.1)) (hsem _)
    · next hmem =>
        refine hcall.congr ⟨fun hin => ?_, fun hin => hsublist.subset hin⟩
        by_contra hout
        exact hmem ⟨hin, hout⟩

/-! ### The steps -/

theorem Sound.wait (h : Sound s) {priority : ℕ} {canBlock : Bool} {needCount : ℤ}
    {timeout : Option ℕ}
    (hrange : needCount ≤ s.tokenCount → s.tokenCount - needCount < 2147483648) :
    Sound (s.wait priority canBlock needCount timeout).1 := by
  unfold SemState.wait
  split
  · next hle =>
      have hlt := hrange hle
      rw [wrap32_eq (by omega) hlt]
      exact h.setToken ⟨by omega, hlt⟩
  · next hgt =>
      split
      · exact h
      split
      · exact h
      · exact h.enqueue (not_le.1 hgt)

theorem Sound.granted_of_signal (h : Sound s) {signalCount : ℤ}
    (hrange : 0 ≤ s.tokenCount + signalCount ∧ s.tokenCount + signalCount < 2147483648) :
    Granted s.waitList (s.tokenCount + signalCount) s.waiter
      (SemState.grant s.waitList (s.tokenCount + signalCount) s.waiter) :=
  grant_spec h.nodup (fun i hi => h.need_pos i (h.arrived i hi)) hrange.1 hrange.2

theorem Sound.paid_of_signal (h : Sound s) {signalCount : ℤ}
    (hrange : 0 ≤ s.tokenCount + signalCount ∧ s.tokenCount + signalCount < 2147483648) :
    signaledNeed (SemState.grant s.waitList (s.tokenCount + signalCount) s.waiter).2.2 s.arrived =
      s.granted + (s.tokenCount + signalCount -
        (SemState.grant s.waitList (s.tokenCount + signalCount) s.waiter).2.1) := by
  rw [h.granted]
  apply (h.granted_of_signal hrange).paid
  intro i hi
  have hlt := h.arrived i hi
  exact ⟨hlt, ((h.calls i hlt).pending hi).1⟩

theorem Sound.signal (h : Sound s) {signalCount : ℤ}
    (hrange : 0 ≤ s.tokenCount + signalCount ∧ s.tokenCount + signalCount < 2147483648) :
    Sound (s.signal signalCount).1 := by
  unfold SemState.signal
  split
  · exact h
  rw [wrap32_eq (by omega) hrange.2]
  have hgrant := h.granted_of_signal hrange
  refine h.complete (f := WaitingThread.signaled) ?_ (fun _ => rfl) (fun _ => rfl)
    (fun _ => rfl) hgrant.sublist hgrant.waiter_eq ⟨hgrant.nonneg, ?_⟩ ?_
  · rintro w ⟨-, hdeleted, hcanceled⟩
    exact .inl ⟨rfl, hdeleted, hcanceled⟩
  · exact hgrant.le.trans_lt hrange.2
  · exact (h.paid_of_signal hrange).symm

theorem signaledNeed_markAll {f : WaitingThread → WaitingThread}
    (hflag : ∀ w : WaitingThread, (f w).wasSignaled = w.wasSignaled)
    (hneed : ∀ w : WaitingThread, (f w).needCount = w.needCount) (hnodup : waitList.Nodup) (n : ℕ) :
    signaledNeed (SemState.markAll f waitList waiter) n = signaledNeed waiter n := by
  apply signaledNeed_congr
  intro i _
  rw [markAll_eq hnodup]
  split
  · exact ⟨hflag _, hneed _⟩
  · exact ⟨rfl, rfl⟩

theorem Sound.cancel (h : Sound s) {setCount : ℤ} (hrange : setCount < 2147483648) :
    Sound (s.cancel setCount).1 := by
  refine h.complete (f := WaitingThread.canceled) ?_ (fun _ => rfl) (fun _ => rfl)
    (fun _ => rfl) (List.nil_sublist _) (fun i => ?_) ?_ ?_
  · rintro w ⟨hsignaled, hdeleted, -⟩
    exact .inr (.inr ⟨hsignaled, hdeleted, rfl⟩)
  · rw [markAll_eq h.nodup]
    simp only [List.not_mem_nil, not_false_eq_true, and_true]
  · split
    · exact h.init
    · next hge => exact ⟨not_lt.1 hge, hrange⟩
  · rw [signaledNeed_markAll (f := WaitingThread.canceled) (fun _ => rfl) (fun _ => rfl) h.nodup]
    exact h.granted

theorem Sound.delete (h : Sound s) : Sound s.delete := by
  refine h.complete (f := WaitingThread.deleted) ?_ (fun _ => rfl) (fun _ => rfl)
    (fun _ => rfl) (List.nil_sublist _) (fun i => ?_) h.token ?_
  · rintro w ⟨hsignaled, -, hcanceled⟩
    exact .inr (.inl ⟨hsignaled, rfl, hcanceled⟩)
  · rw [markAll_eq h.nodup]
    simp only [List.not_mem_nil, not_false_eq_true, and_true]
  · rw [signaledNeed_markAll (f := WaitingThread.deleted) (fun _ => rfl) (fun _ => rfl) h.nodup]
    exact h.granted

theorem Sound.move (h : Sound s) {i : ℕ} (waitList' : List ℕ) (w : WaitingThread)
    (phase : WaitPhase) (hi : i < s.arrived)
    (hpriority : w.priority = (s.waiter i).priority)
    (hneed : w.needCount = (s.waiter i).needCount)
    (hflag : w.wasSignaled = (s.waiter i).wasSignaled)
    (hsublist : waitList'.Sublist s.waitList) (hmem : ∀ j ≠ i, j ∈ s.waitList → j ∈ waitList')
    (hcall : CallOk (i ∈ waitList') w phase) :
    Sound { s with
      waitList := waitList'
      waiter := update s.waiter i w
      phase := update s.phase i phase } := by
  have hprio : ∀ j, (update s.waiter i w j).priority = (s.waiter j).priority := by
    intro j
    by_cases hj : j = i
    · rw [hj, update_self, hpriority]
    · rw [update_of_ne hj]
  refine ⟨h.init, h.token, fun j hj => h.arrived j (hsublist.subset hj), fun j hj => ?_,
    before_congr hprio (h.sorted.sublist hsublist), fun hf j => (hprio j).trans (h.fifo hf j),
    fun j hj => ?_, fun j hj => ?_, ?_⟩
  · have hne : j ≠ i := by
      rintro rfl
      exact absurd hi (not_lt.2 hj)
    change update s.phase i phase j = _ ∧ update s.waiter i w j = _
    rw [update_of_ne hne, update_of_ne hne]
    exact h.absent j hj
  · change 1 ≤ (update s.waiter i w j).needCount
    by_cases hji : j = i
    · rw [hji, update_self, hneed]
      exact h.need_pos i hi
    · rw [update_of_ne hji]
      exact h.need_pos j hj
  · change CallOk (j ∈ waitList') (update s.waiter i w j)
      (update s.phase i phase j)
    by_cases hji : j = i
    · rw [hji, update_self, update_self]
      exact hcall
    · rw [update_of_ne hji, update_of_ne hji]
      exact (h.calls j hj).congr ⟨hmem j hji, fun hin => hsublist.subset hin⟩
  · change s.granted = signaledNeed (update s.waiter i w) s.arrived
    rw [h.granted]
    symm
    apply signaledNeed_congr
    intro j _
    by_cases hji : j = i
    · rw [hji, update_self]
      exact ⟨hflag, hneed⟩
    · rw [update_of_ne hji]
      exact ⟨rfl, rfl⟩

theorem Sound.acquire (h : Sound s) {i : ℕ} (hs : s.acquire i = some s') : Sound s' := by
  unfold SemState.acquire at hs
  split at hs
  · next timed hphase =>
      split at hs
      · cases hs
      · next hsem =>
          cases hs
          have hi := h.lt_arrived (i := i) (by rw [hphase]; simp)
          refine h.move s.waitList _ _ hi rfl rfl rfl (List.Sublist.refl _)
            (fun _ _ hj => hj) ?_
          cases h.calls i hi with
          | queued _ _ hzero => exact absurd hzero hsem
          | completed hq hw hle _ =>
              refine .completed hq hw ?_ (.inr (.inl rfl))
              change (s.waiter i).sem - 1 ≤ 1
              omega
          | timedOut _ _ hzero => exact absurd hzero hsem
  · cases hs

theorem Sound.expire (h : Sound s) {i : ℕ} (hs : s.expire i = some s') : Sound s' := by
  unfold SemState.expire at hs
  split at hs
  · next hphase =>
      cases hs
      have hi := h.lt_arrived (i := i) (by rw [hphase]; simp)
      have hmove := h.move s.waitList (s.waiter i) .woken hi rfl
        rfl rfl (List.Sublist.refl _) (fun _ _ hj => hj) ?_
      · rw [update_eq_self] at hmove
        exact hmove
      · cases h.calls i hi with
        | queued hq hw hzero _ => exact .queued hq hw hzero (.inr rfl)
        | completed hq hw hle _ => exact .completed hq hw hle (.inr (.inl rfl))
        | timedOut _ _ _ hp =>
            rw [hphase] at hp
            cases hp
  · cases hs

theorem Sound.resume (h : Sound s) {i : ℕ} (hs : s.resume i = some s') : Sound s' := by
  unfold SemState.resume at hs
  split at hs
  · next hphase =>
      cases hs
      have hi := h.lt_arrived (i := i) (by rw [hphase]; simp)
      have hmove := h.move
        (if (s.waiter i).getResult = errorEtimedout then s.waitList.erase i else s.waitList)
        (s.waiter i) (.returned (s.waiter i).getResult) hi rfl rfl rfl ?_ ?_ ?_
      · rw [update_eq_self] at hmove
        exact hmove
      · split
        · exact List.erase_sublist
        · exact List.Sublist.refl _
      · intro j hj hmem
        split
        · exact (List.mem_erase_of_ne hj).2 hmem
        · exact hmem
      · cases h.calls i hi with
        | queued hq hw hzero _ =>
            rw [hw.getResult, if_pos rfl]
            exact .timedOut (fun hmem => h.nodup.not_mem_erase hmem) hw hzero rfl
        | completed hq hw hle _ =>
            rw [if_neg hw.getResult_ne]
            exact .completed hq hw hle (.inr (.inr rfl))
        | timedOut _ _ _ hp =>
            rw [hphase] at hp
            cases hp
  · cases hs

/-- The tokens stay in range as long as the arguments do. -/
theorem Sound.step (h : Sound s) {a : SemAction} (hrange : a.InRange s)
    (hs : s.step a = some s') : Sound s' := by
  cases a with
  | wait priority canBlock needCount timeout =>
      cases hs
      exact h.wait hrange
  | acquire i => exact h.acquire hs
  | expire i => exact h.expire hs
  | resume i => exact h.resume hs
  | signal signalCount =>
      cases hs
      exact h.signal hrange
  | cancel setCount =>
      cases hs
      exact h.cancel hrange
  | delete =>
      cases hs
      exact h.delete

/-! ### The tokens stay in range -/

/-- The counts with which the tokens stay between zero and the maximum. -/
def SemAction.Fits (s : SemState) : SemAction → Prop
  | .wait _ _ needCount _ =>
      needCount ≤ s.tokenCount → s.tokenCount - needCount ≤ s.maxCount
  | .signal signalCount =>
      0 ≤ s.tokenCount + signalCount ∧ s.tokenCount + signalCount < 2147483648
  | .cancel setCount => setCount ≤ s.maxCount
  | _ => True

instance (s : SemState) : (a : SemAction) → Decidable (a.Fits s)
  | .wait _ _ _ _ => inferInstanceAs (Decidable (_ → _))
  | .signal _ => inferInstanceAs (Decidable (_ ∧ _))
  | .cancel _ => inferInstanceAs (Decidable (_ ≤ _))
  | .acquire _ | .expire _ | .resume _ | .delete => inferInstanceAs (Decidable True)

/-- The tokens are between zero and the maximum. -/
def Bounded (s : SemState) : Prop := 0 ≤ s.tokenCount ∧ s.tokenCount ≤ s.maxCount

structure WithinMax (s : SemState) : Prop extends Sound s where
  bounded : Bounded s
  init_le : s.initCount ≤ s.maxCount
  max_lt : s.maxCount < 2147483648

theorem grant_of_neg {tokenCount : ℤ} (hneg : tokenCount < 0)
    (hpos : ∀ i ∈ waitList, 1 ≤ (waiter i).needCount) :
    SemState.grant waitList tokenCount waiter = (waitList, tokenCount, waiter) := by
  induction waitList with
  | nil => rfl
  | cons i rest ih =>
      have hneed := hpos i List.mem_cons_self
      unfold SemState.grant
      rw [if_pos (by omega), ih fun j hj => hpos j (List.mem_cons_of_mem i hj)]

theorem const_step {a : SemAction} (hs : s.step a = some s') :
    s'.maxCount = s.maxCount ∧ s'.initCount = s.initCount ∧ s'.isFifo = s.isFifo := by
  cases a with
  | wait priority canBlock needCount timeout =>
      cases hs
      unfold SemState.wait
      split_ifs <;> exact ⟨rfl, rfl, rfl⟩
  | acquire i =>
      simp only [SemState.step, SemState.acquire] at hs
      split at hs
      · split at hs <;> cases hs
        exact ⟨rfl, rfl, rfl⟩
      · cases hs
  | expire i =>
      simp only [SemState.step, SemState.expire] at hs
      split at hs <;> cases hs
      exact ⟨rfl, rfl, rfl⟩
  | resume i =>
      simp only [SemState.step, SemState.resume] at hs
      split at hs <;> cases hs
      exact ⟨rfl, rfl, rfl⟩
  | signal signalCount =>
      cases hs
      unfold SemState.signal
      split_ifs <;> exact ⟨rfl, rfl, rfl⟩
  | cancel setCount =>
      cases hs
      exact ⟨rfl, rfl, rfl⟩
  | delete =>
      cases hs
      exact ⟨rfl, rfl, rfl⟩

/-- What an action does to the tokens: a wait that succeeds at once takes its need, a signal
that is accepted adds its count, less what it hands to waiting threads. -/
def TokenEffect (s s' : SemState) : SemAction → Prop
  | .wait _ _ needCount _ =>
      if needCount ≤ s.tokenCount then s'.tokenCount = s.tokenCount - needCount
      else s'.tokenCount = s.tokenCount
  | .signal signalCount =>
      if s.tokenCount + signalCount ≤ s.maxCount then
        s'.tokenCount + (s'.granted - s.granted) = s.tokenCount + signalCount
      else s'.tokenCount = s.tokenCount
  | .cancel setCount => s'.tokenCount = if setCount < 0 then s.initCount else setCount
  | _ => s'.tokenCount = s.tokenCount

theorem WithinMax.tokenEffect (h : WithinMax s) {a : SemAction} (hfits : a.Fits s)
    (hs : s.step a = some s') : TokenEffect s s' a := by
  have hmax := h.max_lt
  cases a with
  | wait priority canBlock needCount timeout =>
      cases hs
      change if needCount ≤ s.tokenCount then _ else _
      unfold SemState.wait
      split
      · next hle =>
          have := hfits hle
          exact wrap32_eq (by omega) (by omega)
      · split_ifs <;> rfl
  | acquire i =>
      simp only [SemState.step, SemState.acquire] at hs
      split at hs
      · split at hs <;> cases hs
        rfl
      · cases hs
  | expire i =>
      simp only [SemState.step, SemState.expire] at hs
      split at hs <;> cases hs
      rfl
  | resume i =>
      simp only [SemState.step, SemState.resume] at hs
      split at hs <;> cases hs
      rfl
  | signal signalCount =>
      cases hs
      obtain ⟨hnonneg, hlt⟩ := hfits
      change if s.tokenCount + signalCount ≤ s.maxCount then _ else _
      unfold SemState.signal
      rw [wrap32_eq (by omega) hlt]
      split
      · next hle =>
          rw [if_neg (not_lt.2 hle)]
          simp only
          omega
      · next hgt =>
          rw [if_pos (not_le.1 hgt)]
  | cancel setCount =>
      cases hs
      rfl
  | delete =>
      cases hs
      rfl

theorem WithinMax.inRange (h : WithinMax s) {a : SemAction} (hfits : a.Fits s) :
    a.InRange s := by
  have hmax := h.max_lt
  cases a with
  | wait priority canBlock needCount timeout => exact fun hle => (hfits hle).trans_lt hmax
  | signal signalCount => exact hfits
  | cancel setCount => exact lt_of_le_of_lt hfits hmax
  | _ => exact True.intro

theorem WithinMax.le_maxCount (h : WithinMax s) {a : SemAction} (hfits : a.Fits s)
    (hs : s.step a = some s') : s'.tokenCount ≤ s.maxCount := by
  have heffect := h.tokenEffect hfits hs
  have hle := h.bounded.2
  cases a with
  | wait priority canBlock needCount timeout =>
      change if needCount ≤ s.tokenCount then _ else _ at heffect
      split at heffect
      · next hneed => exact heffect.trans_le (hfits hneed)
      · exact heffect.trans_le hle
  | signal signalCount =>
      change if s.tokenCount + signalCount ≤ s.maxCount then _ else _ at heffect
      split at heffect
      · next hsum =>
          cases hs
          obtain ⟨hnonneg, hlt⟩ := hfits
          unfold SemState.signal
          rw [wrap32_eq (by omega) hlt, if_neg (not_lt.2 hsum)]
          exact (h.granted_of_signal ⟨hnonneg, hlt⟩).le.trans hsum
      · exact heffect.trans_le hle
  | cancel setCount =>
      have hinit := h.init_le
      refine Eq.trans_le heffect ?_
      split
      · exact hinit
      · exact hfits
  | acquire i => exact Eq.trans_le heffect hle
  | expire i => exact Eq.trans_le heffect hle
  | resume i => exact Eq.trans_le heffect hle
  | delete => exact Eq.trans_le heffect hle

/-- A signal that fits keeps the tokens below the maximum. -/
theorem WithinMax.step (h : WithinMax s) {a : SemAction} (hfits : a.Fits s)
    (hs : s.step a = some s') : WithinMax s' := by
  have hsound := h.toSound.step (h.inRange hfits) hs
  obtain ⟨hmax, hinit, -⟩ := const_step hs
  refine ⟨hsound, ⟨hsound.token.1, ?_⟩, ?_, ?_⟩
  · rw [hmax]
    exact h.le_maxCount hfits hs
  · rw [hmax, hinit]
    exact h.init_le
  · rw [hmax]
    exact h.max_lt

theorem WithinMax.bounded_iff (h : WithinMax s) {a : SemAction} (ha : a.IsS32)
    (hs : s.step a = some s') : Bounded s' ↔ a.Fits s := by
  refine ⟨fun hbounded => ?_, fun hfits => (h.step hfits hs).bounded⟩
  have hmax := h.max_lt
  obtain ⟨htoken, hle⟩ := h.bounded
  obtain ⟨hnonneg, hle'⟩ := hbounded
  rw [(const_step hs).1] at hle'
  cases a with
  | wait priority canBlock needCount timeout =>
      intro hneed
      obtain ⟨hmin, -⟩ := ha
      cases hs
      simp only [SemState.wait, if_pos hneed] at hnonneg hle'
      by_contra hgt
      by_cases hbig : s.tokenCount - needCount < 2147483648
      · rw [wrap32_eq (by omega) hbig] at hle'
        exact hgt hle'
      · rw [wrap32_of_le (by omega) (by omega)] at hnonneg
        omega
  | signal signalCount =>
      obtain ⟨hmin, hlt⟩ := ha
      cases hs
      by_contra hout
      -- a sum that leaves the range is negative after wrapping around, and is accepted
      have hneg : wrap32 (s.tokenCount + signalCount) < 0 := by
        by_cases hlow : s.tokenCount + signalCount < 0
        · rwa [wrap32_eq (by omega) (by omega)]
        · have hbig : 2147483648 ≤ s.tokenCount + signalCount :=
            not_lt.1 fun hlt' => hout ⟨not_lt.1 hlow, hlt'⟩
          rw [wrap32_of_le hbig (by omega)]
          omega
      simp only [SemState.signal] at hnonneg
      rw [if_neg (by omega), grant_of_neg hneg fun i hi => h.need_pos i (h.arrived i hi)]
        at hnonneg
      simp only at hnonneg
      omega
  | cancel setCount =>
      cases hs
      simp only [SemState.cancel] at hle'
      by_contra hgt
      have hgt : s.maxCount < setCount := not_le.1 hgt
      rw [if_neg (by omega)] at hle'
      omega
  | _ => exact True.intro

/-- As long as the counts fit, the tokens of a semaphore stay between zero and its maximum,
every wait takes its need, every signal adds its count, and what waiting threads were handed
is the sum of their needs. A count that does not fit takes the tokens out of range. -/
theorem tokens_bounded {attr : ℕ} {initCount maxCount : ℤ}
    (hcreate : SemState.create attr initCount maxCount = some s₀) (hinit : IsS32 initCount)
    (hmax : IsS32 maxCount)
    (h : Reachable SemState.step (fun s a => a.IsS32 ∧ a.Fits s) s₀ s) :
    (0 ≤ s.tokenCount ∧ s.tokenCount ≤ maxCount) ∧
      s.granted = signaledNeed s.waiter s.arrived ∧
      ∀ a s', a.IsS32 → s.step a = some s' →
        (a.Fits s → TokenEffect s s' a) ∧
          ((0 ≤ s'.tokenCount ∧ s'.tokenCount ≤ maxCount) ↔ a.Fits s) := by
  have hboth : WithinMax s ∧ s.maxCount = maxCount := by
    apply h.invariant (P := fun s => WithinMax s ∧ s.maxCount = maxCount)
    · have hsound := Sound.create hcreate hinit
      unfold SemState.create at hcreate
      split at hcreate
      · cases hcreate
      · next hcheck =>
          cases hcreate
          simp only [not_or, not_lt] at hcheck
          exact ⟨⟨hsound, ⟨hcheck.2.1, hcheck.2.2.2⟩, hcheck.2.2.2, hmax.2⟩, rfl⟩
    · intro s s' a hs ha hstep
      exact ⟨hs.1.step ha.2 hstep, (const_step hstep).1.trans hs.2⟩
  obtain ⟨hs, rfl⟩ := hboth
  refine ⟨hs.bounded, hs.granted, fun a s' ha hstep => ⟨fun hfits => hs.tokenEffect hfits hstep,
    ?_⟩⟩
  rw [← hs.bounded_iff ha hstep, Bounded, (const_step hstep).1]

theorem tokens_bounded_sample : ∃ s₀ s, SemState.create 2 1 3 = some s₀ ∧
    run SemState.step s₀ [.wait 700 true 2 none, .signal 1, .acquire 0, .resume 0] = some s ∧
    0 ≤ s.tokenCount ∧ s.tokenCount ≤ 3 := by
  obtain ⟨s₀, hs₀⟩ : ∃ s₀, SemState.create 2 1 3 = some s₀ := ⟨_, rfl⟩
  obtain ⟨s, hs⟩ : ∃ s, run SemState.step s₀
      [.wait 700 true 2 none, .signal 1, .acquire 0, .resume 0] = some s := by
    cases hs₀
    exact ⟨_, rfl⟩
  refine ⟨s₀, s, hs₀, hs, (tokens_bounded hs₀ (by decide) (by decide)
    (reachable_of_run hs ?_)).1⟩
  cases hs₀
  refine ⟨⟨by decide, fun hle => ?_⟩, fun _ h₁ => ⟨⟨by decide, ?_⟩, fun _ h₂ =>
    ⟨⟨True.intro, True.intro⟩, fun _ h₃ => ⟨⟨True.intro, True.intro⟩, fun _ _ => True.intro⟩⟩⟩⟩
  · exact absurd hle (by decide)
  · cases h₁
    decide

/-- A negative need adds tokens beyond the maximum. -/
theorem tokens_unbounded : ∃ s₀ s, SemState.create 0 0 1 = some s₀ ∧
    (SemAction.wait 700 true (-5) none).IsS32 ∧
    run SemState.step s₀ [.wait 700 true (-5) none] = some s ∧
    ¬ (s.tokenCount ≤ s.maxCount) := by
  refine ⟨_, _, rfl, by decide, rfl, ?_⟩
  decide

end OrbitConsole.Kernel
