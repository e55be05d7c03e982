import OrbitConsole.Core.Kernel.EventFlag
import OrbitConsole.Core.Kernel.SemaphoreSpec
import OrbitConsole.Library.Lifetime

/-!
# Deleting a semaphore or an event flag

`sceKernelDeleteSema` marks and wakes the waiting threads and destroys the
object at once, `sceKernelDeleteEventFlag` only destroys it. A thread that was
in a call of `Wait` takes the mutex of the object after that.
-/

namespace OrbitConsole.Kernel

open Function (update update_eq_self update_of_ne update_self)

open Transition EventFlag

variable {s s' s₀ : SemState} {waitList : List ℕ} {i : ℕ}

/-! ### Semaphores with any counts -/

theorem grant_frame (hnodup : waitList.Nodup) (tokenCount : ℤ) (waiter : ℕ → WaitingThread) :
    (SemState.grant waitList tokenCount waiter).1.Sublist waitList ∧
      ∀ i, (SemState.grant waitList tokenCount waiter).2.2 i =
        if i ∈ waitList ∧ i ∉ (SemState.grant waitList tokenCount waiter).1 then
          (waiter i).signaled else waiter i := by
  induction waitList generalizing tokenCount waiter with
  | nil => exact ⟨List.Sublist.refl _, fun i => rfl⟩
  | cons j rest ih =>
      obtain ⟨hj, hrest⟩ := List.nodup_cons.1 hnodup
      unfold SemState.grant
      split
      · obtain ⟨hsub, hwaiter⟩ := ih hrest tokenCount waiter
        refine ⟨hsub.cons_cons j, fun i => ?_⟩
        rw [hwaiter]
        rcases eq_or_ne i j with rfl | hij
        · simp [hj]
        · simp [hij]
      · obtain ⟨hsub, hwaiter⟩ := ih hrest (wrap32 (tokenCount - (waiter j).needCount))
          (update waiter j (waiter j).signaled)
        refine ⟨hsub.cons j, fun i => ?_⟩
        rw [hwaiter]
        rcases eq_or_ne i j with rfl | hij
        · rw [if_neg fun hmem => hj hmem.1, update_self,
            if_pos ⟨List.mem_cons_self, fun hmem => hj (hsub.subset hmem)⟩]
        · simp [hij]

/-- What holds between the calls for any counts. -/
structure Linked (s : SemState) : Prop where
  nodup : s.waitList.Nodup
  arrived : ∀ i ∈ s.waitList, i < s.arrived
  absent : ∀ i, s.arrived ≤ i → s.phase i = .absent
  pending : ∀ i ∈ s.waitList, (s.waiter i).Pending
  waiting : ∀ i ∈ s.waitList, ∀ r, s.phase i ≠ .returned r
  /-- no wake-up is lost -/
  wakes : ∀ i timed, s.phase i = .blocked timed → i ∈ s.waitList ∨ 0 < (s.waiter i).sem

theorem Linked.create {attr : ℕ} {initCount maxCount : ℤ}
    (h : SemState.create attr initCount maxCount = some s) : Linked s := by
  unfold SemState.create at h
  split at h
  · cases h
  · cases h
    exact ⟨List.nodup_nil, fun i hi => absurd hi List.not_mem_nil, fun i _ => rfl,
      fun i hi => absurd hi List.not_mem_nil, fun i hi => absurd hi List.not_mem_nil,
      fun i timed hp => WaitPhase.noConfusion hp⟩

theorem nodup_addWaiter {isFifo : Bool} {priority : ℕ → ℕ} (hnodup : waitList.Nodup)
    (hi : i ∉ waitList) : (SemState.addWaiter isFifo priority waitList i).Nodup := by
  unfold SemState.addWaiter
  split
  · exact hnodup.append (List.nodup_singleton i)
      (List.disjoint_singleton.2 hi)
  · apply List.perm_middle.nodup_iff.2
    rw [List.takeWhile_append_dropWhile]
    exact List.nodup_cons.2 ⟨hi, hnodup⟩

theorem Linked.enqueue (h : Linked s) {w : WaitingThread} {priority : ℕ → ℕ} {timed : Bool}
    (hw : w.Pending) :
    Linked { s with
      waitList := SemState.addWaiter s.isFifo priority s.waitList s.arrived
      waiter := update s.waiter s.arrived w
      phase := update s.phase s.arrived (.blocked timed)
      arrived := s.arrived + 1 } := by
  have hne : ∀ i ∈ s.waitList, i ≠ s.arrived := fun i hi => (h.arrived i hi).ne
  refine ⟨nodup_addWaiter h.nodup fun hmem => hne _ hmem rfl, fun i hi => ?_, fun i hi => ?_,
    fun i hi => ?_, fun i hi r => ?_, fun i t hp => ?_⟩
  · rcases mem_addWaiter.1 hi with rfl | hi
    · exact Nat.lt_succ_self _
    · exact Nat.lt_succ_of_lt (h.arrived i hi)
  · have hlt : s.arrived < i := hi
    exact (update_of_ne hlt.ne' _ _).trans (h.absent i hlt.le)
  · change (update s.waiter s.arrived w i).Pending
    rcases mem_addWaiter.1 hi with rfl | hi
    · rw [update_self]
      exact hw
    · rw [update_of_ne (hne i hi)]
      exact h.pending i hi
  · change update s.phase s.arrived _ i ≠ _
    rcases mem_addWaiter.1 hi with rfl | hi
    · rw [update_self]
      exact WaitPhase.noConfusion
    · rw [update_of_ne (hne i hi)]
      exact h.waiting i hi r
  · change update s.phase s.arrived _ i = _ at hp
    change i ∈ SemState.addWaiter _ _ _ _ ∨ 0 < (update s.waiter s.arrived w i).sem
    rcases eq_or_ne i s.arrived with rfl | hi
    · exact .inl (mem_addWaiter.2 (.inl rfl))
    · rw [update_of_ne hi] at hp ⊢
      exact (h.wakes i t hp).imp (fun hmem => mem_addWaiter.2 (.inr hmem)) id

theorem Linked.complete (h : Linked s) {waitList' : List ℕ} {waiter' : ℕ → WaitingThread}
    {tokenCount granted : ℤ} {f : WaitingThread → WaitingThread}
    (hsem : ∀ w, (f w).sem = w.sem + 1) (hsublist : waitList'.Sublist s.waitList)
    (hwaiter : ∀ i, waiter' i = if i ∈ s.waitList ∧ i ∉ waitList' then f (s.waiter i)
      else s.waiter i) :
    Linked { s with
      waitList := waitList'
      tokenCount := tokenCount
      waiter := waiter'
      granted := granted } := by
  refine ⟨h.nodup.sublist hsublist, fun i hi => h.arrived i (hsublist.subset hi), h.absent,
    fun i hi => ?_, fun i hi => h.waiting i (hsublist.subset hi), fun i timed hp => ?_⟩
  · change (waiter' i).Pending
    rw [hwaiter, if_neg fun hout => hout.2 hi]
    exact h.pending i (hsublist.subset hi)
  · change i ∈ waitList' ∨ 0 < (waiter' i).sem
    rw [hwaiter]
    by_cases hmem : i ∈ s.waitList ∧ i ∉ waitList'
    · rw [if_pos hmem, hsem]
      exact .inr (Nat.succ_pos _)
    · rw [if_neg hmem]
      rcases h.wakes i timed hp with hin | hpos
      · exact .inl (not_not.1 fun hout => hmem ⟨hin, hout⟩)
      · exact .inr hpos

theorem Linked.completeAll (h : Linked s) {tokenCount granted : ℤ}
    {f : WaitingThread → WaitingThread} (hsem : ∀ w, (f w).sem = w.sem + 1) :
    Linked { s with
      waitList := []
      tokenCount := tokenCount
      waiter := SemState.markAll f s.waitList s.waiter
      granted := granted } := by
  apply h.complete hsem (List.nil_sublist _)
  intro i
  rw [markAll_eq h.nodup]
  simp only [List.not_mem_nil, not_false_eq_true, and_true]

theorem Linked.move (h : Linked s) (w : WaitingThread) (phase : WaitPhase)
    (hi : s.phase i ≠ .absent) (hflags : (s.waiter i).Pending → w.Pending)
    (hblocked : ∀ timed, phase ≠ .blocked timed) (waitList' : List ℕ)
    (hlist : waitList' = s.waitList ∨ waitList' = s.waitList.erase i)
    (hreturned : ∀ r, phase = .returned r → i ∉ waitList') :
    Linked { s with
      waitList := waitList'
      waiter := update s.waiter i w
      phase := update s.phase i phase } := by
  have hlt : i < s.arrived := by
    by_contra hle
    exact hi (h.absent i (not_lt.1 hle))
  have hsub : waitList'.Sublist s.waitList := by
    rcases hlist with rfl | rfl
    · exact List.Sublist.refl _
    · exact List.erase_sublist
  refine ⟨h.nodup.sublist hsub, fun j hj => h.arrived j (hsub.subset hj), fun j hj => ?_,
    fun j hj => ?_, fun j hj r => ?_, fun j timed hp => ?_⟩
  · have hne : j ≠ i := (hlt.trans_le hj).ne'
    exact (update_of_ne hne _ _).trans (h.absent j hj)
  · change (update s.waiter i w j).Pending
    rcases eq_or_ne j i with rfl | hne
    · rw [update_self]
      exact hflags (h.pending j (hsub.subset hj))
    · rw [update_of_ne hne]
      exact h.pending j (hsub.subset hj)
  · change update s.phase i phase j ≠ _
    rcases eq_or_ne j i with rfl | hne
    · rw [update_self]
      exact fun hr => hreturned r hr hj
    · rw [update_of_ne hne]
      exact h.waiting j (hsub.subset hj) r
  · change update s.phase i phase j = _ at hp
    change j ∈ waitList' ∨ 0 < (update s.waiter i w j).sem
    rcases eq_or_ne j i with rfl | hne
    · rw [update_self] at hp
      exact absurd hp (hblocked timed)
    · rw [update_of_ne hne] at hp ⊢
      refine (h.wakes j timed hp).imp (fun hmem => ?_) id
      rcases hlist with rfl | rfl
      · exact hmem
      · exact (List.mem_erase_of_ne hne).2 hmem

/-- No step loses a waiter or its wake-up, whatever the counts. -/
theorem Linked.step (h : Linked s) {a : SemAction} (hs : s.step a = some s') : Linked s' := by
  cases a with
  | wait priority canBlock needCount timeout =>
      cases hs
      unfold SemState.wait
      split
      · exact ⟨h.nodup, h.arrived, h.absent, h.pending, h.waiting, h.wakes⟩
      split
      · exact h
      split
      · exact h
      · exact h.enqueue ⟨rfl, rfl, rfl⟩
  | acquire j =>
      simp only [SemState.step, SemState.acquire] at hs
      split at hs
      · next timed hphase =>
          split at hs <;> cases hs
          exact h.move { s.waiter j with sem := (s.waiter j).sem - 1 } .woken
            (by rw [hphase]; exact WaitPhase.noConfusion) id
            (fun _ => WaitPhase.noConfusion) s.waitList (.inl rfl)
            fun r hr => WaitPhase.noConfusion hr
      · cases hs
  | expire j =>
      simp only [SemState.step, SemState.expire] at hs
      split at hs <;> cases hs
      next hphase =>
        have hmove := h.move (s.waiter j) .woken (by rw [hphase]; exact WaitPhase.noConfusion) id
          (fun _ => WaitPhase.noConfusion) s.waitList (.inl rfl)
          fun r hr => WaitPhase.noConfusion hr
        rw [update_eq_self] at hmove
        exact hmove
  | resume j =>
      simp only [SemState.step, SemState.resume] at hs
      split at hs <;> cases hs
      next hphase =>
        have hmove := h.move (s.waiter j) (.returned (s.waiter j).getResult)
          (by rw [hphase]; exact WaitPhase.noConfusion) id (fun _ => WaitPhase.noConfusion)
          (if (s.waiter j).getResult = errorEtimedout then s.waitList.erase j else s.waitList)
          (by split <;> simp) ?_
        · rw [update_eq_self] at hmove
          exact hmove
        · intro r _
          split
          · exact h.nodup.not_mem_erase
          · next hresult => exact fun hin => hresult (h.pending j hin).getResult
  | signal signalCount =>
      cases hs
      unfold SemState.signal
      split
      · exact h
      · obtain ⟨hsub, hwaiter⟩ := grant_frame h.nodup (wrap32 (s.tokenCount + signalCount))
          s.waiter
        exact h.complete (f := WaitingThread.signaled) (fun _ => rfl) hsub hwaiter
  | cancel setCount =>
      cases hs
      exact h.completeAll fun _ => rfl
  | delete =>
      cases hs
      exact h.completeAll fun _ => rfl

theorem Linked.of_reachable {attr : ℕ} {initCount maxCount : ℤ} {ok : SemState → SemAction → Prop}
    (hcreate : SemState.create attr initCount maxCount = some s₀)
    (h : Reachable SemState.step ok s₀ s) : Linked s :=
  h.invariant (Linked.create hcreate) fun _ _ _ hs _ hstep => hs.step hstep

/-! ### Threads that `Delete` has marked -/

/-- A thread that will report, or has reported, that the semaphore was deleted. -/
structure Marked (i : ℕ) (s : SemState) : Prop where
  out : i ∉ s.waitList
  lt_arrived : i < s.arrived
  wasDeleted : (s.waiter i).wasDeleted = true
  wasSignaled : (s.waiter i).wasSignaled = false
  reports : ∀ r, s.phase i = .returned r → r = errorEacces

theorem Linked.marked_delete (h : Linked s) (hi : i ∈ s.waitList) : Marked i s.delete := by
  have hmark : s.delete.waiter i = (s.waiter i).deleted := by
    change SemState.markAll _ _ _ i = _
    rw [markAll_eq h.nodup, if_pos hi]
  refine ⟨List.not_mem_nil, h.arrived i hi, ?_, ?_, fun r hr => absurd hr (h.waiting i hi r)⟩
  · rw [hmark]
    rfl
  · rw [hmark]
    exact (h.pending i hi).1

theorem Marked.congr (h : Marked i s) (hlist : ∀ j, j ∈ s'.waitList → j ∈ s.waitList ∨ j ≠ i)
    (harrived : s.arrived ≤ s'.arrived)
    (hdeleted : (s'.waiter i).wasDeleted = (s.waiter i).wasDeleted)
    (hsignaled : (s'.waiter i).wasSignaled = (s.waiter i).wasSignaled)
    (hphase : ∀ r, s'.phase i = .returned r →
      s.phase i = .returned r ∨ r = (s.waiter i).getResult) : Marked i s' := by
  refine ⟨fun hmem => ?_, h.lt_arrived.trans_le harrived, hdeleted.trans h.wasDeleted,
    hsignaled.trans h.wasSignaled, fun r hr => ?_⟩
  · rcases hlist i hmem with hin | hne
    · exact h.out hin
    · exact hne rfl
  · rcases hphase r hr with hold | rfl
    · exact h.reports r hold
    · simp [WaitingThread.getResult, h.wasDeleted, h.wasSignaled]

/-- Once marked, a thread stays marked until it has reported. -/
theorem Marked.step (h : Marked i s) (hlinked : Linked s) {a : SemAction}
    (hs : s.step a = some s') : Marked i s' := by
  cases a with
  | wait priority canBlock needCount timeout =>
      cases hs
      unfold SemState.wait
      split
      · exact h.congr (fun j hj => .inl hj) le_rfl rfl rfl fun r hr => .inl hr
      split
      · exact h
      split
      · exact h
      · have hne : i ≠ s.arrived := h.lt_arrived.ne
        refine h.congr (fun j hj => ?_) (Nat.le_succ _) ?_ ?_ fun r hr => ?_
        · rcases mem_addWaiter.1 hj with rfl | hj
          · exact .inr hne.symm
          · exact .inl hj
        · simp only [update_of_ne hne]
        · simp only [update_of_ne hne]
        · simp only [update_of_ne hne] at hr
          exact .inl hr
  | acquire j =>
      simp only [SemState.step, SemState.acquire] at hs
      split at hs
      · split at hs <;> cases hs
        refine h.congr (fun j hj => .inl hj) le_rfl ?_ ?_ fun r hr => ?_
        · rcases eq_or_ne i j with rfl | hne
          · simp only [update_self]
          · simp only [update_of_ne hne]
        · rcases eq_or_ne i j with rfl | hne
          · simp only [update_self]
          · simp only [update_of_ne hne]
        · rcases eq_or_ne i j with rfl | hne
          · simp only [update_self] at hr
            cases hr
          · simp only [update_of_ne hne] at hr
            exact .inl hr
      · cases hs
  | expire j =>
      simp only [SemState.step, SemState.expire] at hs
      split at hs <;> cases hs
      refine h.congr (fun j hj => .inl hj) le_rfl rfl rfl fun r hr => ?_
      rcases eq_or_ne i j with rfl | hne
      · simp only [update_self] at hr
        cases hr
      · simp only [update_of_ne hne] at hr
        exact .inl hr
  | resume j =>
      simp only [SemState.step, SemState.resume] at hs
      split at hs <;> cases hs
      refine h.congr (fun k hk => .inl ?_) le_rfl rfl rfl fun r hr => ?_
      · simp only at hk
        split at hk
        · exact List.mem_of_mem_erase hk
        · exact hk
      · rcases eq_or_ne i j with rfl | hne
        · simp only [update_self] at hr
          exact .inr (WaitPhase.returned.inj hr).symm
        · simp only [update_of_ne hne] at hr
          exact .inl hr
  | signal signalCount =>
      cases hs
      unfold SemState.signal
      split
      · exact h
      · obtain ⟨hsub, hwaiter⟩ := grant_frame hlinked.nodup
          (wrap32 (s.tokenCount + signalCount)) s.waiter
        have hsame := hwaiter i
        rw [if_neg fun hmem => h.out hmem.1] at hsame
        exact h.congr (fun j hj => .inl (hsub.subset hj)) le_rfl (congrArg (·.wasDeleted) hsame :)
          (congrArg (·.wasSignaled) hsame :) fun r hr => .inl hr
  | cancel setCount =>
      cases hs
      have hsame : SemState.markAll WaitingThread.canceled s.waitList s.waiter i = _ :=
        markAll_eq hlinked.nodup i
      rw [if_neg h.out] at hsame
      exact h.congr (fun j hj => absurd hj List.not_mem_nil) le_rfl
        (congrArg (·.wasDeleted) hsame :) (congrArg (·.wasSignaled) hsame :) fun r hr => .inl hr
  | delete =>
      cases hs
      have hsame : SemState.markAll WaitingThread.deleted s.waitList s.waiter i = _ :=
        markAll_eq hlinked.nodup i
      rw [if_neg h.out] at hsame
      exact h.congr (fun j hj => absurd hj List.not_mem_nil) le_rfl
        (congrArg (·.wasDeleted) hsame :) (congrArg (·.wasSignaled) hsame :) fun r hr => .inl hr

/-! ### The life of a semaphore -/

/-- The thread stands in a call of `Wait`. -/
def SemState.InWait (s : SemState) (i : ℕ) : Prop :=
  (∃ timed, s.phase i = .blocked timed) ∨ s.phase i = .woken

/-- The calls that begin with the identifier of the semaphore. -/
def SemAction.starts : SemAction → Bool
  | .wait .. | .signal _ | .cancel _ | .delete => true
  | .acquire _ | .expire _ | .resume _ => false

/-- The thread that takes the mutex in the middle of its call. -/
def SemAction.user : SemAction → Option ℕ
  | .resume i => some i
  | _ => none

/-- A semaphore that may be destroyed. -/
abbrev SemLife := Lifetime SemState ℕ

def SemLife.step : SemLife → LifeAction SemAction → Option SemLife :=
  Lifetime.step SemState.step SemAction.starts SemAction.user

/-- After `Delete` and before, or after, the semaphore is destroyed: no thread that stood in a
call of `Wait` touches what is gone, and each one still queued reports the deletion. -/
def SemDeleteSafe (s : SemState) : Prop :=
  ∀ l : SemLife, Reachable SemLife.step (fun _ _ => True) (.live s.delete) l → ∀ i, s.InWait i →
    i ∉ l.touched ∧ (i ∈ s.waitList → ∀ r, l.state.phase i = .returned r → r = errorEacces)

theorem SemState.inWait_of_resume (hs : s.resume i = some s') : s.phase i = .woken := by
  unfold SemState.resume at hs
  split at hs
  · assumption
  · cases hs

theorem Linked.exists_touch (h : Linked s) (hi : s.InWait i) :
    ∃ l : SemLife, Reachable SemLife.step (fun _ _ => True) (.live s.delete) l ∧
      i ∈ l.touched := by
  have hdelete : Linked s.delete := h.step (a := .delete) rfl
  have hdestroy : SemLife.step (.live s.delete) .destroy =
      some { state := s.delete, alive := false, touched := [] } := rfl
  have hstart : Reachable SemLife.step (fun _ _ => True) (.live s.delete)
      { state := s.delete, alive := false, touched := [] } :=
    .step .destroy .start True.intro hdestroy
  -- a thread that woke up takes the mutex
  have hwoken : ∀ l : SemLife, Reachable SemLife.step (fun _ _ => True) (.live s.delete) l →
      l.alive = false → l.state.phase i = .woken →
      ∃ l : SemLife, Reachable SemLife.step (fun _ _ => True) (.live s.delete) l ∧
        i ∈ l.touched := by
    intro l hl hdead hphase
    obtain ⟨s', hs'⟩ : ∃ s', l.state.resume i = some s' := by
      unfold SemState.resume
      rw [hphase]
      exact ⟨_, rfl⟩
    obtain ⟨l', hl', hmem⟩ := Lifetime.touched_of_act SemState.step SemAction.starts
      SemAction.user (a := .resume i) rfl rfl hs' hdead
    exact ⟨l', .step _ hl True.intro hl', hmem⟩
  rcases hi with ⟨timed, hphase⟩ | hphase
  · have hsem : (s.delete.waiter i).sem ≠ 0 := by
      rcases hdelete.wakes i timed hphase with hmem | hpos
      · exact absurd hmem List.not_mem_nil
      · exact hpos.ne'
    obtain ⟨s', hs', hwoke⟩ : ∃ s', s.delete.acquire i = some s' ∧ s'.phase i = .woken := by
      unfold SemState.acquire
      have hphase' : s.delete.phase i = .blocked timed := hphase
      rw [hphase']
      simp only
      rw [if_neg hsem]
      exact ⟨_, rfl, update_self _ _ _⟩
    obtain ⟨l', hl', hstate, halive⟩ := Lifetime.exists_act SemState.step SemAction.starts
      SemAction.user (a := .acquire i)
      (l := ({ state := s.delete, alive := false, touched := [] } : SemLife)) rfl hs'
    apply hwoken l' (.step _ hstart True.intro hl') halive
    rw [hstate]
    exact hwoke
  · exact hwoken _ hstart rfl hphase

theorem Linked.deleteSafe_iff (h : Linked s) : SemDeleteSafe s ↔ ∀ i, ¬ s.InWait i := by
  constructor
  · intro hsafe i hi
    obtain ⟨l, hl, hmem⟩ := h.exists_touch hi
    exact (hsafe l hl i hi).1 hmem
  · intro hnone l _ i hi
    exact absurd hi (hnone i)

theorem Linked.reports_deleted (h : Linked s) {ok : SemLife → LifeAction SemAction → Prop}
    {l : SemLife} (hl : Reachable SemLife.step ok (.live s.delete) l) (hi : i ∈ s.waitList) :
    ∀ r, l.state.phase i = .returned r → r = errorEacces := by
  have hboth : Linked l.state ∧ Marked i l.state := by
    apply Lifetime.state_invariant (P := fun s => Linked s ∧ Marked i s) _ hl
    · exact ⟨h.step (a := .delete) rfl, h.marked_delete hi⟩
    · exact fun s s' a hs hstep => ⟨hs.1.step hstep, hs.2.step hs.1 hstep⟩
  exact hboth.2.reports

theorem SemLife.touched_eq_nil {ok : SemLife → LifeAction SemAction → Prop} {l : SemLife}
    (hok : ∀ l : SemLife, ok l .destroy → ∀ i, ¬ l.state.InWait i)
    (hl : Reachable SemLife.step ok (.live s) l) : l.touched = [] := by
  apply Lifetime.touched_eq_nil SemState.InWait _ _ hok hl
  · intro s s' a hstarts hs hnone i
    have hphase : ∀ j, (∃ timed, s.phase j = .blocked timed) ∨ s.phase j = .woken → False := hnone
    cases a with
    | acquire j =>
        simp only [SemState.step, SemState.acquire] at hs
        split at hs
        · next timed hj => exact (hphase j (.inl ⟨timed, hj⟩)).elim
        · cases hs
    | expire j =>
        simp only [SemState.step, SemState.expire] at hs
        split at hs
        · next hj => exact (hphase j (.inl ⟨true, hj⟩)).elim
        · cases hs
    | resume j => exact (hphase j (.inr (SemState.inWait_of_resume hs))).elim
    | wait priority canBlock needCount timeout => cases hstarts
    | signal signalCount => cases hstarts
    | cancel setCount => cases hstarts
    | delete => cases hstarts
  · intro s s' a i hs huser
    cases a with
    | resume j =>
        cases huser
        exact .inr (SemState.inWait_of_resume hs)
    | _ => cases huser

/-! ### The life of an event flag -/

def EvfState.InWait (e : EvfState) (i : ℕ) : Prop :=
  (∃ call, e.phase i = .blocked call) ∨ ∃ call timedOut, e.phase i = .woken call timedOut

/-- The calls that begin with the event flag. -/
def EvfAction.starts : EvfAction → Bool
  | .wait _ | .set _ | .clear _ | .cancel _ => true
  | .wake .. | .resume _ | .cancelEnd => false

/-- The thread that uses the condition variable or the mutex in the middle of its call. -/
def EvfAction.user : EvfAction → Option ℕ
  | .wake i _ => some i
  | .resume i => some i
  | _ => none

/-- An event flag that may be destroyed. -/
abbrev EvfLife := Lifetime EvfState ℕ

def EvfLife.step : EvfLife → LifeAction EvfAction → Option EvfLife :=
  Lifetime.step EvfState.step EvfAction.starts EvfAction.user

/-- From the call of `sceKernelDeleteEventFlag` on: no thread that stood in a call of `Wait`
touches what is gone, and each one reports the deletion. -/
def EvfDeleteSafe (e : EvfState) : Prop :=
  ∀ l : EvfLife, Reachable EvfLife.step (fun _ _ => True) (.live e) l → ∀ i, e.InWait i →
    i ∉ l.touched ∧ ∀ r pattern, l.state.phase i = .returned r pattern → r = errorEacces

theorem EvfState.inWait_of_wake {e e' : EvfState} {timedOut : Bool}
    (hs : e.wake i timedOut = some e') : e.InWait i := by
  unfold EvfState.wake at hs
  split at hs
  · next call hphase => exact .inl ⟨call, hphase⟩
  · cases hs

theorem EvfState.inWait_of_resume {e e' : EvfState} (hs : e.resume i = some e') :
    e.InWait i := by
  unfold EvfState.resume at hs
  split at hs
  · next call timedOut hphase => exact .inr ⟨call, timedOut, hphase⟩
  · cases hs

theorem EvfState.exists_resume {e : EvfState} {call : WaitCall} {timedOut : Bool}
    (hphase : e.phase i = .woken call timedOut) : ∃ e', e.resume i = some e' := by
  unfold EvfState.resume
  rw [hphase]
  simp only
  split
  · exact ⟨_, rfl⟩
  split
  · exact ⟨_, rfl⟩
  · exact ⟨_, rfl⟩

theorem EvfState.exists_touch {e : EvfState} (hi : e.InWait i) :
    ∃ l : EvfLife, Reachable EvfLife.step (fun _ _ => True) (.live e) l ∧ i ∈ l.touched := by
  have hdestroy : EvfLife.step (.live e) .destroy =
      some { state := e, alive := false, touched := [] } := rfl
  have hstart : Reachable EvfLife.step (fun _ _ => True) (.live e)
      { state := e, alive := false, touched := [] } :=
    .step .destroy .start True.intro hdestroy
  rcases hi with ⟨call, hphase⟩ | ⟨call, timedOut, hphase⟩
  · -- it may leave the condition variable for no reason
    obtain ⟨e', he'⟩ : ∃ e', e.wake i false = some e' := by
      unfold EvfState.wake
      rw [hphase]
      exact ⟨_, rfl⟩
    obtain ⟨l', hl', hmem⟩ := Lifetime.touched_of_act EvfState.step EvfAction.starts
      EvfAction.user (a := .wake i false)
      (l := ({ state := e, alive := false, touched := [] } : EvfLife)) rfl rfl he' rfl
    exact ⟨l', .step _ hstart True.intro hl', hmem⟩
  · obtain ⟨e', he'⟩ := EvfState.exists_resume hphase
    obtain ⟨l', hl', hmem⟩ := Lifetime.touched_of_act EvfState.step EvfAction.starts
      EvfAction.user (a := .resume i)
      (l := ({ state := e, alive := false, touched := [] } : EvfLife)) rfl rfl he' rfl
    exact ⟨l', .step _ hstart True.intro hl', hmem⟩

theorem EvfState.deleteSafe_iff (e : EvfState) : EvfDeleteSafe e ↔ ∀ i, ¬ e.InWait i := by
  constructor
  · intro hsafe i hi
    obtain ⟨l, hl, hmem⟩ := EvfState.exists_touch hi
    exact (hsafe l hl i hi).1 hmem
  · intro hnone l _ i hi
    exact absurd hi (hnone i)

theorem EvfState.status_step {e e' : EvfState} {a : EvfAction} (he : e.status ≠ .deleted)
    (hs : e.step a = some e') : e'.status ≠ .deleted := by
  have hfinish : ∀ (e : EvfState) (call : WaitCall), e.status ≠ .deleted →
      (e.finish call).1.status ≠ .deleted := by
    intro e call he
    unfold EvfState.finish
    by_cases hcanceled : e.status = .canceled
    · rw [if_pos hcanceled]
      exact he
    · rw [if_neg hcanceled, if_neg he]
      split <;> exact he
  cases a with
  | wait call =>
      cases hs
      unfold EvfState.wait
      split
      · exact he
      split
      · exact hfinish e call he
      · exact he
  | wake i timedOut =>
      simp only [EvfState.step, EvfState.wake] at hs
      split at hs
      · split at hs <;> cases hs
        exact he
      · cases hs
  | resume i =>
      simp only [EvfState.step, EvfState.resume] at hs
      split at hs
      · split at hs
        · cases hs
          exact hfinish _ _ he
        · split at hs <;> cases hs <;> exact he
      · cases hs
  | set bits =>
      simp only [EvfState.step, EvfState.set] at hs
      split at hs <;> cases hs
      exact he
  | clear bits =>
      simp only [EvfState.step, EvfState.clear] at hs
      split at hs <;> cases hs
      exact he
  | cancel setPattern =>
      simp only [EvfState.step, EvfState.cancel] at hs
      split at hs <;> cases hs
      exact Status.noConfusion
  | cancelEnd =>
      simp only [EvfState.step, EvfState.cancelEnd] at hs
      split at hs <;> cases hs
      exact Status.noConfusion

theorem EvfLife.touched_eq_nil {ok : EvfLife → LifeAction EvfAction → Prop} {e : EvfState}
    {l : EvfLife} (hok : ∀ l : EvfLife, ok l .destroy → ∀ i, ¬ l.state.InWait i)
    (hl : Reachable EvfLife.step ok (.live e) l) : l.touched = [] := by
  apply Lifetime.touched_eq_nil EvfState.InWait _ _ hok hl
  · intro e e' a hstarts hs hnone i
    cases a with
    | wake j timedOut => exact absurd (EvfState.inWait_of_wake hs) (hnone j)
    | resume j => exact absurd (EvfState.inWait_of_resume hs) (hnone j)
    | cancelEnd =>
        simp only [EvfState.step, EvfState.cancelEnd] at hs
        split at hs <;> cases hs
        exact hnone i
    | wait call => cases hstarts
    | set bits => cases hstarts
    | clear bits => cases hstarts
    | cancel setPattern => cases hstarts
  · intro e e' a i hs huser
    cases a with
    | wake j timedOut =>
        cases huser
        exact EvfState.inWait_of_wake hs
    | resume j =>
        cases huser
        exact EvfState.inWait_of_resume hs
    | _ => cases huser

/-! ### Both -/

/-- Deleting a semaphore or an event flag is safe for the threads in a call of `Wait` exactly
when there are none. A run that deletes only then leaves no thread that touches what is gone;
a queued thread of a semaphore reports the deletion in any case, and the status that would make
a thread of an event flag report it is never set. -/
theorem delete_safe {attr : ℕ} {initCount maxCount : ℤ} {threadMode : ThreadMode}
    {initPattern : BitVec 64} {e : EvfState}
    (hcreate : SemState.create attr initCount maxCount = some s₀)
    (hs : Reachable SemState.step (fun _ _ => True) s₀ s)
    (he : Reachable EvfState.step (fun _ _ => True) (.create threadMode initPattern) e) :
    (SemDeleteSafe s ↔ ∀ i, ¬ s.InWait i) ∧
      (EvfDeleteSafe e ↔ ∀ i, ¬ e.InWait i) ∧
      (∀ l : SemLife, Reachable SemLife.step
        (fun l a => a = .destroy → ∀ i, ¬ l.state.InWait i) (.live s) l → l.touched = []) ∧
      (∀ l : EvfLife, Reachable EvfLife.step
        (fun l a => a = .destroy → ∀ i, ¬ l.state.InWait i) (.live e) l → l.touched = []) ∧
      (∀ l : SemLife, Reachable SemLife.step (fun _ _ => True) (.live s.delete) l →
        ∀ i ∈ s.waitList, ∀ r, l.state.phase i = .returned r → r = errorEacces) ∧
      e.status ≠ .deleted := by
  have hlinked : Linked s := Linked.of_reachable hcreate hs
  refine ⟨hlinked.deleteSafe_iff, e.deleteSafe_iff, fun l hl => ?_, fun l hl => ?_,
    fun l hl i hi => hlinked.reports_deleted hl hi, ?_⟩
  · exact SemLife.touched_eq_nil (fun l hok => hok rfl) hl
  · exact EvfLife.touched_eq_nil (fun l hok => hok rfl) hl
  · exact he.invariant (P := fun e => e.status ≠ .deleted) Status.noConfusion
      fun _ _ _ h _ hstep => EvfState.status_step h hstep

theorem delete_safe_sample : ∃ s₀ s, SemState.create 2 0 1 = some s₀ ∧
    run SemState.step s₀ [.signal 1, .wait 700 true 1 none] = some s ∧ SemDeleteSafe s := by
  obtain ⟨s₀, hs₀⟩ : ∃ s₀, SemState.create 2 0 1 = some s₀ := ⟨_, rfl⟩
  obtain ⟨s, hs⟩ : ∃ s, run SemState.step s₀ [.signal 1, .wait 700 true 1 none] = some s := by
    cases hs₀
    exact ⟨_, rfl⟩
  have hreach : Reachable SemState.step (fun _ _ => True) s₀ s :=
    reachable_of_run hs (allOk_of_forall fun _ _ _ => True.intro)
  have hflag : Reachable EvfState.step (fun _ _ => True) (.create .single 0)
      (.create .single 0) := .start
  refine ⟨s₀, s, hs₀, hs, (delete_safe hs₀ hreach hflag).1.2 fun i hi => ?_⟩
  cases hs₀
  cases hs
  rcases hi with ⟨timed, hp⟩ | hp <;> cases hp

/-- A thread waits without a time limit, another one deletes the semaphore, or the event
flag. -/
theorem delete_unsafe : (∃ s₀ s, SemState.create 2 0 1 = some s₀ ∧
      run SemState.step s₀ [.wait 700 true 1 none] = some s ∧ ¬ SemDeleteSafe s) ∧
    ∃ e, run EvfState.step (.create .multi 0) [.wait ⟨1, .or, .none, false⟩] = some e ∧
      ¬ EvfDeleteSafe e := by
  constructor
  · obtain ⟨s₀, hs₀⟩ : ∃ s₀, SemState.create 2 0 1 = some s₀ := ⟨_, rfl⟩
    obtain ⟨s, hs⟩ : ∃ s, run SemState.step s₀ [.wait 700 true 1 none] = some s := ⟨_, rfl⟩
    have hreach : Reachable SemState.step (fun _ _ => True) s₀ s :=
      reachable_of_run hs (allOk_of_forall fun _ _ _ => True.intro)
    have hlinked : Linked s := Linked.of_reachable hs₀ hreach
    refine ⟨s₀, s, hs₀, hs, fun hsafe => hlinked.deleteSafe_iff.1 hsafe 0 (.inl ⟨false, ?_⟩)⟩
    cases hs₀
    cases hs
    rfl
  · refine ⟨_, rfl, fun hsafe => ?_⟩
    exact (EvfState.deleteSafe_iff _).1 hsafe 0 (.inl ⟨_, rfl⟩)

end OrbitConsole.Kernel
