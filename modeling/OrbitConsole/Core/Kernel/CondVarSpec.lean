import Mathlib.Data.List.Nodup
import Mathlib.Data.List.Perm.Basic
import OrbitConsole.Core.Kernel.CondVar

/-!
# Waiting on a condition variable over all runs

The wake semaphore of a thread is cleared when the thread queues itself, so it
counts one wait only, unless a release of an earlier wait is still to come at
that moment. As long as none is, every wait ends with what took it off the queue.
-/

namespace OrbitConsole.Kernel

open Function (update update_of_ne update_self)

open Transition

variable {s s' : CondState} {hash : ℕ → ℕ} {t u : ℕ} {p p' : Pthread}
  {mutex mutex' : ℕ → PthreadMutex} {call : CondCall}

/-- The threads it has yet to wake. -/
def Pthread.owed (p : Pthread) : List ℕ := p.releases ++ p.deferWaiters

theorem Pthread.owed_defer (p : Pthread) (td : ℕ) : (p.defer td).owed = p.owed ++ [td] := by
  unfold Pthread.defer
  simp only
  split <;> simp [Pthread.owed, Pthread.wakeAll]

@[simp] theorem Pthread.defer_wchan (p : Pthread) (td : ℕ) : (p.defer td).wchan = p.wchan := by
  unfold Pthread.defer
  simp only
  split <;> rfl

@[simp] theorem Pthread.defer_wakeSema (p : Pthread) (td : ℕ) :
    (p.defer td).wakeSema = p.wakeSema := by
  unfold Pthread.defer
  simp only
  split <;> rfl

@[simp] theorem Pthread.defer_phase (p : Pthread) (td : ℕ) : (p.defer td).phase = p.phase := by
  unfold Pthread.defer
  simp only
  split <;> rfl

/-! ### Where a thread may stand -/

/-- A thread that has queued itself and has not looked at the queue since. -/
structure Waiting (mutex : ℕ → PthreadMutex) (t : ℕ) (p : Pthread) (call : CondCall) : Prop where
  owner : (mutex call.mutex).owner ≠ some t
  recurse : call.recurse = call.entry
  mutexObj : p.mutexObj = some call.mutex
  wchan : p.wchan = if p.dequeued then none else some call.cond

def Reports (p : Pthread) (error : ℤ) : Prop :=
  error = if p.dequeued then 0 else posixEtimedout

def Position (mutex : ℕ → PthreadMutex) (t : ℕ) (p : Pthread) : Prop :=
  match p.phase with
  | .idle => p.wchan = none
  | .entering call => p.wchan = none ∧ (mutex call.mutex).owner = some t ∧
      (mutex call.mutex).count = call.entry
  | .queueing call => p.wchan = none ∧ (mutex call.mutex).owner ≠ some t ∧
      call.recurse = call.entry
  | .queued call => Waiting mutex t p call
  | .sleeping call => Waiting mutex t p call
  | .woken call timedOut => Waiting mutex t p call ∧ (timedOut = false → p.wchan = none)
  | .relocking call error => p.wchan = none ∧ (mutex call.mutex).owner ≠ some t ∧
      call.recurse = call.entry ∧ Reports p error
  | .returned call error => p.wchan = none ∧ (mutex call.mutex).owner = some t ∧
      (mutex call.mutex).count = call.entry ∧ Reports p error
  | .unreachable => False

/-- The mutexes look the same to a thread: which it owns, and with which counts. -/
def SameFor (t : ℕ) (mutex mutex' : ℕ → PthreadMutex) : Prop :=
  ∀ m, ((mutex' m).owner = some t ↔ (mutex m).owner = some t) ∧
    ((mutex m).owner = some t → (mutex' m).count = (mutex m).count)

theorem SameFor.refl (t : ℕ) (mutex : ℕ → PthreadMutex) : SameFor t mutex mutex :=
  fun _ => ⟨Iff.rfl, fun _ => rfl⟩

theorem sameFor_update {m : ℕ} {mp : PthreadMutex}
    (hbefore : (mutex m).owner ≠ some u) (hafter : mp.owner ≠ some u) :
    SameFor u mutex (update mutex m mp) := by
  intro m'
  rcases eq_or_ne m' m with rfl | hm
  · rw [update_self]
    exact ⟨⟨fun h => absurd h hafter, fun h => absurd h hbefore⟩, fun h => absurd h hbefore⟩
  · rw [update_of_ne hm]
    exact ⟨Iff.rfl, fun _ => rfl⟩

theorem Waiting.congr (h : Waiting mutex t p call) (hsame : SameFor t mutex mutex') :
    Waiting mutex' t p call :=
  ⟨mt (hsame _).1.1 h.owner, h.recurse, h.mutexObj, h.wchan⟩

theorem Position.congr (h : Position mutex t p) (hsame : SameFor t mutex mutex') :
    Position mutex' t p := by
  unfold Position at h ⊢
  split
  · next hp => simpa only [hp] using h
  · next call hp =>
      simp only [hp] at h
      exact ⟨h.1, (hsame _).1.2 h.2.1, ((hsame _).2 h.2.1).trans h.2.2⟩
  · next call hp =>
      simp only [hp] at h
      exact ⟨h.1, mt (hsame _).1.1 h.2.1, h.2.2⟩
  · next call hp =>
      simp only [hp] at h
      exact h.congr hsame
  · next call hp =>
      simp only [hp] at h
      exact h.congr hsame
  · next call timedOut hp =>
      simp only [hp] at h
      exact ⟨h.1.congr hsame, h.2⟩
  · next call error hp =>
      simp only [hp] at h
      exact ⟨h.1, mt (hsame _).1.1 h.2.1, h.2.2⟩
  · next call error hp =>
      simp only [hp] at h
      exact ⟨h.1, (hsame _).1.2 h.2.1, ((hsame _).2 h.2.1).trans h.2.2.1, h.2.2.2⟩
  · next hp => simp only [hp] at h

theorem Position.congr_thread (h : Position mutex t p) (hphase : p'.phase = p.phase)
    (hwchan : p'.wchan = p.wchan) (hmutexObj : p'.mutexObj = p.mutexObj)
    (hdequeued : p'.dequeued = p.dequeued) : Position mutex t p' := by
  have hwaiting : ∀ call, Waiting mutex t p call → Waiting mutex t p' call := by
    intro call hw
    refine ⟨hw.owner, hw.recurse, hmutexObj.trans hw.mutexObj, ?_⟩
    rw [hwchan, hdequeued]
    exact hw.wchan
  unfold Position Reports at *
  rw [hphase, hwchan, hdequeued]
  split
  all_goals
    next hp =>
      simp only [hp] at h <;> first
        | exact h
        | exact hwaiting _ h
        | exact ⟨hwaiting _ h.1, h.2⟩

theorem Position.free (h : Position mutex t p) (hfree : p.free = true) :
    p.wchan = none ∧ p.releases = [] := by
  unfold Pthread.free at hfree
  rw [Bool.and_eq_true, List.isEmpty_iff] at hfree
  refine ⟨?_, hfree.1⟩
  unfold Position at h
  have hphase := hfree.2
  split at hphase
  · next hp => simpa only [hp] using h
  · next call error hp =>
      simp only [hp] at h
      exact h.1
  · cases hphase

theorem Position.dequeue (h : Position mutex t p) (hwchan : p.wchan ≠ none) :
    Position mutex t { p with wchan := none, dequeued := true } ∧ p.mutexObj ≠ none := by
  have hwaiting : ∀ call, Waiting mutex t p call →
      Waiting mutex t { p with wchan := none, dequeued := true } call ∧ p.mutexObj ≠ none := by
    intro call hw
    refine ⟨⟨hw.owner, hw.recurse, hw.mutexObj, rfl⟩, ?_⟩
    rw [hw.mutexObj]
    exact Option.some_ne_none _
  unfold Position at *
  simp only
  split
  · next hp =>
      simp only [hp] at h
      exact absurd h hwchan
  · next call hp =>
      simp only [hp] at h
      exact absurd h.1 hwchan
  · next call hp =>
      simp only [hp] at h
      exact absurd h.1 hwchan
  · next call hp =>
      simp only [hp] at h
      exact hwaiting call h
  · next call hp =>
      simp only [hp] at h
      exact hwaiting call h
  · next call timedOut hp =>
      simp only [hp] at h
      exact ⟨⟨(hwaiting call h.1).1, fun _ => True.intro⟩, (hwaiting call h.1).2⟩
  · next call error hp =>
      simp only [hp] at h
      exact absurd h.1 hwchan
  · next call error hp =>
      simp only [hp] at h
      exact absurd h.1 hwchan
  · next hp =>
      simp only [hp] at h

/-! ### The invariant -/

/-- The thread is in its sleep, or goes into it. -/
def Asleep (p : Pthread) : Prop :=
  (∃ call, p.phase = .queued call) ∨ ∃ call, p.phase = .sleeping call

/-- No token and no release is left over from an earlier wait of a queued thread, and a thread
that was taken off the queue in its sleep has one of the two. -/
structure CondInv (s : CondState) : Prop where
  position : ∀ t, Position s.mutex t (s.thread t)
  blocked : ∀ t c, t ∈ s.blocked c ↔ (s.thread t).wchan = some c
  nodup : ∀ c, (s.blocked c).Nodup
  owed_nodup : ∀ u, (s.thread u).owed.Nodup
  owed_unique : ∀ u v t, t ∈ (s.thread u).owed → t ∈ (s.thread v).owed → u = v
  owed_clear : ∀ u t, t ∈ (s.thread u).owed →
    (s.thread t).wakeSema = 0 ∧ (s.thread t).wchan = none
  sema_le : ∀ t, (s.thread t).wakeSema ≤ 1
  blocked_clear : ∀ t, (s.thread t).wchan ≠ none → (s.thread t).wakeSema = 0
  wakes : ∀ t, Asleep (s.thread t) → (s.thread t).wchan = none →
    (s.thread t).wakeSema = 1 ∨ ∃ u, t ∈ (s.thread u).owed
  overReleased : s.overReleased = false

theorem CondInv.init (type : ℕ → PthreadMutexType) : CondInv (.init type) where
  position _ := rfl
  blocked t c := ⟨fun h => absurd h List.not_mem_nil, fun h => by cases h⟩
  nodup _ := List.nodup_nil
  owed_nodup _ := List.nodup_nil
  owed_unique _ _ _ h := absurd h List.not_mem_nil
  owed_clear _ _ h := absurd h List.not_mem_nil
  sema_le _ := Nat.zero_le 1
  blocked_clear _ _ := rfl
  wakes t h := by
    rcases h with ⟨call, h⟩ | ⟨call, h⟩ <;> exact CondPhase.noConfusion h
  overReleased := rfl

theorem forall_update {P : ℕ → Pthread → Prop} {thread : ℕ → Pthread} (ht : P t p)
    (hother : ∀ u, u ≠ t → P u (thread u)) : ∀ u, P u (update thread t p u) := by
  intro u
  rcases eq_or_ne u t with rfl | hne
  · rw [update_self]
    exact ht
  · rw [update_of_ne hne]
    exact hother u hne

theorem CondInv.own (h : CondInv s) {chainLocked : ℕ → Bool} (mutex' : ℕ → PthreadMutex)
    (hwchan : p.wchan = (s.thread t).wchan) (hsema : p.wakeSema ≤ (s.thread t).wakeSema)
    (howed : p.owed = (s.thread t).owed)
    (hasleep : Asleep p → Asleep (s.thread t) ∧ p.wakeSema = (s.thread t).wakeSema)
    (hpos : Position mutex' t p) (hother : ∀ u, u ≠ t → SameFor u s.mutex mutex') :
    CondInv { s with
      thread := update s.thread t p
      mutex := mutex'
      chainLocked := chainLocked } := by
  have hsame : ∀ u, (update s.thread t p u).wchan = (s.thread u).wchan ∧
      (update s.thread t p u).wakeSema ≤ (s.thread u).wakeSema ∧
      (update s.thread t p u).owed = (s.thread u).owed ∧
      (Asleep (update s.thread t p u) → Asleep (s.thread u) ∧
        (update s.thread t p u).wakeSema = (s.thread u).wakeSema) :=
    forall_update (P := fun u q => q.wchan = (s.thread u).wchan ∧
        q.wakeSema ≤ (s.thread u).wakeSema ∧ q.owed = (s.thread u).owed ∧
        (Asleep q → Asleep (s.thread u) ∧ q.wakeSema = (s.thread u).wakeSema))
      ⟨hwchan, hsema, howed, hasleep⟩ fun u _ => ⟨rfl, Nat.le_refl _, rfl, fun hu => ⟨hu, rfl⟩⟩
  constructor
  · exact forall_update hpos fun u hne => (h.position u).congr (hother u hne)
  · intro u c
    change u ∈ s.blocked c ↔ (update s.thread t p u).wchan = some c
    rw [(hsame u).1]
    exact h.blocked u c
  · exact h.nodup
  · intro u
    change (update s.thread t p u).owed.Nodup
    rw [(hsame u).2.2.1]
    exact h.owed_nodup u
  · intro u v w
    change w ∈ (update s.thread t p u).owed →
      w ∈ (update s.thread t p v).owed → u = v
    rw [(hsame u).2.2.1, (hsame v).2.2.1]
    exact h.owed_unique u v w
  · intro u v
    change v ∈ (update s.thread t p u).owed →
      (update s.thread t p v).wakeSema = 0 ∧ (update s.thread t p v).wchan = none
    rw [(hsame u).2.2.1, (hsame v).1]
    intro hv
    obtain ⟨hzero, hnone⟩ := h.owed_clear u v hv
    exact ⟨Nat.le_zero.1 (hzero ▸ (hsame v).2.1), hnone⟩
  · exact fun u => Nat.le_trans (hsame u).2.1 (h.sema_le u)
  · intro u
    change (update s.thread t p u).wchan ≠ none →
      (update s.thread t p u).wakeSema = 0
    rw [(hsame u).1]
    exact fun hu => Nat.le_zero.1 (h.blocked_clear u hu ▸ (hsame u).2.1)
  · intro u
    change Asleep (update s.thread t p u) →
      (update s.thread t p u).wchan = none →
      (update s.thread t p u).wakeSema = 1 ∨
        ∃ v, u ∈ (update s.thread t p v).owed
    rw [(hsame u).1]
    intro hu hnone
    obtain ⟨hasleep, hsema⟩ := (hsame u).2.2.2 hu
    rw [hsema]
    refine (h.wakes u hasleep hnone).imp id ?_
    rintro ⟨v, hv⟩
    refine ⟨v, ?_⟩
    rw [(hsame v).2.2.1]
    exact hv
  · exact h.overReleased

theorem not_asleep (h : ∀ call, p.phase ≠ .queued call) (h' : ∀ call, p.phase ≠ .sleeping call) :
    ¬ Asleep p := by
  rintro (⟨call, hp⟩ | ⟨call, hp⟩)
  · exact h call hp
  · exact h' call hp

/-! ### `Wait` -/

theorem CondInv.wait (h : CondInv s) {c m : ℕ} {timed : Bool}
    (hs : s.wait t c m timed = some s') : CondInv s' := by
  have hpos := h.position t
  unfold CondState.wait at hs
  simp only at hs
  split at hs
  · cases hs
  next hfree =>
    have hnone := (hpos.free (by simpa using hfree)).1
    split at hs
    · cases hs
      refine h.own s.mutex rfl (Nat.le_refl _) rfl (fun hp => ?_) hnone fun u _ => .refl u _
      exact absurd hp (not_asleep (fun _ => CondPhase.noConfusion) fun _ => CondPhase.noConfusion)
    next howner =>
      rw [if_neg (not_not.2 hnone)] at hs
      cases hs
      refine h.own s.mutex rfl (Nat.le_refl _) rfl (fun hp => ?_)
        ⟨hnone, not_not.1 howner, rfl⟩ fun u _ => .refl u _
      exact absurd hp (not_asleep (fun _ => CondPhase.noConfusion) fun _ => CondPhase.noConfusion)

theorem PthreadMutex.cvUnlock_owner (mp : PthreadMutex) : mp.cvUnlock.1.owner = none := by
  unfold PthreadMutex.cvUnlock PthreadMutex.unlock
  rw [if_neg fun hcount => absurd hcount.2 (Int.lt_irrefl 0)]

theorem CondInv.enter (h : CondInv s) (hs : s.enter hash t = some s') : CondInv s' := by
  have hpos := h.position t
  unfold CondState.enter at hs
  simp only at hs
  split at hs
  · next call hphase =>
      simp only [Position, hphase] at hpos
      split at hs
      · cases hs
      · cases hs
        have hgone : (s.mutex call.mutex).cvUnlock.1.owner = none :=
          PthreadMutex.cvUnlock_owner _
        refine h.own _ rfl (Nat.le_refl _) rfl (fun hp => ?_) ⟨hpos.1, ?_, hpos.2.2⟩ fun u hne => ?_
        · exact absurd hp
            (not_asleep (fun _ => CondPhase.noConfusion) fun _ => CondPhase.noConfusion)
        · change (update s.mutex call.mutex _ call.mutex).owner ≠ some t
          rw [update_self, hgone]
          exact (Option.some_ne_none _).symm
        · apply sameFor_update
          · rw [hpos.2.1]
            exact fun heq => hne (Option.some.inj heq).symm
          · rw [hgone]
            exact (Option.some_ne_none _).symm
  · cases hs

theorem CondInv.sleep (h : CondInv s) (hs : s.sleep t = some s') : CondInv s' := by
  have hpos := h.position t
  unfold CondState.sleep at hs
  simp only at hs
  split at hs
  · next call hphase =>
      simp only [Position, hphase] at hpos
      cases hs
      refine h.own s.mutex rfl (Nat.le_refl _)
        (by simp [Pthread.owed, Pthread.wakeAll]) (fun _ => ⟨.inl ⟨call, hphase⟩, rfl⟩) ?_
        fun u _ => .refl u _
      exact ⟨hpos.owner, hpos.recurse, hpos.mutexObj, hpos.wchan⟩
  · cases hs

theorem CondInv.expire (h : CondInv s) (hs : s.expire t = some s') : CondInv s' := by
  have hpos := h.position t
  unfold CondState.expire at hs
  simp only at hs
  split at hs
  · next call hphase =>
      simp only [Position, hphase] at hpos
      split at hs
      · cases hs
      · cases hs
        refine h.own s.mutex rfl (Nat.le_refl _) rfl (fun hp => ?_) ?_ fun u _ => .refl u _
        · exact absurd hp
            (not_asleep (fun _ => CondPhase.noConfusion) fun _ => CondPhase.noConfusion)
        · exact ⟨⟨hpos.owner, hpos.recurse, hpos.mutexObj, hpos.wchan⟩,
            fun heq => Bool.noConfusion heq⟩
  · cases hs

theorem PthreadMutex.cvLock_cases {mp : PthreadMutex} {recurse : ℤ} {r : PthreadMutex × ℤ}
    (hs : mp.cvLock t recurse = some r) (howner : mp.owner ≠ some t) :
    mp.owner = none ∧ r = ({ mp with owner := some t, count := recurse }, 0) := by
  unfold PthreadMutex.cvLock PthreadMutex.lock at hs
  rw [if_neg howner] at hs
  split at hs
  · next hfree =>
      refine ⟨hfree, ?_⟩
      simpa using hs.symm
  · cases hs

theorem CondInv.relock (h : CondInv s) (hs : s.relock t = some s') : CondInv s' := by
  have hpos := h.position t
  unfold CondState.relock at hs
  simp only at hs
  split at hs
  · next call error hphase =>
      simp only [Position, hphase] at hpos
      obtain ⟨hnone, howner, hrecurse, hreports⟩ := hpos
      obtain ⟨r, hr, rfl⟩ := Option.map_eq_some_iff.1 hs
      obtain ⟨hfree, rfl⟩ := PthreadMutex.cvLock_cases hr howner
      refine h.own _ rfl (Nat.le_refl _) rfl (fun hp => ?_) ⟨hnone, ?_, ?_, ?_⟩ fun u hne => ?_
      · exact absurd hp
          (not_asleep (fun _ => CondPhase.noConfusion) fun _ => CondPhase.noConfusion)
      · change (update s.mutex call.mutex _ call.mutex).owner = some t
        rw [update_self]
      · change (update s.mutex call.mutex _ call.mutex).count = call.entry
        rw [update_self]
        exact hrecurse
      · simp only
        split
        · next hzero => exact hzero ▸ hreports
        · exact hreports
      · apply sameFor_update
        · rw [hfree]
          exact (Option.some_ne_none _).symm
        · exact fun heq => hne (Option.some.inj heq).symm
  · cases hs

/-! ### The queue -/

theorem CondInv.add (h : CondInv s) (hclear : ∀ u, t ∉ (s.thread u).owed)
    (hs : s.add hash t = some s') : CondInv s' := by
  have hpos := h.position t
  unfold CondState.add at hs
  simp only at hs
  split at hs
  · next call hphase =>
      simp only [Position, hphase] at hpos
      cases hs
      have hself : t ∉ s.blocked call.cond := by
        rw [h.blocked, hpos.1]
        exact (Option.some_ne_none _).symm
      have hother : ∀ (q : Pthread) u, u ≠ t → update s.thread t q u = s.thread u :=
        fun q u hne => update_of_ne hne q s.thread
      -- the thread itself owes what it owed before
      have howed : ∀ q : Pthread, q.owed = (s.thread t).owed → ∀ u,
          (update s.thread t q u).owed = (s.thread u).owed := by
        intro q hq u
        rcases eq_or_ne u t with rfl | hne
        · rw [update_self, hq]
        · rw [hother q u hne]
      constructor
      · apply forall_update _ fun u _ => h.position u
        exact ⟨hpos.2.1, hpos.2.2, rfl, rfl⟩
      · intro u c
        change u ∈ update s.blocked call.cond _ c ↔
          (update s.thread t _ u).wchan = some c
        rcases eq_or_ne u t with rfl | hne
        · rw [update_self]
          rcases eq_or_ne c call.cond with rfl | hc
          · rw [update_self]
            exact ⟨fun _ => rfl, fun _ => List.mem_cons_self⟩
          · rw [update_of_ne hc, h.blocked, hpos.1]
            exact ⟨fun heq => absurd heq (Option.some_ne_none _).symm,
              fun heq => absurd (Option.some.inj heq).symm hc⟩
        · rw [hother _ u hne, ← h.blocked]
          rcases eq_or_ne c call.cond with rfl | hc
          · rw [update_self, List.mem_cons, or_iff_right hne]
          · rw [update_of_ne hc]
      · intro c
        change (update s.blocked call.cond _ c).Nodup
        rcases eq_or_ne c call.cond with rfl | hc
        · rw [update_self]
          exact List.nodup_cons.2 ⟨hself, h.nodup _⟩
        · rw [update_of_ne hc]
          exact h.nodup c
      · intro u
        refine (congrArg List.Nodup (howed _ ?_ u)).mpr (h.owed_nodup u)
        rfl
      · intro u v w hu hv
        exact h.owed_unique u v w ((howed _ (by rfl) u).subst (motive := (w ∈ ·)) hu)
          ((howed _ (by rfl) v).subst (motive := (w ∈ ·)) hv)
      · intro u v howes
        have hv : v ∈ (s.thread u).owed := (howed _ (by rfl) u).subst (motive := (v ∈ ·)) howes
        have hne : v ≠ t := by
          rintro rfl
          exact hclear u hv
        change (update s.thread t _ v).wakeSema = 0 ∧
          (update s.thread t _ v).wchan = none
        rw [hother _ v hne]
        exact h.owed_clear u v hv
      · apply forall_update (P := fun _ q => q.wakeSema ≤ 1) _ fun u _ => h.sema_le u
        exact Nat.le_trans (Nat.sub_le _ _) (h.sema_le t)
      · apply forall_update (P := fun _ q => q.wchan ≠ none → q.wakeSema = 0) _
          fun u _ => h.blocked_clear u
        intro _
        have := h.sema_le t
        change (s.thread t).wakeSema - 1 = 0
        omega
      · intro u
        rcases eq_or_ne u t with rfl | hne
        · intro _ hnone
          change (update s.thread u _ u).wchan = none at hnone
          rw [update_self] at hnone
          cases hnone
        · intro hasleep hnone
          change Asleep (update s.thread t _ u) at hasleep
          change (update s.thread t _ u).wchan = none at hnone
          change (update s.thread t _ u).wakeSema = 1 ∨
            ∃ v, u ∈ (update s.thread t _ v).owed
          rw [hother _ u hne] at hasleep hnone ⊢
          refine (h.wakes u hasleep hnone).imp id ?_
          rintro ⟨v, hv⟩
          exact ⟨v, (howed _ (by rfl) v).symm.subst (motive := (u ∈ ·)) hv⟩
      · exact h.overReleased
  · cases hs

theorem CondInv.acquire (h : CondInv s) (hs : s.acquire t = some s') : CondInv s' := by
  have hpos := h.position t
  unfold CondState.acquire at hs
  simp only at hs
  split at hs
  · next call hphase =>
      simp only [Position, hphase] at hpos
      split at hs
      · cases hs
      · next hready =>
          cases hs
          have hsema : (s.thread t).wakeSema ≠ 0 := fun hzero => hready (.inr hzero)
          have hnone : (s.thread t).wchan = none :=
            not_not.1 fun hsome => hsema (h.blocked_clear t hsome)
          refine h.own s.mutex rfl (Nat.sub_le _ _) rfl (fun hp => ?_) ?_
            fun u _ => .refl u _
          · exact absurd hp
              (not_asleep (fun _ => CondPhase.noConfusion) fun _ => CondPhase.noConfusion)
          · exact ⟨⟨hpos.owner, hpos.recurse, hpos.mutexObj, hpos.wchan⟩, fun _ => hnone⟩
  · cases hs

theorem CondInv.leave (h : CondInv s) {c : ℕ} (hc : (s.thread t).wchan = some c)
    (hwchan : p.wchan = none) (hsema : p.wakeSema = (s.thread t).wakeSema)
    (howed : p.owed = (s.thread t).owed) (hasleep : ¬ Asleep p) (hpos : Position s.mutex t p) :
    CondInv { s with
      thread := update s.thread t p
      blocked := update s.blocked c ((s.blocked c).filter (· ≠ t)) } := by
  have howed' : ∀ u, (update s.thread t p u).owed = (s.thread u).owed :=
    forall_update (P := fun u q => q.owed = (s.thread u).owed) howed fun _ _ => rfl
  have hother : ∀ u, u ≠ t → update s.thread t p u = s.thread u :=
    fun u hne => update_of_ne hne p s.thread
  constructor
  · exact forall_update hpos fun u _ => h.position u
  · intro u c'
    change u ∈ update s.blocked c _ c' ↔ (update s.thread t p u).wchan = some c'
    rcases eq_or_ne u t with rfl | hne
    · rw [update_self, hwchan]
      refine ⟨fun hmem => ?_, fun heq => absurd heq (Option.some_ne_none _).symm⟩
      rcases eq_or_ne c' c with rfl | hc'
      · rw [update_self] at hmem
        simp at hmem
      · rw [update_of_ne hc', h.blocked, hc] at hmem
        exact absurd (Option.some.inj hmem).symm hc'
    · rw [hother u hne, ← h.blocked]
      rcases eq_or_ne c' c with rfl | hc'
      · rw [update_self]
        simp [hne]
      · rw [update_of_ne hc']
  · intro c'
    change (update s.blocked c _ c').Nodup
    rcases eq_or_ne c' c with rfl | hc'
    · rw [update_self]
      exact (h.nodup _).filter _
    · rw [update_of_ne hc']
      exact h.nodup c'
  · intro u
    change (update s.thread t p u).owed.Nodup
    rw [howed']
    exact h.owed_nodup u
  · intro u v w
    change w ∈ (update s.thread t p u).owed →
      w ∈ (update s.thread t p v).owed → u = v
    rw [howed', howed']
    exact h.owed_unique u v w
  · intro u v
    change v ∈ (update s.thread t p u).owed →
      (update s.thread t p v).wakeSema = 0 ∧ (update s.thread t p v).wchan = none
    rw [howed']
    intro hv
    obtain ⟨hzero, hnone⟩ := h.owed_clear u v hv
    refine forall_update (P := fun w q => w = v → q.wakeSema = 0 ∧ q.wchan = none) ?_ ?_ v rfl
    · rintro rfl
      exact ⟨hsema.trans hzero, hwchan⟩
    · rintro w _ rfl
      exact ⟨hzero, hnone⟩
  · exact forall_update (P := fun _ q => q.wakeSema ≤ 1) (hsema ▸ h.sema_le t)
      fun u _ => h.sema_le u
  · exact forall_update (P := fun _ q => q.wchan ≠ none → q.wakeSema = 0)
      (fun hsome => absurd hwchan hsome) fun u _ => h.blocked_clear u
  · intro u
    change Asleep (update s.thread t p u) →
      (update s.thread t p u).wchan = none →
      (update s.thread t p u).wakeSema = 1 ∨
        ∃ v, u ∈ (update s.thread t p v).owed
    rcases eq_or_ne u t with rfl | hne
    · rw [update_self]
      exact fun hp => absurd hp hasleep
    · rw [hother u hne]
      intro hu hnone
      refine (h.wakes u hu hnone).imp id ?_
      rintro ⟨v, hv⟩
      refine ⟨v, ?_⟩
      rw [howed']
      exact hv
  · exact h.overReleased

theorem CondInv.recheck (h : CondInv s) (hs : s.recheck hash t = some s') : CondInv s' := by
  have hpos := h.position t
  unfold CondState.recheck at hs
  simp only at hs
  split at hs
  · next call timedOut hphase =>
      simp only [Position, hphase] at hpos
      obtain ⟨hw, hwoken⟩ := hpos
      have hasleep : ∀ p : Pthread, (∃ error, p.phase = .relocking call error) → ¬ Asleep p := by
        rintro p ⟨error, hp⟩
        apply not_asleep
        all_goals
          intro call'
          rw [hp]
          exact CondPhase.noConfusion
      split at hs
      · cases hs
      split at hs
      · next hnone =>
          cases hs
          have hdequeued : (s.thread t).dequeued = true := by
            have hwchan := hw.wchan
            rw [hnone] at hwchan
            by_contra hd
            rw [if_neg hd] at hwchan
            exact absurd hwchan (Option.some_ne_none _).symm
          refine h.own s.mutex rfl (Nat.le_refl _) rfl
            (fun hp => absurd hp (hasleep _ ⟨0, rfl⟩)) ⟨hnone, hw.owner, hw.recurse, ?_⟩
            fun u _ => .refl u _
          exact (if_pos hdequeued).symm
      next hsome =>
        have hdequeued : (s.thread t).dequeued = false := by
          by_contra hd
          have hwchan := hw.wchan
          rw [if_pos (by simpa using hd)] at hwchan
          exact hsome hwchan
        have hc : (s.thread t).wchan = some call.cond := by
          have hwchan := hw.wchan
          rw [hdequeued] at hwchan
          exact hwchan
        split at hs
        · cases hs
          refine h.leave hc rfl rfl rfl (hasleep _ ⟨_, rfl⟩) ⟨rfl, hw.owner, hw.recurse, ?_⟩
          change posixEtimedout = if (s.thread t).dequeued then 0 else posixEtimedout
          rw [hdequeued]
          rfl
        · next htime => exact absurd (hwoken (by simpa using htime)) hsome
  · cases hs

/-! ### Signals and broadcasts -/

/-- The threads after some of them are taken off a queue. -/
def CondState.dequeued (s : CondState) (l : List ℕ) (t : ℕ) : Pthread :=
  if t ∈ l then { s.thread t with wchan := none, dequeued := true } else s.thread t

theorem CondInv.dequeue (h : CondInv s) {c : ℕ} {l rest : List ℕ}
    (hl : s.blocked c = l ++ rest) (hu : (s.thread u).wchan = none) (hphase : p.phase = .idle)
    (hwchan : p.wchan = none) (hsema : p.wakeSema = (s.thread u).wakeSema)
    (howed : p.owed.Perm ((s.thread u).owed ++ l)) (hmutex : ∀ t, SameFor t s.mutex mutex') :
    CondInv { s with
      thread := update (s.dequeued l) u p
      mutex := mutex'
      blocked := update s.blocked c rest } := by
  have hmem : ∀ t ∈ l, (s.thread t).wchan = some c := by
    intro t ht
    rw [← h.blocked, hl]
    exact List.mem_append_left _ ht
  have hul : u ∉ l := by
    intro hin
    exact absurd ((hmem u hin).symm.trans hu) (Option.some_ne_none c)
  have hfresh : ∀ t ∈ l, ∀ v, t ∉ (s.thread v).owed := by
    intro t ht v hv
    exact absurd ((hmem t ht).symm.trans (h.owed_clear v t hv).2) (Option.some_ne_none c)
  have hparts := h.nodup c
  rw [hl] at hparts
  have hthread : ∀ t, (update (s.dequeued l) u p t).wchan =
        (if t ∈ l then none else (s.thread t).wchan) ∧
      (update (s.dequeued l) u p t).wakeSema = (s.thread t).wakeSema ∧
      (Asleep (update (s.dequeued l) u p t) → Asleep (s.thread t)) := by
    apply forall_update (P := fun t q => q.wchan = (if t ∈ l then none else (s.thread t).wchan) ∧
      q.wakeSema = (s.thread t).wakeSema ∧ (Asleep q → Asleep (s.thread t)))
    · refine ⟨?_, hsema, ?_⟩
      · rw [if_neg hul, hwchan, hu]
      · rintro (⟨call, hp⟩ | ⟨call, hp⟩) <;> exact CondPhase.noConfusion (hphase.symm.trans hp)
    · intro t _
      unfold CondState.dequeued
      split
      · exact ⟨rfl, rfl, id⟩
      · exact ⟨rfl, rfl, id⟩
  have howed_iff : ∀ v t, t ∈ (update (s.dequeued l) u p v).owed ↔
      t ∈ (s.thread v).owed ∨ v = u ∧ t ∈ l := by
    apply forall_update (P := fun v q => ∀ t, t ∈ q.owed ↔
      t ∈ (s.thread v).owed ∨ v = u ∧ t ∈ l)
    · intro t
      rw [howed.mem_iff, List.mem_append]
      simp
    · intro v hne t
      unfold CondState.dequeued
      split <;> simp [Pthread.owed, hne]
  constructor
  · apply forall_update
    · unfold Position
      rw [hphase]
      exact hwchan
    · intro t _
      unfold CondState.dequeued
      split
      · next ht =>
          have hsome : (s.thread t).wchan ≠ none := by
            rw [hmem t ht]
            exact Option.some_ne_none c
          exact ((h.position t).dequeue hsome).1.congr (hmutex t)
      · exact (h.position t).congr (hmutex t)
  · intro t c'
    change t ∈ update s.blocked c rest c' ↔
      (update (s.dequeued l) u p t).wchan = some c'
    rw [(hthread t).1]
    by_cases ht : t ∈ l
    · rw [if_pos ht]
      refine ⟨fun hin => ?_, fun heq => absurd heq (Option.some_ne_none c').symm⟩
      rcases eq_or_ne c' c with rfl | hc'
      · rw [update_self] at hin
        exact absurd hin ((List.nodup_append.1 hparts).2.2 t ht t · rfl)
      · rw [update_of_ne hc', h.blocked, hmem t ht] at hin
        exact absurd (Option.some.inj hin).symm hc'
    · rw [if_neg ht, ← h.blocked]
      rcases eq_or_ne c' c with rfl | hc'
      · rw [update_self, hl, List.mem_append, or_iff_right ht]
      · rw [update_of_ne hc']
  · intro c'
    change (update s.blocked c rest c').Nodup
    rcases eq_or_ne c' c with rfl | hc'
    · rw [update_self]
      exact (List.nodup_append.1 hparts).2.1
    · rw [update_of_ne hc']
      exact h.nodup c'
  · apply forall_update (P := fun _ q => q.owed.Nodup)
    · apply howed.nodup_iff.2
      refine List.nodup_append.2 ⟨h.owed_nodup u, (List.nodup_append.1 hparts).1, ?_⟩
      rintro t ht _ hin rfl
      exact hfresh t hin u ht
    · intro v _
      unfold CondState.dequeued
      split <;> exact h.owed_nodup v
  · intro v w t hv' hw'
    rcases (howed_iff v t).1 hv' with hv | ⟨rfl, hv⟩ <;>
      rcases (howed_iff w t).1 hw' with hw | ⟨rfl, hw⟩
    · exact h.owed_unique v w t hv hw
    · exact absurd hv (hfresh t hw v)
    · exact absurd hw (hfresh t hv w)
    · rfl
  · intro v t hv
    change (update (s.dequeued l) u p t).wakeSema = 0 ∧
      (update (s.dequeued l) u p t).wchan = none
    rw [(hthread t).1, (hthread t).2.1]
    rcases (howed_iff v t).1 hv with hv | ⟨-, hin⟩
    · obtain ⟨hzero, hnone⟩ := h.owed_clear v t hv
      refine ⟨hzero, ?_⟩
      rw [hnone, ite_self]
    · refine ⟨h.blocked_clear t ?_, if_pos hin⟩
      rw [hmem t hin]
      exact Option.some_ne_none c
  · intro t
    change (update (s.dequeued l) u p t).wakeSema ≤ 1
    rw [(hthread t).2.1]
    exact h.sema_le t
  · intro t
    change (update (s.dequeued l) u p t).wchan ≠ none →
      (update (s.dequeued l) u p t).wakeSema = 0
    rw [(hthread t).1, (hthread t).2.1]
    split
    · exact fun hsome => absurd rfl hsome
    · exact h.blocked_clear t
  · intro t
    change Asleep (update (s.dequeued l) u p t) →
      (update (s.dequeued l) u p t).wchan = none →
      (update (s.dequeued l) u p t).wakeSema = 1 ∨
        ∃ v, t ∈ (update (s.dequeued l) u p v).owed
    rw [(hthread t).1, (hthread t).2.1]
    intro hasleep hnone
    by_cases ht : t ∈ l
    · exact .inr ⟨u, (howed_iff u t).2 (.inr ⟨rfl, ht⟩)⟩
    · rw [if_neg ht] at hnone
      refine (h.wakes t ((hthread t).2.2 hasleep) hnone).imp id ?_
      rintro ⟨v, hv⟩
      exact ⟨v, (howed_iff v t).2 (.inl hv)⟩
  · exact h.overReleased

theorem CondState.update_eq_dequeued (s : CondState) (td : ℕ) (q : Pthread) :
    update (update s.thread td
      { s.thread td with wchan := none, dequeued := true }) u q =
      update (s.dequeued [td]) u q := by
  congr 1
  funext t
  unfold CondState.dequeued
  rcases eq_or_ne t td with rfl | hne
  · rw [update_self, if_pos List.mem_cons_self]
  · rw [update_of_ne hne, if_neg (by simpa using hne)]

theorem sameFor_deferred {f : ℕ → Bool} :
    SameFor t mutex fun m => { mutex m with deferred := f m } :=
  fun _ => ⟨Iff.rfl, fun _ => rfl⟩

theorem CondInv.signal (h : CondInv s) {c : ℕ} (hs : s.signal hash u c = some s') :
    CondInv s' := by
  unfold CondState.signal at hs
  simp only at hs
  split at hs
  · cases hs
  next hready =>
    have hfree : (s.thread u).free = true := by
      rw [Bool.or_eq_true, not_or] at hready
      simpa using hready.1
    obtain ⟨hnone, -⟩ := (h.position u).free hfree
    split at hs
    · cases hs
      refine h.own s.mutex rfl (Nat.le_refl _) rfl (fun hp => ?_) hnone
        fun v _ => .refl v _
      exact absurd hp (not_asleep (fun _ => CondPhase.noConfusion) fun _ => CondPhase.noConfusion)
    · next td rest hl =>
        split at hs
        · cases hs
        · next m hm =>
            split at hs
            · cases hs
              simp only [CondState.setThread, CondState.setMutex]
              rw [s.update_eq_dequeued]
              refine h.dequeue (l := [td]) hl hnone (by simp) (by simpa using hnone) (by simp)
                ?_ fun v m' => ?_
              · rw [Pthread.owed_defer]
                rfl
              · rcases eq_or_ne m' m with rfl | hne
                · rw [update_self]
                  exact ⟨Iff.rfl, fun _ => rfl⟩
                · rw [update_of_ne hne]
                  exact ⟨Iff.rfl, fun _ => rfl⟩
            · cases hs
              simp only [CondState.setThread]
              rw [s.update_eq_dequeued]
              refine h.dequeue (l := [td]) hl hnone rfl hnone rfl ?_ fun v => .refl v _
              simp only [Pthread.owed, List.append_assoc]
              exact (List.perm_append_comm : ([td] ++ _).Perm _).append_left _

theorem CondState.dropOne_spec (s : CondState) (u : ℕ) (r : Pthread × List ℕ) (td : ℕ) :
    ((s.dropOne u r td).1.owed ++ (s.dropOne u r td).2).Perm (r.1.owed ++ r.2 ++ [td]) ∧
      (s.dropOne u r td).1.wchan = r.1.wchan ∧ (s.dropOne u r td).1.wakeSema = r.1.wakeSema ∧
      (s.dropOne u r td).1.phase = r.1.phase := by
  unfold CondState.dropOne
  split
  · refine ⟨?_, by simp, by simp, by simp⟩
    simp only
    rw [Pthread.owed_defer, List.append_assoc, List.append_assoc]
    exact List.perm_append_comm.append_left _
  · split
    · refine ⟨?_, rfl, rfl, rfl⟩
      simp only [Pthread.owed, List.append_assoc]
      apply List.Perm.append_left
      rw [← List.append_assoc r.2, ← List.append_assoc r.1.deferWaiters]
      exact List.perm_append_comm.append_right _
    · exact ⟨by rw [List.append_assoc], rfl, rfl, rfl⟩

theorem CondState.foldl_dropOne (s : CondState) (u : ℕ) (l : List ℕ) (r : Pthread × List ℕ) :
    ((l.foldl (s.dropOne u) r).1.owed ++ (l.foldl (s.dropOne u) r).2).Perm
        (r.1.owed ++ r.2 ++ l) ∧
      (l.foldl (s.dropOne u) r).1.wchan = r.1.wchan ∧
      (l.foldl (s.dropOne u) r).1.wakeSema = r.1.wakeSema ∧
      (l.foldl (s.dropOne u) r).1.phase = r.1.phase := by
  induction l generalizing r with
  | nil => exact ⟨by rw [List.append_nil]; rfl, rfl, rfl, rfl⟩
  | cons td rest ih =>
      obtain ⟨hperm, hwchan, hsema, hphase⟩ := s.dropOne_spec u r td
      obtain ⟨hperm', hwchan', hsema', hphase'⟩ := ih (s.dropOne u r td)
      refine ⟨hperm'.trans ?_, hwchan'.trans hwchan, hsema'.trans hsema, hphase'.trans hphase⟩
      have hrest := hperm.append_right rest
      rwa [List.append_assoc _ [td] rest, List.singleton_append] at hrest

theorem CondInv.broadcast (h : CondInv s) {c : ℕ} (hs : s.broadcast hash u c = some s') :
    CondInv s' := by
  unfold CondState.broadcast at hs
  simp only at hs
  split at hs
  · cases hs
  next hready =>
    have hfree : (s.thread u).free = true := by
      rw [Bool.or_eq_true, not_or] at hready
      simpa using hready.1
    obtain ⟨hnone, -⟩ := (h.position u).free hfree
    cases hs
    obtain ⟨hperm, hwchan, hsema, hphase⟩ :=
      s.foldl_dropOne u (s.blocked c) ({ s.thread u with phase := .idle }, [])
    refine h.dequeue (l := s.blocked c) (List.append_nil _).symm hnone hphase
      (hwchan.trans hnone) hsema ?_ fun _ => sameFor_deferred
    refine List.Perm.trans ?_ (hperm.trans ?_)
    · simp only [Pthread.owed, List.append_assoc]
      exact List.perm_append_comm.append_left _
    · rw [List.append_nil]
      rfl

/-! ### Releases and mutexes -/

theorem CondInv.deliver (h : CondInv s) (hs : s.deliver u = some s') : CondInv s' := by
  unfold CondState.deliver at hs
  split at hs
  · cases hs
  next td rest hreleases =>
    cases hs
    have hhead : td ∈ (s.thread u).owed := by
      unfold Pthread.owed
      rw [hreleases]
      exact List.mem_cons_self
    have hparts := h.owed_nodup u
    unfold Pthread.owed at hparts
    rw [hreleases, List.cons_append, List.nodup_cons] at hparts
    obtain ⟨htd, hrest⟩ := hparts
    obtain ⟨hzero, hnone⟩ := h.owed_clear u td hhead
    -- the threads after the release
    let thread := update s.thread u { s.thread u with releases := rest }
    let thread' := update thread td { thread td with wakeSema := (thread td).wakeSema + 1 }
    have hthread : ∀ t, (thread t).wakeSema = (s.thread t).wakeSema ∧
        (thread t).wchan = (s.thread t).wchan ∧ (thread t).phase = (s.thread t).phase ∧
        (thread t).mutexObj = (s.thread t).mutexObj ∧
        (thread t).dequeued = (s.thread t).dequeued ∧
        (thread t).owed = if t = u then rest ++ (s.thread u).deferWaiters
          else (s.thread t).owed := by
      apply forall_update (P := fun t q => q.wakeSema = (s.thread t).wakeSema ∧
        q.wchan = (s.thread t).wchan ∧ q.phase = (s.thread t).phase ∧
        q.mutexObj = (s.thread t).mutexObj ∧ q.dequeued = (s.thread t).dequeued ∧
        q.owed = if t = u then rest ++ (s.thread u).deferWaiters else (s.thread t).owed)
      · rw [if_pos rfl]
        exact ⟨rfl, rfl, rfl, rfl, rfl, rfl⟩
      · intro t hne
        rw [if_neg hne]
        exact ⟨rfl, rfl, rfl, rfl, rfl, rfl⟩
    have hthread' : ∀ t, (thread' t).wakeSema = (if t = td then 1 else (s.thread t).wakeSema) ∧
        (thread' t).wchan = (s.thread t).wchan ∧ (thread' t).phase = (s.thread t).phase ∧
        (thread' t).mutexObj = (s.thread t).mutexObj ∧
        (thread' t).dequeued = (s.thread t).dequeued ∧ (thread' t).owed = (thread t).owed := by
      apply forall_update (P := fun t q =>
        q.wakeSema = (if t = td then 1 else (s.thread t).wakeSema) ∧
        q.wchan = (s.thread t).wchan ∧ q.phase = (s.thread t).phase ∧
        q.mutexObj = (s.thread t).mutexObj ∧ q.dequeued = (s.thread t).dequeued ∧
        q.owed = (thread t).owed)
      · obtain ⟨h₁, h₂, h₃, h₄, h₅, -⟩ := hthread td
        refine ⟨?_, h₂, h₃, h₄, h₅, rfl⟩
        rw [if_pos rfl]
        exact congrArg (· + 1) (h₁.trans hzero)
      · intro t hne
        obtain ⟨h₁, h₂, h₃, h₄, h₅, -⟩ := hthread t
        rw [if_neg hne]
        exact ⟨h₁, h₂, h₃, h₄, h₅, rfl⟩
    have howed : ∀ v t, t ∈ (thread' v).owed ↔ t ≠ td ∧ t ∈ (s.thread v).owed := by
      intro v t
      rw [(hthread' v).2.2.2.2.2, (hthread v).2.2.2.2.2]
      by_cases hv : v = u
      · subst hv
        rw [if_pos rfl]
        unfold Pthread.owed
        rw [hreleases, List.cons_append, List.mem_cons]
        constructor
        · intro ht
          exact ⟨fun heq => htd (heq ▸ ht), .inr ht⟩
        · rintro ⟨hne, ht⟩
          exact ht.resolve_left hne
      · rw [if_neg hv]
        refine ⟨fun ht => ⟨?_, ht⟩, fun ht => ht.2⟩
        rintro rfl
        exact hv (h.owed_unique v u t ht hhead)
    change CondInv { s with
      thread := thread'
      overReleased := s.overReleased || decide (0 < (thread td).wakeSema) }
    constructor
    · intro t
      obtain ⟨-, h₂, h₃, h₄, h₅, -⟩ := hthread' t
      exact (h.position t).congr_thread h₃ h₂ h₄ h₅
    · intro t c
      change t ∈ s.blocked c ↔ (thread' t).wchan = some c
      rw [(hthread' t).2.1]
      exact h.blocked t c
    · exact h.nodup
    · intro v
      change (thread' v).owed.Nodup
      rw [(hthread' v).2.2.2.2.2, (hthread v).2.2.2.2.2]
      split
      · exact hrest
      · exact h.owed_nodup v
    · intro v w t hv hw
      exact h.owed_unique v w t ((howed v t).1 hv).2 ((howed w t).1 hw).2
    · intro v t ht
      obtain ⟨hne, ht⟩ := (howed v t).1 ht
      change (thread' t).wakeSema = 0 ∧ (thread' t).wchan = none
      rw [(hthread' t).1, (hthread' t).2.1, if_neg hne]
      exact h.owed_clear v t ht
    · intro t
      change (thread' t).wakeSema ≤ 1
      rw [(hthread' t).1]
      split
      · exact Nat.le_refl 1
      · exact h.sema_le t
    · intro t hsome
      change (thread' t).wchan ≠ none at hsome
      change (thread' t).wakeSema = 0
      rw [(hthread' t).2.1] at hsome
      have hne : t ≠ td := by
        rintro rfl
        exact hsome hnone
      rw [(hthread' t).1, if_neg hne]
      exact h.blocked_clear t hsome
    · intro t hasleep ht
      change (thread' t).wchan = none at ht
      change (thread' t).wakeSema = 1 ∨ ∃ v, t ∈ (thread' v).owed
      rw [(hthread' t).2.1] at ht
      rw [(hthread' t).1]
      by_cases htd : t = td
      · rw [if_pos htd]
        exact .inl rfl
      · rw [if_neg htd]
        have hasleep' : Asleep (s.thread t) := by
          unfold Asleep at hasleep ⊢
          change (∃ call, (thread' t).phase = _) ∨ ∃ call, (thread' t).phase = _ at hasleep
          rwa [(hthread' t).2.2.1] at hasleep
        refine (h.wakes t hasleep' ht).imp id ?_
        rintro ⟨v, hv⟩
        exact ⟨v, (howed v t).2 ⟨htd, hv⟩⟩
    · change (s.overReleased || decide (0 < (thread td).wakeSema)) = false
      rw [h.overReleased, (hthread td).1, hzero]
      rfl

theorem PthreadMutex.lock_owner {mp : PthreadMutex} {r : PthreadMutex × ℤ}
    (hs : mp.lock t = some r) :
    (mp.owner = some t ∨ mp.owner = none) ∧ r.1.owner = some t := by
  unfold PthreadMutex.lock at hs
  split at hs
  · next howner =>
      refine ⟨.inl howner, ?_⟩
      unfold PthreadMutex.selfLock at hs
      split at hs
      · cases hs
        exact howner
      · cases hs
        exact howner
      · cases hs
      · split at hs <;> cases hs <;> exact howner
  · split at hs
    · next hfree =>
        cases hs
        exact ⟨.inr hfree, rfl⟩
    · cases hs

theorem PthreadMutex.unlock_owner (mp : PthreadMutex) :
    mp.unlock.1.owner = mp.owner ∨ mp.unlock.1.owner = none := by
  unfold PthreadMutex.unlock
  split
  · exact .inl rfl
  · exact .inr rfl

theorem ne_some_of_or {owner : Option ℕ} (h : owner = some t ∨ owner = none) (hne : u ≠ t) :
    owner ≠ some u := by
  rcases h with rfl | rfl
  · exact fun heq => hne (Option.some.inj heq).symm
  · exact (Option.some_ne_none u).symm

theorem CondInv.lock (h : CondInv s) {m : ℕ} (hs : s.lock t m = some s') : CondInv s' := by
  unfold CondState.lock at hs
  split at hs
  · cases hs
  next hfree =>
    have hnone := ((h.position t).free (by simpa using hfree)).1
    obtain ⟨r, hr, rfl⟩ := Option.map_eq_some_iff.1 hs
    obtain ⟨hbefore, hafter⟩ := PthreadMutex.lock_owner hr
    refine h.own _ rfl (Nat.le_refl _) rfl (fun hp => ?_) hnone fun u hne =>
      sameFor_update (ne_some_of_or hbefore hne) (ne_some_of_or (.inl hafter) hne)
    exact absurd hp (not_asleep (fun _ => CondPhase.noConfusion) fun _ => CondPhase.noConfusion)

theorem CondInv.unlock (h : CondInv s) {m : ℕ} (hs : s.unlock t m = some s') : CondInv s' := by
  unfold CondState.unlock at hs
  simp only at hs
  split at hs
  · cases hs
  next hfree =>
    have hnone := ((h.position t).free (by simpa using hfree)).1
    have hasleep : ∀ p : Pthread, p.phase = .idle → ¬ Asleep p := by
      intro p hp
      apply not_asleep
      all_goals
        intro call
        rw [hp]
        exact CondPhase.noConfusion
    split at hs
    · cases hs
      exact h.own s.mutex rfl (Nat.le_refl _) rfl (fun hp => absurd hp (hasleep _ rfl)) hnone
        fun u _ => .refl u _
    next howner =>
      cases hs
      have howner : (s.mutex m).owner = some t := not_not.1 howner
      have hafter := (s.mutex m).unlock_owner
      rw [howner] at hafter
      have hother : ∀ u, u ≠ t →
          SameFor u s.mutex (update s.mutex m (s.mutex m).unlock.1) := fun u hne =>
        sameFor_update (ne_some_of_or (.inl howner) hne) (ne_some_of_or hafter hne)
      split
      · exact h.own _ rfl (Nat.le_refl _) (by simp [Pthread.owed, Pthread.wakeAll])
          (fun hp => absurd hp (hasleep _ rfl)) hnone hother
      · exact h.own _ rfl (Nat.le_refl _) rfl (fun hp => absurd hp (hasleep _ rfl)) hnone hother

/-! ### All runs -/

/-- When a thread queues itself, no release of an earlier wait of it is still to come. -/
def CondAction.Fresh (s : CondState) : CondAction → Prop
  | .add t => ∀ u, t ∉ (s.thread u).owed
  | _ => True

/-- A step of any thread keeps it, the start of a wait included. -/
theorem CondInv.step (h : CondInv s) {a : CondAction} (hfresh : a.Fresh s)
    (hs : s.step hash a = some s') : CondInv s' := by
  cases a with
  | wait t c m timed => exact h.wait hs
  | enter t => exact h.enter hs
  | add t => exact h.add hfresh hs
  | sleep t => exact h.sleep hs
  | acquire t => exact h.acquire hs
  | expire t => exact h.expire hs
  | recheck t => exact h.recheck hs
  | relock t => exact h.relock hs
  | signal u c => exact h.signal hs
  | broadcast u c => exact h.broadcast hs
  | deliver u => exact h.deliver hs
  | lock t m => exact h.lock hs
  | unlock t m => exact h.unlock hs

theorem CondInv.mutexObj (h : CondInv s) {c : ℕ} (ht : t ∈ s.blocked c) :
    (s.thread t).mutexObj ≠ none := by
  apply ((h.position t).dequeue _).2
  rw [(h.blocked t c).1 ht]
  exact Option.some_ne_none c

theorem CondInv.signal_first (h : CondInv s) {c td : ℕ} {rest : List ℕ}
    (hl : s.blocked c = td :: rest) (hs : s.signal hash u c = some s') :
    s'.blocked = update s.blocked c rest ∧ (s'.thread td).dequeued = true ∧
      (s'.thread td).wchan = none ∧
      ∀ t, t ≠ td → (s'.thread t).dequeued = (s.thread t).dequeued ∧
        (s'.thread t).wchan = (s.thread t).wchan := by
  have htd : (s.thread td).wchan = some c := by
    rw [← h.blocked, hl]
    exact List.mem_cons_self
  unfold CondState.signal at hs
  simp only at hs
  split at hs
  · cases hs
  next hready =>
    have hfree : (s.thread u).free = true := by
      rw [Bool.or_eq_true, not_or] at hready
      simpa using hready.1
    obtain ⟨hnone, -⟩ := (h.position u).free hfree
    have hne : td ≠ u := by
      rintro rfl
      exact absurd (htd.symm.trans hnone) (Option.some_ne_none c)
    -- whatever becomes of the current thread, it keeps its own members
    have hall : ∀ q : Pthread, q.dequeued = (s.thread u).dequeued → q.wchan = (s.thread u).wchan →
        (update (s.dequeued [td]) u q td).dequeued = true ∧
        (update (s.dequeued [td]) u q td).wchan = none ∧
        ∀ t, t ≠ td → (update (s.dequeued [td]) u q t).dequeued =
            (s.thread t).dequeued ∧
          (update (s.dequeued [td]) u q t).wchan = (s.thread t).wchan := by
      intro q hdequeued hwchan
      rw [update_of_ne hne]
      unfold CondState.dequeued
      rw [if_pos List.mem_cons_self]
      refine ⟨rfl, rfl, fun t ht => ?_⟩
      rcases eq_or_ne t u with rfl | htu
      · rw [update_self]
        exact ⟨hdequeued, hwchan⟩
      · rw [update_of_ne htu, if_neg (by simpa using ht)]
        exact ⟨rfl, rfl⟩
    rw [hl] at hs
    simp only at hs
    split at hs
    · cases hs
    · split at hs
      · cases hs
        simp only [CondState.setThread, CondState.setMutex]
        rw [s.update_eq_dequeued]
        refine ⟨True.intro, hall _ ?_ (by simp)⟩
        unfold Pthread.defer
        simp only
        split <;> rfl
      · cases hs
        simp only [CondState.setThread]
        rw [s.update_eq_dequeued]
        exact ⟨True.intro, hall _ rfl rfl⟩

/-- In every run in which a thread queues itself only when no release of an earlier wait of it
is still to come, no assertion of `Wait` fails, no wake semaphore is released twice, a wait
returns with its mutex and the count of it on entry, with zero if it was taken off the queue
and with `ETIMEDOUT` if not, a signal takes one thread off the queue, and a thread that was
taken off the queue in its sleep has a token or a release to come. -/
theorem waits_wake {type : ℕ → PthreadMutexType}
    (h : Reachable (CondState.step hash) (fun s a => a.Fresh s) (.init type) s) :
    (∀ t, (s.thread t).phase ≠ .unreachable) ∧
      (∀ c, ∀ t ∈ s.blocked c, (s.thread t).mutexObj ≠ none) ∧
      s.overReleased = false ∧
      (∀ t call error, (s.thread t).phase = .returned call error →
        (s.mutex call.mutex).owner = some t ∧ (s.mutex call.mutex).count = call.entry ∧
          error = if (s.thread t).dequeued then 0 else posixEtimedout) ∧
      (∀ t call, (s.thread t).phase = .sleeping call → (s.thread t).wchan = none →
        (s.thread t).wakeSema = 1 ∨ ∃ u, t ∈ (s.thread u).owed) ∧
      ∀ u c td rest s', s.blocked c = td :: rest → s.step hash (.signal u c) = some s' →
        s'.blocked = update s.blocked c rest ∧ (s'.thread td).dequeued = true ∧
          (s'.thread td).wchan = none ∧
          ∀ t, t ≠ td → (s'.thread t).dequeued = (s.thread t).dequeued ∧
            (s'.thread t).wchan = (s.thread t).wchan := by
  have hinv : CondInv s :=
    h.invariant (CondInv.init type) fun _ _ _ hs ha hstep => hs.step ha hstep
  refine ⟨fun t hphase => ?_, fun c t ht => hinv.mutexObj ht, hinv.overReleased,
    fun t call error hphase => ?_, fun t call hphase => hinv.wakes t (.inr ⟨call, hphase⟩),
    fun u c td rest s' hl hs => hinv.signal_first hl hs⟩
  · have hpos := hinv.position t
    simp only [Position, hphase] at hpos
  · have hpos := hinv.position t
    simp only [Position, hphase] at hpos
    exact hpos.2

theorem waits_wake_sample : ∃ s, run (CondState.step id) (.init fun _ => .recursive)
      [.lock 1 0, .wait 1 7 0 true, .enter 1, .add 1, .sleep 1, .signal 2 7, .deliver 2,
        .acquire 1, .recheck 1, .relock 1] = some s ∧
    ∃ call error, (s.thread 1).phase = .returned call error ∧
      error = if (s.thread 1).dequeued then 0 else posixEtimedout := by
  obtain ⟨s, hs⟩ : ∃ s, run (CondState.step id) (.init fun _ => .recursive)
      [.lock 1 0, .wait 1 7 0 true, .enter 1, .add 1, .sleep 1, .signal 2 7, .deliver 2,
        .acquire 1, .recheck 1, .relock 1] = some s := ⟨_, rfl⟩
  have hreach : Reachable (CondState.step id) (fun s a => a.Fresh s)
      (.init fun _ => .recursive) s := by
    apply reachable_of_run hs
    refine ⟨True.intro, fun s₁ h₁ => ⟨True.intro, fun s₂ h₂ => ⟨True.intro, fun s₃ h₃ =>
      ⟨fun u hu => ?_, fun _ _ => ⟨True.intro, fun _ _ => ⟨True.intro, fun _ _ => ⟨True.intro,
      fun _ _ => ⟨True.intro, fun _ _ => ⟨True.intro, fun _ _ => ⟨True.intro,
      fun _ _ => True.intro⟩⟩⟩⟩⟩⟩⟩⟩⟩⟩
    have hnil : ∀ u, (s₃.thread u).owed = [] := by
      cases h₁
      cases h₂
      cases h₃
      exact forall_update (P := fun _ q => q.owed = []) rfl fun u _ =>
        forall_update (P := fun _ q => q.owed = []) rfl (fun u _ =>
          forall_update (P := fun _ q => q.owed = []) rfl (fun _ _ => rfl) u) u
    rw [hnil u] at hu
    cases hu
  obtain ⟨call, error, hphase⟩ : ∃ call error, (s.thread 1).phase = .returned call error := by
    cases hs
    exact ⟨_, _, rfl⟩
  exact ⟨s, hs, call, error, hphase, ((waits_wake hreach).2.2.2.1 1 call error hphase).2.2⟩

/-- A thread whose time ran out was taken off the queue in between; the release it no longer
needs ends its next wait. -/
theorem wait_unreachable : ∃ s, run (CondState.step id) (.init fun _ => .recursive)
      [.lock 1 0, .wait 1 7 0 true, .enter 1, .add 1, .sleep 1, .signal 2 7, .expire 1,
        .recheck 1, .relock 1, .wait 1 7 0 true, .enter 1, .add 1, .sleep 1, .deliver 2,
        .acquire 1, .recheck 1] = some s ∧
    (s.thread 1).phase = .unreachable :=
  ⟨_, rfl, rfl⟩

end OrbitConsole.Kernel
