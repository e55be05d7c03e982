import Mathlib.Data.List.Nodup
import OrbitConsole.Core.Kernel.Equeue

/-!
# High-resolution timers of an event queue

The fraction of a bintime is signed, so a timer whose nanoseconds are more than
half a second comes out a second short. A deletion looks into one of the two
containers only.
-/

namespace OrbitConsole.Kernel

open Memory (orbisOk errorEnoent)

open Equeue

/-! ### Intervals -/

theorem wrap64_eq {x : ℤ} (h : -9223372036854775808 ≤ x) (h' : x < 9223372036854775808) :
    wrap64 x = x :=
  Int.bmod_eq_of_le (by omega) (by omega)

theorem exists_wrap64 (x : ℤ) : ∃ k, wrap64 x = x - 18446744073709551616 * k ∧
    -9223372036854775808 ≤ wrap64 x ∧ wrap64 x < 9223372036854775808 := by
  refine ⟨(x - wrap64 x) / 18446744073709551616, ?_, ?_, ?_⟩ <;>
    (unfold wrap64 Int.bmod; dsimp only; split <;> omega)

namespace Equeue

/-- The time that is asked for, in nanoseconds. -/
def requested (ts : OrbisKernelTimespec) : ℤ := ts.tv_sec * 1000000000 + ts.tv_nsec

def hrInterval (ts : OrbisKernelTimespec) : ℤ := intervalOf (bintimeOf ts)

/-- A time that is not negative, with less than a second of nanoseconds. -/
structure IsTime (ts : OrbisKernelTimespec) : Prop where
  sec : 0 ≤ ts.tv_sec
  sec_lt : ts.tv_sec < 9223372036854775808
  nsec : 0 ≤ ts.tv_nsec
  nsec_lt : ts.tv_nsec < 1000000000

/-- Up to half a second of nanoseconds the fraction stays positive. -/
def FractionFits (ts : OrbisKernelTimespec) : Prop :=
  ts.tv_nsec ≤ 500000000 ∧ ts.tv_sec ≤ 9223372036

/-- The interval is not negative, not longer, and shorter by a few nanoseconds at most. -/
def Survives (few : ℤ) (ts : OrbisKernelTimespec) : Prop :=
  0 ≤ hrInterval ts ∧ hrInterval ts ≤ requested ts ∧ requested ts ≤ hrInterval ts + few

theorem nsec_of_fraction {n : ℤ} (h : 0 ≤ n) (h' : n ≤ 500000000) :
    (1000000000 * (wrap64 (n * 18446744073) / 4294967296)) / 4294967296 =
      if n = 0 then 0 else n - 1 := by
  rw [wrap64_eq (by omega) (by omega)]
  split <;> omega

theorem nsec_of_overflow {n : ℤ} (h : 500000000 < n) (h' : n < 1000000000) :
    (1000000000 * (wrap64 (n * 18446744073) / 4294967296)) / 4294967296 < 0 ∧
      -1000000000 ≤ (1000000000 * (wrap64 (n * 18446744073) / 4294967296)) / 4294967296 := by
  have hwrap : wrap64 (n * 18446744073) = n * 18446744073 - 18446744073709551616 := by
    unfold wrap64 Int.bmod
    dsimp only
    split <;> omega
  rw [hwrap]
  omega

variable {ts ts' : OrbisKernelTimespec} {few : ℤ}

theorem hrInterval_def (ts : OrbisKernelTimespec) : hrInterval ts =
    wrap64 ((1000000000 * (wrap64 (ts.tv_nsec * 18446744073) / 4294967296)) / 4294967296 +
      wrap64 (ts.tv_sec * 1000000000)) := rfl

theorem hrInterval_eq (h : IsTime ts) (hfits : FractionFits ts) :
    hrInterval ts = requested ts - if ts.tv_nsec = 0 then 0 else 1 := by
  obtain ⟨h₁, h₂, h₃, h₄⟩ := h
  obtain ⟨hn, hs⟩ := hfits
  unfold requested
  rw [hrInterval_def, nsec_of_fraction h₃ hn,
    wrap64_eq (x := ts.tv_sec * 1000000000) (by omega) (by omega)]
  split
  · rw [wrap64_eq (by omega) (by omega)]
    omega
  · rw [wrap64_eq (by omega) (by omega)]
    omega

theorem fractionFits_of_survives (h : IsTime ts) (hfew : few < 500000000) (hs : Survives few ts) :
    FractionFits ts := by
  obtain ⟨h₁, h₂, h₃, h₄⟩ := h
  obtain ⟨hpos, hle, hge⟩ := hs
  unfold requested at hle hge
  obtain ⟨k, hk, hk₁, hk₂⟩ := exists_wrap64 (ts.tv_sec * 1000000000)
  rw [hrInterval_def] at hpos hle hge
  by_cases hn : ts.tv_nsec ≤ 500000000
  · refine ⟨hn, ?_⟩
    rw [nsec_of_fraction h₃ hn] at hpos hle hge
    obtain ⟨j, hj, hj₁, hj₂⟩ := exists_wrap64
      ((if ts.tv_nsec = 0 then 0 else ts.tv_nsec - 1) + wrap64 (ts.tv_sec * 1000000000))
    rw [hj] at hpos hle hge hj₁ hj₂
    split at hj₁ <;> omega
  · obtain ⟨hneg, hlow⟩ := nsec_of_overflow (not_le.1 hn) h₄
    obtain ⟨j, hj, hj₁, hj₂⟩ := exists_wrap64
      ((1000000000 * (wrap64 (ts.tv_nsec * 18446744073) / 4294967296)) / 4294967296 +
        wrap64 (ts.tv_sec * 1000000000))
    omega

theorem survives_of_fractionFits (h : IsTime ts) (hfew : 1 ≤ few) (hfits : FractionFits ts) :
    Survives few ts := by
  have heq := hrInterval_eq h hfits
  obtain ⟨h₁, h₂, h₃, h₄⟩ := h
  unfold Survives
  rw [heq]
  unfold requested
  split <;> omega

theorem hrInterval_mono (h : IsTime ts) (h' : IsTime ts') (hfits : FractionFits ts)
    (hfits' : FractionFits ts') (hle : requested ts ≤ requested ts') :
    hrInterval ts ≤ hrInterval ts' := by
  rw [hrInterval_eq h hfits, hrInterval_eq h' hfits']
  unfold requested at *
  have h₃ := h.nsec
  have h₃' := h'.nsec
  have h₄ := h.nsec_lt
  have h₄' := h'.nsec_lt
  split <;> split <;> omega

theorem addHRTimer_interval (q : EqueueInternal) (id : BitVec 32) (ts : OrbisKernelTimespec)
    (udata data : BitVec 64) (now : ℤ) :
    (∃ st ∈ (sceKernelAddHRTimerEvent q id ts udata data now).1.m_small_timers,
      st.event.ident = identOf id ∧ st.interval = hrInterval ts) ∨
    ∃ ev ∈ (sceKernelAddHRTimerEvent q id ts udata data now).1.m_events,
      ev.is (identOf id) .hrTimer = true ∧ ev.timer_interval = hrInterval ts := by
  unfold sceKernelAddHRTimerEvent
  dsimp only
  split
  · exact .inl ⟨_, List.mem_cons_self, rfl, rfl⟩
  · refine .inr ?_
    unfold EqueueInternal.addEvent
    dsimp only
    split
    case isTrue hexists =>
        obtain ⟨ev, hev, his⟩ := List.any_eq_true.1 hexists
        refine ⟨_, List.mem_map.2 ⟨ev, hev, rfl⟩, ?_⟩
        rw [if_pos his]
        exact ⟨his, rfl⟩
    case isFalse =>
        refine ⟨_, List.mem_append_right _ (List.mem_singleton.2 rfl), ?_, rfl⟩
        simp [EqueueEvent.is, hrTimerEvent]

end Equeue

open Equeue

/-- The interval survives the encoding exactly if the nanoseconds are at most half a second and
the seconds are representable in nanoseconds, and such times keep their order. -/
theorem hrTimer_interval_iff (few : ℤ) (hfew : 1 ≤ few) (hfew' : few < 500000000)
    (ts : OrbisKernelTimespec) (h : IsTime ts) :
    (Survives few ts ↔ FractionFits ts) ∧
    (FractionFits ts → ∀ ts', IsTime ts' → FractionFits ts' →
      (requested ts ≤ requested ts' → hrInterval ts ≤ hrInterval ts') ∧
      (requested ts' ≤ requested ts → hrInterval ts' ≤ hrInterval ts)) ∧
    ∀ q id udata data now,
      (∃ st ∈ (sceKernelAddHRTimerEvent q id ts udata data now).1.m_small_timers,
        st.event.ident = identOf id ∧ st.interval = hrInterval ts) ∨
      ∃ ev ∈ (sceKernelAddHRTimerEvent q id ts udata data now).1.m_events,
        ev.is (identOf id) .hrTimer = true ∧ ev.timer_interval = hrInterval ts :=
  ⟨⟨fractionFits_of_survives h hfew', survives_of_fractionFits h hfew⟩,
    fun hfits _ h' hfits' => ⟨hrInterval_mono h h' hfits hfits', hrInterval_mono h' h hfits' hfits⟩,
    fun q id udata data now => addHRTimer_interval q id ts udata data now⟩

def halfSecond : OrbisKernelTimespec := { tv_sec := 1, tv_nsec := 500000000 }

theorem hrTimer_interval_half : Survives 4 halfSecond ↔ FractionFits halfSecond :=
  (hrTimer_interval_iff 4 (by decide) (by decide) halfSecond
    ⟨by decide, by decide, by decide, by decide⟩).1

/-- A timer of 0.75 s expires before it was added, and one of 1.75 s after 0.75 s. -/
theorem hrTimer_interval_fails :
    ¬ (∀ ts, IsTime ts → Survives 4 ts) ∧
      hrInterval { tv_sec := 0, tv_nsec := 750000000 } < 0 ∧
      hrInterval { tv_sec := 1, tv_nsec := 750000000 } <
        hrInterval { tv_sec := 1, tv_nsec := 0 } := by
  refine ⟨fun h => ?_, by decide, by decide⟩
  have hs := (h { tv_sec := 0, tv_nsec := 750000000 }
    ⟨by decide, by decide, by decide, by decide⟩).1
  exact absurd hs (by decide)

/-! ### Deletion -/

namespace Equeue

def Unique (q : EqueueInternal) : Prop :=
  q.m_events.Pairwise fun ev ev' =>
    ¬ (ev.event.ident = ev'.event.ident ∧ ev.event.filter = ev'.event.filter)

theorem is_iff {ev : EqueueEvent} {id : BitVec 64} {filter : Filter} :
    ev.is id filter = true ↔ ev.event.ident = id ∧ ev.event.filter = filter := by
  simp [EqueueEvent.is]

/-- The key of an event, which triggering and fetching it leave alone. -/
def key (ev : EqueueEvent) : BitVec 64 × Filter := (ev.event.ident, ev.event.filter)

theorem unique_iff {q : EqueueInternal} : Unique q ↔ (q.m_events.map key).Nodup := by
  unfold Unique List.Nodup
  rw [List.pairwise_map]
  simp only [key, ne_eq, Prod.mk.injEq]

theorem key_trigger (ev : EqueueEvent) (filter : Filter) (data time : BitVec 64) :
    key (ev.trigger filter data time) = key ev := by
  unfold EqueueEvent.trigger
  split
  · unfold EqueueEvent.triggerDisplay
    dsimp only
    split
    · rfl
    · split <;> rfl
  all_goals rfl

theorem takeTriggered_sublist (events : List EqueueEvent) (num : ℕ) :
    ((EqueueInternal.takeTriggered events num).1.map key).Sublist (events.map key) := by
  induction events generalizing num with
  | nil => exact List.Sublist.refl _
  | cons ev rest ih =>
      unfold EqueueInternal.takeTriggered
      have hkept : ∀ l : List EqueueEvent, (l.map key).Sublist (rest.map key) →
          (((if ev.event.flags &&& flagOneShot ≠ 0 then [] else
            [if ev.event.flags &&& flagClear ≠ 0 then ev.clear else ev]) ++ l).map key).Sublist
            ((ev :: rest).map key) := by
        intro l hl
        have hkey : key (if ev.event.flags &&& flagClear ≠ 0 then ev.clear else ev) = key ev := by
          split <;> rfl
        split
        · exact hl.cons _
        · rw [List.singleton_append, List.map_cons, List.map_cons, hkey]
          exact hl.cons_cons _
      split
      · dsimp only
        split
        · exact hkept rest (List.Sublist.refl _)
        · exact hkept _ (ih _)
      · exact (ih num).cons_cons _

variable {q q' : EqueueInternal} {a : EqueueAction}

theorem Unique.addEvent (h : Unique q) (event : OrbisKernelEvent) (time : OrbisKernelBintime) :
    Unique (q.addEvent event time) := by
  rw [unique_iff] at *
  unfold EqueueInternal.addEvent
  dsimp only
  split
  · rw [List.map_map]
    convert h using 2
    funext ev
    simp only [Function.comp_apply]
    split <;> rfl
  case isFalse hnot =>
    rw [List.map_append, List.nodup_append]
    refine ⟨h, List.nodup_singleton _, ?_⟩
    rintro k hk k' hk' rfl
    rw [List.map_singleton, List.mem_singleton] at hk'
    subst hk'
    obtain ⟨ev, hev, heq⟩ := List.mem_map.1 hk
    refine hnot (List.any_eq_true.2 ⟨ev, hev, is_iff.2 ?_⟩)
    simpa [key] using heq

/-- An event with a key that is there is changed in its place. -/
theorem Unique.step (h : Unique q) (hs : q.step a = some q') : Unique q' := by
  cases a with
  | addEvent event time =>
      cases hs
      exact h.addEvent event time
  | removeEvent id filter =>
      cases hs
      exact h.sublist List.eraseP_sublist
  | triggerEvent id filter data time =>
      cases hs
      rw [unique_iff] at *
      unfold EqueueInternal.triggerEvent
      rw [List.map_map]
      convert h using 2
      funext ev
      simp only [Function.comp_apply]
      split
      · exact key_trigger ..
      · rfl
  | getTriggeredEvents num =>
      cases hs
      rw [unique_iff] at *
      exact h.sublist (takeTriggered_sublist q.m_events num)
  | waitForSmallTimer num now =>
      cases hs
      exact h
  | addHRTimer id ts udata data now =>
      cases hs
      unfold sceKernelAddHRTimerEvent
      dsimp only
      split
      · exact h
      · exact h.addEvent _ _
  | deleteHRTimer id =>
      cases hs
      unfold sceKernelDeleteHRTimerEvent EqueueInternal.removeSmallTimer
      split
      · exact h
      · exact h.sublist List.eraseP_sublist

/-- A queue that calls have led to. -/
def QueueReachable (q : EqueueInternal) : Prop :=
  Transition.Reachable EqueueInternal.step (fun _ _ => True) EqueueInternal.empty q

theorem QueueReachable.unique (h : QueueReachable q) : Unique q :=
  Transition.Reachable.invariant h List.Pairwise.nil fun _ _ _ hu _ hs => hu.step hs

/-- A high-resolution timer is in one of the containers. -/
def Pending (q : EqueueInternal) (id : BitVec 64) : Prop :=
  (∃ st ∈ q.m_small_timers, st.event.ident = id) ∨ q.eventExists id .hrTimer = true

/-- The call removes the timer and nothing else, or it fails and changes nothing. -/
def DeletesExactly (q : EqueueInternal) (id : BitVec 32) : Prop :=
  let r := sceKernelDeleteHRTimerEvent q id
  (Pending q (identOf id) → r.2 = orbisOk ∧ ¬ Pending r.1 (identOf id)) ∧
  (¬ Pending q (identOf id) → r.2 = errorEnoent ∧ r.1 = q) ∧
  (∀ st, st.event.ident ≠ identOf id → (st ∈ r.1.m_small_timers ↔ st ∈ q.m_small_timers)) ∧
  ∀ ev, key ev ≠ (identOf id, .hrTimer) → (ev ∈ r.1.m_events ↔ ev ∈ q.m_events)

/-- The deletion looks where the timer is. -/
def OneContainer (q : EqueueInternal) (id : BitVec 32) : Prop :=
  q.m_small_timers = [] ∨ q.eventExists (identOf id) .hrTimer = false

theorem hasSmallTimer_iff : q.hasSmallTimer = true ↔ q.m_small_timers ≠ [] := by
  simp [EqueueInternal.hasSmallTimer]

theorem Unique.erased (h : Unique q) (id : BitVec 64) (filter : Filter) :
    (q.removeEvent id filter).1.eventExists id filter = false := by
  rw [unique_iff] at h
  unfold EqueueInternal.removeEvent EqueueInternal.eventExists
  dsimp only
  revert h
  induction q.m_events with
  | nil => exact fun _ => rfl
  | cons ev rest ih =>
      intro h
      rw [List.map_cons, List.nodup_cons] at h
      rw [List.eraseP_cons]
      cases hev : ev.is id filter with
      | true =>
          rw [cond_true, List.any_eq_false]
          intro ev' hev' his
          rw [is_iff] at hev his
          exact h.1 (List.mem_map.2 ⟨ev', hev', by simp [key, hev, his]⟩)
      | false =>
          rw [cond_false, List.any_cons, hev, Bool.false_or]
          exact ih h.2

theorem removeEvent_mem {ev : EqueueEvent} {id : BitVec 64} {filter : Filter}
    (h : key ev ≠ (id, filter)) :
    ev ∈ (q.removeEvent id filter).1.m_events ↔ ev ∈ q.m_events := by
  refine List.mem_eraseP_of_neg fun his => h ?_
  rw [is_iff] at his
  simp [key, his]

theorem deletesExactly_of_oneContainer (h : Unique q) {id : BitVec 32} (hone : OneContainer q id) :
    DeletesExactly q id := by
  unfold DeletesExactly sceKernelDeleteHRTimerEvent
  by_cases hsmall : q.hasSmallTimer = true
  · have hevents : q.eventExists (identOf id) .hrTimer = false :=
      hone.resolve_left (hasSmallTimer_iff.1 hsmall)
    simp only [hsmall, if_true, EqueueInternal.removeSmallTimer]
    refine ⟨fun hpending => ?_, fun hnot => ?_, fun st hst => ?_, fun _ _ => trivial⟩
    · obtain ⟨st, hst, hid⟩ := hpending.resolve_right (by simp [hevents])
      refine ⟨if_pos (List.any_eq_true.2 ⟨st, hst, by simpa using hid⟩), ?_⟩
      rintro (⟨st', hst', hid'⟩ | hexists)
      · exact absurd hid' (by simpa using (List.mem_filter.1 hst').2)
      · exact absurd hexists (by simpa [EqueueInternal.eventExists] using hevents)
    · have hno : ∀ st ∈ q.m_small_timers, st.event.ident ≠ identOf id :=
        fun st hst hid => hnot (.inl ⟨st, hst, hid⟩)
      refine ⟨if_neg ?_, ?_⟩
      · simpa using hno
      · rw [List.filter_eq_self.2 (by simpa using hno)]
    · simp [hst]
  · simp only [hsmall, if_false, Bool.false_eq_true]
    have hnil : q.m_small_timers = [] := by
      by_contra hne
      exact hsmall (hasSmallTimer_iff.2 hne)
    refine ⟨fun hpending => ?_, fun hnot => ?_, fun _ _ => Iff.rfl, fun ev hev => ?_⟩
    · have hexists : q.eventExists (identOf id) .hrTimer = true :=
        hpending.resolve_left (by simp [hnil])
      refine ⟨if_pos hexists, ?_⟩
      rintro (⟨st, hst, -⟩ | hexists')
      · simp [EqueueInternal.removeEvent, hnil] at hst
      · exact absurd hexists' (by simp [h.erased])
    · have hno : ¬ q.eventExists (identOf id) .hrTimer = true := fun he => hnot (.inr he)
      refine ⟨if_neg hno, ?_⟩
      unfold EqueueInternal.removeEvent
      rw [List.eraseP_of_forall_not]
      intro ev hev his
      exact hno (List.any_eq_true.2 ⟨ev, hev, his⟩)
    · exact removeEvent_mem hev

theorem oneContainer_of_deletesExactly {id : BitVec 32} (h : DeletesExactly q id) :
    OneContainer q id := by
  by_contra hnot
  obtain ⟨hsmall, hexists⟩ := not_or.1 hnot
  rw [Bool.not_eq_false] at hexists
  refine (h.1 (.inr hexists)).2 (.inr ?_)
  unfold sceKernelDeleteHRTimerEvent EqueueInternal.removeSmallTimer
  rw [if_pos (hasSmallTimer_iff.2 hsmall), if_pos (hasSmallTimer_iff.2 hsmall)]
  exact hexists

end Equeue

/-- In every queue a deletion is exact if and only if there is no short timer, or the timer is no
event. -/
theorem sceKernelDeleteHRTimerEvent_exact_iff (q : EqueueInternal) (hq : QueueReachable q)
    (id : BitVec 32) : DeletesExactly q id ↔ OneContainer q id :=
  ⟨oneContainer_of_deletesExactly, deletesExactly_of_oneContainer hq.unique⟩

def tenMilliseconds : OrbisKernelTimespec := { tv_sec := 0, tv_nsec := 10000000 }

def oneMillisecond : OrbisKernelTimespec := { tv_sec := 0, tv_nsec := 1000000 }

def longAndShort : EqueueInternal :=
  (sceKernelAddHRTimerEvent (sceKernelAddHRTimerEvent EqueueInternal.empty 1 tenMilliseconds 0 0
    0).1 2 oneMillisecond 0 0 0).1

theorem longAndShort_reachable : QueueReachable longAndShort :=
  .step (.addHRTimer 2 oneMillisecond 0 0 0)
    (.step (.addHRTimer 1 tenMilliseconds 0 0 0) .start trivial rfl) trivial rfl

theorem sceKernelDeleteHRTimerEvent_exact_short :
    DeletesExactly longAndShort 2 ↔ OneContainer longAndShort 2 :=
  sceKernelDeleteHRTimerEvent_exact_iff longAndShort longAndShort_reachable 2

/-- The long timer is not found while the short one is there. -/
theorem sceKernelDeleteHRTimerEvent_exact_fails :
    QueueReachable longAndShort ∧ ¬ DeletesExactly longAndShort 1 := by
  refine ⟨longAndShort_reachable, fun h => ?_⟩
  have hone := oneContainer_of_deletesExactly h
  exact absurd hone (by unfold OneContainer; decide)

end OrbitConsole.Kernel
