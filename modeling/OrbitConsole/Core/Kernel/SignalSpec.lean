import OrbitConsole.Core.Kernel.SleepQueueSpec

/-!
# Signals to one thread

`Signal` with a thread takes it off the queue of the condition variable without
a look whether it is on it. It does no harm to a thread that waits elsewhere, or
not at all, as long as nobody waits on the condition variable.
-/

namespace OrbitConsole.Kernel

open Transition Sleepq

namespace CondQueues

variable {s s' : CondQueues} {u c t td m : ℕ}

/-- How often the thread was woken: the tokens it has got, and those that are put off. -/
def wakes (s : CondQueues) (u t : ℕ) : ℕ := s.wakeSema t + (s.deferWaiters u).count t

/-- What `Signal` is to do for its thread. -/
structure Harmless (s : CondQueues) (u c td : ℕ) (s' : CondQueues) : Prop where
  woken : s.sleepq.BlockedOn c td → s'.wakes u td = s.wakes u td + 1 ∧ ¬s'.sleepq.Sleeping td
  untouched : ¬s.sleepq.BlockedOn c td → s'.sleepq = s.sleepq ∧
    (∀ t, s'.wakes u t = s.wakes u t) ∧ s'.mutexObj = s.mutexObj

/-- The thread cannot be found, or it waits there, or nobody does. -/
def Signals (s : CondQueues) (c td : ℕ) : Prop :=
  s.found td = true → s.sleepq.BlockedOn c td ∨ ∀ t, ¬s.sleepq.BlockedOn c t

/-- No signal meets a thread that does not wait for it while others do. A thread waits on an
object, whose address is not null, and gives up waiting where it waits. -/
def Admitted (s : CondQueues) : CondQueuesAction → Prop
  | .signal _ c (some td) => s.Signals c td
  | .wait t c _ => c ≠ 0 ∧ s.found t = true
  | .giveUp t c => s.sleepq.BlockedOn c t
  | _ => True

structure InOrder (s : CondQueues) : Prop where
  conserved : s.sleepq.Conserved
  inWait : ∀ {t}, s.sleepq.Sleeping t →
    s.sleepq.wchan t ≠ 0 ∧ s.found t = true ∧ s.mutexObj t ≠ none

/-! ### Waking -/

theorem wakes_releaseAll (s : CondQueues) (tds : List ℕ) (u t : ℕ) :
    (s.releaseAll tds).wakes u t = s.wakes u t + tds.count t := by
  simp only [wakes, releaseAll]
  omega

theorem wakes_wakeAll (s : CondQueues) (u t : ℕ) : (s.wakeAll u).wakes u t = s.wakes u t := by
  simp [wakes, wakeAll, releaseAll]

theorem wakes_defer (s : CondQueues) (u td m t : ℕ) :
    (s.defer u td m).wakes u t = s.wakes u t + [td].count t := by
  unfold defer
  simp only
  split
  · rw [← s.wakes_wakeAll u t]
    simp [wakes, List.count_append, Nat.add_assoc]
  · simp [wakes, List.count_append, Nat.add_assoc]

/-- What waking threads leaves alone. -/
structure SameWaits (s s' : CondQueues) : Prop where
  sleepq : s'.sleepq = s.sleepq
  found : s'.found = s.found
  mutexObj : s'.mutexObj = s.mutexObj
  owner : s'.owner = s.owner

theorem sameWaits_defer (s : CondQueues) (u td m : ℕ) : SameWaits s (s.defer u td m) := by
  unfold defer
  simp only
  split <;> exact ⟨rfl, rfl, rfl, rfl⟩

theorem sameWaits_dropCb {r r' : CondQueues × List ℕ} (h : dropCb u r td = some r') :
    SameWaits r.1 r'.1 := by
  obtain ⟨m, -, rfl⟩ := Option.map_eq_some_iff.1 h
  split
  · exact sameWaits_defer ..
  · split <;> exact ⟨rfl, rfl, rfl, rfl⟩

theorem sameWaits_foldlM_dropCb {tds : List ℕ} {r r' : CondQueues × List ℕ}
    (h : tds.foldlM (dropCb u) r = some r') : SameWaits r.1 r'.1 := by
  induction tds generalizing r with
  | nil =>
      cases h
      exact ⟨rfl, rfl, rfl, rfl⟩
  | cons td tds ih =>
      rw [List.foldlM_cons] at h
      obtain ⟨r₁, h₁, h⟩ := Option.bind_eq_some_iff.1 h
      have h₁ := sameWaits_dropCb h₁
      have h₂ := ih h
      exact ⟨h₂.sleepq.trans h₁.sleepq, h₂.found.trans h₁.found, h₂.mutexObj.trans h₁.mutexObj,
        h₂.owner.trans h₁.owner⟩

/-! ### One call of `Signal` -/

theorem signal_of_lookup {sq : ℕ} {r : Sleepq × Bool} (hfound : s.found td = true)
    (hl : s.sleepq.lookup c = some sq) (hr : s.sleepq.remove sq td = some r)
    (hm : s.mutexObj td = some m) :
    ∃ s', s.signal u c (some td) = some (s', 0) ∧ s'.sleepq = r.1 ∧
      s'.found = s.found ∧ s'.mutexObj = s.mutexObj ∧
      ∀ t, s'.wakes u t = s.wakes u t + [td].count t := by
  simp only [signal, Option.any_some, hfound, Bool.not_true, Bool.false_eq_true, if_false, hl,
    Option.some_or, Option.bind_some, hr, hm, Option.map_some]
  split
  · have hsame := sameWaits_defer { s with
      sleepq := r.1
      hasUserWaiters := Function.update s.hasUserWaiters c r.2 } u td m
    exact ⟨_, rfl, hsame.sleepq, hsame.found, hsame.mutexObj, fun t => wakes_defer ..⟩
  · exact ⟨_, rfl, rfl, rfl, rfl, fun t => wakes_releaseAll ..⟩

theorem signal_of_not_found (hfound : s.found td = false) :
    s.signal u c (some td) = some (s, posixEsrch) := by
  simp [signal, hfound]

theorem signal_of_lookup_none (hfound : s.found td = true) (hl : s.sleepq.lookup c = none) :
    s.signal u c (some td) = some (s, 0) := by
  simp [signal, hfound, hl]

theorem harmless_rfl (h : ¬s.sleepq.BlockedOn c td) : Harmless s u c td s :=
  ⟨fun hc => absurd hc h, fun _ => ⟨rfl, fun _ => rfl, rfl⟩⟩

theorem signal_cases {thread : Option ℕ} {r : ℤ} (h : s.signal u c thread = some (s', r)) :
    (s' = s ∧ ((∃ td, thread = some td ∧ s.found td = false) ∨ s.sleepq.lookup c = none)) ∨
      ∃ sq td q, s.sleepq.lookup c = some sq ∧
        thread.or (s.sleepq.queue sq).blocked.head? = some td ∧
        (∀ t, thread = some t → s.found t = true) ∧ s.sleepq.remove sq td = some q ∧
        s'.sleepq = q.1 ∧ s'.found = s.found ∧ s'.mutexObj = s.mutexObj := by
  unfold signal at h
  split at h
  · next hany =>
    cases h
    obtain ⟨td, rfl, hfound⟩ := (Option.any_eq_true ..).1 hany
    exact .inl ⟨rfl, .inl ⟨td, rfl, by simpa using hfound⟩⟩
  · next hany =>
    split at h
    · next hl =>
      cases h
      exact .inl ⟨rfl, .inr hl⟩
    · next sq hl =>
      obtain ⟨td, htd, h⟩ := Option.bind_eq_some_iff.1 h
      obtain ⟨q, hq, h⟩ := Option.bind_eq_some_iff.1 h
      obtain ⟨m, -, h⟩ := Option.map_eq_some_iff.1 h
      refine .inr ⟨sq, td, q, hl, htd, ?_, hq, ?_⟩
      · rintro t rfl
        simpa using hany
      · simp only at h
        split at h <;> cases h
        · have hsame := sameWaits_defer { s with
            sleepq := q.1
            hasUserWaiters := Function.update s.hasUserWaiters c q.2 } u td m
          exact ⟨hsame.sleepq, hsame.found, hsame.mutexObj⟩
        · exact ⟨rfl, rfl, rfl⟩

theorem remove_ne {q : Sleepq} {sq : ℕ} {r : Sleepq × Bool}
    (hne : (q.queue sq).blocked ≠ []) (hmem : td ∉ (q.queue sq).blocked)
    (h : q.remove sq td = some r) : r.1 ≠ q := by
  have hfilter : (q.queue sq).blocked.filter (· ≠ td) = (q.queue sq).blocked :=
    List.filter_eq_self.2 fun t ht => by
      have : t ≠ td := fun heq => hmem (heq ▸ ht)
      simpa using this
  intro heq
  simp only [remove, hfilter, hne, if_false] at h
  split at h
  · cases h
  · next own rest hfreeq =>
    cases h
    have hlen : rest = (q.queue sq).freeq := by
      rw [← congrArg (fun p => (p.queue sq).freeq) heq]
      simp [setThread, setQueue]
    rw [hfreeq] at hlen
    simpa using congrArg List.length hlen

theorem InOrder.harmless_iff (hs : s.InOrder) :
    (∃ s' r, s.signal u c (some td) = some (s', r) ∧ Harmless s u c td s') ↔
      s.Signals c td := by
  constructor
  · rintro ⟨s', r, h, hharm⟩ hfound
    by_contra hno
    obtain ⟨hnot, t, ht⟩ : ¬s.sleepq.BlockedOn c td ∧ ∃ t, s.sleepq.BlockedOn c t := by
      simpa using hno
    obtain ⟨sq, hl, -, hiff, -⟩ := hs.conserved.channel ht
    rcases signal_cases h with ⟨-, ⟨td', htd, hno'⟩ | hnone⟩ | ⟨sq', td', q, hl', htd, -, hr, hq, -⟩
    · cases htd
      rw [hfound] at hno'
      cases hno'
    · rw [hl] at hnone
      cases hnone
    · cases hl.symm.trans hl'
      cases htd
      exact remove_ne (List.ne_nil_of_mem ((hiff t).1 ht)) (fun hmem => hnot ((hiff td).2 hmem)) hr
        (hq.symm.trans (hharm.untouched hnot).1)
  · intro hsig
    cases hfound : s.found td with
    | false =>
        refine ⟨s, _, signal_of_not_found hfound, harmless_rfl ?_⟩
        rintro ⟨sq, hmem, -⟩
        have := (hs.inWait ⟨sq, hmem⟩).2.1
        rw [hfound] at this
        cases this
    | true =>
        cases hl : s.sleepq.lookup c with
        | none =>
            refine ⟨s, _, signal_of_lookup_none hfound hl, harmless_rfl ?_⟩
            rintro ⟨sq, hmem, hc⟩
            exact hs.conserved.lookup_eq_none hl (hs.conserved.active_of_mem hmem) hc
        | some sq =>
            obtain ⟨hsq, hc⟩ := hs.conserved.lookup_eq_some.1 hl
            have hblocked : s.sleepq.BlockedOn c td := by
              refine (hsig hfound).resolve_right fun hnobody => ?_
              have hlen := hs.conserved.active hsq
              obtain ⟨t, ht⟩ := List.exists_mem_of_length_pos
                (show 0 < (s.sleepq.queue sq).blocked.length by omega)
              exact hnobody t ⟨sq, ht, hc⟩
            obtain ⟨sq', hl', -, hiff, -⟩ := hs.conserved.channel hblocked
            cases hl.symm.trans hl'
            have hmem := (hiff td).1 hblocked
            obtain ⟨r, hr⟩ := hs.conserved.remove_total hmem
            obtain ⟨m, hm⟩ := Option.ne_none_iff_exists'.1 (hs.inWait ⟨sq, hmem⟩).2.2
            obtain ⟨s', h, hq, -, -, hw⟩ := signal_of_lookup (u := u) hfound hl hr hm
            refine ⟨s', 0, h, fun _ => ⟨by simpa using hw td, ?_⟩, fun hno => absurd hblocked hno⟩
            rw [hq, hs.conserved.sleeping_remove hmem hr]
            exact fun h => h.2 rfl

/-! ### Runs -/

theorem InOrder.congr (hs : s.InOrder) (hq : s'.sleepq = s.sleepq) (hf : s'.found = s.found)
    (hm : s'.mutexObj = s.mutexObj) : s'.InOrder where
  conserved := hq ▸ hs.conserved
  inWait := by
    rw [hq, hf, hm]
    exact hs.inWait

theorem InOrder.remove {sq : ℕ} {r : Sleepq × Bool} (hs : s.InOrder)
    (hmem : td ∈ (s.sleepq.queue sq).blocked) (hr : s.sleepq.remove sq td = some r)
    (hq : s'.sleepq = r.1) (hf : s'.found = s.found)
    (hm : ∀ t, t ≠ td → s'.mutexObj t = s.mutexObj t) : s'.InOrder where
  conserved := hq ▸ hs.conserved.remove hmem hr
  inWait {t} ht := by
    rw [hq, hs.conserved.sleeping_remove hmem hr] at ht
    rw [hq, hf, hm t ht.2, (remove_frame hr).2, Function.update_of_ne ht.2]
    exact hs.inWait ht.1

theorem InOrder.signal {thread : Option ℕ} {r : ℤ} (hs : s.InOrder)
    (hok : ∀ td, thread = some td → s.Signals c td)
    (h : s.signal u c thread = some (s', r)) : s'.InOrder := by
  rcases signal_cases h with ⟨rfl, -⟩ | ⟨sq, td, q, hl, htd, hfound, hr, hq, hf, hm⟩
  · exact hs
  · obtain ⟨hsq, hc⟩ := hs.conserved.lookup_eq_some.1 hl
    have hmem : td ∈ (s.sleepq.queue sq).blocked := by
      cases thread with
      | none => exact List.mem_of_mem_head? (by simpa using htd)
      | some t =>
          cases htd
          have hlen := hs.conserved.active hsq
          obtain ⟨t, ht⟩ := List.exists_mem_of_length_pos
            (show 0 < (s.sleepq.queue sq).blocked.length by omega)
          have hblocked := (hok td rfl (hfound td rfl)).resolve_right fun hno => hno t ⟨sq, ht, hc⟩
          obtain ⟨sq', hl', -, hiff, -⟩ := hs.conserved.channel hblocked
          cases hl.symm.trans hl'
          exact (hiff td).1 hblocked
    exact hs.remove hmem hr hq hf fun t _ => by rw [hm]

theorem InOrder.broadcast (hs : s.InOrder) (h : s.broadcast u c = some s') : s'.InOrder := by
  unfold CondQueues.broadcast at h
  split at h
  · cases h
    exact hs
  · next sq hl =>
    obtain ⟨r, hr, h⟩ := Option.bind_eq_some_iff.1 h
    obtain ⟨q, hq, rfl⟩ := Option.map_eq_some_iff.1 h
    have hsame := sameWaits_foldlM_dropCb hr
    obtain ⟨q', hq', hcons⟩ : ∃ q', s.sleepq.drop sq = some q' ∧ q'.Conserved :=
      hs.conserved.drop
    cases hq.symm.trans hq'
    refine ⟨hcons, fun {t} ht => ?_⟩
    obtain ⟨hsleep, hw⟩ := hs.conserved.sleeping_drop hq ht
    have := hs.inWait hsleep
    refine ⟨hw ▸ this.1, ?_, ?_⟩
    · exact hsame.found ▸ this.2.1
    · exact hsame.mutexObj ▸ this.2.2

theorem InOrder.wait (hs : s.InOrder) (hc : c ≠ 0) (hfound : s.found t = true)
    (h : s.wait t c m = some s') : s'.InOrder := by
  unfold CondQueues.wait at h
  split at h
  · cases h
  · obtain ⟨q, hq, rfl⟩ := Option.map_eq_some_iff.1 h
    refine ⟨hs.conserved.add hq, fun {t'} ht => ?_⟩
    simp only [add_wchan hq, Function.update_apply]
    by_cases hne : t' = t
    · simp [hne, hc, hfound]
    · simpa [hne] using hs.inWait ((sleeping_add hq ht).resolve_left hne)

/-- Waking and leaving the queues keep them in order. -/
theorem InOrder.step {a : CondQueuesAction} (hs : s.InOrder) (hok : s.Admitted a)
    (h : s.step a = some s') : s'.InOrder := by
  cases a with
  | signal u c thread =>
      obtain ⟨⟨s₁, r⟩, h₁, rfl⟩ := Option.map_eq_some_iff.1 h
      refine hs.signal (fun td htd => ?_) h₁
      subst htd
      exact hok
  | broadcast u c => exact hs.broadcast h
  | wait t c m => exact hs.wait hok.1 hok.2 h
  | giveUp t c =>
      simp only [CondQueues.step, giveUp] at h
      split at h
      · cases h
      · obtain ⟨sq, hl, h⟩ := Option.bind_eq_some_iff.1 h
        obtain ⟨r, hr, rfl⟩ := Option.map_eq_some_iff.1 h
        obtain ⟨sq', hl', -, hiff, -⟩ := hs.conserved.channel hok
        cases hl.symm.trans hl'
        exact hs.remove ((hiff t).1 hok) hr rfl rfl fun t' ht =>
          Function.update_of_ne ht ..
  | goOn t =>
      simp only [CondQueues.step, goOn] at h
      split at h
      · cases h
      · next hw =>
        cases h
        refine ⟨hs.conserved, fun {t'} ht => ?_⟩
        have := hs.inWait ht
        have hne : t' ≠ t := fun heq => hw (heq ▸ this.1)
        simpa [hne] using this
  | acquire t =>
      simp only [CondQueues.step, acquire] at h
      split at h <;> cases h
      exact hs.congr rfl rfl rfl
  | exit t =>
      simp only [CondQueues.step, exit] at h
      split at h
      · cases h
      · next hout =>
        cases h
        refine ⟨hs.conserved, fun {t'} ht => ?_⟩
        have := hs.inWait ht
        have hne : t' ≠ t := fun heq => hout (heq ▸ .inl this.1)
        simpa [hne] using this
  | setOwner u m owner deferred wakes =>
      cases h
      unfold setOwner
      split <;> exact hs.congr rfl rfl rfl

theorem inOrder_init {own : ℕ → ℕ} (hown : Function.Injective own) (owner : ℕ → Option ℕ) :
    (init own owner).InOrder :=
  ⟨conserved_init hown, by rintro t ⟨sq, ht⟩; simp [init, Sleepq.init] at ht⟩

end CondQueues

open CondQueues

variable {s : CondQueues} {own : ℕ → ℕ} {owner : ℕ → Option ℕ} {u c td : ℕ}

theorem inOrder_of_reachable (hown : Function.Injective own)
    (h : Reachable CondQueues.step Admitted (CondQueues.init own owner) s) : s.InOrder :=
  h.invariant (inOrder_init hown owner) fun _ _ _ hs hok h => hs.step hok h

/-- As long as no signal has met a thread that does not wait for it while others do, `Signal`
with a thread wakes it just if it waits there and else leaves everything as it is, and this
goes on exactly if the thread waits there or nobody does, or it cannot be found. -/
theorem signal_harmless_iff (hown : Function.Injective own)
    (h : Reachable CondQueues.step Admitted (CondQueues.init own owner) s) :
    (∃ s' r, s.signal u c (some td) = some (s', r) ∧ Harmless s u c td s') ↔
      s.Signals c td :=
  (inOrder_of_reachable hown h).harmless_iff

/-- A thread waits; it is the one that is signalled. -/
theorem signal_harmless_iff_waiter :
    ∃ s, CondQueues.step (CondQueues.init id fun _ => none) (.wait 1 8 0) = some s ∧
      ((∃ s' r, s.signal 2 8 (some 1) = some (s', r) ∧ Harmless s 2 8 1 s') ↔
        s.Signals 8 1) := by
  refine ⟨_, rfl, signal_harmless_iff Function.injective_id
    (.step (.wait 1 8 0) .start ⟨by decide, rfl⟩ rfl)⟩

/-- Two threads wait, a third is signalled: its mutex is read through a null pointer. -/
theorem signal_harms_non_waiter :
    ∃ s, Reachable CondQueues.step Admitted (CondQueues.init id fun _ => none) s ∧
      ¬s.sleepq.BlockedOn 8 3 ∧ s.signal 2 8 (some 3) = none ∧
      ¬∃ s' r, s.signal 2 8 (some 3) = some (s', r) ∧ Harmless s 2 8 3 s' := by
  have h₁ : ∃ s, Reachable CondQueues.step Admitted (CondQueues.init id fun _ => none) s ∧
      s.sleepq.wchan 3 = 0 ∧ s.signal 2 8 (some 3) = none :=
    ⟨_, .step (.wait 4 8 0) (.step (.wait 1 8 0) .start ⟨by decide, rfl⟩ rfl)
      ⟨by decide, rfl⟩ rfl, rfl, rfl⟩
  obtain ⟨s, hreach, hw, hnone⟩ := h₁
  refine ⟨s, hreach, ?_, hnone, ?_⟩
  · rintro ⟨sq, hmem, -⟩
    exact ((inOrder_of_reachable Function.injective_id hreach).inWait ⟨sq, hmem⟩).1 hw
  · rintro ⟨s', r, h, -⟩
    rw [hnone] at h
    cases h

end OrbitConsole.Kernel
