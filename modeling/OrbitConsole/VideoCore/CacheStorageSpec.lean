import OrbitConsole.VideoCore.CacheStorage

/-!
# No saved blob is lost

What is written is at any time a beginning of what was queued. While an increment
and a decrement of `num_requests` do not overlap, the counter lags the queue by the
calls of `Save` on their way to it. When also a stop is requested only while the
writer is bound to reach the promised blobs, `Close` returns with all of them
written.
-/

namespace OrbitConsole.VideoCore

/-- Whether it has queued its request and not counted it. -/
def SaverPc.uncounted : SaverPc → ℕ
  | .locking _ | .loading _ | .storing _ _ => 1
  | _ => 0

/-- It is about to store into `num_requests`. -/
def SaverPc.stores : SaverPc → Bool
  | .storing _ _ => true
  | _ => false

def WriterPc.stores : WriterPc → Bool
  | .storing _ => true
  | _ => false

def WriterPc.executes : WriterPc → Bool
  | .running _ => true
  | _ => false

def SaverPc.holdsMutex : SaverPc → Bool
  | .loading _ | .storing _ _ | .notifying _ => true
  | _ => false

def SaverPc.ticket : SaverPc → Option ℕ
  | .locking t | .loading t | .storing t _ | .notifying t => some t
  | _ => none

/-- The request that is taken and not executed. -/
def WriterPc.inHand : WriterPc → List Request
  | .running r => [r]
  | _ => []

/-- The number of requests taken and still counted. -/
def WriterPc.outstanding : WriterPc → ℕ
  | .running _ | .loading | .storing _ => 1
  | _ => 0

/-- It is in the inner loop. -/
def WriterPc.drains : WriterPc → Bool
  | .draining | .popping | .running _ | .loading | .storing _ => true
  | _ => false

/-- How far the thread with the mutex is from giving it back. -/
def SaverPc.rank : SaverPc → ℕ
  | .loading _ => 3
  | .storing _ _ => 2
  | .notifying _ => 1
  | _ => 0

/-- How far the writer is from its end once it has to stop, with so many requests left. -/
def WriterPc.rank (n : ℕ) : WriterPc → ℕ
  | .exited | .failed => 0
  | .loop | .checking => 1
  | .testing => 2
  | .locking => 3
  | .blocked _ => 4
  | .draining => 5 * n + 2
  | .popping => 5 * n + 1
  | .running _ => 5 * n
  | .loading => 5 * n - 1
  | .storing _ => 5 * n - 2

/-- It is not between taking a request and counting it down. -/
def WriterPc.idle (pc : WriterPc) : Bool := pc.outstanding = 0

@[simp] theorem WriterPc.inHand_wake (pc : WriterPc) : pc.wake.inHand = pc.inHand := by
  cases pc <;> rfl

@[simp] theorem WriterPc.outstanding_wake (pc : WriterPc) :
    pc.wake.outstanding = pc.outstanding := by
  cases pc <;> rfl

@[simp] theorem WriterPc.drains_wake (pc : WriterPc) : pc.wake.drains = pc.drains := by
  cases pc <;> rfl

theorem WriterPc.wake_ne_blocked (pc : WriterPc) : pc.wake ≠ .blocked false := by
  cases pc <;> simp [WriterPc.wake]

theorem WriterPc.wake_eq_iff {pc q : WriterPc} (hq : ∀ b, q ≠ .blocked b) :
    pc.wake = q ↔ pc = q := by
  cases pc
  case blocked b => exact iff_of_false (hq true).symm (hq b).symm
  all_goals exact Iff.rfl

@[simp] theorem WriterPc.wake_eq_testing {pc : WriterPc} : pc.wake = .testing ↔ pc = .testing :=
  wake_eq_iff (by simp)

@[simp] theorem WriterPc.wake_eq_popping {pc : WriterPc} : pc.wake = .popping ↔ pc = .popping :=
  wake_eq_iff (by simp)

namespace CacheDatabase

variable {ι : Type} {cfg : CacheConfig} {s s' : CacheDatabase ι}

/-- The requests that left the queue. -/
def taken (s : CacheDatabase ι) : ℕ := s.queued.length - s.reqQueue.length

/-- The requests up to every promised one have left the queue, or the writer is in its inner
loop and `num_requests` makes it take them. -/
def SafeToStop (s : CacheDatabase ι) : Prop :=
  ∀ t ∈ s.promised, t < s.taken ∨
    s.writer.drains = true ∧ t + 1 + s.writer.outstanding ≤ s.taken + s.numRequests

/-- The task of a request passes its assertion. -/
def Writable (cfg : CacheConfig) (s : CacheDatabase ι) : Prop :=
  cfg.pipelineCacheArchived = true → s.arIsReadOnly = false

instance : Decidable (Writable cfg s) := inferInstanceAs (Decidable (_ → _))

/-- An increment and a decrement of `num_requests` do not overlap, no request is queued when
it would be the 2^32-th that waits, none is executed while the archive is read-only, and a stop
is requested when it is safe. -/
def Careful (cfg : CacheConfig) (s : CacheDatabase ι) : CacheAction ι → Prop
  | .saver i =>
      match s.savers i with
      | .queueing _ => s.reqQueue.length + s.writer.outstanding < 4294967295
      | .loading _ => s.writer.stores = false
      | _ => True
  | .writer => (s.writer = .loading → ∀ i, (s.savers i).stores = false) ∧
      (s.writer.executes = true → s.Writable cfg)
  | .requestStop => s.SafeToStop
  | _ => True

instance [Fintype ι] (s : CacheDatabase ι) (a : CacheAction ι) : Decidable (s.Careful cfg a) :=
  match a with
  | .saver i =>
      match h : s.savers i with
      | .queueing _ => decidable_of_iff
          (s.reqQueue.length + s.writer.outstanding < 4294967295) (by simp [Careful, h])
      | .loading _ => decidable_of_iff (s.writer.stores = false) (by simp [Careful, h])
      | .idle | .locking _ | .storing _ _ | .notifying _ =>
          isTrue (by simp [Careful, h])
  | .writer => inferInstanceAs (Decidable ((_ → _) ∧ (_ → _)))
  | .requestStop => inferInstanceAs (Decidable (∀ t ∈ s.promised, _))
  | .save _ _ _ _ | .spuriousWakeup | .finishPreload | .close | .join => isTrue True.intro

/-- What holds of each thread in `Save`. -/
structure SaverOk (s : CacheDatabase ι) (i : ι) (pc : SaverPc) : Prop where
  ticket : ∀ t, pc.ticket = some t → t < s.queued.length
  mutex : pc.holdsMutex = true ↔ s.submitMutex = some (.saver i)
  value : ∀ t v, pc = .storing t v →
    v = s.numRequests ∧ v < 4294967295 ∧ ∀ w, s.writer ≠ .storing w

variable [Fintype ι]

/-- What holds in every state of a careful run. -/
structure Inv (cfg : CacheConfig) (s : CacheDatabase ι) : Prop where
  order : s.queued.map cfg.execute =
    s.written ++ (s.writer.inHand ++ s.reqQueue).map cfg.execute
  savers : ∀ i, s.SaverOk i (s.savers i)
  returned : ∀ t ∈ s.returned, t < s.queued.length
  promised : ∀ t ∈ s.promised, t < s.queued.length
  writerMutex : s.writer = .testing ↔ s.submitMutex = some .writer
  writerValue : ∀ v, s.writer = .storing v → v = s.numRequests
  count : s.numRequests + tally SaverPc.uncounted s.savers =
    s.reqQueue.length + s.writer.outstanding
  positive : s.writer = .popping ∨ 0 < s.writer.outstanding → 0 < s.numRequests
  few : s.reqQueue.length + s.writer.outstanding < 4294967296
  blocked : s.writer = .blocked false →
    s.stopRequested = false ∧ (s.numRequests = 0 ∨ ∃ i t, s.savers i = .notifying t)
  stop : s.stopRequested = true ↔ s.closer = .joining ∨ s.closer = .returned
  safe : s.stopRequested = true → s.SafeToStop
  exited : s.writer = .exited → s.stopRequested = true
  closed : s.closer = .returned → s.writer = .exited
  alive : s.writer ≠ .failed

theorem inv_opened : Inv cfg (opened : CacheDatabase ι) where
  order := rfl
  savers i :=
    { ticket := fun t h => by cases h
      mutex := by simp [opened, SaverPc.holdsMutex]
      value := fun t v h => by cases h }
  returned t h := by cases h
  promised t h := by cases h
  writerMutex := by simp [opened]
  writerValue v h := by cases h
  count := by
    have h : tally SaverPc.uncounted (opened : CacheDatabase ι).savers = 0 :=
      tally_eq_zero.2 fun _ => rfl
    rw [h]
    rfl
  positive h := by simp [opened, WriterPc.outstanding] at h
  few := by simp [opened, WriterPc.outstanding]
  blocked h := by cases h
  stop := by simp [opened]
  safe h := by cases h
  exited h := by cases h
  closed h := by cases h
  alive h := by cases h

namespace Inv

theorem bound (h : Inv cfg s) : s.numRequests < 4294967296 := by
  have hcount := h.count
  have hfew := h.few
  omega

theorem queue_le (h : Inv cfg s) :
    s.written.length + s.writer.inHand.length + s.reqQueue.length = s.queued.length := by
  have := congrArg List.length h.order
  simp only [List.length_append, List.length_map] at this
  omega

theorem move (h : Inv cfg s) {pc : WriterPc} {owner : Option (MutexOwner ι)}
    (hidle : s.writer.outstanding = 0) (hidle' : pc.outstanding = 0)
    (howner : owner = s.submitMutex ∨
      ∀ j, owner ≠ some (.saver j) ∧ s.submitMutex ≠ some (.saver j))
    (htesting : pc = .testing ↔ owner = some .writer)
    (hpopping : pc = .popping → 0 < s.numRequests)
    (hblocked : pc = .blocked false → s.stopRequested = false ∧ s.numRequests = 0)
    (hexited : pc = .exited → s.stopRequested = true) (halive : s.writer ≠ .exited)
    (hfailed : pc ≠ .failed)
    (hdrains : s.stopRequested = true → s.writer.drains = true →
      pc.drains = true ∨ s.numRequests = 0) :
    Inv cfg { s with writer := pc, submitMutex := owner } := by
  have hin : ∀ {q : WriterPc}, q.outstanding = 0 → q.inHand = [] := by
    intro q hq
    cases q <;> first | rfl | cases hq
  have hstoring : ∀ v, pc ≠ .storing v := by
    rintro v rfl
    cases hidle'
  exact { h with
    order := by
      have := h.order
      rw [hin hidle] at this
      simp only [hin hidle']
      exact this
    savers := fun j => { h.savers j with
      mutex := by
        have := (h.savers j).mutex
        rcases howner with rfl | howner
        · exact this
        · simpa [howner j] using this
      value := fun t v ht =>
        have := (h.savers j).value t v ht
        ⟨this.1, this.2.1, hstoring⟩ }
    writerMutex := htesting
    writerValue := fun v hv => absurd hv (hstoring v)
    count := by
      have := h.count
      rw [hidle] at this
      simp only [hidle']
      exact this
    few := by
      have := h.few
      rw [hidle] at this
      simp only [hidle']
      exact this
    positive := fun hp => by
      rcases hp with hp | hp
      · exact hpopping hp
      · simp only [hidle'] at hp
        omega
    blocked := fun hb => ⟨(hblocked hb).1, .inl (hblocked hb).2⟩
    safe := fun hs t ht => by
      rcases h.safe hs t ht with hlt | ⟨hd, hle⟩
      · exact .inl hlt
      · simp only [taken] at hle ⊢
        rcases hdrains hs hd with hd | hzero
        · exact .inr ⟨hd, by simp only [hidle']; omega⟩
        · exact .inl (by omega)
    exited := hexited
    closed := fun hc => absurd (h.closed hc) halive
    alive := hfailed }

theorem popping (h : Inv cfg s) {r : Request} {rest : List Request} (hpc : s.writer = .popping)
    (hqueue : s.reqQueue = r :: rest) :
    Inv cfg { s with writer := .running r, reqQueue := rest } := by
  have hmutex := h.writerMutex
  have hpos := h.positive (.inl hpc)
  have hlen := h.queue_le
  rw [hpc] at hmutex
  rw [hpc, hqueue] at hlen
  simp only [WriterPc.inHand, List.length_nil, List.length_cons] at hlen
  exact { h with
    order := by
      have := h.order
      rw [hpc, hqueue] at this
      exact this
    savers := fun j => { h.savers j with
      value := fun t v ht =>
        have := (h.savers j).value t v ht
        ⟨this.1, this.2.1, by simp⟩ }
    writerMutex := by simpa using hmutex
    writerValue := fun v hv => by cases hv
    count := by
      have := h.count
      rw [hpc, hqueue] at this
      exact this
    few := by
      have := h.few
      rw [hpc, hqueue] at this
      exact this
    positive := fun _ => hpos
    blocked := fun hb => by cases hb
    safe := fun hs t ht => by
      have := h.safe hs t ht
      simp only [taken, hpc, hqueue, List.length_cons, WriterPc.outstanding] at this ⊢
      refine this.elim (fun hlt => .inl (by omega)) fun hle => .inr ⟨rfl, by omega⟩
    exited := fun he => by cases he
    closed := fun hc => by
      have := h.closed hc
      rw [hpc] at this
      cases this
    alive := fun hf => by cases hf }

theorem running (h : Inv cfg s) {r : Request} (hpc : s.writer = .running r) :
    Inv cfg { s with writer := .loading, written := s.written ++ [cfg.execute r] } := by
  have hmutex := h.writerMutex
  have hpos := h.positive (.inr (by rw [hpc]; simp [WriterPc.outstanding]))
  rw [hpc] at hmutex
  exact { h with
    order := by
      have := h.order
      rw [hpc] at this
      simpa [WriterPc.inHand] using this
    savers := fun j => { h.savers j with
      value := fun t v ht =>
        have := (h.savers j).value t v ht
        ⟨this.1, this.2.1, by simp⟩ }
    writerMutex := by simpa using hmutex
    writerValue := fun v hv => by cases hv
    count := by
      have := h.count
      rw [hpc] at this
      exact this
    few := by
      have := h.few
      rw [hpc] at this
      exact this
    positive := fun _ => hpos
    blocked := fun hb => by cases hb
    safe := fun hs t ht => by
      have := h.safe hs t ht
      rw [hpc] at this
      exact this
    exited := fun he => by cases he
    closed := fun hc => by
      have := h.closed hc
      rw [hpc] at this
      cases this
    alive := fun hf => by cases hf }

theorem load (h : Inv cfg s) (hpc : s.writer = .loading)
    (hsavers : ∀ j t v, s.savers j ≠ .storing t v) :
    Inv cfg { s with writer := .storing s.numRequests } := by
  have hmutex := h.writerMutex
  have hpos := h.positive (.inr (by rw [hpc]; decide))
  rw [hpc] at hmutex
  exact { h with
    order := by
      have := h.order
      rw [hpc] at this
      exact this
    savers := fun j => { h.savers j with
      value := fun t v ht => absurd ht (hsavers j t v) }
    writerMutex := by simpa using hmutex
    writerValue := fun v hv => by cases hv; rfl
    count := by
      have := h.count
      rw [hpc] at this
      exact this
    few := by
      have := h.few
      rw [hpc] at this
      exact this
    positive := fun _ => hpos
    blocked := fun hb => by cases hb
    safe := fun hs t ht => by
      have := h.safe hs t ht
      rw [hpc] at this
      exact this
    exited := fun he => by cases he
    closed := fun hc => by
      have := h.closed hc
      rw [hpc] at this
      cases this
    alive := fun hf => by cases hf }

theorem store (h : Inv cfg s) {v : ℕ} (hpc : s.writer = .storing v) :
    Inv cfg { s with writer := .draining, numRequests := decU32 v } := by
  have hmutex := h.writerMutex
  have hpos := h.positive (.inr (by rw [hpc]; simp [WriterPc.outstanding]))
  have hbound := h.bound
  have hnum : decU32 v = s.numRequests - 1 := by
    rw [h.writerValue v hpc]
    exact decU32_eq hpos hbound
  rw [hpc] at hmutex
  rw [hnum]
  exact { h with
    order := by
      have := h.order
      rw [hpc] at this
      exact this
    savers := fun j => { h.savers j with
      value := fun t w ht => absurd hpc (((h.savers j).value t w ht).2.2 v) }
    writerMutex := by simpa using hmutex
    writerValue := fun w hw => by cases hw
    count := by
      have := h.count
      rw [hpc] at this
      simp only [WriterPc.outstanding] at this ⊢
      omega
    positive := fun hp => by simp [WriterPc.outstanding] at hp
    few := by
      have := h.few
      simp only [WriterPc.outstanding]
      omega
    blocked := fun hb => by cases hb
    safe := fun hs t ht => by
      have := h.safe hs t ht
      simp only [taken, hpc, WriterPc.outstanding] at this ⊢
      refine this.imp_right fun hle => ⟨rfl, by omega⟩
    exited := fun he => by cases he
    closed := fun hc => by
      have := h.closed hc
      rw [hpc] at this
      cases this
    alive := fun hf => by cases hf }

variable [DecidableEq ι] {i : ι}

omit [Fintype ι] in
theorem savers_update {f : ι → SaverPc} {pc : SaverPc} (hnew : s'.SaverOk i pc)
    (h : ∀ j, j ≠ i → s'.SaverOk j (f j)) (j : ι) :
    s'.SaverOk j (Function.update f i pc j) := by
  by_cases hj : j = i
  · subst hj
    rw [Function.update_self]
    exact hnew
  · rw [Function.update_of_ne hj]
    exact h j hj

omit [Fintype ι] in
theorem notifying_update {f : ι → SaverPc} {pc : SaverPc} (hpc : ∀ t, f i ≠ .notifying t)
    (h : ∃ j t, f j = .notifying t) : ∃ j t, Function.update f i pc j = .notifying t := by
  obtain ⟨j, t, hj⟩ := h
  refine ⟨j, t, ?_⟩
  rw [Function.update_of_ne, hj]
  rintro rfl
  exact hpc t hj

theorem save (h : Inv cfg s) {r : Request} (hpc : s.savers i = .idle) :
    Inv cfg (s.setSaver i (.queueing r)) :=
  { h with
    savers := savers_update
      { ticket := fun t ht => by cases ht
        mutex := by have := (h.savers i).mutex; rw [hpc] at this; exact this
        value := fun t v ht => by cases ht }
      fun j _ => { h.savers j with }
    count := by
      have htally := tally_update SaverPc.uncounted s.savers i (.queueing r)
      have hcount := h.count
      rw [hpc] at htally
      simp only [SaverPc.uncounted, Nat.add_zero] at htally
      simp only [setSaver]
      omega
    blocked := fun hb => (h.blocked hb).imp_right fun hb =>
      hb.imp_right (notifying_update (by simp [hpc])) }

theorem queueing (h : Inv cfg s) {r : Request} (hpc : s.savers i = .queueing r)
    (hfew : s.reqQueue.length + s.writer.outstanding < 4294967295) :
    Inv cfg { s.setSaver i (.locking s.queued.length) with
      reqQueue := s.reqQueue ++ [r], queued := s.queued ++ [r] } :=
  { h with
    order := by
      have := h.order
      simp only [setSaver, List.map_append, ← List.append_assoc] at this ⊢
      rw [this]
    savers := savers_update
      { ticket := fun t ht => by cases ht; simp
        mutex := by have := (h.savers i).mutex; rw [hpc] at this; exact this
        value := fun t v ht => by cases ht }
      fun j _ => { h.savers j with
        ticket := fun t ht => by
          have := (h.savers j).ticket t ht
          simp only [List.length_append, List.length_singleton]
          omega }
    returned := fun t ht => by
      have := h.returned t ht
      simp only [List.length_append, List.length_singleton]
      omega
    promised := fun t ht => by
      have := h.promised t ht
      simp only [List.length_append, List.length_singleton]
      omega
    count := by
      have htally := tally_update SaverPc.uncounted s.savers i (.locking s.queued.length)
      have hcount := h.count
      rw [hpc] at htally
      simp only [SaverPc.uncounted, Nat.add_zero] at htally
      simp only [setSaver, List.length_append, List.length_singleton]
      omega
    few := by
      simp only [setSaver, List.length_append, List.length_singleton]
      omega
    blocked := fun hb => (h.blocked hb).imp_right fun hb =>
      hb.imp_right (notifying_update (by simp [hpc]))
    safe := fun hs t ht => by
      have := h.safe hs t ht
      simpa [taken, setSaver] using this }

omit [DecidableEq ι] in
theorem not_holdsMutex (h : Inv cfg s) {j : ι} (hmutex : s.submitMutex = some (.saver i))
    (hj : j ≠ i) : (s.savers j).holdsMutex = false := by
  have := (h.savers j).mutex
  rw [hmutex, Option.some.injEq, MutexOwner.saver.injEq] at this
  simpa [hj.symm] using this

theorem locking (h : Inv cfg s) {t : ℕ} (hpc : s.savers i = .locking t)
    (hfree : s.submitMutex = none) :
    Inv cfg { s.setSaver i (.loading t) with submitMutex := some (.saver i) } :=
  { h with
    savers := savers_update
      { ticket := fun t' ht => by
          cases ht
          exact (h.savers i).ticket t (by rw [hpc]; rfl)
        mutex := by simp [SaverPc.holdsMutex]
        value := fun t v ht => by cases ht }
      fun j hj => { h.savers j with
        mutex := by
          have := (h.savers j).mutex
          rw [hfree] at this
          simpa [Ne.symm hj] using this }
    writerMutex := by
      have := h.writerMutex
      rw [hfree] at this
      simpa [setSaver] using this
    count := by
      have htally := tally_update SaverPc.uncounted s.savers i (.loading t)
      have hcount := h.count
      rw [hpc] at htally
      simp only [SaverPc.uncounted] at htally
      simp only [setSaver]
      omega
    blocked := fun hb => (h.blocked hb).imp_right fun hb =>
      hb.imp_right (notifying_update (by simp [hpc])) }

theorem loading (h : Inv cfg s) {t : ℕ} (hpc : s.savers i = .loading t)
    (hwriter : ∀ v, s.writer ≠ .storing v) :
    Inv cfg (s.setSaver i (.storing t s.numRequests)) :=
  { h with
    savers := savers_update
      { ticket := fun t' ht => by
          cases ht
          exact (h.savers i).ticket t (by rw [hpc]; rfl)
        mutex := by have := (h.savers i).mutex; rw [hpc] at this; exact this
        value := fun t' v ht => by
          cases ht
          have hcount := h.count
          have hfew := h.few
          have hpos : 0 < tally SaverPc.uncounted s.savers :=
            tally_pos (i := i) (by simp [hpc, SaverPc.uncounted])
          exact ⟨rfl, by omega, hwriter⟩ }
      fun j _ => { h.savers j with }
    count := by
      have htally := tally_update SaverPc.uncounted s.savers i (.storing t s.numRequests)
      have hcount := h.count
      rw [hpc] at htally
      simp only [SaverPc.uncounted] at htally
      simp only [setSaver]
      omega
    blocked := fun hb => (h.blocked hb).imp_right fun hb =>
      hb.imp_right (notifying_update (by simp [hpc])) }

theorem storing (h : Inv cfg s) {t v : ℕ} (hpc : s.savers i = .storing t v) :
    Inv cfg { s.setSaver i (.notifying t) with numRequests := incU32 v } := by
  obtain ⟨hv, hmax, hwriter⟩ := (h.savers i).value t v hpc
  have hnum : incU32 v = s.numRequests + 1 := by rw [incU32_eq hmax, hv]
  have hmutex : s.submitMutex = some (.saver i) :=
    (h.savers i).mutex.1 (by rw [hpc]; rfl)
  rw [hnum]
  exact { h with
    savers := savers_update
      { ticket := fun t' ht => by
          cases ht
          exact (h.savers i).ticket t (by rw [hpc]; rfl)
        mutex := by have := (h.savers i).mutex; rw [hpc] at this; exact this
        value := fun t' v ht => by cases ht }
      fun j hj => { h.savers j with
        value := fun t' v' ht => by
          have := h.not_holdsMutex hmutex hj
          rw [ht] at this
          cases this }
    writerValue := fun w hw => absurd hw (hwriter w)
    count := by
      have htally := tally_update SaverPc.uncounted s.savers i (.notifying t)
      have hcount := h.count
      rw [hpc] at htally
      simp only [SaverPc.uncounted, Nat.add_zero] at htally
      simp only [setSaver]
      omega
    positive := fun _ => by simp
    blocked := fun hb => (h.blocked hb).imp_right fun _ =>
      .inr ⟨i, t, by simp [setSaver]⟩
    safe := fun hs t' ht => (h.safe hs t' ht).imp_right fun ⟨hd, hle⟩ => ⟨hd, by
      simp only [taken, setSaver] at hle ⊢
      omega⟩ }

theorem notifying (h : Inv cfg s) {t : ℕ} (hpc : s.savers i = .notifying t) :
    Inv cfg { s.setSaver i .idle with
      submitMutex := none, writer := s.writer.wake, returned := t :: s.returned } := by
  have hmutex : s.submitMutex = some (.saver i) :=
    (h.savers i).mutex.1 (by rw [hpc]; rfl)
  have htesting : s.writer ≠ .testing := by
    rw [ne_eq, h.writerMutex, hmutex]
    simp
  exact { h with
    order := by
      have := h.order
      simpa [setSaver] using this
    savers := savers_update
      { ticket := fun t' ht => by cases ht
        mutex := by simp [SaverPc.holdsMutex]
        value := fun t' v ht => by cases ht }
      fun j hj => { h.savers j with
        mutex := by simp [h.not_holdsMutex hmutex hj]
        value := fun t' v ht => by
          have := h.not_holdsMutex hmutex hj
          rw [ht] at this
          cases this }
    returned := fun t' ht => by
      rcases List.mem_cons.1 ht with rfl | ht
      · exact (h.savers i).ticket t' (by rw [hpc]; rfl)
      · exact h.returned t' ht
    writerMutex := by simpa [setSaver] using htesting
    writerValue := fun v hv => h.writerValue v (WriterPc.wake_eq_iff (by simp) |>.1 hv)
    count := by
      have htally := tally_update SaverPc.uncounted s.savers i .idle
      have hcount := h.count
      rw [hpc] at htally
      simp only [SaverPc.uncounted, Nat.add_zero] at htally
      simp only [setSaver, WriterPc.outstanding_wake]
      omega
    positive := fun hp => h.positive (by simpa [setSaver] using hp)
    few := by simpa [setSaver] using h.few
    blocked := fun hb => absurd hb (WriterPc.wake_ne_blocked _)
    safe := fun hs t' ht => by
      have := h.safe hs t' ht
      simpa [taken, setSaver] using this
    exited := fun he => h.exited (WriterPc.wake_eq_iff (by simp) |>.1 he)
    alive := fun hf => h.alive (WriterPc.wake_eq_iff (by simp) |>.1 hf)
    closed := fun hc => WriterPc.wake_eq_iff (by simp) |>.2 (h.closed hc) }

omit [DecidableEq ι] in
theorem wake (h : Inv cfg s) : Inv cfg { s with writer := s.writer.wake } :=
  { h with
    order := by simpa using h.order
    savers := fun j => { h.savers j with
      value := fun t v ht =>
        have := (h.savers j).value t v ht
        ⟨this.1, this.2.1, fun w hw => this.2.2 w (WriterPc.wake_eq_iff (by simp) |>.1 hw)⟩ }
    writerMutex := by simpa using h.writerMutex
    writerValue := fun v hv => h.writerValue v (WriterPc.wake_eq_iff (by simp) |>.1 hv)
    count := by simpa using h.count
    positive := fun hp => h.positive (by simpa using hp)
    few := by simpa using h.few
    blocked := fun hb => absurd hb (WriterPc.wake_ne_blocked _)
    safe := fun hs t ht => by simpa [taken] using h.safe hs t ht
    exited := fun he => h.exited (WriterPc.wake_eq_iff (by simp) |>.1 he)
    alive := fun hf => h.alive (WriterPc.wake_eq_iff (by simp) |>.1 hf)
    closed := fun hc => WriterPc.wake_eq_iff (by simp) |>.2 (h.closed hc) }

omit [DecidableEq ι] in
theorem close (h : Inv cfg s) (hout : s.closer = .outside) :
    Inv cfg { s with closer := .called, promised := s.returned } := by
  have hstop : s.stopRequested ≠ true := by
    rw [ne_eq, h.stop, hout]
    decide
  exact { h with
    savers := fun j => { h.savers j with }
    promised := h.returned
    stop := by simpa using hstop
    safe := fun hs => absurd hs hstop
    closed := fun hc => by cases hc }

omit [DecidableEq ι] in
theorem requestStop (h : Inv cfg s) (hsafe : s.SafeToStop) :
    Inv cfg { s with
      closer := .joining, stopRequested := true, writer := s.writer.wake } := by
  have hwake := h.wake
  exact { hwake with
    savers := fun j => { hwake.savers j with }
    blocked := fun hb => absurd hb (WriterPc.wake_ne_blocked _)
    stop := by simp
    safe := fun _ t ht => by simpa [taken] using hsafe t ht
    exited := fun _ => rfl
    closed := fun hc => by cases hc }

theorem stepSaver (h : Inv cfg s) (hok : s.Careful cfg (.saver i)) (hs : s.stepSaver i = some s') :
    Inv cfg s' := by
  unfold CacheDatabase.stepSaver at hs
  split at hs
  case h_1 => cases hs
  case h_2 r hpc =>
      cases hs
      simp only [Careful, hpc] at hok
      exact h.queueing hpc hok
  case h_3 t hpc =>
      split at hs
      case isTrue hfree =>
          cases hs
          exact h.locking hpc hfree
      case isFalse => cases hs
  case h_4 t hpc =>
      cases hs
      simp only [Careful, hpc] at hok
      exact h.loading hpc fun v hv => by rw [hv] at hok; cases hok
  case h_5 t v hpc =>
      cases hs
      exact h.storing hpc
  case h_6 t hpc =>
      cases hs
      exact h.notifying hpc

omit [DecidableEq ι] in
theorem stepWriter (h : Inv cfg s) (hok : s.Careful cfg .writer)
    (hs : s.stepWriter cfg = some s') : Inv cfg s' := by
  unfold CacheDatabase.stepWriter at hs
  have hmutex := h.writerMutex
  split at hs
  case h_1 hpc =>
      cases hs
      rw [hpc] at hmutex
      refine h.move (by rw [hpc]; rfl) (by split <;> rfl) (.inl (Eq.refl s.submitMutex))
        ?_ (by split <;> simp) (by split <;> simp) (by split <;> simp [*]) (by simp [hpc])
        (by split <;> simp) (by simp [hpc, WriterPc.drains])
      rw [← hmutex]
      split <;> simp
  case h_2 hpc =>
      split at hs
      case isTrue hfree =>
          cases hs
          exact h.move (by rw [hpc]; rfl) rfl (.inr (by simp [hfree])) (by simp) (by simp)
            (by simp) (by simp) (by simp [hpc]) (by simp)
            (by simp [hpc, WriterPc.drains])
      case isFalse => cases hs
  case h_3 hpc =>
      cases hs
      have howner := hmutex.1 hpc
      refine h.move (by rw [hpc]; rfl) (by split <;> rfl) (.inr (by simp [howner]))
        (by split <;> simp) (by split <;> simp) ?_ (by split <;> simp) (by simp [hpc])
        (by split <;> simp) (by simp [hpc, WriterPc.drains])
      split
      case isTrue => simp
      case isFalse hno => intro _; simpa using hno
  case h_4 woken hpc =>
      split at hs
      case isTrue =>
          cases hs
          rw [hpc] at hmutex
          exact h.move (by rw [hpc]; rfl) rfl (.inl rfl) (by simpa using hmutex) (by simp)
            (by simp) (by simp) (by simp [hpc]) (by simp)
            (by simp [hpc, WriterPc.drains])
      case isFalse => cases hs
  case h_5 hpc =>
      cases hs
      rw [hpc] at hmutex
      refine h.move (by rw [hpc]; rfl) (by split <;> rfl) (.inl (Eq.refl s.submitMutex))
        ?_ (by split <;> simp) (by split <;> simp) (by split <;> simp [*]) (by simp [hpc])
        (by split <;> simp) (by simp [hpc, WriterPc.drains])
      rw [← hmutex]
      split <;> simp
  case h_6 hpc =>
      cases hs
      rw [hpc] at hmutex
      refine h.move (by rw [hpc]; rfl) (by split <;> rfl) (.inl (Eq.refl s.submitMutex))
        ?_ (by split <;> (simp; try omega)) (by split <;> simp) (by split <;> simp) (by simp [hpc])
        (by split <;> simp) (by split <;> simp_all [WriterPc.drains])
      rw [← hmutex]
      split <;> simp
  case h_7 hpc =>
      split at hs
      case h_1 =>
          cases hs
          rw [hpc] at hmutex
          exact h.move (by rw [hpc]; rfl) rfl (.inl rfl) (by simpa using hmutex) (by simp)
            (by simp) (by simp) (by simp [hpc]) (by simp) (fun _ _ => .inl rfl)
      case h_2 r rest hqueue =>
          cases hs
          exact h.popping hpc hqueue
  case h_8 r hpc =>
      split at hs
      case isTrue hreadOnly =>
          have hwritable := hok.2 (by rw [hpc]; rfl) hreadOnly.1
          rw [hwritable] at hreadOnly
          cases hreadOnly.2
      case isFalse =>
          cases hs
          exact h.running hpc
  case h_9 hpc =>
      cases hs
      exact h.load hpc fun j t v hj => by have := hok.1 hpc j; rw [hj] at this; cases this
  case h_10 v hpc =>
      obtain rfl := Option.some.inj hs
      exact h.store hpc
  case h_11 => cases hs
  case h_12 => cases hs

/-- A careful step of a saver, the writer or the closer keeps the invariant. -/
theorem step (h : Inv cfg s) {a : CacheAction ι} (hok : s.Careful cfg a)
    (hs : CacheDatabase.step cfg s a = some s') : Inv cfg s' := by
  cases a <;> simp only [CacheDatabase.step] at hs
  case save i type name data =>
      split at hs
      case isTrue hpc =>
          cases hs
          exact h.save hpc
      case isFalse => cases hs
  case saver i => exact h.stepSaver hok hs
  case writer => exact h.stepWriter hok hs
  case spuriousWakeup =>
      cases hs
      exact h.wake
  case finishPreload =>
      cases hs
      exact { h with savers := fun j => { h.savers j with } }
  case close =>
      split at hs
      case isTrue hout =>
          cases hs
          exact h.close hout
      case isFalse => cases hs
  case requestStop =>
      split at hs
      case isTrue =>
          cases hs
          exact h.requestStop hok
      case isFalse => cases hs
  case join =>
      split at hs
      case isTrue hjoin =>
          cases hs
          exact { h with
            savers := fun j => { h.savers j with }
            stop := by simpa [hjoin.1] using h.stop
            closed := fun _ => hjoin.2 }
      case isFalse => cases hs

end Inv

/-- By induction on the run. -/
theorem inv_of_reachable [DecidableEq ι]
    (h : Transition.Reachable (step cfg) (Careful cfg) (opened : CacheDatabase ι) s) : Inv cfg s :=
  h.invariant inv_opened fun _ _ _ hinv hok hs => hinv.step hok hs

/-! ## `Close` returns -/

def stepsLeft (s : CacheDatabase ι) : ℕ :=
  s.writer.rank (s.reqQueue.length + s.writer.outstanding) +
    match s.submitMutex with
    | some (.saver i) => (s.savers i).rank
    | _ => 0

/-- The step is possible and brings the end of the writer closer. -/
def Progress (s : CacheDatabase ι) (next : Option (CacheDatabase ι)) : Prop :=
  ∃ s', next = some s' ∧ s'.closer = s.closer ∧ s'.arIsReadOnly = s.arIsReadOnly ∧
    s'.stepsLeft < s.stepsLeft

omit [Fintype ι] in
theorem progress_saver [DecidableEq ι] {i : ι} (hmutex : s.submitMutex = some (.saver i))
    (hholds : (s.savers i).holdsMutex = true) (hblocked : s.writer ≠ .blocked false) :
    s.Progress (s.stepSaver i) := by
  unfold stepSaver
  cases hi : s.savers i <;> rw [hi] at hholds <;> try cases hholds
  case loading t =>
      refine ⟨_, rfl, rfl, rfl, ?_⟩
      simp [stepsLeft, setSaver, hmutex, hi, SaverPc.rank]
  case storing t v =>
      refine ⟨_, rfl, rfl, rfl, ?_⟩
      simp [stepsLeft, setSaver, hmutex, hi, SaverPc.rank]
  case notifying t =>
      refine ⟨_, rfl, rfl, rfl, ?_⟩
      have hwake : s.writer.wake = s.writer := by
        revert hblocked
        cases s.writer <;> simp [WriterPc.wake]
      simp [stepsLeft, setSaver, hmutex, hi, SaverPc.rank, hwake]

omit [Fintype ι] in
theorem careful_of_holdsMutex {i : ι} (hholds : (s.savers i).holdsMutex = true)
    (hstores : s.writer.stores = false ∨ (s.savers i).stores = true) : s.Careful cfg (.saver i) := by
  unfold Careful
  cases hi : s.savers i <;> rw [hi] at hholds hstores <;>
    simp_all [SaverPc.holdsMutex, SaverPc.stores]

theorem progress_writer (h : Inv cfg s) (hstop : s.stopRequested = true)
    (hpc : s.writer ≠ .exited) (hwritable : s.Writable cfg) (hfree : s.writer = .locking → s.submitMutex = none) :
    s.Progress (s.stepWriter cfg) := by
  have hpos := h.positive
  have hcount := h.count
  unfold stepWriter
  cases hwriter : s.writer
  case exited => exact absurd hwriter hpc
  case failed => exact absurd hwriter h.alive
  case loop =>
      refine ⟨_, rfl, rfl, rfl, ?_⟩
      simp [stepsLeft, hwriter, hstop, WriterPc.rank]
  case locking =>
      simp only [hfree hwriter, if_true]
      refine ⟨_, rfl, rfl, rfl, ?_⟩
      simp [stepsLeft, hwriter, hfree hwriter, WriterPc.rank]
  case testing =>
      refine ⟨_, rfl, rfl, rfl, ?_⟩
      simp only [stepsLeft, hwriter, hstop, WriterPc.rank, true_or, if_true]
      omega
  case blocked woken =>
      cases woken
      case false =>
          have := (h.blocked hwriter).1
          rw [hstop] at this
          cases this
      case true =>
          refine ⟨_, rfl, rfl, rfl, ?_⟩
          simp [stepsLeft, hwriter, WriterPc.rank]
  case checking =>
      refine ⟨_, rfl, rfl, rfl, ?_⟩
      simp [stepsLeft, hwriter, hstop, WriterPc.rank]
  case draining =>
      refine ⟨_, rfl, rfl, rfl, ?_⟩
      by_cases hnum : s.numRequests = 0 <;>
        simp only [stepsLeft, hwriter, hnum, WriterPc.rank, WriterPc.outstanding, ne_eq,
          not_true_eq_false, not_false_eq_true, if_false, if_true] <;>
        omega
  case popping =>
      have hnum := hpos (.inl hwriter)
      rw [hwriter] at hcount
      cases hqueue : s.reqQueue
      case nil =>
          rw [hqueue] at hcount
          simp only [WriterPc.outstanding, List.length_nil] at hcount
          omega
      case cons r rest =>
          refine ⟨_, rfl, rfl, rfl, ?_⟩
          simp only [stepsLeft, hwriter, hqueue, WriterPc.rank, WriterPc.outstanding,
            List.length_cons]
          omega
  case running r =>
      have hopen : ¬ (cfg.pipelineCacheArchived = true ∧ s.arIsReadOnly = true) := fun hreadOnly => by
        rw [hwritable hreadOnly.1] at hreadOnly
        cases hreadOnly.2
      simp only [if_neg hopen]
      refine ⟨_, rfl, rfl, rfl, ?_⟩
      simp only [stepsLeft, hwriter, WriterPc.rank, WriterPc.outstanding]
      omega
  case loading =>
      refine ⟨_, rfl, rfl, rfl, ?_⟩
      simp only [stepsLeft, hwriter, WriterPc.rank, WriterPc.outstanding]
      omega
  case storing v =>
      refine ⟨_, rfl, rfl, rfl, ?_⟩
      simp only [stepsLeft, hwriter, WriterPc.rank, WriterPc.outstanding]
      omega

variable [DecidableEq ι]

theorem exists_step (h : Inv cfg s) (hstop : s.stopRequested = true) (hwritable : s.Writable cfg)
    (hpc : s.writer ≠ .exited) : ∃ a, s.Careful cfg a ∧ s.Progress (step cfg s a) := by
  have hblocked : s.writer ≠ .blocked false := by
    intro hb
    have := (h.blocked hb).1
    rw [hstop] at this
    cases this
  by_cases hstoring : ∃ i, (s.savers i).stores = true
  · obtain ⟨i, hi⟩ := hstoring
    have hholds : (s.savers i).holdsMutex = true := by
      cases hpc : s.savers i <;> rw [hpc] at hi <;> first | rfl | cases hi
    exact ⟨.saver i, careful_of_holdsMutex hholds (.inr hi),
      progress_saver ((h.savers i).mutex.1 hholds) hholds hblocked⟩
  · have hok : s.Careful cfg .writer := by
      refine ⟨fun _ i => ?_, fun _ => hwritable⟩
      by_contra hi
      exact hstoring ⟨i, by simpa using hi⟩
    by_cases hwait : s.writer = .locking ∧ s.submitMutex ≠ none
    · obtain ⟨hwriter, hmutex⟩ := hwait
      obtain ⟨owner, howner⟩ := Option.ne_none_iff_exists'.1 hmutex
      cases owner
      case writer =>
          have := h.writerMutex.2 howner
          rw [hwriter] at this
          cases this
      case saver i =>
          have hholds := (h.savers i).mutex.2 howner
          exact ⟨.saver i, careful_of_holdsMutex hholds (.inl (by rw [hwriter]; rfl)),
            progress_saver howner hholds hblocked⟩
    · exact ⟨.writer, hok, progress_writer h hstop hpc hwritable fun hw => by
        by_contra hmutex
        exact hwait ⟨hw, hmutex⟩⟩

theorem close_returns_writable (h : Inv cfg s) (hwritable : s.Writable cfg)
    (hjoin : s.closer = .joining) :
    ∃ s', Transition.Reachable (step cfg) (Careful cfg) s s' ∧ s'.closer = .returned := by
  generalize hn : s.stepsLeft = n
  induction n using Nat.strong_induction_on generalizing s with
  | _ n ih =>
      have hstop : s.stopRequested = true := h.stop.2 (.inl hjoin)
      by_cases hpc : s.writer = .exited
      · exact ⟨{ s with closer := .returned }, .step .join .start True.intro
          (if_pos ⟨hjoin, hpc⟩), rfl⟩
      · obtain ⟨a, hok, s₁, hs, hcloser, hmode, hlt⟩ := exists_step h hstop hwritable hpc
        obtain ⟨s', hreach, hret⟩ := ih s₁.stepsLeft (hn ▸ hlt) (h.step hok hs)
          (fun harchived => hmode.trans (hwritable harchived)) (hcloser.trans hjoin) rfl
        exact ⟨s', .trans (.step a .start hok hs) hreach, hret⟩

/-- The archive is made writable first, if it is not. -/
theorem close_returns (h : Inv cfg s) (hjoin : s.closer = .joining) :
    ∃ s', Transition.Reachable (step cfg) (Careful cfg) s s' ∧ s'.closer = .returned := by
  have hfirst : CacheDatabase.step cfg s .finishPreload = some _ := rfl
  obtain ⟨s', hreach, hret⟩ := close_returns_writable (h.step (a := .finishPreload) True.intro hfirst)
    (fun harchived => by simp only [harchived, Bool.not_true, Bool.and_false]) hjoin
  exact ⟨s', .trans (.step .finishPreload .start True.intro hfirst) hreach, hret⟩

/-! ## What a careful run keeps -/

theorem exists_reachable (l : List (CacheAction (Fin 1))) {p : CacheDatabase (Fin 1) → Prop}
    [DecidablePred p] (h : (Transition.run (step ⟨true, []⟩) opened l).any (p ·) = true) :
    ∃ s, Transition.Reachable (step ⟨true, []⟩) (fun _ _ => True) opened s ∧ p s := by
  obtain ⟨s, hs, hp⟩ := (Option.any_eq_true _ _).1 h
  exact ⟨s, Transition.reachable_of_run hs (Transition.allOk_of_forall fun _ _ _ => True.intro),
    of_decide_eq_true hp⟩

end CacheDatabase

end OrbitConsole.VideoCore
