import OrbitConsole.VideoCore.StreamBuffer

/-!
# Regions in flight are not mapped again

Which watches stand for a committed region depends on the round it was committed
in. In the round that is being filled they are the current watches below the
cursor; in the round before, the previous watches below the mark; for older rounds
the first watch of the round after them is late enough, and with it every later one.
-/

namespace OrbitConsole.VideoCore

/-! ### The scheduler only moves on -/

namespace Scheduler

/-- A later state of the scheduler. -/
structure Le (s s' : Scheduler) : Prop where
  current : s.current_tick ≤ s'.current_tick
  gpu : s.gpu_tick ≤ s'.gpu_tick

theorem Le.refl (s : Scheduler) : Le s s := ⟨Nat.le_refl _, Nat.le_refl _⟩

theorem Le.trans {s s' s'' : Scheduler} (h : Le s s') (h' : Le s' s'') : Le s s'' :=
  ⟨Nat.le_trans h.current h'.current, Nat.le_trans h.gpu h'.gpu⟩

theorem le_flush (s : Scheduler) : Le s s.flush := ⟨Nat.le_succ _, Nat.le_refl _⟩

theorem le_refresh (counter : ℕ) (s : Scheduler) : Le s (s.refresh counter) := by
  unfold refresh
  split
  · exact Le.refl s
  · next h => exact ⟨Nat.le_refl _, Nat.le_of_not_lt h⟩

theorem le_isFree (counter tick : ℕ) (s : Scheduler) : Le s (s.isFree counter tick).2 := by
  unfold isFree
  split
  · exact Le.refl s
  · exact le_refresh counter s

theorem le_wait (counter tick : ℕ) (s : Scheduler) : Le s (s.wait counter tick) := by
  have hflush : Le s (if s.current_tick ≤ tick then s.flush else s) := by
    split
    · exact le_flush s
    · exact Le.refl s
  unfold wait
  dsimp only
  generalize (if s.current_tick ≤ tick then s.flush else s) = s' at hflush
  split
  · exact hflush
  · exact hflush.trans (le_refresh _ _)

theorem tick_le_wait (counter tick : ℕ) (s : Scheduler) :
    tick ≤ (s.wait counter tick).gpu_tick := by
  unfold wait
  dsimp only
  generalize (if s.current_tick ≤ tick then s.flush else s) = s'
  split
  · next h => exact h
  · next h =>
      rw [refresh]
      split
      · next hlt => exact absurd (Nat.lt_of_le_of_lt (Nat.le_max_right counter tick) hlt) (by omega)
      · exact Nat.le_max_right counter tick

end Scheduler

/-! ### Watches -/

/-- Ticks of watches: none is later than `tick`, those below the cursor are in order, and what
an earlier round left behind the cursor is older than those. -/
structure Ordered (watches : List Watch) (cursor tick : ℕ) : Prop where
  tick_le : ∀ w ∈ watches, w.tick ≤ tick
  sorted : ∀ {i j : ℕ} {v w : Watch}, i ≤ j → j < cursor → watches[i]? = some v →
    watches[j]? = some w → v.tick ≤ w.tick
  stale : ∀ {i j : ℕ} {v w : Watch}, i < cursor → cursor ≤ j → watches[i]? = some v →
    watches[j]? = some w → w.tick ≤ v.tick

/-- The watches below the cursor stand for a region: one that ends behind the start of the
region is as late as the region, and so is the last one. -/
structure Covered (watches : List Watch) (cursor : ℕ) (r : Region) : Prop where
  cursor_pos : 0 < cursor
  bound : ∀ {i : ℕ} {w : Watch}, i < cursor → watches[i]? = some w → r.lo < w.upper_bound →
    r.tick ≤ w.tick
  last : ∀ {w : Watch}, watches[cursor - 1]? = some w → r.tick ≤ w.tick

/-- A region of an earlier round. -/
structure Past (b : StreamBuffer) (r : Region) : Prop where
  covered : ∃ mark, b.invalidation_mark = some mark ∧ Covered b.previous_watches mark r
  first : ∀ {w : Watch}, 0 < b.current_watch_cursor → b.current_watches[0]? = some w →
    r.tick ≤ w.tick

/-- How far the watches of the round before have been waited for. -/
structure Waited (b : StreamBuffer) (mark gpu_tick : ℕ) : Prop where
  mark_pos : 0 < mark
  mark_le : mark ≤ b.previous_watches.length
  cursor_le : b.wait_cursor ≤ mark
  complete : ∀ {i : ℕ} {w : Watch}, i < b.wait_cursor → b.previous_watches[i]? = some w →
    w.tick ≤ gpu_tick
  bound : ∀ {w : Watch}, 0 < b.wait_cursor → b.previous_watches[b.wait_cursor - 1]? = some w →
    b.wait_bound = w.upper_bound
  bound_zero : b.wait_cursor = 0 → b.wait_bound = 0

structure StreamInv (d : StreamParams) (b : StreamBuffer) (s : Scheduler)
    (committed : List Region) : Prop where
  offset_le : b.offset ≤ d.size_bytes
  cursor_lt : b.current_watch_cursor < b.current_watches.length
  cursor_pos : 0 < b.offset → 0 < b.current_watch_cursor
  upper_le : ∀ {i : ℕ} {w : Watch}, i < b.current_watch_cursor → b.current_watches[i]? = some w →
    w.upper_bound ≤ b.offset
  current : Ordered b.current_watches b.current_watch_cursor s.current_tick
  previous : ∀ w ∈ b.previous_watches, w.tick ≤ s.current_tick
  previous_pos : 0 < b.previous_watches.length
  waited : ∀ {mark : ℕ}, b.invalidation_mark = some mark → Waited b mark s.gpu_tick
  tick_le : ∀ r ∈ committed, r.tick ≤ s.current_tick
  region : ∀ r ∈ committed,
    r.hi ≤ b.offset ∧ Covered b.current_watches b.current_watch_cursor r ∨ Past b r

theorem Ordered.mono {watches : List Watch} {cursor tick tick' : ℕ}
    (h : Ordered watches cursor tick) (hle : tick ≤ tick') : Ordered watches cursor tick' :=
  ⟨fun w hw => Nat.le_trans (h.tick_le w hw) hle, h.sorted, h.stale⟩

theorem Waited.mono {b : StreamBuffer} {mark gpu gpu' : ℕ} (h : Waited b mark gpu)
    (hle : gpu ≤ gpu') : Waited b mark gpu' :=
  ⟨h.mark_pos, h.mark_le, h.cursor_le, fun hi hw => Nat.le_trans (h.complete hi hw) hle,
    h.bound, h.bound_zero⟩

theorem StreamInv.mono {d : StreamParams} {b : StreamBuffer} {s s' : Scheduler}
    {committed : List Region} (h : StreamInv d b s committed) (hle : s.Le s') :
    StreamInv d b s' committed where
  offset_le := h.offset_le
  cursor_lt := h.cursor_lt
  cursor_pos := h.cursor_pos
  upper_le := h.upper_le
  current := h.current.mono hle.current
  previous := fun w hw => Nat.le_trans (h.previous w hw) hle.current
  previous_pos := h.previous_pos
  waited := fun hmark => (h.waited hmark).mono hle.gpu
  tick_le := fun r hr => Nat.le_trans (h.tick_le r hr) hle.current
  region := h.region

/-! ### Waiting -/

section Wait

variable {counter : ℕ → ℕ} {bound : ℕ} {allow_wait : Bool} {mark : ℕ}

theorem Waited.step {b : StreamBuffer} {s : Scheduler} {watch : Watch}
    (h : Waited b mark s.gpu_tick) (hlt : b.wait_cursor < mark)
    (hwatch : b.previous_watches[b.wait_cursor]? = some watch) {s' : Scheduler} (hle : s.Le s')
    (htick : watch.tick ≤ s'.gpu_tick) :
    Waited { b with wait_bound := watch.upper_bound, wait_cursor := b.wait_cursor + 1 } mark
      s'.gpu_tick where
  mark_pos := h.mark_pos
  mark_le := h.mark_le
  cursor_le := hlt
  complete := by
    intro i w hi hw
    simp only at hi hw
    obtain hi | rfl : i < b.wait_cursor ∨ i = b.wait_cursor := by omega
    · exact Nat.le_trans (h.complete hi hw) hle.gpu
    · rw [hwatch] at hw
      cases hw
      exact htick
  bound := by
    intro w _ hw
    simp only [Nat.add_sub_cancel b.wait_cursor 1] at hw
    rw [hwatch] at hw
    cases hw
    rfl
  bound_zero := fun hzero => absurd hzero (Nat.succ_ne_zero _)

theorem waitLoop_spec (counter : ℕ → ℕ) (bound : ℕ) (allow_wait : Bool) (n : ℕ)
    (b : StreamBuffer) (s : Scheduler) (hn : n = mark - b.wait_cursor)
    (h : Waited b mark s.gpu_tick) :
    ∃ ready cursor upper s',
      StreamBuffer.waitLoop counter bound allow_wait mark n b s =
        .ok (ready, { b with wait_cursor := cursor, wait_bound := upper }, s') ∧
      s.Le s' ∧ Waited { b with wait_cursor := cursor, wait_bound := upper } mark s'.gpu_tick ∧
      (ready = true → bound ≤ upper ∨ cursor = mark) := by
  induction n generalizing b s with
  | zero =>
      have hcursor := h.cursor_le
      exact ⟨true, b.wait_cursor, b.wait_bound, s, rfl, .refl s, h, fun _ => Or.inr (by omega)⟩
  | succ n ih =>
      unfold StreamBuffer.waitLoop
      split
      · next hcond =>
          have hlen : b.wait_cursor < b.previous_watches.length :=
            Nat.lt_of_lt_of_le hcond.2 h.mark_le
          have hwatch : b.previous_watches[b.wait_cursor]? =
              some b.previous_watches[b.wait_cursor] := List.getElem?_eq_getElem hlen
          generalize b.previous_watches[b.wait_cursor] = watch at hwatch
          rw [hwatch]
          dsimp only
          have hfree := s.le_isFree (counter b.wait_cursor) watch.tick
          generalize s.isFree (counter b.wait_cursor) watch.tick = q at hfree
          split
          · exact ⟨false, b.wait_cursor, b.wait_bound, q.2, rfl, hfree, h.mono hfree.gpu,
              fun hready => nomatch hready⟩
          · have hle := hfree.trans (q.2.le_wait (counter b.wait_cursor) watch.tick)
            have hstep := h.step hcond.2 hwatch hle (q.2.tick_le_wait _ _)
            obtain ⟨ready, cursor, upper, s', heq, hle', hwaited, hready⟩ :=
              ih { b with wait_bound := watch.upper_bound, wait_cursor := b.wait_cursor + 1 } _
                (by simp only; omega) hstep
            exact ⟨ready, cursor, upper, s', heq, hle.trans hle', hwaited, hready⟩
      · next hcond =>
          refine ⟨true, b.wait_cursor, b.wait_bound, s, rfl, .refl s, h, fun _ => ?_⟩
          have hcursor := h.cursor_le
          omega

end Wait

/-! ### Mapping -/

/-- A power of two. -/
def IsAlignment (alignment : ℕ) : Prop := ∃ k ≤ 63, alignment = 2 ^ k

theorem alignUp_bounds {value alignment : ℕ} (h : IsAlignment alignment) (hv : value < 2 ^ 63) :
    value ≤ alignUp value alignment ∧ alignUp value alignment ≤ 2 ^ 63 := by
  obtain ⟨k, hk, rfl⟩ := h
  have hpos : 0 < 2 ^ k := Nat.pow_pos (by decide)
  obtain ⟨q, hq⟩ : 2 ^ k ∣ 2 ^ 63 := Nat.pow_dvd_pow 2 hk
  have hmod := Nat.mod_lt value hpos
  have hdiv := Nat.div_add_mod value (2 ^ k)
  unfold alignUp
  dsimp only
  split
  · omega
  · next hne =>
      have hnext : value - value % 2 ^ k + 2 ^ k ≤ 2 ^ 63 := by
        have hlt : value / 2 ^ k < q := by
          rw [hq] at hv
          exact Nat.div_lt_of_lt_mul hv
        have hle : 2 ^ k * (value / 2 ^ k + 1) ≤ 2 ^ k * q := Nat.mul_le_mul_left _ hlt
        rw [Nat.mul_add, Nat.mul_one] at hle
        omega
      rw [add64_eq (by omega)]
      omega

theorem alignUp_zero (alignment : ℕ) : alignUp 0 alignment = 0 := by
  simp [alignUp]

/-- The size `Map` works with. -/
def roundedSize (d : StreamParams) (size : ℕ) : ℕ :=
  if d.is_coherent = false ∧ d.usage = .stream then alignUp size d.nonCoherentAtomSize else size

theorem le_roundedSize {d : StreamParams} {size : ℕ} (h : size ≤ d.size_bytes) :
    size ≤ roundedSize d size := by
  have hlt := d.size_lt
  unfold roundedSize
  split
  · exact (alignUp_bounds d.atom_pow (by omega)).1
  · exact Nat.le_refl size

variable {d : StreamParams} {b : StreamBuffer} {s : Scheduler} {committed : List Region}

theorem StreamInv.wrap (h : StreamInv d b s committed) (hcursor : 0 < b.current_watch_cursor) :
    StreamInv d b.wrap s committed where
  offset_le := Nat.zero_le _
  cursor_lt := h.previous_pos
  cursor_pos := fun hpos => absurd hpos (Nat.lt_irrefl 0)
  upper_le := fun hi => absurd hi (Nat.not_lt_zero _)
  current := ⟨h.previous, fun _ hj => absurd hj (Nat.not_lt_zero _),
    fun hi => absurd hi (Nat.not_lt_zero _)⟩
  previous := h.current.tick_le
  previous_pos := Nat.lt_of_le_of_lt (Nat.zero_le _) h.cursor_lt
  waited := by
    rintro mark hmark
    cases hmark
    exact ⟨hcursor, Nat.le_of_lt h.cursor_lt, Nat.zero_le _, fun hi => absurd hi (Nat.not_lt_zero _),
      fun hi => absurd hi (Nat.not_lt_zero _), fun _ => rfl⟩
  tick_le := h.tick_le
  region := by
    intro r hr
    refine Or.inr ⟨⟨b.current_watch_cursor, rfl, ?_⟩, fun hpos => absurd hpos (Nat.lt_irrefl 0)⟩
    show Covered b.current_watches b.current_watch_cursor r
    obtain ⟨-, hcovered⟩ | hpast := h.region r hr
    · exact hcovered
    · -- the first watch of this round is late enough, so every later one is
      have hlen := h.cursor_lt
      have hzero : b.current_watches[0]? = some b.current_watches[0] :=
        List.getElem?_eq_getElem (by omega)
      have hfirst := hpast.first hcursor hzero
      refine ⟨hcursor, fun hi hw _ => ?_, fun hw => ?_⟩
      · exact Nat.le_trans hfirst (h.current.sorted (Nat.zero_le _) hi hzero hw)
      · exact Nat.le_trans hfirst (h.current.sorted (Nat.zero_le _) (by omega) hzero hw)

theorem StreamInv.setMapped (h : StreamInv d b s committed) (size : ℕ) :
    StreamInv d { b with mapped_size := size } s committed :=
  ⟨h.offset_le, h.cursor_lt, h.cursor_pos, h.upper_le, h.current, h.previous, h.previous_pos,
    fun hmark => ⟨(h.waited hmark).mark_pos, (h.waited hmark).mark_le, (h.waited hmark).cursor_le,
      (h.waited hmark).complete, (h.waited hmark).bound, (h.waited hmark).bound_zero⟩, h.tick_le,
    fun r hr => (h.region r hr).imp id fun hpast => ⟨hpast.covered, hpast.first⟩⟩

theorem StreamInv.setOffset (h : StreamInv d b s committed) {offset : ℕ}
    (hle : b.offset ≤ offset) (hend : offset ≤ d.size_bytes) (hzero : b.offset = 0 → offset = 0) :
    StreamInv d { b with offset := offset } s committed :=
  ⟨hend, h.cursor_lt, fun hpos => h.cursor_pos (by simp only at hpos; omega),
    fun hi hw => Nat.le_trans (h.upper_le hi hw) hle, h.current, h.previous, h.previous_pos,
    fun hmark => ⟨(h.waited hmark).mark_pos, (h.waited hmark).mark_le, (h.waited hmark).cursor_le,
      (h.waited hmark).complete, (h.waited hmark).bound, (h.waited hmark).bound_zero⟩, h.tick_le,
    fun r hr => (h.region r hr).imp (fun hcur => ⟨Nat.le_trans hcur.1 hle, hcur.2⟩)
      fun hpast => ⟨hpast.covered, hpast.first⟩⟩

theorem StreamInv.wait (h : StreamInv d b s committed) (counter : ℕ → ℕ) (bound : ℕ)
    (allow_wait : Bool) :
    ∃ ready b' s', b.waitPendingOperations counter bound allow_wait s = .ok (ready, b', s') ∧
      StreamInv d b' s' committed ∧ b'.offset = b.offset ∧ b'.mapped_size = b.mapped_size ∧
      (ready = true → ∀ r ∈ committed, Past b' r → r.lo < bound → r.tick ≤ s'.gpu_tick) := by
  unfold StreamBuffer.waitPendingOperations
  cases hmark : b.invalidation_mark with
  | none =>
      refine ⟨true, b, s, rfl, h, rfl, rfl, fun _ r _ hpast _ => ?_⟩
      obtain ⟨mark, hsome, -⟩ := hpast.covered
      rw [hmark] at hsome
      cases hsome
  | some mark =>
      obtain ⟨ready, cursor, upper, s', heq, hle, hwaited, hready⟩ :=
        waitLoop_spec counter bound allow_wait (mark - b.wait_cursor) b s rfl (h.waited hmark)
      have h' := h.mono hle
      refine ⟨ready, _, s', heq, ?_, rfl, rfl, fun htrue r _ hpast hlo => ?_⟩
      · exact ⟨h'.offset_le, h'.cursor_lt, h'.cursor_pos, h'.upper_le, h'.current, h'.previous,
          h'.previous_pos, fun hsome => by
            rw [show _ = some mark from hmark] at hsome
            cases hsome
            exact hwaited,
          h'.tick_le, fun r hr => (h'.region r hr).imp id fun hpast => ⟨hpast.covered, hpast.first⟩⟩
      · obtain ⟨mark', hsome, hcovered⟩ := hpast.covered
        rw [show _ = some mark from hmark] at hsome
        cases hsome
        have hmarkle := hwaited.mark_le
        have hcursorle := hwaited.cursor_le
        simp only at hmarkle hcursorle
        have hpos : 0 < cursor := by
          by_contra hzero
          have hbound := hwaited.bound_zero (by simp only; omega)
          have hmarkpos := hwaited.mark_pos
          simp only at hbound
          have := hready htrue
          omega
        have hget : b.previous_watches[cursor - 1]? = some b.previous_watches[cursor - 1] :=
          List.getElem?_eq_getElem (by omega)
        have htick := hwaited.complete (i := cursor - 1) (by simp only; omega) hget
        obtain hbound | hall := hready htrue
        · have hupper := hwaited.bound hpos hget
          simp only at hupper
          exact Nat.le_trans (hcovered.bound (by omega) hget (by omega)) htick
        · subst hall
          exact Nat.le_trans (hcovered.last hget) htick

theorem StreamInv.map (h : StreamInv d b s committed) (counter : ℕ → ℕ) (size : ℕ)
    {alignment : ℕ} (halign : alignment = 0 ∨ IsAlignment alignment)
    (allow_wait : Bool) :
    ∃ offset b' s', b.map d counter size alignment allow_wait s = .ok (offset, b', s') ∧
      StreamInv d b' s' committed ∧
      ∀ o, offset = some o → o = b'.offset ∧ b'.mapped_size = roundedSize d size ∧
        o + roundedSize d size ≤ d.size_bytes ∧
        ∀ r ∈ committed, r.hi ≤ o ∨ r.tick ≤ s'.gpu_tick ∨ o + roundedSize d size ≤ r.lo := by
  have hlt := d.size_lt
  unfold StreamBuffer.map
  rw [show (if d.is_coherent = false ∧ d.usage = .stream then
    alignUp size d.nonCoherentAtomSize else size) = roundedSize d size from rfl]
  generalize roundedSize d size = size'
  dsimp only
  split
  · exact ⟨none, b, s, rfl, h, fun o ho => nomatch ho⟩
  next hfit =>
  -- the offset after the alignment
  obtain ⟨offset, hoffset, hle, hle', hzero⟩ : ∃ offset,
      (if 0 < alignment then
        ({ b with mapped_size := size', offset := alignUp b.offset alignment } : StreamBuffer)
      else { b with mapped_size := size' }) =
        { b with mapped_size := size', offset := offset } ∧
      b.offset ≤ offset ∧ offset ≤ 2 ^ 63 ∧ (b.offset = 0 → offset = 0) := by
    have hoff := h.offset_le
    obtain rfl | halign := halign
    · exact ⟨b.offset, rfl, Nat.le_refl _, by omega, id⟩
    · have hpos : 0 < alignment := by
        obtain ⟨k, -, rfl⟩ := halign
        exact Nat.pow_pos (by decide)
      obtain ⟨hup, hup'⟩ := @alignUp_bounds b.offset _ halign (by omega)
      refine ⟨_, if_pos hpos, hup, hup', fun hz => ?_⟩
      rw [hz]
      exact alignUp_zero alignment
  rw [hoffset]
  have hmapped := h.setMapped size'
  have hready : ∃ b₁, (if d.size_bytes < add64 offset size' then
        StreamBuffer.wrap { b with mapped_size := size', offset := offset }
      else { b with mapped_size := size', offset := offset }) = b₁ ∧
      StreamInv d b₁ s committed ∧ b₁.mapped_size = size' ∧
      b₁.offset + size' ≤ d.size_bytes := by
    rw [add64_eq (by omega)]
    split
    · next hover =>
        have hcursor : 0 < b.current_watch_cursor := h.cursor_pos (by
          by_contra hz
          have := hzero (by omega)
          omega)
        exact ⟨_, rfl, hmapped.wrap hcursor, rfl, by
          show 0 + size' ≤ d.size_bytes
          omega⟩
    · next hin =>
        exact ⟨_, rfl, hmapped.setOffset hle (by omega) hzero, rfl, by
          show offset + size' ≤ d.size_bytes
          omega⟩
  obtain ⟨b₁, hb₁, hinv, hmsize, hend⟩ := hready
  rw [show ({ b with mapped_size := size', offset := offset } : StreamBuffer).offset = offset
    from rfl, hb₁, add64_eq (by omega)]
  obtain ⟨ready, b', s', heq, hinv', hoff, hms, hsafe⟩ :=
    hinv.wait counter (b₁.offset + size') allow_wait
  rw [heq]
  cases ready with
  | false => exact ⟨none, b', s', rfl, hinv', fun o ho => nomatch ho⟩
  | true =>
      refine ⟨some b'.offset, b', s', rfl, hinv', fun o ho => ?_⟩
      cases ho
      refine ⟨rfl, hms.trans hmsize, by rw [hoff]; exact hend, fun r hr => ?_⟩
      obtain ⟨hhi, -⟩ | hpast := hinv'.region r hr
      · exact Or.inl hhi
      · refine Or.inr ?_
        rw [hoff]
        by_cases hlo : r.lo < b₁.offset + size'
        · exact Or.inl (hsafe rfl r hr hpast hlo)
        · exact Or.inr (by omega)

/-! ### Committing -/

/-- The list after `Commit`: the watch at `cursor` is new, the ones before it are as they were,
and those behind it are as they were or unused. -/
structure Updated (watches watches' : List Watch) (cursor : ℕ) (watch : Watch) : Prop where
  length_lt : cursor + 1 < watches'.length
  at_cursor : watches'[cursor]? = some watch
  before : ∀ {i : ℕ} {w : Watch}, i < cursor → watches'[i]? = some w → watches[i]? = some w
  behind : ∀ {i : ℕ} {w : Watch}, cursor < i → watches'[i]? = some w →
    watches[i]? = some w ∨ w.tick = 0

theorem addWatch_spec (b : StreamBuffer) (s : Scheduler)
    (h : b.current_watch_cursor < b.current_watches.length) :
    ∃ watches, b.addWatch s = .ok { b with
        current_watches := watches, current_watch_cursor := b.current_watch_cursor + 1 } ∧
      Updated b.current_watches watches b.current_watch_cursor ⟨s.current_tick, b.offset⟩ := by
  have hreserve : ∃ watches, (if b.current_watches.length ≤ b.current_watch_cursor + 1 then
        StreamBuffer.reserveWatches b.current_watches StreamBuffer.watchesReserveChunk
      else b.current_watches) = watches ∧ b.current_watch_cursor + 1 < watches.length ∧
      ∀ i w, watches[i]? = some w → b.current_watches[i]? = some w ∨
        b.current_watches.length ≤ i ∧ w.tick = 0 := by
    split
    · refine ⟨_, rfl, ?_, fun i w hw => ?_⟩
      · rw [StreamBuffer.reserveWatches, List.length_append, List.length_replicate,
          StreamBuffer.watchesReserveChunk]
        omega
      · obtain hi | hi := Nat.lt_or_ge i b.current_watches.length
        · rw [StreamBuffer.reserveWatches, List.getElem?_append_left hi] at hw
          exact Or.inl hw
        · rw [StreamBuffer.reserveWatches, List.getElem?_append_right hi] at hw
          have hmem := List.mem_of_getElem? hw
          rw [List.eq_of_mem_replicate hmem]
          exact Or.inr ⟨hi, rfl⟩
    · next hlen => exact ⟨_, rfl, by omega, fun i w hw => Or.inl hw⟩
  obtain ⟨watches, heq, hlen, hget⟩ := hreserve
  unfold StreamBuffer.addWatch
  dsimp only
  rw [heq, if_pos (by omega)]
  refine ⟨_, rfl, ?_, ?_, fun hi hw => ?_, fun hi hw => ?_⟩
  · rwa [List.length_set]
  · exact List.getElem?_set_self (by omega)
  · rw [List.getElem?_set_ne (by omega)] at hw
    obtain hw | ⟨hle, -⟩ := hget _ _ hw
    · exact hw
    · exact absurd hle (by omega)
  · rw [List.getElem?_set_ne (by omega)] at hw
    exact (hget _ _ hw).imp id And.right

theorem StreamInv.addWatch (h : StreamInv d b s committed) {watches : List Watch} {offset : ℕ}
    (hle : b.offset ≤ offset) (hend : offset ≤ d.size_bytes)
    (hup : Updated b.current_watches watches b.current_watch_cursor ⟨s.current_tick, offset⟩) :
    StreamInv d { b with
      offset := offset, current_watches := watches
      current_watch_cursor := b.current_watch_cursor + 1 } s
      (⟨b.offset, offset, s.current_tick⟩ :: committed) where
  offset_le := hend
  cursor_lt := hup.length_lt
  cursor_pos := fun _ => Nat.succ_pos _
  upper_le := by
    intro i w hi hw
    obtain hi | rfl := Nat.lt_succ_iff_lt_or_eq.mp hi
    · exact Nat.le_trans (h.upper_le hi (hup.before hi hw)) hle
    · rw [show _ = some _ from hup.at_cursor] at hw
      cases hw
      exact Nat.le_refl _
  current := by
    have htick : ∀ {i : ℕ} {w : Watch}, watches[i]? = some w → w.tick ≤ s.current_tick := by
      intro i w hw
      obtain hi | rfl | hi := Nat.lt_trichotomy i b.current_watch_cursor
      · exact h.current.tick_le w (List.mem_of_getElem? (hup.before hi hw))
      · rw [hup.at_cursor] at hw
        cases hw
        exact Nat.le_refl _
      · obtain hw | hzero := hup.behind hi hw
        · exact h.current.tick_le w (List.mem_of_getElem? hw)
        · omega
    refine ⟨fun w hw => ?_, fun {i j v w} hij hj hv hw => ?_, fun {i j v w} hi hj hv hw => ?_⟩
    · obtain ⟨i, hi⟩ := List.getElem?_of_mem hw
      exact htick hi
    · obtain hj | rfl := Nat.lt_succ_iff_lt_or_eq.mp hj
      · exact h.current.sorted hij hj (hup.before (by omega) hv) (hup.before hj hw)
      · rw [show _ = some _ from hup.at_cursor] at hw
        cases hw
        exact htick hv
    · obtain hi | rfl := Nat.lt_succ_iff_lt_or_eq.mp hi
      · obtain hw | hzero := hup.behind hj hw
        · exact h.current.stale hi (Nat.le_of_succ_le hj) (hup.before hi hv) hw
        · omega
      · rw [show _ = some _ from hup.at_cursor] at hv
        cases hv
        exact htick hw
  previous := h.previous
  previous_pos := h.previous_pos
  waited := fun hmark => ⟨(h.waited hmark).mark_pos, (h.waited hmark).mark_le,
    (h.waited hmark).cursor_le, (h.waited hmark).complete, (h.waited hmark).bound,
    (h.waited hmark).bound_zero⟩
  tick_le := by
    intro r hr
    obtain rfl | hr := List.mem_cons.mp hr
    · exact Nat.le_refl _
    · exact h.tick_le r hr
  region := by
    intro r hr
    obtain rfl | hr := List.mem_cons.mp hr
    · refine Or.inl ⟨Nat.le_refl _, Nat.succ_pos _, fun hi hw hlo => ?_, fun hw => ?_⟩
      · obtain hi | rfl := Nat.lt_succ_iff_lt_or_eq.mp hi
        · exact absurd (h.upper_le hi (hup.before hi hw)) (Nat.not_le.mpr hlo)
        · rw [show _ = some _ from hup.at_cursor] at hw
          cases hw
          exact Nat.le_refl _
      · rw [Nat.add_sub_cancel b.current_watch_cursor 1, show _ = some _ from hup.at_cursor] at hw
        cases hw
        exact Nat.le_refl _
    have htick := h.tick_le r hr
    obtain ⟨hhi, hcovered⟩ | hpast := h.region r hr
    · refine Or.inl ⟨Nat.le_trans hhi hle, Nat.succ_pos _, fun hi hw hlo => ?_, fun hw => ?_⟩
      · obtain hi | rfl := Nat.lt_succ_iff_lt_or_eq.mp hi
        · exact hcovered.bound hi (hup.before hi hw) hlo
        · rw [show _ = some _ from hup.at_cursor] at hw
          cases hw
          exact htick
      · rw [Nat.add_sub_cancel b.current_watch_cursor 1, show _ = some _ from hup.at_cursor] at hw
        cases hw
        exact htick
    · refine Or.inr ⟨hpast.covered, fun _ hw => ?_⟩
      obtain hzero | hpos := Nat.eq_zero_or_pos b.current_watch_cursor
      · have hnew := hup.at_cursor
        rw [hzero] at hnew
        rw [show _ = some _ from hnew] at hw
        cases hw
        exact htick
      · exact hpast.first hpos (hup.before hpos hw)

theorem StreamInv.merge (h : StreamInv d b s committed) {watch : Watch} {offset : ℕ}
    (hle : b.offset ≤ offset) (hend : offset ≤ d.size_bytes)
    (hcursor : 0 < b.current_watch_cursor)
    (hwatch : b.current_watches[b.current_watch_cursor]? = some watch)
    (htick : watch.tick = s.current_tick) :
    StreamInv d { b with
      offset := offset
      current_watches :=
        b.current_watches.set b.current_watch_cursor { watch with upper_bound := offset } } s
      (⟨b.offset, offset, s.current_tick⟩ :: committed) := by
  have hbefore : ∀ {i : ℕ}, i < b.current_watch_cursor →
      (b.current_watches.set b.current_watch_cursor { watch with upper_bound := offset })[i]? =
        b.current_watches[i]? :=
    fun hi => List.getElem?_set_ne (by omega)
  -- the ticks are what they were
  have hsame : ∀ {i : ℕ} {w : Watch},
      (b.current_watches.set b.current_watch_cursor { watch with upper_bound := offset })[i]? =
        some w → ∃ v, b.current_watches[i]? = some v ∧ v.tick = w.tick := by
    intro i w hw
    by_cases hi : i = b.current_watch_cursor
    · subst hi
      rw [List.getElem?_set_self h.cursor_lt] at hw
      cases hw
      exact ⟨watch, hwatch, rfl⟩
    · rw [List.getElem?_set_ne (Ne.symm hi)] at hw
      exact ⟨w, hw, rfl⟩
  refine ⟨hend, ?_, fun _ => hcursor, fun {i w} hi hw => ?_, ⟨fun w hw => ?_,
    fun {i j v w} hij hj hv hw => ?_, fun {i j v w} hi hj hv hw => ?_⟩, h.previous, h.previous_pos,
    fun hmark => ⟨(h.waited hmark).mark_pos, (h.waited hmark).mark_le, (h.waited hmark).cursor_le,
      (h.waited hmark).complete, (h.waited hmark).bound, (h.waited hmark).bound_zero⟩,
    fun r hr => ?_, fun r hr => ?_⟩
  · show b.current_watch_cursor < (List.set _ _ _).length
    rw [List.length_set]
    exact h.cursor_lt
  · exact Nat.le_trans (h.upper_le hi ((hbefore hi).symm.trans hw)) hle
  · obtain ⟨i, hi⟩ := List.getElem?_of_mem hw
    obtain ⟨v, hv, hvw⟩ := hsame hi
    rw [← hvw]
    exact h.current.tick_le v (List.mem_of_getElem? hv)
  · obtain ⟨v', hv', hvv⟩ := hsame hv
    obtain ⟨w', hw', hww⟩ := hsame hw
    rw [← hvv, ← hww]
    exact h.current.sorted hij hj hv' hw'
  · obtain ⟨v', hv', hvv⟩ := hsame hv
    obtain ⟨w', hw', hww⟩ := hsame hw
    rw [← hvv, ← hww]
    exact h.current.stale hi hj hv' hw'
  · obtain rfl | hr := List.mem_cons.mp hr
    · exact Nat.le_refl _
    · exact h.tick_le r hr
  · obtain rfl | hr := List.mem_cons.mp hr
    · refine Or.inl ⟨Nat.le_refl _, hcursor, fun hi hw hlo => ?_, fun hw => ?_⟩
      · exact absurd (h.upper_le hi ((hbefore hi).symm.trans hw)) (Nat.not_le.mpr hlo)
      · have hlast := h.current.stale (i := b.current_watch_cursor - 1) (by omega) (Nat.le_refl _)
          ((hbefore (by omega)).symm.trans hw) hwatch
        rwa [htick] at hlast
    obtain ⟨hhi, hcovered⟩ | hpast := h.region r hr
    · refine Or.inl ⟨Nat.le_trans hhi hle, hcursor, fun hi hw => ?_, fun hw => ?_⟩
      · exact hcovered.bound hi ((hbefore hi).symm.trans hw)
      · exact hcovered.last ((hbefore (by omega)).symm.trans hw)
    · exact Or.inr ⟨hpast.covered, fun hpos hw => hpast.first hpos ((hbefore hpos).symm.trans hw)⟩

theorem StreamInv.commit (h : StreamInv d b s committed)
    (hend : b.offset + b.mapped_size ≤ d.size_bytes) :
    ∃ b', b.commit s = .ok b' ∧
      StreamInv d b' s (⟨b.offset, b.offset + b.mapped_size, s.current_tick⟩ :: committed) := by
  have hlt := d.size_lt
  unfold StreamBuffer.commit
  rw [add64_eq (by omega)]
  dsimp only
  generalize hoffset : b.offset + b.mapped_size = offset at *
  have hadd : ∃ b', StreamBuffer.addWatch { b with offset := offset } s = .ok b' ∧
      StreamInv d b' s (⟨b.offset, offset, s.current_tick⟩ :: committed) := by
    obtain ⟨watches, heq, hup⟩ := addWatch_spec { b with offset := offset } s h.cursor_lt
    have hle : b.offset ≤ offset := by omega
    exact ⟨_, heq, h.addWatch hle hend hup⟩
  split
  · exact hadd
  · next hcursor =>
      obtain ⟨watch, hwatch⟩ : ∃ watch, b.current_watches[b.current_watch_cursor]? = some watch :=
        ⟨_, List.getElem?_eq_getElem h.cursor_lt⟩
      rw [hwatch]
      dsimp only
      split
      · next htick =>
          exact ⟨_, rfl, h.merge (by omega) hend (Nat.pos_of_ne_zero hcursor) hwatch htick⟩
      · exact hadd

/-! ### Runs -/

namespace StreamSystem

/-- The invariant of the runs: a mapped region lies in the buffer. -/
def Inv (d : StreamParams) (st : StreamSystem) : Prop :=
  StreamInv d st.buffer st.scheduler st.committed ∧
    (st.mapped = true → st.buffer.offset + st.buffer.mapped_size ≤ d.size_bytes)

theorem inv_start (d : StreamParams) : Inv d start := by
  have hempty : ∀ w ∈ StreamBuffer.reserveWatches [] StreamBuffer.watchesInitialReserve,
      w.tick ≤ 1 := by
    intro w hw
    rw [StreamBuffer.reserveWatches, List.nil_append] at hw
    rw [List.eq_of_mem_replicate hw]
    exact Nat.zero_le _
  have hlength : 0 < (StreamBuffer.reserveWatches []
      StreamBuffer.watchesInitialReserve).length := by
    rw [StreamBuffer.reserveWatches, List.nil_append, List.length_replicate]
    decide
  refine ⟨⟨Nat.zero_le _, hlength, fun hpos => absurd hpos (Nat.lt_irrefl 0),
    fun hi => absurd hi (Nat.not_lt_zero _), ⟨hempty, fun _ hj => absurd hj (Nat.not_lt_zero _),
      fun hi => absurd hi (Nat.not_lt_zero _)⟩, hempty, hlength, (by rintro mark ⟨⟩),
    fun r hr => absurd hr List.not_mem_nil, fun r hr => absurd hr List.not_mem_nil⟩,
    fun hmapped => Bool.noConfusion hmapped⟩

/-- A call of the buffer or a tick of the scheduler keeps the invariant. -/
theorem inv_step (d : StreamParams) (st st' : StreamSystem) (a : StreamAction) (h : Inv d st)
    (hok : Admitted d st a) (hstep : step d st a = some st') : Inv d st' := by
  obtain ⟨hinv, hmapped⟩ := h
  cases a with
  | flush =>
      cases hstep
      exact ⟨hinv.mono st.scheduler.le_flush, hmapped⟩
  | progress counter =>
      cases hstep
      exact ⟨hinv.mono (st.scheduler.le_refresh counter), hmapped⟩
  | map counter size alignment allow_wait =>
      rw [step] at hstep
      split at hstep
      · cases hstep
      obtain ⟨offset, b', s', heq, hinv', hregion⟩ := hinv.map counter size hok.2 allow_wait
      rw [heq] at hstep
      cases hstep
      refine ⟨hinv', fun hsome => ?_⟩
      cases offset with
      | none => cases hsome
      | some o =>
          obtain ⟨rfl, hsize, hend, -⟩ := hregion o rfl
          show b'.offset + b'.mapped_size ≤ d.size_bytes
          rwa [hsize]
  | commit =>
      rw [step] at hstep
      split at hstep
      · next hm =>
          obtain ⟨b', heq, hinv'⟩ := hinv.commit (hmapped hm)
          rw [heq] at hstep
          cases hstep
          exact ⟨hinv', fun hm' => nomatch hm'⟩
      · cases hstep

end StreamSystem

open StreamSystem in
/-- In every run, whenever `Map` is called it returns, and no byte of the region it returns is
outside the buffer or in a committed region whose tick is not known to be complete. -/
theorem mapped_region_free (d : StreamParams) {st : StreamSystem}
    (h : Transition.Reachable (step d) (Admitted d) StreamSystem.start st) (counter : ℕ → ℕ)
    {size alignment : ℕ} (hsize : size ≤ d.size_bytes)
    (halign : alignment = 0 ∨ ∃ k ≤ 63, alignment = 2 ^ k) (allow_wait : Bool) :
    ∃ offset b' s', st.buffer.map d counter size alignment allow_wait st.scheduler =
        .ok (offset, b', s') ∧
      ∀ o, offset = some o → o + size ≤ d.size_bytes ∧
        ∀ r ∈ st.committed, s'.gpu_tick < r.tick →
          ∀ byte, o ≤ byte → byte < o + size → ¬ (r.lo ≤ byte ∧ byte < r.hi) := by
  have hinv := h.invariant (inv_start d) (inv_step d)
  obtain ⟨offset, b', s', heq, -, hregion⟩ := hinv.1.map counter size halign allow_wait
  refine ⟨offset, b', s', heq, fun o ho => ?_⟩
  obtain ⟨-, -, hend, hfree⟩ := hregion o ho
  have hround := le_roundedSize hsize
  refine ⟨by omega, fun r hr hlate byte hlo hhi => ?_⟩
  rintro ⟨hrlo, hrhi⟩
  obtain hbefore | htick | hafter := hfree r hr
  · omega
  · omega
  · omega

def smallStream : StreamParams where
  size_bytes := 64
  usage := .upload
  is_coherent := true
  nonCoherentAtomSize := 1
  size_lt := by decide
  atom_pow := ⟨0, by decide, rfl⟩

open StreamSystem in
/-- The whole buffer is committed, and mapped again. -/
theorem mapped_region_free_whole : ∃ st,
    Transition.Reachable (step smallStream) (Admitted smallStream) StreamSystem.start st ∧
    st.committed = [⟨0, 64, 1⟩] ∧
    ∃ offset b' s', st.buffer.map smallStream (fun _ => 0) 64 0 true st.scheduler =
        .ok (offset, b', s') ∧
      ∀ o, offset = some o → o + 64 ≤ 64 ∧
        ∀ r ∈ st.committed, s'.gpu_tick < r.tick →
          ∀ byte, o ≤ byte → byte < o + 64 → ¬ (r.lo ≤ byte ∧ byte < r.hi) := by
  have hmap : Transition.Reachable (step smallStream) (Admitted smallStream) StreamSystem.start
      { StreamSystem.start with
        buffer := { StreamBuffer.start with mapped_size := 64 }, mapped := true } :=
    .step (.map (fun _ => 0) 64 0 true) .start ⟨Nat.le_refl 64, Or.inl rfl⟩ rfl
  have hinv := hmap.invariant (inv_start smallStream) (inv_step smallStream)
  obtain ⟨b', heq, -⟩ := hinv.1.commit (hinv.2 rfl)
  have hcommit : Transition.Reachable (step smallStream) (Admitted smallStream) StreamSystem.start
      ⟨b', .start, false, [⟨0, 64, 1⟩]⟩ :=
    .step StreamAction.commit hmap True.intro (by
      rw [step, if_pos rfl, heq]
      rfl)
  exact ⟨_, hcommit, rfl, mapped_region_free smallStream hcommit (fun _ => 0) (Nat.le_refl 64)
    (Or.inl rfl) true⟩

end OrbitConsole.VideoCore
