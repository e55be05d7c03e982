import OrbitConsole.VideoCore.RegionProtection

/-!
# Operations on regions that share a page manager

In every state that operations of the regions reach, the watchers of each page are
those that who modified it calls for. Clearing the pages that the GPU modified is
the exception when readbacks are relaxed: the read watchers that are removed then
were never added.
-/

namespace OrbitConsole.VideoCore

inductive RegionOp
  | createRegion (index : ℕ)
  | changeRegionState (index : ℕ) (type : Modifier) (enable : Bool) (dirtyAddr size : ℕ)
  | forEachModifiedRange (index : ℕ) (type : Modifier) (clear : Bool) (queryCpuRange size : ℕ)

namespace RegionOp

def run (mode : GpuReadbacksMode) (t : MemoryTracker) : RegionOp → Except String MemoryTracker
  | createRegion index =>
      .ok (if t.topTier index = none then t.createRegion index else t)
  | changeRegionState index type enable dirtyAddr size =>
      match t.topTier index with
      | none => .ok t
      | some m => do
          let (m, tracker) ← m.changeRegionState mode type enable dirtyAddr size t.tracker
          .ok (t.store index m tracker)
  | forEachModifiedRange index type clear queryCpuRange size =>
      match t.topTier index with
      | none => .ok t
      | some m => do
          let (m, tracker, _) ←
            m.forEachModifiedRange mode type clear queryCpuRange size t.tracker
          .ok (t.store index m tracker)

def runAll (mode : GpuReadbacksMode) : List RegionOp → MemoryTracker → Except String MemoryTracker
  | [], t => .ok t
  | op :: rest, t => do
      let t ← op.run mode t
      runAll mode rest t

def HasAllGpuPages (m : RegionManager) (queryCpuRange size : ℕ) : Prop :=
  m.gpu.unsetRange (startPage (m.offsetOf queryCpuRange))
    (endPage (m.offsetOf queryCpuRange) size) = 0

/-- When readbacks are relaxed, clearing a range for the GPU either skips the region or clears
all its pages that the GPU modified. -/
def Meets (mode : GpuReadbacksMode) (t : MemoryTracker) : RegionOp → Prop
  | forEachModifiedRange index .gpu true queryCpuRange size =>
      mode = .relaxed → ∀ m, t.topTier index = some m →
        numPagesPerRegion ≤ startPage (m.offsetOf queryCpuRange) ∨
          endPage (m.offsetOf queryCpuRange) size ≤ startPage (m.offsetOf queryCpuRange) ∨
          HasAllGpuPages m queryCpuRange size
  | _ => True

def MeetsAll (mode : GpuReadbacksMode) : List RegionOp → MemoryTracker → Prop
  | [], _ => True
  | op :: rest, t => op.Meets mode t ∧ ∀ t', op.run mode t = .ok t' → MeetsAll mode rest t'

end RegionOp

variable {mode : GpuReadbacksMode} {type : Modifier} {enable clear : Bool} {index : ℕ}
  {m : RegionManager} {tracker : PageManager} {t t' : MemoryTracker}

theorem RegionBits.get_before_change {bits : RegionBits} {start stop j : ℕ}
    (h : RegionBits.get (if enable then bits.setRange start stop
      else bits.unsetRange start stop) j ≠ bits.get j) : bits.get j = !enable := by
  by_cases hstop : stop ≤ numPagesPerRegion
  · cases enable
    · rw [if_neg Bool.false_ne_true, RegionBits.get_unsetRange hstop] at h
      cases hbit : bits.get j
      · rw [hbit, Bool.false_and] at h
        exact absurd rfl h
      · rfl
    · rw [if_pos rfl, RegionBits.get_setRange hstop] at h
      cases hbit : bits.get j
      · rfl
      · rw [hbit, Bool.true_or] at h
        exact absurd rfl h
  · exfalso
    apply h
    have hout : stop ≤ start ∨ numPagesPerRegion < stop := .inr (Nat.not_le.1 hstop)
    unfold RegionBits.setRange RegionBits.unsetRange
    cases enable
    · rw [if_neg Bool.false_ne_true, if_pos hout]
    · rw [if_pos rfl, if_pos hout]

theorem RegionBits.ne_of_get_xor {bits bits' : RegionBits} {j : ℕ}
    (h : (bits ^^^ bits').get j = true) : bits.get j ≠ bits'.get j := by
  rw [RegionBits.get_xor] at h
  exact bne_iff_ne.1 h

namespace RegionManager

structure Good (mode : GpuReadbacksMode) (tracker : PageManager) (index : ℕ)
    (m : RegionManager) : Prop where
  cpuAddr : m.cpuAddr = index * trackerHigherPageSize
  watched : Watched tracker index m
  writeable : m.writeable = m.cpu
  readable : m.readable = if mode = .precise then ~~~m.gpu else BitVec.allOnes 1024

/-- What comes of a call for a region. -/
def GoodResult (mode : GpuReadbacksMode) (tracker : PageManager) (index : ℕ)
    (result : Except String (RegionManager × PageManager)) : Prop :=
  (∃ m' tracker', result = .ok (m', tracker') ∧ Good mode tracker' index m' ∧
      SameElsewhere index tracker tracker') ∨
    ∃ e, result = .error e ∧ e ≠ notEnough

theorem Good.result (h : Good mode tracker index m) :
    GoodResult mode tracker index (.ok (m, tracker)) :=
  .inl ⟨m, tracker, rfl, h, fun _ _ _ => rfl⟩

theorem Good.cpu (h : Good mode tracker index m) (start stop : ℕ) (enable : Bool) :
    GoodResult mode tracker index
      ((m.setRegionBits .cpu (if enable then m.cpu.setRange start stop
        else m.cpu.unsetRange start stop)).updateProtection (!enable) false tracker) := by
  rcases updateProtection_watched (!enable) false
    (m := m.setRegionBits .cpu (if enable then m.cpu.setRange start stop
      else m.cpu.unsetRange start stop)) h.cpuAddr h.watched (fun j hj => by
        change m.writeable.get j = _
        change RegionBits.get (_ ^^^ m.writeable) j = true at hj
        rw [h.writeable] at hj ⊢
        exact RegionBits.get_before_change (RegionBits.ne_of_get_xor hj)) with
    ⟨tracker', heq, hwatched, helse⟩ | herror
  · exact .inl ⟨_, tracker', heq, ⟨h.cpuAddr, hwatched, rfl, h.readable⟩, helse⟩
  · exact .inr herror

theorem Good.gpu_precise (h : Good .precise tracker index m) (start stop : ℕ) (enable : Bool) :
    GoodResult .precise tracker index
      ((m.setRegionBits .gpu (if enable then m.gpu.setRange start stop
        else m.gpu.unsetRange start stop)).updateProtection enable true tracker) := by
  have hreadable : m.readable = ~~~m.gpu := h.readable
  rcases updateProtection_watched enable true
    (m := m.setRegionBits .gpu (if enable then m.gpu.setRange start stop
      else m.gpu.unsetRange start stop)) h.cpuAddr h.watched (fun j hj => by
        change m.readable.get j = _
        change RegionBits.get (~~~(if enable then m.gpu.setRange start stop
          else m.gpu.unsetRange start stop) ^^^ m.readable) j = true at hj
        have hlt := RegionBits.get_lt hj
        rw [hreadable] at hj ⊢
        replace hj := RegionBits.ne_of_get_xor hj
        rw [RegionBits.get_not, RegionBits.get_not, decide_eq_true hlt, Bool.true_and,
          Bool.true_and] at hj
        rw [RegionBits.get_not, decide_eq_true hlt, Bool.true_and,
          RegionBits.get_before_change fun heq => hj (congrArg (! ·) heq), Bool.not_not]) with
    ⟨tracker', heq, hwatched, helse⟩ | herror
  · exact .inl ⟨_, tracker', heq, ⟨h.cpuAddr, hwatched, h.writeable, rfl⟩, helse⟩
  · exact .inr herror

theorem Good.gpu_clear (h : Good .relaxed tracker index m) {bits : RegionBits}
    (hbits : bits = 0) :
    GoodResult .relaxed tracker index
      ((m.setRegionBits .gpu bits).updateProtection false true tracker) := by
  subst hbits
  have hreadable : m.readable = BitVec.allOnes 1024 := h.readable
  have hnot : ~~~(0 : RegionBits) = BitVec.allOnes 1024 := BitVec.not_zero
  rcases updateProtection_watched false true
    (m := m.setRegionBits .gpu 0) h.cpuAddr h.watched (fun j hj => by
        change RegionBits.get (~~~(0 : RegionBits) ^^^ m.readable) j = true at hj
        rw [hreadable, hnot] at hj
        exact absurd rfl (RegionBits.ne_of_get_xor hj)) with
    ⟨tracker', heq, hwatched, helse⟩ | herror
  · exact .inl ⟨_, tracker', heq, ⟨h.cpuAddr, hwatched, h.writeable, hnot⟩, helse⟩
  · exact .inr herror

theorem Good.gpu_ignored (h : Good mode tracker index m) (hmode : mode ≠ .precise)
    (bits : RegionBits) : Good mode tracker index (m.setRegionBits .gpu bits) := by
  refine ⟨h.cpuAddr, h.watched, h.writeable, ?_⟩
  have hreadable := h.readable
  rw [if_neg hmode] at hreadable ⊢
  exact hreadable

theorem Good.changeRegionState (h : Good mode tracker index m) (type : Modifier) (enable : Bool)
    (dirtyAddr size : ℕ) :
    GoodResult mode tracker index
      (m.changeRegionState mode type enable dirtyAddr size tracker) := by
  unfold RegionManager.changeRegionState
  simp only
  split
  · exact h.result
  · cases type with
    | cpu => exact h.cpu _ _ enable
    | gpu =>
        simp only
        split
        · next hmode =>
            subst hmode
            exact h.gpu_precise _ _ enable
        · next hmode => exact (h.gpu_ignored hmode _).result

def GoodRanges (mode : GpuReadbacksMode) (tracker : PageManager) (index : ℕ)
    (result : Except String (RegionManager × PageManager × List (ℕ × ℕ))) : Prop :=
  (∃ m' tracker' reported, result = .ok (m', tracker', reported) ∧
      Good mode tracker' index m' ∧ SameElsewhere index tracker tracker') ∨
    ∃ e, result = .error e ∧ e ≠ notEnough

theorem Good.clearRange (h : Good mode tracker index m) (type : Modifier) (clear : Bool)
    (start stop : ℕ)
    (hmeets : mode = .relaxed → type = .gpu → clear = true → m.gpu.unsetRange start stop = 0) :
    GoodResult mode tracker index (m.clearRange mode type clear start stop tracker) := by
  cases clear with
  | false => exact h.result
  | true =>
      cases type with
      | cpu => exact h.cpu start stop false
      | gpu =>
          cases mode with
          | disabled => exact (h.gpu_ignored (by decide) _).result
          | relaxed => exact h.gpu_clear (hmeets rfl rfl rfl)
          | precise => exact h.gpu_precise start stop false

theorem Good.forEachModifiedRange (h : Good mode tracker index m) (type : Modifier)
    (clear : Bool) (queryCpuRange size : ℕ)
    (hmeets : mode = .relaxed → type = .gpu → clear = true →
      numPagesPerRegion ≤ startPage (m.offsetOf queryCpuRange) ∨
        endPage (m.offsetOf queryCpuRange) size ≤ startPage (m.offsetOf queryCpuRange) ∨
        RegionOp.HasAllGpuPages m queryCpuRange size) :
    GoodRanges mode tracker index
      (m.forEachModifiedRange mode type clear queryCpuRange size tracker) := by
  unfold RegionManager.forEachModifiedRange
  simp only
  split
  · exact .inl ⟨m, tracker, [], rfl, h, fun _ _ _ => rfl⟩
  · next hin =>
      have hall : mode = .relaxed → type = .gpu → clear = true →
          m.gpu.unsetRange (startPage (m.offsetOf queryCpuRange))
            (endPage (m.offsetOf queryCpuRange) size) = 0 := by
        intro hmode htype hclear
        rcases hmeets hmode htype hclear with hstart | hend | hall
        · exact absurd (.inl hstart) hin
        · exact absurd (.inr hend) hin
        · exact hall
      rcases h.clearRange type clear _ _ hall with ⟨m', tracker', heq, hgood, helse⟩ | ⟨e, heq, he⟩
      · rw [heq]
        exact .inl ⟨m', tracker', _, rfl, hgood, helse⟩
      · rw [heq]
        exact .inr ⟨e, rfl, he⟩

end RegionManager

/-! ### All regions -/

open RegionManager

/-- Every region agrees with the page manager, and other pages have no watchers. -/
structure Protected (mode : GpuReadbacksMode) (t : MemoryTracker) : Prop where
  good : ∀ index m, t.topTier index = some m → Good mode t.tracker index m
  untouched : ∀ isRead i, t.topTier (i / numPagesPerRegion) = none →
    (t.tracker.cachedPages i).count isRead = 0

theorem Protected.init (mode : GpuReadbacksMode) : Protected mode MemoryTracker.init where
  good _ _ h := absurd h.symm (Option.some_ne_none _)
  untouched isRead _ _ := by cases isRead <;> rfl

theorem Protected.store {tracker' : PageManager} (h : Protected mode t)
    (hgood : Good mode tracker' index m) (helse : SameElsewhere index t.tracker tracker') :
    Protected mode (t.store index m tracker') := by
  constructor
  · intro index' m' hm'
    unfold MemoryTracker.store at hm' ⊢
    simp only at hm' ⊢
    by_cases hindex : index' = index
    · subst hindex
      rw [Function.update_self, Option.some.injEq] at hm'
      rw [← hm']
      exact hgood
    · rw [Function.update_of_ne hindex] at hm'
      have hother := h.good index' m' hm'
      refine ⟨hother.cpuAddr, fun isRead i hi => ?_, hother.writeable, hother.readable⟩
      rw [helse isRead i (hi ▸ hindex)]
      exact hother.watched isRead i hi
  · intro isRead i hi
    unfold MemoryTracker.store at hi ⊢
    simp only at hi ⊢
    by_cases hindex : i / numPagesPerRegion = index
    · rw [hindex, Function.update_self] at hi
      exact absurd hi (Option.some_ne_none m)
    · rw [Function.update_of_ne hindex] at hi
      rw [helse isRead i hindex]
      exact h.untouched isRead i hi

theorem Protected.createRegion (h : Protected mode t) (hnone : t.topTier index = none) :
    Protected mode (t.createRegion index) := by
  have hnot : ~~~(0 : RegionBits) = BitVec.allOnes 1024 := BitVec.not_zero
  refine h.store ?_ fun _ _ _ => rfl
  refine ⟨MemoryTracker.shiftLeft_higherPageBits index, fun isRead i hi => ?_, rfl, ?_⟩
  · have hset : ((RegionManager.create (index <<< trackerHigherPageBits)).shadow isRead).get
        (i % numPagesPerRegion) = true := by
      have hlt : i % numPagesPerRegion < 1024 := Nat.mod_lt i (by decide)
      cases isRead
      · exact BitVec.getLsbD_allOnes.trans (decide_eq_true hlt)
      · exact BitVec.getLsbD_allOnes.trans (decide_eq_true hlt)
    rw [if_pos hset]
    exact h.untouched isRead i (hi.symm ▸ hnone)
  · change BitVec.allOnes 1024 = if mode = .precise then ~~~(0 : RegionBits) else _
    rw [hnot, ite_self]

/-- An operation keeps the regions protected or stops for another reason. -/
theorem Protected.run {op : RegionOp} (h : Protected mode t) (hmeets : op.Meets mode t) :
    (∃ t', op.run mode t = .ok t' ∧ Protected mode t') ∨
      ∃ e, op.run mode t = .error e ∧ e ≠ notEnough := by
  cases op with
  | createRegion index =>
      refine .inl ⟨_, rfl, ?_⟩
      split
      · next hnone => exact h.createRegion hnone
      · exact h
  | changeRegionState index type enable dirtyAddr size =>
      unfold RegionOp.run
      cases hm : t.topTier index with
      | none =>
          simp only [hm]
          exact .inl ⟨t, rfl, h⟩
      | some m =>
          simp only [hm]
          rcases (h.good index m hm).changeRegionState type enable dirtyAddr size with
            ⟨m', tracker', heq, hgood, helse⟩ | ⟨e, heq, he⟩
          · rw [heq]
            exact .inl ⟨_, rfl, h.store hgood helse⟩
          · rw [heq]
            exact .inr ⟨e, rfl, he⟩
  | forEachModifiedRange index type clear queryCpuRange size =>
      unfold RegionOp.run
      cases hm : t.topTier index with
      | none =>
          simp only [hm]
          exact .inl ⟨t, rfl, h⟩
      | some m =>
          simp only [hm]
          rcases (h.good index m hm).forEachModifiedRange type clear queryCpuRange size
            (fun hmode htype hclear => by
              subst htype hclear
              exact hmeets hmode m hm) with
            ⟨m', tracker', reported, heq, hgood, helse⟩ | ⟨e, heq, he⟩
          · rw [heq]
            exact .inl ⟨_, rfl, h.store hgood helse⟩
          · rw [heq]
            exact .inr ⟨e, rfl, he⟩

theorem Protected.runAll {ops : List RegionOp} (h : Protected mode t)
    (hmeets : RegionOp.MeetsAll mode ops t) :
    (∃ t', RegionOp.runAll mode ops t = .ok t' ∧ Protected mode t') ∨
      ∃ e, RegionOp.runAll mode ops t = .error e ∧ e ≠ notEnough := by
  induction ops generalizing t with
  | nil => exact .inl ⟨t, rfl, h⟩
  | cons op rest ih =>
      unfold RegionOp.runAll
      rcases h.run hmeets.1 with ⟨t₁, heq, h₁⟩ | ⟨e, heq, he⟩
      · rw [heq]
        exact ih h₁ (hmeets.2 t₁ heq)
      · rw [heq]
        exact .inr ⟨e, rfl, he⟩

theorem Protected.watchers (h : Protected mode t) (i : ℕ) :
    (t.tracker.cachedPages i).numWriteWatchers = (if t.dirty .cpu i then 0 else 1) ∧
      (t.tracker.cachedPages i).numReadWatchers =
        if mode = .precise ∧ t.dirty .gpu i then 1 else 0 := by
  have hlt : i % numPagesPerRegion < numPagesPerRegion := Nat.mod_lt i (by decide)
  cases hm : t.topTier (i / numPagesPerRegion) with
  | none =>
      rw [MemoryTracker.dirty_none hm, MemoryTracker.dirty_none hm]
      have hcpu := h.untouched false i hm
      have hgpu := h.untouched true i hm
      refine ⟨hcpu, hgpu.trans (if_neg ?_).symm⟩
      exact fun hdirty => absurd hdirty.2 (by decide)
  | some m =>
      have hgood := h.good _ m hm
      rw [MemoryTracker.dirty_some hm, MemoryTracker.dirty_some hm]
      constructor
      · have hwatched : _ = ite (m.writeable.get _ = true) 0 1 := hgood.watched false i rfl
        rw [hgood.writeable] at hwatched
        exact hwatched
      · have hwatched : _ = ite (m.readable.get _ = true) 0 1 := hgood.watched true i rfl
        refine Eq.trans hwatched ?_
        rw [hgood.readable]
        by_cases hmode : mode = .precise
        · rw [if_pos hmode, RegionBits.get_not, decide_eq_true hlt, Bool.true_and]
          change _ = if mode = .precise ∧ m.gpu.get (i % numPagesPerRegion) = true then 1 else 0
          cases hbit : m.gpu.get (i % numPagesPerRegion)
          · rw [if_pos Bool.not_false, if_neg fun h => Bool.false_ne_true h.2]
          · rw [if_neg (by decide), if_pos ⟨hmode, rfl⟩]
        · have hnot : ¬ (mode = .precise ∧
              (m.getRegionBits .gpu).get (i % numPagesPerRegion) = true) := fun h => hmode h.1
          rw [if_neg hmode, if_neg hnot]
          exact if_pos (BitVec.getLsbD_allOnes.trans (decide_eq_true hlt))

/-- Each page has one write watcher unless the CPU modified it, and one read watcher if readbacks
are precise and the GPU modified it. If a run fails, then not for want of a watcher to remove. -/
def WatchesModified (mode : GpuReadbacksMode) (result : Except String MemoryTracker) : Prop :=
  (∀ t, result = .ok t → ∀ i,
      (t.tracker.cachedPages i).numWriteWatchers = (if t.dirty .cpu i then 0 else 1) ∧
        (t.tracker.cachedPages i).numReadWatchers =
          if mode = .precise ∧ t.dirty .gpu i then 1 else 0) ∧
    result ≠ .error "Not enough watchers"

/-- In every run of operations that meet the condition, the watchers are those of the modified
pages. -/
theorem watchesModified (mode : GpuReadbacksMode) (ops : List RegionOp)
    (hmeets : RegionOp.MeetsAll mode ops MemoryTracker.init) :
    WatchesModified mode (RegionOp.runAll mode ops MemoryTracker.init) := by
  rcases (Protected.init mode).runAll hmeets with ⟨t, heq, h⟩ | ⟨e, heq, he⟩
  · rw [heq]
    refine ⟨fun t' ht i => ?_, fun herror => by cases herror⟩
    cases ht
    exact h.watchers i
  · rw [heq]
    refine ⟨fun t' ht => (by cases ht), fun herror => ?_⟩
    exact he (Except.error.inj herror)

/-- A page is uploaded, written by the GPU and downloaded. -/
def roundTrip : List RegionOp :=
  [.createRegion 0, .forEachModifiedRange 0 .cpu true 0 4096,
    .changeRegionState 0 .gpu true 0 4096, .forEachModifiedRange 0 .gpu true 0 4096]

theorem meetsAll_roundTrip : RegionOp.MeetsAll .precise roundTrip MemoryTracker.init := by
  refine ⟨trivial, fun _ _ => ⟨trivial, fun _ _ => ⟨trivial, fun _ _ => ⟨?_, fun _ _ => trivial⟩⟩⟩⟩
  intro hmode
  cases hmode

theorem watchesModified_roundTrip :
    WatchesModified .precise (RegionOp.runAll .precise roundTrip MemoryTracker.init) :=
  watchesModified .precise roundTrip meetsAll_roundTrip

def partialClear : List RegionOp :=
  [.createRegion 0, .changeRegionState 0 .gpu true 0 8192,
    .forEachModifiedRange 0 .gpu true 0 4096]

/-- The watcher of the other page is removed, but there is none. -/
theorem watchesModified_partialClear :
    (RegionOp.runAll .relaxed partialClear MemoryTracker.init).map
      (fun t => t.tracker.cachedPages 0) = .error "Not enough watchers" := by
  decide +kernel

end OrbitConsole.VideoCore
