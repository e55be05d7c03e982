import OrbitConsole.VideoCore.MemoryTrackerRefinement
import OrbitConsole.VideoCore.RegionOps

/-!
# Runs of the memory tracker

A call meets no assertion of the page manager as long as no page that the GPU modified becomes
one that only the CPU may write, and a relaxed download clears whole regions. Which calls do so
can be said of the flat map.
-/

namespace OrbitConsole.VideoCore

open RegionManager

variable {mode : GpuReadbacksMode} {type : Modifier} {enable clear : Bool} {index : ℕ}
  {m : RegionManager} {t t' : MemoryTracker} {d : FlatMap} {p : ℕ × ℕ} {ps : List (ℕ × ℕ)}
  {addr size i : ℕ}

/-! ### The conditions of the calls -/

/-- A precise tracker has no page watched for reads and not for writes after the change. -/
def Harmless (mode : GpuReadbacksMode) (type : Modifier) (enable : Bool) (p : ℕ × ℕ)
    (d : FlatMap) : Prop :=
  mode = .precise → enable = true → ∀ i, Touches p.1 p.2 i → ∀ other, other ≠ type →
    d other i = false

/-- A relaxed download leaves no page of the regions it clears that the GPU modified. -/
def ClearsAll (mode : GpuReadbacksMode) (type : Modifier) (clear : Bool) (p : ℕ × ℕ)
    (d : FlatMap) : Prop :=
  mode = .relaxed → type = .gpu → clear = true → ∀ i,
    i / numPagesPerRegion = MemoryTracker.region p → d .gpu i = true → Touches p.1 p.2 i

namespace MemoryTracker

def Request.range : Request → ℕ × ℕ
  | .isRegionCpuModified addr size => (addr, size)
  | .isRegionGpuModified addr size => (addr, size)
  | .markRegionAsCpuModified addr size => (addr, size)
  | .unmarkRegionAsGpuModified addr size => (addr, size)
  | .forEachUploadRange _ addr size => (addr, size)
  | .forEachDownloadRange _ addr size => (addr, size)

def Below (range : ℕ × ℕ) : Prop := range.1 + range.2 ≤ 2 ^ 40

/-- The request is below 2^40; precise trackers have no page of the GPU marked for the CPU, and
relaxed ones clear all pages of the GPU in the regions of a download. -/
def Request.Conforms (mode : GpuReadbacksMode) (d : FlatMap) (r : Request) : Prop :=
  Below r.range ∧ match r with
    | .markRegionAsCpuModified addr size =>
        mode = .precise → ∀ i, Touches addr size i → d .gpu i = false
    | .forEachDownloadRange clear addr size =>
        ∀ p ∈ pieces size addr size, ClearsAll mode .gpu clear p d
    | _ => True

def RequestsConform (mode : GpuReadbacksMode) : List Request → FlatMap → Prop
  | [], _ => True
  | r :: rest, d => r.Conforms mode d ∧ RequestsConform mode rest (r.flat d)

/-- What is flushed on the way conforms. -/
def InvalidateConforms (mode : GpuReadbacksMode) (onFlush : List Request) :
    List (ℕ × ℕ) → FlatMap → Prop
  | [], _ => True
  | p :: rest, d =>
      (NeedsFlush mode d p → RequestsConform mode onFlush d ∧
        InvalidateConforms mode onFlush rest (onFlush.foldl (fun d r => r.flat d) d)) ∧
      (¬NeedsFlush mode d p → InvalidateConforms mode onFlush rest (d.set .cpu true p.1 p.2))

def Op.Conforms (mode : GpuReadbacksMode) (d : FlatMap) : Op → Prop
  | .request r => r.Conforms mode d
  | .invalidateRegion onFlush addr size =>
      Below (addr, size) ∧ InvalidateConforms mode onFlush (pieces size addr size) d

def OpsConform (mode : GpuReadbacksMode) : List Op → FlatMap → Prop
  | [], _ => True
  | op :: rest, d =>
      op.Conforms mode d ∧ ∀ answers d', FlatOp mode d answers d' op → OpsConform mode rest d'

end MemoryTracker

/-! ### One region -/

theorem RegionManager.updateProtection_returns {track isRead : Bool} {tracker : PageManager}
    (hsynced : tracker.Synced) (haddr : m.cpuAddr = index * trackerHigherPageSize)
    (hall : ∀ i, i / numPagesPerRegion = index →
      (m.target isRead ^^^ m.shadow isRead).get (i % numPagesPerRegion) = true →
      Allows track isRead (tracker.cachedPages i)) :
    ∃ m' tracker', m.updateProtection track isRead tracker = .ok (m', tracker') ∧
      tracker'.Synced := by
  have hunfold : m.updateProtection track isRead tracker =
      if (m.target isRead ^^^ m.shadow isRead).any = false then .ok (m, tracker)
      else (do
        let tracker ← tracker.updatePageWatchersForRegion track isRead m.cpuAddr
          (m.target isRead ^^^ m.shadow isRead)
        .ok (m.told isRead, tracker)) := by
    unfold updateProtection told target shadow
    cases isRead <;> rfl
  rw [hunfold]
  split
  · exact ⟨m, tracker, rfl, hsynced⟩
  · rw [haddr, trackerHigherPageSize_eq]
    obtain ⟨tracker', heq, hsynced', -⟩ := (updatePageWatchersForRegion_isLoop track
      isRead tracker index (m.target isRead ^^^ m.shadow isRead)).spec hsynced fun i hi =>
        hall i (inMask_iff.1 hi).1 (inMask_iff.1 hi).2
    rw [heq]
    exact ⟨_, tracker', rfl, hsynced'⟩

/-- A page that a change sets or clears is in the part, and was not so before. -/
theorem dirty_of_changed (type : Modifier) (hp : MemoryTracker.IsPiece p)
    (hm : t.topTier (MemoryTracker.region p) = some m)
    (hi : i / numPagesPerRegion = MemoryTracker.region p)
    (hne : RegionBits.get (if enable then (m.getRegionBits type).setRange
        (startPage (p.1 % trackerHigherPageSize)) (endPage (p.1 % trackerHigherPageSize) p.2)
      else (m.getRegionBits type).unsetRange (startPage (p.1 % trackerHigherPageSize))
        (endPage (p.1 % trackerHigherPageSize) p.2)) (i % numPagesPerRegion) ≠
      (m.getRegionBits type).get (i % numPagesPerRegion)) :
    Touches p.1 p.2 i ∧ t.dirty type i = !enable := by
  rw [MemoryTracker.dirty_some (hi ▸ hm)]
  refine ⟨hp.touches_iff.2 ⟨hi, ?_⟩, RegionBits.get_before_change hne⟩
  by_contra hout
  exact hne (by rw [get_changed hp, if_neg hout])

theorem Harmless.set {q : ℕ × ℕ} (h : Harmless mode type enable q d) :
    Harmless mode type enable q (d.set type enable p.1 p.2) :=
  fun hmode henable i hin other hother => by
    rw [FlatMap.set, if_neg fun hboth => hother hboth.1]
    exact h hmode henable i hin other hother

theorem ClearsAll.set {q : ℕ × ℕ} (h : ClearsAll mode type clear q d) :
    ClearsAll mode type clear q (if clear then d.set type false p.1 p.2 else d) :=
  fun hmode htype hclear i hi hset => by
    refine h hmode htype hclear i hi ?_
    rw [if_pos hclear, FlatMap.set] at hset
    split at hset
    · cases hset
    · exact hset

theorem ClearsAll.unsetRange (hclears : ClearsAll .relaxed .gpu true p t.dirty)
    (hp : MemoryTracker.IsPiece p) (hm : t.topTier (MemoryTracker.region p) = some m) :
    m.gpu.unsetRange (startPage (p.1 % trackerHigherPageSize))
      (endPage (p.1 % trackerHigherPageSize) p.2) = 0 := by
  refine BitVec.eq_of_getLsbD_eq fun j hj => Eq.trans ?_ BitVec.getLsbD_zero.symm
  have hbit := get_changed hp m.gpu false j
  rw [if_neg Bool.false_ne_true] at hbit
  refine hbit.trans ?_
  split
  · rfl
  next hout =>
  by_contra hset
  have hj : j < numPagesPerRegion := hj
  have hdiv : (MemoryTracker.region p * numPagesPerRegion + j) / numPagesPerRegion =
      MemoryTracker.region p := by
    rw [Nat.add_comm, Nat.add_mul_div_right _ _ (by decide), Nat.div_eq_of_lt hj, Nat.zero_add]
  have hmod : (MemoryTracker.region p * numPagesPerRegion + j) % numPagesPerRegion = j := by
    rw [Nat.add_comm, Nat.add_mul_mod_self_right, Nat.mod_eq_of_lt hj]
  have htouches := hclears rfl rfl rfl _ hdiv (by
    rw [MemoryTracker.dirty_some (hdiv.symm ▸ hm), hmod]
    exact Bool.of_not_eq_false hset)
  have hin := (hp.touches_iff.1 htouches).2
  rw [hmod] at hin
  exact hout hin

namespace Protected

theorem cpu_returns (enable : Bool) (h : Protected mode t) (hsynced : t.tracker.Synced)
    (hp : MemoryTracker.IsPiece p) (hm : t.topTier (MemoryTracker.region p) = some m)
    (hharmless : Harmless mode .cpu enable p t.dirty) :
    ∃ m' tracker', (m.setRegionBits .cpu (if enable then m.cpu.setRange
        (startPage (p.1 % trackerHigherPageSize)) (endPage (p.1 % trackerHigherPageSize) p.2)
      else m.cpu.unsetRange (startPage (p.1 % trackerHigherPageSize))
        (endPage (p.1 % trackerHigherPageSize) p.2))).updateProtection (!enable) false t.tracker =
      .ok (m', tracker') ∧ tracker'.Synced := by
  have hgood := h.good _ m hm
  refine RegionManager.updateProtection_returns hsynced hgood.cpuAddr fun i hi hset => ?_
  change RegionBits.get (_ ^^^ m.writeable) _ = true at hset
  rw [hgood.writeable] at hset
  obtain ⟨htouches, hbefore⟩ :=
    dirty_of_changed .cpu hp hm hi (RegionBits.ne_of_get_xor hset)
  obtain ⟨hwrite, hread⟩ := h.watchers i
  rw [hbefore] at hwrite
  cases enable with
  | true =>
      have hnone : (t.tracker.cachedPages i).numReadWatchers = 0 := by
        rw [hread, if_neg fun hboth => ?_]
        rw [hharmless hboth.1 rfl i htouches .gpu (by decide)] at hboth
        exact Bool.false_ne_true hboth.2
      simp [Allows, PageState.CanBump, PageState.count, PageState.bump, PageState.WriteOnly,
        hwrite, hnone]
  | false =>
      simp [Allows, PageState.CanBump, PageState.count, PageState.bump, PageState.WriteOnly,
        PageState.maxCount, hwrite]

theorem gpu_returns (enable : Bool) (h : Protected .precise t) (hsynced : t.tracker.Synced)
    (hp : MemoryTracker.IsPiece p) (hm : t.topTier (MemoryTracker.region p) = some m)
    (hharmless : Harmless .precise .gpu enable p t.dirty) :
    ∃ m' tracker', (m.setRegionBits .gpu (if enable then m.gpu.setRange
        (startPage (p.1 % trackerHigherPageSize)) (endPage (p.1 % trackerHigherPageSize) p.2)
      else m.gpu.unsetRange (startPage (p.1 % trackerHigherPageSize))
        (endPage (p.1 % trackerHigherPageSize) p.2))).updateProtection enable true t.tracker =
      .ok (m', tracker') ∧ tracker'.Synced := by
  have hgood := h.good _ m hm
  have hreadable : m.readable = ~~~m.gpu := hgood.readable
  refine RegionManager.updateProtection_returns hsynced hgood.cpuAddr fun i hi hset => ?_
  change RegionBits.get (~~~_ ^^^ m.readable) _ = true at hset
  have hlt := RegionBits.get_lt hset
  rw [hreadable] at hset
  replace hset := RegionBits.ne_of_get_xor hset
  rw [RegionBits.get_not, RegionBits.get_not, decide_eq_true hlt, Bool.true_and,
    Bool.true_and] at hset
  obtain ⟨htouches, hbefore⟩ :=
    dirty_of_changed .gpu hp hm hi fun heq => hset (congrArg (! ·) heq)
  obtain ⟨hwrite, hread⟩ := h.watchers i
  rw [hbefore] at hread
  cases enable with
  | true =>
      rw [hharmless rfl rfl i htouches .cpu (by decide)] at hwrite
      simp [Allows, PageState.CanBump, PageState.count, PageState.bump, PageState.WriteOnly,
        PageState.maxCount, hread, hwrite]
  | false =>
      simp [Allows, PageState.CanBump, PageState.count, PageState.bump, PageState.WriteOnly, hread]

theorem changeRegionState_returns (h : Protected mode t) (hsynced : t.tracker.Synced)
    (hp : MemoryTracker.IsPiece p) (hm : t.topTier (MemoryTracker.region p) = some m)
    (hharmless : Harmless mode type enable p t.dirty) :
    ∃ m' tracker', m.changeRegionState mode type enable
      (m.cpuAddr + p.1 % trackerHigherPageSize) p.2 t.tracker = .ok (m', tracker') ∧
      tracker'.Synced := by
  unfold RegionManager.changeRegionState
  simp only [hp.offsetOf_eq, if_neg hp.not_skipped]
  cases type with
  | cpu => exact h.cpu_returns enable hsynced hp hm hharmless
  | gpu =>
      simp only
      split
      · next hmode =>
          subst hmode
          exact h.gpu_returns enable hsynced hp hm hharmless
      · exact ⟨_, _, rfl, hsynced⟩

theorem clearRange_returns (h : Protected mode t) (hsynced : t.tracker.Synced)
    (hp : MemoryTracker.IsPiece p) (hm : t.topTier (MemoryTracker.region p) = some m)
    (hclears : ClearsAll mode type clear p t.dirty) :
    ∃ m' tracker', m.clearRange mode type clear (startPage (p.1 % trackerHigherPageSize))
      (endPage (p.1 % trackerHigherPageSize) p.2) t.tracker = .ok (m', tracker') ∧
      tracker'.Synced := by
  unfold RegionManager.clearRange
  cases clear with
  | false => exact ⟨_, _, rfl, hsynced⟩
  | true =>
      cases type with
      | cpu => exact h.cpu_returns false hsynced hp hm fun _ henable => nomatch henable
      | gpu =>
          cases mode with
          | disabled => exact ⟨_, _, rfl, hsynced⟩
          | precise =>
              exact h.gpu_returns false hsynced hp hm fun _ henable => nomatch henable
          | relaxed =>
              have hgood := h.good _ m hm
              have hreadable : m.readable = BitVec.allOnes 1024 := hgood.readable
              refine RegionManager.updateProtection_returns hsynced hgood.cpuAddr fun i hi hset => ?_
              change RegionBits.get (~~~(m.gpu.unsetRange _ _) ^^^ m.readable) _ = true at hset
              rw [hclears.unsetRange hp hm, hreadable] at hset
              have hnot : ~~~(0 : RegionBits) = BitVec.allOnes 1024 := BitVec.not_zero
              rw [hnot] at hset
              exact absurd rfl (RegionBits.ne_of_get_xor hset)

theorem forEachModifiedRange_returns (h : Protected mode t) (hsynced : t.tracker.Synced)
    (hp : MemoryTracker.IsPiece p) (hm : t.topTier (MemoryTracker.region p) = some m)
    (hclears : ClearsAll mode type clear p t.dirty) :
    ∃ m' tracker' ranges, m.forEachModifiedRange mode type clear
      (m.cpuAddr + p.1 % trackerHigherPageSize) p.2 t.tracker = .ok (m', tracker', ranges) ∧
      tracker'.Synced := by
  obtain ⟨m', tracker', heq, hsynced'⟩ := h.clearRange_returns hsynced hp hm hclears
  unfold RegionManager.forEachModifiedRange
  simp only [hp.offsetOf_eq, if_neg hp.not_skipped]
  rw [heq]
  exact ⟨_, _, _, rfl, hsynced'⟩

theorem wellFormed (h : Protected mode t) : t.WellFormed := fun index m hm =>
  (h.good index m hm).cpuAddr

end Protected

/-! ### The calls -/

namespace MemoryTracker

variable {σ : Type} {acc : σ}

/-- The state between calls. -/
structure Running (mode : GpuReadbacksMode) (t : MemoryTracker) : Prop where
  guarded : Protected mode t
  synced : t.tracker.Synced

theorem Running.init (mode : GpuReadbacksMode) : Running mode init :=
  ⟨Protected.init mode, fun _ => rfl⟩

theorem Running.created (h : Running mode t) (create : Bool) (p : ℕ × ℕ) :
    Running mode (created create p t) := by
  unfold MemoryTracker.created
  split
  · next hcond => exact ⟨h.guarded.createRegion hcond.1, h.synced⟩
  · exact h

theorem Running.changeVisit (type : Modifier) (enable : Bool) (acc : σ) (h : Running mode t)
    (hp : IsPiece p) (hm : t.topTier (region p) = some m) (hharmless : Harmless mode type enable p t.dirty) :
    ∃ t', changeVisit mode type enable (region p) m (p.1 % trackerHigherPageSize) p.2 t acc =
      .ok (false, t', acc) ∧ Running mode t' ∧ t'.dirty = t.dirty.set type enable p.1 p.2 := by
  obtain ⟨m', tracker', heq, hsynced⟩ :=
    h.guarded.changeRegionState_returns h.synced hp hm hharmless
  have hvisit : MemoryTracker.changeVisit mode type enable (region p) m
      (p.1 % trackerHigherPageSize) p.2 t acc =
      .ok (false, t.store (region p) m' tracker', acc) := by
    unfold MemoryTracker.changeVisit
    rw [heq]
    rfl
  refine ⟨_, hvisit, ⟨?_, hsynced⟩, (changeVisit_ok h.guarded.wellFormed hp hm hvisit).2.2.2.2⟩
  obtain ⟨m₁, tracker₁, heq', hgood, helse⟩ | ⟨e, heq', -⟩ :=
    (h.guarded.good _ m hm).changeRegionState type enable
      (m.cpuAddr + p.1 % trackerHigherPageSize) p.2
  · cases heq.symm.trans heq'
    exact h.guarded.store hgood helse
  · cases heq.symm.trans heq'

theorem Running.rangeVisit (acc : List (ℕ × ℕ)) (h : Running mode t) (hp : IsPiece p)
    (hm : t.topTier (region p) = some m) (hclears : ClearsAll mode type clear p t.dirty) :
    ∃ t' acc', rangeVisit mode type clear (region p) m (p.1 % trackerHigherPageSize) p.2 t acc =
      .ok (false, t', acc') ∧ Running mode t' ∧
      t'.dirty = if clear then t.dirty.set type false p.1 p.2 else t.dirty := by
  obtain ⟨m', tracker', ranges, heq, hsynced⟩ :=
    h.guarded.forEachModifiedRange_returns h.synced hp hm hclears
  have hvisit : MemoryTracker.rangeVisit mode type clear (region p) m
      (p.1 % trackerHigherPageSize) p.2 t acc =
      .ok (false, t.store (region p) m' tracker', acc ++ ranges) := by
    unfold MemoryTracker.rangeVisit
    rw [heq]
    rfl
  refine ⟨_, _, hvisit, ⟨?_, hsynced⟩, (rangeVisit_ok h.guarded.wellFormed hp hm hvisit).2.2.2.1⟩
  have hrelaxed : mode = .relaxed → type = .gpu → clear = true →
      numPagesPerRegion ≤ startPage (m.offsetOf (m.cpuAddr + p.1 % trackerHigherPageSize)) ∨
        endPage (m.offsetOf (m.cpuAddr + p.1 % trackerHigherPageSize)) p.2 ≤
          startPage (m.offsetOf (m.cpuAddr + p.1 % trackerHigherPageSize)) ∨
        RegionOp.HasAllGpuPages m (m.cpuAddr + p.1 % trackerHigherPageSize) p.2 :=
    fun hmode htype hclear => by
      subst hmode htype hclear
      refine .inr (.inr ?_)
      rw [RegionOp.HasAllGpuPages, hp.offsetOf_eq]
      exact hclears.unsetRange hp hm
  obtain ⟨m₁, tracker₁, ranges₁, heq', hgood, helse⟩ | ⟨e, heq', -⟩ :=
    (h.guarded.good _ m hm).forEachModifiedRange type clear
      (m.cpuAddr + p.1 % trackerHigherPageSize) p.2 hrelaxed
  · cases heq.symm.trans heq'
    exact h.guarded.store hgood helse
  · cases heq.symm.trans heq'

/-- A visit that returns and does not stop goes on to the next part. -/
theorem visitAll_some {create : Bool} {func : Visit σ} {acc₁ : σ}
    (hm : (MemoryTracker.created create p t).topTier (region p) = some m)
    (h : func (region p) m (p.1 % trackerHigherPageSize) p.2
      (MemoryTracker.created create p t) acc = .ok (false, t', acc₁)) :
    visitAll create func (p :: ps) t acc = visitAll create func ps t' acc₁ := by
  rw [visitAll]
  dsimp only
  rw [hm]
  dsimp only
  rw [h]
  rfl

theorem visitAll_none {create : Bool} {func : Visit σ}
    (hm : (MemoryTracker.created create p t).topTier (region p) = none) :
    visitAll create func (p :: ps) t acc =
      visitAll create func ps (MemoryTracker.created create p t) acc := by
  rw [visitAll]
  dsimp only
  rw [hm]
  rfl

theorem Running.changeAll (type : Modifier) (enable : Bool) (acc : σ) (h : Running mode t)
    (hps : ∀ p ∈ ps, IsPiece p)
    (hharmless : ∀ p ∈ ps, Harmless mode type enable p t.dirty) :
    ∃ r, visitAll false (MemoryTracker.changeVisit mode type enable) ps t acc = .ok r ∧
      Running mode r.2.1 := by
  induction ps generalizing t with
  | nil => exact ⟨_, rfl, h⟩
  | cons p ps ih =>
      have hrest := fun q hq => hps q (List.mem_cons_of_mem p hq)
      cases hm : (MemoryTracker.created false p t).topTier (region p) with
      | none =>
          rw [visitAll_none hm, created_false]
          exact ih h hrest fun q hq => hharmless q (List.mem_cons_of_mem p hq)
      | some m =>
          rw [created_false] at hm
          obtain ⟨t₁, hvisit, h₁, hdirty⟩ := h.changeVisit type enable acc
            (hps p List.mem_cons_self) hm (hharmless p List.mem_cons_self)
          rw [visitAll_some (by rwa [created_false]) (by rwa [created_false])]
          refine ih h₁ hrest fun q hq => ?_
          rw [hdirty]
          exact (hharmless q (List.mem_cons_of_mem p hq)).set

theorem Running.rangeAll (create : Bool) (type : Modifier) (clear : Bool) (acc : List (ℕ × ℕ))
    (h : Running mode t) (hps : ∀ p ∈ ps, IsPiece p) (hclears : ∀ p ∈ ps, ClearsAll mode type clear p t.dirty) :
    ∃ r, visitAll create (MemoryTracker.rangeVisit mode type clear) ps t acc = .ok r ∧
      Running mode r.2.1 := by
  induction ps generalizing t acc with
  | nil => exact ⟨_, rfl, h⟩
  | cons p ps ih =>
      have hrest := fun q hq => hps q (List.mem_cons_of_mem p hq)
      have hcreated := h.created create p
      have hdirty₀ := (created_spec create p h.guarded.wellFormed).2.1
      cases hm : (MemoryTracker.created create p t).topTier (region p) with
      | none =>
          rw [visitAll_none hm]
          refine ih _ hcreated hrest fun q hq => ?_
          rw [hdirty₀]
          exact hclears q (List.mem_cons_of_mem p hq)
      | some m =>
          obtain ⟨t₁, acc₁, hvisit, h₁, hdirty⟩ := hcreated.rangeVisit acc
            (hps p List.mem_cons_self) hm (by rw [hdirty₀]; exact hclears p List.mem_cons_self)
          rw [visitAll_some hm hvisit]
          refine ih _ h₁ hrest fun q hq => ?_
          rw [hdirty, hdirty₀]
          exact (hclears q (List.mem_cons_of_mem p hq)).set

theorem Running.queryAll (create : Bool) (type : Modifier) (ps : List (ℕ × ℕ))
    (h : Running mode t) :
    ∃ r, visitAll create (queryVisit type) ps t () = .ok r ∧ Running mode r.2.1 := by
  induction ps generalizing t with
  | nil => exact ⟨_, rfl, h⟩
  | cons p ps ih =>
      have hcreated := h.created create p
      cases hm : (MemoryTracker.created create p t).topTier (region p) with
      | none =>
          rw [visitAll_none hm]
          exact ih hcreated
      | some m =>
          cases hstop : m.isRegionModified type (p.1 % trackerHigherPageSize) p.2 with
          | false =>
              rw [visitAll_some hm (congrArg (fun b => Except.ok (b, _, ())) hstop)]
              exact ih hcreated
          | true =>
              refine ⟨(true, MemoryTracker.created create p t, ()), ?_, hcreated⟩
              rw [visitAll]
              dsimp only
              rw [hm]
              dsimp only [queryVisit]
              rw [hstop]
              rfl

/-- A request that conforms returns. -/
theorem Running.request (h : Running mode t) {r : Request} (hr : r.Conforms mode t.dirty) :
    ∃ t' answer, r.run mode t = .ok (t', answer) ∧ Running mode t' := by
  obtain ⟨-, hr⟩ := hr
  have hwf := h.guarded.wellFormed
  cases r with
  | isRegionCpuModified addr size =>
      obtain ⟨r, heq, h'⟩ := h.queryAll true .cpu (pieces size addr size)
      refine ⟨r.2.1, { modified := r.1 }, ?_, h'⟩
      rw [Request.run, isRegionCpuModified, iteratePages_eq, heq]
      rfl
  | isRegionGpuModified addr size =>
      obtain ⟨r, heq, h'⟩ := h.queryAll false .gpu (pieces size addr size)
      refine ⟨r.2.1, { modified := r.1 }, ?_, h'⟩
      rw [Request.run, isRegionGpuModified, iteratePages_eq, heq]
      rfl
  | markRegionAsCpuModified addr size =>
      obtain ⟨r, heq, h'⟩ := h.changeAll .cpu true ()
        isPiece_pieces fun p hp hmode _ i hin other hother => by
          cases other with
          | cpu => exact absurd rfl hother
          | gpu => exact hr hmode i ((exists_piece_iff (Nat.le_refl size)).1 ⟨p, hp, hin⟩)
      refine ⟨r.2.1, {}, ?_, h'⟩
      rw [Request.run, markRegionAsCpuModified, iteratePages_eq, heq]
      rfl
  | unmarkRegionAsGpuModified addr size =>
      obtain ⟨r, heq, h'⟩ := h.changeAll .gpu false ()
        (isPiece_pieces : ∀ p ∈ pieces size addr size, IsPiece p)
        fun _ _ _ henable => nomatch henable
      refine ⟨r.2.1, {}, ?_, h'⟩
      rw [Request.run, unmarkRegionAsGpuModified, iteratePages_eq, heq]
      rfl
  | forEachUploadRange isWritten addr size =>
      obtain ⟨⟨stop, t₁, reported⟩, heq, h₁⟩ := h.rangeAll true .cpu true []
        (isPiece_pieces : ∀ p ∈ pieces size addr size, IsPiece p)
        fun _ _ _ htype => nomatch htype
      have hiterate := (iteratePages_eq true (MemoryTracker.rangeVisit mode .cpu true) addr size t
        []).trans heq
      cases isWritten with
      | false =>
          refine ⟨t₁, { reported := reported }, ?_, h₁⟩
          rw [Request.run, forEachUploadRange, hiterate]
          rfl
      | true =>
          have hdirty := (range_ok hwf (.inl rfl) hiterate).2.2.1
          -- the pages that the GPU is going to modify are clean by now
          obtain ⟨r, heq', h'⟩ := h₁.changeAll .gpu true ()
            isPiece_pieces fun p hp _ _ i hin other hother => by
              cases other with
              | gpu => exact absurd rfl hother
              | cpu =>
                  rw [hdirty, if_pos rfl, FlatMap.set]
                  exact if_pos ⟨rfl, (exists_piece_iff (Nat.le_refl size)).1 ⟨p, hp, hin⟩⟩
          refine ⟨r.2.1, { reported := reported }, ?_, h'⟩
          rw [Request.run, forEachUploadRange, hiterate]
          change (iteratePages false (MemoryTracker.changeVisit mode .gpu true) addr size t₁ () >>=
            _) = _
          rw [iteratePages_eq, heq']
          rfl
  | forEachDownloadRange clear addr size =>
      obtain ⟨r, heq, h'⟩ := h.rangeAll false .gpu clear [] isPiece_pieces hr
      refine ⟨r.2.1, { reported := r.2.2 }, ?_, h'⟩
      rw [Request.run, forEachDownloadRange, iteratePages_eq, heq]
      rfl

theorem Running.requests (h : Running mode t) {requests : List Request}
    (hr : RequestsConform mode requests t.dirty) :
    ∃ t' answers, runRequests mode requests t = .ok (t', answers) ∧ Running mode t' ∧
      t'.dirty = requests.foldl (fun d r => r.flat d) t.dirty := by
  induction requests generalizing t with
  | nil => exact ⟨t, [], rfl, h, rfl⟩
  | cons r rest ih =>
      obtain ⟨t₁, answer, heq, h₁⟩ := h.request hr.1
      have hdirty := (Request.run_ok h.guarded.wellFormed heq).2.1
      obtain ⟨t', answers, heq', h', hdirty'⟩ := ih h₁ (by rw [hdirty]; exact hr.2)
      refine ⟨t', answer :: answers, ?_, h', by rw [hdirty', hdirty, List.foldl_cons]⟩
      rw [runRequests, heq]
      change (runRequests mode rest t₁ >>= _) = _
      rw [heq']
      rfl

theorem Running.invalidateAll {onFlush : List Request} (acc : List Answer) (h : Running mode t)
    (hps : ∀ p ∈ ps, IsPiece p) (hconform : InvalidateConforms mode onFlush ps t.dirty) :
    ∃ r, visitAll false (invalidateVisit mode (runRequests mode onFlush)) ps t acc = .ok r ∧
      Running mode r.2.1 := by
  induction ps generalizing t acc with
  | nil => exact ⟨_, rfl, h⟩
  | cons p ps ih =>
      have hp := hps p List.mem_cons_self
      have hrest := fun q hq => hps q (List.mem_cons_of_mem p hq)
      obtain ⟨hflush, hkeep⟩ := hconform
      cases hm : (MemoryTracker.created false p t).topTier (region p) with
      | none =>
          rw [visitAll_none hm, created_false]
          rw [created_false] at hm
          refine ih _ h hrest ?_
          have hsame : t.dirty.set .cpu true p.1 p.2 = t.dirty :=
            FlatMap.set_eq fun i hin => dirty_missing hp hm hin
          rw [← hsame]
          refine hkeep fun hneeds => ?_
          obtain ⟨-, i, hin, hset⟩ := hneeds
          rw [dirty_missing hp hm hin] at hset
          cases hset
      | some m =>
          rw [created_false] at hm
          have hquery : m.isRegionModified .gpu (p.1 % trackerHigherPageSize) p.2 = true ↔
              ∃ i, Touches p.1 p.2 i ∧ t.dirty .gpu i = true := isRegionModified_piece .gpu hp hm
          by_cases hneeds : NeedsFlush mode t.dirty p
          · obtain ⟨hrequests, hrest'⟩ := hflush hneeds
            obtain ⟨t₁, answers, heq, h₁, hdirty⟩ := h.requests hrequests
            have hvisit : invalidateVisit mode (runRequests mode onFlush) (region p) m
                (p.1 % trackerHigherPageSize) p.2 t acc = .ok (false, t₁, acc ++ answers) := by
              rw [invalidateVisit, if_pos ⟨hneeds.1, hquery.2 hneeds.2⟩, heq]
              rfl
            rw [visitAll_some (by rwa [created_false]) (by rwa [created_false])]
            exact ih _ h₁ hrest (by rw [hdirty]; exact hrest')
          · obtain ⟨t₁, hvisit, h₁, hdirty⟩ := h.changeVisit .cpu true acc hp hm fun hmode _ i hin other hother => by
                cases other with
                | cpu => exact absurd rfl hother
                | gpu =>
                    by_contra hset
                    exact hneeds ⟨by rw [hmode]; decide, i, hin, Bool.of_not_eq_false hset⟩
            have hpart : invalidateVisit mode (runRequests mode onFlush) (region p) m
                (p.1 % trackerHigherPageSize) p.2 t acc = .ok (false, t₁, acc) := by
              rw [invalidateVisit, if_neg fun hboth => hneeds ⟨hboth.1, hquery.1 hboth.2⟩]
              exact hvisit
            rw [visitAll_some (by rwa [created_false]) (by rwa [created_false])]
            exact ih _ h₁ hrest (by rw [hdirty]; exact hkeep hneeds)

theorem Running.op (h : Running mode t) {op : Op} (hop : op.Conforms mode t.dirty) :
    ∃ t' answers, op.run mode t = .ok (t', answers) ∧ Running mode t' := by
  cases op with
  | request r =>
      obtain ⟨t', answer, heq, h'⟩ := h.request hop
      refine ⟨t', [answer], ?_, h'⟩
      rw [Op.run, heq]
      rfl
  | invalidateRegion onFlush addr size =>
      obtain ⟨r, heq, h'⟩ := h.invalidateAll [] isPiece_pieces hop.2
      refine ⟨r.2.1, r.2.2, ?_, h'⟩
      rw [Op.run, invalidateRegion, iteratePages_eq, heq]
      rfl

theorem Running.ops (h : Running mode t) {ops : List Op} (hops : OpsConform mode ops t.dirty) :
    ∃ t' answers, runOps mode ops t = .ok (t', answers) := by
  induction ops generalizing t with
  | nil => exact ⟨t, [], rfl⟩
  | cons op rest ih =>
      obtain ⟨t₁, answers, heq, h₁⟩ := h.op hops.1
      obtain ⟨t', answers', heq'⟩ :=
        ih h₁ (hops.2 answers _ (Op.run_ok h.guarded.wellFormed heq).2)
      refine ⟨t', answers ++ answers', ?_⟩
      rw [runOps, heq]
      change (runOps mode rest t₁ >>= _) = _
      rw [heq']
      rfl

/-- Every run of calls that conform returns, gives the answers of the flat map, and leaves its
pages. -/
theorem refines_flatMap (mode : GpuReadbacksMode) (ops : List Op)
    (hops : OpsConform mode ops FlatMap.init) :
    ∃ t answers, runOps mode ops init = .ok (t, answers) ∧
      FlatOps mode ops FlatMap.init answers t.dirty := by
  obtain ⟨t, answers, heq⟩ := (Running.init mode).ops hops
  exact ⟨t, answers, heq, (runOps_ok wellFormed_init heq).2⟩

/-- An upload across two regions that the GPU writes, an invalidation of it that has the GPU data
flushed, and a query. -/
def uploadAndFlush : List Op :=
  [.request (.forEachUploadRange true 4190208 8192),
    .invalidateRegion [.forEachDownloadRange false 4190208 8192,
      .unmarkRegionAsGpuModified 4190208 8192, .markRegionAsCpuModified 4190208 8192] 4194304 16,
    .request (.isRegionGpuModified 0 8388608)]

theorem opsConform_uploadAndFlush (d : FlatMap) : OpsConform .precise uploadAndFlush d := by
  have hbelow : ∀ range : ℕ × ℕ, range.1 + range.2 ≤ 8388608 → Below range :=
    fun _ h => h.trans (by decide)
  refine ⟨⟨hbelow _ (by decide), trivial⟩, fun _ d' _ => ⟨⟨hbelow _ (by decide), ?_⟩,
    fun _ _ _ => ⟨⟨hbelow _ (by decide), trivial⟩, fun _ _ _ => trivial⟩⟩⟩
  refine ⟨fun _ => ⟨⟨⟨hbelow _ (by decide), fun _ _ hmode => nomatch hmode⟩,
    ⟨hbelow _ (by decide), trivial⟩, ⟨hbelow _ (by decide), fun _ i hin => ?_⟩, trivial⟩,
    trivial⟩, fun _ => trivial⟩
  exact if_pos ⟨rfl, hin⟩

theorem refines_flatMap_uploadAndFlush :
    ∃ t answers, runOps .precise uploadAndFlush init = .ok (t, answers) ∧
      FlatOps .precise uploadAndFlush FlatMap.init answers t.dirty :=
  refines_flatMap .precise uploadAndFlush (opsConform_uploadAndFlush FlatMap.init)

/-- Of two pages that the GPU modified one is downloaded; and a page that the GPU modified is
marked as modified by the CPU. -/
theorem runOps_asserts :
    (runOps .relaxed [.request (.forEachUploadRange true 0 8192),
      .request (.forEachDownloadRange true 0 4096)] init).map (·.2) =
        .error "Not enough watchers" ∧
    (runOps .precise [.request (.forEachUploadRange true 0 4096),
      .request (.markRegionAsCpuModified 0 4096)] init).map (·.2) =
        .error "Attempted to protect region as write-only which is not a valid permission" := by
  decide +kernel

end MemoryTracker

end OrbitConsole.VideoCore
