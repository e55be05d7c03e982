import OrbitConsole.VideoCore.RegionManager

/-!
# Tracking modified memory

`MemoryTracker`, which has a `RegionManager` for each 4 MB of memory that was
asked for. The locks of the regions are left out.
-/

namespace OrbitConsole.VideoCore

structure MemoryTracker where
  topTier : ℕ → Option RegionManager
  tracker : PageManager

namespace MemoryTracker

def init : MemoryTracker where
  topTier _ := none
  tracker := PageManager.init

def createRegion (t : MemoryTracker) (pageIndex : ℕ) : MemoryTracker :=
  { t with
    topTier := Function.update t.topTier pageIndex
      (some (RegionManager.create (pageIndex <<< trackerHigherPageBits))) }

def store (t : MemoryTracker) (pageIndex : ℕ) (m : RegionManager) (tracker : PageManager) :
    MemoryTracker where
  topTier := Function.update t.topTier pageIndex (some m)
  tracker := tracker

variable {σ : Type}

/-- A function that is called for the part of a query in a region: with the index and the
manager of the region, and the offset and the size of the part. It returns whether to stop. -/
abbrev Visit (σ : Type) :=
  ℕ → RegionManager → ℕ → ℕ → MemoryTracker → σ → Except String (Bool × MemoryTracker × σ)

/-- The loop of `IteratePages`; there are at most as many rounds as bytes. -/
def iterateFrom (createRegionOnFail : Bool) (func : Visit σ) :
    ℕ → ℕ → ℕ → ℕ → MemoryTracker → σ → Except String (Bool × MemoryTracker × σ)
  | 0, _, _, _, t, acc => .ok (false, t, acc)
  | n + 1, remainingSize, pageIndex, pageOffset, t, acc =>
      if remainingSize = 0 then .ok (false, t, acc)
      else do
        let copyAmount := min (trackerHigherPageSize - pageOffset) remainingSize
        let t := if t.topTier pageIndex = none ∧ createRegionOnFail then
          t.createRegion pageIndex else t
        let (stop, t, acc) ←
          match t.topTier pageIndex with
          | some manager => func pageIndex manager pageOffset copyAmount t acc
          | none => .ok (false, t, acc)
        if stop then .ok (true, t, acc)
        else
          iterateFrom createRegionOnFail func n (remainingSize - copyAmount) (pageIndex + 1) 0
            t acc

def iteratePages (createRegionOnFail : Bool) (func : Visit σ) (cpuAddress size : ℕ)
    (t : MemoryTracker) (acc : σ) : Except String (Bool × MemoryTracker × σ) :=
  iterateFrom createRegionOnFail func size size (cpuAddress >>> trackerHigherPageBits)
    (cpuAddress % trackerHigherPageSize) t acc

def queryVisit (type : Modifier) : Visit Unit := fun _ manager offset size t acc =>
  .ok (manager.isRegionModified type offset size, t, acc)

def changeVisit (mode : GpuReadbacksMode) (type : Modifier) (enable : Bool) : Visit σ :=
  fun pageIndex manager offset size t acc => do
    let (manager, tracker) ← manager.changeRegionState mode type enable
      (manager.cpuAddr + offset) size t.tracker
    .ok (false, t.store pageIndex manager tracker, acc)

def rangeVisit (mode : GpuReadbacksMode) (type : Modifier) (clear : Bool) :
    Visit (List (ℕ × ℕ)) :=
  fun pageIndex manager offset size t acc => do
    let (manager, tracker, ranges) ← manager.forEachModifiedRange mode type clear
      (manager.cpuAddr + offset) size t.tracker
    .ok (false, t.store pageIndex manager tracker, acc ++ ranges)

/-- The result of a call: what was asked for, and the ranges that were reported. -/
structure Answer where
  modified : Bool := false
  reported : List (ℕ × ℕ) := []
  deriving DecidableEq

def isRegionCpuModified (t : MemoryTracker) (queryCpuAddr querySize : ℕ) :
    Except String (MemoryTracker × Answer) := do
  let (modified, t, _) ← iteratePages true (queryVisit .cpu) queryCpuAddr querySize t ()
  .ok (t, { modified := modified })

def isRegionGpuModified (t : MemoryTracker) (queryCpuAddr querySize : ℕ) :
    Except String (MemoryTracker × Answer) := do
  let (modified, t, _) ← iteratePages false (queryVisit .gpu) queryCpuAddr querySize t ()
  .ok (t, { modified := modified })

def markRegionAsCpuModified (mode : GpuReadbacksMode) (t : MemoryTracker)
    (dirtyCpuAddr querySize : ℕ) : Except String (MemoryTracker × Answer) := do
  let (_, t, _) ← iteratePages false (changeVisit mode .cpu true) dirtyCpuAddr querySize t ()
  .ok (t, {})

def unmarkRegionAsGpuModified (mode : GpuReadbacksMode) (t : MemoryTracker)
    (dirtyCpuAddr querySize : ℕ) : Except String (MemoryTracker × Answer) := do
  let (_, t, _) ← iteratePages false (changeVisit mode .gpu false) dirtyCpuAddr querySize t ()
  .ok (t, {})

def forEachUploadRange (mode : GpuReadbacksMode) (isWritten : Bool) (t : MemoryTracker)
    (queryCpuRange querySize : ℕ) : Except String (MemoryTracker × Answer) := do
  let (_, t, reported) ←
    iteratePages true (rangeVisit mode .cpu true) queryCpuRange querySize t []
  if isWritten = false then .ok (t, { reported := reported })
  else
    let (_, t, _) ← iteratePages false (changeVisit mode .gpu true) queryCpuRange querySize t ()
    .ok (t, { reported := reported })

def forEachDownloadRange (mode : GpuReadbacksMode) (clear : Bool) (t : MemoryTracker)
    (queryCpuRange querySize : ℕ) : Except String (MemoryTracker × Answer) := do
  let (_, t, reported) ←
    iteratePages false (rangeVisit mode .gpu clear) queryCpuRange querySize t []
  .ok (t, { reported := reported })

def invalidateVisit (mode : GpuReadbacksMode)
    (onFlush : MemoryTracker → Except String (MemoryTracker × List Answer)) :
    Visit (List Answer) :=
  fun pageIndex manager offset size t acc =>
    if mode ≠ .disabled ∧ manager.isRegionModified .gpu offset size then do
      let (t, answers) ← onFlush t
      .ok (false, t, acc ++ answers)
    else changeVisit mode .cpu true pageIndex manager offset size t acc

def invalidateRegion (mode : GpuReadbacksMode)
    (onFlush : MemoryTracker → Except String (MemoryTracker × List Answer)) (t : MemoryTracker)
    (cpuAddr size : ℕ) : Except String (MemoryTracker × List Answer) := do
  let (_, t, answers) ← iteratePages false (invalidateVisit mode onFlush) cpuAddr size t []
  .ok (t, answers)

/-- A call other than `InvalidateRegion`. -/
inductive Request
  | isRegionCpuModified (addr size : ℕ)
  | isRegionGpuModified (addr size : ℕ)
  | markRegionAsCpuModified (addr size : ℕ)
  | unmarkRegionAsGpuModified (addr size : ℕ)
  | forEachUploadRange (isWritten : Bool) (addr size : ℕ)
  | forEachDownloadRange (clear : Bool) (addr size : ℕ)

def Request.run (mode : GpuReadbacksMode) (t : MemoryTracker) :
    Request → Except String (MemoryTracker × Answer)
  | .isRegionCpuModified addr size => t.isRegionCpuModified addr size
  | .isRegionGpuModified addr size => t.isRegionGpuModified addr size
  | .markRegionAsCpuModified addr size => t.markRegionAsCpuModified mode addr size
  | .unmarkRegionAsGpuModified addr size => t.unmarkRegionAsGpuModified mode addr size
  | .forEachUploadRange isWritten addr size => t.forEachUploadRange mode isWritten addr size
  | .forEachDownloadRange clear addr size => t.forEachDownloadRange mode clear addr size

def runRequests (mode : GpuReadbacksMode) :
    List Request → MemoryTracker → Except String (MemoryTracker × List Answer)
  | [], t => .ok (t, [])
  | r :: rest, t => do
      let (t, answer) ← r.run mode t
      let (t, answers) ← runRequests mode rest t
      .ok (t, answer :: answers)

/-- A call; a flush that `InvalidateRegion` asks for makes calls of its own. -/
inductive Op
  | request (r : Request)
  | invalidateRegion (onFlush : List Request) (addr size : ℕ)

def Op.run (mode : GpuReadbacksMode) (t : MemoryTracker) :
    Op → Except String (MemoryTracker × List Answer)
  | .request r => do
      let (t, answer) ← r.run mode t
      .ok (t, [answer])
  | .invalidateRegion onFlush addr size =>
      t.invalidateRegion mode (runRequests mode onFlush) addr size

def runOps (mode : GpuReadbacksMode) :
    List Op → MemoryTracker → Except String (MemoryTracker × List Answer)
  | [], t => .ok (t, [])
  | op :: rest, t => do
      let (t, answers) ← op.run mode t
      let (t, answers') ← runOps mode rest t
      .ok (t, answers ++ answers')

end MemoryTracker

end OrbitConsole.VideoCore
