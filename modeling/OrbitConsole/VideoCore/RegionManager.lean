import OrbitConsole.VideoCore.PageManager

/-!
# Tracking the modified pages of a region

`RegionManager`, which keeps for the pages of a region of 4 MB whether the CPU
or the GPU modified them, and tells the page manager which pages to watch.
-/

namespace OrbitConsole.VideoCore

def trackerBytesPerPage : ℕ := 4096
def trackerHigherPageBits : ℕ := 22
def trackerHigherPageSize : ℕ := 4194304

inductive GpuReadbacksMode
  | disabled
  | relaxed
  | precise
  deriving DecidableEq

/-- `Type`: by whom a page was modified. -/
inductive Modifier
  | cpu
  | gpu
  deriving DecidableEq

/-- An address or a size as 64 bits keep it. -/
def wrap (x : ℕ) : ℕ := x % 2 ^ 64

/-- `SanitizeAddress`: an address that is negative as a signed number becomes zero. -/
def sanitizeAddress (address : ℕ) : ℕ := if address < 2 ^ 63 then address else 0

/-- The first page of a range of bytes of a region, and the page behind the last. -/
def startPage (offset : ℕ) : ℕ := sanitizeAddress offset / trackerBytesPerPage

def endPage (offset size : ℕ) : ℕ :=
  divCeil (sanitizeAddress (wrap (offset + size))) trackerBytesPerPage

structure RegionManager where
  cpuAddr : ℕ
  cpu : RegionBits
  gpu : RegionBits
  writeable : RegionBits
  readable : RegionBits

namespace RegionManager

/-- The constructor, with the address that is set later. -/
def create (cpuAddr : ℕ) : RegionManager where
  cpuAddr := cpuAddr
  cpu := BitVec.allOnes 1024
  gpu := 0
  writeable := BitVec.allOnes 1024
  readable := BitVec.allOnes 1024

def offsetOf (m : RegionManager) (address : ℕ) : ℕ := wrap (address + 2 ^ 64 - m.cpuAddr)

def getRegionBits (m : RegionManager) : Modifier → RegionBits
  | .cpu => m.cpu
  | .gpu => m.gpu

def setRegionBits (m : RegionManager) (type : Modifier) (bits : RegionBits) : RegionManager :=
  match type with
  | .cpu => { m with cpu := bits }
  | .gpu => { m with gpu := bits }

def updateProtection (track isRead : Bool) (m : RegionManager) (tracker : PageManager) :
    Except String (RegionManager × PageManager) :=
  let mask := if isRead then ~~~m.gpu ^^^ m.readable else m.cpu ^^^ m.writeable
  if mask.any = false then .ok (m, tracker)
  else do
    let m := if isRead then { m with readable := ~~~m.gpu } else { m with writeable := m.cpu }
    let tracker ← tracker.updatePageWatchersForRegion track isRead m.cpuAddr mask
    .ok (m, tracker)

def changeRegionState (mode : GpuReadbacksMode) (type : Modifier) (enable : Bool)
    (dirtyAddr size : ℕ) (m : RegionManager) (tracker : PageManager) :
    Except String (RegionManager × PageManager) :=
  let offset := m.offsetOf dirtyAddr
  if numPagesPerRegion ≤ startPage offset ∨ endPage offset size ≤ startPage offset then
    .ok (m, tracker)
  else
    let bits := m.getRegionBits type
    let m := m.setRegionBits type
      (if enable then bits.setRange (startPage offset) (endPage offset size)
      else bits.unsetRange (startPage offset) (endPage offset size))
    match type with
    | .cpu => m.updateProtection (!enable) false tracker
    | .gpu =>
        if mode = .precise then m.updateProtection enable true tracker
        else .ok (m, tracker)

def clearRange (mode : GpuReadbacksMode) (type : Modifier) (clear : Bool) (start stop : ℕ)
    (m : RegionManager) (tracker : PageManager) :
    Except String (RegionManager × PageManager) :=
  if clear = false then .ok (m, tracker)
  else
    let m := m.setRegionBits type ((m.getRegionBits type).unsetRange start stop)
    match type with
    | .cpu => m.updateProtection true false tracker
    | .gpu =>
        if mode = .disabled then .ok (m, tracker)
        else m.updateProtection false true tracker

def forEachModifiedRange (mode : GpuReadbacksMode) (type : Modifier) (clear : Bool)
    (queryCpuRange size : ℕ) (m : RegionManager) (tracker : PageManager) :
    Except String (RegionManager × PageManager × List (ℕ × ℕ)) :=
  let offset := m.offsetOf queryCpuRange
  if numPagesPerRegion ≤ startPage offset ∨ endPage offset size ≤ startPage offset then
    .ok (m, tracker, [])
  else do
    let mask := (m.getRegionBits type).slice (startPage offset) (endPage offset size)
    let (m, tracker) ← m.clearRange mode type clear (startPage offset) (endPage offset size)
      tracker
    .ok (m, tracker, mask.ranges.map fun r =>
      (m.cpuAddr + r.1 * trackerBytesPerPage, (r.2 - r.1) * trackerBytesPerPage))

def isRegionModified (type : Modifier) (offset size : ℕ) (m : RegionManager) : Bool :=
  if numPagesPerRegion ≤ startPage offset ∨ endPage offset size ≤ startPage offset then false
  else ((m.getRegionBits type).slice (startPage offset) (endPage offset size)).any

end RegionManager

end OrbitConsole.VideoCore
