import Mathlib.Algebra.Order.Ring.Int
import OrbitConsole.VideoCore.RegionBits

/-!
# Watching pages

`PageManager`, which counts the watchers of each page and protects it on the
host accordingly. Changes of the protection are batched: a range of pages with
the same permissions is protected at once. A failed assertion is an error with
its message.
-/

namespace OrbitConsole.VideoCore

def pageBits : ℕ := 12
def pageSize : ℕ := 4096

def divCeil (x y : ℕ) : ℕ := (x + y - 1) / y

structure MemoryPermission where
  read : Bool
  write : Bool
  deriving DecidableEq

structure PageState where
  /-- seven bits -/
  numWriteWatchers : ℕ := 0
  /-- one bit -/
  numReadWatchers : ℕ := 0
  deriving DecidableEq

namespace PageState

def perms (state : PageState) : MemoryPermission :=
  { read := state.numReadWatchers = 0, write := state.numWriteWatchers = 0 }

def addDelta (delta : ℤ) (isRead : Bool) (state : PageState) : Except String (PageState × ℕ) :=
  if isRead then
    if delta = 1 then
      let count := (state.numReadWatchers + 1) % 2
      .ok ({ state with numReadWatchers := count }, count)
    else if delta = -1 then
      if state.numReadWatchers = 0 then .error "Not enough watchers"
      else .ok ({ state with numReadWatchers := state.numReadWatchers - 1 },
        state.numReadWatchers - 1)
    else .ok (state, state.numReadWatchers)
  else
    if delta = 1 then
      let count := (state.numWriteWatchers + 1) % 128
      .ok ({ state with numWriteWatchers := count }, count)
    else if delta = -1 then
      if state.numWriteWatchers = 0 then .error "Not enough watchers"
      else .ok ({ state with numWriteWatchers := state.numWriteWatchers - 1 },
        state.numWriteWatchers - 1)
    else .ok (state, state.numWriteWatchers)

end PageState

structure PageManager where
  /-- an array with an entry for each page below 2^40, where every caller stays -/
  cachedPages : ℕ → PageState
  host : ℕ → MemoryPermission

namespace PageManager

def init : PageManager :=
  { cachedPages := fun _ => {}, host := fun _ => { read := true, write := true } }

def protect (s : PageManager) (address size : ℕ) (perms : MemoryPermission) :
    Except String PageManager :=
  if perms = { read := false, write := true } then
    .error "Attempted to protect region as write-only which is not a valid permission"
  else .ok { s with
    host := fun page =>
      if address ≤ page * pageSize ∧ page * pageSize < address + size then perms
      else s.host page }

/-- The local variables of the loops below. -/
structure Pending where
  perms : MemoryPermission
  rangeBegin : ℕ := 0
  rangeBytes : ℕ := 0
  potentialRangeBytes : ℕ := 0

def releasePending (s : PageManager) (p : Pending) : Except String (PageManager × Pending) :=
  if 0 < p.rangeBytes then do
    let s ← s.protect (p.rangeBegin <<< pageBits) p.rangeBytes p.perms
    .ok (s, { p with rangeBytes := 0, potentialRangeBytes := 0 })
  else .ok (s, p)

/-- The body of the loops: what is done to one page. `update` is whether it is in the mask. -/
def updatePage (track isRead update : Bool) (page : ℕ) (s : PageManager) (p : Pending) :
    Except String (PageManager × Pending) := do
  -- Apply the change to the page state
  let delta := if update then (if track then 1 else -1) else 0
  let (state, newCount) ← (s.cachedPages page).addDelta delta isRead
  let s := { s with cachedPages := Function.update s.cachedPages page state }
  let (s, p) ←
    if state.perms ≠ p.perms then do
      -- If the protection changed add pending (un)protect action
      let (s, p) ← s.releasePending p
      .ok (s, { p with perms := state.perms })
    else if p.rangeBytes ≠ 0 then
      -- If the protection did not change, extend the potential range
      .ok (s, { p with potentialRangeBytes := p.potentialRangeBytes + pageSize })
    else .ok (s, p)
  -- If the page must be (un)protected
  if update ∧ (newCount = 0 ∧ track = false ∨ newCount = 1 ∧ track = true) then
    -- Start a new potential range
    let p := if p.rangeBytes = 0 then
      { p with rangeBegin := page, potentialRangeBytes := pageSize } else p
    -- Extend current range up to potential range
    .ok (s, { p with rangeBytes := p.potentialRangeBytes })
  else .ok (s, p)

def updateLoop (track isRead : Bool) (mask : ℕ → Bool) :
    ℕ → ℕ → PageManager → Pending → Except String PageManager
  | 0, _, s, p => do
      -- Add pending (un)protect action
      let (s, _) ← s.releasePending p
      .ok s
  | n + 1, page, s, p => do
      let (s, p) ← updatePage track isRead (mask page) page s p
      updateLoop track isRead mask n (page + 1) s p

def updatePageWatchers (track isRead : Bool) (s : PageManager) (addr size : ℕ) :
    Except String PageManager :=
  let page := addr >>> pageBits
  let pageEnd := divCeil (addr + size) pageSize
  updateLoop track isRead (fun _ => true) (pageEnd - page) page s
    { perms := (s.cachedPages page).perms }

def updatePageWatchersForRegion (track isRead : Bool) (s : PageManager) (baseAddr : ℕ)
    (mask : RegionBits) : Except String PageManager :=
  let startRange := mask.firstRange
  let endRange := mask.lastRange
  if startRange.2 = endRange.2 then
    -- if all pages are contiguous, use the regular UpdatePageWatchers
    updatePageWatchers track isRead s (baseAddr + startRange.1 <<< pageBits)
      ((startRange.2 - startRange.1) <<< pageBits)
  else
    let basePage := baseAddr >>> pageBits
    if basePage % numPagesPerRegion ≠ 0 then .error "base_page % PAGES_PER_LOCK == 0"
    else
      updateLoop track isRead (fun page => mask.get (page - basePage))
        (endRange.2 - startRange.1) (basePage + startRange.1) s
        { perms := (s.cachedPages (basePage + startRange.1)).perms }

def updateRanges (track isRead : Bool) (s : PageManager) (baseAddr : ℕ) :
    List (ℕ × ℕ) → Except String PageManager
  | [] => .ok s
  | r :: rest => do
      let s ← updatePageWatchers track isRead s (baseAddr + r.1 <<< pageBits)
        ((r.2 - r.1) <<< pageBits)
      updateRanges track isRead s baseAddr rest

end PageManager

end OrbitConsole.VideoCore
