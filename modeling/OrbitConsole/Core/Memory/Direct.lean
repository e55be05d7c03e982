import OrbitConsole.Core.Memory.Unmap

/-!
# Direct memory: `Allocate`, `PoolExpand` and `Free`
-/

namespace OrbitConsole.Memory

def orbisOk : ℤ := 0
def errorEnoent : ℤ := 0x80020002 - 0x100000000
def errorEbadf : ℤ := 0x80020009 - 0x100000000
def errorEnomem : ℤ := 0x8002000C - 0x100000000
def errorEbusy : ℤ := 0x80020010 - 0x100000000
def errorEinval : ℤ := 0x80020016 - 0x100000000

def invalidAddr : ℕ := 18446744073709551615

/-- 64_KB -/
def poolPageSize : ℕ := 0x10000

/-- The search loop of `Allocate` and `PoolExpand`: the first free, large enough
area of the run, with the aligned address in it. -/
def searchDmem (size alignment : ℕ) :
    List (ℕ × PhysicalMemoryArea) → ℕ → Option (ℕ × ℕ)
  | [], _ => none
  | (handle, area) :: rest, mappingStart =>
      let mappingEnd := add64 mappingStart size
      if area.dmaType ≠ .free ∨ area.getEnd < mappingEnd then
        -- The current dmem_area isn't suitable, move to the next one.
        match rest with
        | [] => none
        | (_, next) :: _ => searchDmem size alignment rest (alignUp next.base alignment)
      else some (handle, mappingStart)

/-- The pieces of non-free memory `Free` will release, `none` when a checked release
meets free memory. Free areas are skipped without being counted. -/
def collectFreeList (physAddr : ℕ) (isChecked : Bool) :
    List (ℕ × PhysicalMemoryArea) → ℕ → Option (List (ℕ × ℕ))
  | [], _ => some []
  | (key, area) :: rest, remainingSize =>
      if remainingSize = 0 then some []
      else if area.dmaType = .free then
        if isChecked then none
        else collectFreeList physAddr isChecked rest remainingSize
      else
        let currentPhysAddr := max physAddr key
        let startInDma := sub64 currentPhysAddr key
        let sizeInDma := min remainingSize (sub64 area.size startInDma)
        (collectFreeList physAddr isChecked rest (sub64 remainingSize sizeInDma)).map
          fun freeList => (currentPhysAddr, sizeInDma) :: freeList

def removeEntry (physAddr : ℕ) (size : ℕ) (base : ℕ)
    (entry : ℕ × PhysicalMemoryArea) : Option (ℕ × ℕ) :=
  let offsetInVma := entry.1
  let physMapping := entry.2
  if physMapping.base < add64 physAddr size ∧
      physAddr < add64 physMapping.base physMapping.size then
    let physOffset := sub64 (max physMapping.base physAddr) physMapping.base
    let addrInVma := add64 (add64 base offsetInVma) physOffset
    let unmapSize := min (sub64 physMapping.size physOffset) size
    some (addrInVma, unmapSize)
  else none

/-- The virtual ranges `Free` unmaps. -/
def collectRemoveList (vmaMap : VMAMap) (physAddr : ℕ) (size : ℕ) : List (ℕ × ℕ) :=
  vmaMap.entries.flatMap fun entry =>
    let mapping := entry.2
    if mapping.type ≠ .direct then []
    else mapping.physAreas.entries.filterMap (removeEntry physAddr size mapping.base)

/-- The last loop of `Free`: release every collected piece. -/
def releaseFreeList : List (ℕ × ℕ) → PhysMap → Exec PhysMap
  | [], dmemMap => pure dmemMap
  | (physAddr, size) :: rest, dmemMap => do
      let (dmemMap, _, _) ← relabelPhysArea dmemMap physAddr size fun area =>
        { area with dmaType := .free, memoryType := 0 }
      releaseFreeList rest dmemMap

namespace MemoryManager

/-- The loop of `Free` over the virtual ranges to remove. -/
def unmapRemoveList : List (ℕ × ℕ) → MemoryManager → Exec MemoryManager
  | [], s => pure s
  | (addr, size) :: rest, s => do
      let s ← s.unmapMemoryImpl addr size
      unmapRemoveList rest s

def poolExpand (s : MemoryManager) (searchStart _searchEnd : ℕ) (size alignment : ℕ) :
    Exec (ℕ × MemoryManager) := do
  let alignment := if 0 < alignment then alignment else poolPageSize
  let (handle, area) ← findArea s.dmemMap searchStart
  let mappingStart :=
    if area.base < searchStart then alignUp searchStart alignment
    else alignUp area.base alignment
  match searchDmem size alignment (s.dmemMap.entriesFrom handle) mappingStart with
  | none => return (invalidAddr, s)
  | some (_, mappingStart) =>
      let (dmemMap, handle) ← carvePhysArea s.dmemMap mappingStart size
      let dmemMap := dmemMap.modify handle fun area =>
        { area with dmaType := .pooled, memoryType := 3 }
      -- Track how much dmem was allocated for pools.
      return (mappingStart,
        { s with dmemMap := dmemMap, poolBudget := add64 s.poolBudget size })

/-- `Allocate`; `search_end` is not looked at. The handle that is merged is the one
the search stopped at, which need not be the carved area. -/
def allocate (s : MemoryManager) (searchStart _searchEnd : ℕ) (size alignment : ℕ)
    (memoryType : ℤ) : Exec (ℕ × MemoryManager) := do
  let alignment := if 0 < alignment then alignment else pageSize
  let (handle, area) ← findArea s.dmemMap searchStart
  let mappingStart := alignUp (max searchStart area.base) alignment
  match searchDmem size alignment (s.dmemMap.entriesFrom handle) mappingStart with
  | none => return (invalidAddr, s)
  | some (dmemArea, mappingStart) =>
      let (dmemMap, handle) ← carvePhysArea s.dmemMap mappingStart size
      let dmemMap := dmemMap.modify handle fun area =>
        { area with memoryType := memoryType, dmaType := .allocated }
      let (dmemMap, _) ← mergeAdjacentPhys dmemMap dmemArea
      return (mappingStart, { s with dmemMap := dmemMap })

def free (s : MemoryManager) (physAddr : ℕ) (size : ℕ) (isChecked : Bool) :
    Exec (ℤ × MemoryManager) :=
  -- Basic bounds checking
  if s.totalDirectSize < physAddr ∨
      (isChecked ∧ s.totalDirectSize < add64 physAddr size) then
    pure (if isChecked then errorEnoent else orbisOk, s)
  else do
    let (physHandle, _) ← findArea s.dmemMap physAddr
    match collectFreeList physAddr isChecked (s.dmemMap.entriesFrom physHandle) size with
    | none => return (errorEnoent, s)
    | some freeList =>
        -- Release any dmem mappings that reference this physical block.
        let s ← unmapRemoveList (collectRemoveList s.vmaMap physAddr size) s
        -- Unmap all dmem areas within this area.
        let dmemMap ← releaseFreeList freeList s.dmemMap
        return (orbisOk, { s with dmemMap := dmemMap })

end MemoryManager

end OrbitConsole.Memory
