import OrbitConsole.Core.Memory.Areas

/-!
# Unmapping

`IsValidMapping`, `UnmapBytesFromEntry`, `UnmapMemoryImpl` and `UnmapMemory`.
The loops that walk an unchanging run of a map recurse on the entries of that
run. The loops that count down bytes take a bound on the number of rounds: a
round that frees no byte repeats forever in the source, so running out of
rounds is `Fault.diverges`.
-/

namespace OrbitConsole.Memory

/-- 16_KB -/
def pageSize : ℕ := 0x4000

def validateRun : List (ℕ × VirtualMemoryArea) → ℕ → ℕ → Bool
  | [], _, sizeToValidate => sizeToValidate = 0
  | (_, vma) :: rest, addrToCheck, sizeToValidate =>
      if sizeToValidate = 0 then true
      else
        let offsetInVma := sub64 addrToCheck vma.base
        let sizeInVma := min (sub64 vma.size offsetInVma) sizeToValidate
        let sizeToValidate := sub64 sizeToValidate sizeInVma
        let addrToCheck := add64 addrToCheck sizeInVma
        match rest with
        | [] => sizeToValidate = 0
        | (_, next) :: _ =>
            -- Make sure there isn't any gap here
            if 0 < sizeToValidate ∧ addrToCheck ≠ next.base then false
            else validateRun rest addrToCheck sizeToValidate

namespace MemoryManager

/-- `IsValidMapping`. The map of virtual areas is never empty. -/
def isValidMapping (s : MemoryManager) (virtualAddr : ℕ) (size : ℕ) : Bool :=
  match s.vmaMap.first, s.vmaMap.last, s.vmaMap.floor virtualAddr with
  | some (firstKey, _), some (lastKey, last), some (handle, _) =>
      if virtualAddr < firstKey ∨ add64 lastKey last.size ≤ virtualAddr then false
      else if size = 0 then true
      else validateRun (s.vmaMap.entriesFrom handle) virtualAddr size
  | _, _, _ => false

end MemoryManager

/-- The loop of `UnmapBytesFromEntry` and of `PoolDecommit` over the physical areas
of a virtual area: `body` is run on the part of each that lies between
`startInVma` and `startInVma + sizeToFree`. Returns the bytes left over. -/
def walkPhysAreas {σ : Type} (body : σ → ℕ → ℕ → Exec σ) (startInVma : ℕ) :
    List (ℕ × PhysicalMemoryArea) → ℕ → σ → Exec (σ × ℕ)
  | [], sizeToFree, s => pure (s, sizeToFree)
  | (offset, area) :: rest, sizeToFree, s =>
      if sizeToFree = 0 then pure (s, sizeToFree)
      else do
        let dmaOffset := sub64 (max offset startInVma) offset
        let physAddr := add64 area.base dmaOffset
        let sizeInDma := min sizeToFree (sub64 area.size dmaOffset)
        let s ← body s physAddr sizeInDma
        walkPhysAreas body startInVma rest (sub64 sizeToFree sizeInDma) s

/-- The body of that loop in `UnmapBytesFromEntry`: direct memory goes back to
Allocated, flexible memory goes back to Free and is no longer counted as used. -/
def releasePhys (vmaType : VMAType) (s : MemoryManager) (physAddr : ℕ)
    (sizeInDma : ℕ) : Exec MemoryManager :=
  match vmaType with
  | .direct => do
      let (dmemMap, _, _) ← relabelPhysArea s.dmemMap physAddr sizeInDma fun area =>
        { area with dmaType := .allocated }
      return { s with dmemMap := dmemMap }
  | .flexible => do
      let (fmemMap, _, _) ← relabelPhysArea s.fmemMap physAddr sizeInDma fun area =>
        { area with dmaType := .free }
      return { s with
        fmemMap := fmemMap
        flexibleUsage := sub64 s.flexibleUsage sizeInDma }
  | _ => pure s

namespace MemoryManager

def releaseBytes (s : MemoryManager) (vmaBase : VirtualMemoryArea)
    (startInVma sizeInVma : ℕ) : Exec MemoryManager :=
  if 0 < vmaBase.physAreas.entries.length then do
    let (physHandle, _) ← findArea vmaBase.physAreas startInVma
    let (s, sizeToFree) ← walkPhysAreas (releasePhys vmaBase.type) startInVma
      (vmaBase.physAreas.entriesFrom physHandle) sizeInVma s
    assertMsg (sizeToFree = 0) "Failed to unmap physical memory"
    return s
  else pure s

def unmapBytesFromEntry (s : MemoryManager) (virtualAddr : ℕ)
    (vmaBase : VirtualMemoryArea) (size : ℕ) : Exec (ℕ × MemoryManager) :=
  let startInVma := sub64 virtualAddr vmaBase.base
  let sizeInVma := min (sub64 vmaBase.size startInVma) size
  if vmaBase.type = .free ∨ vmaBase.type = .pooled then pure (sizeInVma, s)
  else do
    let s ← s.releaseBytes vmaBase startInVma sizeInVma
    -- Mark region as free and attempt to coalesce it with neighbours.
    let (vmaMap, handle) ← carveVMA s.vmaMap virtualAddr sizeInVma
    let vmaMap := vmaMap.modify handle fun vma =>
      { vma with
        type := .free
        prot := MemoryProt.noAccess
        physAreas := OrderedMap.empty
        disallowMerge := false
        name := "" }
    let (vmaMap, _) ← mergeAdjacentVMA vmaMap handle
    return (sizeInVma, { s with vmaMap := vmaMap })

def unmapMemoryImplLoop (virtualAddr : ℕ) (size : ℕ) :
    ℕ → ℕ → MemoryManager → Exec MemoryManager
  | 0, _, _ => throw .diverges
  | rounds + 1, unmappedBytes, s => do
      let (_, vmaBase) ← findArea s.vmaMap (add64 virtualAddr unmappedBytes)
      let (unmapped, s) ← s.unmapBytesFromEntry (add64 virtualAddr unmappedBytes) vmaBase
        (sub64 size unmappedBytes)
      assertMsg (0 < unmapped) "Failed to unmap memory, progress is impossible"
      let unmappedBytes := add64 unmappedBytes unmapped
      if unmappedBytes < size then unmapMemoryImplLoop virtualAddr size rounds unmappedBytes s
      else pure s

def unmapMemoryImpl (s : MemoryManager) (virtualAddr : ℕ) (size : ℕ) :
    Exec MemoryManager :=
  unmapMemoryImplLoop virtualAddr size (size + 1) 0 s

/-- `UnmapMemory`, which returns `ORBIS_OK` whenever it returns. -/
def unmapMemory (s : MemoryManager) (virtualAddr : ℕ) (size : ℕ) : Exec MemoryManager :=
  if size = 0 then pure s
  else do
    -- Align address and size appropriately
    let virtualAddr := alignDown virtualAddr pageSize
    let size := alignUp size pageSize
    assertMsg (s.isValidMapping virtualAddr size) "Attempted to access invalid address"
    s.unmapMemoryImpl virtualAddr size

end MemoryManager

end OrbitConsole.Memory
