import OrbitConsole.Core.Memory.Map

/-!
# Pooled memory: `PoolCommit` and `PoolDecommit`
-/

namespace OrbitConsole.Memory

namespace MemoryManager

/-- `PoolCommit`. The budget and the range are checked at the aligned address, the
area is carved at the address as given. -/
def poolCommit (s : MemoryManager) (virtualAddr : ℕ) (size : ℕ) (prot : MemoryProt)
    (mtype : ℤ) : Exec (ℤ × MemoryManager) := do
  assertMsg (s.isValidMapping virtualAddr size) "Attempted to access invalid address"
  -- Input addresses to PoolCommit are treated as fixed, and have a constant alignment.
  let mappedAddr := alignUp virtualAddr poolPageSize
  let (_, vma) ← findArea s.vmaMap mappedAddr
  if vma.type ≠ .poolReserved then return (errorEinval, s)
  else if !vma.contains mappedAddr size then return (errorEinval, s)
  else if s.poolBudget ≤ size then return (errorEnomem, s)
  else
    let prot := if hasFlag prot MemoryProt.cpuWrite then prot ||| MemoryProt.cpuRead else prot
    -- Create the virtual mapping for the commit
    let (vmaMap, handle) ← carveVMA s.vmaMap virtualAddr size
    let b ← Backing.scatter .pooled
      (fun area => { area with dmaType := .committed, memoryType := mtype })
      mappedAddr (s.dmemMap.entries.length + 2) (s.dmemMap.first.map Prod.fst)
      { map := s.dmemMap
        physAreas := OrderedMap.empty
        remainingSize := size
        currentAddr := mappedAddr
        usage := 0 }
    assertMsg (b.remainingSize = 0) "Failed to commit pooled memory"
    let vmaMap := vmaMap.modify handle fun newVma =>
      { newVma with
        disallowMerge := false
        prot := prot
        name := "anon"
        type := .pooled
        physAreas := b.physAreas }
    -- Merge this VMA with similar nearby areas
    let (vmaMap, _) ← mergeAdjacentVMA vmaMap handle
    return (orbisOk,
      { s with
        vmaMap := vmaMap
        dmemMap := b.map
        poolBudget := sub64 s.poolBudget size })

/-- The initial search of `PoolDecommit`: every area that ends inside the range must
be pooled memory. -/
def poolDecommitCheck (rangeEnd : ℕ) : List (ℕ × VirtualMemoryArea) → Bool
  | [] => true
  | (_, vma) :: rest =>
      if add64 vma.base vma.size ≤ rangeEnd then
        if vma.type ≠ .poolReserved ∧ vma.type ≠ .pooled then false
        else poolDecommitCheck rangeEnd rest
      else true

/-- The body of the inner loop of `PoolDecommit`: the direct memory is pooled again. -/
def repoolPhys (dmemMap : PhysMap) (physAddr : ℕ) (sizeInDma : ℕ) : Exec PhysMap := do
  let (dmemMap, _, _) ← relabelPhysArea dmemMap physAddr sizeInDma fun area =>
    { area with dmaType := .pooled }
  return dmemMap

def repoolBytes (s : MemoryManager) (vmaBase : VirtualMemoryArea)
    (startInVma sizeInVma : ℕ) : Exec MemoryManager :=
  if vmaBase.type = .pooled then do
    let (physHandle, _) ← findArea vmaBase.physAreas startInVma
    -- Re-pool the direct memory used by this mapping
    let (dmemMap, sizeToFree) ← walkPhysAreas repoolPhys startInVma
      (vmaBase.physAreas.entriesFrom physHandle) sizeInVma s.dmemMap
    assertMsg (sizeToFree = 0) "Failed to decommit pooled memory"
    -- Track how much pooled memory is decommitted
    return { s with dmemMap := dmemMap, poolBudget := add64 s.poolBudget sizeInVma }
  else pure s

def poolDecommitLoop : ℕ → ℕ → ℕ → MemoryManager → Exec MemoryManager
  | 0, _, _, _ => throw .diverges
  | rounds + 1, currentAddr, remainingSize, s =>
      if remainingSize = 0 then pure s
      else do
        let (_, vmaBase) ← findArea s.vmaMap currentAddr
        let startInVma := sub64 currentAddr vmaBase.base
        let sizeInVma := min remainingSize (sub64 vmaBase.size startInVma)
        let s ← s.repoolBytes vmaBase startInVma sizeInVma
        -- Mark region as pool reserved and attempt to coalesce it with neighbours.
        let (vmaMap, handle) ← carveVMA s.vmaMap currentAddr sizeInVma
        let vmaMap := vmaMap.modify handle fun vma =>
          { vma with
            type := .poolReserved
            prot := MemoryProt.noAccess
            disallowMerge := false
            name := "anon"
            physAreas := OrderedMap.empty }
        let (vmaMap, _) ← mergeAdjacentVMA vmaMap handle
        poolDecommitLoop rounds (add64 currentAddr sizeInVma) (sub64 remainingSize sizeInVma)
          { s with vmaMap := vmaMap }

def poolDecommit (s : MemoryManager) (virtualAddr : ℕ) (size : ℕ) :
    Exec (ℤ × MemoryManager) := do
  assertMsg (s.isValidMapping virtualAddr size) "Attempted to access invalid address"
  let (handle, _) ← findArea s.vmaMap virtualAddr
  if !poolDecommitCheck (add64 virtualAddr size) (s.vmaMap.entriesFrom handle) then
    return (errorEinval, s)
  else
    let s ← poolDecommitLoop (size + 1) virtualAddr size s
    return (orbisOk, s)

end MemoryManager

end OrbitConsole.Memory
