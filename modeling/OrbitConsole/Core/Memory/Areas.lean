import OrbitConsole.Core.Memory.Types

/-!
# Splitting, carving and merging areas

The private helpers of `MemoryManager` that edit one of its three maps:
`FindVMA`, `FindDmemArea`, `Split`, `CarveVMA`, `CarvePhysArea` and
`MergeAdjacent`. A handle is the key it stands on.
-/

namespace OrbitConsole.Memory

/-- `std::prev (map.upper_bound (target))`; below the first key it is undefined. -/
def findArea {α : Type*} (map : OrderedMap ℕ α) (target : ℕ) : Exec (ℕ × α) :=
  match map.floor target with
  | some entry => pure entry
  | none => throw .undefined

def deref {α : Type*} (map : OrderedMap ℕ α) (handle : ℕ) : Exec α :=
  match map.get? handle with
  | some area => pure area
  | none => throw .undefined

/-! ### Physical areas -/

def splitPhysArea (map : PhysMap) (physHandle : ℕ) (offsetInArea : ℕ) :
    Exec (PhysMap × ℕ) := do
  let oldArea ← deref map physHandle
  assertMsg (offsetInArea < oldArea.size ∧ 0 < offsetInArea) "Assertion Failed!"
  let newArea : PhysicalMemoryArea :=
    { oldArea with
      base := add64 oldArea.base offsetInArea
      size := sub64 oldArea.size offsetInArea }
  let map := map.insert physHandle { oldArea with size := offsetInArea }
  return (map.emplace newArea.base newArea, newArea.base)

def carvePhysArea (map : PhysMap) (addr : ℕ) (size : ℕ) : Exec (PhysMap × ℕ) := do
  let (pmemHandle, area) ← findArea map addr
  assertMsg (addr ≤ area.getEnd) "Physical address not in map"
  assertMsg (area.base ≤ addr) "Adding an allocation to already allocated region"
  let startInArea := sub64 addr area.base
  let endInVma := add64 startInArea size
  assertMsg (endInVma ≤ area.size) "Mapping cannot fit inside free region"
  let map ← (if endInVma ≠ area.size then
      Prod.fst <$> splitPhysArea map pmemHandle endInVma
    else pure map)
  if startInArea ≠ 0 then
    splitPhysArea map pmemHandle startInArea
  else
    return (map, pmemHandle)

/-- The first half of `MergeAdjacent`: the next area is absorbed. -/
def mergeNextPhys (handleMap : PhysMap) (iter : ℕ) (area : PhysicalMemoryArea) :
    PhysMap × PhysicalMemoryArea :=
  match handleMap.next iter with
  | some (nextKey, next) =>
      if area.canMergeWith next then
        let area := { area with size := add64 area.size next.size }
        ((handleMap.insert iter area).erase nextKey, area)
      else (handleMap, area)
  | none => (handleMap, area)

/-- The second half: the previous area absorbs this one. -/
def mergePrevPhys (handleMap : PhysMap) (iter : ℕ) (area : PhysicalMemoryArea) :
    PhysMap × ℕ :=
  match handleMap.prev iter with
  | some (prevKey, prev) =>
      if prev.canMergeWith area then
        let prev := { prev with size := add64 prev.size area.size }
        ((handleMap.insert prevKey prev).erase iter, prevKey)
      else (handleMap, iter)
  | none => (handleMap, iter)

def mergeAdjacentPhys (handleMap : PhysMap) (iter : ℕ) : Exec (PhysMap × ℕ) := do
  let area ← deref handleMap iter
  let (handleMap, area) := mergeNextPhys handleMap iter area
  return mergePrevPhys handleMap iter area

/-- Carve `[addr, addr + size)`, change the labels of the carved area by `f` and
merge it with its neighbours: the sequence every operation uses on `dmem_map`
and `fmem_map`. Besides the map and the handle of the merged area it returns the
carved area with its new labels. -/
def relabelPhysArea (map : PhysMap) (addr : ℕ) (size : ℕ)
    (f : PhysicalMemoryArea → PhysicalMemoryArea) :
    Exec (PhysMap × ℕ × PhysicalMemoryArea) := do
  let (map, handle) ← carvePhysArea map addr size
  let map := map.modify handle f
  let area ← deref map handle
  let (map, handle) ← mergeAdjacentPhys map handle
  return (map, handle, area)

/-! ### Virtual areas -/

/-- The body of the loop of `Split` that distributes the physical areas over the two
halves. -/
def splitPhysEntry (offsetInVma : ℕ) (maps : PhysMap × PhysMap)
    (entry : ℕ × PhysicalMemoryArea) : PhysMap × PhysMap :=
  let offset := entry.1
  let region := entry.2
  -- Fully contained in first VMA
  let maps := if add64 offset region.size ≤ offsetInVma then
      (maps.1.insert offset region, maps.2)
    else maps
  -- Split between both VMAs
  let maps := if offset < offsetInVma ∧ offsetInVma < add64 offset region.size then
      let sizeInOld := sub64 offsetInVma offset
      (maps.1.insert offset { region with size := sizeInOld },
        maps.2.insert 0
          { region with
            base := add64 region.base sizeInOld
            size := sub64 region.size sizeInOld })
    else maps
  -- Fully contained in new VMA
  if offsetInVma ≤ offset then
    (maps.1, maps.2.insert (sub64 offset offsetInVma) region)
  else maps

def splitPhysAreas (physAreas : PhysMap) (offsetInVma : ℕ) : PhysMap × PhysMap :=
  physAreas.entries.foldl (splitPhysEntry offsetInVma) (OrderedMap.empty, OrderedMap.empty)

def splitVMA (map : VMAMap) (vmaHandle : ℕ) (offsetInVma : ℕ) :
    Exec (VMAMap × ℕ) := do
  let oldVma ← deref map vmaHandle
  assertMsg (offsetInVma < oldVma.size ∧ 0 < offsetInVma) "Assertion Failed!"
  let newVma : VirtualMemoryArea :=
    { oldVma with
      base := add64 oldVma.base offsetInVma
      size := sub64 oldVma.size offsetInVma }
  let oldVma : VirtualMemoryArea := { oldVma with size := offsetInVma }
  let (oldVma, newVma) := if hasPhysicalBacking newVma then
      let areas := splitPhysAreas oldVma.physAreas offsetInVma
      ({ oldVma with physAreas := areas.1 }, { newVma with physAreas := areas.2 })
    else (oldVma, newVma)
  return ((map.insert vmaHandle oldVma).emplace newVma.base newVma, newVma.base)

def carveVMA (map : VMAMap) (virtualAddr : ℕ) (size : ℕ) : Exec (VMAMap × ℕ) := do
  let (vmaHandle, vma) ← findArea map virtualAddr
  assertMsg (vma.base ≤ virtualAddr) "Adding a mapping to already mapped region"
  let startInVma := sub64 virtualAddr vma.base
  let endInVma := add64 startInVma size
  if startInVma = 0 ∧ size = vma.size then
    -- if requesting the whole VMA, return it
    return (map, vmaHandle)
  else do
    assertMsg (endInVma ≤ vma.size) "Mapping cannot fit inside free region"
    let map ← (if endInVma ≠ vma.size then
        Prod.fst <$> splitVMA map vmaHandle endInVma
      else pure map)
    if startInVma ≠ 0 then
      splitVMA map vmaHandle startInVma
    else
      return (map, vmaHandle)

/-- The loop of `MergeAdjacent` that moves the physical areas of the second area
behind those of the first. -/
def appendPhysAreas (physAreas : PhysMap) (baseOffset : ℕ) (next : PhysMap) : PhysMap :=
  next.entries.foldl (fun areas entry => areas.insert (add64 baseOffset entry.1) entry.2)
    physAreas

/-- What the first of two merged areas becomes. -/
def absorb (vma next : VirtualMemoryArea) : VirtualMemoryArea :=
  { vma with
    size := add64 vma.size next.size
    physAreas := appendPhysAreas vma.physAreas vma.size next.physAreas }

/-- The first half of `MergeAdjacent`: the next area is absorbed. -/
def mergeNextVMA (handleMap : VMAMap) (iter : ℕ) (vma : VirtualMemoryArea) :
    Exec (VMAMap × VirtualMemoryArea) :=
  match handleMap.next iter with
  | some (nextKey, next) => do
      let merge ← vma.canMergeWith next
      if merge then
        let vma := absorb vma next
        return ((handleMap.insert iter vma).erase nextKey, vma)
      else return (handleMap, vma)
  | none => pure (handleMap, vma)

/-- The second half: the previous area absorbs this one. -/
def mergePrevVMA (handleMap : VMAMap) (iter : ℕ) (vma : VirtualMemoryArea) :
    Exec (VMAMap × ℕ) :=
  match handleMap.prev iter with
  | some (prevKey, prev) => do
      let merge ← prev.canMergeWith vma
      if merge then
        return ((handleMap.insert prevKey (absorb prev vma)).erase iter, prevKey)
      else return (handleMap, iter)
  | none => pure (handleMap, iter)

def mergeAdjacentVMA (handleMap : VMAMap) (iter : ℕ) : Exec (VMAMap × ℕ) := do
  let vma ← deref handleMap iter
  let (handleMap, vma) ← mergeNextVMA handleMap iter vma
  mergePrevVMA handleMap iter vma

end OrbitConsole.Memory
