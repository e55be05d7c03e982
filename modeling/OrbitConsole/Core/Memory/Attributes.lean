import OrbitConsole.Core.Memory.Pool

/-!
# Attributes: `Protect`, `SetDirectMemoryType` and `NameVirtualRange`
-/

namespace OrbitConsole.Memory

/-- A 64-bit result returned as an `s32`. -/
def toS32 (n : ℕ) : ℤ := (n : ℤ).bmod 0x100000000

namespace MemoryManager

/-- `ProtectBytes`: the bytes handled, and the state. The permissions it hands to the
address space are not kept. -/
def protectBytes (s : MemoryManager) (addr : ℕ) (vmaBase : VirtualMemoryArea) (size : ℕ)
    (prot : MemoryProt) : Exec (ℕ × MemoryManager) :=
  let startInVma := sub64 addr vmaBase.base
  let adjustedSize := min (sub64 vmaBase.size startInVma) size
  -- On PS4, protecting freed memory does nothing.
  if vmaBase.type = .free ∨ vmaBase.type = .poolReserved then pure (adjustedSize, s)
  else do
    let prot := if hasFlag prot MemoryProt.cpuWrite then prot ||| MemoryProt.cpuRead else prot
    -- On PS4, execute permissions are hidden from direct memory and file mappings.
    let prot := if vmaBase.type = .direct ∨ vmaBase.type = .pooled ∨ vmaBase.type = .file then
        prot &&& ~~~MemoryProt.cpuExec
      else prot
    -- Split VMAs and apply protection change.
    let (vmaMap, handle) ← carveVMA s.vmaMap addr adjustedSize
    let vmaMap := vmaMap.modify handle fun newVma => { newVma with prot := prot }
    let (vmaMap, _) ← mergeAdjacentVMA vmaMap handle
    return (adjustedSize, { s with vmaMap := vmaMap })

def protectLoop (addr : ℕ) (size : ℕ) (prot : MemoryProt) :
    ℕ → ℕ → MemoryManager → Exec (ℤ × MemoryManager)
  | 0, _, _ => throw .diverges
  | rounds + 1, protectedBytes, s =>
      if protectedBytes < size then do
        let (_, vmaBase) ← findArea s.vmaMap (add64 addr protectedBytes)
        -- Account for potential gaps in memory map.
        let protectedBytes := if add64 addr protectedBytes < vmaBase.base then
            add64 protectedBytes (sub64 vmaBase.base (add64 addr protectedBytes))
          else protectedBytes
        let (result, s) ← s.protectBytes (add64 addr protectedBytes) vmaBase
          (sub64 size protectedBytes) prot
        -- The result is an `s64`.
        if 0x8000000000000000 ≤ result then return (toS32 result, s)
        else protectLoop addr size prot rounds (add64 protectedBytes result) s
      else pure (orbisOk, s)

def protect (s : MemoryManager) (addr : ℕ) (size : ℕ) (prot : MemoryProt) :
    Exec (ℤ × MemoryManager) :=
  if size = 0 then pure (orbisOk, s)
  else do
    assertMsg (s.isValidMapping addr size) "Attempted to access invalid address"
    protectLoop addr size prot (size + 1) 0 s

/-- The inner loop of `SetDirectMemoryType` over the physical areas of a carved area.
The areas carved out of `dmem_map` are not merged again. -/
def retypePhysAreas (memoryType : ℤ) :
    List (ℕ × PhysicalMemoryArea) → PhysMap → PhysMap → Exec (PhysMap × PhysMap)
  | [], physAreas, dmemMap => pure (physAreas, dmemMap)
  | (offset, area) :: rest, physAreas, dmemMap => do
      -- Update internal physical areas
      let physAreas := physAreas.modify offset fun area =>
        { area with memoryType := memoryType }
      -- Carve a new dmem area in dmem_map, update memory type there
      let (dmemMap, handle) ← carvePhysArea dmemMap area.base area.size
      let dmemMap := dmemMap.modify handle fun area => { area with memoryType := memoryType }
      retypePhysAreas memoryType rest physAreas dmemMap

/-- The step of `SetDirectMemoryType` on one virtual area: the map, the handle to go on
from and the direct memory. -/
def retypeArea (s : MemoryManager) (memoryType : ℤ) (vmaHandle : ℕ) (currentAddr : ℕ)
    (sizeInVma : ℕ) : Exec (ℕ × MemoryManager) := do
  let vma ← deref s.vmaMap vmaHandle
  -- Direct and Pooled mappings are the only ones with a memory type.
  if vma.type = .direct ∨ vma.type = .pooled then
    let (vmaMap, handle) ← carveVMA s.vmaMap currentAddr sizeInVma
    let vma ← deref vmaMap handle
    let (physAreas, dmemMap) ←
      retypePhysAreas memoryType vma.physAreas.entries vma.physAreas s.dmemMap
    return (handle,
      { s with
        vmaMap := vmaMap.modify handle fun vma => { vma with physAreas := physAreas }
        dmemMap := dmemMap })
  else return (vmaHandle, s)

/-- The loop of `SetDirectMemoryType`; a handle `none` is `end ()`. -/
def setTypeLoop (memoryType : ℤ) :
    ℕ → Option ℕ → ℕ → ℕ → MemoryManager → Exec MemoryManager
  | _, none, _, _, s => pure s
  | 0, some _, _, _, _ => throw .diverges
  | rounds + 1, some vmaHandle, currentAddr, remainingSize, s =>
      if remainingSize = 0 then pure s
      else do
        -- Calculate position in vma
        let vma ← deref s.vmaMap vmaHandle
        let startInVma := sub64 currentAddr vma.base
        let sizeInVma := min remainingSize (sub64 vma.size startInVma)
        let (vmaHandle, s) ← s.retypeArea memoryType vmaHandle currentAddr sizeInVma
        let currentAddr := add64 currentAddr sizeInVma
        let remainingSize := sub64 remainingSize sizeInVma
        -- Check if VMA can be merged with adjacent areas after modifications.
        let (vmaMap, vmaHandle) ← mergeAdjacentVMA s.vmaMap vmaHandle
        let vma ← deref vmaMap vmaHandle
        let next := if add64 vma.base vma.size ≤ currentAddr then
            -- If we're now in the next VMA, then go to the next handle.
            (vmaMap.next vmaHandle).map Prod.fst
          else some vmaHandle
        setTypeLoop memoryType rounds next currentAddr remainingSize { s with vmaMap := vmaMap }

def setDirectMemoryType (s : MemoryManager) (addr : ℕ) (size : ℕ) (memoryType : ℤ) :
    Exec MemoryManager := do
  assertMsg (s.isValidMapping addr size) "Attempted to access invalid address"
  let (vmaHandle, _) ← findArea s.vmaMap addr
  setTypeLoop memoryType (size + 1) (some vmaHandle) addr size s

def nameArea (vmaMap : VMAMap) (name : String) (handle : ℕ) (currentAddr : ℕ)
    (sizeInVma : ℕ) : Exec (VMAMap × ℕ) := do
  let vma ← deref vmaMap handle
  -- Nothing needs to be done to free VMAs
  if vma.isFree then return (vmaMap, handle)
  else if sizeInVma < vma.size then
    let (vmaMap, handle) ← carveVMA vmaMap currentAddr sizeInVma
    return (vmaMap.modify handle fun newVma => { newVma with name := name }, handle)
  else
    return (vmaMap.modify handle fun vma => { vma with name := name }, handle)

/-- The loop of `NameVirtualRange`; a handle `none` is `end ()`. -/
def nameLoop (name : String) : ℕ → Option ℕ → ℕ → ℕ → VMAMap → Exec VMAMap
  | _, none, _, _, vmaMap => pure vmaMap
  | 0, some _, _, _, _ => throw .diverges
  | rounds + 1, some handle, currentAddr, remainingSize, vmaMap =>
      if remainingSize = 0 then pure vmaMap
      else do
        let vma ← deref vmaMap handle
        let startInVma := sub64 currentAddr vma.base
        let sizeInVma := min remainingSize (sub64 vma.size startInVma)
        let (vmaMap, handle) ← nameArea vmaMap name handle currentAddr sizeInVma
        let remainingSize := sub64 remainingSize sizeInVma
        let currentAddr := add64 currentAddr sizeInVma
        -- Check if VMA can be merged with adjacent areas after modifications.
        let (vmaMap, handle) ← mergeAdjacentVMA vmaMap handle
        let vma ← deref vmaMap handle
        let next := if add64 vma.base vma.size ≤ currentAddr then
            (vmaMap.next handle).map Prod.fst
          else some handle
        nameLoop name rounds next currentAddr remainingSize vmaMap

def nameVirtualRange (s : MemoryManager) (virtualAddr : ℕ) (size : ℕ) (name : String) :
    Exec MemoryManager := do
  -- Sizes are aligned up, addresses are aligned down to the nearest 16_KB
  let alignedSize := alignUp size pageSize
  let alignedAddr := alignDown virtualAddr pageSize
  assertMsg (s.isValidMapping alignedAddr alignedSize) "Attempted to access invalid address"
  let (handle, _) ← findArea s.vmaMap alignedAddr
  let vmaMap ← nameLoop name (alignedSize + 1) (some handle) alignedAddr alignedSize s.vmaMap
  return { s with vmaMap := vmaMap }

end MemoryManager

end OrbitConsole.Memory
