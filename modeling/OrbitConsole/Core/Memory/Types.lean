import OrbitConsole.Common.Machine
import OrbitConsole.Library.OrderedMap

/-!
# The data of the guest memory manager

Physical areas, virtual areas and the manager's state, as `memory.h` declares
them. The host side (`AddressSpace::Map`, `Unmap`, `Protect`, the backing
buffer) and the rasterizer are told about changes and never asked, so only the
two address-space bounds `SearchFree` reads are kept.
-/

namespace OrbitConsole.Memory

abbrev MemoryProt := UInt32

namespace MemoryProt

def noAccess : MemoryProt := 0
def cpuRead : MemoryProt := 1
def cpuWrite : MemoryProt := 2
def cpuExec : MemoryProt := 4
def gpuRead : MemoryProt := 16

end MemoryProt

abbrev MemoryMapFlags := UInt32

namespace MemoryMapFlags

def fixed : MemoryMapFlags := 0x10
def noOverwrite : MemoryMapFlags := 0x80
def noCoalesce : MemoryMapFlags := 0x400000

end MemoryMapFlags

def hasFlag (flags flag : UInt32) : Bool := flags &&& flag != 0

inductive PhysicalMemoryType where
  | free
  | allocated
  | mapped
  | pooled
  | committed
  | flexible
  deriving DecidableEq, Repr

structure PhysicalMemoryArea where
  base : ℕ := 0
  size : ℕ := 0
  memoryType : ℤ := 0
  dmaType : PhysicalMemoryType := .free
  deriving DecidableEq, Repr

namespace PhysicalMemoryArea

def getEnd (area : PhysicalMemoryArea) : ℕ := add64 area.base area.size

def canMergeWith (area next : PhysicalMemoryArea) : Bool :=
  if add64 area.base area.size ≠ next.base then false
  else if area.memoryType ≠ next.memoryType then false
  else if area.dmaType ≠ next.dmaType then false
  else true

end PhysicalMemoryArea

abbrev PhysMap := OrderedMap ℕ PhysicalMemoryArea

inductive VMAType where
  | free
  | reserved
  | direct
  | flexible
  | pooled
  | poolReserved
  | stack
  | code
  | file
  deriving DecidableEq, Repr

structure VirtualMemoryArea where
  base : ℕ := 0
  size : ℕ := 0
  physAreas : PhysMap := OrderedMap.empty
  type : VMAType := .free
  prot : MemoryProt := MemoryProt.noAccess
  name : String := ""
  fd : ℤ := 0
  disallowMerge : Bool := false

namespace VirtualMemoryArea

def contains (vma : VirtualMemoryArea) (addr : ℕ) (size : ℕ) : Bool :=
  addr ≥ vma.base && add64 addr size ≤ add64 vma.base vma.size

def isFree (vma : VirtualMemoryArea) : Bool := vma.type = .free

/-- Two Direct areas can only merge when the backing of the second continues that
of the first; without any backing the iterators dereferenced here are invalid. -/
def backingContinues (vma next : VirtualMemoryArea) : Exec Bool :=
  if vma.type = .direct ∧ next.type = .direct then
    match vma.physAreas.last, next.physAreas.first with
    | some (_, lastPhys), some (_, firstNextPhys) =>
        pure (add64 lastPhys.base lastPhys.size = firstNextPhys.base ∧
          lastPhys.memoryType = firstNextPhys.memoryType)
    | _, _ => throw .undefined
  else pure true

def canMergeWith (vma next : VirtualMemoryArea) : Exec Bool :=
  if vma.disallowMerge || next.disallowMerge then pure false
  else if add64 vma.base vma.size ≠ next.base then pure false
  else do
    let continues ← vma.backingContinues next
    if !continues then pure false
    else if vma.prot ≠ next.prot ∨ vma.type ≠ next.type then pure false
    else if vma.name ≠ next.name then pure false
    else pure true

end VirtualMemoryArea

abbrev VMAMap := OrderedMap ℕ VirtualMemoryArea

def hasPhysicalBacking (vma : VirtualMemoryArea) : Bool :=
  vma.type = .direct || vma.type = .flexible || vma.type = .pooled

structure MemoryManager where
  vmaMap : VMAMap
  dmemMap : PhysMap
  fmemMap : PhysMap
  totalDirectSize : ℕ
  totalFlexibleSize : ℕ
  flexibleUsage : ℕ
  poolBudget : ℕ
  sdkVersion : ℕ
  /-- `impl.SystemManagedVirtualBase ()` -/
  systemManagedVirtualBase : ℕ
  /-- `impl.UserVirtualBase () + impl.UserVirtualSize ()` -/
  userVirtualEnd : ℕ

end OrbitConsole.Memory
