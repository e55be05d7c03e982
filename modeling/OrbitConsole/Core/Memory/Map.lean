import OrbitConsole.Core.Memory.Direct

/-!
# Mapping: `SearchFree`, `CreateArea`, `MapMemory` and `MapFile`
-/

namespace OrbitConsole.Memory

def defaultMappingBase : ℕ := 0x200000000

def fw200 : ℕ := 0x2000000

/-- The loop of `SearchFree` over the areas after the first one looked at. -/
def searchFreeRun (size alignment maxSearchAddress : ℕ) :
    List (ℕ × VirtualMemoryArea) → ℕ
  | [] => invalidAddr
  | (_, vma) :: rest =>
      if !vma.isFree then searchFreeRun size alignment maxSearchAddress rest
      else
        let virtualAddr := alignUp vma.base alignment
        -- Sometimes the alignment itself might be larger than the VMA.
        if add64 vma.base vma.size < virtualAddr then
          searchFreeRun size alignment maxSearchAddress rest
        else if maxSearchAddress ≤ virtualAddr then invalidAddr
        else if size ≤ sub64 (add64 vma.base vma.size) virtualAddr then virtualAddr
        else searchFreeRun size alignment maxSearchAddress rest

/-- The check `MapMemory` makes of the requested direct memory before it changes
anything, from `FindDmemArea (phys_addr)` on: the error, if there is one. -/
def checkDmemRun (validateDmem : Bool) (physEnd : ℕ) :
    List (ℕ × PhysicalMemoryArea) → Option ℤ
  | [] => none
  | (_, area) :: rest =>
      if area.base < physEnd then
        if area.dmaType ≠ .allocated ∧ area.dmaType ≠ .mapped then some errorEnomem
        else if validateDmem ∧ area.dmaType = .mapped then some errorEbusy
        else checkDmemRun validateDmem physEnd rest
      else none

/-- The running values of a loop that backs a new virtual area piece by piece. -/
structure Backing where
  map : PhysMap
  physAreas : PhysMap
  remainingSize : ℕ
  currentAddr : ℕ
  usage : ℕ

namespace Backing

/-- One piece: relabel `[physAddr, physAddr + size)` and add it to the areas of the
virtual area at `offset`. Also returns the handle of the relabelled area. -/
def add (b : Backing) (physAddr : ℕ) (size offset : ℕ)
    (f : PhysicalMemoryArea → PhysicalMemoryArea) : Exec (Backing × ℕ) := do
  let (map, handle, area) ← relabelPhysArea b.map physAddr size f
  let (physAreas, _) ← mergeAdjacentPhys (b.physAreas.insert offset area) offset
  return ({ map := map
            physAreas := physAreas
            remainingSize := sub64 b.remainingSize size
            currentAddr := add64 b.currentAddr size
            usage := add64 b.usage size }, handle)

/-- The loop of `MapMemory` over `fmem_map` and of `PoolCommit` over `dmem_map`: take
the areas of type `wanted` from `handle` on, `none` being `end ()`. -/
def scatter (wanted : PhysicalMemoryType) (f : PhysicalMemoryArea → PhysicalMemoryArea)
    (mappedAddr : ℕ) : ℕ → Option ℕ → Backing → Exec Backing
  | _, none, b => pure b
  | 0, some _, _ => throw .diverges
  | rounds + 1, some handle, b =>
      if b.remainingSize = 0 then pure b
      else do
        let area ← deref b.map handle
        if area.dmaType ≠ wanted then
          scatter wanted f mappedAddr rounds ((b.map.next handle).map Prod.fst) b
        else
          let sizeToMap := min b.remainingSize area.size
          let (b, handle) ← b.add area.base sizeToMap (sub64 b.currentAddr mappedAddr) f
          scatter wanted f mappedAddr rounds ((b.map.next handle).map Prod.fst) b

def direct (physAddr : ℕ) : ℕ → Backing → Exec Backing
  | 0, _ => throw .diverges
  | rounds + 1, b =>
      if b.remainingSize = 0 then pure b
      else do
        let (_, area) ← findArea b.map b.currentAddr
        let startPhysAddr := max b.currentAddr area.base
        let offsetInDma := sub64 startPhysAddr area.base
        let sizeInDma := min (sub64 area.size offsetInDma) b.remainingSize
        let (b, _) ← b.add startPhysAddr sizeInDma (sub64 b.currentAddr physAddr) fun area =>
          { area with dmaType := .mapped }
        direct physAddr rounds b

end Backing

namespace MemoryManager

def searchFree (s : MemoryManager) (virtualAddr : ℕ) (size alignment : ℕ) :
    Exec ℕ := do
  -- If the requested address is below the mapped range, start search from the lowest address
  let virtualAddr := max virtualAddr s.systemManagedVirtualBase
  assertMsg (s.isValidMapping virtualAddr 0) "Input address is out of bounds"
  -- The alignment is a `u32` here.
  let alignment := alignment % 0x100000000
  if alignment = 0 then throw .undefined
  else
    let virtualAddr := alignUp virtualAddr alignment
    let (handle, vma) ← findArea s.vmaMap virtualAddr
    if vma.isFree && vma.contains virtualAddr size then return virtualAddr
    else
      return searchFreeRun size alignment s.userVirtualEnd
        (s.vmaMap.entriesFrom handle).tail

/-- The loop of `CreateArea` that unmaps what a Fixed mapping overwrites. -/
def createAreaUnmap : ℕ → ℕ → ℕ → VirtualMemoryArea → MemoryManager →
    Exec MemoryManager
  | 0, _, _, _, _ => throw .diverges
  | rounds + 1, unmapAddr, unmapSize, vma, s =>
      if unmapSize = 0 then pure s
      else do
        let (unmapped, s) ← s.unmapBytesFromEntry unmapAddr vma unmapSize
        let unmapAddr := add64 unmapAddr unmapped
        let unmapSize := sub64 unmapSize unmapped
        let (_, vma) ← findArea s.vmaMap unmapAddr
        createAreaUnmap rounds unmapAddr unmapSize vma s

def createArea (s : MemoryManager) (virtualAddr : ℕ) (size : ℕ) (prot : MemoryProt)
    (flags : MemoryMapFlags) (type : VMAType) (name : String) :
    Exec (ℕ × MemoryManager) := do
  let (_, vma) ← findArea s.vmaMap virtualAddr
  let s ← (if hasFlag flags MemoryMapFlags.fixed then
      createAreaUnmap (size + 1) virtualAddr size vma s
    else pure s)
  let (_, vma) ← findArea s.vmaMap virtualAddr
  assertMsg (vma.isFree) "VMA to map is not free"
  -- Create a memory area representing this mapping.
  let (vmaMap, handle) ← carveVMA s.vmaMap virtualAddr size
  let prot := if hasFlag prot MemoryProt.cpuWrite then prot ||| MemoryProt.cpuRead else prot
  let vmaMap := vmaMap.modify handle fun newVma =>
    { newVma with
      disallowMerge := hasFlag flags MemoryMapFlags.noCoalesce
      prot := prot
      name := name
      type := type
      physAreas := OrderedMap.empty }
  return (handle, { s with vmaMap := vmaMap })

/-- The choice of the address in `MapMemory` and `MapFile`: a Fixed mapping keeps its
address (and must not overwrite anything under NoOverwrite), any other searches for a
free one. `none` is the return with `ENOMEM`. -/
def placeMapping (s : MemoryManager) (virtualAddr : ℕ) (size : ℕ)
    (flags : MemoryMapFlags) (alignment : ℕ) : Exec (Option ℕ) :=
  if hasFlag flags MemoryMapFlags.fixed && hasFlag flags MemoryMapFlags.noOverwrite then do
    assertMsg (s.isValidMapping virtualAddr size) "Attempted to access invalid address"
    let (_, vma) ← findArea s.vmaMap virtualAddr
    let remainingSize := sub64 (add64 vma.base vma.size) virtualAddr
    if !vma.isFree ∨ remainingSize < size then return none
    else return some virtualAddr
  else if !hasFlag flags MemoryMapFlags.fixed then do
    let virtualAddr := if virtualAddr = 0 then defaultMappingBase else virtualAddr
    let virtualAddr ← s.searchFree virtualAddr size alignment
    if virtualAddr = invalidAddr then return none
    else return some virtualAddr
  else pure (some virtualAddr)

def backArea (s : MemoryManager) (handle mappedAddr : ℕ) (size : ℕ) (type : VMAType)
    (physAddr : ℕ) : Exec MemoryManager :=
  match type with
  | .flexible => do
      let b ← Backing.scatter .free (fun area => { area with dmaType := .flexible })
        mappedAddr (s.fmemMap.entries.length + 2) (s.fmemMap.first.map Prod.fst)
        { map := s.fmemMap
          physAreas := OrderedMap.empty
          remainingSize := size
          currentAddr := mappedAddr
          usage := s.flexibleUsage }
      assertMsg (b.remainingSize = 0) "Failed to map physical memory"
      return { s with
        fmemMap := b.map
        flexibleUsage := b.usage
        vmaMap := s.vmaMap.modify handle fun vma => { vma with physAreas := b.physAreas } }
  | .direct => do
      let b ← Backing.direct physAddr (size + 1)
        { map := s.dmemMap
          physAreas := OrderedMap.empty
          remainingSize := size
          currentAddr := physAddr
          usage := 0 }
      assertMsg (b.remainingSize = 0) "Failed to map physical memory"
      return { s with
        dmemMap := b.map
        vmaMap := s.vmaMap.modify handle fun vma => { vma with physAreas := b.physAreas } }
  | _ => pure s

/-- The result of a mapping call: the error code and, on success, the address. -/
abbrev MapResult := ℤ × Option ℕ × MemoryManager

def validateDmemRange (s : MemoryManager) (physAddr size : ℕ) (validateDmem : Bool) :
    Exec (Option ℤ) :=
  if physAddr ≠ invalidAddr then do
    let (handle, _) ← findArea s.dmemMap physAddr
    return checkDmemRun validateDmem (add64 physAddr size) (s.dmemMap.entriesFrom handle)
  else pure none

/-- The rest of `MapMemory`, once the address is chosen. -/
def mapAt (s : MemoryManager) (virtualAddr size : ℕ) (prot : MemoryProt)
    (flags : MemoryMapFlags) (type : VMAType) (name : String) (physAddr : ℕ) :
    Exec MapResult := do
  -- Create VMA representing this mapping.
  let (handle, s) ← s.createArea virtualAddr size prot flags type name
  let newVma ← deref s.vmaMap handle
  let s ← s.backArea handle newVma.base size type physAddr
  if type ≠ .direct ∨ fw200 ≤ s.sdkVersion then
    -- Direct memory mappings only coalesce on SDK version 2.00 or later.
    let (vmaMap, _) ← mergeAdjacentVMA s.vmaMap handle
    return (orbisOk, some newVma.base, { s with vmaMap := vmaMap })
  else return (orbisOk, some newVma.base, s)

def mapMemory (s : MemoryManager) (virtualAddr : ℕ) (size : ℕ) (prot : MemoryProt)
    (flags : MemoryMapFlags) (type : VMAType) (name : String) (validateDmem : Bool)
    (physAddr : ℕ) (alignment : ℕ) : Exec MapResult :=
  if type = .flexible ∧ s.totalFlexibleSize < add64 s.flexibleUsage size then
    pure (errorEinval, none, s)
  else if physAddr ≠ invalidAddr ∧ s.totalDirectSize < add64 physAddr size then
    pure (errorEnomem, none, s)
  else do
    -- Validate the requested physical address range
    let dmemError ← s.validateDmemRange physAddr size validateDmem
    match dmemError with
    | some error => return (error, none, s)
    | none =>
        let alignment := if 0 < alignment then alignment else pageSize
        let target ← s.placeMapping virtualAddr size flags alignment
        match target with
        | none => return (errorEnomem, none, s)
        | some virtualAddr => s.mapAt virtualAddr size prot flags type name physAddr

/-- What the handle table says of the file descriptor given to `MapFile`. -/
structure HostFile where
  isRegular : Bool
  /-- opened for writing or for appending -/
  isWritable : Bool

/-- The protection `MapFile` gives the mapping, before the check for GPU access. -/
def filePart (file : HostFile) (prot : MemoryProt) : MemoryProt :=
  let prot := if hasFlag prot MemoryProt.cpuWrite then prot ||| MemoryProt.cpuRead else prot
  if !file.isWritable then prot &&& ~~~MemoryProt.cpuWrite else prot

/-- `MapFile`; `file` is the entry of the handle table. -/
def mapFile (s : MemoryManager) (virtualAddr : ℕ) (size : ℕ) (prot : MemoryProt)
    (flags : MemoryMapFlags) (fd : ℤ) (file : Option HostFile) : Exec MapResult :=
  match file with
  | none => pure (errorEbadf, none, s)
  | some file =>
      if !file.isRegular then pure (errorEbadf, none, s)
      else do
        let prot := filePart file prot
        -- Files cannot be mapped to GPU memory
        assertMsg (prot < MemoryProt.gpuRead) "Files cannot be mapped to GPU memory"
        -- On real hardware, execute permissions are silently removed.
        let prot := prot &&& ~~~MemoryProt.cpuExec
        let target ← s.placeMapping virtualAddr size flags pageSize
        match target with
        | none => return (errorEnomem, none, s)
        | some virtualAddr =>
            let (handle, s) ← s.createArea virtualAddr size prot flags .file "anon"
            let newVma ← deref s.vmaMap handle
            return (orbisOk, some newVma.base,
              { s with vmaMap := s.vmaMap.modify handle fun vma => { vma with fd := fd } })

end MemoryManager

end OrbitConsole.Memory
