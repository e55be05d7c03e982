import OrbitConsole.Core.Memory.Attributes

/-!
# Set-up and runs

The constructor of `MemoryManager` and `SetupMemoryRegions` build the first
state; after that a run is any sequence of the eleven calls that change the
three maps. Arguments are `u64` values, as the guest passes them.
-/

namespace OrbitConsole.Memory

def mb : ℕ := 0x100000

def totalMem : ℕ := 5248 * mb
def totalMemPro : ℕ := 5888 * mb
def totalMemDev : ℕ := 6656 * mb
def totalMemDevPro : ℕ := 7936 * mb
def flexibleMemoryBase : ℕ := 64 * mb
def flexibleMemorySize : ℕ := 512 * mb

/-- `impl.GetUsableRegions ()`: the separate, nonempty regions `[lower, upper)` the host
could reserve. User-space addresses stay far below `2 ^ 63`. -/
structure UsableRegions where
  regions : List (ℕ × ℕ)
  separate : regions.Pairwise (fun a b => a.2 ≤ b.1)
  nonempty : ∀ r ∈ regions, r.1 < r.2
  bounded : ∀ r ∈ regions, r.2 ≤ 9223372036854775808

namespace UsableRegions

def addresses (u : UsableRegions) : Set ℕ :=
  {x | ∃ r ∈ u.regions, r.1 ≤ x ∧ x < r.2}

end UsableRegions

/-- What the settings, the console mode and the program's parameters fix before the
first call. -/
structure Config where
  regions : UsableRegions
  isNeo : Bool
  isDevKit : Bool
  /-- `EmulatorSettings.GetExtraDmemInMBytes ()` -/
  extraDmem : ℤ
  flexibleSize : UInt64
  useExtendedMem1 : Bool
  useExtendedMem2 : Bool
  sdkVersion : ℕ
  systemManagedVirtualBase : ℕ
  userVirtualEnd : ℕ

def addExtraDmem (totalSize : ℕ) (extraDmem : ℤ) : ℕ :=
  ((totalSize + extraDmem * mb) % 18446744073709551616).toNat

namespace MemoryManager

def construct (cfg : Config) : MemoryManager :=
  let totalSize := addExtraDmem totalMemDevPro cfg.extraDmem
  { vmaMap := cfg.regions.regions.foldl (fun vmaMap region =>
      vmaMap.emplace region.1 { base := region.1, size := sub64 region.2 region.1 })
      OrderedMap.empty
    dmemMap := OrderedMap.empty.emplace 0 { base := 0, size := totalSize }
    fmemMap := OrderedMap.empty.emplace totalSize
      { base := totalSize, size := flexibleMemorySize }
    totalDirectSize := totalSize
    totalFlexibleSize := flexibleMemorySize
    flexibleUsage := 0
    poolBudget := 0
    sdkVersion := cfg.sdkVersion
    systemManagedVirtualBase := cfg.systemManagedVirtualBase
    userVirtualEnd := cfg.userVirtualEnd }

/-- The size of the memory the console has for games, before the flexible part is taken
from it. -/
def consoleMem (cfg : Config) : ℕ :=
  let totalSize := if cfg.isNeo then totalMemPro else totalMem
  let totalSize := if cfg.isDevKit then
      if cfg.isNeo then totalMemDevPro else totalMemDev
    else totalSize
  let totalSize := addExtraDmem totalSize cfg.extraDmem
  let totalSize := if !cfg.useExtendedMem1 && cfg.isNeo then
      sub64 totalSize (256 * mb)
    else totalSize
  if !cfg.useExtendedMem2 && !cfg.isNeo then sub64 totalSize (128 * mb) else totalSize

def setupMemoryRegions (s : MemoryManager) (cfg : Config) : Exec MemoryManager := do
  let totalSize := consoleMem cfg
  -- Update stored totals
  let totalFlexibleSize := sub64 cfg.flexibleSize.toNat flexibleMemoryBase
  assertMsg (s.flexibleUsage ≤ totalFlexibleSize) "Unable to shrink flexible memory size"
  let oldDirectSize := s.totalDirectSize
  let totalDirectSize := sub64 totalSize cfg.flexibleSize.toNat
  -- Limit direct memory space to match actual limit
  let (handle, lastDmemArea) ← findArea s.dmemMap totalDirectSize
  assertMsg (lastDmemArea.dmaType = .free ∧
    sub64 oldDirectSize totalDirectSize ≤ lastDmemArea.size) "Unable to shrink dmem map"
  return { s with
    dmemMap := s.dmemMap.modify handle fun area =>
      { area with size := sub64 area.size (sub64 oldDirectSize totalDirectSize) }
    totalDirectSize := totalDirectSize
    totalFlexibleSize := totalFlexibleSize }

end MemoryManager

/-- `s` is a freshly set up manager. The host holds a backing of the configured size, so
the configured sizes are real ones, and some direct memory is left for the guest. -/
def Fresh (cfg : Config) (s : MemoryManager) : Prop :=
  (MemoryManager.construct cfg).setupMemoryRegions cfg = .ok s ∧
    -(7936 : ℤ) ≤ cfg.extraDmem ∧ cfg.extraDmem < 2147483648 ∧ 0 < s.totalDirectSize

inductive Call where
  | allocate (searchStart searchEnd size alignment : UInt64) (memoryType : ℤ)
  | free (physAddr size : UInt64) (isChecked : Bool)
  | poolExpand (searchStart searchEnd size alignment : UInt64)
  | poolCommit (virtualAddr size : UInt64) (prot : MemoryProt) (mtype : ℤ)
  | poolDecommit (virtualAddr size : UInt64)
  | mapMemory (virtualAddr size : UInt64) (prot : MemoryProt) (flags : MemoryMapFlags)
      (type : VMAType) (name : String) (validateDmem : Bool) (physAddr alignment : UInt64)
  | mapFile (virtualAddr size : UInt64) (prot : MemoryProt) (flags : MemoryMapFlags)
      (fd : ℤ) (file : Option MemoryManager.HostFile)
  | unmapMemory (virtualAddr size : UInt64)
  | protect (addr size : UInt64) (prot : MemoryProt)
  | setDirectMemoryType (addr size : UInt64) (memoryType : ℤ)
  | nameVirtualRange (virtualAddr size : UInt64) (name : String)

namespace Call

/-- What every caller in the repository keeps to: areas of type Pooled are made by
`PoolCommit` only, and `sceKernelAllocateDirectMemory` refuses a negative start. -/
def Promised : Call → Prop
  | allocate searchStart _ _ _ _ => searchStart.toNat < 9223372036854775808
  | mapMemory _ _ _ _ type _ _ _ _ => type ≠ .pooled
  | _ => True

def exec (s : MemoryManager) : Call → Exec MemoryManager
  | allocate searchStart searchEnd size alignment memoryType =>
      Prod.snd <$> s.allocate searchStart.toNat searchEnd.toNat size.toNat alignment.toNat
        memoryType
  | free physAddr size isChecked =>
      Prod.snd <$> s.free physAddr.toNat size.toNat isChecked
  | poolExpand searchStart searchEnd size alignment =>
      Prod.snd <$> s.poolExpand searchStart.toNat searchEnd.toNat size.toNat alignment.toNat
  | poolCommit virtualAddr size prot mtype =>
      Prod.snd <$> s.poolCommit virtualAddr.toNat size.toNat prot mtype
  | poolDecommit virtualAddr size =>
      Prod.snd <$> s.poolDecommit virtualAddr.toNat size.toNat
  | mapMemory virtualAddr size prot flags type name validateDmem physAddr alignment =>
      (fun r => r.2.2) <$> s.mapMemory virtualAddr.toNat size.toNat prot flags type name
        validateDmem physAddr.toNat alignment.toNat
  | mapFile virtualAddr size prot flags fd file =>
      (fun r => r.2.2) <$> s.mapFile virtualAddr.toNat size.toNat prot flags fd file
  | unmapMemory virtualAddr size => s.unmapMemory virtualAddr.toNat size.toNat
  | protect addr size prot => Prod.snd <$> s.protect addr.toNat size.toNat prot
  | setDirectMemoryType addr size memoryType =>
      s.setDirectMemoryType addr.toNat size.toNat memoryType
  | nameVirtualRange virtualAddr size name =>
      s.nameVirtualRange virtualAddr.toNat size.toNat name

end Call

/-- The states some sequence of returning calls leads to, each call meeting `ok` in the
state it is made in. -/
inductive Reachable (ok : MemoryManager → Call → Prop) (s₀ : MemoryManager) :
    MemoryManager → Prop
  | start : Reachable ok s₀ s₀
  | call {s s' : MemoryManager} {c : Call} (h : Reachable ok s₀ s) (hok : ok s c)
      (hs : c.exec s = .ok s') : Reachable ok s₀ s'

theorem Reachable.invariant {ok : MemoryManager → Call → Prop} {s₀ s : MemoryManager}
    {P : MemoryManager → Prop} (h : Reachable ok s₀ s) (hstart : P s₀)
    (hcall : ∀ s s' c, P s → ok s c → Call.exec s c = .ok s' → P s') : P s := by
  induction h with
  | start => exact hstart
  | call _ hok hs ih => exact hcall _ _ _ ih hok hs

def runCalls (s : MemoryManager) (calls : List Call) : Exec MemoryManager :=
  calls.foldlM Call.exec s

theorem runCalls_reachable {ok : MemoryManager → Call → Prop} {s₀ s s' : MemoryManager}
    {calls : List Call} (h : Reachable ok s₀ s)
    (hok : ∀ c ∈ calls, ∀ s, ok s c) (hs : runCalls s calls = .ok s') :
    Reachable ok s₀ s' := by
  induction calls generalizing s with
  | nil =>
      simp only [runCalls, List.foldlM_nil, Exec.pure_eq_ok] at hs
      exact hs ▸ h
  | cons c calls ih =>
      simp only [runCalls, List.foldlM_cons, Exec.bind_eq_ok] at hs
      obtain ⟨s₁, hs₁, hs⟩ := hs
      exact ih (h.call (hok c (by simp) s) hs₁) (fun c hc => hok c (by simp [hc])) hs

/-! ### A console -/

def Config.retail : Config where
  regions := ⟨[(0x400000, 0x800000), (0x200000000, 0x200100000)], by simp, by simp, by simp⟩
  isNeo := false
  isDevKit := false
  extraDmem := 0
  flexibleSize := 0x1c000000
  useExtendedMem1 := true
  useExtendedMem2 := true
  sdkVersion := 0x2500000
  systemManagedVirtualBase := 0x400000
  userVirtualEnd := 0x200100000

/-- The state set-up leaves. -/
def Config.start (cfg : Config) : MemoryManager :=
  match (MemoryManager.construct cfg).setupMemoryRegions cfg with
  | .ok s => s
  | .error _ => MemoryManager.construct cfg

theorem fresh_retail : Fresh Config.retail Config.retail.start :=
  ⟨rfl, by decide, by decide, by decide⟩

theorem exists_of_toBool {α : Type} {x : Exec α} (h : x.toBool = true) : ∃ a, x = .ok a := by
  cases x with
  | error e => cases h
  | ok a => exact ⟨a, rfl⟩

theorem exists_of_any {α : Type} {x : Exec α} {p : α → Bool} (h : x.toOption.any p = true) :
    ∃ a, x = .ok a ∧ p a = true := by
  cases x with
  | error e => cases h
  | ok a => exact ⟨a, rfl, h⟩

end OrbitConsole.Memory
