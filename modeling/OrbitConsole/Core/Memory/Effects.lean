import OrbitConsole.Core.Memory.AttributesSpec

/-!
# What a call does

`Effect L s c s'` collects what the eleven calls can do to a state, and
`Call.exec_effect` says that they do nothing else. Every invariant of the
manager is proved from it, one case for each constructor.
-/

namespace OrbitConsole.Memory

open Exec

variable {L : Layout} {s s' : MemoryManager} {c : Call}

structure Regular (L : Layout) (s : MemoryManager) : Prop extends WellFormed L s where
  usage_lt : s.flexibleUsage < 18446744073709551616
  budget_lt : s.poolBudget < 18446744073709551616

def poolAlignment (alignment : UInt64) : ℕ :=
  if 0 < alignment.toNat then alignment.toNat else poolPageSize

/-- The range `UnmapMemory` unmaps. -/
def alignedRange (addr size : UInt64) : Set ℕ :=
  Set.Ico (alignDown addr.toNat pageSize)
    (alignDown addr.toNat pageSize + alignUp size.toNat pageSize)

inductive Effect (L : Layout) (s : MemoryManager) : Call → MemoryManager → Prop
  | unchanged (c : Call) : Effect L s c s
  | allocated {searchStart searchEnd size alignment : UInt64} {memoryType : ℤ} {start : ℕ}
      {dmem : PhysMap}
      (h : Taken L start size.toNat ⟨memoryType, .allocated⟩
        (searchStart.toNat < 9223372036854775808) s.dmemMap dmem) :
      Effect L s (.allocate searchStart searchEnd size alignment memoryType)
        { s with dmemMap := dmem }
  | expanded {searchStart searchEnd size alignment : UInt64} {start : ℕ} {dmem : PhysMap}
      (h : Taken L start size.toNat ⟨3, .pooled⟩
        (searchStart.toNat ≤ alignUp searchStart.toNat (poolAlignment alignment))
        s.dmemMap dmem) :
      Effect L s (.poolExpand searchStart searchEnd size alignment)
        { s with dmemMap := dmem, poolBudget := add64 s.poolBudget size.toNat }
  | freed {physAddr size : UInt64} {isChecked : Bool} {s₁ s' : MemoryManager}
      (h : Freed L physAddr.toNat size.toNat s s₁ s') :
      Effect L s (.free physAddr size isChecked) s'
  | committed {virtualAddr size : UInt64} {prot : MemoryProt} {mtype : ℤ} {pa : PhysMap}
      {s' : MemoryManager}
      (h : Committed L virtualAddr.toNat size.toNat (withRead prot) mtype s s' pa) :
      Effect L s (.poolCommit virtualAddr size prot mtype) s'
  | decommitted {virtualAddr size : UInt64} {s' : MemoryManager}
      (h : Decommitted L (Set.Ico virtualAddr.toNat (virtualAddr.toNat + size.toNat)) s s') :
      Effect L s (.poolDecommit virtualAddr size) s'
  | mapped {virtualAddr size : UInt64} {prot : MemoryProt} {flags : MemoryMapFlags}
      {type : VMAType} {name : String} {validateDmem : Bool} {physAddr alignment : UInt64}
      {target : ℕ} {s' : MemoryManager}
      (h : Mapped L target size.toNat flags (withRead prot) type name physAddr.toNat s s')
      (hfixed : hasFlag flags MemoryMapFlags.fixed = true → target = virtualAddr.toNat)
      (hlimit : type = .flexible →
        add64 s.flexibleUsage size.toNat ≤ s.totalFlexibleSize)
      (hdmem : type = .direct → ∀ p, physAddr.toNat ≤ p → p < physAddr.toNat + size.toNat →
        ∃ l, labels s.dmemMap p = some l ∧ (l.dmaType = .allocated ∨ l.dmaType = .mapped) ∧
          (validateDmem = true → l.dmaType ≠ .mapped)) :
      Effect L s (.mapMemory virtualAddr size prot flags type name validateDmem physAddr
        alignment) s'
  | mappedFile {virtualAddr size : UInt64} {prot prot' : MemoryProt} {flags : MemoryMapFlags}
      {fd : ℤ} {file : Option MemoryManager.HostFile} {target : ℕ} {s' : MemoryManager}
      (h : Mapped L target size.toNat flags prot' .file "anon" 0 s s')
      (hfixed : hasFlag flags MemoryMapFlags.fixed = true → target = virtualAddr.toNat) :
      Effect L s (.mapFile virtualAddr size prot flags fd file) s'
  | unmapped {virtualAddr size : UInt64} {s' : MemoryManager}
      (hrange : alignedRange virtualAddr size ⊆ L.usable)
      (h : Unmapped L (alignedRange virtualAddr size) s s') :
      Effect L s (.unmapMemory virtualAddr size) s'
  | guarded {addr size : UInt64} {prot : MemoryProt} {m : VMAMap}
      (h : SameMapping L.usable s.vmaMap m) :
      Effect L s (.protect addr size prot) { s with vmaMap := m }
  | named {virtualAddr size : UInt64} {name : String} {m : VMAMap}
      (h : SameMapping L.usable s.vmaMap m) :
      Effect L s (.nameVirtualRange virtualAddr size name) { s with vmaMap := m }
  | retyped {addr size : UInt64} {memoryType : ℤ} {A : Set ℕ} {s' : MemoryManager}
      (h : Retyped L memoryType A s s')
      (hA : (A = Set.Ico addr.toNat (addr.toNat + size.toNat) ∧ A ⊆ L.usable) ∨
        A = ∅ ∧ addr.toNat ∉ L.usable) :
      Effect L s (.setDirectMemoryType addr size memoryType) s'

theorem Call.exec_effect (R : Regular L s) (hok : c.Promised) (h : c.exec s = .ok s') :
    Effect L s c s' := by
  have W := R.toWellFormed
  have husage := R.usage_lt
  cases c with
  | allocate searchStart searchEnd size alignment memoryType =>
      obtain ⟨r, hr, rfl⟩ := map_eq_ok.1 h
      rcases allocate_ok W searchStart.toNat_lt size.toNat_lt alignment.toNat_lt hr with
        heq | ⟨start, dmem, htaken, heq⟩
      · rw [heq]
        exact .unchanged _
      · rw [heq]
        exact .allocated htaken
  | free physAddr size isChecked =>
      obtain ⟨r, hr, rfl⟩ := map_eq_ok.1 h
      rcases free_ok W husage physAddr.toNat_lt size.toNat_lt hr with
        ⟨heq, -⟩ | ⟨s₁, hfreed⟩
      · rw [heq]
        exact .unchanged _
      · exact .freed hfreed
  | poolExpand searchStart searchEnd size alignment =>
      obtain ⟨r, hr, rfl⟩ := map_eq_ok.1 h
      rcases poolExpand_ok W searchStart.toNat_lt size.toNat_lt alignment.toNat_lt hr with
        heq | ⟨start, dmem, htaken, heq⟩
      · rw [heq]
        exact .unchanged _
      · rw [heq]
        exact .expanded htaken
  | poolCommit virtualAddr size prot mtype =>
      obtain ⟨r, hr, rfl⟩ := map_eq_ok.1 h
      rcases poolCommit_ok W virtualAddr.toNat_lt size.toNat_lt hr with heq | ⟨pa, hcommitted⟩
      · rw [heq]
        exact .unchanged _
      · exact .committed hcommitted
  | poolDecommit virtualAddr size =>
      obtain ⟨r, hr, rfl⟩ := map_eq_ok.1 h
      rcases poolDecommit_ok W R.budget_lt virtualAddr.toNat_lt size.toNat_lt hr with heq | hde
      · rw [heq]
        exact .unchanged _
      · exact .decommitted hde
  | mapMemory virtualAddr size prot flags type name validateDmem physAddr alignment =>
      obtain ⟨r, hr, rfl⟩ := map_eq_ok.1 h
      rcases mapMemory_ok W husage virtualAddr.toNat_lt size.toNat_lt physAddr.toNat_lt hok hr
        with heq | ⟨target, hmapped, hfixed, hlimit, hdmem⟩
      · rw [heq]
        exact .unchanged _
      · exact .mapped hmapped hfixed hlimit hdmem
  | mapFile virtualAddr size prot flags fd file =>
      obtain ⟨r, hr, rfl⟩ := map_eq_ok.1 h
      rcases mapFile_ok W husage virtualAddr.toNat_lt size.toNat_lt hr with
        heq | ⟨target, prot', hmapped, hfixed⟩
      · rw [heq]
        exact .unchanged _
      · exact .mappedFile hmapped hfixed
  | unmapMemory virtualAddr size =>
      rcases unmapMemory_ok W husage virtualAddr.toNat_lt size.toNat_lt h with
        rfl | ⟨hrange, hun⟩
      · exact .unchanged _
      · exact .unmapped hrange hun
  | protect addr size prot =>
      obtain ⟨r, hr, rfl⟩ := map_eq_ok.1 h
      obtain ⟨hsame, hrest⟩ := protect_ok W.vma hr
      rw [hrest]
      exact .guarded hsame
  | setDirectMemoryType addr size memoryType =>
      obtain ⟨A, hret, hA⟩ := setDirectMemoryType_ok W addr.toNat_lt size.toNat_lt h
      exact .retyped hret hA
  | nameVirtualRange virtualAddr size name =>
      obtain ⟨hsame, hrest⟩ := nameVirtualRange_ok W.vma virtualAddr.toNat_lt size.toNat_lt h
      rw [hrest]
      exact .named hsame

/-! ### Regularity -/

theorem Unmapped.regular {A : Set ℕ} (h : Unmapped L A s s') (R : Regular L s) :
    Regular L s' := by
  refine ⟨h.wellFormed R.toWellFormed, h.usage_lt, ?_⟩
  rw [h.rest]
  exact R.budget_lt

theorem Mapped.regular {target size physAddr : ℕ} {flags : MemoryMapFlags} {prot : MemoryProt}
    {type : VMAType} {name : String}
    (h : Mapped L target size flags prot type name physAddr s s') (R : Regular L s) :
    Regular L s' := by
  obtain ⟨W, husage⟩ := h.wellFormed R.toWellFormed
  obtain ⟨s₀, pa, hun, -, hcreated⟩ := h.created
  refine ⟨W, husage, ?_⟩
  have hbudget : s'.poolBudget = s₀.poolBudget := hcreated.backed.poolBudget_eq
  rw [hbudget]
  exact (hun.regular R).budget_lt

theorem Effect.regular (h : Effect L s c s') (R : Regular L s) : Regular L s' := by
  have W := R.toWellFormed
  cases h with
  | unchanged => exact R
  | allocated h =>
      exact ⟨⟨W.vma, h.ok, W.fmem, W.direct_eq, W.flexible_eq⟩, R.usage_lt, R.budget_lt⟩
  | expanded h =>
      exact ⟨⟨W.vma, h.ok, W.fmem, W.direct_eq, W.flexible_eq⟩, R.usage_lt, add64_lt _ _⟩
  | @freed _ _ _ s₁ _ h =>
      have R₁ := h.unmapped.regular R
      rw [h.rest]
      exact ⟨⟨R₁.vma, h.dmem.ok, R₁.fmem, R₁.direct_eq, R₁.flexible_eq⟩, R₁.usage_lt,
        R₁.budget_lt⟩
  | committed h =>
      rw [h.rest]
      exact ⟨⟨h.ok, h.backed.effect.ok, W.fmem, W.direct_eq, W.flexible_eq⟩, R.usage_lt,
        sub64_lt _ _⟩
  | decommitted h =>
      refine ⟨h.wellFormed W, ?_, h.budget_lt⟩
      rw [h.rest]
      exact R.usage_lt
  | mapped h _ _ _ => exact h.regular R
  | mappedFile h _ => exact h.regular R
  | unmapped _ h => exact h.regular R
  | guarded h =>
      exact ⟨⟨h.ok, W.dmem, W.fmem, W.direct_eq, W.flexible_eq⟩, R.usage_lt, R.budget_lt⟩
  | named h =>
      exact ⟨⟨h.ok, W.dmem, W.fmem, W.direct_eq, W.flexible_eq⟩, R.usage_lt, R.budget_lt⟩
  | retyped h _ =>
      refine ⟨h.wellFormed W, ?_, ?_⟩
      · rw [h.rest]
        exact R.usage_lt
      · rw [h.rest]
        exact R.budget_lt

end OrbitConsole.Memory
