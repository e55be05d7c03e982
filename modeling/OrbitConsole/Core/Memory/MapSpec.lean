import OrbitConsole.Core.Memory.BackingSpec

/-!
# What mapping does

`CreateArea` unmaps the range of a Fixed mapping, finds it free otherwise, and
carves a new area; the rest of `MapMemory` backs it. `Mapped` is the effect of
the whole call on the bytes of the state.
-/

namespace OrbitConsole.Memory

open Exec

variable {L : Layout} {s s' s₀ : MemoryManager} {addr size : ℕ} {prot : MemoryProt}
  {flags : MemoryMapFlags} {type : VMAType} {name : String}

/-! ### `CreateArea` -/

theorem createAreaUnmap_wellFormed (rounds : ℕ) {k : ℕ} {v : VirtualMemoryArea}
    (W : WellFormed L s) (husage : s.flexibleUsage < 18446744073709551616)
    (haddr : addr < 18446744073709551616) (hsize : size < 18446744073709551616)
    (hfloor : s.vmaMap.floor addr = some (k, v))
    (h : MemoryManager.createAreaUnmap rounds addr size v s = .ok s') :
    WellFormed L s' ∧ s'.flexibleUsage < 18446744073709551616 := by
  induction rounds generalizing addr size k v s with
  | zero => cases h
  | succ rounds ih =>
      rw [MemoryManager.createAreaUnmap] at h
      split at h
      · cases h
        exact ⟨W, husage⟩
      · obtain ⟨⟨u, s₁⟩, hu, hnext⟩ := bind_eq_ok.1 h
        obtain ⟨⟨k', v'⟩, hfind, hloop⟩ := bind_eq_ok.1 hnext
        have hfloor' := findArea_eq_ok.1 hfind
        rcases (unmapBytesFromEntry_spec W husage haddr hsize hfloor
          (fun h : False => h.elim)).2 _ hu with ⟨heq, -⟩ | ⟨-, -, -, hun⟩
        · obtain ⟨-, rfl⟩ := Prod.mk.inj heq
          exact ih W husage (add64_lt _ _) (sub64_lt _ _) hfloor' hloop
        · exact ih (hun.wellFormed W) hun.usage_lt (add64_lt _ _) (sub64_lt _ _) hfloor' hloop

theorem createAreaUnmap_ok (rounds : ℕ) {k : ℕ} {v : VirtualMemoryArea}
    (W : WellFormed L s) (husage : s.flexibleUsage < 18446744073709551616)
    (hrange : Set.Ico addr (addr + size) ⊆ L.usable)
    (hlt : addr + size ≤ 9223372036854775808)
    (hfloor : s.vmaMap.floor addr = some (k, v))
    (h : MemoryManager.createAreaUnmap rounds addr size v s = .ok s') :
    Unmapped L (Set.Ico addr (addr + size)) s s' := by
  induction rounds generalizing addr size k v s with
  | zero => cases h
  | succ rounds ih =>
      rw [MemoryManager.createAreaUnmap] at h
      split at h
      · next hzero =>
          cases h
          subst hzero
          rw [Nat.add_zero, Set.Ico_self]
          exact Unmapped.of_kept W husage fun x hx => absurd hx (Set.notMem_empty x)
      · next hpos =>
          obtain ⟨⟨u, s₁⟩, hu, hnext⟩ := bind_eq_ok.1 h
          obtain ⟨⟨k', v'⟩, hfind, hloop⟩ := bind_eq_ok.1 hnext
          have hfloor' := findArea_eq_ok.1 hfind
          obtain ⟨k₁, v₁, hfloor₁, hin⟩ :=
            floor_of_mem (x := addr) W.vma (hrange ⟨le_rfl, by omega⟩)
          obtain ⟨rfl, rfl⟩ : k₁ = k ∧ v₁ = v := by simpa [hfloor₁] using hfloor
          obtain ⟨hupos, hule, hun⟩ := (unmapRound_spec W husage hlt (by omega) hfloor₁ hin
            (fun h : False => h.elim)).2 _ hu
          simp only at hupos hule hun hfloor' hloop
          rw [add64_eq (by omega)] at hfloor' hloop
          rw [sub64_eq hule (by omega)] at hloop
          have hrest := ih (hun.wellFormed W) hun.usage_lt
            (fun x hx => hrange ⟨by have := hx.1; omega, by have := hx.2; omega⟩)
            (by omega) hfloor' hloop
          rw [show addr + u + (size - u) = addr + size by omega] at hrest
          have htrans := hun.trans hrest (Set.finite_Ico _ _) (Set.finite_Ico _ _)
          rwa [ico_split (by omega) (by omega)] at htrans

/-- The protection of a new area: on PS4, read is appended to write mappings. -/
def withRead (prot : MemoryProt) : MemoryProt :=
  if hasFlag prot MemoryProt.cpuWrite then prot ||| MemoryProt.cpuRead else prot

def createdArea (prot : MemoryProt) (flags : MemoryMapFlags) (type : VMAType) (name : String)
    (newVma : VirtualMemoryArea) : VirtualMemoryArea :=
  { newVma with
    disallowMerge := hasFlag flags MemoryMapFlags.noCoalesce
    prot := withRead prot
    name := name
    type := type
    physAreas := OrderedMap.empty }

theorem createArea_ok {handle : ℕ} (W : WellFormed L s)
    (husage : s.flexibleUsage < 18446744073709551616) (haddr : addr < 18446744073709551616)
    (hsize : size < 18446744073709551616)
    (h : s.createArea addr size prot flags type name = .ok (handle, s')) :
    handle = addr ∧ Set.Ico addr (addr + size) ⊆ L.usable ∧ 0 < size ∧
      ∃ s₀ m v, Unmapped L (Set.Ico addr (addr + size)) s s₀ ∧
        (hasFlag flags MemoryMapFlags.fixed = false → s₀ = s) ∧
        VmaCarved L.usable s₀.vmaMap addr size m ∧ m.get? addr = some v ∧ v.type = .free ∧
        s' = { s₀ with vmaMap := m.modify addr (createdArea prot flags type name) } := by
  obtain ⟨⟨k, v⟩, hfind, h⟩ := bind_eq_ok.1 h
  obtain ⟨s₀, hs₀, h⟩ := bind_eq_ok.1 h
  obtain ⟨⟨k', v'⟩, hfind', h⟩ := bind_eq_ok.1 h
  obtain ⟨_, hfree, h⟩ := bind_eq_ok.1 h
  obtain ⟨⟨m, handle'⟩, hcarve, h⟩ := bind_eq_ok.1 h
  rw [assertMsg_eq_ok] at hfree
  have hfloor := findArea_eq_ok.1 hfind
  have hfloor' := findArea_eq_ok.1 hfind'
  -- whatever the range is, the state the area is carved from is well formed
  have hW₀ : WellFormed L s₀ ∧ s₀.flexibleUsage < 18446744073709551616 := by
    split at hs₀
    · exact createAreaUnmap_wellFormed _ W husage haddr hsize hfloor hs₀
    · cases hs₀
      exact ⟨W, husage⟩
  obtain ⟨hhandle, hcarved⟩ := carveVMA_ok hW₀.1.vma haddr hsize hcarve
  obtain ⟨w, hw, hwsize, -, -, hpos, hcells⟩ := hcarved.area_eq
  have hrange := hcarved.subset hW₀.1.vma
  have hlast : addr + size - 1 < 9223372036854775808 :=
    hW₀.1.vma.lt_of_mem (hrange ⟨by omega, by omega⟩)
  obtain ⟨hk', hle', -⟩ := OrderedMap.floor_eq_some_iff.1 hfloor'
  obtain ⟨k₁, v₁, hk₁, hle₁, hend₁⟩ := hcarved.inside
  have hfloor₁ := hW₀.1.vma.tiles.floor_eq hk₁ hle₁ (by omega)
  obtain ⟨rfl, rfl⟩ : k' = k₁ ∧ v' = v₁ := by simpa [hfloor₁] using hfloor'.symm
  -- the carved area is part of the free area found before
  have hfreeCell : ∀ x ∈ Set.Ico addr (addr + size), ∀ c, cells s₀.vmaMap x = some c →
      c.type = .free := by
    rintro x ⟨hx, hx'⟩ c hc
    rw [hW₀.1.vma.cells_eq hk' (by omega) (by omega), Option.some.injEq] at hc
    subst hc
    change v'.type = .free
    simpa [VirtualMemoryArea.isFree] using hfree
  have hwfree : w.type = .free :=
    hfreeCell addr ⟨le_rfl, by omega⟩ _ (hcells addr le_rfl (by omega))
  cases h
  simp only at hhandle
  subst hhandle
  refine ⟨rfl, hrange, hpos, s₀, m, w, ?_, fun hfixed => ?_, hcarved, hw, hwfree, rfl⟩
  · split at hs₀
    · exact createAreaUnmap_ok _ W husage hrange (by omega) hfloor hs₀
    · cases hs₀
      exact Unmapped.of_kept W husage fun x hx c hc hr => hr.1 (hfreeCell x hx c hc)
  · rw [hfixed] at hs₀
    cases hs₀
    rfl

/-! ### Backing by type -/

/-- The physical memory behind a new area of the given type: `pa` becomes its physical
areas. -/
inductive BackedAs (L : Layout) (physAddr size : ℕ) (s₀ : MemoryManager) :
    VMAType → PhysMap → MemoryManager → Prop
  | direct {pa dmem} (h : Backed L.direct s₀.dmemMap (Label.setDma .mapped) dmem pa size)
      (hbytes : ∀ i < size, ∃ l, bytes pa i = some (physAddr + i, l)) :
      BackedAs L physAddr size s₀ .direct pa { s₀ with dmemMap := dmem }
  | flexible {pa fmem}
      (h : Backed L.flexible s₀.fmemMap (Label.setDma .flexible) fmem pa size)
      (hfree : ∀ p ∈ physBytes pa, ∃ l, labels s₀.fmemMap p = some l ∧ l.dmaType = .free) :
      BackedAs L physAddr size s₀ .flexible pa
        { s₀ with fmemMap := fmem, flexibleUsage := add64 s₀.flexibleUsage size }
  | none {t : VMAType} (h : t ≠ .direct) (h' : t ≠ .flexible) (h'' : t ≠ .pooled) :
      BackedAs L physAddr size s₀ t OrderedMap.empty s₀

structure AreaCreated (U : Set ℕ) (addr size : ℕ) (prot : MemoryProt) (type : VMAType)
    (name : String) (m : VMAMap) (pa : PhysMap) (m' : VMAMap) : Prop where
  ok : VmaMapOk m' U
  cells_eq : ∀ x, cells m' x = if addr ≤ x ∧ x < addr + size then
      some ⟨type, prot, name, (bytes pa (x - addr)).map backingOf⟩
    else cells m x
  pieces : ∀ Q, SubClosed Q → AllPieces Q m →
    (∀ x a, pa.get? x = some a → Q type a.base (a.base + a.size)) → AllPieces Q m'

structure Created (L : Layout) (addr size : ℕ) (prot : MemoryProt) (type : VMAType)
    (name : String) (physAddr : ℕ) (s₀ s' : MemoryManager) (pa : PhysMap) : Prop
    extends AreaCreated L.usable addr size prot type name s₀.vmaMap pa s'.vmaMap where
  backed : BackedAs L physAddr size s₀ type pa { s' with vmaMap := s₀.vmaMap }

section Inversion

variable {physAddr : ℕ} {pa : PhysMap}

theorem BackedAs.of_direct (h : BackedAs L physAddr size s₀ .direct pa s') :
    Backed L.direct s₀.dmemMap (Label.setDma .mapped) s'.dmemMap pa size ∧
      (∀ i < size, ∃ l, bytes pa i = some (physAddr + i, l)) ∧
      s' = { s₀ with dmemMap := s'.dmemMap } := by
  generalize htype : VMAType.direct = t at h
  cases h with
  | direct h hbytes => exact ⟨h, hbytes, rfl⟩
  | flexible _ _ => cases htype
  | none h _ _ => exact absurd htype.symm h

theorem BackedAs.of_flexible (h : BackedAs L physAddr size s₀ .flexible pa s') :
    Backed L.flexible s₀.fmemMap (Label.setDma .flexible) s'.fmemMap pa size ∧
      (∀ p ∈ physBytes pa, ∃ l, labels s₀.fmemMap p = some l ∧ l.dmaType = .free) ∧
      s' = { s₀ with
        fmemMap := s'.fmemMap
        flexibleUsage := add64 s₀.flexibleUsage size } := by
  generalize htype : VMAType.flexible = t at h
  cases h with
  | direct _ _ => cases htype
  | flexible h hfree => exact ⟨h, hfree, rfl⟩
  | none _ h _ => exact absurd htype.symm h

theorem BackedAs.of_other (h : BackedAs L physAddr size s₀ type pa s') (hd : type ≠ .direct)
    (hf : type ≠ .flexible) : pa = OrderedMap.empty ∧ s' = s₀ := by
  cases h with
  | direct _ _ => exact absurd rfl hd
  | flexible _ _ => exact absurd rfl hf
  | none _ _ _ => exact ⟨rfl, rfl⟩

end Inversion

theorem BackedAs.area_ok {physAddr : ℕ} {pa : PhysMap}
    (h : BackedAs L physAddr size s₀ type pa s') {v : VirtualMemoryArea}
    (htype : v.type = type) (hpa : v.physAreas = pa) (hsize : v.size = size) : VmaOk v := by
  subst hsize
  cases h with
  | direct h hbytes =>
      subst hpa
      refine ⟨fun _ => h.tiles, fun hb => ?_⟩
      simp [hasPhysicalBacking, htype] at hb
  | flexible h hfree =>
      subst hpa
      refine ⟨fun _ => h.tiles, fun hb => ?_⟩
      simp [hasPhysicalBacking, htype] at hb
  | none h h' h'' =>
      refine ⟨fun hb => ?_, fun _ => hpa⟩
      simp [hasPhysicalBacking, htype, h, h', h''] at hb

theorem backArea_ok {handle mappedAddr physAddr : ℕ} {m : VMAMap}
    (W : WellFormed L s) (husage : s.flexibleUsage < 18446744073709551616)
    (hphys : physAddr < 18446744073709551616)
    (hmapped : mappedAddr + size < 18446744073709551616) (htype : type ≠ .pooled)
    (h : MemoryManager.backArea { s with vmaMap := m } handle mappedAddr size type physAddr =
      .ok s') :
    ∃ pa, BackedAs L physAddr size s type pa { s' with vmaMap := s.vmaMap } ∧
      s'.vmaMap = if type = .direct ∨ type = .flexible then
        m.modify handle fun vma => { vma with physAreas := pa } else m := by
  unfold MemoryManager.backArea at h
  split at h
  · -- flexible memory is collected from the free areas
    obtain ⟨b, hb, h⟩ := bind_eq_ok.1 h
    obtain ⟨_, hzero, h⟩ := bind_eq_ok.1 h
    rw [assertMsg_eq_ok] at hzero
    obtain ⟨hB, hu, hfree⟩ := ((Backing.scatter_all_spec W.fmem (relabels_setDma .flexible)
      (fun _ => rfl) (fun _ => by simp [Label.setDma]) hmapped husage
      (fun h : False => h.elim)).2 b hb).1 hzero
    cases h
    refine ⟨b.physAreas, ?_, by simp⟩
    have hbacked : BackedAs L physAddr size s .flexible _ _ := .flexible hB hfree
    rw [← hu] at hbacked
    exact hbacked
  · -- direct memory is taken as it lies
    obtain ⟨b, hb, h⟩ := bind_eq_ok.1 h
    obtain ⟨_, hzero, h⟩ := bind_eq_ok.1 h
    have hat : Backing.At (n := 0) { map := s.dmemMap
                                     physAreas := OrderedMap.empty
                                     remainingSize := size
                                     currentAddr := physAddr
                                     usage := 0 } physAddr 0 size :=
      ⟨Nat.zero_le _, rfl, rfl, rfl⟩
    obtain ⟨hB, -, hbytes⟩ := Backing.direct_ok (show size < 18446744073709551616 by omega) _
      hphys (Backed.start W.dmem) hat (fun i hi => absurd hi (Nat.not_lt_zero i)) hb
    cases h
    exact ⟨b.physAreas, .direct hB hbytes, by simp⟩
  · next hf hd =>
      cases h
      refine ⟨OrderedMap.empty, .none hd hf htype, ?_⟩
      rw [if_neg]
      rintro (h | h)
      · exact hd h
      · exact hf h

/-! ### `MapMemory` -/

structure Fills (f : VirtualMemoryArea → VirtualMemoryArea) (prot : MemoryProt)
    (type : VMAType) (name : String) (pa : PhysMap) : Prop where
  base : ∀ v, (f v).base = v.base
  size : ∀ v, (f v).size = v.size
  type : ∀ v, (f v).type = type
  prot : ∀ v, (f v).prot = prot
  name : ∀ v, (f v).name = name
  physAreas : ∀ v, (f v).physAreas = pa

theorem areaCreated_of_carved {U : Set ℕ} {k : ℕ} {pa : PhysMap} {m₀ m m' m'' : VMAMap}
    {f : VirtualMemoryArea → VirtualMemoryArea} (hcarved : VmaCarved U m₀ addr size m)
    (hf : Fills f prot type name pa)
    (hok : ∀ v : VirtualMemoryArea, v.type = type → v.physAreas = pa → v.size = size → VmaOk v)
    (hm' : m' = m.modify addr f)
    (hmerge : m' = m'' ∨ mergeAdjacentVMA m' addr = .ok (m'', k)) :
    AreaCreated U addr size prot type name m₀ pa m'' := by
  obtain ⟨v, hv, hvsize⟩ := hcarved.area
  obtain ⟨V, hcells, hget⟩ := hcarved.ok.modify hv (hf.base v) (hf.size v)
    (hok (f v) (hf.type v) (hf.physAreas v) ((hf.size v).trans hvsize))
  rw [← hm'] at V hcells hget
  have hpieces : ∀ Q, SubClosed Q → AllPieces Q m₀ →
      (∀ x a, pa.get? x = some a → Q type a.base (a.base + a.size)) → AllPieces Q m' := by
    intro Q hQ hm hpa
    rw [hm']
    refine (hcarved.pieces Q hQ hm).modify hv ?_
    rw [hf.physAreas, hf.type]
    exact hpa
  have hcells' : ∀ x, cells m' x = if addr ≤ x ∧ x < addr + size then
      some ⟨type, prot, name, (bytes pa (x - addr)).map backingOf⟩
      else cells m₀ x := by
    intro x
    rw [hcells, hvsize, hcarved.cells_eq, VirtualMemoryArea.cell, hf.type, hf.prot, hf.name,
      hf.physAreas]
  rcases hmerge with rfl | hmerge
  · exact ⟨V, hcells', hpieces⟩
  · obtain ⟨m₂, k', w', hmerge', hcut, -⟩ := mergeAdjacentVMA_ok V hget
    rw [hmerge, Except.ok.injEq, Prod.mk.injEq] at hmerge'
    obtain ⟨rfl, rfl⟩ := hmerge'
    exact ⟨hcut.ok, fun x => (hcut.cells_eq x).trans (hcells' x),
      fun Q hQ hm hpa => hcut.pieces Q hQ (hpieces Q hQ hm hpa)⟩

theorem created_of_backed {physAddr k : ℕ} {pa : PhysMap} {m m' : VMAMap}
    {f : VirtualMemoryArea → VirtualMemoryArea}
    (hcarved : VmaCarved L.usable s₀.vmaMap addr size m)
    (hf : Fills f prot type name pa)
    (hbacked : BackedAs L physAddr size s₀ type pa { s' with vmaMap := s₀.vmaMap })
    (hm' : m' = m.modify addr f)
    (hmerge : m' = s'.vmaMap ∨ mergeAdjacentVMA m' addr = .ok (s'.vmaMap, k)) :
    Created L addr size prot type name physAddr s₀ s' pa :=
  ⟨areaCreated_of_carved hcarved hf (fun _ => hbacked.area_ok) hm' hmerge, hbacked⟩

/-- A mapping call that succeeded: whatever was mapped in the range is gone, and the new
area is there. Only a Fixed mapping replaces anything. -/
structure Mapped (L : Layout) (addr size : ℕ) (flags : MemoryMapFlags) (prot : MemoryProt)
    (type : VMAType) (name : String) (physAddr : ℕ) (s s' : MemoryManager) : Prop where
  range : Set.Ico addr (addr + size) ⊆ L.usable
  pos : 0 < size
  created : ∃ s₀ pa, Unmapped L (Set.Ico addr (addr + size)) s s₀ ∧
    (hasFlag flags MemoryMapFlags.fixed = false → s₀ = s) ∧
    Created L addr size prot type name physAddr s₀ s' pa

theorem BackedAs.wellFormed {physAddr : ℕ} {pa : PhysMap}
    (h : BackedAs L physAddr size s₀ type pa s') (W : WellFormed L s₀) : WellFormed L s' := by
  cases h with
  | direct h _ => exact ⟨W.vma, h.effect.ok, W.fmem, W.direct_eq, W.flexible_eq⟩
  | flexible h _ => exact ⟨W.vma, W.dmem, h.effect.ok, W.direct_eq, W.flexible_eq⟩
  | none _ _ _ => exact W

theorem BackedAs.usage_lt {physAddr : ℕ} {pa : PhysMap}
    (h : BackedAs L physAddr size s₀ type pa s')
    (husage : s₀.flexibleUsage < 18446744073709551616) :
    s'.flexibleUsage < 18446744073709551616 := by
  cases h with
  | direct _ _ => exact husage
  | flexible _ _ => exact add64_lt _ _
  | none _ _ _ => exact husage

theorem BackedAs.poolBudget_eq {physAddr : ℕ} {pa : PhysMap}
    (h : BackedAs L physAddr size s₀ type pa s') : s'.poolBudget = s₀.poolBudget := by
  cases h with
  | direct _ _ => rfl
  | flexible _ _ => rfl
  | none _ _ _ => rfl

theorem Created.wellFormed {physAddr : ℕ} {pa : PhysMap}
    (h : Created L addr size prot type name physAddr s₀ s' pa) (W : WellFormed L s₀) :
    WellFormed L s' :=
  have W' := h.backed.wellFormed W
  ⟨h.ok, W'.dmem, W'.fmem, W'.direct_eq, W'.flexible_eq⟩

theorem Mapped.wellFormed {physAddr : ℕ}
    (h : Mapped L addr size flags prot type name physAddr s s') (W : WellFormed L s) :
    WellFormed L s' ∧ s'.flexibleUsage < 18446744073709551616 := by
  obtain ⟨s₀, pa, hun, -, hcreated⟩ := h.created
  exact ⟨hcreated.wellFormed (hun.wellFormed W), hcreated.backed.usage_lt hun.usage_lt⟩

theorem mapAt_ok {physAddr : ℕ} {r : MemoryManager.MapResult} (W : WellFormed L s)
    (husage : s.flexibleUsage < 18446744073709551616) (haddr : addr < 18446744073709551616)
    (hsize : size < 18446744073709551616) (hphys : physAddr < 18446744073709551616)
    (htype : type ≠ .pooled)
    (h : s.mapAt addr size prot flags type name physAddr = .ok r) :
    r.1 = orbisOk ∧ r.2.1 = some addr ∧
      Mapped L addr size flags (withRead prot) type name physAddr s r.2.2 := by
  obtain ⟨⟨handle, s₁⟩, hcreate, h⟩ := bind_eq_ok.1 h
  obtain ⟨rfl, hrange, hpos, s₀, m, v, hun, hfixed, hcarved, hv, -, rfl⟩ :=
    createArea_ok W husage haddr hsize hcreate
  have W₀ := hun.wellFormed W
  have hlast : handle + size - 1 < 9223372036854775808 :=
    W.vma.lt_of_mem (hrange ⟨by omega, by omega⟩)
  obtain ⟨newVma, hnew, h⟩ := bind_eq_ok.1 h
  rw [deref_eq_ok, OrderedMap.get?_modify, if_pos rfl, hv, Option.map_some,
    Option.some.injEq] at hnew
  have hbase : newVma.base = handle := by
    rw [← hnew]
    change v.base = handle
    exact hcarved.ok.base_eq hv
  rw [hbase] at h
  obtain ⟨s₂, hback, h⟩ := bind_eq_ok.1 h
  obtain ⟨pa, hbacked, hvma⟩ := backArea_ok W₀ hun.usage_lt hphys (by omega) htype hback
  -- the assignments to the area are one assignment
  obtain ⟨f, hf, hm⟩ : ∃ f, Fills f (withRead prot) type name pa ∧
      s₂.vmaMap = m.modify handle f := by
    split_ifs at hvma with hb
    · refine ⟨_, ⟨?_, ?_, ?_, ?_, ?_, ?_⟩, hvma.trans (OrderedMap.modify_modify _ _ _ _)⟩
      all_goals intro; rfl
    · refine ⟨_, ⟨?_, ?_, ?_, ?_, ?_, ?_⟩, hvma⟩
      iterate 5 intro; rfl
      rw [not_or] at hb
      exact fun _ => (hbacked.of_other hb.1 hb.2).1.symm
  split at h
  · obtain ⟨⟨m', k⟩, hmerge, h⟩ := bind_eq_ok.1 h
    cases h
    exact ⟨rfl, rfl, hrange, hpos, s₀, pa, hun, hfixed,
      created_of_backed hcarved hf hbacked hm (.inr hmerge)⟩
  · cases h
    exact ⟨rfl, rfl, hrange, hpos, s₀, pa, hun, hfixed,
      created_of_backed (k := 0) hcarved hf hbacked hm (.inl rfl)⟩

/-! ### The choice of the address -/

theorem searchFreeRun_lt {m : VMAMap} {U : Set ℕ} (V : VmaMapOk m U) (alignment last : ℕ)
    (l : List (ℕ × VirtualMemoryArea)) (hl : ∀ e ∈ l, m.get? e.1 = some e.2) :
    searchFreeRun size alignment last l < 18446744073709551616 := by
  induction l with
  | nil => exact Nat.lt_succ_self _
  | cons e l ih =>
      obtain ⟨k, v⟩ := e
      have hrest := ih fun e he => hl e (List.mem_cons_of_mem _ he)
      have hv := hl (k, v) (by simp)
      have hbase : v.base < 18446744073709551616 := by
        have := V.bounded hv
        rw [V.base_eq hv]
        omega
      simp only [searchFreeRun]
      split_ifs
      · exact hrest
      · exact hrest
      · exact Nat.lt_succ_self _
      · exact alignUp_lt hbase
      · exact hrest

theorem isValidMapping_lt {U : Set ℕ} (V : VmaMapOk s.vmaMap U)
    (h : s.isValidMapping addr size = true) : addr < 9223372036854775808 := by
  unfold MemoryManager.isValidMapping at h
  split at h
  · next hlast _ =>
      split at h
      · cases h
      · next hin =>
          have hbound := V.bounded (OrderedMap.last_eq_some_iff.1 hlast).1
          rw [not_or, add64_eq (by omega)] at hin
          omega
  · cases h

theorem searchFree_lt {alignment r : ℕ} (W : WellFormed L s)
    (h : s.searchFree addr size alignment = .ok r) : r < 18446744073709551616 := by
  unfold MemoryManager.searchFree at h
  obtain ⟨_, hvalid, h⟩ := bind_eq_ok.1 h
  have hlt := isValidMapping_lt W.vma (assertMsg_eq_ok.1 hvalid)
  simp only at h
  by_cases hzero : alignment % 4294967296 = 0
  · rw [if_pos hzero] at h
    cases h
  · rw [if_neg hzero] at h
    obtain ⟨⟨handle, v⟩, -, h⟩ := bind_eq_ok.1 h
    split at h
    · cases h
      exact alignUp_lt (by omega)
    · cases h
      refine searchFreeRun_lt W.vma _ _ _ fun e he => ?_
      exact (OrderedMap.mem_entriesFrom.1 (List.mem_of_mem_tail he)).1

theorem placeMapping_ok {alignment target : ℕ} (W : WellFormed L s)
    (haddr : addr < 18446744073709551616)
    (h : s.placeMapping addr size flags alignment = .ok (some target)) :
    target < 18446744073709551616 ∧
      (hasFlag flags MemoryMapFlags.fixed = true → target = addr) := by
  unfold MemoryManager.placeMapping at h
  split at h
  · obtain ⟨_, -, h⟩ := bind_eq_ok.1 h
    obtain ⟨⟨k, v⟩, -, h⟩ := bind_eq_ok.1 h
    simp only at h
    by_cases hbusy : (!v.isFree) = true ∨ sub64 (add64 v.base v.size) addr < size
    · rw [if_pos hbusy] at h
      cases h
    · rw [if_neg hbusy] at h
      cases h
      exact ⟨haddr, fun _ => rfl⟩
  · split at h
    · next hfixed =>
        obtain ⟨r, hr, h⟩ := bind_eq_ok.1 h
        split at h
        · cases h
        · cases h
          refine ⟨searchFree_lt W hr, fun hf => ?_⟩
          rw [hf] at hfixed
          cases hfixed
    · cases h
      exact ⟨haddr, fun _ => rfl⟩

/-! ### The checks of `MapMemory` -/

theorem checkDmemRun_none {m : PhysMap} {U : Set ℕ} (P : PhysMapOk m U)
    {validateDmem : Bool} {stop : ℕ} (l : List (ℕ × PhysicalMemoryArea)) {k : ℕ}
    (hl : l = m.entriesFrom k) (h : checkDmemRun validateDmem stop l = none) :
    ∀ x a, m.get? x = some a → k ≤ x → x < stop →
      (a.dmaType = .allocated ∨ a.dmaType = .mapped) ∧
        (validateDmem = true → a.dmaType ≠ .mapped) := by
  have hmain : ∀ l' : List (ℕ × PhysicalMemoryArea), (∀ e ∈ l', m.get? e.1 = some e.2) →
      l'.Pairwise (fun e e' => e.1 < e'.1) → checkDmemRun validateDmem stop l' = none →
      ∀ e ∈ l', e.1 < stop → (e.2.dmaType = .allocated ∨ e.2.dmaType = .mapped) ∧
        (validateDmem = true → e.2.dmaType ≠ .mapped) := by
    intro l'
    induction l' with
    | nil => intro _ _ _ e he; cases he
    | cons e l' ih =>
        obtain ⟨x, a⟩ := e
        intro hget hsorted hcheck e' he' hlt
        rw [List.pairwise_cons] at hsorted
        have hbase : a.base = x := P.base_eq (hget (x, a) (by simp))
        rw [checkDmemRun, hbase] at hcheck
        have hx : x < stop := by
          rcases List.mem_cons.1 he' with rfl | he'
          · exact hlt
          · exact (hsorted.1 e' he').trans hlt
        rw [if_pos hx] at hcheck
        split_ifs at hcheck with htype hbusy
        rcases List.mem_cons.1 he' with rfl | he'
        · refine ⟨?_, fun hv hm => hbusy ⟨hv, hm⟩⟩
          by_contra hnot
          rw [not_or] at hnot
          exact htype ⟨hnot.1, hnot.2⟩
        · exact ih (fun e he => hget e (List.mem_cons_of_mem _ he)) hsorted.2 hcheck e' he' hlt
  intro x a hx hk hlt
  subst hl
  exact hmain _ (fun e he => (OrderedMap.mem_entriesFrom.1 he).1) (m.entriesFrom_sorted k) h
    (x, a) (OrderedMap.mem_entriesFrom.2 ⟨hx, hk⟩) hlt

theorem validateDmemRange_none {physAddr : ℕ} {validateDmem : Bool} (W : WellFormed L s)
    (hphys : physAddr ≠ invalidAddr)
    (h : s.validateDmemRange physAddr size validateDmem = .ok none) {p : ℕ}
    (hp : physAddr ≤ p) (hlt : p < physAddr + size)
    (hbound : physAddr + size < 18446744073709551616) {l : Label}
    (hl : labels s.dmemMap p = some l) :
    (l.dmaType = .allocated ∨ l.dmaType = .mapped) ∧
      (validateDmem = true → l.dmaType ≠ .mapped) := by
  rw [MemoryManager.validateDmemRange, if_pos hphys] at h
  obtain ⟨⟨k, a⟩, hfind, h⟩ := bind_eq_ok.1 h
  rw [Exec.pure_eq_ok, add64_eq hbound] at h
  obtain ⟨hk, hle, hmax⟩ := OrderedMap.floor_eq_some_iff.1 (findArea_eq_ok.1 hfind)
  have hmem : p ∈ L.direct := (W.dmem.labels_isSome_iff).1 (by rw [hl]; rfl)
  obtain ⟨x, b, hx, hxle, hxlt⟩ := (W.dmem.tiles.mem_iff p).1 hmem
  rw [W.dmem.labels_eq hx hxle hxlt, Option.some.injEq] at hl
  subst hl
  -- the area around `p` is not before the first one looked at
  have hkx : k ≤ x := by
    by_contra hnot
    have := W.dmem.tiles.disjoint hx hk (by omega)
    omega
  exact checkDmemRun_none W.dmem _ rfl h x b hx hkx (by omega)

/-! ### The calls -/

theorem Created.direct_range {physAddr : ℕ} {pa : PhysMap}
    (h : Created L addr size prot .direct name physAddr s₀ s' pa) {p : ℕ}
    (hp : physAddr ≤ p) (hlt : p < physAddr + size) : p ∈ physBytes pa := by
  obtain ⟨-, hbytes, -⟩ := h.backed.of_direct
  obtain ⟨l, hl⟩ := hbytes (p - physAddr) (by omega)
  exact ⟨p - physAddr, l, by rw [hl, Nat.add_sub_cancel' hp]⟩

/-- A call of `MapMemory` that returns has changed nothing or mapped the range; then a
flexible mapping fits under the limit, and the direct memory it asked for was allocated or
mapped. -/
theorem mapMemory_ok {physAddr alignment : ℕ} {validateDmem : Bool}
    {r : MemoryManager.MapResult} (W : WellFormed L s)
    (husage : s.flexibleUsage < 18446744073709551616) (haddr : addr < 18446744073709551616)
    (hsize : size < 18446744073709551616) (hphys : physAddr < 18446744073709551616)
    (htype : type ≠ .pooled)
    (h : s.mapMemory addr size prot flags type name validateDmem physAddr alignment = .ok r) :
    r.2.2 = s ∨ ∃ target,
      Mapped L target size flags (withRead prot) type name physAddr s r.2.2 ∧
      (hasFlag flags MemoryMapFlags.fixed = true → target = addr) ∧
      (type = .flexible → add64 s.flexibleUsage size ≤ s.totalFlexibleSize) ∧
      (type = .direct → ∀ p, physAddr ≤ p → p < physAddr + size →
        ∃ l, labels s.dmemMap p = some l ∧ (l.dmaType = .allocated ∨ l.dmaType = .mapped) ∧
          (validateDmem = true → l.dmaType ≠ .mapped)) := by
  unfold MemoryManager.mapMemory at h
  split at h
  · cases h
    exact .inl rfl
  next hlimit =>
  split at h
  · cases h
    exact .inl rfl
  obtain ⟨error, hvalid, h⟩ := bind_eq_ok.1 h
  cases error with
  | some e =>
      cases h
      exact .inl rfl
  | none =>
      obtain ⟨target, htarget, h⟩ := bind_eq_ok.1 h
      cases target with
      | none =>
          cases h
          exact .inl rfl
      | some target =>
          obtain ⟨htlt, hfixed⟩ := placeMapping_ok W haddr htarget
          obtain ⟨-, -, hmapped⟩ := mapAt_ok W husage htlt hsize hphys htype h
          refine .inr ⟨target, hmapped, hfixed, fun hf => ?_, fun hd p hp hlt => ?_⟩
          · by_contra hnot
            exact hlimit ⟨hf, by omega⟩
          · subst hd
            obtain ⟨s₀, pa, hun, -, hcreated⟩ := hmapped.created
            -- the bytes exist because they were mapped
            have hmem : ∀ q, physAddr ≤ q → q < physAddr + size → q ∈ L.direct := by
              intro q hq hq'
              exact hcreated.backed.of_direct.1.effect.subset (hcreated.direct_range hq hq')
            have hend := W.dmem.lt_of_mem (hmem (physAddr + size - 1) (by omega) (by omega))
            obtain ⟨l, hl⟩ :=
              Option.isSome_iff_exists.1 (W.dmem.labels_isSome_iff.2 (hmem p hp hlt))
            refine ⟨l, hl, validateDmemRange_none W ?_ hvalid hp hlt (by omega) hl⟩
            unfold invalidAddr
            omega

theorem mapFile_ok {fd : ℤ} {file : Option MemoryManager.HostFile}
    {r : MemoryManager.MapResult} (W : WellFormed L s)
    (husage : s.flexibleUsage < 18446744073709551616) (haddr : addr < 18446744073709551616)
    (hsize : size < 18446744073709551616)
    (h : s.mapFile addr size prot flags fd file = .ok r) :
    r.2.2 = s ∨ ∃ target prot',
      Mapped L target size flags prot' .file "anon" 0 s r.2.2 ∧
      (hasFlag flags MemoryMapFlags.fixed = true → target = addr) := by
  unfold MemoryManager.mapFile at h
  cases file with
  | none =>
      cases h
      exact .inl rfl
  | some file =>
      simp only at h
      split at h
      · cases h
        exact .inl rfl
      obtain ⟨_, -, h⟩ := bind_eq_ok.1 h
      obtain ⟨target, htarget, h⟩ := bind_eq_ok.1 h
      cases target with
      | none =>
          cases h
          exact .inl rfl
      | some target =>
          obtain ⟨htlt, hfixed⟩ := placeMapping_ok W haddr htarget
          obtain ⟨⟨handle, s₁⟩, hcreate, h⟩ := bind_eq_ok.1 h
          generalize MemoryManager.filePart file prot &&& ~~~MemoryProt.cpuExec = fileProt
            at hcreate
          obtain ⟨rfl, hrange, hpos, s₀, m, v, hun, hkept, hcarved, hv, -, rfl⟩ :=
            createArea_ok W husage htlt hsize hcreate
          obtain ⟨newVma, -, h⟩ := bind_eq_ok.1 h
          cases h
          have hfills : Fills ((fun vma => { vma with fd := fd }) ∘
              createdArea fileProt flags .file "anon") (withRead fileProt) .file "anon"
              OrderedMap.empty :=
            ⟨fun _ => rfl, fun _ => rfl, fun _ => rfl, fun _ => rfl, fun _ => rfl, fun _ => rfl⟩
          refine .inr ⟨handle, withRead fileProt,
            ⟨hrange, hpos, s₀, OrderedMap.empty, hun, hkept, ?_⟩, hfixed⟩
          refine created_of_backed (k := 0) hcarved hfills ?_ ?_ (.inl rfl)
          · exact .none VMAType.noConfusion VMAType.noConfusion VMAType.noConfusion
          · exact OrderedMap.modify_modify _ _ _ _

end OrbitConsole.Memory
