import OrbitConsole.Core.Memory.Assertions
import OrbitConsole.Core.Memory.Counting

/-!
# Flexible memory is never shared

The usage counter is the number of flexible bytes that are taken, every Flexible
byte is backed by one of them, and no two by the same one. Therefore a mapping
that passes the size check finds enough free bytes.
-/

namespace OrbitConsole.Memory

open Exec

variable {L : Layout} {cfg : Config} {s s' s₀ : MemoryManager} {c : Call} {A : Set ℕ}

structure FlexibleOk (s : MemoryManager) : Prop where
  usage : s.flexibleUsage = (bytesOfType .flexible s.fmemMap).ncard
  limit : s.flexibleUsage ≤ s.totalFlexibleSize
  label : ∀ {p l}, labels s.fmemMap p = some l → l.dmaType = .free ∨ l.dmaType = .flexible
  backed : physOf .flexible s.vmaMap Set.univ ⊆ bytesOfType .flexible s.fmemMap
  injective : Injective .flexible s.vmaMap

theorem bytesOfType_subset {m : PhysMap} {U : Set ℕ} (P : PhysMapOk m U)
    (t : PhysicalMemoryType) : bytesOfType t m ⊆ U := by
  rintro p ⟨l, hl, -⟩
  exact P.labels_isSome_iff.1 (by rw [hl]; rfl)

theorem Layout.ncard_flexible (L : Layout) : L.flexible.ncard = flexibleMemorySize := by
  rw [Layout.flexible, Set.ncard_Ico_nat, Nat.add_sub_cancel_left]

theorem FlexibleOk.ncard_free (h : FlexibleOk s) (W : WellFormed L s) :
    (bytesOfType .free s.fmemMap).ncard + s.flexibleUsage = flexibleMemorySize := by
  have hunion : bytesOfType .free s.fmemMap ∪ bytesOfType .flexible s.fmemMap = L.flexible := by
    apply Set.Subset.antisymm
    · exact Set.union_subset (bytesOfType_subset W.fmem _) (bytesOfType_subset W.fmem _)
    · intro p hp
      obtain ⟨l, hl⟩ := Option.isSome_iff_exists.1 (W.fmem.labels_isSome_iff.2 hp)
      exact (h.label hl).imp (fun ht => ⟨l, hl, ht⟩) fun ht => ⟨l, hl, ht⟩
  have hdisjoint : Disjoint (bytesOfType .free s.fmemMap) (bytesOfType .flexible s.fmemMap) := by
    rw [Set.disjoint_left]
    rintro p ⟨l, hl, hfree⟩ ⟨l', hl', hflexible⟩
    rw [hl, Option.some.injEq] at hl'
    rw [← hl', hfree] at hflexible
    cases hflexible
  rw [h.usage, ← Set.ncard_union_eq hdisjoint (bytesOfType_finite W.fmem _)
    (bytesOfType_finite W.fmem _), hunion, L.ncard_flexible]

/-! ### What the calls keep -/

theorem FlexibleOk.of_inherits (h : FlexibleOk s)
    (hinherits : Inherits .flexible s.vmaMap s'.vmaMap) (hfmem : s'.fmemMap = s.fmemMap)
    (husage : s'.flexibleUsage = s.flexibleUsage)
    (htotal : s'.totalFlexibleSize = s.totalFlexibleSize) : FlexibleOk s' where
  usage := by rw [husage, hfmem, h.usage]
  limit := by rw [husage, htotal]; exact h.limit
  label := by rw [hfmem]; exact h.label
  backed := by rw [hfmem]; exact hinherits.physOf_subset.trans h.backed
  injective := hinherits.injective h.injective

theorem FlexibleOk.of_unmapped (h : FlexibleOk s) (W : WellFormed L s)
    (hu : Unmapped L A s s') : FlexibleOk s' := by
  have hsubset : physOf .flexible s.vmaMap A ⊆ bytesOfType .flexible s.fmemMap :=
    (physOf_mono (Set.subset_univ A)).trans h.backed
  have hfinite := bytesOfType_finite W.fmem .flexible
  have hcount : (physOf .flexible s.vmaMap A).ncard = (bytesOf .flexible s.vmaMap A).ncard :=
    ncard_physOf W.vma (by simp) h.injective A
  have hle : (physOf .flexible s.vmaMap A).ncard ≤ s.flexibleUsage := by
    rw [h.usage]
    exact Set.ncard_le_ncard hsubset hfinite
  have hbytes : bytesOfType .flexible s'.fmemMap =
      bytesOfType .flexible s.fmemMap \ physOf .flexible s.vmaMap A :=
    hu.fmem.bytesOfType_ne fun _ => by simp [Label.setDma]
  have hlt : s.flexibleUsage < 18446744073709551616 := by
    have := h.ncard_free W
    unfold flexibleMemorySize mb at this
    omega
  have husage : s'.flexibleUsage = s.flexibleUsage - (physOf .flexible s.vmaMap A).ncard := by
    rw [hu.usage, ← hcount, sub64_eq hle hlt]
  have htotal : s'.totalFlexibleSize = s.totalFlexibleSize := by rw [hu.rest]
  have hinherits : Inherits .flexible s.vmaMap s'.vmaMap := hu.inherits (by simp)
  refine ⟨?_, ?_, ?_, ?_, hinherits.injective h.injective⟩
  · rw [husage, hbytes, Set.ncard_sdiff hsubset (hfinite.subset hsubset), h.usage]
  · have := h.limit
    omega
  · intro p l hl
    by_cases hp : p ∈ physOf .flexible s.vmaMap A
    · rw [hu.fmem.labels_in p hp] at hl
      obtain ⟨l', -, rfl⟩ := Option.map_eq_some_iff.1 hl
      exact .inl rfl
    · rw [hu.fmem.labels_out p hp] at hl
      exact h.label hl
  · rw [hbytes, hu.physOf_eq (by simp) (by simp)]
    rintro p ⟨x, ⟨-, hx⟩, d, t, hd, hdT, hp⟩
    refine ⟨h.backed ⟨x, Set.mem_univ x, d, t, hd, hdT, hp⟩, ?_⟩
    rintro ⟨y, hy, e, u, he, heT, hq⟩
    exact hx (h.injective hd he hdT heT hp hq ▸ hy)

theorem FlexibleOk.usage_le_of_unmapped (h : FlexibleOk s) (W : WellFormed L s)
    (hu : Unmapped L A s s') : s'.flexibleUsage ≤ s.flexibleUsage := by
  have hbytes : bytesOfType .flexible s'.fmemMap ⊆ bytesOfType .flexible s.fmemMap := by
    rw [hu.fmem.bytesOfType_ne fun _ => by simp [Label.setDma]]
    exact Set.sdiff_subset
  rw [(h.of_unmapped W hu).usage, h.usage]
  exact Set.ncard_le_ncard hbytes (bytesOfType_finite W.fmem _)

section Mapping

variable {addr size physAddr : ℕ} {prot : MemoryProt} {flags : MemoryMapFlags}
  {type : VMAType} {name : String} {pa : PhysMap}

theorem FlexibleOk.of_created_flexible (h : FlexibleOk s) (W : WellFormed L s)
    (hc : Created L addr size prot .flexible name physAddr s s' pa)
    (hlimit : s.flexibleUsage + size ≤ s.totalFlexibleSize) : FlexibleOk s' := by
  obtain ⟨hB, hfree, hrest⟩ := hc.backed.of_flexible
  have hfinite := bytesOfType_finite W.fmem .flexible
  have hsubset : physBytes pa ⊆ L.flexible := hB.effect.subset
  have hcount : (physBytes pa).ncard = size := hB.ncard
  have hfresh : ∀ p ∈ physBytes pa, p ∉ bytesOfType .flexible s.fmemMap := by
    rintro p hp ⟨l, hl, hflexible⟩
    obtain ⟨l', hl', hfree⟩ := hfree p hp
    rw [hl, Option.some.injEq] at hl'
    rw [hl', hfree] at hflexible
    cases hflexible
  have hbytes : bytesOfType .flexible s'.fmemMap =
      bytesOfType .flexible s.fmemMap ∪ physBytes pa :=
    hB.effect.bytesOfType_eq (fun _ => rfl) W.fmem
  have hlt : s.flexibleUsage + size < 18446744073709551616 := by
    have hle : size ≤ flexibleMemorySize := by
      rw [← hcount, ← L.ncard_flexible]
      exact Set.ncard_le_ncard hsubset (Set.finite_Ico _ _)
    have := h.ncard_free W
    unfold flexibleMemorySize mb at this hle
    omega
  have husage : s'.flexibleUsage = s.flexibleUsage + size := by
    have := congrArg MemoryManager.flexibleUsage hrest
    exact this.trans (add64_eq hlt)
  have htotal : s'.totalFlexibleSize = s.totalFlexibleSize :=
    (congrArg MemoryManager.totalFlexibleSize hrest :)
  refine ⟨?_, ?_, ?_, ?_, ?_⟩
  · rw [husage, hbytes, h.usage, Set.ncard_union_eq (Set.disjoint_right.2 hfresh) hfinite
      ((Set.finite_Ico _ _).subset hsubset), hcount]
  · omega
  · intro p l hl
    by_cases hp : p ∈ physBytes pa
    · have hl' := hB.effect.labels_in p hp
      rw [hl] at hl'
      obtain ⟨l₀, -, rfl⟩ := Option.map_eq_some_iff.1 hl'.symm
      exact .inr rfl
    · exact h.label ((hB.effect.labels_out p hp).symm.trans hl)
  · rw [hbytes]
    exact hc.physOf_subset.trans (Set.union_subset_union_left _ h.backed)
  · exact hc.injective h.injective hB.injective fun p hp hp' => hfresh p hp (h.backed hp')

theorem BackedAs.flexible_eq (h : BackedAs L physAddr size s type pa s')
    (htype : type ≠ .flexible) : s'.fmemMap = s.fmemMap ∧
      s'.flexibleUsage = s.flexibleUsage ∧ s'.totalFlexibleSize = s.totalFlexibleSize := by
  cases h with
  | direct => exact ⟨rfl, rfl, rfl⟩
  | flexible => exact absurd rfl htype
  | none => exact ⟨rfl, rfl, rfl⟩

theorem FlexibleOk.of_created (h : FlexibleOk s) (W : WellFormed L s)
    (hc : Created L addr size prot type name physAddr s s' pa)
    (hlimit : type = .flexible → s.flexibleUsage + size ≤ s.totalFlexibleSize) :
    FlexibleOk s' := by
  by_cases hflexible : type = .flexible
  · subst hflexible
    exact h.of_created_flexible W hc (hlimit rfl)
  have hinherits : Inherits .flexible s.vmaMap s'.vmaMap := hc.inherits hflexible
  obtain ⟨hfmem, husage, htotal⟩ := hc.backed.flexible_eq hflexible
  exact h.of_inherits hinherits hfmem husage htotal

theorem FlexibleOk.of_mapped (h : FlexibleOk s) (R : Regular L s)
    (hm : Mapped L addr size flags prot type name physAddr s s')
    (hlimit : type = .flexible → add64 s.flexibleUsage size ≤ s.totalFlexibleSize) :
    FlexibleOk s' := by
  obtain ⟨s₁, pa, hun, -, hcreated⟩ := hm.created
  have W := R.toWellFormed
  refine (h.of_unmapped W hun).of_created (hun.wellFormed W) hcreated fun htype => ?_
  have hlt : addr + size - 1 < 9223372036854775808 :=
    W.vma.lt_of_mem (hm.range ⟨by have := hm.pos; omega, by have := hm.pos; omega⟩)
  have hused := h.ncard_free W
  have hle := h.usage_le_of_unmapped W hun
  have htotal : s₁.totalFlexibleSize = s.totalFlexibleSize := by rw [hun.rest]
  have := hlimit htype
  unfold flexibleMemorySize mb at hused
  rw [add64_eq (by omega)] at this
  omega

end Mapping

theorem Effect.flexibleOk (h : Effect L s c s') (R : Regular L s) (hs : FlexibleOk s) :
    FlexibleOk s' := by
  have W := R.toWellFormed
  cases h with
  | unchanged => exact hs
  | allocated => exact hs.of_inherits (.refl _) rfl rfl rfl
  | expanded => exact hs.of_inherits (.refl _) rfl rfl rfl
  | @freed _ _ _ s₁ _ h =>
      have h₁ := hs.of_unmapped W h.unmapped
      rw [h.rest]
      exact h₁.of_inherits (.refl _) rfl rfl rfl
  | committed h =>
      refine hs.of_inherits (h.inherits (by simp)) ?_ ?_ ?_ <;> rw [h.rest]
  | decommitted h =>
      refine hs.of_inherits (h.inherits (by simp)) ?_ ?_ ?_ <;> rw [h.rest]
  | mapped h _ hlimit _ => exact hs.of_mapped R h hlimit
  | mappedFile h _ => exact hs.of_mapped R h (by simp)
  | unmapped _ h => exact hs.of_unmapped W h
  | guarded h => exact hs.of_inherits h.inherits rfl rfl rfl
  | named h => exact hs.of_inherits h.inherits rfl rfl rfl
  | retyped h _ =>
      refine hs.of_inherits h.inherits ?_ ?_ ?_ <;> rw [h.rest]

/-! ### Runs -/

theorem Fresh.flexibleOk (hfresh : Fresh cfg s₀) : FlexibleOk s₀ := by
  obtain ⟨hsetup, -, -, -⟩ := hfresh
  obtain ⟨_, hassert, hsetup⟩ := bind_eq_ok.1 hsetup
  rw [assertMsg_eq_ok] at hassert
  obtain ⟨e, -, hsetup⟩ := bind_eq_ok.1 hsetup
  obtain ⟨_, -, hret⟩ := bind_eq_ok.1 hsetup
  cases hret
  have hfree : ∀ {p l}, labels (MemoryManager.construct cfg).fmemMap p = some l →
      l.dmaType = .free := by
    intro p l hl
    obtain ⟨b, hb, rfl⟩ := Option.map_eq_some_iff.1 hl
    obtain ⟨⟨k, a⟩, hpiece, rfl⟩ := Option.map_eq_some_iff.1 hb
    have hk := (Tiling.get?_of_pieceAt hpiece).1
    change (OrderedMap.empty.emplace _ _).get? k = some a at hk
    rw [get?_emplace] at hk
    split at hk
    · cases hk
      rfl
    · cases hk
  have hnone : bytesOfType .flexible (MemoryManager.construct cfg).fmemMap = ∅ := by
    apply Set.eq_empty_of_forall_notMem
    rintro p ⟨l, hl, hflexible⟩
    rw [hfree hl] at hflexible
    cases hflexible
  refine ⟨?_, hassert, fun hl => .inl (hfree hl), ?_, ?_⟩
  · change 0 = (bytesOfType .flexible (MemoryManager.construct cfg).fmemMap).ncard
    rw [hnone, Set.ncard_empty]
  · rintro p ⟨x, -, d, t, hd, hdT, -⟩
    rw [construct_cells hd] at hdT
    cases hdT
  · intro x y d e p t u hd _ hdT
    rw [construct_cells hd] at hdT
    cases hdT

theorem Reachable.flexibleOk (hfresh : Fresh cfg s₀)
    (h : Reachable (fun _ c => c.Promised) s₀ s) : FlexibleOk s := by
  have hboth : Regular (cfg.layout s₀) s ∧ FlexibleOk s := by
    apply h.invariant (P := fun s => Regular (cfg.layout s₀) s ∧ FlexibleOk s)
    · exact ⟨hfresh.regular, hfresh.flexibleOk⟩
    · intro s s' c hs hc hcall
      have heffect := Call.exec_effect hs.1 hc hcall
      exact ⟨heffect.regular hs.1, heffect.flexibleOk hs.1 hs.2⟩
  exact hboth.2

theorem backArea_flexible_returns {m : VMAMap} {handle mappedAddr size physAddr : ℕ}
    (W : WellFormed L s) (hmapped : mappedAddr + size < 18446744073709551616)
    (husage : s.flexibleUsage < 18446744073709551616)
    (hsize : size ≤ (bytesOfType .free s.fmemMap).ncard) :
    ∃ s', MemoryManager.backArea { s with vmaMap := m } handle mappedAddr size .flexible
      physAddr = .ok s' := by
  have hspec := Backing.scatter_all_spec W.fmem (relabels_setDma .flexible)
    (fun l => Label.setDma_setDma _ _ l)
    (fun l => (by simp [Label.setDma] : (Label.setDma .flexible l).dmaType ≠ .free)) hmapped
    husage (fun _ : True => hsize)
  obtain ⟨b, hb⟩ := hspec.1 trivial
  have hremaining := (hspec.2 b hb).2 trivial
  refine ⟨_, bind_eq_ok.2 ⟨b, hb, bind_eq_ok.2 ⟨(), assertMsg_eq_ok.2 hremaining, rfl⟩⟩⟩

theorem mapAt_flexible_avoids {msg : String} {addr size physAddr : ℕ} {prot : MemoryProt}
    {flags : MemoryMapFlags} {name : String} (hmsg : msg ∉ helperMessages) (R : Regular L s)
    (hs : FlexibleOk s) (haddr : addr < 18446744073709551616)
    (hsize : size < 18446744073709551616)
    (hlimit : add64 s.flexibleUsage size ≤ s.totalFlexibleSize)
    (htotal : s.totalFlexibleSize ≤ flexibleMemorySize) :
    Avoids msg (s.mapAt addr size prot flags .flexible name physAddr) := by
  have W := R.toWellFormed
  refine .bind (createArea_avoids hmsg _ _ _ _ _ _) fun r hr => ?_
  obtain ⟨handle, s₂⟩ := r
  obtain ⟨rfl, hrange, hpos, s₁, m, v, hun, -, hcarved, hv, -, rfl⟩ :=
    createArea_ok W R.usage_lt haddr hsize hr
  refine .bind (deref_avoids _ _) fun newVma hnew => ?_
  have hbase : newVma.base = handle := by
    rw [deref_eq_ok, OrderedMap.get?_modify, if_pos rfl, hv, Option.map_some,
      Option.some.injEq] at hnew
    rw [← hnew]
    change v.base = handle
    exact hcarved.ok.base_eq hv
  have hend : handle + size - 1 < 9223372036854775808 :=
    W.vma.lt_of_mem (hrange ⟨by omega, by omega⟩)
  have hfree := (hs.of_unmapped W hun).ncard_free (hun.wellFormed W)
  have hle := hs.usage_le_of_unmapped W hun
  refine .bind (.of_returns (backArea_flexible_returns (hun.wellFormed W) (by omega)
    hun.usage_lt ?_)) fun s₃ _ => ?_
  · have hused := hs.ncard_free W
    unfold flexibleMemorySize mb at hused hfree htotal
    rw [add64_eq (by omega)] at hlimit
    omega
  · dsimp only
    split
    · exact .bind (mergeAdjacentVMA_avoids _ _) fun _ _ => avoids_pure _
    · exact avoids_pure _

theorem mapMemory_flexible_avoids {msg : String} {addr size physAddr alignment : ℕ}
    {prot : MemoryProt} {flags : MemoryMapFlags} {name : String} {validateDmem : Bool}
    (hmsg : msg ∉ helperMessages) (R : Regular L s) (hs : FlexibleOk s)
    (haddr : addr < 18446744073709551616) (hsize : size < 18446744073709551616)
    (hlimit : add64 s.flexibleUsage size ≤ s.totalFlexibleSize)
    (htotal : s.totalFlexibleSize ≤ flexibleMemorySize) :
    Avoids msg (s.mapMemory addr size prot flags .flexible name validateDmem physAddr
      alignment) := by
  unfold MemoryManager.mapMemory
  split
  · exact avoids_pure _
  split
  · exact avoids_pure _
  refine .bind (validateDmemRange_avoids _ _ _) fun e _ => ?_
  split
  · exact avoids_pure _
  refine .bind (placeMapping_avoids hmsg _ _ _ _) fun target htarget => ?_
  split
  · exact avoids_pure _
  · next target =>
      have htarget := (placeMapping_ok R.toWellFormed haddr htarget).1
      exact mapAt_flexible_avoids hmsg R hs htarget hsize hlimit htotal

/-- In every reachable state flexible memory is accounted for exactly and never shared, and a
flexible mapping that passes the size check does not run out of it. -/
theorem flexible_exact (hfresh : Fresh cfg s₀)
    (hsize : s₀.totalFlexibleSize ≤ flexibleMemorySize)
    (h : Reachable (fun _ c => c.Promised) s₀ s) :
    s.flexibleUsage = totalSize .flexible s.fmemMap ∧
      s.flexibleUsage ≤ s.totalFlexibleSize ∧
      (∀ x c, cells s.vmaMap x = some c → c.type = .flexible → ∃ p t l,
        c.backing = some (p, t) ∧ labels s.fmemMap p = some l ∧ l.dmaType = .flexible) ∧
      (∀ x y c d p t u, cells s.vmaMap x = some c → cells s.vmaMap y = some d →
        c.type = .flexible → d.type = .flexible → c.backing = some (p, t) →
        d.backing = some (p, u) → x = y) ∧
      ∀ (virtualAddr size : UInt64) prot flags name validateDmem (physAddr alignment : UInt64),
        add64 s.flexibleUsage size.toNat ≤ s.totalFlexibleSize →
        s.mapMemory virtualAddr.toNat size.toNat prot flags .flexible name validateDmem
          physAddr.toNat alignment.toNat ≠
            .error (.assertion "Failed to map physical memory") := by
  have R := h.regular hfresh fun _ _ hc => hc
  have hs := h.flexibleOk hfresh
  refine ⟨?_, hs.limit, fun x c hc hcT => ?_, fun x y c d p t u hc hd hcT hdT => hs.injective
    hc hd hcT hdT, fun virtualAddr size prot flags name validateDmem physAddr alignment
    hlimit => ?_⟩
  · rw [hs.usage, ncard_bytesOfType R.fmem]
  · obtain ⟨p, t, hp⟩ := R.vma.backing_of_cell hc (.inr (.inl hcT))
    obtain ⟨l, hl, hlT⟩ := hs.backed ⟨x, Set.mem_univ x, c, t, hc, hcT, hp⟩
    exact ⟨p, t, l, hp, hl, hlT⟩
  · have htotal : s.totalFlexibleSize ≤ flexibleMemorySize := R.flexible_eq.trans_le hsize
    exact mapMemory_flexible_avoids (by decide) R hs virtualAddr.toNat_lt size.toNat_lt
      hlimit htotal

theorem flexible_exact_sample : ∃ s, runCalls Config.retail.start sampleCalls = .ok s ∧
    s.flexibleUsage = totalSize .flexible s.fmemMap := by
  obtain ⟨s, hs⟩ : ∃ s, runCalls Config.retail.start sampleCalls = .ok s :=
    exists_of_toBool (by decide)
  exact ⟨s, hs, (flexible_exact fresh_retail (by decide)
    (sampleCalls_reachable hs)).1⟩

end OrbitConsole.Memory
