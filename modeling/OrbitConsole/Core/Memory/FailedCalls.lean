import OrbitConsole.Core.Memory.DirectLimits

/-!
# Failed calls and a successful Direct mapping

Every error of a memory call is found before anything is changed. A Direct mapping that
succeeds is described byte by byte.
-/

namespace OrbitConsole.Memory

open Exec

/-- Calls that return an error code, or -1 for an address, leave the state as it is. -/
structure FailsCleanly (s : MemoryManager) : Prop where
  mapMemory : ∀ (virtualAddr size : UInt64) (prot : MemoryProt) (flags : MemoryMapFlags)
    (type : VMAType) (name : String) (validateDmem : Bool) (physAddr alignment : UInt64)
    (code : ℤ) (out : Option ℕ) (s' : MemoryManager),
    s.mapMemory virtualAddr.toNat size.toNat prot flags type name validateDmem physAddr.toNat
      alignment.toNat = .ok (code, out, s') → code ≠ orbisOk → s' = s
  mapFile : ∀ (virtualAddr size : UInt64) (prot : MemoryProt) (flags : MemoryMapFlags) (fd : ℤ)
    (file : Option MemoryManager.HostFile) (code : ℤ) (out : Option ℕ) (s' : MemoryManager),
    s.mapFile virtualAddr.toNat size.toNat prot flags fd file = .ok (code, out, s') →
      code ≠ orbisOk → s' = s
  poolCommit : ∀ (virtualAddr size : UInt64) (prot : MemoryProt) (mtype code : ℤ)
    (s' : MemoryManager), s.poolCommit virtualAddr.toNat size.toNat prot mtype = .ok (code, s') →
      code ≠ orbisOk → s' = s
  poolDecommit : ∀ (virtualAddr size : UInt64) (code : ℤ) (s' : MemoryManager),
    s.poolDecommit virtualAddr.toNat size.toNat = .ok (code, s') → code ≠ orbisOk → s' = s
  free : ∀ (physAddr size : UInt64) (isChecked : Bool) (code : ℤ) (s' : MemoryManager),
    s.free physAddr.toNat size.toNat isChecked = .ok (code, s') → code ≠ orbisOk → s' = s
  allocate : ∀ (searchStart searchEnd size alignment : UInt64) (memoryType : ℤ)
    (s' : MemoryManager), s.allocate searchStart.toNat searchEnd.toNat size.toNat alignment.toNat
      memoryType = .ok (invalidAddr, s') → s' = s
  poolExpand : ∀ (searchStart searchEnd size alignment : UInt64) (s' : MemoryManager),
    s.poolExpand searchStart.toNat searchEnd.toNat size.toNat alignment.toNat =
      .ok (invalidAddr, s') → s' = s

/-- `s'` is `s` with `[P, P + size)` mapped at `[V, V + size)`: the virtual bytes of the range
translate to the physical ones in order, exactly those become Mapped, and what the range
backed before goes back to Allocated. -/
structure MapsDirect (s : MemoryManager) (V P size : ℕ) (s' : MemoryManager) : Prop where
  translates : ∀ i < size, ∃ c t, cells s'.vmaMap (V + i) = some c ∧ c.type = .direct ∧
    c.backing = some (P + i, t)
  outside : ∀ x, ¬ (V ≤ x ∧ x < V + size) → cells s'.vmaMap x = cells s.vmaMap x
  marks : ∀ p, P ≤ p → p < P + size → ∃ l, labels s'.dmemMap p = some l ∧ l.dmaType = .mapped
  marked : ∀ p, P ≤ p → p < P + size →
    labels s'.dmemMap p = (labels s.dmemMap p).map (Label.setDma .mapped)
  released : ∀ p, ¬ (P ≤ p ∧ p < P + size) →
    p ∈ physOf .direct s.vmaMap (Set.Ico V (V + size)) →
    labels s'.dmemMap p = (labels s.dmemMap p).map (Label.setDma .allocated)
  kept : ∀ p, ¬ (P ≤ p ∧ p < P + size) →
    p ∉ physOf .direct s.vmaMap (Set.Ico V (V + size)) →
    labels s'.dmemMap p = labels s.dmemMap p

/-- Every successful Direct mapping maps its range. -/
def MapsWell (s : MemoryManager) : Prop :=
  ∀ (virtualAddr size : UInt64) (prot : MemoryProt) (flags : MemoryMapFlags) (name : String)
    (validateDmem : Bool) (physAddr alignment : UInt64) (out : Option ℕ) (s' : MemoryManager),
    s.mapMemory virtualAddr.toNat size.toNat prot flags .direct name validateDmem physAddr.toNat
      alignment.toNat = .ok (orbisOk, out, s') →
    ∃ V, out = some V ∧ MapsDirect s V physAddr.toNat size.toNat s'

variable {L : Layout} {s : MemoryManager}

theorem carvePhysArea_ne_invalid {m : PhysMap} {U : Set ℕ} {size start : ℕ} {r : PhysMap × ℕ}
    (P : PhysMapOk m U) (hsize : size < 18446744073709551616)
    (h : carvePhysArea m start size = .ok r) : start ≠ invalidAddr := by
  rintro rfl
  obtain ⟨-, hcarved⟩ := carvePhysArea_ok P (by decide) hsize h
  obtain ⟨a, ha, -⟩ := hcarved.area
  have := hcarved.ok.end_le ha
  exact absurd this (by unfold invalidAddr; omega)

theorem mapMemory_cases {addr size physAddr alignment : ℕ} {prot : MemoryProt}
    {flags : MemoryMapFlags} {type : VMAType} {name : String} {validateDmem : Bool}
    {r : MemoryManager.MapResult} (W : WellFormed L s) (haddr : addr < 18446744073709551616)
    (h : s.mapMemory addr size prot flags type name validateDmem physAddr alignment = .ok r) :
    (r.1 ≠ orbisOk ∧ r.2.2 = s) ∨ ∃ target, target < 18446744073709551616 ∧
      s.mapAt target size prot flags type name physAddr = .ok r := by
  unfold MemoryManager.mapMemory at h
  split at h
  · cases h
    exact .inl ⟨by simp only; decide, rfl⟩
  split at h
  · cases h
    exact .inl ⟨by simp only; decide, rfl⟩
  obtain ⟨error, hvalid, h⟩ := bind_eq_ok.1 h
  cases error with
  | some e =>
      cases h
      refine .inl ⟨?_, rfl⟩
      unfold MemoryManager.validateDmemRange at hvalid
      split at hvalid
      · obtain ⟨x, -, hcheck⟩ := bind_eq_ok.1 hvalid
        exact checkDmemRun_ne_ok _ (pure_eq_ok.1 hcheck)
      · cases hvalid
  | none =>
      obtain ⟨target, htarget, h⟩ := bind_eq_ok.1 h
      cases target with
      | none =>
          cases h
          exact .inl ⟨by simp only; decide, rfl⟩
      | some target => exact .inr ⟨target, (placeMapping_ok W haddr htarget).1, h⟩

theorem mapAt_code {addr size physAddr : ℕ} {prot : MemoryProt} {flags : MemoryMapFlags}
    {type : VMAType} {name : String} {r : MemoryManager.MapResult}
    (h : s.mapAt addr size prot flags type name physAddr = .ok r) : r.1 = orbisOk := by
  obtain ⟨x, -, h⟩ := bind_eq_ok.1 h
  obtain ⟨v, -, h⟩ := bind_eq_ok.1 h
  obtain ⟨s₂, -, h⟩ := bind_eq_ok.1 h
  split at h
  · obtain ⟨m, -, h⟩ := bind_eq_ok.1 h
    cases h
    rfl
  · cases h
    rfl

theorem mapFile_clean {addr size : ℕ} {prot : MemoryProt} {flags : MemoryMapFlags} {fd : ℤ}
    {file : Option MemoryManager.HostFile} {r : MemoryManager.MapResult}
    (h : s.mapFile addr size prot flags fd file = .ok r) (hcode : r.1 ≠ orbisOk) : r.2.2 = s := by
  unfold MemoryManager.mapFile at h
  cases file with
  | none =>
      cases h
      rfl
  | some file =>
      simp only at h
      split at h
      · cases h
        rfl
      obtain ⟨_, -, h⟩ := bind_eq_ok.1 h
      obtain ⟨target, -, h⟩ := bind_eq_ok.1 h
      cases target with
      | none =>
          cases h
          rfl
      | some target =>
          obtain ⟨x, -, h⟩ := bind_eq_ok.1 h
          obtain ⟨v, -, h⟩ := bind_eq_ok.1 h
          cases h
          exact absurd rfl hcode

theorem poolCommit_clean {addr size : ℕ} {prot : MemoryProt} {mtype : ℤ}
    {r : ℤ × MemoryManager} (h : s.poolCommit addr size prot mtype = .ok r)
    (hcode : r.1 ≠ orbisOk) : r.2 = s := by
  unfold MemoryManager.poolCommit at h
  obtain ⟨_, -, h⟩ := bind_eq_ok.1 h
  obtain ⟨v, -, h⟩ := bind_eq_ok.1 h
  simp only at h
  split at h
  · cases h
    rfl
  split at h
  · cases h
    rfl
  split at h
  · cases h
    rfl
  obtain ⟨x, -, h⟩ := bind_eq_ok.1 h
  obtain ⟨b, -, h⟩ := bind_eq_ok.1 h
  obtain ⟨_, -, h⟩ := bind_eq_ok.1 h
  obtain ⟨m, -, h⟩ := bind_eq_ok.1 h
  cases h
  exact absurd rfl hcode

theorem poolDecommit_clean {addr size : ℕ} {r : ℤ × MemoryManager}
    (h : s.poolDecommit addr size = .ok r) (hcode : r.1 ≠ orbisOk) : r.2 = s := by
  unfold MemoryManager.poolDecommit at h
  obtain ⟨_, -, h⟩ := bind_eq_ok.1 h
  obtain ⟨x, -, h⟩ := bind_eq_ok.1 h
  simp only at h
  split at h
  · cases h
    rfl
  · obtain ⟨s₁, -, h⟩ := bind_eq_ok.1 h
    cases h
    exact absurd rfl hcode

theorem free_clean {physAddr size : ℕ} {isChecked : Bool} {r : ℤ × MemoryManager}
    (h : s.free physAddr size isChecked = .ok r) (hcode : r.1 ≠ orbisOk) : r.2 = s := by
  unfold MemoryManager.free at h
  split at h
  · cases h
    rfl
  obtain ⟨x, -, h⟩ := bind_eq_ok.1 h
  simp only at h
  split at h
  · cases h
    rfl
  · obtain ⟨s₁, -, h⟩ := bind_eq_ok.1 h
    obtain ⟨m, -, h⟩ := bind_eq_ok.1 h
    cases h
    exact absurd rfl hcode

theorem allocate_clean (W : WellFormed L s) {searchStart searchEnd size alignment : ℕ}
    {memoryType : ℤ} {r : ℕ × MemoryManager} (hsize : size < 18446744073709551616)
    (h : s.allocate searchStart searchEnd size alignment memoryType = .ok r)
    (hfail : r.1 = invalidAddr) : r.2 = s := by
  unfold MemoryManager.allocate at h
  obtain ⟨x, -, h⟩ := bind_eq_ok.1 h
  simp only at h
  split at h
  · cases h
    rfl
  · obtain ⟨c, hcarve, h⟩ := bind_eq_ok.1 h
    obtain ⟨m, -, h⟩ := bind_eq_ok.1 h
    cases h
    exact absurd hfail (carvePhysArea_ne_invalid W.dmem hsize hcarve)

theorem poolExpand_clean (W : WellFormed L s) {searchStart searchEnd size alignment : ℕ}
    {r : ℕ × MemoryManager} (hsize : size < 18446744073709551616)
    (h : s.poolExpand searchStart searchEnd size alignment = .ok r)
    (hfail : r.1 = invalidAddr) : r.2 = s := by
  unfold MemoryManager.poolExpand at h
  obtain ⟨x, -, h⟩ := bind_eq_ok.1 h
  simp only at h
  split at h
  · cases h
    rfl
  · obtain ⟨c, hcarve, h⟩ := bind_eq_ok.1 h
    cases h
    exact absurd hfail (carvePhysArea_ne_invalid W.dmem hsize hcarve)

theorem Mapped.mapsDirect {V P size : ℕ} {flags : MemoryMapFlags} {prot : MemoryProt}
    {name : String} {s' : MemoryManager}
    (h : Mapped L V size flags prot .direct name P s s') : MapsDirect s V P size s' := by
  obtain ⟨s₀, pa, hun, -, hcreated⟩ := h.created
  obtain ⟨hbacked, hbytes, -⟩ := hcreated.backed.of_direct
  have heffect := hbacked.effect
  -- the physical bytes of the new area are those asked for
  have hphys : ∀ p, p ∈ physBytes pa ↔ P ≤ p ∧ p < P + size := by
    intro p
    constructor
    · rintro ⟨i, l, hi⟩
      have hlt : i < size :=
        hbacked.tiles.tiles.view_isSome_iff.1 (Option.isSome_of_eq_some hi)
      obtain ⟨l', hl'⟩ := hbytes i hlt
      rw [hi, Option.some.injEq, Prod.mk.injEq] at hl'
      omega
    · rintro ⟨hp, hp'⟩
      exact hcreated.direct_range hp hp'
  have hmarked : ∀ p, P ≤ p → p < P + size →
      labels s'.dmemMap p = (labels s.dmemMap p).map (Label.setDma .mapped) := by
    intro p hp hp'
    rw [heffect.labels_in p ((hphys p).2 ⟨hp, hp'⟩)]
    by_cases hold : p ∈ physOf .direct s.vmaMap (Set.Ico V (V + size))
    · rw [hun.dmem.labels_in p hold, Option.map_map]
      rfl
    · rw [hun.dmem.labels_out p hold]
  refine ⟨fun i hi => ?_, fun x hx => ?_, fun p hp hp' => ?_, hmarked, fun p hp hold => ?_,
    fun p hp hold => ?_⟩
  · obtain ⟨l, hl⟩ := hbytes i hi
    refine ⟨_, l.memoryType, by rw [hcreated.cells_eq, if_pos (by omega)], rfl, ?_⟩
    simp only [Nat.add_sub_cancel_left, hl, Option.map_some, backingOf]
  · rw [hcreated.cells_eq, if_neg hx, hun.cells_not_mem fun hmem => hx hmem]
  · have hmem := heffect.subset ((hphys p).2 ⟨hp, hp'⟩)
    obtain ⟨l, hl⟩ := Option.isSome_iff_exists.1 (heffect.ok.labels_isSome_iff.2 hmem)
    have hl' : labels s'.dmemMap p = some l := hl
    refine ⟨l, hl', ?_⟩
    rw [hmarked p hp hp'] at hl'
    obtain ⟨l', -, rfl⟩ := Option.map_eq_some_iff.1 hl'
    rfl
  · rw [heffect.labels_out p ((hphys p).not.2 hp), hun.dmem.labels_in p hold]
  · rw [heffect.labels_out p ((hphys p).not.2 hp), hun.dmem.labels_out p hold]

variable {cfg : Config} {s₀ : MemoryManager}

/-- In every reachable state failed calls change nothing, and a successful Direct mapping maps
exactly its range. -/
theorem failsCleanly_mapsWell (hfresh : Fresh cfg s₀)
    (h : Reachable (fun _ c => c.Promised) s₀ s) : FailsCleanly s ∧ MapsWell s := by
  have R := h.regular hfresh fun _ _ hc => hc
  have W := R.toWellFormed
  refine ⟨⟨?_, ?_, ?_, ?_, ?_, ?_, ?_⟩, ?_⟩
  · intro virtualAddr size prot flags type name validateDmem physAddr alignment code out s' hr hcode
    rcases mapMemory_cases W virtualAddr.toNat_lt hr with ⟨-, heq⟩ | ⟨target, -, hat⟩
    · exact heq
    · exact absurd (mapAt_code hat) hcode
  · exact fun _ _ _ _ _ _ _ _ _ hr hcode => mapFile_clean hr hcode
  · exact fun _ _ _ _ _ _ hr hcode => poolCommit_clean hr hcode
  · exact fun _ _ _ _ hr hcode => poolDecommit_clean hr hcode
  · exact fun _ _ _ _ _ hr hcode => free_clean hr hcode
  · exact fun _ _ size _ _ _ hr => allocate_clean W size.toNat_lt hr rfl
  · exact fun _ _ size _ _ hr => poolExpand_clean W size.toNat_lt hr rfl
  · intro virtualAddr size prot flags name validateDmem physAddr alignment out s' hr
    rcases mapMemory_cases W virtualAddr.toNat_lt hr with ⟨hne, -⟩ | ⟨target, hlt, hat⟩
    · exact absurd rfl hne
    · obtain ⟨-, hout, hmapped⟩ := mapAt_ok W R.usage_lt hlt size.toNat_lt physAddr.toNat_lt
        VMAType.noConfusion hat
      exact ⟨target, hout, hmapped.mapsDirect⟩

theorem failsCleanly_mapsWell_sample :
    ∃ s, runCalls Config.retail.start [.allocate 0 0x10000 0x8000 0 0] = .ok s ∧
      FailsCleanly s ∧ MapsWell s := by
  obtain ⟨s, hs⟩ : ∃ s, runCalls Config.retail.start [.allocate 0 0x10000 0x8000 0 0] = .ok s :=
    exists_of_toBool (by decide)
  refine ⟨s, hs, failsCleanly_mapsWell fresh_retail (runCalls_reachable .start (fun c hc _ => ?_)
    hs)⟩
  obtain rfl := List.mem_singleton.1 hc
  simp [Call.Promised]

end OrbitConsole.Memory
