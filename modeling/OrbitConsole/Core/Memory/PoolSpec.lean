import OrbitConsole.Core.Memory.MapSpec

/-!
# What committing and decommitting do

`Committed` is the effect of a successful `PoolCommit`: an area of type Pooled
is created and backed by memory that was pooled. `Decommitted` is the effect of
a successful `PoolDecommit`: the range becomes PoolReserved, and the memory
behind its Pooled bytes is pooled again.
-/

namespace OrbitConsole.Memory

open Exec

variable {L : Layout} {s s' : MemoryManager} {U A B : Set ℕ} {T : VMAType} {addr size : ℕ}
  {prot : MemoryProt} {mtype : ℤ}

/-! ### `PoolCommit` -/

/-- What committing makes of a pooled byte. -/
def Label.commit (mtype : ℤ) (_ : Label) : Label := ⟨mtype, .committed⟩

theorem relabels_commit (mtype : ℤ) :
    Relabels (fun area => { area with dmaType := .committed, memoryType := mtype })
      (Label.commit mtype) :=
  fun _ => ⟨rfl, rfl, rfl⟩

/-- A `PoolCommit` that succeeded. The range it carves lies in reserved pool memory unless
it is shorter than the distance to the next 64 KB boundary. -/
structure Committed (L : Layout) (addr size : ℕ) (prot : MemoryProt) (mtype : ℤ)
    (s s' : MemoryManager) (pa : PhysMap) : Prop
    extends AreaCreated L.usable addr size prot .pooled "anon" s.vmaMap pa s'.vmaMap where
  backed : Backed L.direct s.dmemMap (Label.commit mtype) s'.dmemMap pa size
  pooled : ∀ p ∈ physBytes pa, p ∈ bytesOfType .pooled s.dmemMap
  lt_budget : size < s.poolBudget
  rest : s' = { s with
    vmaMap := s'.vmaMap
    dmemMap := s'.dmemMap
    poolBudget := sub64 s.poolBudget size }
  reserved : poolPageSize ≤ size → ∀ x, addr ≤ x → x < addr + size → ∀ c,
    cells s.vmaMap x = some c → c.type = .poolReserved
  range : Set.Ico addr (addr + size) ⊆ L.usable

theorem fills_committed (prot : MemoryProt) (pa : PhysMap) :
    Fills (fun newVma => { newVma with
      disallowMerge := false
      prot := prot
      name := "anon"
      type := .pooled
      physAreas := pa }) prot .pooled "anon" pa :=
  ⟨fun _ => rfl, fun _ => rfl, fun _ => rfl, fun _ => rfl, fun _ => rfl, fun _ => rfl⟩

theorem alignUp_poolPageSize {value : ℕ} (h : value < 9223372036854775808) :
    value ≤ alignUp value poolPageSize ∧ alignUp value poolPageSize < value + poolPageSize := by
  unfold alignUp poolPageSize
  simp only
  split
  · omega
  · rw [add64_eq (by omega)]
    omega

theorem poolCommit_ok {r : ℤ × MemoryManager} (W : WellFormed L s)
    (haddr : addr < 18446744073709551616) (hsize : size < 18446744073709551616)
    (h : s.poolCommit addr size prot mtype = .ok r) :
    r.2 = s ∨ ∃ pa, Committed L addr size (withRead prot) mtype s r.2 pa := by
  unfold MemoryManager.poolCommit at h
  obtain ⟨_, hvalid, h⟩ := bind_eq_ok.1 h
  obtain ⟨⟨k, vma⟩, hfind, h⟩ := bind_eq_ok.1 h
  simp only at h
  by_cases htype : vma.type = .poolReserved
  swap
  · rw [if_pos htype] at h
    cases h
    exact .inl rfl
  rw [if_neg (not_not.2 htype)] at h
  split at h
  · cases h
    exact .inl rfl
  split at h
  · cases h
    exact .inl rfl
  next hbudget =>
  obtain ⟨⟨m, handle⟩, hcarve, h⟩ := bind_eq_ok.1 h
  obtain ⟨b, hb, h⟩ := bind_eq_ok.1 h
  obtain ⟨_, hzero, h⟩ := bind_eq_ok.1 h
  obtain ⟨⟨m', k'⟩, hmerge, hret⟩ := bind_eq_ok.1 h
  rw [assertMsg_eq_ok] at hzero
  obtain ⟨hhandle, hcarved⟩ := carveVMA_ok W.vma haddr hsize hcarve
  simp only at hhandle hcarved
  subst handle
  have hpos : 0 < size := by
    obtain ⟨-, -, -, -, -, hpos, -⟩ := hcarved.area_eq
    exact hpos
  have hlt := isValidMapping_lt W.vma (assertMsg_eq_ok.1 hvalid)
  obtain ⟨halign, halign'⟩ := alignUp_poolPageSize hlt
  have hrange := hcarved.subset W.vma
  have hend : addr + size ≤ 9223372036854775808 := by
    have := W.vma.lt_of_mem (hrange ⟨show addr ≤ addr + size - 1 by omega, by omega⟩)
    omega
  have hpage : poolPageSize = 65536 := rfl
  obtain ⟨hB, -, hpooled⟩ := ((Backing.scatter_all_spec W.dmem (relabels_commit mtype)
    (fun _ => rfl) (fun _ => by simp [Label.commit])
    (show alignUp addr poolPageSize + size < 18446744073709551616 by omega)
    (show 0 < 18446744073709551616 by omega) (fun h : False => h.elim)).2 b hb).1 hzero
  cases hret
  refine .inr ⟨b.physAreas, areaCreated_of_carved hcarved (fills_committed _ b.physAreas)
    (fun v hv hpa hvsize => ?_) rfl (.inr hmerge), hB, hpooled, by omega, rfl, ?_, hrange⟩
  · refine ⟨fun _ => ?_, fun hnot => ?_⟩
    · rw [hpa, hvsize]
      exact hB.tiles
    · simp [hasPhysicalBacking, hv] at hnot
  · -- the carved area contains the aligned address
    intro hlong x hx hx' c hc
    obtain ⟨k₁, v₁, hk₁, hle₁, hend₁⟩ := hcarved.inside
    have hfloor := W.vma.tiles.floor_eq (p := alignUp addr poolPageSize) hk₁ (by omega)
      (by omega)
    obtain ⟨rfl, rfl⟩ : k₁ = k ∧ v₁ = vma := by
      have := findArea_eq_ok.1 hfind
      simpa [hfloor] using this
    rw [W.vma.cells_eq hk₁ (by omega) (by omega), Option.some.injEq] at hc
    subst hc
    exact htype

/-! ### `PoolDecommit` -/

theorem repoolBytes_spec (total : Prop) {v : VirtualMemoryArea} {start stop : ℕ}
    (W : WellFormed L s) (hbudget : s.poolBudget < 18446744073709551616) (hv : VmaOk v)
    (hsize : v.size ≤ 9223372036854775808) (hstart : start ≤ stop) (hstop : stop ≤ v.size)
    (hpos : start < v.size)
    (hsafe : total → v.type = .pooled → Releasable L.direct s.dmemMap v start stop) :
    Spec total (s.repoolBytes v start (stop - start)) fun s' =>
      PhysEffect L.direct s.dmemMap (physRangeOf .pooled v start stop) (Label.setDma .pooled)
        s'.dmemMap ∧
      s' = { s with
        dmemMap := s'.dmemMap
        poolBudget := add64 s.poolBudget (if v.type = .pooled then stop - start else 0) } := by
  unfold MemoryManager.repoolBytes
  split
  · next htype =>
      have P := hv.backed (by simp [hasPhysicalBacking, htype])
      obtain ⟨x, a, hx, hle, hlt⟩ := (P.tiles.mem_iff start).1 hpos
      have hfloor : v.physAreas.floor start = some (x, a) := P.tiles.floor_eq hx hle hlt
      refine Spec.bind (Spec.of_ok (Q := fun e => e = (x, a)) (findArea_eq_ok.2 hfloor) rfl) ?_
      rintro _ rfl
      refine Spec.bind (walkPhysAreas_spec
        (fun pos m => PhysEffect L.direct s.dmemMap (physRange v start pos)
          (Label.setDma .pooled) m) P hsize hfloor hstart hstop
        ((PhysEffect.refl W.dmem).congr physRange_self.symm)
        (fun x a hx off len m hso hxo hlen hend hle hinv => ?_)) ?_
      · unfold MemoryManager.repoolPhys
        refine Spec.bind (relabelPiece_spec P (relabels_setDma .pooled) (fun _ => rfl)
          (fun h => hsafe h htype) hinv hx hso hxo hlen hend hle) ?_
        rintro ⟨m', handle, area⟩ heff
        exact Spec.pure heff
      · rintro ⟨m, left⟩ ⟨hleft, heff⟩
        refine Spec.bind (Spec.of_ok (a := ()) (Q := fun _ => True) (assertMsg_eq_ok.2 hleft)
          trivial) fun _ _ => Spec.pure ?_
        rw [physRangeOf_eq htype]
        exact ⟨heff, rfl⟩
  · next htype =>
      refine Spec.pure ?_
      rw [physRangeOf_ne htype, add64_eq (by omega)]
      exact ⟨PhysEffect.refl W.dmem, rfl⟩

theorem repoolBytes_vmaMap {v : VirtualMemoryArea} {start n : ℕ}
    (h : s.repoolBytes v start n = .ok s') : s'.vmaMap = s.vmaMap := by
  unfold MemoryManager.repoolBytes at h
  split at h
  · obtain ⟨⟨first, b⟩, -, h⟩ := bind_eq_ok.1 h
    obtain ⟨⟨m, left⟩, -, h⟩ := bind_eq_ok.1 h
    obtain ⟨_, -, h⟩ := bind_eq_ok.1 h
    cases h
    rfl
  · cases h
    rfl

theorem fills_decommitted :
    Fills (fun vma => { vma with
      type := .poolReserved
      prot := MemoryProt.noAccess
      disallowMerge := false
      name := "anon"
      physAreas := OrderedMap.empty }) MemoryProt.noAccess .poolReserved "anon"
      OrderedMap.empty :=
  ⟨fun _ => rfl, fun _ => rfl, fun _ => rfl, fun _ => rfl, fun _ => rfl, fun _ => rfl⟩

def Cell.poolReserved : Cell := ⟨.poolReserved, MemoryProt.noAccess, "anon", none⟩

structure Decommitted (L : Layout) (A : Set ℕ) (s s' : MemoryManager) : Prop where
  dmem : PhysEffect L.direct s.dmemMap (physOf .pooled s.vmaMap A) (Label.setDma .pooled)
    s'.dmemMap
  budget : s'.poolBudget = add64 s.poolBudget (bytesOf .pooled s.vmaMap A).ncard
  rest : s' = { s with
    vmaMap := s'.vmaMap
    dmemMap := s'.dmemMap
    poolBudget := s'.poolBudget }
  vma : VmaMapOk s'.vmaMap L.usable
  cells_in : ∀ x ∈ A, cells s'.vmaMap x = some Cell.poolReserved
  cells_out : ∀ x ∉ A, cells s'.vmaMap x = cells s.vmaMap x
  pieces : ∀ Q, SubClosed Q → AllPieces Q s.vmaMap → AllPieces Q s'.vmaMap
  range : A ⊆ L.usable

theorem Decommitted.wellFormed (h : Decommitted L A s s') (W : WellFormed L s) :
    WellFormed L s' := by
  have hrest := h.rest
  refine ⟨h.vma, h.dmem.ok, ?_, ?_, ?_⟩
  · rw [hrest]
    exact W.fmem
  · rw [hrest]
    exact W.direct_eq
  · rw [hrest]
    exact W.flexible_eq

theorem Decommitted.budget_lt (h : Decommitted L A s s') :
    s'.poolBudget < 18446744073709551616 := by
  rw [h.budget]
  exact add64_lt _ _

theorem Decommitted.refl (W : WellFormed L s) (hbudget : s.poolBudget < 18446744073709551616) :
    Decommitted L ∅ s s := by
  have hempty : bytesOf .pooled s.vmaMap ∅ = ∅ := by
    ext x
    simp [bytesOf]
  refine ⟨?_, ?_, rfl, W.vma, fun x hx => hx.elim, fun _ _ => rfl, fun _ _ hm => hm,
    Set.empty_subset _⟩
  · rw [physOf_empty]
    exact PhysEffect.refl W.dmem
  · rw [hempty, Set.ncard_empty, add64_eq (by omega)]
    rfl

theorem Decommitted.trans {s₁ s₂ : MemoryManager} (h : Decommitted L A s s₁)
    (h' : Decommitted L B s₁ s₂) (hAB : Disjoint A B) (hA : A.Finite) (hB : B.Finite) :
    Decommitted L (A ∪ B) s s₂ := by
  have hcells : ∀ x ∈ B, cells s₁.vmaMap x = cells s.vmaMap x := fun x hx =>
    h.cells_out x fun hxA => Set.disjoint_left.1 hAB hxA hx
  refine ⟨?_, ?_, ?_, h'.vma, ?_, ?_, fun Q hQ hm => h'.pieces Q hQ (h.pieces Q hQ hm),
    Set.union_subset h.range h'.range⟩
  · rw [physOf_union, ← physOf_congr hcells]
    exact h.dmem.trans (fun _ => rfl) h'.dmem
  · rw [h'.budget, h.budget, add64_add64, ncard_bytesOf_union hAB hA hB, bytesOf_congr hcells]
  · rw [h'.rest, h.rest]
  · intro x hx
    by_cases hxB : x ∈ B
    · exact h'.cells_in x hxB
    · rw [h'.cells_out x hxB]
      exact h.cells_in x (hx.resolve_right hxB)
  · intro x hx
    rw [h'.cells_out x fun hxB => hx (.inr hxB), h.cells_out x fun hxA => hx (.inl hxA)]

theorem decommitted_round {s₁ : MemoryManager} {n k k' handle : ℕ} {v : VirtualMemoryArea}
    {m m' : VMAMap} (W : WellFormed L s) (hbudget : s.poolBudget < 18446744073709551616)
    (haddr : addr < 18446744073709551616) (hn : n < 18446744073709551616)
    (hk : s.vmaMap.get? k = some v) (hle : k ≤ addr)
    (hs₁ : s.repoolBytes v (addr - k) n = .ok s₁)
    (hfloor : s.vmaMap.floor addr = some (k, v))
    (hcarve : carveVMA s.vmaMap addr n = .ok (m, handle))
    (hmerge : mergeAdjacentVMA (m.modify handle fun vma => { vma with
      type := .poolReserved
      prot := MemoryProt.noAccess
      disallowMerge := false
      name := "anon"
      physAreas := OrderedMap.empty }) handle = .ok (m', k')) :
    Decommitted L (Set.Ico addr (addr + n)) s { s₁ with vmaMap := m' } ∧
      addr + n ≤ 9223372036854775808 := by
  obtain ⟨hhandle, hcarved⟩ := carveVMA_ok W.vma haddr hn hcarve
  simp only at hhandle hcarved
  subst handle
  -- a range that could be carved lies in the area found
  obtain ⟨k₁, v₁, hk₁, hle₁, hend₁⟩ := hcarved.inside
  obtain ⟨w, hw, hwsize, -, -, hnpos, -⟩ := hcarved.area_eq
  obtain ⟨rfl, rfl⟩ : k₁ = k ∧ v₁ = v := by
    simpa [W.vma.tiles.floor_eq hk₁ hle₁ (by omega)] using hfloor
  have hbound := W.vma.bounded hk₁
  have hstop : addr - k₁ + n - (addr - k₁) = n := by omega
  rw [← hstop] at hs₁
  obtain ⟨heff, hrest⟩ := (repoolBytes_spec False W hbudget (W.vma.area hk₁) (by omega)
    (show addr - k₁ ≤ addr - k₁ + n by omega) (by omega) (by omega) False.elim).2 _ hs₁
  have hcreated := areaCreated_of_carved hcarved fills_decommitted
    (fun v hv hpa _ => ⟨fun hb => by simp [hasPhysicalBacking, hv] at hb, fun _ => hpa⟩)
    rfl (.inr hmerge)
  rw [hstop] at hrest
  refine ⟨⟨?_, ?_, ?_, hcreated.ok, fun x hx => ?_, fun x hx => ?_,
    fun Q hQ hm => hcreated.pieces Q hQ hm ?_, hcarved.subset W.vma⟩, by omega⟩
  · rw [W.vma.physOf_ico hk₁ hle₁ hend₁]
    exact heff
  · rw [W.vma.bytesOf_area hk₁ hle₁ hend₁, hrest]
  · rw [hrest]
  · rw [hcreated.cells_eq]
    exact if_pos hx
  · rw [hcreated.cells_eq]
    exact if_neg hx
  · intro x a hx
    cases hx

theorem poolDecommitLoop_ok (rounds : ℕ) (W : WellFormed L s)
    (hbudget : s.poolBudget < 18446744073709551616) (haddr : addr < 18446744073709551616)
    (hsize : size < 18446744073709551616)
    (h : MemoryManager.poolDecommitLoop rounds addr size s = .ok s') :
    Decommitted L (Set.Ico addr (addr + size)) s s' := by
  induction rounds generalizing addr size s with
  | zero => cases h
  | succ rounds ih =>
      rw [MemoryManager.poolDecommitLoop] at h
      split at h
      · next hzero =>
          cases h
          rw [hzero, Nat.add_zero, Set.Ico_self]
          exact Decommitted.refl W hbudget
      next hpos =>
      obtain ⟨⟨k, v⟩, hfind, h⟩ := bind_eq_ok.1 h
      obtain ⟨hk, hle, -⟩ := OrderedMap.floor_eq_some_iff.1 (findArea_eq_ok.1 hfind)
      simp only [W.vma.base_eq hk, sub64_eq hle haddr] at h
      obtain ⟨s₁, hs₁, h⟩ := bind_eq_ok.1 h
      obtain ⟨⟨m, handle⟩, hcarve, h⟩ := bind_eq_ok.1 h
      obtain ⟨⟨m', k'⟩, hmerge, hloop⟩ := bind_eq_ok.1 h
      have hvma := repoolBytes_vmaMap hs₁
      rw [hvma] at hcarve
      generalize hn : min size (sub64 v.size (addr - k)) = n at hs₁ hcarve hloop
      have hnsize : n ≤ size := by omega
      obtain ⟨hround, hbound⟩ := decommitted_round W hbudget haddr (by omega) hk hle hs₁
        (findArea_eq_ok.1 hfind) hcarve hmerge
      have hrest := ih (hround.wellFormed W) hround.budget_lt (add64_lt _ _) (sub64_lt _ _) hloop
      rw [add64_eq (by omega), sub64_eq hnsize hsize] at hrest
      rw [show addr + n + (size - n) = addr + size by omega] at hrest
      have htrans := hround.trans hrest (ico_disjoint _ _ _) (Set.finite_Ico _ _)
        (Set.finite_Ico _ _)
      rwa [ico_split (by omega) (by omega)] at htrans

theorem poolDecommit_ok {r : ℤ × MemoryManager} (W : WellFormed L s)
    (hbudget : s.poolBudget < 18446744073709551616) (haddr : addr < 18446744073709551616)
    (hsize : size < 18446744073709551616) (h : s.poolDecommit addr size = .ok r) :
    r.2 = s ∨ Decommitted L (Set.Ico addr (addr + size)) s r.2 := by
  unfold MemoryManager.poolDecommit at h
  obtain ⟨_, -, h⟩ := bind_eq_ok.1 h
  obtain ⟨⟨k, v⟩, -, h⟩ := bind_eq_ok.1 h
  simp only at h
  split at h
  · cases h
    exact .inl rfl
  · obtain ⟨s', hs', h⟩ := bind_eq_ok.1 h
    cases h
    exact .inr (poolDecommitLoop_ok _ W hbudget haddr hsize hs')

end OrbitConsole.Memory
