import OrbitConsole.Core.Memory.UnmapSafety
import OrbitConsole.Core.Memory.RangeChecks

/-!
# Decommitting touches pool memory only

`PoolDecommit` looks for memory that is no pool memory in the areas that end within the
range, and then decommits the whole range. The area around the last byte escapes the check
when it reaches behind the range.
-/

namespace OrbitConsole.Memory

open Exec Tiling

variable {L : Layout} {cfg : Config} {s s₀ s₁ s' : MemoryManager} {c : Call}
  {A R U : Set ℕ} {m m' : VMAMap} {addr size k : ℕ} {v : VirtualMemoryArea}

def VMAType.IsPool (t : VMAType) : Prop := t = .pooled ∨ t = .poolReserved

instance (t : VMAType) : Decidable t.IsPool := inferInstanceAs (Decidable (_ ∨ _))

structure GivesBack (s : MemoryManager) (addr size : ℕ) (s' : MemoryManager) : Prop where
  inside : ∀ x, addr ≤ x → x < addr + size → ∃ c, cells s'.vmaMap x = some c ∧
    c.type = .poolReserved ∧ c.backing = none
  outside : ∀ x, ¬ (addr ≤ x ∧ x < addr + size) → cells s'.vmaMap x = cells s.vmaMap x
  repooled : ∀ p ∈ physOf .pooled s.vmaMap (Set.Ico addr (addr + size)),
    ∃ l, labels s.dmemMap p = some l ∧ labels s'.dmemMap p = some (Label.setDma .pooled l)
  kept : ∀ p ∉ physOf .pooled s.vmaMap (Set.Ico addr (addr + size)),
    labels s'.dmemMap p = labels s.dmemMap p
  fmemMap : s'.fmemMap = s.fmemMap
  flexibleUsage : s'.flexibleUsage = s.flexibleUsage
  poolBudget : s'.poolBudget =
    s.poolBudget + (bytesOf .pooled s.vmaMap (Set.Ico addr (addr + size))).ncard

/-- What the callers are promised of a decommit. -/
structure DecommitsPool (s : MemoryManager) (addr size : ℕ) : Prop where
  refuses : (∃ x c, addr ≤ x ∧ x < addr + size ∧ cells s.vmaMap x = some c ∧
    ¬ c.type.IsPool) → s.poolDecommit addr size = .ok (errorEinval, s)
  decommits : (∀ x c, addr ≤ x → x < addr + size → cells s.vmaMap x = some c →
    c.type.IsPool) → ∃ s', s.poolDecommit addr size = .ok (orbisOk, s') ∧
      GivesBack s addr size s'

/-- An area that is no pool memory ends within the range, if one reaches over its end. -/
def EndsInSight (m : VMAMap) (addr size : ℕ) : Prop :=
  ∀ k v, m.get? k = some v → k < addr + size → addr + size < k + v.size →
    ¬ v.type.IsPool → ∃ k' v', m.get? k' = some v' ∧ addr < k' + v'.size ∧
      k' + v'.size ≤ addr + size ∧ ¬ v'.type.IsPool

/-! ### The check -/

theorem poolDecommitCheck_iff (V : VmaMapOk m U) {stop start : ℕ}
    {l : List (ℕ × VirtualMemoryArea)} (h : Onward VirtualMemoryArea.size m l start) :
    MemoryManager.poolDecommitCheck stop l = true ↔
      ∀ e ∈ l, e.1 + e.2.size ≤ stop → e.2.type.IsPool := by
  induction l generalizing start with
  | nil => simp [MemoryManager.poolDecommitCheck]
  | cons e l ih =>
      obtain ⟨k, v⟩ := e
      have hk := h.get?_head
      have hbound := V.bounded hk
      rw [MemoryManager.poolDecommitCheck, V.base_eq hk, add64_eq (by omega), List.forall_mem_cons]
      split
      · next hend =>
          split
          · next htype =>
              simp only [Bool.false_eq_true, false_iff, not_and]
              exact fun hpool => absurd (hpool hend) fun hp => hp.elim htype.2 htype.1
          · next htype =>
              rw [ih (h.tail V.tiles), and_iff_right fun _ => ?_]
              by_contra hnot
              exact htype ⟨fun hp => hnot (.inr hp), fun hp => hnot (.inl hp)⟩
      · next hend =>
          refine iff_of_true rfl ⟨fun hle => absurd hle hend, fun e he hle => ?_⟩
          -- the areas behind end behind it
          have hge := (List.pairwise_cons.1 h.pairwise).1 e he
          simp only at hge
          omega

theorem poolDecommitCheck_eq (size : ℕ) (V : VmaMapOk m U) (hfloor : m.floor addr = some (k, v))
    (hin : addr < k + v.size) :
    MemoryManager.poolDecommitCheck (addr + size) (m.entriesFrom k) = true ↔
      ∀ k' v', m.get? k' = some v' → addr < k' + v'.size → k' + v'.size ≤ addr + size →
        v'.type.IsPool := by
  obtain ⟨hk, hle, -⟩ := OrderedMap.floor_eq_some_iff.1 hfloor
  have hrun : Onward VirtualMemoryArea.size m (m.entriesFrom k) k := Onward.entriesFrom V.tiles
  rw [poolDecommitCheck_iff V hrun]
  constructor
  · intro hall k' v' hk' hlt hend
    refine hall (k', v') (hrun.all k' v' hk' ?_) hend
    by_contra hbefore
    have := V.tiles.disjoint hk' hk (not_le.1 hbefore)
    omega
  · rintro hall ⟨k', v'⟩ he hend
    have hk' := hrun.mem (k', v') he
    have hge : k ≤ k' := hrun.ge (k', v') he
    refine hall k' v' hk' ?_ hend
    rcases Nat.eq_or_lt_of_le hge with rfl | hlt
    · rw [hk, Option.some.injEq] at hk'
      subst hk'
      exact hin
    · have := V.tiles.disjoint hk hk' hlt
      have := V.tiles.pos hk'
      omega

/-! ### Unshared pool memory -/

theorem Unshared.of_unmapped_pooled (h : Unshared .pooled s.vmaMap s.dmemMap L.direct)
    (hp : PoolOk s) (hu : Unmapped L A s s') :
    Unshared .pooled s'.vmaMap s'.dmemMap L.direct := by
  have hinherits : Inherits .pooled s.vmaMap s'.vmaMap := hu.inherits (by simp)
  have h₁ : Unshared .pooled s'.vmaMap s.dmemMap L.direct :=
    h.of_inherits hinherits (hu.pieces _ (subClosed_unbroken _ _) h.unbroken)
  exact h₁.of_effect hu.vma (by simp) hu.dmem (hp.disjoint.symm.mono hinherits.physOf_subset
    (physOf_mono (Set.subset_univ A)))

theorem Unshared.of_decommitted (h : Unshared .pooled s.vmaMap s.dmemMap L.direct)
    (hd : Decommitted L A s s') : Unshared .pooled s'.vmaMap s'.dmemMap L.direct := by
  have hinherits : Inherits .pooled s.vmaMap s'.vmaMap := hd.inherits (by simp)
  have h₁ : Unshared .pooled s'.vmaMap s.dmemMap L.direct :=
    h.of_inherits hinherits (hd.pieces _ (subClosed_unbroken _ _) h.unbroken)
  refine h₁.of_effect hd.vma (by simp) hd.dmem (Set.disjoint_left.2 ?_)
  -- what is still Pooled lies outside of the range, over other bytes
  rintro p ⟨x, -, c, t, hc, hcT, hp⟩ ⟨y, hy, d, u, hd', hdT, hq⟩
  have hxA : x ∉ A := by
    intro hx
    rw [hd.cells_in x hx, Option.some.injEq] at hc
    subst hc
    cases hcT
  rw [hd.cells_out x hxA] at hc
  exact hxA (h.injective hc hd' hcT hdT hp hq ▸ hy)

theorem Unshared.of_mapped_pooled {target physAddr : ℕ} {flags : MemoryMapFlags}
    {prot : MemoryProt} {type : VMAType} {name : String}
    (h : Unshared .pooled s.vmaMap s.dmemMap L.direct) (hp : PoolOk s)
    (hm : Mapped L target size flags prot type name physAddr s s')
    (huser : type = .direct → ∀ p, physAddr ≤ p → p < physAddr + size →
      p ∈ userBytes s.dmemMap) : Unshared .pooled s'.vmaMap s'.dmemMap L.direct := by
  obtain ⟨s₁, pa, hun, -, hc⟩ := hm.created
  have h₁ := (h.of_unmapped_pooled hp hun).of_created_other hc.toAreaCreated hc.backed.ne_pooled
  by_cases hdirect : type = .direct
  swap
  · have hdmem : s'.dmemMap = s₁.dmemMap := hc.backed.dmemMap_eq hdirect
    rw [hdmem]
    exact h₁
  subst hdirect
  obtain ⟨hB, hbytes, -⟩ := hc.backed.of_direct
  refine h₁.of_effect hc.ok (by simp) hB.effect (Set.disjoint_left.2 ?_)
  rintro p hpooled ⟨i, l, hi⟩
  have hlt : i < size := hB.tiles.tiles.view_isSome_iff.1 (by rw [← bytes, hi]; rfl)
  obtain ⟨l', hi'⟩ := hbytes i hlt
  rw [hi, Option.some.injEq, Prod.mk.injEq] at hi'
  have hinherits : Inherits .pooled s₁.vmaMap s'.vmaMap := hc.inherits hc.backed.ne_pooled
  have hcommitted := (hp.of_unmapped hun).backed (hinherits.physOf_subset hpooled)
  have huser' := hun.dmem.userBytes_in (fun _ => .inl rfl) (huser rfl p (by omega) (by omega))
  exact Set.disjoint_left.1 (userBytes_disjoint (by simp) (by simp)) hcommitted huser'

theorem Call.exec_unshared (Rg : Regular L s) (hp : PoolOk s)
    (h : Unshared .pooled s.vmaMap s.dmemMap L.direct) (hpromised : c.Promised)
    (hkeeps : c.KeepsPool s) (hcall : c.exec s = .ok s') :
    Unshared .pooled s'.vmaMap s'.dmemMap L.direct := by
  have W := Rg.toWellFormed
  cases Call.exec_effect Rg hpromised hcall with
  | unchanged => exact h
  | allocated ht =>
      exact h.of_effect W.vma (by simp) (ht.toRelabelled.effect W.dmem)
        ((ht.disjoint hpromised (by simp)).mono_left hp.backed)
  | expanded ht =>
      exact h.of_effect W.vma (by simp) (ht.toRelabelled.effect W.dmem)
        ((ht.disjoint hkeeps (by simp)).mono_left hp.backed)
  | @freed physAddr size _ s₁ _ hf =>
      rcases hkeeps with ⟨rfl, hrefused⟩ | hkeeps
      · obtain ⟨r, hr, rfl⟩ := map_eq_ok.1 hcall
        rw [free_refused W size.toNat_lt hrefused hr]
        exact h
      · have h₁ := h.of_unmapped_pooled hp hf.unmapped
        have hvma : s'.vmaMap = s₁.vmaMap := by rw [hf.rest]
        rw [hvma]
        refine h₁.of_effect hf.unmapped.vma (by simp) hf.dmem (Set.disjoint_left.2 ?_)
        intro p hpooled hreleased
        have hinherits : Inherits .pooled s.vmaMap s₁.vmaMap := hf.unmapped.inherits (by simp)
        exact (hkeeps p hreleased).2.1 (hp.backed (hinherits.physOf_subset hpooled))
  | committed hc =>
      refine h.of_created W.vma (by simp) hc.toAreaCreated hc.backed fun p hpa hold => ?_
      exact Set.disjoint_left.1 (bytesOfType_disjoint (by simp)) (hc.pooled p hpa)
        (hp.backed hold)
  | decommitted hd => exact h.of_decommitted hd
  | mapped hm _ _ hdmem =>
      refine h.of_mapped_pooled hp hm fun htype p hle hlt => ?_
      obtain ⟨l, hl, hlabel, -⟩ := hdmem htype p hle hlt
      exact hlabel.imp (fun ht => ⟨l, hl, ht⟩) fun ht => ⟨l, hl, ht⟩
  | mappedFile hm _ => exact h.of_mapped_pooled hp hm fun htype => by cases htype
  | unmapped _ hu => exact h.of_unmapped_pooled hp hu
  | guarded hs =>
      exact h.of_inherits hs.inherits (hs.pieces _ (subClosed_unbroken _ _) h.unbroken)
  | named hs =>
      exact h.of_inherits hs.inherits (hs.pieces _ (subClosed_unbroken _ _) h.unbroken)
  | retyped hr _ => exact hr.unshared _ (.inr rfl) hp.disjoint h

theorem Reachable.unsharedPool (hfresh : Fresh cfg s₀)
    (h : Reachable (fun s c => c.Promised ∧ c.KeepsPool s) s₀ s) :
    Unshared .pooled s.vmaMap s.dmemMap (cfg.layout s₀).direct := by
  have hall : (Regular (cfg.layout s₀) s ∧ PoolOk s) ∧
      Unshared .pooled s.vmaMap s.dmemMap (cfg.layout s₀).direct := by
    apply h.invariant (P := fun s => (Regular (cfg.layout s₀) s ∧ PoolOk s) ∧
      Unshared .pooled s.vmaMap s.dmemMap (cfg.layout s₀).direct)
    · refine ⟨⟨hfresh.regular, hfresh.poolOk⟩, ?_⟩
      have hne := hfresh.unmapOk.unpooled
      refine ⟨fun hx _ hcT _ _ _ => absurd hcT (hne _ _ hx), fun B => ?_, ?_⟩
      · rintro p ⟨x, -, c, t, hc, hcT, -⟩
        exact absurd hcT (hne x c hc)
      · intro k v hk x a _ htype
        have hpos := hfresh.regular.vma.tiles.pos hk
        exact absurd htype (hne k _ (hfresh.regular.vma.cells_eq hk le_rfl (by omega)))
    · intro s s' c hs hc hcall
      exact ⟨⟨(Call.exec_effect hs.1.1 hc.1 hcall).regular hs.1.1,
        Call.exec_poolOk hs.1.1 hc.1 hc.2 hs.1.2 hcall⟩,
        Call.exec_unshared hs.1.1 hs.1.2 hs.2 hc.1 hc.2 hcall⟩
  exact hall.2

/-! ### The loop -/

theorem poolDecommitLoop_returns (rounds : ℕ) (W : WellFormed L s)
    (hbudget : s.poolBudget < 18446744073709551616)
    (hu : Unshared .pooled s.vmaMap s.dmemMap L.direct)
    (hrange : Set.Ico addr (addr + size) ⊆ L.usable) (hlt : addr + size ≤ 9223372036854775808)
    (hrounds : size < rounds) :
    ∃ s', MemoryManager.poolDecommitLoop rounds addr size s = .ok s' := by
  induction rounds generalizing addr size s with
  | zero => omega
  | succ rounds ih =>
      by_cases hzero : size = 0
      · exact ⟨s, by rw [MemoryManager.poolDecommitLoop, if_pos hzero]; rfl⟩
      obtain ⟨k, v, hfloor, hin⟩ :=
        floor_of_mem (x := addr) W.vma (hrange ⟨le_rfl, by omega⟩)
      obtain ⟨hk, hle, -⟩ := OrderedMap.floor_eq_some_iff.1 hfloor
      have hbound := W.vma.bounded hk
      have hstart : sub64 addr v.base = addr - k := by
        rw [W.vma.base_eq hk]
        exact sub64_eq hle (by omega)
      have hleft : sub64 v.size (addr - k) = v.size - (addr - k) :=
        sub64_eq (by omega) (by omega)
      obtain ⟨n, hn⟩ : ∃ n, n = min size (v.size - (addr - k)) := ⟨_, rfl⟩
      have hpos : 0 < n := by omega
      have hend : addr + n ≤ k + v.size := by omega
      -- the bytes go back to the pool
      obtain ⟨s₁, hs₁⟩ : ∃ s₁, s.repoolBytes v (addr - k) (addr - k + n - (addr - k)) = .ok s₁ := by
        refine (repoolBytes_spec True W hbudget (W.vma.area hk) (by omega)
          (Nat.le_add_right _ _) (by omega) (by omega) fun _ htype => ?_).1 trivial
        exact hu.releasable W.vma hk htype (W.vma.area hk) (by simp [hasPhysicalBacking, htype])
          (by omega)
      rw [Nat.add_sub_cancel_left] at hs₁
      -- and the range gets an area of its own
      obtain ⟨m, hm⟩ := carveVMA_returns W.vma hk hle hpos hend
      obtain ⟨-, hcarved⟩ := carveVMA_ok W.vma (by omega) (by omega) hm
      obtain ⟨w, hw, -⟩ := hcarved.area
      obtain ⟨V, -, hget⟩ := hcarved.ok.modify
        (f := fun vma => { vma with
          type := .poolReserved
          prot := MemoryProt.noAccess
          disallowMerge := false
          name := "anon"
          physAreas := OrderedMap.empty }) hw rfl rfl
        ⟨fun hb => by simp [hasPhysicalBacking] at hb, fun _ => rfl⟩
      obtain ⟨m', k', v', hmerge, -⟩ := mergeAdjacentVMA_ok V hget
      obtain ⟨hround, -⟩ :=
        decommitted_round W hbudget (by omega) (by omega) hk hle hs₁ hfloor hm hmerge
      have hrest : Set.Ico (addr + n) (addr + n + (size - n)) ⊆ L.usable :=
        fun x hx => hrange ⟨by have := hx.1; omega, by have := hx.2; omega⟩
      obtain ⟨s', hs'⟩ := ih (hround.wellFormed W) hround.budget_lt (hu.of_decommitted hround)
        hrest (by omega) (by omega)
      refine ⟨s', ?_⟩
      rw [MemoryManager.poolDecommitLoop, if_neg hzero]
      refine bind_eq_ok.2 ⟨_, findArea_eq_ok.2 hfloor, ?_⟩
      simp only [hstart, hleft, ← hn]
      refine bind_eq_ok.2 ⟨s₁, hs₁, bind_eq_ok.2 ⟨(m, addr), ?_, bind_eq_ok.2 ⟨_, hmerge, ?_⟩⟩⟩
      · rw [repoolBytes_vmaMap hs₁]
        exact hm
      · rw [add64_eq (by omega), sub64_eq (by omega) (by omega)]
        exact hs'

/-! ### When nothing else is touched -/

theorem poolDecommit_cases (V : VmaMapOk s.vmaMap U) (hpos : 0 < size)
    (hsize : size < 18446744073709551616) (hrange : Set.Ico addr (addr + size) ⊆ U) :
    ((∀ k v, s.vmaMap.get? k = some v → addr < k + v.size → k + v.size ≤ addr + size →
        v.type.IsPool) ∧ ∀ s', MemoryManager.poolDecommitLoop (size + 1) addr size s = .ok s' →
          s.poolDecommit addr size = .ok (orbisOk, s')) ∨
      (∃ k v, s.vmaMap.get? k = some v ∧ addr < k + v.size ∧ k + v.size ≤ addr + size ∧
        ¬ v.type.IsPool) ∧ s.poolDecommit addr size = .ok (errorEinval, s) := by
  have hmem : addr ∈ U := hrange ⟨le_rfl, by omega⟩
  have hlast : addr + size - 1 < 9223372036854775808 :=
    V.lt_of_mem (hrange ⟨by omega, by omega⟩)
  obtain ⟨k, v, hfloor, hin⟩ := floor_of_mem V hmem
  have hvalid : s.isValidMapping addr size = true :=
    (isValidMapping_iff_of_mem V hmem hsize).2 hrange
  have hcheck := poolDecommitCheck_eq size V hfloor hin
  have hend : add64 addr size = addr + size := add64_eq (by omega)
  by_cases hok : MemoryManager.poolDecommitCheck (addr + size) (s.vmaMap.entriesFrom k) = true
  · refine .inl ⟨hcheck.1 hok, fun s' hs' => ?_⟩
    refine bind_eq_ok.2 ⟨(), assertMsg_eq_ok.2 hvalid, bind_eq_ok.2 ⟨_,
      findArea_eq_ok.2 hfloor, ?_⟩⟩
    simp only [hend, hok, Bool.not_true, Bool.false_eq_true, if_false]
    exact bind_eq_ok.2 ⟨s', hs', rfl⟩
  · right
    have hfail := hok
    rw [hcheck] at hok
    push Not at hok
    refine ⟨hok, ?_⟩
    refine bind_eq_ok.2 ⟨(), assertMsg_eq_ok.2 hvalid, bind_eq_ok.2 ⟨_,
      findArea_eq_ok.2 hfloor, ?_⟩⟩
    simp only [hend, Bool.eq_false_iff.2 hfail, Bool.not_false, if_true]
    rfl

theorem Decommitted.givesBack (Rg : Regular L s) (hp : PoolOk s)
    (hd : Decommitted L (Set.Ico addr (addr + size)) s s') : GivesBack s addr size s' := by
  have W := Rg.toWellFormed
  have hsubset : physOf .pooled s.vmaMap (Set.Ico addr (addr + size)) ⊆
      bytesOfType .committed s.dmemMap := (physOf_mono (Set.subset_univ _)).trans hp.backed
  refine ⟨fun x hx hx' => ⟨_, hd.cells_in x ⟨hx, hx'⟩, rfl, rfl⟩, fun x hx => hd.cells_out x hx,
    fun p hmem => ?_, fun p hmem => hd.dmem.labels_out p hmem, by rw [hd.rest], by rw [hd.rest],
    ?_⟩
  · obtain ⟨l, hl, -⟩ := hsubset hmem
    refine ⟨l, hl, ?_⟩
    rw [hd.dmem.labels_in p hmem, hl, Option.map_some]
  · -- the pooled bytes and those that join them lie in the direct memory
    have hcommitted := bytesOfType_subset W.dmem .committed
    have hunion := W.ncard_le
      (Set.union_subset (bytesOfType_subset W.dmem .pooled) (hsubset.trans hcommitted))
    rw [Set.ncard_union_eq ((bytesOfType_disjoint (by simp)).mono_right hsubset)
      (bytesOfType_finite W.dmem _) ((bytesOfType_finite W.dmem _).subset hsubset),
      ncard_physOf W.vma (by simp) hp.injective, ← hp.budget] at hunion
    rw [hd.budget, add64_eq (by omega)]

theorem decommitsPool_iff_of_unshared (Rg : Regular L s) (hp : PoolOk s)
    (hu : Unshared .pooled s.vmaMap s.dmemMap L.direct) (hpos : 0 < size)
    (hsize : size < 18446744073709551616) (hrange : Set.Ico addr (addr + size) ⊆ L.usable) :
    DecommitsPool s addr size ↔ EndsInSight s.vmaMap addr size := by
  have V := Rg.vma
  have hlast : addr + size - 1 < 9223372036854775808 :=
    V.lt_of_mem (hrange ⟨by omega, by omega⟩)
  -- a byte has the type of the area around it
  have hcell : ∀ {k v x}, s.vmaMap.get? k = some v → k ≤ x → x < k + v.size →
      ∃ c, cells s.vmaMap x = some c ∧ c.type = v.type :=
    fun hk hx hx' => ⟨_, V.cells_eq hk hx hx', rfl⟩
  rcases poolDecommit_cases V hpos hsize hrange with ⟨hall, hruns⟩ | ⟨⟨k, v, hk, hlt, hend, hnot⟩,
    hrefuses⟩
  · obtain ⟨s', hs'⟩ := poolDecommitLoop_returns (size + 1) Rg.toWellFormed Rg.budget_lt hu hrange
      (by omega) (Nat.lt_succ_self size)
    have hd := poolDecommitLoop_ok _ Rg.toWellFormed Rg.budget_lt (by omega) hsize hs'
    constructor
    · intro h k v hk hlt hover hnot
      obtain ⟨c, hc, htype⟩ := hcell (x := addr + size - 1) hk (by omega) (by omega)
      have := h.refuses ⟨addr + size - 1, c, by omega, by omega, hc, by rwa [htype]⟩
      rw [hruns s' hs', Except.ok.injEq, Prod.mk.injEq] at this
      exact absurd this.1 (by decide)
    · intro hsight
      refine ⟨?_, fun _ => ⟨s', hruns s' hs', hd.givesBack Rg hp⟩⟩
      rintro ⟨x, c, hx, hx', hc, hnot⟩
      exfalso
      obtain ⟨k, v, hk, hle, hlt⟩ := (V.tiles.mem_iff x).1 (hrange ⟨hx, hx'⟩)
      obtain ⟨c', hc', htype⟩ := hcell hk hle hlt
      rw [hc, Option.some.injEq] at hc'
      subst hc'
      rw [htype] at hnot
      rcases Nat.lt_or_ge (addr + size) (k + v.size) with hover | hend
      · obtain ⟨k', v', hk', hlt', hend', hnot'⟩ := hsight k v hk (by omega) hover hnot
        exact hnot' (hall k' v' hk' hlt' hend')
      · exact hnot (hall k v hk (by omega) hend)
  · refine iff_of_true ⟨fun _ => hrefuses, fun hpool => ?_⟩
      fun _ _ _ _ _ _ => ⟨k, v, hk, hlt, hend, hnot⟩
    obtain ⟨c, hc, htype⟩ := hcell (x := k + v.size - 1) hk
      (by have := V.tiles.pos hk; omega) (by have := V.tiles.pos hk; omega)
    exact absurd (htype ▸ hpool (k + v.size - 1) c (by omega) (by omega) hc) hnot

/-- After any run that keeps the pool, a decommit does what it should exactly when it sees what
it has to refuse. -/
theorem decommitsPool_iff (hfresh : Fresh cfg s₀)
    (h : Reachable (fun s c => c.Promised ∧ c.KeepsPool s) s₀ s) (addr size : UInt64)
    (hpos : 0 < size.toNat) (hrange : InAreas s.vmaMap addr.toNat size.toNat) :
    DecommitsPool s addr.toNat size.toNat ↔ EndsInSight s.vmaMap addr.toNat size.toNat := by
  obtain ⟨Rg, hp⟩ := h.poolOk hfresh
  exact decommitsPool_iff_of_unshared Rg hp (h.unsharedPool hfresh) hpos size.toNat_lt
    (Rg.vma.inAreas_iff.1 hrange)

def commitCalls : List Call :=
  [.poolExpand 0 0x100000 0x20000 0,
    .mapMemory 0x200000000 0x40000 0 0 .poolReserved "pool" false 0xffffffffffffffff 0x10000,
    .poolCommit 0x200000000 0x10000 3 0]

theorem decommitsPool_iff_sample : ∃ s, runCalls Config.retail.start commitCalls = .ok s ∧
    (DecommitsPool s (0x200000000 : UInt64).toNat (0x20000 : UInt64).toNat ↔
      EndsInSight s.vmaMap (0x200000000 : UInt64).toNat (0x20000 : UInt64).toNat) := by
  have hcheck : ((runCalls Config.retail.start commitCalls).toOption.any fun s =>
      s.isValidMapping (0x200000000 : UInt64).toNat (0x20000 : UInt64).toNat) = true := by
    decide
  obtain ⟨s, hrun, hvalid⟩ := exists_of_any hcheck
  have hreach : Reachable (fun s c => c.Promised ∧ c.KeepsPool s) Config.retail.start s := by
    refine runCalls_reachable .start (fun c hc _ => ?_) hrun
    simp only [commitCalls, List.mem_cons, List.not_mem_nil, or_false] at hc
    rcases hc with rfl | rfl | rfl
    · exact ⟨trivial, by simp [Call.KeepsPool]⟩
    · exact ⟨by simp [Call.Promised], trivial⟩
    · exact ⟨trivial, trivial⟩
  have V := (hreach.poolOk fresh_retail).1.vma
  have hmem : (0x200000000 : UInt64).toNat ∈ Config.retail.regions.addresses :=
    ⟨(0x200000000, 0x200100000), by simp [Config.retail], by decide, by decide⟩
  have hrange : InAreas s.vmaMap (0x200000000 : UInt64).toNat (0x20000 : UInt64).toNat :=
    V.inAreas_iff.2 ((isValidMapping_iff_of_mem V hmem (by decide)).1 hvalid)
  exact ⟨s, hrun, decommitsPool_iff fresh_retail hreach 0x200000000 0x20000 (by decide) hrange⟩

/-- A Free area that reaches behind the range is decommitted. -/
theorem decommitsPool_fails :
    InAreas Config.retail.start.vmaMap 0x200000000 0x10000 ∧
      ¬ DecommitsPool Config.retail.start 0x200000000 0x10000 := by
  have V := fresh_retail.regular.vma
  have hmem : 0x200000000 ∈ Config.retail.regions.addresses :=
    ⟨(0x200000000, 0x200100000), by simp [Config.retail], by decide, by decide⟩
  have hvalid : Config.retail.start.isValidMapping 0x200000000 0x10000 = true := by decide
  refine ⟨V.inAreas_iff.2 ((isValidMapping_iff_of_mem V hmem (by decide)).1 hvalid), fun h => ?_⟩
  have hcall : ((Config.retail.start.poolDecommit 0x200000000 0x10000).toOption.any fun r =>
      r.1 = orbisOk) = true := by decide
  obtain ⟨r, hr, hcode⟩ := exists_of_any hcall
  have hfree : (cells Config.retail.start.vmaMap 0x200000000).any fun c => c.type = .free := by
    decide
  obtain ⟨c, hc, htype⟩ := (Option.any_eq_true _ _).1 hfree
  have hrefuses := h.refuses ⟨0x200000000, c, le_rfl, by decide, hc, by
    rw [of_decide_eq_true htype]
    decide⟩
  rw [hr, Except.ok.injEq] at hrefuses
  rw [hrefuses] at hcode
  exact absurd hcode (by decide)

end OrbitConsole.Memory
