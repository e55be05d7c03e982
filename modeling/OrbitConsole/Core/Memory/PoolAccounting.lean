import OrbitConsole.Core.Memory.Flexible
import OrbitConsole.Core.Memory.DirectBacked

/-!
# Pool accounting

The pool budget is the number of pooled bytes, every Pooled byte is backed by a
committed one, and no two by the same one: `PoolOk`. The calls that take part in
the accounting keep it. `Free` does not take part in it, and `PoolExpand` wraps
around at the end of the address space; `Call.KeepsPool` says which of their
calls do no harm.
-/

namespace OrbitConsole.Memory

open Exec

variable {L : Layout} {cfg : Config} {s s₀ s₁ s' : MemoryManager} {c : Call} {A : Set ℕ}

/-! ### Bytes of a type -/

section BytesOfType

variable {U R : Set ℕ} {m m' : PhysMap} {g : Label → Label} {t u : PhysicalMemoryType}

theorem bytesOfType_disjoint (h : t ≠ u) : Disjoint (bytesOfType t m) (bytesOfType u m) := by
  rw [Set.disjoint_left]
  rintro p ⟨l, hl, rfl⟩ ⟨l', hl', rfl⟩
  rw [hl, Option.some.injEq] at hl'
  exact h (congrArg Label.dmaType hl')

theorem PhysEffect.bytesOfType_other (h : PhysEffect U m R g m')
    (hg : ∀ l, (g l).dmaType ≠ t) (hR : Disjoint (bytesOfType t m) R) :
    bytesOfType t m' = bytesOfType t m := by
  rw [h.bytesOfType_ne hg, hR.sdiff_eq_left]

theorem PhysEffect.bytesOfType_keep (h : PhysEffect U m R g m')
    (hg : ∀ l, (g l).dmaType = l.dmaType) (t : PhysicalMemoryType) :
    bytesOfType t m' = bytesOfType t m := by
  ext p
  by_cases hp : p ∈ R
  · simp only [bytesOfType, Set.mem_ofPred_eq, h.labels_in p hp, Option.map_eq_some_iff]
    constructor
    · rintro ⟨_, ⟨l, hl, rfl⟩, ht⟩
      exact ⟨l, hl, (hg l).symm.trans ht⟩
    · rintro ⟨l, hl, ht⟩
      exact ⟨g l, ⟨l, hl, rfl⟩, (hg l).trans ht⟩
  · simp only [bytesOfType, Set.mem_ofPred_eq, h.labels_out p hp]

def userBytes (m : PhysMap) : Set ℕ := bytesOfType .allocated m ∪ bytesOfType .mapped m

theorem userBytes_disjoint (h : t ≠ .allocated) (h' : t ≠ .mapped) :
    Disjoint (bytesOfType t m) (userBytes m) :=
  Set.disjoint_union_right.2 ⟨bytesOfType_disjoint h, bytesOfType_disjoint h'⟩

theorem PhysEffect.userBytes_out (h : PhysEffect U m R g m') {p : ℕ} (hp : p ∉ R)
    (hm : p ∈ userBytes m) : p ∈ userBytes m' := by
  simpa only [userBytes, bytesOfType, Set.mem_union, Set.mem_ofPred_eq, h.labels_out p hp]
    using hm

theorem PhysEffect.userBytes_in (h : PhysEffect U m R g m') {p : ℕ}
    (hg : ∀ l, (g l).dmaType = .allocated ∨ (g l).dmaType = .mapped) (hm : p ∈ userBytes m) :
    p ∈ userBytes m' := by
  by_cases hp : p ∈ R
  · obtain ⟨l, hl⟩ : ∃ l, labels m p = some l := by
      rcases hm with ⟨l, hl, -⟩ | ⟨l, hl, -⟩ <;> exact ⟨l, hl⟩
    have hl' := h.labels_in p hp
    rw [hl, Option.map_some] at hl'
    exact (hg l).imp (fun ht => ⟨_, hl', ht⟩) fun ht => ⟨_, hl', ht⟩
  · exact h.userBytes_out hp hm

end BytesOfType

theorem WellFormed.ncard_le (W : WellFormed L s) {R : Set ℕ} (hR : R ⊆ L.direct) :
    R.ncard ≤ 9223372036854775808 := by
  have hcard := Set.ncard_le_ncard hR (Set.finite_Iio _)
  rw [Layout.direct, Set.ncard_Iio_nat] at hcard
  exact hcard.trans W.directSize_le

/-! ### The invariant -/

structure PoolOk (s : MemoryManager) : Prop where
  budget : s.poolBudget = (bytesOfType .pooled s.dmemMap).ncard
  backed : physOf .pooled s.vmaMap Set.univ ⊆ bytesOfType .committed s.dmemMap
  injective : Injective .pooled s.vmaMap
  /-- No Direct mapping refers to pooled memory. -/
  direct : physOf .direct s.vmaMap Set.univ ⊆ userBytes s.dmemMap

theorem PoolOk.disjoint (h : PoolOk s) :
    Disjoint (physOf .direct s.vmaMap Set.univ) (physOf .pooled s.vmaMap Set.univ) :=
  ((userBytes_disjoint (by simp) (by simp)).mono h.backed h.direct).symm

theorem PoolOk.of_kept (h : PoolOk s) (hbudget : s'.poolBudget = s.poolBudget)
    (hpooled : bytesOfType .pooled s'.dmemMap = bytesOfType .pooled s.dmemMap)
    (hcommitted : bytesOfType .committed s'.dmemMap = bytesOfType .committed s.dmemMap)
    (hinherits : Inherits .pooled s.vmaMap s'.vmaMap)
    (hdirect : physOf .direct s'.vmaMap Set.univ ⊆ userBytes s'.dmemMap) : PoolOk s' where
  budget := by rw [hbudget, hpooled, h.budget]
  backed := by rw [hcommitted]; exact hinherits.physOf_subset.trans h.backed
  injective := hinherits.injective h.injective
  direct := hdirect

theorem PoolOk.of_inherits (h : PoolOk s) (hbudget : s'.poolBudget = s.poolBudget)
    (hdmem : s'.dmemMap = s.dmemMap) (hinherits : Inherits .pooled s.vmaMap s'.vmaMap)
    (hdirect : Inherits .direct s.vmaMap s'.vmaMap) : PoolOk s' := by
  refine h.of_kept hbudget (by rw [hdmem]) (by rw [hdmem]) hinherits ?_
  rw [hdmem]
  exact hdirect.physOf_subset.trans h.direct

theorem PoolOk.of_unmapped (h : PoolOk s) (hu : Unmapped L A s s') : PoolOk s' := by
  have huser : physOf .direct s.vmaMap A ⊆ userBytes s.dmemMap :=
    (physOf_mono (Set.subset_univ A)).trans h.direct
  refine h.of_kept (by rw [hu.rest]) ?_ ?_ (hu.inherits (by simp)) ?_
  · exact hu.dmem.bytesOfType_other (fun _ => by simp [Label.setDma])
      ((userBytes_disjoint (by simp) (by simp)).mono_right huser)
  · exact hu.dmem.bytesOfType_other (fun _ => by simp [Label.setDma])
      ((userBytes_disjoint (by simp) (by simp)).mono_right huser)
  · intro p hp
    exact hu.dmem.userBytes_in (fun _ => .inl rfl)
      (h.direct ((hu.inherits (by simp)).physOf_subset hp))

/-! ### What the calls keep -/

section Taken

variable {start size : ℕ} {l : Label} {noWrap : Prop} {dmem : PhysMap}

theorem Taken.disjoint {t : PhysicalMemoryType} (h : Taken L start size l noWrap s.dmemMap dmem)
    (hno : noWrap) (ht : t ≠ .free) :
    Disjoint (bytesOfType t s.dmemMap) (Set.Ico start (start + size)) := by
  rw [Set.disjoint_right]
  rintro p ⟨hle, hlt⟩ ⟨l', hl', rfl⟩
  obtain ⟨l'', hl'', hfree⟩ := h.free hno p hle hlt
  rw [hl', Option.some.injEq] at hl''
  exact ht (hl'' ▸ hfree)

theorem Taken.userBytes_subset (h : Taken L start size l noWrap s.dmemMap dmem)
    (W : WellFormed L s) (hno : noWrap) : userBytes s.dmemMap ⊆ userBytes dmem := by
  intro p hp
  refine (h.toRelabelled.effect W.dmem).userBytes_out ?_ hp
  exact Set.disjoint_left.1 (Set.disjoint_union_left.2
    ⟨h.disjoint hno (by simp), h.disjoint hno (by simp)⟩) hp

theorem PoolOk.of_allocated {memoryType : ℤ} (h : PoolOk s) (W : WellFormed L s)
    (ht : Taken L start size ⟨memoryType, .allocated⟩ noWrap s.dmemMap dmem) (hno : noWrap) :
    PoolOk { s with dmemMap := dmem } := by
  have heffect := ht.toRelabelled.effect W.dmem
  exact h.of_kept rfl
    (heffect.bytesOfType_other (fun _ => by simp) (ht.disjoint hno (by simp)))
    (heffect.bytesOfType_other (fun _ => by simp) (ht.disjoint hno (by simp)))
    (.refl _) (h.direct.trans (ht.userBytes_subset W hno))

theorem PoolOk.of_expanded {memoryType : ℤ} (h : PoolOk s) (W : WellFormed L s)
    (ht : Taken L start size ⟨memoryType, .pooled⟩ noWrap s.dmemMap dmem) (hno : noWrap) :
    PoolOk { s with dmemMap := dmem, poolBudget := add64 s.poolBudget size } := by
  have heffect := ht.toRelabelled.effect W.dmem
  have hpooled : bytesOfType .pooled dmem =
      bytesOfType .pooled s.dmemMap ∪ Set.Ico start (start + size) :=
    heffect.bytesOfType_eq (fun _ => rfl) W.dmem
  have hcount : (bytesOfType .pooled dmem).ncard = s.poolBudget + size := by
    rw [hpooled, Set.ncard_union_eq (ht.disjoint hno (by simp)) (bytesOfType_finite W.dmem _)
      (Set.finite_Ico _ _), Set.ncard_Ico_nat, Nat.add_sub_cancel_left, h.budget]
  have hle := W.ncard_le (bytesOfType_subset heffect.ok .pooled)
  refine ⟨?_, ?_, h.injective, h.direct.trans (ht.userBytes_subset W hno)⟩
  · change add64 s.poolBudget size = (bytesOfType .pooled dmem).ncard
    rw [hcount, add64_eq (by omega)]
  · change _ ⊆ bytesOfType .committed dmem
    rw [heffect.bytesOfType_other (fun _ => by simp) (ht.disjoint hno (by simp))]
    exact h.backed

end Taken

section Commit

variable {addr size : ℕ} {prot : MemoryProt} {mtype : ℤ} {pa : PhysMap}

theorem PoolOk.of_committed (h : PoolOk s) (W : WellFormed L s)
    (hc : Committed L addr size prot mtype s s' pa) : PoolOk s' := by
  have heffect := hc.backed.effect
  have hfinite := bytesOfType_finite W.dmem .pooled
  have hpooled : bytesOfType .pooled s'.dmemMap =
      bytesOfType .pooled s.dmemMap \ physBytes pa :=
    heffect.bytesOfType_ne fun _ => by simp [Label.commit]
  have hcommitted : bytesOfType .committed s'.dmemMap =
      bytesOfType .committed s.dmemMap ∪ physBytes pa :=
    heffect.bytesOfType_eq (fun _ => rfl) W.dmem
  have hfresh : ∀ p ∈ physBytes pa, p ∉ physOf .pooled s.vmaMap Set.univ := fun p hp hold =>
    Set.disjoint_left.1 (bytesOfType_disjoint (by simp)) (hc.pooled p hp) (h.backed hold)
  have hle := W.ncard_le (bytesOfType_subset W.dmem .pooled)
  have hlt := hc.lt_budget
  have hbudget : s'.poolBudget = sub64 s.poolBudget size :=
    (congrArg MemoryManager.poolBudget hc.rest :)
  refine ⟨?_, ?_, ?_, fun p hp => ?_⟩
  · rw [hbudget, sub64_eq hlt.le (by rw [h.budget]; omega), hpooled,
      Set.ncard_sdiff hc.pooled (hfinite.subset hc.pooled), hc.backed.ncard, h.budget]
  · rw [hcommitted]
    exact hc.physOf_subset.trans (Set.union_subset_union_left _ h.backed)
  · exact hc.toAreaCreated.injective h.injective hc.backed.injective hfresh
  · have huser := h.direct ((hc.inherits (by simp)).physOf_subset hp)
    refine heffect.userBytes_out (fun hmem => ?_) huser
    exact Set.disjoint_left.1 (userBytes_disjoint (by simp) (by simp)) (hc.pooled p hmem) huser

theorem PoolOk.of_decommitted (h : PoolOk s) (W : WellFormed L s)
    (hd : Decommitted L A s s') : PoolOk s' := by
  have hsubset : physOf .pooled s.vmaMap A ⊆ bytesOfType .committed s.dmemMap :=
    (physOf_mono (Set.subset_univ A)).trans h.backed
  have hpooled : bytesOfType .pooled s'.dmemMap =
      bytesOfType .pooled s.dmemMap ∪ physOf .pooled s.vmaMap A :=
    hd.dmem.bytesOfType_eq (fun _ => rfl) W.dmem
  have hcommitted : bytesOfType .committed s'.dmemMap =
      bytesOfType .committed s.dmemMap \ physOf .pooled s.vmaMap A :=
    hd.dmem.bytesOfType_ne fun _ => by simp [Label.setDma]
  have hcount : (bytesOfType .pooled s'.dmemMap).ncard =
      s.poolBudget + (bytesOf .pooled s.vmaMap A).ncard := by
    rw [hpooled, Set.ncard_union_eq ((bytesOfType_disjoint (by simp)).mono_right hsubset)
      (bytesOfType_finite W.dmem _) ((bytesOfType_finite W.dmem _).subset hsubset),
      ncard_physOf W.vma (by simp) h.injective, h.budget]
  have hle := W.ncard_le (bytesOfType_subset hd.dmem.ok .pooled)
  have hinherits : Inherits .pooled s.vmaMap s'.vmaMap := hd.inherits (by simp)
  refine ⟨?_, ?_, hinherits.injective h.injective, fun p hp => ?_⟩
  · rw [hd.budget, hcount, add64_eq (by omega)]
  · rw [hcommitted]
    rintro p ⟨x, -, c, t, hc, hcT, hp⟩
    have hxA : x ∉ A := by
      intro hx
      rw [hd.cells_in x hx, Option.some.injEq] at hc
      subst hc
      cases hcT
    rw [hd.cells_out x hxA] at hc
    refine ⟨h.backed ⟨x, Set.mem_univ x, c, t, hc, hcT, hp⟩, ?_⟩
    rintro ⟨y, hy, d, u, hd', hdT, hq⟩
    exact hxA (h.injective hc hd' hcT hdT hp hq ▸ hy)
  · have huser := h.direct ((hd.inherits (by simp)).physOf_subset hp)
    refine hd.dmem.userBytes_out (fun hmem => ?_) huser
    exact Set.disjoint_left.1 (userBytes_disjoint (by simp) (by simp)) (hsubset hmem) huser

end Commit

section Mapping

variable {addr size physAddr : ℕ} {prot : MemoryProt} {flags : MemoryMapFlags}
  {type : VMAType} {name : String} {pa : PhysMap}

theorem BackedAs.ne_pooled (h : BackedAs L physAddr size s type pa s') : type ≠ .pooled := by
  cases h with
  | direct => simp
  | flexible => simp
  | none _ _ h => exact h

theorem BackedAs.dmemMap_eq (h : BackedAs L physAddr size s type pa s')
    (htype : type ≠ .direct) : s'.dmemMap = s.dmemMap := by
  cases h with
  | direct => exact absurd rfl htype
  | flexible => rfl
  | none => rfl

theorem PoolOk.of_created_direct (h : PoolOk s)
    (hc : Created L addr size prot .direct name physAddr s s' pa)
    (huser : ∀ p, physAddr ≤ p → p < physAddr + size → p ∈ userBytes s.dmemMap) :
    PoolOk s' := by
  obtain ⟨hB, hbytes, hrest⟩ := hc.backed.of_direct
  have hsubset : physBytes pa ⊆ userBytes s.dmemMap := by
    rintro p ⟨i, l, hi⟩
    have hlt : i < size := hB.tiles.tiles.view_isSome_iff.1 (by rw [← bytes, hi]; rfl)
    obtain ⟨l', hi'⟩ := hbytes i hlt
    rw [hi, Option.some.injEq, Prod.mk.injEq] at hi'
    exact huser p (by omega) (by omega)
  refine h.of_kept ?_ ?_ ?_ (hc.inherits (by simp)) fun p hp => ?_
  · exact (congrArg MemoryManager.poolBudget hrest :)
  · exact hB.effect.bytesOfType_other (fun _ => by simp [Label.setDma])
      ((userBytes_disjoint (by simp) (by simp)).mono_right hsubset)
  · exact hB.effect.bytesOfType_other (fun _ => by simp [Label.setDma])
      ((userBytes_disjoint (by simp) (by simp)).mono_right hsubset)
  · refine hB.effect.userBytes_in (fun _ => .inr rfl) ?_
    exact (hc.physOf_subset hp).elim (fun hold => h.direct hold) fun hnew => hsubset hnew

theorem PoolOk.of_created (h : PoolOk s)
    (hc : Created L addr size prot type name physAddr s s' pa)
    (huser : type = .direct → ∀ p, physAddr ≤ p → p < physAddr + size →
      p ∈ userBytes s.dmemMap) : PoolOk s' := by
  by_cases hdirect : type = .direct
  · subst hdirect
    exact h.of_created_direct hc (huser rfl)
  · exact h.of_inherits hc.backed.poolBudget_eq (hc.backed.dmemMap_eq hdirect)
      (hc.inherits hc.backed.ne_pooled) (hc.inherits hdirect)

theorem PoolOk.of_mapped (h : PoolOk s)
    (hm : Mapped L addr size flags prot type name physAddr s s')
    (huser : type = .direct → ∀ p, physAddr ≤ p → p < physAddr + size →
      p ∈ userBytes s.dmemMap) : PoolOk s' := by
  obtain ⟨s₁, pa, hun, -, hcreated⟩ := hm.created
  exact (h.of_unmapped hun).of_created hcreated fun htype p hle hlt =>
    hun.dmem.userBytes_in (fun _ => .inl rfl) (huser htype p hle hlt)

end Mapping

theorem PoolOk.of_retyped {t : ℤ} (h : PoolOk s) (hr : Retyped L t A s s') : PoolOk s' := by
  have hkeep := hr.dmem.bytesOfType_keep fun _ => rfl
  refine h.of_kept (by rw [hr.rest]) (hkeep _) (hkeep _) hr.inherits ?_
  rw [userBytes, hkeep, hkeep]
  exact hr.inherits.physOf_subset.trans h.direct

/-! ### The calls that keep the pool -/

/-- The bytes `Free` releases: the first non-free ones from `physAddr` on. -/
def releasedBytes (m : PhysMap) (physAddr size : ℕ) : Set ℕ :=
  firstBytes (nonFreeFrom m physAddr) size

/-- The checked releases that are refused: the range leaves the direct memory or holds a free
byte. -/
def FreeRefused (s : MemoryManager) (physAddr size : ℕ) : Prop :=
  s.totalDirectSize < add64 physAddr size ∨
    ∃ p, physAddr ≤ p ∧ p < physAddr + size ∧ p ∈ bytesOfType .free s.dmemMap

/-- A `Free` that is not refused releases no pooled and no committed byte, and of the bytes of
Direct mappings only those of its range; the search of `PoolExpand` does not wrap around. -/
def Call.KeepsPool (s : MemoryManager) : Call → Prop
  | free physAddr size isChecked =>
      (isChecked = true ∧ FreeRefused s physAddr.toNat size.toNat) ∨
      ∀ p ∈ releasedBytes s.dmemMap physAddr.toNat size.toNat,
        p ∉ bytesOfType .pooled s.dmemMap ∧ p ∉ bytesOfType .committed s.dmemMap ∧
          (p ∈ physOf .direct s.vmaMap Set.univ → p < physAddr.toNat + size.toNat ∧
            physAddr.toNat + size.toNat < 18446744073709551616)
  | poolExpand searchStart _ _ alignment =>
      searchStart.toNat ≤ alignUp searchStart.toNat (poolAlignment alignment)
  | _ => True

theorem PoolOk.of_freed {physAddr size : ℕ} (h : PoolOk s) (W : WellFormed L s)
    (hf : Freed L physAddr size s s₁ s')
    (hkeeps : ∀ p ∈ releasedBytes s.dmemMap physAddr size,
      p ∉ bytesOfType .pooled s.dmemMap ∧ p ∉ bytesOfType .committed s.dmemMap ∧
        (p ∈ physOf .direct s.vmaMap Set.univ → p < physAddr + size ∧
          physAddr + size < 18446744073709551616)) : PoolOk s' := by
  have h₁ := h.of_unmapped hf.unmapped
  have huser : physOf .direct s.vmaMap (rangeSet (collectRemoveList s.vmaMap physAddr size)) ⊆
      userBytes s.dmemMap := (physOf_mono (Set.subset_univ _)).trans h.direct
  have hother : ∀ t, t ≠ .allocated → t ≠ .mapped →
      bytesOfType t s₁.dmemMap = bytesOfType t s.dmemMap := fun t ht ht' =>
    hf.unmapped.dmem.bytesOfType_other (fun _ => by simpa [Label.setDma] using ht.symm)
      ((userBytes_disjoint ht ht').mono_right huser)
  have hvma : s'.vmaMap = s₁.vmaMap := by rw [hf.rest]
  refine h₁.of_kept (by rw [hf.rest]) ?_ ?_ (hvma ▸ .refl _) fun p hp => ?_
  · refine hf.dmem.bytesOfType_other (fun _ => by simp [Label.release]) ?_
    rw [hother _ (by simp) (by simp), Set.disjoint_right]
    exact fun p hp => (hkeeps p hp).1
  · refine hf.dmem.bytesOfType_other (fun _ => by simp [Label.release]) ?_
    rw [hother _ (by simp) (by simp), Set.disjoint_right]
    exact fun p hp => (hkeeps p hp).2.1
  · -- what is still mapped lies outside the range, so it was not released
    rw [hvma] at hp
    refine hf.dmem.userBytes_out (fun hmem => ?_) (h₁.direct hp)
    rw [hf.unmapped.physOf_eq (by simp) (by simp)] at hp
    obtain ⟨x, ⟨-, hx⟩, c, t, hc, hcT, hback⟩ := hp
    obtain ⟨-, -, hrange⟩ := hkeeps p hmem
    obtain ⟨hlt, hbound⟩ := hrange ⟨x, Set.mem_univ x, c, t, hc, hcT, hback⟩
    exact hx (directBacked_subset_remove W.vma hbound
      ⟨c, p, t, hc, hcT, hback, (firstBytes_subset hmem).1, hlt⟩)

theorem Call.exec_poolOk (R : Regular L s) (hpromised : c.Promised) (hkeeps : c.KeepsPool s)
    (hs : PoolOk s) (hcall : c.exec s = .ok s') : PoolOk s' := by
  have W := R.toWellFormed
  cases Call.exec_effect R hpromised hcall with
  | unchanged => exact hs
  | allocated h => exact hs.of_allocated W h hpromised
  | expanded h => exact hs.of_expanded W h hkeeps
  | @freed physAddr size _ _ _ hfreed =>
      rcases hkeeps with ⟨rfl, hrefused⟩ | hkeeps
      · obtain ⟨r, hr, rfl⟩ := map_eq_ok.1 hcall
        rw [free_refused W size.toNat_lt hrefused hr]
        exact hs
      · exact hs.of_freed W hfreed hkeeps
  | committed h => exact hs.of_committed W h
  | decommitted h => exact hs.of_decommitted W h
  | mapped h _ _ hdmem =>
      refine hs.of_mapped h fun htype p hle hlt => ?_
      obtain ⟨l, hl, hlabel, -⟩ := hdmem htype p hle hlt
      exact hlabel.imp (fun ht => ⟨l, hl, ht⟩) fun ht => ⟨l, hl, ht⟩
  | mappedFile h _ => exact hs.of_mapped h (by simp)
  | unmapped _ h => exact hs.of_unmapped h
  | guarded h => exact hs.of_inherits rfl rfl h.inherits h.inherits
  | named h => exact hs.of_inherits rfl rfl h.inherits h.inherits
  | retyped h _ => exact hs.of_retyped h

/-! ### Runs -/

theorem Fresh.dmem_free (hfresh : Fresh cfg s₀) {p : ℕ} {l : Label}
    (hl : labels s₀.dmemMap p = some l) : l.dmaType = .free := by
  obtain ⟨hsetup, -, -, -⟩ := hfresh
  obtain ⟨_, -, hsetup⟩ := bind_eq_ok.1 hsetup
  obtain ⟨⟨k, a⟩, -, hsetup⟩ := bind_eq_ok.1 hsetup
  obtain ⟨_, -, hret⟩ := bind_eq_ok.1 hsetup
  cases hret
  have hone : ∀ x b, (MemoryManager.construct cfg).dmemMap.get? x = some b →
      b.dmaType = .free := by
    intro x b hx
    change (OrderedMap.empty.emplace _ _).get? x = some b at hx
    rw [get?_emplace] at hx
    split at hx
    · cases hx
      rfl
    · cases hx
  obtain ⟨b, hb, rfl⟩ := Option.map_eq_some_iff.1 hl
  obtain ⟨⟨k', a'⟩, hpiece, rfl⟩ := Option.map_eq_some_iff.1 hb
  have hk := (Tiling.get?_of_pieceAt hpiece).1
  simp only [OrderedMap.get?_modify] at hk
  split at hk
  · obtain ⟨a₀, ha₀, rfl⟩ := Option.map_eq_some_iff.1 hk
    exact hone _ _ ha₀
  · exact hone _ _ hk

theorem Fresh.poolOk (hfresh : Fresh cfg s₀) : PoolOk s₀ := by
  have hnone : bytesOfType .pooled s₀.dmemMap = ∅ := by
    apply Set.eq_empty_of_forall_notMem
    rintro p ⟨l, hl, hpooled⟩
    rw [hfresh.dmem_free hl] at hpooled
    cases hpooled
  obtain ⟨hsetup, -, -, -⟩ := hfresh
  obtain ⟨_, -, hsetup⟩ := bind_eq_ok.1 hsetup
  obtain ⟨e, -, hsetup⟩ := bind_eq_ok.1 hsetup
  obtain ⟨_, -, hret⟩ := bind_eq_ok.1 hsetup
  cases hret
  refine ⟨?_, ?_, ?_, ?_⟩
  · rw [hnone, Set.ncard_empty]
    rfl
  · rintro p ⟨x, -, d, t, hd, hdT, -⟩
    rw [construct_cells hd] at hdT
    cases hdT
  · intro x y d e p t u hd _ hdT
    rw [construct_cells hd] at hdT
    cases hdT
  · rintro p ⟨x, -, d, t, hd, hdT, -⟩
    rw [construct_cells hd] at hdT
    cases hdT

theorem Reachable.poolOk (hfresh : Fresh cfg s₀)
    (h : Reachable (fun s c => c.Promised ∧ c.KeepsPool s) s₀ s) :
    Regular (cfg.layout s₀) s ∧ PoolOk s := by
  apply h.invariant (P := fun s => Regular (cfg.layout s₀) s ∧ PoolOk s)
  · exact ⟨hfresh.regular, hfresh.poolOk⟩
  · intro s s' c hs hc hcall
    exact ⟨(Call.exec_effect hs.1 hc.1 hcall).regular hs.1,
      Call.exec_poolOk hs.1 hc.1 hc.2 hs.2 hcall⟩

theorem poolCommit_avoids {addr size : ℕ} {prot : MemoryProt} {mtype : ℤ} (R : Regular L s)
    (hs : PoolOk s) :
    Avoids "Failed to commit pooled memory" (s.poolCommit addr size prot mtype) := by
  have W := R.toWellFormed
  have hmsg : "Failed to commit pooled memory" ∉ helperMessages := by decide
  unfold MemoryManager.poolCommit
  refine .bind (assertMsg_helper hmsg (by decide)) fun _ hvalid => ?_
  refine .bind (findArea_avoids _ _) fun e _ => ?_
  dsimp only
  split
  · exact avoids_pure _
  split
  · exact avoids_pure _
  split
  · exact avoids_pure _
  next hbudget =>
  have hlt := isValidMapping_lt W.vma (assertMsg_eq_ok.1 hvalid)
  obtain ⟨-, halign⟩ := alignUp_poolPageSize hlt
  have hpage : poolPageSize = 65536 := rfl
  have hle := W.ncard_le (bytesOfType_subset W.dmem .pooled)
  have hcount := hs.budget
  refine .bind (carveVMA_avoids hmsg _ _ _) fun r hcarve => ?_
  obtain ⟨-, hcarved⟩ := carveVMA_ok W.vma (by omega) (by omega) hcarve
  have hend : addr + size ≤ 9223372036854775808 := by
    by_contra hlarge
    have := W.vma.lt_of_mem (hcarved.subset W.vma
      ⟨show addr ≤ addr + size - 1 by omega, by omega⟩)
    omega
  have hspec := Backing.scatter_all_spec W.dmem (relabels_commit mtype) (fun _ => rfl)
    (fun _ => (by simp [Label.commit] : (Label.commit mtype _).dmaType ≠ .pooled))
    (show alignUp addr poolPageSize + size < 18446744073709551616 by omega)
    (show 0 < 18446744073709551616 by omega)
    (fun _ : True => (by omega : size ≤ (bytesOfType .pooled s.dmemMap).ncard))
  refine .bind (.of_returns (hspec.1 trivial)) fun b hb => ?_
  refine .bind (assertMsg_avoids (.inl ((hspec.2 b hb).2 trivial))) fun _ _ => ?_
  exact .bind (mergeAdjacentVMA_avoids _ _) fun _ _ => avoids_pure _

structure PoolExact (s : MemoryManager) : Prop where
  budget : s.poolBudget = totalSize .pooled s.dmemMap
  backed : ∀ x c, cells s.vmaMap x = some c → c.type = .pooled → ∃ p t l,
    c.backing = some (p, t) ∧ labels s.dmemMap p = some l ∧ l.dmaType = .committed
  unshared : ∀ x y c d p t u, cells s.vmaMap x = some c → cells s.vmaMap y = some d →
    c.type = .pooled → d.type = .pooled → c.backing = some (p, t) →
    d.backing = some (p, u) → x = y
  commits : ∀ (virtualAddr size : UInt64) prot mtype,
    s.poolCommit virtualAddr.toNat size.toNat prot mtype ≠
      .error (.assertion "Failed to commit pooled memory")

/-- In every state a run of calls that keep the pool reaches, the pool is accounted for
exactly and never shared, and a commit that passes the budget check does not run out of it. -/
theorem pool_exact (hfresh : Fresh cfg s₀)
    (h : Reachable (fun s c => c.Promised ∧ c.KeepsPool s) s₀ s) : PoolExact s := by
  obtain ⟨R, hs⟩ := h.poolOk hfresh
  refine ⟨?_, fun x c hc hcT => ?_, fun x y c d p t u hc hd hcT hdT =>
    hs.injective hc hd hcT hdT, fun _ _ _ _ => poolCommit_avoids R hs⟩
  · rw [hs.budget, ncard_bytesOfType R.dmem]
  · obtain ⟨p, t, hp⟩ := R.vma.backing_of_cell hc (.inr (.inr hcT))
    obtain ⟨l, hl, hlT⟩ := hs.backed ⟨x, Set.mem_univ x, c, t, hc, hcT, hp⟩
    exact ⟨p, t, l, hp, hl, hlT⟩

def poolCalls : List Call :=
  [.poolExpand 0 0x100000 0x20000 0,
    .mapMemory 0x200000000 0x20000 0 0x10 .poolReserved "pool" false 0xffffffffffffffff 0,
    .poolCommit 0x200000000 0x10000 3 0]

theorem pool_exact_sample : ∃ s, runCalls Config.retail.start poolCalls = .ok s ∧
    PoolExact s := by
  obtain ⟨s, hs⟩ : ∃ s, runCalls Config.retail.start poolCalls = .ok s :=
    exists_of_toBool (by decide)
  refine ⟨s, hs, pool_exact fresh_retail (runCalls_reachable .start (fun c hc _ => ?_) hs)⟩
  simp only [poolCalls, List.mem_cons, List.not_mem_nil, or_false] at hc
  rcases hc with rfl | rfl | rfl
  · exact ⟨trivial, show 0 ≤ _ from Nat.zero_le _⟩
  · exact ⟨by simp [Call.Promised], trivial⟩
  · exact ⟨trivial, trivial⟩

def releasePoolCalls : List Call :=
  [.poolExpand 0 0x100000 0x20000 0, .free 0 0x20000 false]

/-- `Free` leaves the budget of the memory it takes from the pool. -/
theorem free_pool_not_exact :
    ¬ ∀ s, Reachable (fun _ c => c.Promised) Config.retail.start s → PoolExact s := by
  intro hall
  have hbudget : ((runCalls Config.retail.start releasePoolCalls).toOption.any fun s =>
      s.poolBudget != totalSize .pooled s.dmemMap) = true := by
    decide
  obtain ⟨s, hrun, hne⟩ := exists_of_any hbudget
  have hexact := hall s (runCalls_reachable .start (fun c hc _ => by
    simp only [releasePoolCalls, List.mem_cons, List.not_mem_nil, or_false] at hc
    rcases hc with rfl | rfl <;> exact trivial) hrun)
  rw [hexact.budget, bne_self_eq_false] at hne
  cases hne

end OrbitConsole.Memory
