import OrbitConsole.Core.Memory.PoolAccounting

/-!
# Direct memory is recorded twice

A byte of direct memory is marked Mapped in the physical map, and the physical
areas of Direct mappings refer to it: `DirectOk` says that the two records
agree. One byte may be behind several virtual ones. A call that unmaps or
retypes some of these and not the others updates the physical map for all of
them, so `Call.KeepsDirect` asks for ranges that are closed under sharing.
-/

namespace OrbitConsole.Memory

open Exec

variable {L : Layout} {cfg : Config} {s s₀ s₁ s' : MemoryManager} {c : Call}
  {A U : Set ℕ} {m m' : VMAMap} {x p : ℕ} {t u : ℤ}

/-! ### The Direct bytes of a virtual map -/

/-- The physical byte and the memory type recorded for a virtual byte, if it is Direct. -/
def directAt (m : VMAMap) (x : ℕ) : Option (ℕ × ℤ) :=
  (cells m x).bind fun c => if c.type = .direct then c.backing else none

theorem directAt_eq_some : directAt m x = some (p, t) ↔
    ∃ c, cells m x = some c ∧ c.type = .direct ∧ c.backing = some (p, t) := by
  simp only [directAt, Option.bind_eq_some_iff]
  refine exists_congr fun c => and_congr_right fun _ => ?_
  split
  · next h => simp [h]
  · next h => simp [h]

theorem mem_physOf_direct :
    p ∈ physOf .direct m A ↔ ∃ x ∈ A, ∃ t, directAt m x = some (p, t) := by
  simp only [directAt_eq_some]
  constructor
  · rintro ⟨x, hx, c, t, hc⟩
    exact ⟨x, hx, t, c, hc⟩
  · rintro ⟨x, hx, t, c, hc⟩
    exact ⟨x, hx, c, t, hc⟩

theorem directAt_congr (h : cells m' x = cells m x) : directAt m' x = directAt m x := by
  rw [directAt, directAt, h]

theorem directAt_eq_none (h : ∀ c, cells m x = some c → c.type ≠ .direct) :
    directAt m x = none := by
  cases hc : cells m x with
  | none => simp [directAt, hc]
  | some c => simp [directAt, hc, h c hc]

theorem Unmapped.directAt_in (h : Unmapped L A s s') (hx : x ∈ A) :
    directAt s'.vmaMap x = none := by
  refine directAt_eq_none fun c hc hdirect => ?_
  exact absurd hx ((h.cell_iff (by simp) (by simp)).1 ⟨hc, hdirect⟩).1

theorem Unmapped.directAt_out (h : Unmapped L A s s') (hx : x ∉ A) :
    directAt s'.vmaMap x = directAt s.vmaMap x :=
  directAt_congr (h.cells_not_mem hx)

theorem SameMapping.directAt_eq (h : SameMapping U m m') (x : ℕ) :
    directAt m' x = directAt m x := by
  have heq := h.mapping_eq x
  cases hc : cells m x with
  | none =>
      rw [hc, Option.map_none, Option.map_eq_none_iff] at heq
      rw [directAt, directAt, hc, heq]
  | some c =>
      rw [hc, Option.map_some] at heq
      obtain ⟨c', hc', hmapping⟩ := Option.map_eq_some_iff.1 heq
      obtain ⟨htype, hbacking⟩ := Prod.mk.inj hmapping
      rw [directAt, directAt, hc, hc', Option.bind_some, Option.bind_some, htype, hbacking]

theorem Retyped.directAt_in (h : Retyped L t A s s') (hx : x ∈ A) :
    directAt s'.vmaMap x = (directAt s.vmaMap x).map fun b => (b.1, t) := by
  rw [directAt, directAt, h.cells_in x hx]
  cases hc : cells s.vmaMap x with
  | none => rfl
  | some c =>
      rw [Option.map_some, Option.bind_some, Option.bind_some]
      by_cases hdirect : c.type = .direct
      · have htyped : c.Typed := .inl hdirect
        rw [if_pos htyped, if_pos hdirect]
        change (if c.type = .direct then (c.setType t).backing else none) = _
        rw [if_pos hdirect]
        rfl
      · have hkept : (if c.Typed then c.setType t else c).type ≠ .direct := by
          split
          · exact hdirect
          · exact hdirect
        rw [if_neg hkept, if_neg hdirect]
        rfl

theorem Retyped.directAt_out (h : Retyped L t A s s') (hx : x ∉ A) :
    directAt s'.vmaMap x = directAt s.vmaMap x :=
  directAt_congr (h.cells_out x hx)

section Created

variable {addr size : ℕ} {prot : MemoryProt} {type : VMAType} {name : String} {pa : PhysMap}

theorem AreaCreated.directAt_out (h : AreaCreated U addr size prot type name m pa m')
    (hx : x ∉ Set.Ico addr (addr + size)) : directAt m' x = directAt m x :=
  directAt_congr (by rw [h.cells_eq, if_neg fun hmem => hx (Set.mem_Ico.2 hmem)])

theorem AreaCreated.directAt_ne (h : AreaCreated U addr size prot type name m pa m')
    (hx : x ∈ Set.Ico addr (addr + size)) (hT : type ≠ .direct) : directAt m' x = none := by
  refine directAt_eq_none fun c hc => ?_
  rw [h.cells_eq, if_pos (Set.mem_Ico.1 hx)] at hc
  cases hc
  exact hT

theorem AreaCreated.directAt_in (h : AreaCreated U addr size prot .direct name m pa m')
    (hx : x ∈ Set.Ico addr (addr + size)) :
    directAt m' x = (bytes pa (x - addr)).map backingOf := by
  rw [directAt, h.cells_eq, if_pos (Set.mem_Ico.1 hx)]
  rfl

end Created

/-! ### The invariant -/

structure DirectOk (s : MemoryManager) : Prop where
  mapped : ∀ p, p ∈ bytesOfType .mapped s.dmemMap ↔ ∃ x t, directAt s.vmaMap x = some (p, t)
  label : ∀ {x p t}, directAt s.vmaMap x = some (p, t) →
    ∃ l, labels s.dmemMap p = some l ∧ l.memoryType = t

/-- No byte behind a Direct byte of `A` is behind one outside `A`. -/
def Closed (m : VMAMap) (A : Set ℕ) : Prop :=
  ∀ x ∈ A, ∀ y, y ∉ A → ∀ p t u, directAt m x = some (p, t) → directAt m y ≠ some (p, u)

theorem Closed.not_mem (h : Closed m A) (hx : x ∉ A) (hp : directAt m x = some (p, t)) :
    p ∉ physOf .direct m A := by
  intro hmem
  obtain ⟨y, hy, u, hq⟩ := mem_physOf_direct.1 hmem
  exact h y hy x hx p u t hq hp

theorem DirectOk.of_effect (h : DirectOk s) {R : Set ℕ} {g : Label → Label}
    (hdirect : ∀ x, directAt s'.vmaMap x = directAt s.vmaMap x)
    (heffect : PhysEffect L.direct s.dmemMap R g s'.dmemMap)
    (hg : ∀ l, (g l).dmaType ≠ .mapped) (hR : Disjoint (bytesOfType .mapped s.dmemMap) R) :
    DirectOk s' where
  mapped p := by simp only [heffect.bytesOfType_other hg hR, h.mapped, hdirect]
  label {x p t} hx := by
    rw [hdirect] at hx
    rw [heffect.labels_out p (Set.disjoint_left.1 hR ((h.mapped p).2 ⟨x, t, hx⟩))]
    exact h.label hx

theorem DirectOk.of_same (h : DirectOk s)
    (hdirect : ∀ x, directAt s'.vmaMap x = directAt s.vmaMap x)
    (hdmem : s'.dmemMap = s.dmemMap) : DirectOk s' where
  mapped p := by simp only [hdmem, h.mapped, hdirect]
  label {x p t} hx := by
    rw [hdirect] at hx
    rw [hdmem]
    exact h.label hx

theorem DirectOk.of_unmapped (h : DirectOk s) (hu : Unmapped L A s s')
    (hclosed : Closed s.vmaMap A) : DirectOk s' := by
  have hkept : ∀ {x p t}, directAt s'.vmaMap x = some (p, t) →
      x ∉ A ∧ directAt s.vmaMap x = some (p, t) := by
    intro x p t hx
    have hxA : x ∉ A := fun hmem => by
      rw [hu.directAt_in hmem] at hx
      cases hx
    exact ⟨hxA, hu.directAt_out hxA ▸ hx⟩
  have hmapped : bytesOfType .mapped s'.dmemMap =
      bytesOfType .mapped s.dmemMap \ physOf .direct s.vmaMap A :=
    hu.dmem.bytesOfType_ne fun _ => by simp [Label.setDma]
  refine ⟨fun p => ?_, fun {x p t} hx => ?_⟩
  · rw [hmapped, Set.mem_sdiff, h.mapped]
    constructor
    · rintro ⟨⟨x, t, hx⟩, hnot⟩
      have hxA : x ∉ A := fun hmem => hnot (mem_physOf_direct.2 ⟨x, hmem, t, hx⟩)
      exact ⟨x, t, by rwa [hu.directAt_out hxA]⟩
    · rintro ⟨x, t, hx⟩
      obtain ⟨hxA, hx⟩ := hkept hx
      exact ⟨⟨x, t, hx⟩, hclosed.not_mem hxA hx⟩
  · obtain ⟨hxA, hx⟩ := hkept hx
    rw [hu.dmem.labels_out p (hclosed.not_mem hxA hx)]
    exact h.label hx

theorem DirectOk.of_retyped (h : DirectOk s) (hpool : PoolOk s) (hr : Retyped L t A s s')
    (hclosed : Closed s.vmaMap A) : DirectOk s' := by
  have hplace : ∀ x p, (∃ u, directAt s'.vmaMap x = some (p, u)) ↔
      ∃ u, directAt s.vmaMap x = some (p, u) := by
    intro x p
    by_cases hxA : x ∈ A
    · rw [hr.directAt_in hxA]
      simp [Prod.ext_iff]
    · rw [hr.directAt_out hxA]
  refine ⟨fun p => ?_, fun {x p u} hx => ?_⟩
  · rw [hr.dmem.bytesOfType_keep fun _ => rfl, h.mapped]
    exact exists_congr fun x => (hplace x p).symm
  by_cases hxA : x ∈ A
  · rw [hr.directAt_in hxA] at hx
    obtain ⟨⟨q, v⟩, hold, heq⟩ := Option.map_eq_some_iff.1 hx
    obtain ⟨rfl, rfl⟩ := Prod.mk.inj heq
    obtain ⟨l, hl, -⟩ := h.label hold
    refine ⟨l.setType t, ?_, rfl⟩
    rw [hr.dmem.labels_in q (.inl (mem_physOf_direct.2 ⟨x, hxA, v, hold⟩)), hl,
      Option.map_some]
  · rw [hr.directAt_out hxA] at hx
    rw [hr.dmem.labels_out p]
    · exact h.label hx
    · rintro (hdirect | hpooled)
      · exact hclosed.not_mem hxA hx hdirect
      · -- the memory behind a Pooled byte is committed
        exact Set.disjoint_left.1 (bytesOfType_disjoint (by simp)) ((h.mapped p).2 ⟨x, u, hx⟩)
          (hpool.backed (physOf_mono (Set.subset_univ A) hpooled))

/-! ### Mapping -/

section Mapping

variable {addr size physAddr : ℕ} {prot : MemoryProt} {flags : MemoryMapFlags}
  {type : VMAType} {name : String} {pa : PhysMap}

theorem DirectOk.of_created_direct (h : DirectOk s) (W : WellFormed L s)
    (hnone : ∀ x ∈ Set.Ico addr (addr + size), directAt s.vmaMap x = none)
    (hc : Created L addr size prot .direct name physAddr s s' pa) : DirectOk s' := by
  obtain ⟨hB, -, -⟩ := hc.backed.of_direct
  have hmapped : bytesOfType .mapped s'.dmemMap =
      bytesOfType .mapped s.dmemMap ∪ physBytes pa :=
    hB.effect.bytesOfType_eq (fun _ => rfl) W.dmem
  refine ⟨fun p => ?_, fun {x p t} hx => ?_⟩
  · rw [hmapped, Set.mem_union, h.mapped]
    constructor
    · rintro (⟨x, t, hx⟩ | ⟨i, l, hi⟩)
      · have hout : x ∉ Set.Ico addr (addr + size) := fun hmem => by
          rw [hnone x hmem] at hx
          cases hx
        exact ⟨x, t, by rwa [hc.directAt_out hout]⟩
      · have hlt : i < size := hB.tiles.tiles.view_isSome_iff.1 (by rw [← bytes, hi]; rfl)
        refine ⟨addr + i, l.memoryType, ?_⟩
        rw [hc.toAreaCreated.directAt_in ⟨by omega, by omega⟩, Nat.add_sub_cancel_left, hi]
        rfl
    · rintro ⟨x, t, hx⟩
      by_cases hmem : x ∈ Set.Ico addr (addr + size)
      · rw [hc.toAreaCreated.directAt_in hmem] at hx
        obtain ⟨⟨q, l⟩, hq, heq⟩ := Option.map_eq_some_iff.1 hx
        obtain ⟨rfl, -⟩ := Prod.mk.inj heq
        exact .inr ⟨_, l, hq⟩
      · rw [hc.directAt_out hmem] at hx
        exact .inl ⟨x, t, hx⟩
  by_cases hmem : x ∈ Set.Ico addr (addr + size)
  · rw [hc.toAreaCreated.directAt_in hmem] at hx
    obtain ⟨⟨q, l⟩, hq, heq⟩ := Option.map_eq_some_iff.1 hx
    obtain ⟨rfl, rfl⟩ := Prod.mk.inj heq
    exact ⟨l, hB.label hq, rfl⟩
  · rw [hc.directAt_out hmem] at hx
    obtain ⟨l, hl, htype⟩ := h.label hx
    by_cases hp : p ∈ physBytes pa
    · refine ⟨l.setDma .mapped, ?_, htype⟩
      rw [hB.effect.labels_in p hp, hl, Option.map_some]
    · exact ⟨l, by rw [hB.effect.labels_out p hp, hl], htype⟩

theorem DirectOk.of_created (h : DirectOk s) (W : WellFormed L s)
    (hnone : ∀ x ∈ Set.Ico addr (addr + size), directAt s.vmaMap x = none)
    (hc : Created L addr size prot type name physAddr s s' pa) : DirectOk s' := by
  by_cases hdirect : type = .direct
  · subst hdirect
    exact h.of_created_direct W hnone hc
  refine h.of_same (fun x => ?_) (hc.backed.dmemMap_eq hdirect)
  by_cases hmem : x ∈ Set.Ico addr (addr + size)
  · rw [hc.directAt_ne hmem hdirect, hnone x hmem]
  · exact hc.directAt_out hmem

theorem DirectOk.of_mapped (h : DirectOk s) (W : WellFormed L s)
    (hm : Mapped L addr size flags prot type name physAddr s s')
    (hclosed : hasFlag flags MemoryMapFlags.fixed = true →
      Closed s.vmaMap (Set.Ico addr (addr + size))) : DirectOk s' := by
  obtain ⟨s₁, pa, hun, hkept, hcreated⟩ := hm.created
  have h₁ : DirectOk s₁ := by
    by_cases hfixed : hasFlag flags MemoryMapFlags.fixed = true
    · exact h.of_unmapped hun (hclosed hfixed)
    · rw [hkept (by simpa using hfixed)]
      exact h
  exact h₁.of_created (hun.wellFormed W) (fun x hx => hun.directAt_in hx) hcreated

end Mapping

/-! ### The pool -/

theorem DirectOk.of_committed {addr size : ℕ} {prot : MemoryProt} {mtype : ℤ} {pa : PhysMap}
    (h : DirectOk s) (hc : Committed L addr size prot mtype s s' pa)
    (hnone : ∀ x ∈ Set.Ico addr (addr + size), directAt s.vmaMap x = none) : DirectOk s' := by
  refine h.of_effect (fun x => ?_) hc.backed.effect (fun _ => by simp [Label.commit]) ?_
  · by_cases hmem : x ∈ Set.Ico addr (addr + size)
    · rw [hc.directAt_ne hmem (by simp), hnone x hmem]
    · exact hc.directAt_out hmem
  · exact (bytesOfType_disjoint (by simp)).mono_right hc.pooled

theorem Committed.directAt_eq_none {addr size : ℕ} {prot : MemoryProt} {mtype : ℤ}
    {pa : PhysMap} (hc : Committed L addr size prot mtype s s' pa) (hsize : poolPageSize ≤ size)
    (hx : x ∈ Set.Ico addr (addr + size)) : directAt s.vmaMap x = none := by
  refine Memory.directAt_eq_none fun c hcell => ?_
  rw [hc.reserved hsize x hx.1 hx.2 c hcell]
  simp

theorem DirectOk.of_decommitted (h : DirectOk s) (hpool : PoolOk s)
    (hd : Decommitted L A s s') (hnone : ∀ x ∈ A, directAt s.vmaMap x = none) :
    DirectOk s' := by
  refine h.of_effect (fun x => ?_) hd.dmem (fun _ => by simp [Label.setDma]) ?_
  · by_cases hmem : x ∈ A
    · rw [hnone x hmem]
      refine directAt_eq_none fun c hc => ?_
      rw [hd.cells_in x hmem, Option.some.injEq] at hc
      rw [← hc]
      simp [Cell.poolReserved]
    · exact directAt_congr (hd.cells_out x hmem)
  · exact (bytesOfType_disjoint (by simp)).mono_right
      ((physOf_mono (Set.subset_univ A)).trans hpool.backed)

theorem DirectOk.of_taken {start size : ℕ} {l : Label} {noWrap : Prop} (h : DirectOk s)
    (W : WellFormed L s) (ht : Taken L start size l noWrap s.dmemMap s'.dmemMap)
    (hno : noWrap) (hl : l.dmaType ≠ .mapped) (hvma : s'.vmaMap = s.vmaMap) : DirectOk s' :=
  h.of_effect (fun x => by rw [hvma]) (ht.toRelabelled.effect W.dmem) (fun _ => hl)
    (ht.disjoint hno (by simp))

/-- `PoolDecommit` finds an area that ends inside the range and is not pooled memory. -/
def DecommitRefused (s : MemoryManager) (virtualAddr size : ℕ) : Prop :=
  ∃ k v, s.vmaMap.floor virtualAddr = some (k, v) ∧
    MemoryManager.poolDecommitCheck (add64 virtualAddr size) (s.vmaMap.entriesFrom k) = false

theorem poolDecommit_refused {virtualAddr size : ℕ} {r : ℤ × MemoryManager}
    (hrefused : DecommitRefused s virtualAddr size)
    (h : s.poolDecommit virtualAddr size = .ok r) : r.2 = s := by
  obtain ⟨k, v, hfloor, hcheck⟩ := hrefused
  unfold MemoryManager.poolDecommit at h
  obtain ⟨_, -, h⟩ := bind_eq_ok.1 h
  obtain ⟨⟨k', v'⟩, hfind, h⟩ := bind_eq_ok.1 h
  have heq := findArea_eq_ok.1 hfind
  rw [hfloor, Option.some.injEq] at heq
  cases heq
  simp only [hcheck] at h
  cases h
  rfl

/-! ### The calls that keep the records in step -/

/-- What a call unmaps or retypes is closed under sharing, and the calls of the pool take no
Direct byte. -/
def Call.KeepsDirect (s : MemoryManager) : Call → Prop
  | free physAddr size isChecked =>
      (isChecked = true ∧ FreeRefused s physAddr.toNat size.toNat) ∨
        Closed s.vmaMap (rangeSet (collectRemoveList s.vmaMap physAddr.toNat size.toNat))
  | poolCommit virtualAddr size _ _ => poolPageSize ≤ size.toNat ∨
      ∀ x ∈ Set.Ico virtualAddr.toNat (virtualAddr.toNat + size.toNat),
        directAt s.vmaMap x = none
  | poolDecommit virtualAddr size =>
      DecommitRefused s virtualAddr.toNat size.toNat ∨
        ∀ x ∈ Set.Ico virtualAddr.toNat (virtualAddr.toNat + size.toNat),
          directAt s.vmaMap x = none
  | mapMemory virtualAddr size _ flags _ _ _ _ _ => hasFlag flags MemoryMapFlags.fixed = true →
      Closed s.vmaMap (Set.Ico virtualAddr.toNat (virtualAddr.toNat + size.toNat))
  | mapFile virtualAddr size _ flags _ _ => hasFlag flags MemoryMapFlags.fixed = true →
      Closed s.vmaMap (Set.Ico virtualAddr.toNat (virtualAddr.toNat + size.toNat))
  | unmapMemory virtualAddr size => Closed s.vmaMap (alignedRange virtualAddr size)
  | setDirectMemoryType addr size _ =>
      Closed s.vmaMap (Set.Ico addr.toNat (addr.toNat + size.toNat))
  | _ => True

theorem DirectOk.of_freed {physAddr size : ℕ} (h : DirectOk s) (W : WellFormed L s)
    (hf : Freed L physAddr size s s₁ s')
    (hclosed : Closed s.vmaMap (rangeSet (collectRemoveList s.vmaMap physAddr size)))
    (hkeeps : ∀ p ∈ releasedBytes s.dmemMap physAddr size,
      p ∈ physOf .direct s.vmaMap Set.univ → p < physAddr + size ∧
        physAddr + size < 18446744073709551616) : DirectOk s' := by
  have h₁ := h.of_unmapped hf.unmapped hclosed
  refine h₁.of_effect (fun x => by rw [hf.rest]) hf.dmem (fun _ => by simp [Label.release]) ?_
  rw [Set.disjoint_left]
  intro p hp hmem
  obtain ⟨x, t, hx⟩ := (h₁.mapped p).1 hp
  have hxA : x ∉ rangeSet (collectRemoveList s.vmaMap physAddr size) := fun hA => by
    rw [hf.unmapped.directAt_in hA] at hx
    cases hx
  rw [hf.unmapped.directAt_out hxA] at hx
  obtain ⟨hlt, hbound⟩ := hkeeps p hmem (mem_physOf_direct.2 ⟨x, Set.mem_univ x, t, hx⟩)
  obtain ⟨c, hc⟩ := directAt_eq_some.1 hx
  exact hxA (directBacked_subset_remove W.vma hbound
    ⟨c, p, t, hc.1, hc.2.1, hc.2.2, (firstBytes_subset hmem).1, hlt⟩)

theorem Call.exec_directOk (R : Regular L s) (hpromised : c.Promised) (hpool : c.KeepsPool s)
    (hkeeps : c.KeepsDirect s) (hs : DirectOk s) (hp : PoolOk s) (hcall : c.exec s = .ok s') :
    DirectOk s' := by
  have W := R.toWellFormed
  cases Call.exec_effect R hpromised hcall with
  | unchanged => exact hs
  | allocated h => exact hs.of_taken W h hpromised (by simp) rfl
  | expanded h => exact hs.of_taken W h hpool (by simp) rfl
  | @freed physAddr size _ _ _ hfreed =>
      have hrefused : ∀ b, b = true ∧ FreeRefused s physAddr.toNat size.toNat →
          (free physAddr size b).exec s = .ok s' → DirectOk s' := by
        rintro _ ⟨rfl, hrefused⟩ hcall
        obtain ⟨r, hr, rfl⟩ := map_eq_ok.1 hcall
        rw [free_refused W size.toNat_lt hrefused hr]
        exact hs
      rcases hkeeps with hr | hclosed
      · exact hrefused _ hr hcall
      rcases hpool with hr | hreleased
      · exact hrefused _ hr hcall
      · exact hs.of_freed W hfreed hclosed fun p hp => (hreleased p hp).2.2
  | committed h =>
      refine hs.of_committed h fun x hx => ?_
      exact hkeeps.elim (fun hsize => h.directAt_eq_none hsize hx) fun hnone => hnone x hx
  | decommitted h =>
      rcases hkeeps with hrefused | hnone
      · obtain ⟨r, hr, rfl⟩ := map_eq_ok.1 hcall
        rw [poolDecommit_refused hrefused hr]
        exact hs
      · exact hs.of_decommitted hp h hnone
  | mapped h hfixed _ _ =>
      exact hs.of_mapped W h fun hflag => by
        rw [hfixed hflag]
        exact hkeeps hflag
  | mappedFile h hfixed =>
      exact hs.of_mapped W h fun hflag => by
        rw [hfixed hflag]
        exact hkeeps hflag
  | unmapped _ h => exact hs.of_unmapped h hkeeps
  | guarded h => exact hs.of_same h.directAt_eq rfl
  | named h => exact hs.of_same h.directAt_eq rfl
  | retyped h hA =>
      refine hs.of_retyped hp h ?_
      rcases hA with ⟨rfl, -⟩ | ⟨rfl, -⟩
      · exact hkeeps
      · exact fun x hx => hx.elim

/-! ### Runs -/

theorem Fresh.directOk (hfresh : Fresh cfg s₀) : DirectOk s₀ := by
  have hnone : ∀ x, directAt s₀.vmaMap x = none := by
    intro x
    refine directAt_eq_none fun c hc hdirect => ?_
    obtain ⟨hsetup, -, -, -⟩ := hfresh
    obtain ⟨_, -, hsetup⟩ := bind_eq_ok.1 hsetup
    obtain ⟨e, -, hsetup⟩ := bind_eq_ok.1 hsetup
    obtain ⟨_, -, hret⟩ := bind_eq_ok.1 hsetup
    cases hret
    rw [construct_cells hc] at hdirect
    cases hdirect
  refine ⟨fun p => ?_, fun {x p t} hx => ?_⟩
  · constructor
    · rintro ⟨l, hl, hmapped⟩
      rw [hfresh.dmem_free hl] at hmapped
      cases hmapped
    · rintro ⟨x, t, hx⟩
      rw [hnone] at hx
      cases hx
  · rw [hnone] at hx
    cases hx

theorem Reachable.directOk (hfresh : Fresh cfg s₀)
    (h : Reachable (fun s c => c.Promised ∧ c.KeepsPool s ∧ c.KeepsDirect s) s₀ s) :
    Regular (cfg.layout s₀) s ∧ PoolOk s ∧ DirectOk s := by
  apply h.invariant (P := fun s => Regular (cfg.layout s₀) s ∧ PoolOk s ∧ DirectOk s)
  · exact ⟨hfresh.regular, hfresh.poolOk, hfresh.directOk⟩
  · rintro s s' c ⟨R, hpool, hdirect⟩ ⟨hpromised, hkeeps, hkeeps'⟩ hcall
    exact ⟨(Call.exec_effect R hpromised hcall).regular R,
      Call.exec_poolOk R hpromised hkeeps hpool hcall,
      Call.exec_directOk R hpromised hkeeps hkeeps' hdirect hpool hcall⟩

structure RecordsAgree (s : MemoryManager) : Prop where
  mapped : ∀ p, (∃ l, labels s.dmemMap p = some l ∧ l.dmaType = .mapped) ↔
    ∃ x c t, cells s.vmaMap x = some c ∧ c.type = .direct ∧ c.backing = some (p, t)
  memoryType : ∀ x c p t, cells s.vmaMap x = some c → c.type = .direct →
    c.backing = some (p, t) → ∃ l, labels s.dmemMap p = some l ∧ l.memoryType = t

/-- In every state a run of calls that keep the records in step reaches, they agree. -/
theorem records_agree (hfresh : Fresh cfg s₀)
    (h : Reachable (fun s c => c.Promised ∧ c.KeepsPool s ∧ c.KeepsDirect s) s₀ s) :
    RecordsAgree s := by
  obtain ⟨-, -, hs⟩ := h.directOk hfresh
  refine ⟨fun p => (hs.mapped p).trans ?_, fun x c p t hc hdirect hback =>
    hs.label (directAt_eq_some.2 ⟨c, hc, hdirect, hback⟩)⟩
  simp only [directAt_eq_some]
  constructor
  · rintro ⟨x, t, c, hc⟩
    exact ⟨x, c, t, hc⟩
  · rintro ⟨x, c, t, hc⟩
    exact ⟨x, t, c, hc⟩

/-- One range of direct memory is mapped at two addresses. -/
def aliasCalls : List Call :=
  [.allocate 0 0x10000 0x8000 0 0,
    .mapMemory 0x200000000 0x8000 3 0 .direct "direct" true 0 0,
    .mapMemory 0x200010000 0x8000 3 0 .direct "alias" false 0 0]

theorem aliasCalls_reachable {s : MemoryManager}
    (h : runCalls Config.retail.start aliasCalls = .ok s) :
    Reachable (fun s c => c.Promised ∧ c.KeepsPool s ∧ c.KeepsDirect s) Config.retail.start
      s := by
  refine runCalls_reachable .start (fun c hc _ => ?_) h
  have hflag : ¬hasFlag 0 MemoryMapFlags.fixed = true := by decide
  simp only [aliasCalls, List.mem_cons, List.not_mem_nil, or_false] at hc
  rcases hc with rfl | rfl | rfl
  · exact ⟨by simp [Call.Promised], trivial, trivial⟩
  · exact ⟨by simp [Call.Promised], trivial, fun hfixed => absurd hfixed hflag⟩
  · exact ⟨by simp [Call.Promised], trivial, fun hfixed => absurd hfixed hflag⟩

theorem records_agree_sample : ∃ s, runCalls Config.retail.start aliasCalls = .ok s ∧
    RecordsAgree s := by
  obtain ⟨s, hs⟩ : ∃ s, runCalls Config.retail.start aliasCalls = .ok s :=
    exists_of_toBool (by decide)
  exact ⟨s, hs, records_agree fresh_retail (aliasCalls_reachable hs)⟩

/-- Unmapping at one of two addresses gives the memory back, though it is mapped at the
other. -/
theorem alias_records_disagree :
    ¬ ∀ s, Reachable (fun _ c => c.Promised) Config.retail.start s → RecordsAgree s := by
  intro hall
  have halias : ((runCalls Config.retail.start
      (aliasCalls ++ [.unmapMemory 0x200000000 0x4000])).toOption.any fun s =>
        decide (directAt s.vmaMap 0x200010000 = some (0, 0)) &&
          decide ((labels s.dmemMap 0).map Label.dmaType = some .allocated)) = true := by
    decide
  obtain ⟨s, hrun, hboth⟩ := exists_of_any halias
  rw [Bool.and_eq_true, decide_eq_true_eq, decide_eq_true_eq] at hboth
  have hexact := hall s (runCalls_reachable .start (fun c hc _ => by
    simp only [aliasCalls, List.cons_append, List.nil_append, List.mem_cons,
      List.not_mem_nil, or_false] at hc
    rcases hc with rfl | rfl | rfl | rfl <;> simp [Call.Promised]) hrun)
  obtain ⟨c, hc, hdirect, hback⟩ := directAt_eq_some.1 hboth.1
  obtain ⟨l, hl, hmapped⟩ := (hexact.mapped 0).2 ⟨_, c, 0, hc, hdirect, hback⟩
  rw [hl, Option.map_some, Option.some.injEq, hmapped] at hboth
  cases hboth.2

end OrbitConsole.Memory
