import OrbitConsole.Core.Memory.DirectBacked

/-!
# Direct memory ranges at the 64-bit limit

`MapMemory` and a checked `Free` compare `phys_addr + size`, a wrapping sum, with the size
of the direct memory. A range that wraps around can pass; then it depends on the areas
whether anything else refuses it.
-/

namespace OrbitConsole.Memory

open Exec

/-- `2 ^ 64` -/
def wrap : ℕ := 18446744073709551616

/-- The range lies in the direct memory and every byte of it is labelled as asked. -/
def InDirect (s : MemoryManager) (physAddr size : ℕ) (ok : PhysicalMemoryType → Prop) : Prop :=
  physAddr + size ≤ s.totalDirectSize ∧
    ∀ p, physAddr ≤ p → p < physAddr + size → ∃ l, labels s.dmemMap p = some l ∧ ok l.dmaType

/-- A range that may not be mapped, or released, is refused with an error that leaves the state as
it is. -/
structure RefusesRange (s : MemoryManager) (physAddr size : ℕ) : Prop where
  map : ¬ InDirect s physAddr size (fun t => t = .allocated ∨ t = .mapped) →
    ∀ (virtualAddr alignment : UInt64) (prot : MemoryProt) (flags : MemoryMapFlags)
      (name : String) (validateDmem : Bool), ∃ code,
      s.mapMemory virtualAddr.toNat size prot flags .direct name validateDmem physAddr
        alignment.toNat = .ok (code, none, s) ∧ code ≠ orbisOk
  free : ¬ InDirect s physAddr size (fun t => t ≠ .free) →
    ∃ code, s.free physAddr size true = .ok (code, s) ∧ code ≠ orbisOk

/-- `MapMemory` sees that the range leaves the direct memory: the sum does not wrap around, or is
too large still, or the area below the address starts below it and cannot be mapped. -/
def MapNotices (s : MemoryManager) (physAddr size : ℕ) : Prop :=
  physAddr + size < wrap ∨ s.totalDirectSize < physAddr + size - wrap ∨
    ∃ k a, s.dmemMap.floor physAddr = some (k, a) ∧ k < physAddr + size - wrap ∧
      a.dmaType ≠ .allocated ∧ a.dmaType ≠ .mapped

/-- A checked `Free` sees it: the sum does not wrap around, or the address itself is too large, or
some area from the one below it on is free. -/
def FreeNotices (s : MemoryManager) (physAddr size : ℕ) : Prop :=
  physAddr + size < wrap ∨ s.totalDirectSize < physAddr ∨
    ∃ k a k' a', s.dmemMap.floor physAddr = some (k, a) ∧ s.dmemMap.get? k' = some a' ∧ k ≤ k' ∧
      a'.dmaType = .free

variable {L : Layout} {s : MemoryManager} {physAddr size : ℕ}

theorem add64_of_wrap (hphys : physAddr < wrap) (hsize : size < wrap)
    (h : wrap ≤ physAddr + size) : add64 physAddr size = physAddr + size - wrap := by
  unfold add64 wrap at *
  omega

theorem exists_floor (W : WellFormed L s) (hpos : 0 < L.directSize) (p : ℕ) :
    ∃ k a, s.dmemMap.floor p = some (k, a) := by
  obtain ⟨k, a, hk, hle, -⟩ := (W.dmem.tiles.mem_iff 0).1 (show 0 < L.directSize from hpos)
  cases hfloor : s.dmemMap.floor p with
  | none =>
      have := OrderedMap.floor_eq_none_iff.1 hfloor k a hk
      omega
  | some e => exact ⟨e.1, e.2, rfl⟩

theorem checkDmemRun_ne_ok {validateDmem : Bool} {stop : ℕ} (l : List (ℕ × PhysicalMemoryArea))
    {e : ℤ} (h : checkDmemRun validateDmem stop l = some e) : e ≠ orbisOk := by
  induction l with
  | nil => cases h
  | cons x l ih =>
      obtain ⟨k, a⟩ := x
      rw [checkDmemRun] at h
      split_ifs at h
      · cases h
        decide
      · cases h
        decide
      · exact ih h

theorem validateDmemRange_eq {validateDmem : Bool} (hphys : physAddr ≠ invalidAddr) {k : ℕ}
    {a : PhysicalMemoryArea} (hfloor : s.dmemMap.floor physAddr = some (k, a)) :
    s.validateDmemRange physAddr size validateDmem =
      .ok (checkDmemRun validateDmem (add64 physAddr size) (s.dmemMap.entriesFrom k)) := by
  have hfind : findArea s.dmemMap physAddr = .ok (k, a) := findArea_eq_ok.2 hfloor
  simp only [MemoryManager.validateDmemRange, if_pos hphys, hfind, bind, Except.bind, pure,
    Except.pure]

theorem mapMemory_of_validate {addr alignment : ℕ} {prot : MemoryProt} {flags : MemoryMapFlags}
    {name : String} {validateDmem : Bool} {e : ℤ} (hphys : physAddr ≠ invalidAddr)
    {k : ℕ} {a : PhysicalMemoryArea} (hfloor : s.dmemMap.floor physAddr = some (k, a))
    (h : checkDmemRun validateDmem (add64 physAddr size) (s.dmemMap.entriesFrom k) = some e)
    (hin : ¬ s.totalDirectSize < add64 physAddr size) :
    s.mapMemory addr size prot flags .direct name validateDmem physAddr alignment =
      .ok (e, none, s) := by
  rw [MemoryManager.mapMemory, if_neg (by simp), if_neg fun hout => hin hout.2,
    validateDmemRange_eq hphys hfloor, h]
  rfl

theorem checkDmemRun_wrapped {k stop : ℕ} {a : PhysicalMemoryArea}
    (W : WellFormed L s) (hfloor : s.dmemMap.floor physAddr = some (k, a)) (hstop : stop ≤ physAddr)
    (hok : k < stop → a.dmaType = .allocated ∨ a.dmaType = .mapped) :
    checkDmemRun false stop (s.dmemMap.entriesFrom k) = none := by
  obtain ⟨hk, hle, hmax⟩ := OrderedMap.floor_eq_some_iff.1 hfloor
  obtain ⟨l, hl⟩ := OrderedMap.entriesFrom_eq_cons hk
  have hrest : checkDmemRun false stop l = none := by
    cases l with
    | nil => rfl
    | cons e l =>
        obtain ⟨k', a'⟩ := e
        have hmem : (k', a') ∈ s.dmemMap.entriesFrom k := by rw [hl]; simp
        have hsorted := s.dmemMap.entriesFrom_sorted k
        rw [hl, List.pairwise_cons] at hsorted
        have hlt : k < k' := hsorted.1 (k', a') List.mem_cons_self
        obtain ⟨hk', -⟩ := OrderedMap.mem_entriesFrom.1 hmem
        rw [checkDmemRun, if_neg]
        rw [W.dmem.base_eq hk']
        intro hlow
        have := hmax k' a' hk' (by omega)
        omega
  rw [hl, checkDmemRun, W.dmem.base_eq hk]
  split
  · next hlt =>
      rw [if_neg (by have := hok hlt; tauto), if_neg (by simp)]
      exact hrest
  · rfl

theorem collectFreeList_of_nonFree (physAddr : ℕ) (l : List (ℕ × PhysicalMemoryArea)) (n : ℕ)
    (hl : ∀ e ∈ l, e.2.dmaType ≠ .free) : ∃ freeList, collectFreeList physAddr true l n =
      some freeList := by
  induction l generalizing n with
  | nil => exact ⟨[], rfl⟩
  | cons e l ih =>
      obtain ⟨k, a⟩ := e
      rw [collectFreeList, if_neg (hl (k, a) List.mem_cons_self)]
      split
      · exact ⟨[], rfl⟩
      · simp only
        obtain ⟨rest, hrest⟩ := ih _ fun e he => hl e (List.mem_cons_of_mem _ he)
        rw [hrest]
        exact ⟨_, rfl⟩

theorem map_refused (W : WellFormed L s) (hpos : 0 < L.directSize)
    (hphys_lt : physAddr < wrap) (hsize_lt : size < wrap) (hphys : physAddr ≠ invalidAddr)
    (hbad : ¬ InDirect s physAddr size (fun t => t = .allocated ∨ t = .mapped))
    (hnotices : MapNotices s physAddr size) (addr alignment : ℕ) (prot : MemoryProt)
    (flags : MemoryMapFlags) (name : String) (validateDmem : Bool) :
    ∃ code, s.mapMemory addr size prot flags .direct name validateDmem physAddr alignment =
      .ok (code, none, s) ∧ code ≠ orbisOk := by
  have hdirect := W.direct_eq
  by_cases hout : s.totalDirectSize < add64 physAddr size
  · refine ⟨errorEnomem, ?_, by decide⟩
    rw [MemoryManager.mapMemory, if_neg (by simp), if_pos ⟨hphys, hout⟩]
    rfl
  obtain ⟨k, a, hfloor⟩ := exists_floor W hpos physAddr
  have hsome : ∃ e, checkDmemRun validateDmem (add64 physAddr size) (s.dmemMap.entriesFrom k) =
      some e := by
    rcases Nat.lt_or_ge (physAddr + size) wrap with hlt | hge
    · -- the range lies in the direct memory, so some byte of it is at fault
      have hadd : add64 physAddr size = physAddr + size := add64_eq hlt
      by_contra hnone
      have hnone : checkDmemRun validateDmem (add64 physAddr size) (s.dmemMap.entriesFrom k) =
          none := Option.eq_none_iff_forall_ne_some.2 fun e he => hnone ⟨e, he⟩
      refine hbad ⟨by omega, fun p hp hp' => ?_⟩
      have hmem : p ∈ L.direct := show p < L.directSize by omega
      obtain ⟨l, hl⟩ := Option.isSome_iff_exists.1 (W.dmem.labels_isSome_iff.2 hmem)
      have hvalid : s.validateDmemRange physAddr size validateDmem = .ok none := by
        rw [validateDmemRange_eq hphys hfloor, hnone]
      exact ⟨l, hl, (validateDmemRange_none W hphys hvalid hp hp' hlt hl).1⟩
    · have hwrap := add64_of_wrap hphys_lt hsize_lt hge
      rcases hnotices with hlt | hlarge | ⟨k', a', hfloor', hlow, halloc, hmapped⟩
      · omega
      · omega
      · obtain ⟨rfl, rfl⟩ := Prod.mk.inj (Option.some.inj (hfloor.symm.trans hfloor'))
        obtain ⟨hk, -, -⟩ := OrderedMap.floor_eq_some_iff.1 hfloor
        obtain ⟨l, hl⟩ := OrderedMap.entriesFrom_eq_cons hk
        refine ⟨errorEnomem, ?_⟩
        rw [hl, checkDmemRun, W.dmem.base_eq hk, hwrap, if_pos hlow, if_pos ⟨halloc, hmapped⟩]
  obtain ⟨e, he⟩ := hsome
  exact ⟨e, mapMemory_of_validate hphys hfloor he hout, checkDmemRun_ne_ok _ he⟩

theorem map_not_refused (W : WellFormed L s) (hpos : 0 < L.directSize)
    (hphys_lt : physAddr < wrap) (hsize_lt : size < wrap) (hphys : physAddr ≠ invalidAddr)
    (hmissed : ¬ MapNotices s physAddr size) :
    ¬ ∃ code, s.mapMemory (0xffffffffffffffff : UInt64).toNat size 0 0x90 .direct "" false physAddr
      (0 : UInt64).toNat = .ok (code, none, s) ∧ code ≠ orbisOk := by
  rw [MapNotices, not_or, not_or] at hmissed
  obtain ⟨hwrap, hsmall, harea⟩ := hmissed
  have hadd := add64_of_wrap hphys_lt hsize_lt (Nat.le_of_not_lt hwrap)
  obtain ⟨k, a, hfloor⟩ := exists_floor W hpos physAddr
  have hnone : checkDmemRun false (add64 physAddr size) (s.dmemMap.entriesFrom k) = none := by
    refine checkDmemRun_wrapped W hfloor (by omega) fun hlt => ?_
    by_contra hbad
    rw [not_or] at hbad
    exact harea ⟨k, a, hfloor, by omega, hbad⟩
  rintro ⟨code, hcall, -⟩
  have hvalid : s.validateDmemRange physAddr size false = .ok none := by
    rw [validateDmemRange_eq hphys hfloor, hnone]
  rw [MemoryManager.mapMemory, if_neg (by simp), if_neg (by omega)] at hcall
  obtain ⟨error, herror, hcall⟩ := bind_eq_ok.1 hcall
  obtain rfl : none = error := Except.ok.inj (hvalid.symm.trans herror)
  obtain ⟨target, htarget, -⟩ := bind_eq_ok.1 hcall
  rw [MemoryManager.placeMapping, if_pos (by decide)] at htarget
  obtain ⟨_, hassert, -⟩ := bind_eq_ok.1 htarget
  have := isValidMapping_lt W.vma (assertMsg_eq_ok.1 hassert)
  exact absurd this (by decide)

theorem free_notices_refused (W : WellFormed L s) (hpos : 0 < L.directSize) (hsize : 0 < size)
    (hsize_lt : size < wrap)
    (hbad : ¬ InDirect s physAddr size (fun t => t ≠ .free))
    (hnotices : FreeNotices s physAddr size) :
    ∃ code, s.free physAddr size true = .ok (code, s) ∧ code ≠ orbisOk := by
  have hdirect := W.direct_eq
  have hdirectSize := W.directSize_le
  by_cases hout : s.totalDirectSize < physAddr ∨
      (true ∧ s.totalDirectSize < add64 physAddr size)
  · refine ⟨errorEnoent, ?_, by decide⟩
    rw [MemoryManager.free, if_pos hout]
    rfl
  obtain ⟨k, a, hfloor⟩ := exists_floor W hpos physAddr
  obtain ⟨hk, hkle, hmax⟩ := OrderedMap.floor_eq_some_iff.1 hfloor
  have hlimit : physAddr ≤ L.directSize := by
    rw [not_or] at hout
    omega
  -- either way the walk meets a free area before it has counted the size
  have hmeets : ∃ k' a', s.dmemMap.get? k' = some a' ∧ k ≤ k' ∧ a'.dmaType = .free ∧
      max physAddr k' < physAddr + size := by
    rcases Nat.lt_or_ge (physAddr + size) wrap with hlt | hge
    · have hadd : add64 physAddr size = physAddr + size := add64_eq hlt
      have hin : physAddr + size ≤ s.totalDirectSize := by
        rw [not_or] at hout
        have : ¬ s.totalDirectSize < add64 physAddr size := fun h => hout.2 ⟨rfl, h⟩
        omega
      by_contra hnone
      refine hbad ⟨hin, fun p hp hp' => ?_⟩
      obtain ⟨k', a', hk', hle', hlt'⟩ := (W.dmem.tiles.mem_iff p).1
        (show p < L.directSize by omega)
      refine ⟨a'.label, W.dmem.labels_eq hk' hle' hlt', fun hfree => hnone ⟨k', a', hk', ?_, hfree,
        by omega⟩⟩
      by_contra hbefore
      have := W.dmem.tiles.disjoint hk' hk (by omega)
      omega
    · rcases hnotices with hlt | hlarge | ⟨k₀, a₀, k', a', hfloor', hk', hle', hfree⟩
      · omega
      · exact absurd (.inl hlarge) hout
      · obtain ⟨rfl, rfl⟩ := Prod.mk.inj (Option.some.inj (hfloor.symm.trans hfloor'))
        have := W.dmem.end_le hk'
        unfold wrap at hge
        exact ⟨k', a', hk', hle', hfree, by omega⟩
  obtain ⟨k', a', hk', hle', hfree, hlt⟩ := hmeets
  have hnone := collectFreeList_checked (s.dmemMap.entriesFrom k)
    (W.dmem.tiles.entries_pairwise.filter _) (entriesFrom_bound W.dmem hlimit hfloor)
    (fun e _ => le_max_left physAddr e.1) hsize_lt
    (OrderedMap.mem_entriesFrom.2 ⟨hk', hle'⟩) hfree hlt
  have hfind : findArea s.dmemMap physAddr = .ok (k, a) := findArea_eq_ok.2 hfloor
  refine ⟨errorEnoent, ?_, by decide⟩
  rw [MemoryManager.free, if_neg hout]
  simp only [hfind, hnone, bind, Except.bind, pure, Except.pure]

theorem free_not_refused (W : WellFormed L s) (hpos : 0 < L.directSize)
    (hphys_lt : physAddr < wrap) (hsize_lt : size < wrap)
    (hmissed : ¬ FreeNotices s physAddr size) :
    ¬ ∃ code, s.free physAddr size true = .ok (code, s) ∧ code ≠ orbisOk := by
  rw [FreeNotices, not_or, not_or] at hmissed
  obtain ⟨hwrap, hsmall, harea⟩ := hmissed
  have hadd := add64_of_wrap hphys_lt hsize_lt (Nat.le_of_not_lt hwrap)
  obtain ⟨k, a, hfloor⟩ := exists_floor W hpos physAddr
  rintro ⟨code, hcall, hcode⟩
  obtain ⟨freeList, hlist⟩ := collectFreeList_of_nonFree physAddr
    (s.dmemMap.entriesFrom k) size fun e he hfree => by
      obtain ⟨hk', hle'⟩ := OrderedMap.mem_entriesFrom.1 he
      exact harea ⟨k, a, e.1, e.2, hfloor, hk', hle', hfree⟩
  have hfind : findArea s.dmemMap physAddr = .ok (k, a) := findArea_eq_ok.2 hfloor
  rw [MemoryManager.free, if_neg (by rw [hadd]; omega)] at hcall
  obtain ⟨e, he, hcall⟩ := bind_eq_ok.1 hcall
  obtain rfl : (k, a) = e := Except.ok.inj (hfind.symm.trans he)
  simp only [hlist] at hcall
  obtain ⟨s₁, -, hcall⟩ := bind_eq_ok.1 hcall
  obtain ⟨dmem, -, hcall⟩ := bind_eq_ok.1 hcall
  exact hcode (Prod.mk.inj (Except.ok.inj hcall)).1.symm

variable {cfg : Config} {s₀ : MemoryManager}

/-- In every reachable state both calls refuse every bad range at an aligned address exactly when
they notice that it leaves the direct memory. -/
theorem refusesRange_iff (hfresh : Fresh cfg s₀) (h : Reachable (fun _ c => c.Promised) s₀ s)
    (physAddr size : UInt64) (haligned : physAddr.toNat % pageSize = 0)
    (hsize : 0 < size.toNat) :
    RefusesRange s physAddr.toNat size.toNat ↔
      MapNotices s physAddr.toNat size.toNat ∧ FreeNotices s physAddr.toNat size.toNat := by
  have W := (h.regular hfresh fun _ _ hc => hc).toWellFormed
  have hpos : 0 < (cfg.layout s₀).directSize := hfresh.2.2.2
  have hphys : physAddr.toNat ≠ invalidAddr := by
    intro heq
    rw [heq] at haligned
    exact absurd haligned (by decide)
  have hphys_lt := physAddr.toNat_lt
  have hsize_lt := size.toNat_lt
  have hdirect := W.direct_eq
  have hdirectSize := W.directSize_le
  constructor
  · intro hrefuses
    constructor
    · by_contra hmissed
      refine map_not_refused W hpos hphys_lt hsize_lt hphys hmissed
        (hrefuses.map (fun hin => ?_) 0xffffffffffffffff 0 0 0x90 "" false)
      have := hin.1
      exact hmissed (.inl (by unfold wrap; omega))
    · by_contra hmissed
      refine free_not_refused W hpos hphys_lt hsize_lt hmissed (hrefuses.free fun hin => ?_)
      have := hin.1
      exact hmissed (.inl (by unfold wrap; omega))
  · rintro ⟨hmap, hfree⟩
    exact ⟨fun hbad virtualAddr alignment => map_refused W hpos hphys_lt hsize_lt hphys hbad
        hmap virtualAddr.toNat alignment.toNat,
      fun hbad => free_notices_refused W hpos hsize hsize_lt hbad hfree⟩

theorem refusesRange_iff_sample :
    RefusesRange Config.retail.start (0x4000 : UInt64).toNat (0x4000 : UInt64).toNat ↔
      MapNotices Config.retail.start (0x4000 : UInt64).toNat (0x4000 : UInt64).toNat ∧
        FreeNotices Config.retail.start (0x4000 : UInt64).toNat (0x4000 : UInt64).toNat :=
  refusesRange_iff fresh_retail .start 0x4000 0x4000 (by decide) (by decide)

/-- Mapping the last page of the 64-bit range passes the checks and fails an assertion. -/
theorem refusesRange_fails :
    ¬ ∀ s, Reachable (fun _ c => c.Promised) Config.retail.start s →
      ∀ physAddr size : UInt64, physAddr.toNat % pageSize = 0 → 0 < size.toNat →
        RefusesRange s physAddr.toNat size.toNat := by
  intro hall
  have hrefuses := hall _ .start 0xffffffffffffc000 0x4000 (by decide) (by decide)
  have hbad : ¬ InDirect Config.retail.start (0xffffffffffffc000 : UInt64).toNat
      (0x4000 : UInt64).toNat (fun t => t = .allocated ∨ t = .mapped) := by
    intro hin
    exact absurd hin.1 (by decide)
  obtain ⟨code, hcall, -⟩ := hrefuses.map hbad 0x200000000 0 3 0x10 "" false
  have herror : (Config.retail.start.mapMemory (0x200000000 : UInt64).toNat
      (0x4000 : UInt64).toNat 3 0x10 .direct "" false (0xffffffffffffc000 : UInt64).toNat
      (0 : UInt64).toNat).toBool = false := by
    decide
  rw [hcall] at herror
  cases herror

end OrbitConsole.Memory
