import OrbitConsole.Core.Memory.PoolSpec

/-!
# What allocating and freeing direct memory do

`Allocate` and `PoolExpand` relabel a range of free memory. `Free` unmaps the
Direct mappings it finds in the range and then releases the pieces of non-free
memory it collected before.
-/

namespace OrbitConsole.Memory

open Exec

variable {L : Layout} {s s' : MemoryManager} {U A B : Set ℕ} {addr size alignment : ℕ}

/-! ### `Allocate` and `PoolExpand` -/

theorem le_alignUp {value : ℕ} (h : value < 9223372036854775808) (hpos : 0 < alignment)
    (hlt : alignment < 18446744073709551616) : value ≤ alignUp value alignment := by
  unfold alignUp
  simp only
  have hmod := Nat.mod_lt value hpos
  have hle := Nat.mod_le value alignment
  split
  · omega
  · have hsum : value - value % alignment + alignment < 18446744073709551616 := by
      rcases Nat.lt_or_ge value alignment with hv | hv
      · rw [Nat.mod_eq_of_lt hv]
        omega
      · omega
    rw [add64_eq hsum]
    omega

theorem searchDmem_ok {m : PhysMap} (P : PhysMapOk m U) (hpos : 0 < alignment)
    (hlt : alignment < 18446744073709551616) {l : List (ℕ × PhysicalMemoryArea)}
    {start start' handle : ℕ} (hl : ∀ e ∈ l, m.get? e.1 = some e.2)
    (hstart : start < 18446744073709551616)
    (h : searchDmem size alignment l start = some (handle, start')) :
    ∃ a, m.get? handle = some a ∧ a.dmaType = .free ∧ start' < 18446744073709551616 ∧
      add64 start' size ≤ handle + a.size ∧
      ((∀ e, l.head? = some e → e.1 ≤ start) → handle ≤ start') := by
  induction l generalizing start with
  | nil => cases h
  | cons e l ih =>
      obtain ⟨k, a⟩ := e
      have hk := hl (k, a) (by simp)
      have hbound : k + a.size ≤ 9223372036854775808 := P.end_le hk
      simp only [searchDmem] at h
      by_cases hskip : a.dmaType ≠ .free ∨ a.getEnd < add64 start size
      · rw [if_pos hskip] at h
        cases l with
        | nil => cases h
        | cons e l =>
            obtain ⟨k', b⟩ := e
            have hk' := hl (k', b) (by simp)
            have hbound' : k' + b.size ≤ 9223372036854775808 := P.end_le hk'
            have hbpos : 0 < b.size := P.tiles.pos hk'
            have hbase : b.base = k' := P.base_eq hk'
            obtain ⟨c, hc, hfree, hlt', hfits, hle⟩ :=
              ih (fun e he => hl e (List.mem_cons_of_mem _ he))
                (alignUp_lt (show b.base < 18446744073709551616 by omega)) h
            refine ⟨c, hc, hfree, hlt', hfits, fun _ => hle fun e he => ?_⟩
            cases he
            change k' ≤ alignUp b.base alignment
            rw [hbase]
            exact le_alignUp (by omega) hpos hlt
      · rw [if_neg hskip] at h
        cases h
        rw [not_or, not_not, PhysicalMemoryArea.getEnd, P.base_eq hk,
          add64_eq (by omega)] at hskip
        exact ⟨a, hk, hskip.1, hstart, Nat.le_of_not_lt hskip.2, fun hhead => hhead (handle, a) rfl⟩

structure Taken (L : Layout) (start size : ℕ) (l : Label) (noWrap : Prop)
    (m m' : PhysMap) : Prop extends Relabelled L.direct m start size (fun _ => l) m' where
  free : noWrap → ∀ p, start ≤ p → p < start + size →
    ∃ l, labels m p = some l ∧ l.dmaType = .free

theorem taken_of_searchDmem (noWrap : Prop) {m m' : PhysMap} {l : Label}
    {f : PhysicalMemoryArea → PhysicalMemoryArea} {first start start' handle handle' : ℕ}
    {a : PhysicalMemoryArea} (P : PhysMapOk m L.direct) (hf : Relabels f fun _ => l) (hpos : 0 < alignment)
    (hlt : alignment < 18446744073709551616) (hstart : start < 18446744073709551616)
    (hsize : size < 18446744073709551616) (hfirst : m.get? first = some a)
    (hwrap : noWrap → first ≤ start)
    (hsearch : searchDmem size alignment (m.entriesFrom first) start = some (handle, start'))
    (hcarve : carvePhysArea m start' size = .ok (m', handle')) :
    handle' = start' ∧ Taken L start' size l noWrap m (m'.modify start' f) := by
  obtain ⟨b, hb, hfree, hlt', hfits, hle⟩ := searchDmem_ok P hpos hlt
    (fun e he => (OrderedMap.mem_entriesFrom.1 he).1) hstart hsearch
  obtain ⟨hhandle, hcarved⟩ := carvePhysArea_ok P hlt' hsize hcarve
  obtain ⟨hrel, -⟩ := hcarved.modify hf
  refine ⟨hhandle, hrel, fun hno p hp hp' => ?_⟩
  -- the run starts on the first area, which the aligned address does not precede
  have hhead : ∀ e, (m.entriesFrom first).head? = some e → e.1 ≤ start := by
    intro e he
    have hmin := (OrderedMap.head?_eq_some_iff_of_sorted (m.entriesFrom_sorted first)).1 he
    exact (hmin.2 (first, a) (OrderedMap.mem_entriesFrom.2 ⟨hfirst, le_rfl⟩)).trans (hwrap hno)
  obtain ⟨k, c, hk, hkle, hkend⟩ := hrel.inside
  have hbound := P.end_le hk
  rw [add64_eq (by omega)] at hfits
  have := hle hhead
  exact ⟨b.label, P.labels_eq hb (by omega) (by omega), hfree⟩

theorem alignment_ok {d : ℕ} (hd : 0 < d) (hd' : d < 18446744073709551616)
    (halign : alignment < 18446744073709551616) :
    0 < (if 0 < alignment then alignment else d) ∧
      (if 0 < alignment then alignment else d) < 18446744073709551616 := by
  split
  · exact ⟨by assumption, halign⟩
  · exact ⟨hd, hd'⟩

theorem allocate_ok {searchStart searchEnd : ℕ} {memoryType : ℤ} {r : ℕ × MemoryManager}
    (W : WellFormed L s) (hsearchStart : searchStart < 18446744073709551616)
    (hsize : size < 18446744073709551616) (halign : alignment < 18446744073709551616)
    (h : s.allocate searchStart searchEnd size alignment memoryType = .ok r) :
    r.2 = s ∨ ∃ start dmem,
      Taken L start size ⟨memoryType, .allocated⟩ (searchStart < 9223372036854775808)
        s.dmemMap dmem ∧
      r.2 = { s with dmemMap := dmem } := by
  unfold MemoryManager.allocate at h
  obtain ⟨⟨k, a⟩, hfind, h⟩ := bind_eq_ok.1 h
  obtain ⟨hk, hle, -⟩ := OrderedMap.floor_eq_some_iff.1 (findArea_eq_ok.1 hfind)
  have hbound := W.dmem.end_le hk
  have hbase := W.dmem.base_eq hk
  obtain ⟨hpos, hlt⟩ := alignment_ok (d := pageSize) (Nat.succ_pos _)
    (by unfold pageSize; omega) halign
  simp only at h
  split at h
  · cases h
    exact .inl rfl
  next handle start hsearch =>
  obtain ⟨⟨m, handle'⟩, hcarve, h⟩ := bind_eq_ok.1 h
  obtain ⟨⟨m', k'⟩, hmerge, hret⟩ := bind_eq_ok.1 h
  have hwrap : searchStart < 9223372036854775808 → k ≤ alignUp (max searchStart a.base)
      (if 0 < alignment then alignment else pageSize) := by
    intro hno
    refine le_trans ?_ (le_alignUp (max_lt hno (by omega)) hpos hlt)
    rw [hbase]
    exact le_max_right _ _
  obtain ⟨rfl, htaken⟩ := taken_of_searchDmem (searchStart < 9223372036854775808)
    (l := ⟨memoryType, .allocated⟩)
    (f := fun area => { area with memoryType := memoryType, dmaType := .allocated }) W.dmem
    (fun _ => ⟨rfl, rfl, rfl⟩) hpos hlt
    (alignUp_lt (by omega)) hsize hk hwrap hsearch hcarve
  obtain ⟨b, hb, -⟩ := bind_eq_ok.1 hmerge
  obtain ⟨m₁, k₁, hmerge', hcoarse, -⟩ := mergeAdjacentPhys_ok htaken.ok.toPhysTiles
    htaken.ok.seamless (deref_eq_ok.1 hb)
  obtain ⟨rfl, rfl⟩ : m₁ = m' ∧ k₁ = k' := by
    simpa using hmerge'.symm.trans hmerge
  cases hret
  exact .inr ⟨handle', m₁, ⟨htaken.toRelabelled.coarser hcoarse, htaken.free⟩, rfl⟩

/-- A call of `PoolExpand` that returns has changed nothing or taken a range, which then
counts for the budget. The start of the search is the guest's, and aligning it up may wrap
around. -/
theorem poolExpand_ok {searchStart searchEnd : ℕ} {r : ℕ × MemoryManager}
    (W : WellFormed L s) (hsearchStart : searchStart < 18446744073709551616)
    (hsize : size < 18446744073709551616) (halign : alignment < 18446744073709551616)
    (h : s.poolExpand searchStart searchEnd size alignment = .ok r) :
    r.2 = s ∨ ∃ start dmem,
      Taken L start size ⟨3, .pooled⟩
        (searchStart ≤ alignUp searchStart (if 0 < alignment then alignment else poolPageSize))
        s.dmemMap dmem ∧
      r.2 = { s with dmemMap := dmem, poolBudget := add64 s.poolBudget size } := by
  unfold MemoryManager.poolExpand at h
  obtain ⟨⟨k, a⟩, hfind, h⟩ := bind_eq_ok.1 h
  obtain ⟨hk, hle, -⟩ := OrderedMap.floor_eq_some_iff.1 (findArea_eq_ok.1 hfind)
  have hbound := W.dmem.end_le hk
  have hapos := W.dmem.tiles.pos hk
  have hbase := W.dmem.base_eq hk
  obtain ⟨hpos, hlt⟩ := alignment_ok (d := poolPageSize) (Nat.succ_pos _)
    (by unfold poolPageSize; omega) halign
  simp only at h
  split at h
  · cases h
    exact .inl rfl
  next handle start hsearch =>
  obtain ⟨⟨m, handle'⟩, hcarve, hret⟩ := bind_eq_ok.1 h
  have hwrap : searchStart ≤
      alignUp searchStart (if 0 < alignment then alignment else poolPageSize) →
      k ≤ if a.base < searchStart then
          alignUp searchStart (if 0 < alignment then alignment else poolPageSize)
        else alignUp a.base (if 0 < alignment then alignment else poolPageSize) := by
    intro hno
    split
    · exact hle.trans hno
    · rw [hbase]
      exact le_alignUp (by omega) hpos hlt
  have hstart : (if a.base < searchStart then
      alignUp searchStart (if 0 < alignment then alignment else poolPageSize)
      else alignUp a.base (if 0 < alignment then alignment else poolPageSize)) <
      18446744073709551616 := by
    split
    · exact alignUp_lt hsearchStart
    · exact alignUp_lt (by omega)
  obtain ⟨rfl, htaken⟩ := taken_of_searchDmem
    (searchStart ≤ alignUp searchStart (if 0 < alignment then alignment else poolPageSize))
    (l := ⟨3, .pooled⟩) (f := fun area => { area with dmaType := .pooled, memoryType := 3 })
    W.dmem (fun _ => ⟨rfl, rfl, rfl⟩) hpos hlt hstart hsize hk hwrap hsearch hcarve
  cases hret
  exact .inr ⟨handle', _, htaken, rfl⟩

end OrbitConsole.Memory
