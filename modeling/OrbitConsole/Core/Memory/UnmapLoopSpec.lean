import OrbitConsole.Core.Memory.UnmapSpec

/-!
# Unmapping a range

The loops around `UnmapBytesFromEntry` put its rounds together: on a range of
usable addresses `UnmapMemoryImpl` and the Fixed branch of `CreateArea` unmap
exactly the range. `IsValidMapping` accepts such ranges and, besides them, only
ranges that start inside a gap between two regions, on which `UnmapMemory`
changes nothing.
-/

namespace OrbitConsole.Memory

open Exec

variable {L : Layout} {s s' : MemoryManager} {U A : Set ℕ} {T : VMAType} {total : Prop}

/-! ### Unmapping keeps a state safe -/

theorem Unshared.of_unmapped {R : Set ℕ} {pm pm' : PhysMap} {g : Label → Label}
    (h : Unshared T s.vmaMap pm R) (hu : Unmapped L A s s') (hT : T ≠ .free)
    (hT' : T ≠ .pooled) (heff : PhysEffect R pm (physOf T s.vmaMap A) g pm') :
    Unshared T s'.vmaMap pm' R := by
  have hback : ∀ {x c}, cells s'.vmaMap x = some c → c.type = T →
      cells s.vmaMap x = some c ∧ x ∉ A := fun {x c} hc hcT => by
    obtain ⟨hc', hA⟩ := hu.cell_of_type hT hc hcT
    exact ⟨hc', fun hx => hT' (hA hx)⟩
  refine ⟨fun {x y c d p t u} hx hy hc hd hp hq => ?_, fun B => ?_, ?_⟩
  · exact h.injective (hback hx hc).1 (hback hy hd).1 hc hd hp hq
  · rintro p ⟨x, hx, c, t, hc, hcT, hp⟩
    exact h.subset B ⟨x, hx, c, t, (hback hc hcT).1, hcT, hp⟩
  · intro k v hk x a hx htype y hy hy'
    have hold := hu.pieces _ (subClosed_unbroken T pm) h.unbroken k v hk x a hx htype y hy hy'
    -- a byte of this piece is the backing of a cell that is still there
    have hcell : ∀ p, a.base ≤ p → p < a.base + a.size → p ∉ physOf T s.vmaMap A := by
      rintro p hp hp' ⟨z, hz, c, t, hc, hcT, hcp⟩
      have hv := hu.vma.area hk
      have hb : hasPhysicalBacking v = true := by
        by_contra hb
        rw [hv.unbacked (by simpa using hb)] at hx
        cases hx
      have P := hv.backed hb
      have hpos := P.tiles.pos hx
      have hlt : x + a.size - 1 < v.size := P.tiles.mem_of_get? hx (by omega) (by omega)
      have hbyte := P.bytes_eq hx (p := x + (p - a.base)) (by omega) (by omega)
      have hw : cells s'.vmaMap (k + (x + (p - a.base))) =
          some (v.cell (x + (p - a.base))) := by
        rw [hu.vma.cells_eq hk (by omega) (by omega), Nat.add_sub_cancel_left]
      have hwp : (v.cell (x + (p - a.base))).backing = some (p, a.memoryType) := by
        simp only [VirtualMemoryArea.cell, hbyte, Option.map_some, backingOf]
        rw [show a.base + (x + (p - a.base) - x) = p by omega]
        rfl
      obtain ⟨hw', hwA⟩ := hback hw htype
      have heq := h.injective hw' hc htype hcT hwp hcp
      exact hwA (heq ▸ hz)
    by_contra hne
    rcases heff.key y (Option.isSome_iff_ne_none.2 hne) with hkey | ⟨p, hp, rfl | rfl⟩
    · rw [hold] at hkey
      cases hkey
    · exact hcell y hy.le hy' hp
    · exact hcell p (by omega) (by omega) hp

theorem Safe.of_unmapped (h : Safe L s) (hu : Unmapped L A s s') : Safe L s' :=
  ⟨h.direct.of_unmapped hu (by simp) (by simp) hu.dmem,
    h.flexible.of_unmapped hu (by simp) (by simp) hu.fmem⟩

/-! ### The loop of `UnmapMemoryImpl` -/

theorem unmapRound_spec {addr n k : ℕ} {v : VirtualMemoryArea} (W : WellFormed L s)
    (husage : s.flexibleUsage < 18446744073709551616)
    (hn : addr + n ≤ 9223372036854775808) (hpos : 0 < n)
    (hfloor : s.vmaMap.floor addr = some (k, v)) (hlt : addr < k + v.size)
    (htotal : total → Safe L s) :
    Spec total (s.unmapBytesFromEntry addr v n) fun r =>
      0 < r.1 ∧ r.1 ≤ n ∧ Unmapped L (Set.Ico addr (addr + r.1)) s r.2 := by
  obtain ⟨hk, hle, -⟩ := OrderedMap.floor_eq_some_iff.1 hfloor
  refine (unmapBytesFromEntry_spec W husage (by omega) (by omega) hfloor
    fun ht => ⟨htotal ht, hlt, hpos⟩).mono ?_
  rintro r (⟨rfl, htype⟩ | ⟨hr, hrpos, -, hun⟩)
  · have hbound := W.vma.bounded hk
    have hsub : sub64 v.size (addr - k) = v.size - (addr - k) :=
      sub64_eq (by omega) (by omega)
    simp only [hsub]
    refine ⟨by omega, by omega, Unmapped.of_kept W husage ?_⟩
    rintro x ⟨hx, hx'⟩ c hc hr
    rw [W.vma.cells_eq hk (by omega) (by omega), Option.some.injEq] at hc
    subst hc
    rcases htype with htype | htype
    · exact hr.1 htype
    · exact hr.2 htype
  · exact ⟨hrpos, by omega, hun⟩

theorem ico_split {a b c : ℕ} (h : a ≤ b) (h' : b ≤ c) :
    Set.Ico a b ∪ Set.Ico b c = Set.Ico a c :=
  Set.Ico_union_Ico_eq_Ico h h'

theorem ico_disjoint (a b c : ℕ) : Disjoint (Set.Ico a b) (Set.Ico b c) :=
  Set.disjoint_left.2 fun _ hx hx' => absurd hx.2 (not_lt.2 hx'.1)

theorem floor_of_mem {m : VMAMap} {x : ℕ} (V : VmaMapOk m U) (hx : x ∈ U) :
    ∃ k v, m.floor x = some (k, v) ∧ x < k + v.size := by
  obtain ⟨k, v, hk, hle, hlt⟩ := (V.tiles.mem_iff x).1 hx
  exact ⟨k, v, V.tiles.floor_eq hk hle hlt, hlt⟩

theorem unmapMemoryImplLoop_spec {addr size : ℕ} (hsize : addr + size ≤ 9223372036854775808)
    (hrange : Set.Ico addr (addr + size) ⊆ L.usable) (rounds done : ℕ)
    (W : WellFormed L s) (husage : s.flexibleUsage < 18446744073709551616)
    (hdone : done < size) (hrounds : size < done + rounds) (htotal : total → Safe L s) :
    Spec total (MemoryManager.unmapMemoryImplLoop addr size rounds done s)
      (Unmapped L (Set.Ico (addr + done) (addr + size)) s) := by
  induction rounds generalizing done s with
  | zero => omega
  | succ rounds ih =>
      rw [MemoryManager.unmapMemoryImplLoop,
        add64_eq (show addr + done < 18446744073709551616 by omega),
        sub64_eq hdone.le (by omega)]
      obtain ⟨k, v, hfloor, hlt⟩ :=
        floor_of_mem (x := addr + done) W.vma (hrange ⟨by omega, by omega⟩)
      refine Spec.bind (Spec.of_ok (findArea_eq_ok.2 hfloor) rfl) ?_
      rintro _ rfl
      refine Spec.bind (unmapRound_spec (n := size - done) W husage (by omega) (by omega)
        hfloor hlt htotal) ?_
      rintro ⟨u, s₁⟩ ⟨hpos, hle, hun⟩
      simp only at hpos hle hun
      refine Spec.bind (assertMsg_spec fun _ => hpos) fun _ _ => ?_
      simp only [add64_eq (show done + u < 18446744073709551616 by omega)]
      split
      · next hmore =>
          refine (ih (done + u) (hun.wellFormed W) hun.usage_lt hmore (by omega)
            fun ht => (htotal ht).of_unmapped hun).mono fun s₂ hs₂ => ?_
          rw [← Nat.add_assoc] at hs₂
          have h := hun.trans hs₂ (Set.finite_Ico _ _) (Set.finite_Ico _ _)
          rwa [ico_split (by omega) (by omega)] at h
      · next hmore =>
          refine Spec.pure ?_
          rwa [show addr + size = addr + done + u by omega]

theorem unmapMemoryImpl_spec {addr size : ℕ} (W : WellFormed L s)
    (husage : s.flexibleUsage < 18446744073709551616) (hpos : 0 < size)
    (hrange : Set.Ico addr (addr + size) ⊆ L.usable) (htotal : total → Safe L s) :
    Spec total (s.unmapMemoryImpl addr size)
      (Unmapped L (Set.Ico addr (addr + size)) s) := by
  have hlast : addr + size - 1 < 9223372036854775808 :=
    W.vma.lt_of_mem (hrange ⟨by omega, by omega⟩)
  exact unmapMemoryImplLoop_spec (by omega) hrange (size + 1) 0 W husage hpos (by omega) htotal

/-! ### `IsValidMapping` -/

theorem validateRun_subset {m : VMAMap} (V : VmaMapOk m U) {l : List (ℕ × VirtualMemoryArea)}
    {k addr size : ℕ} {v : VirtualMemoryArea}
    (hl : ∀ e ∈ (k, v) :: l, m.get? e.1 = some e.2) (hle : k ≤ addr) (hlt : addr < k + v.size)
    (hsize : size < 18446744073709551616)
    (h : validateRun ((k, v) :: l) addr size = true) : Set.Ico addr (addr + size) ⊆ U := by
  induction l generalizing k v addr size with
  | nil =>
      have hk : m.get? k = some v := hl (k, v) (by simp)
      have hbase := V.base_eq hk
      have hbound := V.bounded hk
      have hin : sub64 v.size (addr - k) = v.size - (addr - k) :=
        sub64_eq (by omega) (by omega)
      have hleft : sub64 size (min (v.size - (addr - k)) size) =
          size - min (v.size - (addr - k)) size := sub64_eq (by omega) hsize
      simp only [validateRun, hbase, sub64_eq hle (show addr < _ by omega), hin, hleft] at h
      split_ifs at h with hzero
      · subst hzero
        rintro x ⟨hx, hx'⟩
        omega
      · rw [decide_eq_true_eq] at h
        rintro x ⟨hx, hx'⟩
        exact V.tiles.mem_of_get? hk (by omega) (by omega)
  | cons e l ih =>
      obtain ⟨k', v'⟩ := e
      have hk : m.get? k = some v := hl (k, v) (by simp)
      have hk' : m.get? k' = some v' := hl (k', v') (by simp)
      have hbase := V.base_eq hk
      have hbase' := V.base_eq hk'
      have hbound := V.bounded hk
      have hpos' := V.tiles.pos hk'
      have hin : sub64 v.size (addr - k) = v.size - (addr - k) :=
        sub64_eq (by omega) (by omega)
      have hleft : sub64 size (min (v.size - (addr - k)) size) =
          size - min (v.size - (addr - k)) size := sub64_eq (by omega) hsize
      rw [validateRun] at h
      simp only [hbase, hbase', sub64_eq hle (show addr < _ by omega), hin, hleft] at h
      split_ifs at h with hzero hgap
      · subst hzero
        rintro x ⟨hx, hx'⟩
        omega
      · rcases Nat.lt_or_ge (v.size - (addr - k)) size with hmore | hdone
        · have hadd : add64 addr (min (v.size - (addr - k)) size) = k + v.size := by
            rw [min_eq_left hmore.le, add64_eq (by omega)]
            omega
          rw [hadd] at h hgap
          have hnext : k + v.size = k' := by
            by_contra hne
            exact hgap ⟨by omega, hne⟩
          rw [hnext, min_eq_left hmore.le] at h
          have hrest := ih (fun e he => hl e (List.mem_cons_of_mem _ he)) le_rfl
            (by omega) (by omega) h
          rintro x ⟨hx, hx'⟩
          by_cases hxk : x < k + v.size
          · exact V.tiles.mem_of_get? hk (by omega) hxk
          · exact hrest ⟨by omega, by omega⟩
        · rintro x ⟨hx, hx'⟩
          exact V.tiles.mem_of_get? hk (by omega) (by omega)

theorem validateRun_gap {m : VMAMap} (V : VmaMapOk m U) {l : List (ℕ × VirtualMemoryArea)}
    {k addr size : ℕ} {v : VirtualMemoryArea} (hl : ∀ e ∈ l, m.get? e.1 = some e.2 ∧ addr < e.1)
    (hk : m.get? k = some v) (haddr : addr < 18446744073709551616) (hle : k + v.size ≤ addr)
    (hsize : size < 18446744073709551616)
    (h : validateRun ((k, v) :: l) addr size = true) :
    min (sub64 v.size (addr - k)) size = size := by
  have hbase := V.base_eq hk
  have hoff : sub64 addr v.base = addr - k := by rw [hbase, sub64_eq (by omega) haddr]
  have hleft : sub64 size (min (sub64 v.size (addr - k)) size) =
      size - min (sub64 v.size (addr - k)) size := sub64_eq (by omega) hsize
  by_contra hne
  cases l with
  | nil =>
      simp only [validateRun, hoff, hleft] at h
      split_ifs at h with hzero
      · omega
      · rw [decide_eq_true_eq] at h
        omega
  | cons e l =>
      obtain ⟨k', v'⟩ := e
      obtain ⟨hk', hlt⟩ := hl (k', v') (by simp)
      have hbase' := V.base_eq hk'
      rw [validateRun] at h
      simp only [hoff, hleft] at h
      split_ifs at h with hzero hgap
      · omega
      · -- what is left starts where the area before the gap ends
        have hnext : add64 addr (min (sub64 v.size (addr - k)) size) ≠ v'.base := by
          rw [hbase']
          simp only at hlt
          have hadd : add64 addr (sub64 v.size (addr - k)) = k + v.size := by
            have hbound := V.bounded hk
            unfold add64 sub64
            omega
          rw [min_eq_left (by omega), hadd]
          omega
        exact hgap ⟨by omega, hnext⟩

theorem isValidMapping_cases {addr size : ℕ} (V : VmaMapOk s.vmaMap U)
    (haddr : addr < 18446744073709551616) (hsize : size < 18446744073709551616)
    (h : s.isValidMapping addr size = true) :
    Set.Ico addr (addr + size) ⊆ U ∨
      ∃ k v, s.vmaMap.floor addr = some (k, v) ∧ k + v.size ≤ addr ∧
        min (sub64 v.size (addr - k)) size = size := by
  unfold MemoryManager.isValidMapping at h
  split at h
  · next k v _ _ hfloor =>
      obtain ⟨hk, hle, hmax⟩ := OrderedMap.floor_eq_some_iff.1 hfloor
      split_ifs at h with hbounds hzero
      · left
        subst hzero
        rintro x ⟨hx, hx'⟩
        omega
      · obtain ⟨l, hl⟩ := OrderedMap.entriesFrom_eq_cons hk
        have hmem : ∀ e ∈ (k, v) :: l, s.vmaMap.get? e.1 = some e.2 ∧ k ≤ e.1 := by
          intro e he
          rw [← hl] at he
          exact OrderedMap.mem_entriesFrom.1 he
        rw [hl] at h
        rcases Nat.lt_or_ge addr (k + v.size) with hlt | hge
        · exact .inl (validateRun_subset V (fun e he => (hmem e he).1) hle hlt hsize h)
        · refine .inr ⟨k, v, hfloor, hge, validateRun_gap V (fun e he => ?_) hk haddr hge
            hsize h⟩
          obtain ⟨he', hke⟩ := hmem e (List.mem_cons_of_mem _ he)
          refine ⟨he', ?_⟩
          have hsorted := s.vmaMap.entriesFrom_sorted k
          rw [hl, List.pairwise_cons] at hsorted
          have hlt := hsorted.1 e he
          by_contra hle'
          have := hmax e.1 e.2 he' (by omega)
          simp only at hlt
          omega
  · cases h

theorem isValidMapping_subset {addr size : ℕ} (V : VmaMapOk s.vmaMap U)
    (haddr : addr ∈ U) (hsize : size < 18446744073709551616)
    (h : s.isValidMapping addr size = true) : Set.Ico addr (addr + size) ⊆ U := by
  have hlt := V.lt_of_mem haddr
  rcases isValidMapping_cases V (by omega) hsize h with h | ⟨k, v, hfloor, hge, -⟩
  · exact h
  · obtain ⟨k', v', hfloor', hlt'⟩ := floor_of_mem V haddr
    rw [hfloor, Option.some.injEq, Prod.mk.injEq] at hfloor'
    obtain ⟨rfl, rfl⟩ := hfloor'
    omega

/-! ### `UnmapMemory` -/

theorem alignDown_le (value size : ℕ) : alignDown value size ≤ value :=
  Nat.sub_le _ _

theorem alignUp_lt {value size : ℕ} (h : value < 18446744073709551616) :
    alignUp value size < 18446744073709551616 := by
  simp only [alignUp]
  split
  · omega
  · exact add64_lt _ _

theorem unmapMemory_ok {addr size : ℕ} (W : WellFormed L s)
    (husage : s.flexibleUsage < 18446744073709551616) (haddr : addr < 18446744073709551616)
    (hsize : size < 18446744073709551616) (h : s.unmapMemory addr size = .ok s') :
    s' = s ∨
      Set.Ico (alignDown addr pageSize) (alignDown addr pageSize + alignUp size pageSize) ⊆
        L.usable ∧
      Unmapped L
        (Set.Ico (alignDown addr pageSize) (alignDown addr pageSize + alignUp size pageSize))
        s s' := by
  unfold MemoryManager.unmapMemory at h
  split at h
  · cases h
    exact .inl rfl
  · simp only at h
    have ha : alignDown addr pageSize < 18446744073709551616 :=
      (alignDown_le _ _).trans_lt haddr
    have hn : alignUp size pageSize < 18446744073709551616 := alignUp_lt hsize
    generalize alignDown addr pageSize = a at h ha ⊢
    generalize alignUp size pageSize = n at h hn ⊢
    obtain ⟨_, hvalid, h⟩ := bind_eq_ok.1 h
    rw [assertMsg_eq_ok] at hvalid
    rcases isValidMapping_cases W.vma ha hn hvalid with hrange | ⟨k, v, hfloor, hge, hmin⟩
    · rcases Nat.eq_zero_or_pos n with rfl | hpos
      · -- an empty range makes no progress
        exfalso
        rw [MemoryManager.unmapMemoryImpl, MemoryManager.unmapMemoryImplLoop] at h
        obtain ⟨⟨k, v⟩, hfind, h⟩ := bind_eq_ok.1 h
        obtain ⟨r, hr, h⟩ := bind_eq_ok.1 h
        obtain ⟨_, hpos, -⟩ := bind_eq_ok.1 h
        rw [assertMsg_eq_ok] at hpos
        have hzero : sub64 0 0 = 0 := rfl
        rw [hzero] at hr
        have hadd : add64 a 0 = a := add64_eq (by omega)
        rw [hadd] at hfind hr
        rcases (unmapBytesFromEntry_spec W husage ha (by omega)
          (findArea_eq_ok.1 hfind) (fun h : False => h.elim)).2 r hr with ⟨rfl, -⟩ | ⟨hr', hr'', -⟩
        · simp at hpos
        · omega
      · exact .inr ⟨hrange, (unmapMemoryImpl_spec W husage hpos hrange
          (fun h : False => h.elim)).2 s' h⟩
    · left
      rw [MemoryManager.unmapMemoryImpl, MemoryManager.unmapMemoryImplLoop] at h
      obtain ⟨e, hfind, h⟩ := bind_eq_ok.1 h
      obtain ⟨r, hr, h⟩ := bind_eq_ok.1 h
      obtain ⟨_, hpos, h⟩ := bind_eq_ok.1 h
      rw [assertMsg_eq_ok] at hpos
      have hadd : add64 a 0 = a := add64_eq (by omega)
      have hsub : sub64 n 0 = n := sub64_zero hn
      rw [hadd] at hfind hr
      rw [hsub] at hr
      obtain rfl : (k, v) = e := by
        have := findArea_eq_ok.1 hfind
        rw [hfloor] at this
        exact Option.some.inj this
      rcases (unmapBytesFromEntry_spec W husage ha hn hfloor
        (fun h : False => h.elim)).2 r hr with ⟨rfl, -⟩ | ⟨-, -, hlt, -⟩
      · simp only [hmin] at h
        rw [add64_eq (by omega), Nat.zero_add, if_neg (lt_irrefl n)] at h
        cases h
        rfl
      · omega

theorem unmapMemory_returns {addr size : ℕ} (W : WellFormed L s)
    (husage : s.flexibleUsage < 18446744073709551616) (hsafe : Safe L s)
    (haddr : addr ∈ L.usable) (haligned : alignDown addr pageSize = addr)
    (hsize : size < 18446744073709551616) (hsaligned : alignUp size pageSize = size)
    (hvalid : s.isValidMapping addr size = true) :
    ∃ s', s.unmapMemory addr size = .ok s' := by
  unfold MemoryManager.unmapMemory
  split
  · exact ⟨s, rfl⟩
  · next hzero =>
      rw [haligned, hsaligned]
      have hrange := isValidMapping_subset W.vma haddr hsize hvalid
      obtain ⟨s', hs'⟩ := (unmapMemoryImpl_spec W husage
        (Nat.pos_of_ne_zero hzero) hrange fun _ : True => hsafe).1 trivial
      exact ⟨s', bind_eq_ok.2 ⟨(), assertMsg_eq_ok.2 hvalid, hs'⟩⟩

end OrbitConsole.Memory
