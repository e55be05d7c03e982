import OrbitConsole.Core.Memory.AttributeCells

/-!
# Pages of an unaligned range

`sceKernelMprotect` adds the offset of the address in its page before it rounds the
length up; `UnmapMemory` and `NameVirtualRange` round address and length apart and can
stop one page short.
-/

namespace OrbitConsole.Memory

open Exec

def errorEfault : ℤ := 0x8002000E - 0x100000000

def errorEnametoolong : ℤ := 0x8002003F - 0x100000000

def maximumNameLength : ℕ := 32

namespace MemoryManager

def sceKernelMunmap (s : MemoryManager) (addr len : ℕ) : Exec (ℤ × MemoryManager) :=
  if len = 0 then pure (errorEinval, s)
  else do
    let s ← s.unmapMemory addr len
    return (orbisOk, s)

def sceKernelSetVirtualRangeName (s : MemoryManager) (addr len : ℕ) (name : Option String) :
    Exec (ℤ × MemoryManager) :=
  match name with
  | none => pure (errorEfault, s)
  | some name =>
      if maximumNameLength ≤ name.utf8ByteSize then pure (errorEnametoolong, s)
      else do
        let s ← s.nameVirtualRange addr len name
        return (orbisOk, s)

def sceKernelMprotect (s : MemoryManager) (addr size : ℕ) (prot : MemoryProt) :
    Exec (ℤ × MemoryManager) :=
  -- Align addr and size to the nearest page boundary.
  let alignedAddr := alignDown addr pageSize
  let alignedSize := alignUp (sub64 (add64 size addr) alignedAddr) pageSize
  if alignedSize = 0 then pure (orbisOk, s)
  else s.protect alignedAddr alignedSize prot

end MemoryManager

def touchedPages (addr len : ℕ) : Set ℕ :=
  {x | ∃ y, addr ≤ y ∧ y < addr + len ∧ x / pageSize = y / pageSize}

/-- The three calls affect every page that meets the range. `Munmap` may still assert where
backing is shared, so it need return where the areas are `Safe` only. -/
structure CoversPages (L : Layout) (s : MemoryManager) (addr len : ℕ) (name : String)
    (prot : MemoryProt) : Prop where
  unmap_returns : Safe L s → ∃ s', s.sceKernelMunmap addr len = .ok (orbisOk, s')
  unmapped : ∀ s', s.sceKernelMunmap addr len = .ok (orbisOk, s') →
    ∀ x ∈ touchedPages addr len, ∀ c, cells s.vmaMap x = some c → c.type ≠ .pooled →
      ∃ c', cells s'.vmaMap x = some c' ∧ c'.type = .free
  named : ∃ s', s.sceKernelSetVirtualRangeName addr len (some name) = .ok (orbisOk, s') ∧
    ∀ x ∈ touchedPages addr len, ∀ c, cells s.vmaMap x = some c →
      cells s'.vmaMap x = some (nameCell name c)
  guarded : ∃ s', s.sceKernelMprotect addr len prot = .ok (orbisOk, s') ∧
    ∀ x ∈ touchedPages addr len, ∀ c, cells s.vmaMap x = some c →
      cells s'.vmaMap x = some (protectCell prot c)

variable {s : MemoryManager} {L : Layout} {U : Set ℕ} {addr len : ℕ}

theorem alignDown_pageSize : alignDown addr pageSize = 16384 * (addr / 16384) := by
  unfold alignDown pageSize
  omega

theorem alignUp_pageSize (hlen : len ≤ 9223372036854775808) :
    alignUp len pageSize = 16384 * ((len + 16383) / 16384) := by
  unfold alignUp pageSize
  simp only
  split
  · omega
  · rw [add64_eq (by omega)]
    omega

theorem mem_touchedPages (hpos : 0 < len) {x : ℕ} :
    x ∈ touchedPages addr len ↔
      16384 * (addr / 16384) ≤ x ∧ x < 16384 * ((addr + len - 1) / 16384) + 16384 := by
  unfold touchedPages pageSize
  constructor
  · rintro ⟨y, hy, hy', heq⟩
    omega
  · rintro ⟨hx, hx'⟩
    rcases Nat.lt_or_ge x addr with hlt | hge
    · exact ⟨addr, le_rfl, by omega, by omega⟩
    · rcases Nat.lt_or_ge x (addr + len) with hin | hout
      · exact ⟨x, hge, hin, rfl⟩
      · exact ⟨addr + len - 1, by omega, by omega, by omega⟩

theorem aligned_subset (addr : ℕ) (hpos : 0 < len) (hlen : len ≤ 9223372036854775808) :
    Set.Ico (alignDown addr pageSize) (alignDown addr pageSize + alignUp len pageSize) ⊆
      touchedPages addr len := by
  rw [alignDown_pageSize, alignUp_pageSize hlen]
  rintro x ⟨hx, hx'⟩
  rw [mem_touchedPages hpos]
  omega

theorem aligned_of_reached (hpos : 0 < len) (hlen : len ≤ 9223372036854775808)
    (hreach : addr + len ≤ alignDown addr pageSize + alignUp len pageSize) {x : ℕ}
    (hx : x ∈ touchedPages addr len) :
    alignDown addr pageSize ≤ x ∧ x < alignDown addr pageSize + alignUp len pageSize := by
  rw [mem_touchedPages hpos] at hx
  rw [alignDown_pageSize, alignUp_pageSize hlen] at *
  omega

theorem lastPage_of_not_aligned (hpos : 0 < len) (hlen : len ≤ 9223372036854775808) {x : ℕ}
    (hx : x ∈ touchedPages addr len)
    (hnot : ¬ (alignDown addr pageSize ≤ x ∧
      x < alignDown addr pageSize + alignUp len pageSize)) :
    x / pageSize = (addr + len - 1) / pageSize := by
  rw [mem_touchedPages hpos] at hx
  rw [alignDown_pageSize, alignUp_pageSize hlen] at hnot
  unfold pageSize
  omega

theorem not_aligned_of_lastPage (hpos : 0 < len) (hlen : len ≤ 9223372036854775808)
    (hshort : alignDown addr pageSize + alignUp len pageSize < addr + len) {x : ℕ}
    (hx : x / pageSize = (addr + len - 1) / pageSize) :
    ¬ (alignDown addr pageSize ≤ x ∧
      x < alignDown addr pageSize + alignUp len pageSize) := by
  rw [alignDown_pageSize, alignUp_pageSize hlen] at *
  unfold pageSize at hx
  omega

theorem unmapMemory_spec (addr : ℕ) (W : WellFormed L s)
    (husage : s.flexibleUsage < 18446744073709551616)
    (hpos : 0 < len) (hn : 0 < alignUp len pageSize)
    (hn' : alignUp len pageSize < 18446744073709551616)
    (hrange : Set.Ico (alignDown addr pageSize)
      (alignDown addr pageSize + alignUp len pageSize) ⊆ L.usable) :
    Spec (Safe L s) (s.unmapMemory addr len) (Unmapped L (Set.Ico (alignDown addr pageSize)
      (alignDown addr pageSize + alignUp len pageSize)) s) := by
  have hmem : alignDown addr pageSize ∈ L.usable := hrange ⟨le_rfl, by omega⟩
  have hvalid := (isValidMapping_iff_of_mem W.vma hmem hn').2 hrange
  have hassert : assertMsg (s.isValidMapping (alignDown addr pageSize) (alignUp len pageSize))
      "Attempted to access invalid address" = .ok () := assertMsg_eq_ok.2 hvalid
  unfold MemoryManager.unmapMemory
  rw [if_neg (by omega)]
  simp only [hassert, bind, Except.bind]
  exact unmapMemoryImpl_spec W husage hn hrange id

theorem sceKernelMprotect_cells (prot : MemoryProt) (V : VmaMapOk s.vmaMap U) (hpos : 0 < len)
    (hend : addr + len ≤ 9223372036854775808) (hpages : touchedPages addr len ⊆ U) :
    ∃ m', s.sceKernelMprotect addr len prot = .ok (orbisOk, { s with vmaMap := m' }) ∧
      ∀ x ∈ touchedPages addr len, cells m' x = (cells s.vmaMap x).map (protectCell prot) := by
  have hsize : alignUp (sub64 (add64 len addr) (alignDown addr pageSize)) pageSize =
      16384 * ((addr + len - 1) / 16384) + 16384 - 16384 * (addr / 16384) := by
    rw [alignDown_pageSize, add64_eq (by omega), sub64_eq (by omega) (by omega),
      alignUp_pageSize (by omega)]
    omega
  have hpositive : 0 < 16384 * ((addr + len - 1) / 16384) + 16384 - 16384 * (addr / 16384) := by
    omega
  have hrange : Set.Ico (16384 * (addr / 16384)) (16384 * (addr / 16384) +
      (16384 * ((addr + len - 1) / 16384) + 16384 - 16384 * (addr / 16384))) ⊆ U := by
    rintro x ⟨hx, hx'⟩
    exact hpages ((mem_touchedPages hpos).2 ⟨hx, by omega⟩)
  unfold MemoryManager.sceKernelMprotect
  simp only [hsize]
  rw [if_neg (by omega), alignDown_pageSize]
  obtain ⟨m', heq, -, hup⟩ := protect_cells prot V hrange (by omega)
  refine ⟨m', heq, fun x hx => ?_⟩
  rw [mem_touchedPages hpos] at hx
  rw [hup x, if_pos (by omega)]

theorem name_eq_of_short (V : VmaMapOk s.vmaMap U) (hpos : 0 < len)
    (hend : addr + len ≤ 9223372036854775808) (hpages : touchedPages addr len ⊆ U)
    (hshort : alignDown addr pageSize + alignUp len pageSize < addr + len) {name : String}
    (hlen : name.utf8ByteSize < maximumNameLength)
    (hnamed : ∃ s', s.sceKernelSetVirtualRangeName addr len (some name) = .ok (orbisOk, s') ∧
      ∀ x ∈ touchedPages addr len, ∀ c, cells s.vmaMap x = some c →
        cells s'.vmaMap x = some (nameCell name c)) {x : ℕ} {c : Cell}
    (hx : x / pageSize = (addr + len - 1) / pageSize) (hc : cells s.vmaMap x = some c)
    (hfree : c.type ≠ .free) : c.name = name := by
  have hup : 0 < alignUp len pageSize ∧ alignUp len pageSize < 18446744073709551616 := by
    rw [alignUp_pageSize (by omega)]
    omega
  obtain ⟨s', hs', hcells⟩ := hnamed
  obtain ⟨m', heq, -, hupd⟩ := nameVirtualRange_cells V addr len name hup.1 hup.2
    ((aligned_subset addr hpos (by omega)).trans hpages)
  have hcall : s.sceKernelSetVirtualRangeName addr len (some name) =
      .ok (orbisOk, { s with vmaMap := m' }) := by
    simp only [MemoryManager.sceKernelSetVirtualRangeName, if_neg (Nat.not_le.2 hlen), heq,
      bind, Except.bind, pure, Except.pure]
  rw [hcall, Except.ok.injEq, Prod.mk.injEq] at hs'
  obtain rfl := hs'.2
  have hcell := hcells x ⟨addr + len - 1, by omega, by omega, hx⟩ c hc
  simp only at hcell
  rw [hupd x, if_neg (not_aligned_of_lastPage hpos (by omega) hshort hx), hc,
    Option.some.injEq, nameCell, if_neg hfree] at hcell
  exact congrArg Cell.name hcell

variable {cfg : Config} {s₀ : MemoryManager}

/-- In every reachable state the three calls affect all pages of a range of valid pages exactly
when the rounded length reaches the end of the range, or the page left out is Free. -/
theorem coversPages_iff (hfresh : Fresh cfg s₀) (h : Reachable (fun _ c => c.Promised) s₀ s)
    (addr len : UInt64) (hpos : 0 < len.toNat)
    (hvalid : ∀ x ∈ touchedPages addr.toNat len.toNat,
      ∃ k v, s.vmaMap.get? k = some v ∧ k ≤ x ∧ x < k + v.size) :
    (∀ name prot, name.utf8ByteSize < maximumNameLength →
        CoversPages (cfg.layout s₀) s addr.toNat len.toNat name prot) ↔
      addr.toNat + len.toNat ≤ alignDown addr.toNat pageSize + alignUp len.toNat pageSize ∨
        ∀ x, x / pageSize = (addr.toNat + len.toNat - 1) / pageSize →
          ∀ c, cells s.vmaMap x = some c → c.type = .free := by
  have R := h.regular hfresh fun _ _ hc => hc
  have W := R.toWellFormed
  have V := W.vma
  have hpages : touchedPages addr.toNat len.toNat ⊆ (cfg.layout s₀).usable :=
    fun x hx => (V.tiles.mem_iff x).2 (hvalid x hx)
  generalize addr.toNat = a at *
  generalize len.toNat = n at *
  have hlastmem : a + n - 1 ∈ touchedPages a n :=
    (mem_touchedPages hpos).2 ⟨by omega, by omega⟩
  have hend := V.lt_of_mem (hpages hlastmem)
  have hsub := (aligned_subset a hpos (by omega)).trans hpages
  have hup : 0 < alignUp n pageSize ∧ alignUp n pageSize < 18446744073709551616 := by
    rw [alignUp_pageSize (by omega)]
    omega
  have hname := fun name => nameVirtualRange_cells V a n name hup.1 hup.2 hsub
  constructor
  · intro hcovers
    by_contra hnot
    rw [not_or] at hnot
    obtain ⟨hshort, hall⟩ := hnot
    push Not at hall
    obtain ⟨x, hx, c, hc, hfree⟩ := hall
    have hkeeps : ∀ name : String, name.utf8ByteSize < maximumNameLength → c.name = name :=
      fun name hlen => name_eq_of_short V hpos (by omega) hpages (by omega) hlen
        (hcovers name 0 hlen).named hx hc hfree
    have hab := (hkeeps "a" (by decide)).symm.trans (hkeeps "b" (by decide))
    exact absurd hab (by decide)
  · intro hcond name prot hlen
    -- a byte the rounded range leaves out is Free
    have hleft : ∀ x ∈ touchedPages a n,
        ¬ (alignDown a pageSize ≤ x ∧ x < alignDown a pageSize + alignUp n pageSize) →
        ∀ c, cells s.vmaMap x = some c → c.type = .free := by
      intro x hx hnot
      rcases hcond with hreach | hall
      · exact absurd (aligned_of_reached hpos (by omega) hreach hx) hnot
      · exact hall x (lastPage_of_not_aligned hpos (by omega) hx hnot)
    obtain ⟨hreturns, hunmapped⟩ := unmapMemory_spec a W R.usage_lt hpos hup.1 hup.2 hsub
    obtain ⟨m₁, hname₁, -, hup₁⟩ := hname name
    obtain ⟨m₂, hprot, hup₂⟩ := sceKernelMprotect_cells prot V hpos (by omega) hpages
    refine ⟨fun hsafe => ?_, fun s' hs' x hx c hc hpool => ?_, ⟨{ s with vmaMap := m₁ }, ?_, ?_⟩,
      ⟨{ s with vmaMap := m₂ }, hprot, fun x hx c hc => ?_⟩⟩
    · obtain ⟨s', hs'⟩ := hreturns hsafe
      refine ⟨s', ?_⟩
      rw [MemoryManager.sceKernelMunmap, if_neg (by omega), hs']
      rfl
    · rw [MemoryManager.sceKernelMunmap, if_neg (by omega)] at hs'
      obtain ⟨s₁, hs₁, heq⟩ := bind_eq_ok.1 hs'
      obtain ⟨-, rfl⟩ := Prod.mk.inj (Except.ok.inj heq)
      have hun := hunmapped s₁ hs₁
      by_cases hin : alignDown a pageSize ≤ x ∧ x < alignDown a pageSize + alignUp n pageSize
      · by_cases hfree : c.type = .free
        · refine ⟨c, ?_, hfree⟩
          rw [hun.cells_out x fun _ d hd hrem => ?_, hc]
          obtain rfl := Option.some.inj (hc.symm.trans hd)
          exact hrem.1 hfree
        · exact ⟨Cell.free, hun.cells_in x hin c hc ⟨hfree, hpool⟩, rfl⟩
      · refine ⟨c, ?_, hleft x hx hin c hc⟩
        rw [hun.cells_not_mem hin, hc]
    · simp only [MemoryManager.sceKernelSetVirtualRangeName, if_neg (Nat.not_le.2 hlen), hname₁,
        bind, Except.bind, pure, Except.pure]
    · intro x hx c hc
      simp only
      rw [hup₁ x]
      split
      · rw [hc, Option.map_some]
      · next hnot => rw [hc, nameCell, if_pos (hleft x hx hnot c hc)]
    · simp only
      rw [hup₂ x hx, hc, Option.map_some]

theorem flexiblePages_valid (h : InAreas s.vmaMap (0x200000000 : UInt64).toNat
    (0x8000 : UInt64).toNat) : ∀ x ∈ touchedPages (0x200003000 : UInt64).toNat
      (0x2000 : UInt64).toNat, ∃ k v, s.vmaMap.get? k = some v ∧ k ≤ x ∧ x < k + v.size := by
  intro x hx
  have haddr : (0x200003000 : UInt64).toNat = 0x200003000 := rfl
  have hlen : (0x2000 : UInt64).toNat = 0x2000 := rfl
  have hstart : (0x200000000 : UInt64).toNat = 0x200000000 := rfl
  have hsize : (0x8000 : UInt64).toNat = 0x8000 := rfl
  rw [haddr, hlen, mem_touchedPages (by decide)] at hx
  rw [hstart, hsize] at h
  exact h x (by omega) (by omega)

theorem coversPages_iff_sample : ∃ s, runCalls Config.retail.start flexiblePagesCalls = .ok s ∧
    ((∀ name prot, name.utf8ByteSize < maximumNameLength →
        CoversPages (Config.retail.layout Config.retail.start) s (0x200003000 : UInt64).toNat
          (0x2000 : UInt64).toNat name prot) ↔
      (0x200003000 : UInt64).toNat + (0x2000 : UInt64).toNat ≤
          alignDown (0x200003000 : UInt64).toNat pageSize +
            alignUp (0x2000 : UInt64).toNat pageSize ∨
        ∀ x, x / pageSize =
            ((0x200003000 : UInt64).toNat + (0x2000 : UInt64).toNat - 1) / pageSize →
          ∀ c, cells s.vmaMap x = some c → c.type = .free) := by
  obtain ⟨s, hs, hreach, hareas, -⟩ := flexiblePagesCalls_ok
  exact ⟨s, hs, coversPages_iff fresh_retail hreach 0x200003000 0x2000 (by decide)
    (flexiblePages_valid hareas)⟩

/-- Naming 0x2000 bytes from 0x200003000 on names the first of the two pages only. -/
theorem coversPages_fails :
    ¬ ∀ s, Reachable (fun _ c => c.Promised) Config.retail.start s →
      ∀ addr len : UInt64, 0 < len.toNat →
        (∀ x ∈ touchedPages addr.toNat len.toNat,
          ∃ k v, s.vmaMap.get? k = some v ∧ k ≤ x ∧ x < k + v.size) →
        ∀ name prot, name.utf8ByteSize < maximumNameLength →
          CoversPages (Config.retail.layout Config.retail.start) s addr.toNat len.toNat name
            prot := by
  intro hall
  obtain ⟨s, -, hreach, hareas, c, hc, htype, hname⟩ := flexiblePagesCalls_ok
  have V : VmaMapOk s.vmaMap Config.retail.regions.addresses :=
    (hreach.regular fresh_retail fun _ _ hc => hc).vma
  have hvalid := flexiblePages_valid hareas
  have hcovers := hall s hreach 0x200003000 0x2000 (by decide) hvalid "other" 0 (by decide)
  have heq := name_eq_of_short V (by decide) (by decide)
    (fun x hx => (V.tiles.mem_iff x).2 (hvalid x hx)) (by decide) (by decide) hcovers.named
    (x := 0x200004000) (by decide) hc (by simp [htype])
  rw [hname] at heq
  exact absurd heq (by decide)

end OrbitConsole.Memory
