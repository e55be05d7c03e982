import OrbitConsole.Core.Memory.WriteBacking
import OrbitConsole.Library.Consecutive

/-!
# Ranges the guest passes: `IsValidMapping` and `ClampRangeSize`

`IsValidMapping` starts from the area below the address. From an address strictly
inside a hole the offset in that area is larger than the area, the subtraction wraps
and one round covers any size.
-/

namespace OrbitConsole.Memory

open Exec Tiling

def minSizeToClamp : ℕ := 0x40000000

namespace VirtualMemoryArea

def isMapped (vma : VirtualMemoryArea) : Bool :=
  vma.type ≠ .free && vma.type ≠ .reserved && vma.type ≠ .poolReserved

end VirtualMemoryArea

/-- The loop of `ClampRangeSize` over the areas behind the first one. -/
def clampRun (size : ℕ) : List (ℕ × VirtualMemoryArea) → ℕ → ℕ
  | [], clampedSize => clampedSize
  | (_, vma) :: rest, clampedSize =>
      if vma.isMapped && decide (clampedSize < size) then
        clampRun size rest (add64 clampedSize vma.size)
      else clampedSize

namespace MemoryManager

def clampRangeSize (s : MemoryManager) (virtualAddr size : ℕ) : Exec ℕ :=
  -- Dont bother with clamping if the size is small
  if size < minSizeToClamp then pure size
  else do
    assertMsg (s.isValidMapping virtualAddr 0) "Attempted to access invalid address"
    -- Clamp size to the remaining size of the current VMA.
    let (handle, vma) ← findArea s.vmaMap virtualAddr
    let clampedSize := sub64 (add64 vma.base vma.size) virtualAddr
    let clampedSize := clampRun size (s.vmaMap.entriesFrom handle).tail clampedSize
    return min clampedSize size

end MemoryManager

def InAreas (m : VMAMap) (addr size : ℕ) : Prop :=
  ∀ x, addr ≤ x → x < addr + size → ∃ k v, m.get? k = some v ∧ k ≤ x ∧ x < k + v.size

/-- `[addr, addr + n)` runs through areas without a gap, mapped ones after the first. -/
def Continues (m : VMAMap) (addr n : ℕ) : Prop :=
  ∀ x, addr ≤ x → x < addr + n → ∃ k v, m.get? k = some v ∧ k ≤ x ∧ x < k + v.size ∧
    (addr < k → v.isMapped = true)

structure ChecksRange (s : MemoryManager) (addr size : ℕ) : Prop where
  valid_iff : s.isValidMapping addr size = true ↔ InAreas s.vmaMap addr size
  clamped : s.isValidMapping addr size = true → minSizeToClamp ≤ size →
    ∃ n, s.clampRangeSize addr size = .ok n ∧
      IsGreatest {n | n ≤ size ∧ Continues s.vmaMap addr n} n

/-- The address lies behind the first byte of a hole between two areas. -/
def InsideHole (m : VMAMap) (addr : ℕ) : Prop :=
  (∃ k v, m.floor addr = some (k, v) ∧ k + v.size < addr) ∧
    ∃ k v, m.get? k = some v ∧ addr < k

variable {m : VMAMap} {U : Set ℕ} {s : MemoryManager} {addr size k : ℕ} {v : VirtualMemoryArea}

theorem VmaMapOk.inAreas_iff (V : VmaMapOk m U) :
    InAreas m addr size ↔ Set.Ico addr (addr + size) ⊆ U := by
  simp only [InAreas, ← V.tiles.mem_iff]
  exact ⟨fun h x hx => h x hx.1 hx.2, fun h x hx hx' => h ⟨hx, hx'⟩⟩

theorem validateRun_zero (l : List (ℕ × VirtualMemoryArea)) : validateRun l addr 0 = true := by
  cases l with
  | nil => simp [validateRun]
  | cons e l => simp [validateRun]

theorem validateRun_of_subset (V : VmaMapOk m U) {l : List (ℕ × VirtualMemoryArea)}
    (h : Onward VirtualMemoryArea.size m ((k, v) :: l) k) (hle : k ≤ addr) (hlt : addr < k + v.size)
    (hsize : size < 18446744073709551616) (hrange : Set.Ico addr (addr + size) ⊆ U) :
    validateRun ((k, v) :: l) addr size = true := by
  induction l generalizing k v addr size with
  | nil =>
      have hk : m.get? k = some v := h.mem (k, v) List.mem_cons_self
      have hbound := V.bounded hk
      have hin : sub64 v.size (addr - k) = v.size - (addr - k) :=
        sub64_eq (by omega) (by omega)
      have hend : size ≤ v.size - (addr - k) := by
        by_contra hmore
        obtain ⟨v', l', hl⟩ := (h.tail V.tiles).head_eq V.tiles
          (hrange ⟨by omega, by omega⟩) (V.tiles.boundary_end hk)
        cases hl
      simp only [validateRun, V.base_eq hk, sub64_eq hle (show addr < _ by omega), hin,
        min_eq_right hend, sub64_eq le_rfl hsize, Nat.sub_self]
      split <;> simp
  | cons e l ih =>
      obtain ⟨k', v'⟩ := e
      have hk : m.get? k = some v := h.mem (k, v) List.mem_cons_self
      have hbound := V.bounded hk
      have hin : sub64 v.size (addr - k) = v.size - (addr - k) :=
        sub64_eq (by omega) (by omega)
      rw [validateRun]
      simp only [V.base_eq hk, sub64_eq hle (show addr < _ by omega), hin]
      split
      · rfl
      · rcases Nat.lt_or_ge (v.size - (addr - k)) size with hmore | hdone
        · obtain ⟨v'', l', hl⟩ := (h.tail V.tiles).head_eq V.tiles
            (hrange ⟨by omega, by omega⟩) (V.tiles.boundary_end hk)
          obtain ⟨⟨rfl, rfl⟩, rfl⟩ : ((k' = k + v.size ∧ v' = v'') ∧ l = l') := by
            simpa using hl
          have hk' : m.get? (k + v.size) = some v' :=
            h.mem (k + v.size, v') (by simp)
          have hadd : add64 addr (v.size - (addr - k)) = k + v.size := by
            rw [add64_eq (by omega)]
            omega
          rw [min_eq_left hmore.le, hadd, V.base_eq hk', sub64_eq hmore.le hsize,
            if_neg (fun hgap => hgap.2 rfl)]
          exact ih (h.tail V.tiles) le_rfl (by have := V.tiles.pos hk'; omega) (by omega)
            fun x hx => hrange ⟨by have := hx.1; omega, by have := hx.2; omega⟩
        · rw [min_eq_right hdone, sub64_eq le_rfl hsize, Nat.sub_self, if_neg (by simp)]
          exact validateRun_zero _

theorem isValidMapping_eq (V : VmaMapOk s.vmaMap U) (hfloor : s.vmaMap.floor addr = some (k, v))
    {k' : ℕ} {v' : VirtualMemoryArea} (hk' : s.vmaMap.get? k' = some v')
    (hlt' : addr < k' + v'.size) :
    s.isValidMapping addr size = validateRun (s.vmaMap.entriesFrom k) addr size := by
  obtain ⟨hk, hle, -⟩ := OrderedMap.floor_eq_some_iff.1 hfloor
  cases hfirst : s.vmaMap.first with
  | none =>
      have := List.head?_eq_none_iff.1 hfirst
      rw [OrderedMap.get?_eq_some_iff, this] at hk
      cases hk
  | some e =>
  cases hlast : s.vmaMap.last with
  | none =>
      have := List.getLast?_eq_none_iff.1 hlast
      rw [OrderedMap.get?_eq_some_iff, this] at hk
      cases hk
  | some e' =>
      obtain ⟨k₁, v₁⟩ := e
      obtain ⟨k₂, v₂⟩ := e'
      have hle₁ := (OrderedMap.first_eq_some_iff.1 hfirst).2 k v hk
      obtain ⟨hk₂, hle₂⟩ := OrderedMap.last_eq_some_iff.1 hlast
      have hle' := hle₂ k' v' hk'
      have hpos₂ := V.tiles.pos hk₂
      have hend := V.tiles.end_le hk₂ hk' (by omega)
      have hbound₂ := V.bounded hk₂
      simp only [MemoryManager.isValidMapping, hfirst, hlast, hfloor]
      rw [if_neg (by rw [add64_eq (by omega)]; omega)]
      split
      · next hzero => rw [hzero, validateRun_zero]
      · rfl

theorem isValidMapping_iff_of_mem (V : VmaMapOk s.vmaMap U) (haddr : addr ∈ U)
    (hsize : size < 18446744073709551616) :
    s.isValidMapping addr size = true ↔ Set.Ico addr (addr + size) ⊆ U := by
  refine ⟨isValidMapping_subset V haddr hsize, fun hrange => ?_⟩
  obtain ⟨k, v, hk, hle, hlt⟩ := (V.tiles.mem_iff addr).1 haddr
  obtain ⟨l, hl⟩ := OrderedMap.entriesFrom_eq_cons hk
  rw [isValidMapping_eq V (V.tiles.floor_eq hk hle hlt) hk hlt, hl]
  exact validateRun_of_subset V (hl ▸ Onward.entriesFrom V.tiles) hle hlt hsize hrange

theorem isValidMapping_of_insideHole (V : VmaMapOk s.vmaMap U)
    (hend : addr + size ≤ 18446744073709551616) (hpos : 0 < size)
    (h : InsideHole s.vmaMap addr) : s.isValidMapping addr size = true ∧ addr ∉ U := by
  obtain ⟨⟨k, v, hfloor, hlt⟩, k', v', hk', hlt'⟩ := h
  obtain ⟨hk, hle, hmax⟩ := OrderedMap.floor_eq_some_iff.1 hfloor
  have hnot : addr ∉ U := by
    intro hmem
    obtain ⟨k₁, v₁, hfloor₁, hlt₁⟩ := floor_of_mem V hmem
    obtain ⟨rfl, rfl⟩ := Prod.mk.inj (Option.some.inj (hfloor.symm.trans hfloor₁))
    omega
  refine ⟨?_, hnot⟩
  obtain ⟨l, hl⟩ := OrderedMap.entriesFrom_eq_cons hk
  have hbound' := V.bounded hk'
  have hpos' := V.tiles.pos hk'
  rw [isValidMapping_eq V hfloor hk' (by omega), hl]
  -- the offset is larger than the area, so what is left of it wraps
  have hwrap : min (sub64 v.size (addr - k)) size = size := by
    have := V.tiles.pos hk
    unfold sub64
    omega
  cases l with
  | nil =>
      have hin := OrderedMap.mem_entriesFrom.2 ⟨hk', show k ≤ k' by omega⟩
      rw [hl, List.mem_singleton, Prod.mk.injEq] at hin
      omega
  | cons e l =>
      obtain ⟨k₃, v₃⟩ := e
      rw [validateRun, if_neg (by omega)]
      simp only [V.base_eq hk, sub64_eq hle (show addr < _ by omega), hwrap,
        sub64_eq le_rfl (show size < _ by omega), Nat.sub_self]
      rw [if_neg (by simp)]
      exact validateRun_zero _

theorem not_isValidMapping (V : VmaMapOk s.vmaMap U) (haddr : addr < 18446744073709551616)
    (hsize : size < 18446744073709551616) (hpos : 0 < size) (hnot : addr ∉ U)
    (h : ¬ InsideHole s.vmaMap addr) : s.isValidMapping addr size = false := by
  by_contra hvalid
  rw [Bool.not_eq_false] at hvalid
  rcases isValidMapping_cases V haddr hsize hvalid with hrange | ⟨k, v, hfloor, hge, hmin⟩
  · exact hnot (hrange ⟨le_rfl, by omega⟩)
  · obtain ⟨hk, hle, hmax⟩ := OrderedMap.floor_eq_some_iff.1 hfloor
    have hbound := V.bounded hk
    rcases Nat.eq_or_lt_of_le hge with heq | hlt
    · have hoff : addr - k = v.size := by omega
      rw [hoff, sub64_eq le_rfl (by omega), Nat.sub_self] at hmin
      omega
    · -- no area follows, so the address is behind the last one
      have hlastarea : ∀ k' v', s.vmaMap.get? k' = some v' → k' ≤ k := by
        intro k' v' hk'
        refine hmax k' v' hk' ?_
        by_contra hgt
        exact h ⟨⟨k, v, hfloor, hlt⟩, k', v', hk', by omega⟩
      have hlast : s.vmaMap.last = some (k, v) :=
        OrderedMap.last_eq_some_iff.2 ⟨hk, hlastarea⟩
      rw [MemoryManager.isValidMapping, hlast, hfloor] at hvalid
      split at hvalid
      · next hlast' hfloor' =>
          obtain ⟨rfl, rfl⟩ := Prod.mk.inj (Option.some.inj hlast')
          rw [if_pos (.inr (by rw [add64_eq (by omega)]; omega))] at hvalid
          cases hvalid
      · cases hvalid

theorem Continues.mono {n n' : ℕ} (h : Continues m addr n) (hle : n' ≤ n) :
    Continues m addr n' :=
  fun x hx hx' => h x hx (by omega)

theorem clampRun_isGreatest (V : VmaMapOk m U) (hrange : Set.Ico addr (addr + size) ⊆ U)
    (hend : addr + size ≤ 9223372036854775808) (l : List (ℕ × VirtualMemoryArea))
    (clampedSize : ℕ) (hpos : 0 < clampedSize)
    (hl : Onward VirtualMemoryArea.size m l (addr + clampedSize))
    (hstart : Boundary VirtualMemoryArea.size m (addr + clampedSize))
    (hcont : Continues m addr clampedSize) :
    IsGreatest {n | n ≤ size ∧ Continues m addr n} (min (clampRun size l clampedSize) size) := by
  have hstop : size ≤ clampedSize →
      IsGreatest {n | n ≤ size ∧ Continues m addr n} (min clampedSize size) := by
    intro hle
    rw [min_eq_right hle]
    exact ⟨⟨le_rfl, hcont.mono hle⟩, fun n hn => hn.1⟩
  induction l generalizing clampedSize with
  | nil =>
      refine hstop ?_
      by_contra hlt
      obtain ⟨v, l', hnil⟩ := hl.head_eq V.tiles (hrange ⟨by omega, by omega⟩) hstart
      cases hnil
  | cons e l ih =>
      obtain ⟨k, v⟩ := e
      rw [clampRun]
      rcases Nat.lt_or_ge clampedSize size with hlt | hge
      · obtain ⟨v', l', hcons⟩ := hl.head_eq V.tiles (hrange ⟨by omega, by omega⟩) hstart
        obtain ⟨⟨rfl, rfl⟩, rfl⟩ : ((k = addr + clampedSize ∧ v = v') ∧ l = l') := by
          simpa using hcons
        have hk : m.get? (addr + clampedSize) = some v := hl.mem _ List.mem_cons_self
        have hbound := V.bounded hk
        have hvpos := V.tiles.pos hk
        by_cases hmapped : v.isMapped = true
        · rw [hmapped, decide_eq_true hlt, if_pos (by rfl), add64_eq (by omega)]
          have hsum : addr + (clampedSize + v.size) = addr + clampedSize + v.size := by omega
          have hcont' : Continues m addr (clampedSize + v.size) := by
            intro x hx hx'
            rcases Nat.lt_or_ge x (addr + clampedSize) with hx'' | hx''
            · exact hcont x hx hx''
            · exact ⟨addr + clampedSize, v, hk, hx'', by omega, fun _ => hmapped⟩
          refine ih (clampedSize + v.size) (by omega) (hsum ▸ hl.tail V.tiles)
            (hsum ▸ V.tiles.boundary_end hk) hcont' fun hle => ?_
          rw [min_eq_right hle]
          exact ⟨⟨le_rfl, hcont'.mono hle⟩, fun n hn => hn.1⟩
        · rw [if_neg (by simp [hmapped]), min_eq_left hlt.le]
          refine ⟨⟨hlt.le, hcont⟩, fun n hn => ?_⟩
          by_contra hmore
          obtain ⟨k', v', hk', hle', hlt', hmap⟩ :=
            hn.2 (addr + clampedSize) (by omega) (by omega)
          obtain rfl := V.tiles.key_unique hk' hk ⟨hle', hlt'⟩ ⟨le_rfl, by omega⟩
          rw [hk, Option.some.injEq] at hk'
          exact hmapped (hk' ▸ hmap (by omega))
      · rw [if_neg (by simp [hge])]
        exact hstop hge

theorem clampRangeSize_isGreatest (V : VmaMapOk s.vmaMap U) (hpos : 0 < size)
    (hrange : Set.Ico addr (addr + size) ⊆ U) (hbig : minSizeToClamp ≤ size) :
    ∃ n, s.clampRangeSize addr size = .ok n ∧
      IsGreatest {n | n ≤ size ∧ Continues s.vmaMap addr n} n := by
  have hmem : addr ∈ U := hrange ⟨le_rfl, by omega⟩
  have hlast := V.lt_of_mem (hrange ⟨show addr ≤ addr + size - 1 by omega, by omega⟩)
  obtain ⟨k, v, hk, hle, hlt⟩ := (V.tiles.mem_iff addr).1 hmem
  have hbound := V.bounded hk
  obtain ⟨l, hl⟩ := OrderedMap.entriesFrom_eq_cons hk
  have hvalid : s.isValidMapping addr 0 = true := by
    refine (isValidMapping_iff_of_mem V hmem (by omega)).2 ?_
    rintro x ⟨hx, hx'⟩
    omega
  have hfind : findArea s.vmaMap addr = .ok (k, v) :=
    findArea_eq_ok.2 (V.tiles.floor_eq hk hle hlt)
  have hsum : addr + (k + v.size - addr) = k + v.size := by omega
  have hrun : Onward VirtualMemoryArea.size s.vmaMap l (k + v.size) :=
    Onward.tail V.tiles (hl ▸ Onward.entriesFrom V.tiles)
  refine ⟨min (clampRun size l (k + v.size - addr)) size, ?_,
    clampRun_isGreatest V hrange (by omega) l _ (by omega)
      (hsum.symm ▸ hrun) (hsum.symm ▸ V.tiles.boundary_end hk)
      fun x hx hx' => ⟨k, v, hk, by omega, by omega, fun h => by omega⟩⟩
  rw [MemoryManager.clampRangeSize, if_neg (by omega), assertMsg, if_pos hvalid]
  simp only [hfind, hl, V.base_eq hk, add64_eq (show k + v.size < _ by omega),
    sub64_eq hlt.le (show k + v.size < _ by omega), List.tail_cons, bind, Except.bind, pure,
    Except.pure]

variable {cfg : Config} {s₀ : MemoryManager}

/-- In every reachable state the two checks keep their promises on a range exactly when it
does not start inside a hole. -/
theorem checksRange_iff (hfresh : Fresh cfg s₀) (h : Reachable (fun _ c => c.Promised) s₀ s)
    (addr size : UInt64) (hpos : 0 < size.toNat)
    (hend : addr.toNat + size.toNat ≤ 18446744073709551616) :
    ChecksRange s addr.toNat size.toNat ↔ ¬ InsideHole s.vmaMap addr.toNat := by
  have V : VmaMapOk s.vmaMap cfg.regions.addresses :=
    (h.regular hfresh fun _ _ hc => hc).vma
  have haddr := addr.toNat_lt
  have hsize := size.toNat_lt
  generalize addr.toNat = addr at *
  generalize size.toNat = size at *
  constructor
  · intro hchecks hhole
    obtain ⟨hvalid, hnot⟩ := isValidMapping_of_insideHole V hend hpos hhole
    exact hnot (V.inAreas_iff.1 (hchecks.valid_iff.1 hvalid) ⟨le_rfl, by omega⟩)
  · intro hhole
    have hiff : s.isValidMapping addr size = true ↔ InAreas s.vmaMap addr size := by
      rw [V.inAreas_iff]
      by_cases hmem : addr ∈ cfg.regions.addresses
      · exact isValidMapping_iff_of_mem V hmem hsize
      · rw [not_isValidMapping V haddr hsize hpos hmem hhole, Bool.false_eq_true, false_iff]
        exact fun hrange => hmem (hrange ⟨le_rfl, by omega⟩)
    exact ⟨hiff, fun hvalid hbig =>
      clampRangeSize_isGreatest V hpos (V.inAreas_iff.1 (hiff.1 hvalid)) hbig⟩

theorem checksRange_iff_sample :
    ChecksRange Config.retail.start (0x200000000 : UInt64).toNat (0x4000 : UInt64).toNat ↔
      ¬ InsideHole Config.retail.start.vmaMap (0x200000000 : UInt64).toNat :=
  checksRange_iff fresh_retail .start 0x200000000 0x4000 (by decide) (by decide)

/-- Between the two regions of the console, ranges of no area are accepted. -/
theorem checksRange_fails :
    ¬ ∀ s, Reachable (fun _ c => c.Promised) Config.retail.start s →
      ∀ addr size : UInt64, 0 < size.toNat → addr.toNat + size.toNat < 18446744073709551616 →
        ChecksRange s addr.toNat size.toNat := by
  intro hall
  have hvalid : Config.retail.start.isValidMapping (0x1000000 : UInt64).toNat
      (0x4000 : UInt64).toNat = true := by
    decide
  have hchecks := hall _ .start 0x1000000 0x4000 (by decide) (by decide)
  obtain ⟨k, v, hk, hle, hlt⟩ := hchecks.valid_iff.1 hvalid 0x1000000 (by decide) (by decide)
  have hareas : (Config.retail.start.vmaMap.entries.all fun e =>
      !(decide (e.1 ≤ 0x1000000) && decide (0x1000000 < e.1 + e.2.size))) = true := by
    decide
  have hnot := List.all_eq_true.1 hareas (k, v) (OrderedMap.get?_eq_some_iff.1 hk)
  simp [hle, hlt] at hnot

end OrbitConsole.Memory
