import OrbitConsole.Core.Memory.DirectWindow

/-!
# The hole `DirectQueryAvailable` reports

The query takes the largest of the lengths it counts over the free areas from the
one around `search_start` on. In an area that starts before `search_start` it
counts from there and still subtracts the padding of the area's base.
-/

namespace OrbitConsole.Memory

open Exec

/-- What the loop of `DirectQueryAvailable` makes of one free area: where the hole in it starts
and how long it is. -/
def areaHole (searchStart searchEnd alignment : ℕ) (area : PhysicalMemoryArea) : ℕ × ℕ :=
  let alignedBase := if 0 < alignment then alignUp area.base alignment else area.base
  let alignmentSize := sub64 alignedBase area.base
  let remainingSize := if alignmentSize ≤ area.size then sub64 area.size alignmentSize else 0
  let trimmed :=
    if area.base < searchStart then
      -- We need to trim remaining_size to ignore addresses before search_start
      (if 0 < alignment then alignUp searchStart alignment else searchStart,
        if sub64 searchStart area.base < remainingSize then
          sub64 remainingSize (sub64 searchStart area.base)
        else 0)
    else (alignedBase, remainingSize)
  if searchEnd < area.getEnd then
    -- We need to trim remaining_size to ignore addresses beyond search_end
    (trimmed.1,
      if sub64 area.getEnd searchEnd < trimmed.2 then
        sub64 trimmed.2 (sub64 area.getEnd searchEnd)
      else 0)
  else trimmed

/-- The loop of `DirectQueryAvailable`. -/
def largestHole (searchStart searchEnd alignment : ℕ) :
    List (ℕ × PhysicalMemoryArea) → ℕ × ℕ → ℕ × ℕ
  | [], best => best
  | (_, area) :: rest, best =>
      if area.dmaType ≠ .free then largestHole searchStart searchEnd alignment rest best
      else
        let hole := areaHole searchStart searchEnd alignment area
        largestHole searchStart searchEnd alignment rest (if best.2 < hole.2 then hole else best)

namespace MemoryManager

/-- `DirectQueryAvailable`: the address and the size it reports. -/
def directQueryAvailable (s : MemoryManager) (searchStart searchEnd alignment : ℕ) :
    Exec (ℕ × ℕ) := do
  let (handle, _) ← findArea s.dmemMap searchStart
  return largestHole searchStart searchEnd alignment (s.dmemMap.entriesFrom handle) (0, 0)

end MemoryManager

/-! ### The length counted -/

/-- The alignment of a query; zero asks for none. -/
def queryAlignment (alignment : ℕ) : ℕ := if 0 < alignment then alignment else 1

/-- The length of a free area at `k` from `searchStart` to `searchEnd`, less the padding of its
base. -/
def counted (searchStart searchEnd alignment k : ℕ) (a : PhysicalMemoryArea) : ℕ :=
  min (k + a.size) searchEnd - (max searchStart k + (roundUp k (queryAlignment alignment) - k))

variable {m : PhysMap} {U : Set ℕ} {searchStart searchEnd alignment size k : ℕ}
  {a : PhysicalMemoryArea}

theorem queryAlignment_pos : 0 < queryAlignment alignment := by
  unfold queryAlignment
  split <;> omega

theorem alignQuery_eq {x : ℕ} (hx : x < 9223372036854775808)
    (hlt : alignment < 18446744073709551616) :
    (if 0 < alignment then alignUp x alignment else x) = roundUp x (queryAlignment alignment) ∧
      roundUp x (queryAlignment alignment) < 18446744073709551616 := by
  unfold queryAlignment
  split
  · next hpos =>
      have hround := roundUp_lt_of_lt hx hpos hlt
      exact ⟨alignUp_eq_of_le (by omega) hround, hround⟩
  · have hone : roundUp x 1 = x := by simp [roundUp, Nat.mod_one]
    rw [hone]
    exact ⟨rfl, by omega⟩

theorem trim_eq {x y : ℕ} (hx : x < 18446744073709551616) :
    (if y < x then sub64 x y else 0) = x - y := by
  split
  · next h => rw [sub64_eq h.le hx]
  · omega

theorem areaHole_eq (P : PhysMapOk m U) (h : m.get? k = some a)
    (hstart : searchStart < searchEnd) (hend : searchEnd ≤ 9223372036854775808)
    (hlt : alignment < 18446744073709551616) :
    areaHole searchStart searchEnd alignment a =
      (roundUp (max searchStart k) (queryAlignment alignment),
        counted searchStart searchEnd alignment k a) := by
  have hbound := P.end_le h
  have hpos := P.tiles.pos h
  have hbase := P.base_eq h
  obtain ⟨halign, hround⟩ := alignQuery_eq (show k < 9223372036854775808 by omega) hlt
  obtain ⟨halign', hround'⟩ :=
    alignQuery_eq (show searchStart < 9223372036854775808 by omega) hlt
  have hle : k ≤ roundUp k (queryAlignment alignment) := le_roundUp queryAlignment_pos
  have hgetEnd : a.getEnd = k + a.size := by
    rw [PhysicalMemoryArea.getEnd, hbase, add64_eq (by omega)]
  have hpad : sub64 (roundUp k (queryAlignment alignment)) k =
      roundUp k (queryAlignment alignment) - k := sub64_eq hle hround
  simp only [areaHole, hbase, hgetEnd, halign, halign', hpad, counted]
  generalize hr : roundUp k (queryAlignment alignment) = r at *
  have hfirst : (if r - k ≤ a.size then sub64 a.size (r - k) else 0) = a.size - (r - k) := by
    split
    · next hr => rw [sub64_eq hr (by omega)]
    · omega
  rw [hfirst]
  rcases Nat.lt_or_ge k searchStart with hk | hk
  · have hskip : sub64 searchStart k = searchStart - k := sub64_eq hk.le (by omega)
    rw [if_pos hk, hskip, trim_eq (by omega), max_eq_left hk.le]
    split
    · next htrim =>
        rw [sub64_eq htrim.le (by omega), trim_eq (by omega), Prod.mk.injEq]
        exact ⟨rfl, by omega⟩
    · rw [Prod.mk.injEq]
      exact ⟨rfl, by omega⟩
  · rw [if_neg (Nat.not_lt.2 hk), max_eq_right hk]
    have hsum : k + (r - k) = r := by omega
    rw [hsum]
    split
    · next htrim =>
        rw [sub64_eq htrim.le (by omega), trim_eq (by omega), Prod.mk.injEq]
        exact ⟨hr.symm, by omega⟩
    · rw [Prod.mk.injEq]
      exact ⟨hr.symm, by omega⟩

theorem counted_eq_of_le (hk : searchStart ≤ k) :
    counted searchStart searchEnd alignment k a =
      min (k + a.size) searchEnd - roundUp (max searchStart k) (queryAlignment alignment) := by
  have hle : k ≤ roundUp k (queryAlignment alignment) := le_roundUp queryAlignment_pos
  rw [counted, max_eq_right hk]
  omega

theorem largestHole_spec (hole : ℕ × PhysicalMemoryArea → ℕ × ℕ)
    (l : List (ℕ × PhysicalMemoryArea)) (best : ℕ × ℕ)
    (hhole : ∀ e ∈ l, areaHole searchStart searchEnd alignment e.2 = hole e) :
    (∀ e ∈ l, e.2.dmaType = .free →
        (hole e).2 ≤ (largestHole searchStart searchEnd alignment l best).2) ∧
      best.2 ≤ (largestHole searchStart searchEnd alignment l best).2 ∧
      (largestHole searchStart searchEnd alignment l best = best ∨
        ∃ before e after, l = before ++ e :: after ∧ e.2.dmaType = .free ∧
          largestHole searchStart searchEnd alignment l best = hole e ∧
          best.2 < (hole e).2 ∧
          ∀ e' ∈ before, e'.2.dmaType = .free → (hole e').2 < (hole e).2) := by
  induction l generalizing best with
  | nil => exact ⟨fun e he => (by cases he), le_rfl, .inl rfl⟩
  | cons e l ih =>
      obtain ⟨k, a⟩ := e
      have htail : ∀ e ∈ l, areaHole searchStart searchEnd alignment e.2 = hole e :=
        fun e he => hhole e (List.mem_cons_of_mem _ he)
      have hhead : areaHole searchStart searchEnd alignment a = hole (k, a) :=
        hhole (k, a) List.mem_cons_self
      rw [largestHole]
      by_cases hfree : a.dmaType = .free
      · rw [if_neg (not_not.2 hfree), hhead]
        simp only
        obtain ⟨hall, hbest, hcase⟩ := ih (if best.2 < (hole (k, a)).2 then hole (k, a) else best)
          htail
        have hstep : best.2 ≤ (if best.2 < (hole (k, a)).2 then hole (k, a) else best).2 ∧
            (hole (k, a)).2 ≤ (if best.2 < (hole (k, a)).2 then hole (k, a) else best).2 := by
          split
          · next h => exact ⟨h.le, le_rfl⟩
          · next h => exact ⟨le_rfl, Nat.le_of_not_lt h⟩
        refine ⟨fun e he hf => ?_, hstep.1.trans hbest, ?_⟩
        · rcases List.mem_cons.1 he with rfl | he
          · exact hstep.2.trans hbest
          · exact hall e he hf
        · rcases hcase with heq | ⟨before, e, after, rfl, hf, heq, hlt, hbefore⟩
          · rw [heq]
            split
            · next h => exact .inr ⟨[], (k, a), l, rfl, hfree, rfl, h, fun e he => (by cases he)⟩
            · exact .inl rfl
          · refine .inr ⟨(k, a) :: before, e, after, rfl, hf, heq, hstep.1.trans_lt hlt,
              fun e' he' hf' => ?_⟩
            rcases List.mem_cons.1 he' with rfl | he'
            · exact hstep.2.trans_lt hlt
            · exact hbefore e' he' hf'
      · rw [if_pos hfree]
        obtain ⟨hall, hbest, hcase⟩ := ih best htail
        refine ⟨fun e he hf => ?_, hbest, ?_⟩
        · rcases List.mem_cons.1 he with rfl | he
          · exact absurd hf hfree
          · exact hall e he hf
        · rcases hcase with heq | ⟨before, e, after, rfl, hf, heq, hlt, hbefore⟩
          · exact .inl heq
          · refine .inr ⟨(k, a) :: before, e, after, rfl, hf, heq, hlt, fun e' he' hf' => ?_⟩
            rcases List.mem_cons.1 he' with rfl | he'
            · exact absurd hf' hfree
            · exact hbefore e' he' hf'

/-! ### What the query should report -/

/-- What a query over a window is to report: an aligned address from which the size given is
Free inside the window, no longer run of the window being aligned, and a size `Allocate` then
finds there. -/
structure ReportsHole (s : MemoryManager) (searchStart searchEnd alignment : ℕ) (memoryType : ℤ)
    (r : ℕ × ℕ) : Prop where
  aligned : queryAlignment alignment ∣ r.1
  inside : ∀ x, r.1 ≤ x → x < r.1 + r.2 → searchStart ≤ x ∧ x < searchEnd
  free : FreeRange s.dmemMap r.1 r.2
  longest : ∀ n q, WindowPlace s.dmemMap searchStart searchEnd n (queryAlignment alignment) q →
    n ≤ r.2
  allocates : 0 < r.2 → ∃ p s',
    s.allocate searchStart searchEnd r.2 alignment memoryType = .ok (p, s') ∧
      WindowPlace s.dmemMap searchStart searchEnd r.2
        (if 0 < alignment then alignment else pageSize) p

/-- When it does: every run of the window is no longer than what is counted in some area; what
is counted in an area that starts before the window is Free in it, if no area behind counts
more; and a longest run of the window is matched by a place for it inside one Free area. -/
structure QueryCondition (m : PhysMap) (searchStart searchEnd alignment : ℕ) : Prop where
  matched : ∀ n q, 0 < n →
    WindowPlace m searchStart searchEnd n (queryAlignment alignment) q →
    ∃ k a, m.get? k = some a ∧ a.dmaType = .free ∧ Reached m searchStart k ∧
      n ≤ counted searchStart searchEnd alignment k a
  honest : ∀ k a, m.get? k = some a → a.dmaType = .free → Reached m searchStart k →
    k < searchStart → 0 < counted searchStart searchEnd alignment k a →
    (∃ k' b, m.get? k' = some b ∧ b.dmaType = .free ∧ searchStart ≤ k' ∧
        counted searchStart searchEnd alignment k a <
          counted searchStart searchEnd alignment k' b) ∨
      (FreeRange m (roundUp searchStart (queryAlignment alignment))
          (counted searchStart searchEnd alignment k a) ∧
        roundUp searchStart (queryAlignment alignment) +
          counted searchStart searchEnd alignment k a ≤ searchEnd)
  allocatable : ∀ n q, 0 < n →
    WindowPlace m searchStart searchEnd n (queryAlignment alignment) q →
    (∀ n' q', WindowPlace m searchStart searchEnd n' (queryAlignment alignment) q' → n' ≤ n) →
    ∃ p, AreaPlace m searchStart n (if 0 < alignment then alignment else pageSize) p ∧
      p + n ≤ searchEnd

variable {L : Layout} {s s₀ : MemoryManager} {cfg : Config} {h : ℕ} {a₀ : PhysicalMemoryArea}

theorem directQueryAvailable_ok (P : PhysMapOk s.dmemMap U)
    (hfloor : s.dmemMap.floor searchStart = some (h, a₀))
    (hstart : searchStart < searchEnd) (hend : searchEnd ≤ 9223372036854775808)
    (hlt : alignment < 18446744073709551616) :
    ∃ r, s.directQueryAvailable searchStart searchEnd alignment = .ok r ∧
      (∀ k a, s.dmemMap.get? k = some a → a.dmaType = .free → Reached s.dmemMap searchStart k →
        counted searchStart searchEnd alignment k a ≤ r.2) ∧
      (r = (0, 0) ∨ ∃ k a, s.dmemMap.get? k = some a ∧ a.dmaType = .free ∧
        Reached s.dmemMap searchStart k ∧ 0 < counted searchStart searchEnd alignment k a ∧
        r = (roundUp (max searchStart k) (queryAlignment alignment),
          counted searchStart searchEnd alignment k a) ∧
        ∀ k' b, s.dmemMap.get? k' = some b → b.dmaType = .free →
          Reached s.dmemMap searchStart k' → k' < k →
          counted searchStart searchEnd alignment k' b <
            counted searchStart searchEnd alignment k a) := by
  have hfind : findArea s.dmemMap searchStart = .ok (h, a₀) := findArea_eq_ok.2 hfloor
  have hreach {k : ℕ} : Reached s.dmemMap searchStart k ↔ h ≤ k := reached_iff hfloor
  obtain ⟨hall, -, hcase⟩ := largestHole_spec
    (fun e => (roundUp (max searchStart e.1) (queryAlignment alignment),
      counted searchStart searchEnd alignment e.1 e.2)) (s.dmemMap.entriesFrom h) (0, 0)
    fun e he => areaHole_eq P (OrderedMap.mem_entriesFrom.1 he).1 hstart hend hlt
  refine ⟨_, by rw [MemoryManager.directQueryAvailable, hfind]; rfl,
    fun k a hk hfree hr => hall (k, a) (OrderedMap.mem_entriesFrom.2 ⟨hk, hreach.1 hr⟩) hfree,
    hcase.imp_right ?_⟩
  rintro ⟨before, ⟨k, a⟩, after, hsplit, hfree, heq, hpos, hbefore⟩
  have hmem : (k, a) ∈ s.dmemMap.entriesFrom h := hsplit ▸ by simp
  obtain ⟨hk, hle⟩ := OrderedMap.mem_entriesFrom.1 hmem
  refine ⟨k, a, hk, hfree, hreach.2 hle, hpos, heq, fun k' b hk' hfree' hr' hlt' => ?_⟩
  have hmem' := OrderedMap.mem_entriesFrom.2 ⟨hk', hreach.1 hr'⟩
  have hsorted := s.dmemMap.entriesFrom_sorted h
  rw [hsplit, List.pairwise_append, List.pairwise_cons] at hsorted
  rw [hsplit, List.mem_append, List.mem_cons] at hmem'
  rcases hmem' with hin | heq' | hin
  · exact hbefore _ hin hfree'
  · exact absurd (Prod.mk.inj heq').1 hlt'.ne
  · exact absurd (hsorted.2.1.1 _ hin) (Nat.not_lt.2 hlt'.le)

theorem allocate_succeeds_iff (W : WellFormed L s)
    (hfloor : s.dmemMap.floor searchStart = some (h, a₀))
    (hlo : searchStart < 18446744073709551616) (hlt : alignment < 18446744073709551616)
    (hsize : 0 < size) (hsize' : size < 18446744073709551616) (memoryType : ℤ) :
    (∃ p s', s.allocate searchStart searchEnd size alignment memoryType = .ok (p, s') ∧
        WindowPlace s.dmemMap searchStart searchEnd size
          (if 0 < alignment then alignment else pageSize) p) ↔
      ∃ p, AreaPlace s.dmemMap searchStart size
        (if 0 < alignment then alignment else pageSize) p ∧ p + size ≤ searchEnd := by
  obtain ⟨hpos, hlt'⟩ := alignment_ok (d := pageSize) (Nat.succ_pos _)
    (by unfold pageSize; omega) hlt
  exact (SearchCall.allocate W hlo hsize hsize' hfloor).succeeds_iff W.dmem hfloor hlo hpos hlt'
    hsize

/-- In every reachable state, for every window that ends in the direct memory and every
alignment, the query reports what it should exactly under the condition. -/
theorem directQueryAvailable_iff (hfresh : Fresh cfg s₀)
    (hreach : Reachable (fun _ c => c.Promised) s₀ s) (searchStart searchEnd alignment : UInt64)
    (hstart : searchStart < searchEnd) (hend : searchEnd.toNat ≤ s.totalDirectSize)
    (memoryType : ℤ) :
    (∃ r, s.directQueryAvailable searchStart.toNat searchEnd.toNat alignment.toNat = .ok r ∧
        ReportsHole s searchStart.toNat searchEnd.toNat alignment.toNat memoryType r) ↔
      QueryCondition s.dmemMap searchStart.toNat searchEnd.toNat alignment.toNat := by
  have W := (hreach.regular hfresh fun _ _ hc => hc).toWellFormed
  have hdirect : 0 < (cfg.layout s₀).directSize := hfresh.2.2.2
  have hlt := alignment.toNat_lt
  have hstart' : searchStart.toNat < searchEnd.toNat := hstart
  have hlo := searchStart.toNat_lt
  generalize searchStart.toNat = lo at *
  generalize searchEnd.toNat = hi at *
  generalize alignment.toNat = align at *
  have hhi : hi ≤ 9223372036854775808 := by
    have := W.dmem.lt_of_mem (show (cfg.layout s₀).directSize - 1 ∈ (cfg.layout s₀).direct from
      Nat.sub_lt hdirect Nat.one_pos)
    rw [W.direct_eq] at hend
    omega
  obtain ⟨h, a₀, hfloor⟩ := W.floor_dmem hdirect lo
  obtain ⟨r, hr, hall, hcase⟩ := directQueryAvailable_ok W.dmem hfloor hstart' hhi hlt
  rw [hr]
  constructor
  · rintro ⟨r', hr', H⟩
    obtain rfl := Except.ok.inj hr'
    have hplace : 0 < r.2 → WindowPlace s.dmemMap lo hi r.2 (queryAlignment align) r.1 := by
      intro hpos
      have hfirst := H.inside r.1 le_rfl (by omega)
      have hlast := H.inside (r.1 + r.2 - 1) (by omega) (by omega)
      exact ⟨H.aligned, hfirst.1, by omega, H.free⟩
    refine ⟨fun n q hn hq => ?_, fun k a hk hfree hreach hlt hpos => ?_, fun n q hn hq hmax => ?_⟩
    · have hle := H.longest n q hq
      rcases hcase with rfl | ⟨k, a, hk, hfree, hreached, -, rfl, -⟩
      · simp only at hle
        omega
      · exact ⟨k, a, hk, hfree, hreached, hle⟩
    · have hcount := hall k a hk hfree hreach
      rcases hcase with rfl | ⟨k₁, a₁, hk₁, hfree₁, hreached, hpos₁, rfl, hfirst⟩
      · simp only at hcount
        omega
      · rcases Nat.lt_or_ge k₁ lo with hlt₁ | hge₁
        · -- both areas are the one around the start
          obtain rfl : k = k₁ := le_antisymm (hreached k a hk hlt.le) (hreach k₁ a₁ hk₁ hlt₁.le)
          obtain rfl := Option.some.inj (hk.symm.trans hk₁)
          have hbelow := (hplace hpos).below
          have hfree := H.free
          simp only [max_eq_left hlt.le] at hbelow hfree
          exact .inr ⟨hfree, hbelow⟩
        · exact .inl ⟨k₁, a₁, hk₁, hfree₁, hge₁, hfirst k a hk hfree hreach (by omega)⟩
    · obtain rfl : n = r.2 :=
        le_antisymm (H.longest n q hq)
          (hmax r.2 r.1 (hplace (hn.trans_le (H.longest n q hq))))
      have := hq.below
      exact (allocate_succeeds_iff W hfloor hlo hlt hn (by omega) memoryType).1 (H.allocates hn)
  · intro H
    refine ⟨r, rfl, ?_⟩
    have hlongest : ∀ n q, WindowPlace s.dmemMap lo hi n (queryAlignment align) q → n ≤ r.2 := by
      intro n q hq
      rcases Nat.eq_zero_or_pos n with rfl | hn
      · exact Nat.zero_le _
      · obtain ⟨k, a, hk, hfree, hreached, hle⟩ := H.matched n q hn hq
        exact hle.trans (hall k a hk hfree hreached)
    rcases hcase with rfl | ⟨k, a, hk, hfree, hreached, hpos, rfl, hfirst⟩
    · exact ⟨dvd_zero _, fun x _ hx => absurd hx (by simp), fun x _ hx => absurd hx (by simp),
        hlongest, fun hpos => absurd hpos (lt_irrefl 0)⟩
    · have hplace : WindowPlace s.dmemMap lo hi (counted lo hi align k a) (queryAlignment align)
          (roundUp (max lo k) (queryAlignment align)) := by
        have hup : max lo k ≤ roundUp (max lo k) (queryAlignment align) :=
          le_roundUp queryAlignment_pos
        rcases Nat.lt_or_ge k lo with hlt' | hge
        · rcases H.honest k a hk hfree hreached hlt' hpos with
            ⟨k', b, hk', hfree', hge', hgt⟩ | ⟨hrange, hbelow⟩
          · have := hall k' b hk' hfree' fun k'' _ _ hle => hle.trans hge'
            simp only at this
            omega
          · rw [max_eq_left hlt'.le] at hup ⊢
            exact ⟨dvd_roundUp, hup, hbelow, hrange⟩
        · have hcount : counted lo hi align k a =
              min (k + a.size) hi - roundUp (max lo k) (queryAlignment align) :=
            counted_eq_of_le hge
          refine ⟨dvd_roundUp, by omega, by omega, fun x hx hx' => ?_⟩
          exact ⟨a.label, W.dmem.labels_eq hk (by omega) (by omega), hfree⟩
      refine ⟨hplace.aligned, fun x hx hx' => ?_, hplace.free, hlongest, fun hpos => ?_⟩
      · have habove := hplace.above
        have hbelow := hplace.below
        simp only at hx hx'
        omega
      · have := hplace.below
        exact (allocate_succeeds_iff W hfloor hlo hlt hpos (by simp only; omega) memoryType).2
          (H.allocatable _ _ hpos hplace hlongest)

theorem directQueryAvailable_iff_sample :
    (∃ r, Config.retail.start.directQueryAvailable (0x4000 : UInt64).toNat (0x10000 : UInt64).toNat
        (0x4000 : UInt64).toNat = .ok r ∧
      ReportsHole Config.retail.start (0x4000 : UInt64).toNat (0x10000 : UInt64).toNat
        (0x4000 : UInt64).toNat 0 r) ↔
      QueryCondition Config.retail.start.dmemMap (0x4000 : UInt64).toNat
        (0x10000 : UInt64).toNat (0x4000 : UInt64).toNat :=
  directQueryAvailable_iff fresh_retail .start 0x4000 0x10000 0x4000 (by decide)
    (by decide) 0

/-- From 0x4000 on, with alignment 0x8000, the query reports a hole that ends behind the
window. -/
theorem directQueryAvailable_fails :
    Reachable (fun _ c => c.Promised) Config.retail.start Config.retail.start ∧
      0x10000 ≤ Config.retail.start.totalDirectSize ∧
      ¬ ∃ r, Config.retail.start.directQueryAvailable 0x4000 0x10000 0x8000 = .ok r ∧
        ReportsHole Config.retail.start 0x4000 0x10000 0x8000 0 r := by
  refine ⟨.start, by decide, ?_⟩
  rintro ⟨r, hr, H⟩
  obtain ⟨r', hr', hval⟩ : ∃ r',
      Config.retail.start.directQueryAvailable 0x4000 0x10000 0x8000 = .ok r' ∧
      decide (r' = (0x8000, 0xc000)) = true :=
    exists_of_any (by decide)
  obtain rfl : r' = r := Except.ok.inj (hr'.symm.trans hr)
  obtain rfl := of_decide_eq_true hval
  have := H.inside 0x10000 (by simp) (by simp)
  omega

end OrbitConsole.Memory
