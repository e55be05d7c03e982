import OrbitConsole.Core.Memory.DirectQuery
import OrbitConsole.Library.Consecutive

/-!
# The run `DirectMemoryQuery` reports

The query takes any area that is not free and then extends the run over Mapped and
Allocated areas of the same memory type only.
-/

namespace OrbitConsole.Memory

open Exec Tiling

def errorEacces : ℤ := 0x8002000D - 0x100000000

structure OrbisQueryInfo where
  start : ℕ
  endAddr : ℕ
  memoryType : ℤ
  deriving DecidableEq, Repr

/-- The loop of `DirectMemoryQuery` that extends the run; `endAddr` is `out_info->end`. -/
def queryRun (memoryType : ℤ) : List (ℕ × PhysicalMemoryArea) → ℕ → ℕ
  | [], endAddr => endAddr
  | (_, area) :: rest, endAddr =>
      if area.memoryType = memoryType ∧
          (area.dmaType = .mapped ∨ area.dmaType = .allocated) then
        queryRun memoryType rest area.getEnd
      else endAddr

namespace MemoryManager

/-- `DirectMemoryQuery`; `outInfo` is what the caller's record held before. -/
def directMemoryQuery (s : MemoryManager) (addr : ℕ) (findNext : Bool)
    (outInfo : OrbisQueryInfo) : Exec (ℤ × OrbisQueryInfo) :=
  if s.totalDirectSize ≤ addr then pure (errorEacces, outInfo)
  else do
    let (handle, _) ← findArea s.dmemMap addr
    let areas := (s.dmemMap.entriesFrom handle).dropWhile fun e =>
      decide (e.2.dmaType = .free) && findNext
    match areas with
    | [] => return (errorEacces, outInfo)
    | (_, area) :: _ =>
        if area.dmaType = .free then return (errorEacces, outInfo)
        else
          -- Loop through all sequential mapped or allocated dmem areas
          -- to determine the hardware accurate end.
          return (orbisOk,
            { start := area.base
              endAddr := queryRun area.memoryType areas outInfo.endAddr
              memoryType := area.memoryType })

end MemoryManager

/-- A query answers with `r`: written as a whole, a nonempty run of one memory type that is
not free, and no longer one. -/
structure AnswersRun (s : MemoryManager) (addr : ℕ) (findNext : Bool) (r : OrbisQueryInfo) :
    Prop where
  written : ∀ outInfo, s.directMemoryQuery addr findNext outInfo = .ok (orbisOk, r)
  nonempty : r.start < r.endAddr
  inside : ∀ x, r.start ≤ x → x < r.endAddr →
    ∃ l, labels s.dmemMap x = some l ∧ l.dmaType ≠ .free ∧ l.memoryType = r.memoryType
  stops : ∀ l, labels s.dmemMap r.endAddr = some l →
    l.dmaType = .free ∨ l.memoryType ≠ r.memoryType
  contains : findNext = false → r.start ≤ addr ∧ addr < r.endAddr

def Counted (m : PhysMap) (t : ℤ) (x : ℕ) : Prop :=
  ∃ l, labels m x = some l ∧ l.memoryType = t ∧ (l.dmaType = .mapped ∨ l.dmaType = .allocated)

def QueriedByte (m : PhysMap) (addr : ℕ) (findNext : Bool) (q : ℕ) : Prop :=
  addr ≤ q ∧ (findNext = false → q = addr) ∧
    (∀ x, addr ≤ x → x < q → ∃ l, labels m x = some l ∧ l.dmaType = .free) ∧
    ∃ l, labels m q = some l ∧ l.dmaType ≠ .free

/-- The byte is Mapped or Allocated, and the bytes of that kind from it on are followed by
a free one, by one of another memory type, or by none. -/
def QueryableRun (m : PhysMap) (q : ℕ) : Prop :=
  ∃ t, Counted m t q ∧ ∀ e, q ≤ e → (∀ x, q ≤ x → x < e → Counted m t x) →
    ∀ l, labels m e = some l → l.dmaType = .free ∨ l.memoryType ≠ t ∨ Counted m t e

variable {m : PhysMap} {n k start addr : ℕ} {a : PhysicalMemoryArea} {t : ℤ}
  {l : List (ℕ × PhysicalMemoryArea)}

theorem PhysMapOk.counted_iff {U : Set ℕ} {x : ℕ} (P : PhysMapOk m U) (hk : m.get? k = some a)
    (hle : k ≤ x) (hlt : x < k + a.size) :
    Counted m t x ↔ a.memoryType = t ∧ (a.dmaType = .mapped ∨ a.dmaType = .allocated) := by
  rw [Counted, P.labels_eq hk hle hlt]
  simp [PhysicalMemoryArea.label]

theorem queryRun_spec (P : PhysMapOk m (Set.Iio n))
    (h : Onward PhysicalMemoryArea.size m l start)
    (hstart : Boundary PhysicalMemoryArea.size m start) (endAddr : ℕ) :
    ∃ stop, start ≤ stop ∧
      queryRun t l endAddr = (if stop = start then endAddr else stop) ∧
      (∀ x, start ≤ x → x < stop → Counted m t x) ∧ ¬ Counted m t stop := by
  induction l generalizing start endAddr with
  | nil =>
      refine ⟨start, le_rfl, by simp [queryRun], fun x hx hx' => absurd hx' (by omega), ?_⟩
      rintro ⟨l, hl, -⟩
      have hmem := P.labels_isSome_iff.1 (Option.isSome_of_eq_some hl)
      obtain ⟨a, l', hnil⟩ := h.head_eq P.tiles hmem hstart
      cases hnil
  | cons e l ih =>
      obtain ⟨k, a⟩ := e
      obtain rfl := h.head_key P.tiles hstart
      have hk := h.get?_head
      have hpos := P.tiles.pos hk
      rw [queryRun]
      split
      · next hcount =>
          obtain ⟨stop, hle, heq, hall, hnot⟩ :=
            ih (h.tail P.tiles) (P.tiles.boundary_end hk) a.getEnd
          have hgetEnd : a.getEnd = k + a.size := by
            have := P.end_le hk
            rw [PhysicalMemoryArea.getEnd, P.base_eq hk, add64_eq (by omega)]
          refine ⟨stop, by omega, ?_, fun x hx hx' => ?_, hnot⟩
          · rw [heq, if_neg (show stop ≠ k by omega)]
            split
            · next hstop => rw [hgetEnd, hstop]
            · rfl
          · rcases Nat.lt_or_ge x (k + a.size) with hlt | hge
            · exact (P.counted_iff hk hx hlt).2 hcount
            · exact hall x hge hx'
      · next hcount =>
          refine ⟨k, le_rfl, (if_pos rfl).symm, fun x hx hx' => absurd hx' (by omega), ?_⟩
          rw [P.counted_iff hk le_rfl (by omega)]
          exact hcount

theorem QueriedByte.unique {findNext : Bool} {q q' : ℕ} (h : QueriedByte m addr findNext q)
    (h' : QueriedByte m addr findNext q') : q = q' := by
  have hlt : ∀ {q q'}, QueriedByte m addr findNext q → QueriedByte m addr findNext q' →
      ¬ q < q' := by
    rintro q q' ⟨hle, -, -, l, hl, hnot⟩ ⟨-, -, hfree, -⟩ hlt
    obtain ⟨l', hl', hf⟩ := hfree q hle hlt
    obtain rfl := Option.some.inj (hl.symm.trans hl')
    exact hnot hf
  have := hlt h h'
  have := hlt h' h
  omega

inductive Found (s : MemoryManager) (addr : ℕ) (findNext : Bool) : Prop
  | area {q k stop : ℕ} {a : PhysicalMemoryArea} (queried : QueriedByte s.dmemMap addr findNext q)
      (hk : s.dmemMap.get? k = some a) (hle : k ≤ q) (hlt : q < k + a.size) (hstop : k ≤ stop)
      (hall : ∀ x, k ≤ x → x < stop → Counted s.dmemMap a.memoryType x)
      (hnot : ¬ Counted s.dmemMap a.memoryType stop)
      (heq : ∀ outInfo, s.directMemoryQuery addr findNext outInfo =
        .ok (orbisOk, ⟨k, if stop = k then outInfo.endAddr else stop, a.memoryType⟩))
  | nothing (none : ∀ q, ¬ QueriedByte s.dmemMap addr findNext q)
      (heq : ∀ outInfo, s.directMemoryQuery addr findNext outInfo = .ok (errorEacces, outInfo))

variable {s : MemoryManager}

theorem directMemoryQuery_found (P : PhysMapOk s.dmemMap (Set.Iio n))
    (hn : s.totalDirectSize = n) (haddr : addr < n) (findNext : Bool) :
    Found s addr findNext := by
  obtain ⟨h, ha, hh, hle, hlt⟩ := (P.tiles.mem_iff addr).1 haddr
  have hfind : findArea s.dmemMap addr = .ok (h, ha) :=
    findArea_eq_ok.2 (P.tiles.floor_eq hh hle hlt)
  obtain ⟨start, hstart, hrun, hbound, hskip⟩ :=
    (Onward.entriesFrom P.tiles (k := h)).dropWhile P.tiles
      (fun e => decide (e.2.dmaType = .free) && findNext) (P.tiles.boundary_key hh)
  have hfree : ∀ x, h ≤ x → x < start →
      findNext = true ∧ ∃ l, labels s.dmemMap x = some l ∧ l.dmaType = .free := by
    intro x hx hx'
    obtain ⟨k, a, hk, hkx, hxk, hf⟩ := hskip x hx hx'
    rw [Bool.and_eq_true, decide_eq_true_eq] at hf
    exact ⟨hf.2, a.label, P.labels_eq hk hkx hxk, hf.1⟩
  have hquery : ∀ outInfo, s.directMemoryQuery addr findNext outInfo =
      match (s.dmemMap.entriesFrom h).dropWhile fun e =>
        decide (e.2.dmaType = .free) && findNext with
      | [] => .ok (errorEacces, outInfo)
      | (k, area) :: rest =>
          if area.dmaType = .free then .ok (errorEacces, outInfo)
          else .ok (orbisOk, ⟨area.base,
            queryRun area.memoryType ((k, area) :: rest) outInfo.endAddr, area.memoryType⟩) := by
    intro outInfo
    rw [MemoryManager.directMemoryQuery, if_neg (by omega), hfind]
    simp only [bind, Except.bind]
    split
    · rfl
    · next hl =>
        rw [← hl]
        rfl
  cases hl : (s.dmemMap.entriesFrom h).dropWhile
      (fun e => decide (e.2.dmaType = .free) && findNext) with
  | nil =>
      rw [hl] at hrun
      refine .nothing (fun q hq => ?_) fun outInfo => by rw [hquery, hl]
      obtain ⟨hq₁, -, -, l, hq₂, hnot⟩ := hq
      have hqn : q < n := P.labels_isSome_iff.1 (Option.isSome_of_eq_some hq₂)
      have hlast : n ≤ start := by
        by_contra hlt'
        obtain ⟨a, l', hnil⟩ := hrun.head_eq P.tiles (show start < n by omega) hbound
        cases hnil
      obtain ⟨-, l', hl', hf⟩ := hfree q (by omega) (by omega)
      obtain rfl := Option.some.inj (hq₂.symm.trans hl')
      exact hnot hf
  | cons e l =>
      obtain ⟨k, a⟩ := e
      rw [hl] at hrun
      obtain rfl := hrun.head_key P.tiles hbound
      have hk := hrun.get?_head
      -- the loop skips nothing unless it is to find the next area
      have hfirst : findNext = false → k = h := by
        intro hnext
        by_contra hne
        have := (hfree h le_rfl (by omega)).1
        rw [hnext] at this
        cases this
      have harea : k ≤ addr → k = h ∧ a = ha := by
        intro hka
        obtain rfl : k = h := by
          by_contra hne
          have := P.tiles.disjoint hh hk (by omega)
          omega
        exact ⟨rfl, Option.some.inj (hk.symm.trans hh)⟩
      by_cases hf : a.dmaType = .free
      · refine .nothing (fun q hq => ?_) fun outInfo => by rw [hquery, hl]; exact if_pos hf
        have hnext : findNext = false := by
          have hhead := List.head?_dropWhile_not
            (fun e => decide (e.2.dmaType = .free) && findNext) (s.dmemMap.entriesFrom h)
          rw [hl] at hhead
          simpa [hf] using hhead
        obtain ⟨-, hq₁, -, l', hq₂, hnot⟩ := hq
        obtain rfl := hq₁ hnext
        obtain ⟨rfl, rfl⟩ := harea (hfirst hnext ▸ hle)
        rw [P.labels_eq hk hle hlt, Option.some.injEq] at hq₂
        exact hnot (hq₂ ▸ hf)
      · obtain ⟨stop, hstop, -, hall, hnot⟩ := queryRun_spec (t := a.memoryType) P hrun hbound 0
        have hqlt : max addr k < k + a.size := by
          have hpos := P.tiles.pos hk
          rcases Nat.lt_or_ge addr k with hlt' | hge
          · omega
          · obtain ⟨rfl, rfl⟩ := harea hge
            omega
        refine .area (q := max addr k) ⟨by omega, fun hnext => ?_, fun x hx hx' => ?_,
          a.label, P.labels_eq hk (by omega) hqlt, hf⟩ hk (by omega) hqlt hstop hall hnot
          fun outInfo => ?_
        · have := hfirst hnext
          omega
        · exact (hfree x (by omega) (by omega)).2
        · obtain ⟨stop', hstop', heq, hall', hnot'⟩ :=
            queryRun_spec (t := a.memoryType) P hrun hbound outInfo.endAddr
          obtain rfl : stop' = stop := by
            by_contra hne
            rcases Nat.lt_or_ge stop stop' with hlt' | hge
            · exact hnot (hall' stop hstop hlt')
            · exact hnot' (hall stop' hstop' (by omega))
          rw [hquery, hl]
          simp only [if_neg hf, heq, P.base_eq hk]

variable {cfg : Config} {s₀ : MemoryManager}

/-- In every reachable state a query answers with a well-formed run exactly when the bytes
it is about can be queried. -/
theorem directMemoryQuery_iff (hfresh : Fresh cfg s₀)
    (h : Reachable (fun _ c => c.Promised) s₀ s) (addr : UInt64)
    (haddr : addr.toNat < s.totalDirectSize) (findNext : Bool) :
    (∀ outInfo r, s.directMemoryQuery addr.toNat findNext outInfo = .ok (orbisOk, r) →
        AnswersRun s addr.toNat findNext r) ↔
      ∀ q, QueriedByte s.dmemMap addr.toNat findNext q → QueryableRun s.dmemMap q := by
  have R := h.regular hfresh fun _ _ hc => hc
  have P : PhysMapOk s.dmemMap (Set.Iio s.totalDirectSize) := R.direct_eq ▸ R.dmem
  cases directMemoryQuery_found P rfl haddr findNext with
  | nothing hnone heq =>
      refine ⟨fun _ q hq => absurd hq (hnone q), fun _ outInfo r hr => ?_⟩
      rw [heq, Except.ok.injEq, Prod.mk.injEq] at hr
      exact absurd hr.1 (by decide)
  | @area q k stop a hq hk hle hlt hstop hall hnot heq =>
      -- once the area counts, the run goes over the byte asked for
      have hover : stop ≠ k → q < stop := by
        intro hne
        by_contra hge
        have hcount := (P.counted_iff hk le_rfl (by omega)).1 (hall k le_rfl (by omega))
        exact hnot ((P.counted_iff hk hstop (by omega)).2 hcount)
      constructor
      · intro hans q' hq'
        obtain rfl := hq'.unique hq
        have A := hans ⟨0, 0, 0⟩ _ (heq _)
        have hne : stop ≠ k := by
          rintro rfl
          have hwritten := A.written ⟨0, 1, 0⟩
          rw [heq, Except.ok.injEq, Prod.mk.injEq, OrbisQueryInfo.mk.injEq] at hwritten
          simp at hwritten
        have hstops := A.stops
        simp only [if_neg hne] at hstops
        refine ⟨a.memoryType, hall q' hle (hover hne), fun e hqe hcount l hl => ?_⟩
        rcases lt_trichotomy e stop with hlt' | rfl | hgt
        · exact .inr (.inr (hall e (by omega) hlt'))
        · exact (hstops l hl).imp_right .inl
        · exact absurd (hcount stop (hover hne).le hgt) hnot
      · intro hrun outInfo r hr
        obtain ⟨t, hcount, hrest⟩ := hrun q hq
        obtain ⟨rfl, htype⟩ := (P.counted_iff hk hle hlt).1 hcount
        have hne : stop ≠ k := by
          rintro rfl
          exact hnot ((P.counted_iff hk le_rfl (by omega)).2 ⟨rfl, htype⟩)
        simp only [if_neg hne] at heq
        obtain rfl : r = ⟨k, stop, a.memoryType⟩ := by
          rw [heq, Except.ok.injEq, Prod.mk.injEq] at hr
          exact hr.2.symm
        refine ⟨heq, by simp only; omega, fun x hx hx' => ?_, fun l hl => ?_, fun hnext => ?_⟩
        · obtain ⟨l, hl, hmt, hdma⟩ := hall x hx hx'
          refine ⟨l, hl, fun hf => ?_, hmt⟩
          rw [hf] at hdma
          rcases hdma with hdma | hdma <;> cases hdma
        · rcases hrest stop (hover hne).le (fun x hx hx' => hall x (by omega) hx') l hl with
            hf | hmt | hc
          · exact .inl hf
          · exact .inr hmt
          · exact absurd hc hnot
        · obtain rfl := hq.2.1 hnext
          exact ⟨hle, hover hne⟩

/-- Two pages of one type, the second one mapped, and a page of another type: a query behind the
first page answers with the two. -/
theorem directMemoryQuery_iff_sample : ∃ s r,
    runCalls Config.retail.start [.allocate 0 0x10000 0x8000 0 3, .allocate 0x8000 0x10000 0x4000 0 4,
      .mapMemory 0x200000000 0x4000 3 0x10 .direct "" false 0x4000 0] = .ok s ∧
    s.directMemoryQuery (0x2000 : UInt64).toNat false ⟨0, 0, 0⟩ = .ok (orbisOk, r) ∧
    r = ⟨0, 0x8000, 3⟩ ∧
    ((∀ outInfo r, s.directMemoryQuery (0x2000 : UInt64).toNat false outInfo = .ok (orbisOk, r) →
        AnswersRun s (0x2000 : UInt64).toNat false r) ↔
      ∀ q, QueriedByte s.dmemMap (0x2000 : UInt64).toNat false q → QueryableRun s.dmemMap q) := by
  obtain ⟨s, hrun, hboth⟩ : ∃ s, runCalls Config.retail.start [.allocate 0 0x10000 0x8000 0 3,
      .allocate 0x8000 0x10000 0x4000 0 4,
      .mapMemory 0x200000000 0x4000 3 0x10 .direct "" false 0x4000 0] = .ok s ∧
      (decide ((0x2000 : UInt64).toNat < s.totalDirectSize) &&
        (s.directMemoryQuery (0x2000 : UInt64).toNat false ⟨0, 0, 0⟩).toOption.any fun r =>
          decide (r = (orbisOk, ⟨0, 0x8000, 3⟩))) = true :=
    exists_of_any (by decide)
  rw [Bool.and_eq_true, decide_eq_true_eq] at hboth
  obtain ⟨r, hr, hval⟩ := exists_of_any hboth.2
  obtain rfl := of_decide_eq_true hval
  refine ⟨s, _, hrun, hr, rfl, directMemoryQuery_iff fresh_retail
    (runCalls_reachable .start (fun c hc _ => ?_) hrun) 0x2000 hboth.1 false⟩
  simp only [List.mem_cons, List.not_mem_nil, or_false] at hc
  rcases hc with rfl | rfl | rfl <;> simp [Call.Promised]

/-- A query of pool memory leaves the end unwritten. -/
theorem directMemoryQuery_fails :
    ¬ ∀ s, Reachable (fun _ c => c.Promised) Config.retail.start s →
      ∀ addr : UInt64, addr.toNat < s.totalDirectSize → ∀ findNext outInfo r,
        s.directMemoryQuery addr.toNat findNext outInfo = .ok (orbisOk, r) →
        AnswersRun s addr.toNat findNext r := by
  intro hall
  have hcheck : ((runCalls Config.retail.start [.poolExpand 0 0x100000 0x10000 0]).toOption.any
      fun s => decide ((0 : UInt64).toNat < s.totalDirectSize) &&
        (s.directMemoryQuery (0 : UInt64).toNat false ⟨0, 0, 0⟩).toOption.any fun r =>
          decide (r = (orbisOk, ⟨0, 0, 3⟩))) = true := by
    decide
  obtain ⟨s, hrun, hboth⟩ := exists_of_any hcheck
  rw [Bool.and_eq_true, decide_eq_true_eq] at hboth
  obtain ⟨r, hr, hval⟩ := exists_of_any hboth.2
  obtain rfl := of_decide_eq_true hval
  have hreach : Reachable (fun _ c => c.Promised) Config.retail.start s := by
    refine runCalls_reachable .start (fun c hc _ => ?_) hrun
    obtain rfl := List.mem_singleton.1 hc
    trivial
  exact absurd (hall s hreach 0 hboth.1 false _ _ hr).nonempty (by decide)

end OrbitConsole.Memory
