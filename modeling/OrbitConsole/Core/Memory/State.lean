import OrbitConsole.Core.Memory.Setup
import OrbitConsole.Core.Memory.VirtualAreas

/-!
# Well-formed states

`WellFormed L s` collects the tilings of the three maps. On top of it a state is
read byte by byte: `cells` of the virtual map, `labels` of the two physical maps,
and `physOf T m A`, the physical bytes that back the virtual bytes of type `T`
in `A`.
-/

namespace OrbitConsole.Memory

/-- What set-up fixes for the whole run. -/
structure Layout where
  usable : Set ℕ
  directSize : ℕ
  flexBase : ℕ
  flexSize : ℕ

namespace Layout

def direct (L : Layout) : Set ℕ := Set.Iio L.directSize

/-- The flexible backing range. -/
def flexible (L : Layout) : Set ℕ := Set.Ico L.flexBase (L.flexBase + flexibleMemorySize)

end Layout

structure WellFormed (L : Layout) (s : MemoryManager) : Prop where
  vma : VmaMapOk s.vmaMap L.usable
  dmem : PhysMapOk s.dmemMap L.direct
  fmem : PhysMapOk s.fmemMap L.flexible
  direct_eq : s.totalDirectSize = L.directSize
  flexible_eq : s.totalFlexibleSize = L.flexSize

/-- The physical bytes behind the virtual bytes of type `T` in `A`. -/
def physOf (T : VMAType) (m : VMAMap) (A : Set ℕ) : Set ℕ :=
  {p | ∃ x ∈ A, ∃ c t, cells m x = some c ∧ c.type = T ∧ c.backing = some (p, t)}

variable {T : VMAType} {m m' : VMAMap} {A B U : Set ℕ} {k n p start stop : ℕ}
  {v : VirtualMemoryArea}

@[simp] theorem physOf_empty : physOf T m ∅ = ∅ := by
  ext p
  simp [physOf]

theorem physOf_union : physOf T m (A ∪ B) = physOf T m A ∪ physOf T m B := by
  ext p
  simp only [physOf, Set.mem_union, Set.mem_ofPred_eq, or_and_right, exists_or]

theorem physOf_congr (h : ∀ x ∈ A, cells m' x = cells m x) :
    physOf T m' A = physOf T m A := by
  ext p
  refine exists_congr fun x => and_congr_right fun hx => ?_
  rw [h x hx]

theorem physOf_mono (h : A ⊆ B) : physOf T m A ⊆ physOf T m B := by
  rintro p ⟨x, hx, hp⟩
  exact ⟨x, h hx, hp⟩

def physRange (v : VirtualMemoryArea) (start stop : ℕ) : Set ℕ :=
  {p | ∃ i, start ≤ i ∧ i < stop ∧ ∃ l, bytes v.physAreas i = some (p, l)}

theorem physRange_self : physRange v start start = ∅ := by
  ext p
  simp only [physRange, Set.mem_ofPred_eq, Set.mem_empty_iff_false, iff_false]
  rintro ⟨i, h, h', -⟩
  omega

theorem physRange_split {mid : ℕ} (h : start ≤ mid) (h' : mid ≤ stop) :
    physRange v start stop = physRange v start mid ∪ physRange v mid stop := by
  ext p
  simp only [physRange, Set.mem_union, Set.mem_ofPred_eq]
  constructor
  · rintro ⟨i, hi, hi', hp⟩
    rcases Nat.lt_or_ge i mid with hlt | hge
    · exact .inl ⟨i, hi, hlt, hp⟩
    · exact .inr ⟨i, hge, hi', hp⟩
  · rintro (⟨i, hi, hi', hp⟩ | ⟨i, hi, hi', hp⟩)
    · exact ⟨i, hi, by omega, hp⟩
    · exact ⟨i, by omega, hi', hp⟩

theorem physRange_piece (len : ℕ) {x off : ℕ} {a : PhysicalMemoryArea}
    (P : PhysTiles v.physAreas {x | x < n}) (h : v.physAreas.get? x = some a) (hle : x ≤ off)
    (hend : off + len ≤ x + a.size) :
    physRange v off (off + len) =
      Set.Ico (a.base + (off - x)) (a.base + (off - x) + len) := by
  ext p
  constructor
  · rintro ⟨i, hi, hi', l, hp⟩
    rw [P.bytes_eq h (by omega) (by omega)] at hp
    cases hp
    constructor <;> omega
  · rintro ⟨hp, hp'⟩
    refine ⟨off + (p - (a.base + (off - x))), by omega, by omega, a.label, ?_⟩
    rw [P.bytes_eq h (by omega) (by omega), Option.some.injEq, Prod.mk.injEq]
    exact ⟨by omega, rfl⟩

theorem VmaMapOk.physOf_area (V : VmaMapOk m U) (h : m.get? k = some v)
    (hstop : stop ≤ v.size) :
    physOf v.type m (Set.Ico (k + start) (k + stop)) = physRange v start stop := by
  ext p
  constructor
  · rintro ⟨x, ⟨hx, hx'⟩, c, t, hc, -, hp⟩
    rw [V.cells_eq h (by omega) (by omega), Option.some.injEq] at hc
    subst hc
    obtain ⟨⟨q, l⟩, hb, heq⟩ := Option.map_eq_some_iff.1 hp
    cases heq
    exact ⟨x - k, by omega, by omega, l, hb⟩
  · rintro ⟨i, hi, hi', l, hp⟩
    refine ⟨k + i, ⟨by omega, by omega⟩, v.cell i, l.memoryType, ?_, rfl, ?_⟩
    · rw [V.cells_eq h (by omega) (by omega), Nat.add_sub_cancel_left]
    · simp only [VirtualMemoryArea.cell, hp, Option.map_some]
      rfl

theorem VmaMapOk.physOf_area_ne (V : VmaMapOk m U) (h : m.get? k = some v)
    (hstop : stop ≤ v.size) (hT : v.type ≠ T) :
    physOf T m (Set.Ico (k + start) (k + stop)) = ∅ := by
  ext p
  simp only [Set.mem_empty_iff_false, iff_false]
  rintro ⟨x, ⟨hx, hx'⟩, c, t, hc, hc', -⟩
  rw [V.cells_eq h (by omega) (by omega), Option.some.injEq] at hc
  subst hc
  exact hT hc'

/-- Backing of type `T` is never shared, lies in `R`, and every piece of it lies in one
area of the physical map `pm`. -/
structure Unshared (T : VMAType) (m : VMAMap) (pm : PhysMap) (R : Set ℕ) : Prop where
  injective : ∀ {x y c d p t u}, cells m x = some c → cells m y = some d → c.type = T →
    d.type = T → c.backing = some (p, t) → d.backing = some (p, u) → x = y
  subset : ∀ A, physOf T m A ⊆ R
  unbroken : AllPieces (fun t b e => t = T → Unbroken pm b e) m

theorem subClosed_unbroken (T : VMAType) (pm : PhysMap) :
    SubClosed fun t b e => t = T → Unbroken pm b e := by
  intro t b e b' e' h hb he ht x hx hx'
  exact h ht x (by omega) (by omega)

theorem PhysTiles.end_le {pa : PhysMap} {x : ℕ} {a : PhysicalMemoryArea}
    (P : PhysTiles pa {x | x < n}) (h : pa.get? x = some a) : x + a.size ≤ n := by
  have hpos := P.tiles.pos h
  have hmem : x + a.size - 1 < n := P.tiles.mem_of_get? h (by omega) (by omega)
  omega

/-- The loop over physical areas that `UnmapBytesFromEntry`, `PoolDecommit` and
`TryWriteBacking` share: an invariant of the offset reached that the body preserves on every
piece holds at the end. When the areas end at `stop`, the bytes asked for beyond it are left
over. -/
theorem walkPhysAreas_list_spec {σ : Type} {body : σ → ℕ → ℕ → Exec σ}
    {Inv : ℕ → σ → Prop} {total : Prop} (l : List (ℕ × PhysicalMemoryArea)) (pos n extra : ℕ)
    (s : σ) (hstop : pos + n = stop + extra) (hle : pos ≤ stop) (hstart : start ≤ pos)
    (hlt : stop ≤ 9223372036854775808)
    (hextra : extra = 0 ∨ ∀ e ∈ l, e.1 + e.2.size ≤ stop)
    (hsize : n < 18446744073709551616)
    (hbound : ∀ e ∈ l, 0 < e.2.size ∧ e.1 + e.2.size ≤ 9223372036854775808 ∧
      e.2.base + e.2.size ≤ 9223372036854775808)
    (hl : l.Pairwise fun e e' => e.1 + e.2.size ≤ e'.1)
    (hfirst : ∀ e ∈ l, pos < e.1 + e.2.size ∧ (e.1 < pos → pos = start))
    (hcover : ∀ x, pos ≤ x → x < stop → ∃ e ∈ l, e.1 ≤ x ∧ x < e.1 + e.2.size)
    (hinv : Inv pos s)
    (hbody : ∀ e ∈ l, ∀ off len s, off = max e.1 start → 0 < len →
      off + len ≤ e.1 + e.2.size → off + len ≤ stop → Inv off s →
      Exec.Spec total (body s (e.2.base + (off - e.1)) len) (Inv (off + len))) :
    Exec.Spec total (walkPhysAreas body start l n s) fun r => r.2 = extra ∧ Inv stop r.1 := by
  induction l generalizing pos n s with
  | nil =>
      have hpos : pos = stop := by
        by_contra hne
        obtain ⟨e, he, -⟩ := hcover pos le_rfl (by omega)
        cases he
      obtain rfl : n = extra := by omega
      exact Exec.Spec.pure ⟨rfl, hpos ▸ hinv⟩
  | cons e l ih =>
      obtain ⟨off, a⟩ := e
      rw [walkPhysAreas]
      split
      · next hn =>
          obtain rfl : pos = stop := by omega
          exact Exec.Spec.pure ⟨by simp only; omega, hinv⟩
      · next hn =>
          rw [List.pairwise_cons] at hl
          obtain ⟨hend, hat⟩ := hfirst (off, a) (by simp)
          obtain ⟨hpos, hkey, hbase⟩ := hbound (off, a) (by simp)
          have hlast : extra = 0 ∨ off + a.size ≤ stop := hextra.imp_right fun h => h (off, a) (by simp)
          simp only at hpos hend hat hkey hbase
          -- the first entry is the one that covers the offset reached
          have hle' : off ≤ pos := by
            obtain ⟨e, he, hle, -⟩ := hcover pos le_rfl (by omega)
            rcases List.mem_cons.1 he with rfl | he
            · exact hle
            · have := hl.1 e he
              simp only at this
              omega
          have hmax : pos = max off start := by
            rcases Nat.lt_or_ge off pos with hlt | hge
            · rw [max_eq_right (by omega), hat hlt]
            · rw [max_eq_left (by omega)]
              omega
          have hskip : sub64 (max off start) off = pos - off := by
            rw [← hmax, sub64_eq hle' (by omega)]
          have haddr : add64 a.base (pos - off) = a.base + (pos - off) :=
            add64_eq (by omega)
          have hlen : sub64 a.size (pos - off) = a.size - (pos - off) :=
            sub64_eq (by omega) (by omega)
          simp only [hskip, haddr, hlen]
          refine Exec.Spec.bind (hbody (off, a) (by simp) pos _ s hmax (by omega)
            (by simp only; omega) (by omega) hinv) fun s' hs' => ?_
          rw [sub64_eq (by omega) (by omega)]
          rcases Nat.lt_or_ge (a.size - (pos - off)) n with hlt | hge
          · rw [min_eq_right hlt.le] at hs' ⊢
            refine ih (pos + (a.size - (pos - off))) _ s' (by omega) (by omega) (by omega)
              (hextra.imp_right fun h e he => h e (List.mem_cons_of_mem _ he)) (by omega)
              (fun e he => hbound e (List.mem_cons_of_mem _ he)) hl.2 (fun e he => ?_)
              (fun x hx hx' => ?_) hs' fun e he => hbody e (List.mem_cons_of_mem _ he)
            · have hnext := hl.1 e he
              obtain ⟨hsize, -⟩ := hbound e (List.mem_cons_of_mem _ he)
              simp only at hnext
              constructor <;> omega
            · obtain ⟨e, he, hle', hlt'⟩ := hcover x (by omega) hx'
              rcases List.mem_cons.1 he with rfl | he
              · simp only at hlt'
                omega
              · exact ⟨e, he, hle', hlt'⟩
          · rw [min_eq_left hge] at hs' ⊢
            rw [Nat.sub_self]
            have hzero : walkPhysAreas body start l 0 s' = pure (s', 0) := by
              cases l <;> simp [walkPhysAreas]
            obtain rfl : extra = 0 := by omega
            rw [hzero]
            rw [Nat.add_zero] at hstop
            exact Exec.Spec.pure ⟨rfl, hstop ▸ hs'⟩

theorem walkPhysAreas_extra_spec {σ : Type} {body : σ → ℕ → ℕ → Exec σ} (Inv : ℕ → σ → Prop)
    {total : Prop} {s : σ} {first extra : ℕ} {b : PhysicalMemoryArea} {pa : PhysMap}
    (P : PhysTiles pa {x | x < n}) (hn : n ≤ 9223372036854775808)
    (hfloor : pa.floor start = some (first, b)) (hstop : start ≤ stop) (hle : stop ≤ n)
    (hextra : extra = 0 ∨ stop = n) (hsize : stop - start + extra < 18446744073709551616)
    (hstart : start < n) (hinv : Inv start s)
    (hbody : ∀ x a, pa.get? x = some a → ∀ off len s, off = max x start → 0 < len →
      off + len ≤ x + a.size → off + len ≤ stop → Inv off s →
      Exec.Spec total (body s (a.base + (off - x)) len) (Inv (off + len))) :
    Exec.Spec total (walkPhysAreas body start (pa.entriesFrom first) (stop - start + extra) s)
      fun r => r.2 = extra ∧ Inv stop r.1 := by
  obtain ⟨hfirst, hfle, hmax⟩ := OrderedMap.floor_eq_some_iff.1 hfloor
  have hentry : ∀ e ∈ pa.entriesFrom first, pa.get? e.1 = some e.2 ∧ first ≤ e.1 :=
    fun e he => OrderedMap.mem_entriesFrom.1 he
  -- the entry the loop starts on covers `start`
  have hcovers : start < first + b.size := by
    obtain ⟨x, a, hx, hxle, hxlt⟩ := (P.tiles.mem_iff start).1 hstart
    have hxf : x ≤ first := hmax x a hx hxle
    rcases Nat.eq_or_lt_of_le hxf with rfl | hxf
    · obtain rfl : a = b := by simpa [hx] using hfirst
      exact hxlt
    · have := P.tiles.disjoint hx hfirst hxf
      omega
  refine walkPhysAreas_list_spec _ start _ extra s (by omega) hstop le_rfl (by omega)
    (hextra.imp_right fun heq e he => ?_) hsize (fun e he => ?_)
    ?_ (fun e he => ⟨?_, fun _ => rfl⟩) (fun x hx hx' => ?_) hinv fun e he =>
      hbody e.1 e.2 (hentry e he).1
  · exact heq ▸ P.end_le (hentry e he).1
  · obtain ⟨he, -⟩ := hentry e he
    have := P.end_le he
    exact ⟨P.tiles.pos he, by omega, P.bounded he⟩
  · exact P.tiles.entries_pairwise.filter _
  · obtain ⟨he, hle'⟩ := hentry e he
    rcases Nat.eq_or_lt_of_le hle' with heq | hlt'
    · rw [← heq, hfirst, Option.some.injEq] at he
      rw [← heq, ← he]
      exact hcovers
    · have := P.tiles.disjoint hfirst he hlt'
      omega
  · obtain ⟨y, a, hy, hyle, hylt⟩ := (P.tiles.mem_iff x).1 (show x < n by omega)
    refine ⟨(y, a), OrderedMap.mem_entriesFrom.2 ⟨hy, ?_⟩, hyle, hylt⟩
    by_contra hlt'
    have := P.tiles.disjoint hy hfirst (by omega)
    omega

theorem walkPhysAreas_spec {σ : Type} {body : σ → ℕ → ℕ → Exec σ} (Inv : ℕ → σ → Prop)
    {total : Prop} {s : σ} {first : ℕ} {b : PhysicalMemoryArea} {pa : PhysMap}
    (P : PhysTiles pa {x | x < n}) (hn : n ≤ 9223372036854775808)
    (hfloor : pa.floor start = some (first, b)) (hstop : start ≤ stop) (hle : stop ≤ n)
    (hinv : Inv start s)
    (hbody : ∀ x a, pa.get? x = some a → ∀ off len s, start ≤ off → x ≤ off → 0 < len →
      off + len ≤ x + a.size → off + len ≤ stop → Inv off s →
      Exec.Spec total (body s (a.base + (off - x)) len) (Inv (off + len))) :
    Exec.Spec total (walkPhysAreas body start (pa.entriesFrom first) (stop - start) s)
      fun r => r.2 = 0 ∧ Inv stop r.1 := by
  rcases Nat.eq_or_lt_of_le hstop with rfl | hlt
  · rw [Nat.sub_self]
    have hzero : walkPhysAreas body start (pa.entriesFrom first) 0 s = pure (s, 0) := by
      cases pa.entriesFrom first <;> simp [walkPhysAreas]
    rw [hzero]
    exact Exec.Spec.pure ⟨rfl, hinv⟩
  · exact walkPhysAreas_extra_spec Inv P hn hfloor hstop hle (.inl rfl) (by omega) (by omega)
      hinv fun x a hx off len s hoff => hbody x a hx off len s (by omega) (by omega)

end OrbitConsole.Memory
