import Mathlib.Order.Interval.Set.Basic
import OrbitConsole.Core.Memory.Areas
import OrbitConsole.Library.Tiling

/-!
# What the physical helpers do, byte by byte

A physical map is read as a partial function: `bytes m p` is the physical
address and the label of the byte `p`. `PhysTiles m U` says that the areas of
`m` tile `U`; `PhysMapOk m U` adds that every key is the base of its area, as in
`dmem_map` and `fmem_map`. Cutting and merging areas keeps the tiling and every
byte; relabelling changes the label of exactly the bytes asked for.
-/

namespace OrbitConsole.Memory

open Tiling

/-- What a physical map records of a byte. -/
structure Label where
  memoryType : ℤ
  dmaType : PhysicalMemoryType
  deriving DecidableEq, Repr

namespace PhysicalMemoryArea

def label (area : PhysicalMemoryArea) : Label := ⟨area.memoryType, area.dmaType⟩

def byte (area : PhysicalMemoryArea) (i : ℕ) : ℕ × Label := (area.base + i, area.label)

end PhysicalMemoryArea

def bytes (m : PhysMap) : ℕ → Option (ℕ × Label) :=
  view PhysicalMemoryArea.size PhysicalMemoryArea.byte m

def labels (m : PhysMap) (p : ℕ) : Option Label := (bytes m p).map Prod.snd

structure PhysTiles (m : PhysMap) (U : Set ℕ) : Prop where
  tiles : Tiles PhysicalMemoryArea.size m U
  bounded : ∀ {k a}, m.get? k = some a → a.base + a.size ≤ 9223372036854775808

structure PhysMapOk (m : PhysMap) (U : Set ℕ) : Prop extends PhysTiles m U where
  base_eq : ∀ {k a}, m.get? k = some a → a.base = k

variable {m m' : PhysMap} {U : Set ℕ} {k k' p addr size : ℕ} {a b : PhysicalMemoryArea}
  {f : PhysicalMemoryArea → PhysicalMemoryArea}

theorem PhysTiles.bytes_eq (P : PhysTiles m U) (h : m.get? k = some a) (hle : k ≤ p)
    (hlt : p < k + a.size) : bytes m p = some (a.base + (p - k), a.label) :=
  P.tiles.view_eq h hle hlt

theorem PhysMapOk.bytes_eq (P : PhysMapOk m U) (h : m.get? k = some a) (hle : k ≤ p)
    (hlt : p < k + a.size) : bytes m p = some (p, a.label) := by
  rw [P.toPhysTiles.bytes_eq h hle hlt, P.base_eq h, Nat.add_sub_cancel' hle]

theorem PhysMapOk.labels_eq (P : PhysMapOk m U) (h : m.get? k = some a) (hle : k ≤ p)
    (hlt : p < k + a.size) : labels m p = some a.label := by
  rw [labels, P.bytes_eq h hle hlt, Option.map_some]

theorem PhysMapOk.bytes_eq_labels (P : PhysMapOk m U) (p : ℕ) :
    bytes m p = (labels m p).map fun l => (p, l) := by
  by_cases hp : p ∈ U
  · obtain ⟨k, a, h, hle, hlt⟩ := (P.tiles.mem_iff p).1 hp
    rw [P.labels_eq h hle hlt, P.bytes_eq h hle hlt, Option.map_some]
  · rw [labels, bytes, P.tiles.view_eq_none hp]
    rfl

theorem PhysTiles.labels_isSome_iff (P : PhysTiles m U) : (labels m p).isSome ↔ p ∈ U := by
  rw [labels, Option.isSome_map, bytes, P.tiles.view_isSome_iff]

theorem PhysMapOk.end_le (P : PhysMapOk m U) (h : m.get? k = some a) :
    k + a.size ≤ 9223372036854775808 :=
  P.base_eq h ▸ P.bounded h

theorem PhysMapOk.lt_of_mem (P : PhysMapOk m U) (hp : p ∈ U) : p < 9223372036854775808 := by
  obtain ⟨k, a, h, _, hlt⟩ := (P.tiles.mem_iff p).1 hp
  have := P.end_le h
  omega

/-! ### Cutting -/

/-- `m'` holds the same bytes as `m`, cut into areas in another way. -/
structure Recut (U : Set ℕ) (m m' : PhysMap) : Prop where
  ok : PhysMapOk m' U
  bytes_eq : ∀ p, bytes m' p = bytes m p

theorem Recut.refl (P : PhysMapOk m U) : Recut U m m := ⟨P, fun _ => rfl⟩

theorem Recut.trans {m₁ m₂ m₃ : PhysMap} (h : Recut U m₁ m₂) (h' : Recut U m₂ m₃) :
    Recut U m₁ m₃ :=
  ⟨h'.ok, fun p => (h'.bytes_eq p).trans (h.bytes_eq p)⟩

theorem splitPhysArea_eq (P : PhysMapOk m U) (h : m.get? k = some a) (off : ℕ) :
    splitPhysArea m k off =
      if off < a.size ∧ 0 < off then
        .ok ((m.insert k { a with size := off }).insert (k + off)
          { a with base := k + off, size := a.size - off }, k + off)
      else .error (.assertion "Assertion Failed!") := by
  have hend := P.end_le h
  have hbase := P.base_eq h
  simp only [splitPhysArea, deref, h, pure_bind]
  by_cases hoff : off < a.size ∧ 0 < off
  · have hadd : add64 a.base off = k + off := by rw [hbase, add64_eq (by omega)]
    have hsub : sub64 a.size off = a.size - off := sub64_eq (by omega) (by omega)
    have hnone : m.get? (k + off) = none :=
      P.tiles.get?_eq_none_of_mem h (by omega) (by omega)
    rw [OrderedMap.emplace_of_get?_eq_none]
    · simp [assertMsg, hoff, hadd, hsub, bind, Except.bind, pure, Except.pure]
    · rw [hadd, OrderedMap.get?_insert, if_neg (by omega), hnone]
  · simp [assertMsg, hoff, bind, Except.bind]

theorem splitPhysArea_ok {off : ℕ} {r : PhysMap × ℕ} (P : PhysMapOk m U)
    (h : m.get? k = some a) (hr : splitPhysArea m k off = .ok r) :
    off < a.size ∧ 0 < off ∧ r.2 = k + off ∧ Recut U m r.1 ∧
      ∀ x, r.1.get? x = if x = k + off then
          some { a with base := k + off, size := a.size - off }
        else if x = k then some { a with size := off } else m.get? x := by
  rw [splitPhysArea_eq P h] at hr
  split_ifs at hr with hoff
  obtain rfl := (Except.ok.inj hr).symm
  have hget : ∀ x, ((m.insert k { a with size := off }).insert (k + off)
      { a with base := k + off, size := a.size - off }).get? x = if x = k + off then
        some { a with base := k + off, size := a.size - off }
      else if x = k then some { a with size := off } else m.get? x := by
    intro x
    simp only [OrderedMap.get?_insert]
  have hend := P.end_le h
  have hbase := P.base_eq h
  have hsum : off + (a.size - off) = a.size := by omega
  refine ⟨hoff.1, hoff.2, rfl, ⟨⟨⟨?_, ?_⟩, ?_⟩, ?_⟩, hget⟩
  · exact P.tiles.cut (l := { a with size := off })
      (r := { a with base := k + off, size := a.size - off }) h hoff.2
      (Nat.sub_pos_of_lt hoff.1) hsum hget
  · intro x c hx
    rw [hget] at hx
    split_ifs at hx with h1 h2
    · cases hx
      change k + off + (a.size - off) ≤ _
      omega
    · cases hx
      change a.base + off ≤ _
      omega
    · exact P.bounded hx
  · intro x c hx
    rw [hget] at hx
    split_ifs at hx with h1 h2
    · cases hx
      exact h1.symm
    · cases hx
      exact hbase.trans h2.symm
    · exact P.base_eq hx
  · refine P.tiles.view_cut (l := { a with size := off })
      (r := { a with base := k + off, size := a.size - off }) h hoff.2
      (Nat.sub_pos_of_lt hoff.1) hsum hget (fun i _ => rfl) (fun i _ => ?_)
    simp [PhysicalMemoryArea.byte, PhysicalMemoryArea.label, hbase, Nat.add_assoc]

structure Carved (U : Set ℕ) (m : PhysMap) (addr size : ℕ) (m' : PhysMap) : Prop
    extends Recut U m m' where
  area : ∃ a, m'.get? addr = some a ∧ a.size = size
  key : ∀ x, (m'.get? x).isSome → (m.get? x).isSome ∨ x = addr ∨ x = addr + size
  inside : ∃ k a, m.get? k = some a ∧ k ≤ addr ∧ addr + size ≤ k + a.size

theorem findArea_eq_ok {α : Type*} {map : OrderedMap ℕ α} {target : ℕ} {e : ℕ × α} :
    findArea map target = .ok e ↔ map.floor target = some e := by
  unfold findArea
  cases map.floor target with
  | none => simp
  | some entry => simp

theorem deref_eq_ok {α : Type*} {map : OrderedMap ℕ α} {handle : ℕ} {a : α} :
    deref map handle = .ok a ↔ map.get? handle = some a := by
  unfold deref
  cases map.get? handle with
  | none => simp
  | some area => simp

theorem splitFront_ok {start : ℕ} {r : PhysMap × ℕ} (P : PhysMapOk m U)
    (h : m.get? k = some a)
    (hr : (if start ≠ 0 then splitPhysArea m k start else pure (m, k)) = .ok r) :
    start < a.size ∧ r.2 = k + start ∧ Recut U m r.1 ∧
      r.1.get? (k + start) = some { a with base := k + start, size := a.size - start } ∧
      ∀ x, (r.1.get? x).isSome → (m.get? x).isSome ∨ x = k + start := by
  by_cases hstart : start = 0
  · subst hstart
    obtain rfl : (m, k) = r := by simpa using hr
    refine ⟨P.tiles.pos h, rfl, Recut.refl P, ?_, fun x hx => .inl hx⟩
    have hbase := P.base_eq h
    subst hbase
    simpa using h
  · rw [if_pos hstart] at hr
    obtain ⟨hlt, -, hkey, hcut, hget⟩ := splitPhysArea_ok P h hr
    refine ⟨hlt, hkey, hcut, by rw [hget, if_pos rfl], fun x hx => ?_⟩
    rw [hget] at hx
    split_ifs at hx with h1 h2
    · exact .inr h1
    · exact .inl (h2 ▸ h ▸ rfl)
    · exact .inl hx

theorem splitBack_ok {stop : ℕ} (P : PhysMapOk m U) (h : m.get? k = some a)
    (hle : stop ≤ a.size)
    (hr : (if stop ≠ a.size then Prod.fst <$> splitPhysArea m k stop else pure m) = .ok m') :
    0 < stop ∧ Recut U m m' ∧ m'.get? k = some { a with size := stop } ∧
      ∀ x, (m'.get? x).isSome → (m.get? x).isSome ∨ x = k + stop := by
  by_cases hstop : stop = a.size
  · subst hstop
    obtain rfl : m = m' := by simpa using hr
    exact ⟨P.tiles.pos h, Recut.refl P, h, fun x hx => .inl hx⟩
  · rw [if_pos hstop] at hr
    obtain ⟨r, hsplit, rfl⟩ := Exec.map_eq_ok.1 hr
    obtain ⟨-, hpos, -, hcut, hget⟩ := splitPhysArea_ok P h hsplit
    refine ⟨hpos, hcut, by rw [hget, if_neg (by omega), if_pos rfl], fun x hx => ?_⟩
    rw [hget] at hx
    split_ifs at hx with h1 h2
    · exact .inr h1
    · exact .inl (h2 ▸ h ▸ rfl)
    · exact .inl hx

theorem carvePhysArea_ok {r : PhysMap × ℕ} (P : PhysMapOk m U)
    (haddr : addr < 18446744073709551616) (hsize : size < 18446744073709551616)
    (hr : carvePhysArea m addr size = .ok r) :
    r.2 = addr ∧ Carved U m addr size r.1 := by
  obtain ⟨⟨k, a⟩, hfloor, hr⟩ := Exec.bind_eq_ok.1 hr
  obtain ⟨_, hgetEnd, hr⟩ := Exec.bind_eq_ok.1 hr
  obtain ⟨_, hle, hr⟩ := Exec.bind_eq_ok.1 hr
  obtain ⟨_, hfit, hr⟩ := Exec.bind_eq_ok.1 hr
  obtain ⟨m₁, hback, hfront⟩ := Exec.bind_eq_ok.1 hr
  rw [assertMsg_eq_ok] at hle hfit
  obtain ⟨h, hkle, -⟩ := OrderedMap.floor_eq_some_iff.1 (findArea_eq_ok.1 hfloor)
  have hbase : a.base = k := P.base_eq h
  have hend := P.end_le h
  have hstart : sub64 addr a.base = addr - k := by rw [hbase, sub64_eq hkle haddr]
  rw [hstart] at hfit hback hfront
  obtain ⟨hpos, hcut₁, hget₁, hkey₁⟩ := splitBack_ok P h hfit hback
  obtain ⟨hlt, hr₂, hcut₂, hget₂, hkey₂⟩ := splitFront_ok hcut₁.ok hget₁ hfront
  -- the start lies before the end, so the end did not wrap around
  have hstop : add64 (addr - k) size = addr - k + size := by
    unfold add64 at hlt ⊢
    simp only at hlt
    omega
  rw [hstop] at hfit hpos hkey₁ hlt hget₂
  have haddr' : k + (addr - k) = addr := Nat.add_sub_cancel' hkle
  rw [haddr'] at hr₂ hget₂ hkey₂
  refine ⟨hr₂, hcut₁.trans hcut₂, ⟨_, hget₂, Nat.add_sub_cancel_left _ _⟩, fun x hx => ?_,
    ⟨k, a, h, hkle, by omega⟩⟩
  rcases hkey₂ x hx with hx | rfl
  · rcases hkey₁ x hx with hx | rfl
    · exact .inl hx
    · exact .inr (.inr (by omega))
  · exact .inr (.inl rfl)

theorem carvePhysArea_returns (P : PhysMapOk m U) (h : m.get? k = some a) (hle : k ≤ addr)
    (hpos : 0 < size) (hend : addr + size ≤ k + a.size) :
    ∃ m', carvePhysArea m addr size = .ok (m', addr) := by
  have hbound := P.end_le h
  have hbase := P.base_eq h
  have hfloor : findArea m addr = .ok (k, a) :=
    findArea_eq_ok.2 (P.tiles.floor_eq h hle (by omega))
  have hstart : sub64 addr a.base = addr - k := by rw [hbase, sub64_eq hle (by omega)]
  have hstop : add64 (addr - k) size = addr - k + size := add64_eq (by omega)
  have hgetEnd : addr ≤ a.getEnd := by
    rw [PhysicalMemoryArea.getEnd, hbase, add64_eq (by omega)]
    omega
  obtain ⟨m₁, hback⟩ : ∃ m₁, (if addr - k + size ≠ a.size then
      Prod.fst <$> splitPhysArea m k (addr - k + size) else pure m) = Except.ok m₁ := by
    by_cases hs : addr - k + size = a.size
    · exact ⟨m, by simp [hs, pure, Except.pure]⟩
    · rw [if_pos hs, splitPhysArea_eq P h, if_pos ⟨by omega, by omega⟩]
      exact ⟨_, rfl⟩
  obtain ⟨-, hcut₁, hget₁, -⟩ := splitBack_ok P h (by omega) hback
  obtain ⟨r, hfront⟩ : ∃ r, (if addr - k ≠ 0 then splitPhysArea m₁ k (addr - k)
      else pure (m₁, k)) = Except.ok r := by
    by_cases hs : addr - k = 0
    · exact ⟨(m₁, k), by simp [hs, pure, Except.pure]⟩
    · rw [if_pos hs, splitPhysArea_eq hcut₁.ok hget₁, if_pos ⟨by simp only; omega, by omega⟩]
      exact ⟨_, rfl⟩
  have hr : carvePhysArea m addr size = .ok r := by
    refine Exec.bind_eq_ok.2 ⟨_, hfloor, ?_⟩
    refine Exec.bind_eq_ok.2 ⟨(), assertMsg_eq_ok.2 hgetEnd, ?_⟩
    refine Exec.bind_eq_ok.2 ⟨(), assertMsg_eq_ok.2 (by omega), ?_⟩
    simp only [hstart, hstop]
    refine Exec.bind_eq_ok.2 ⟨(), assertMsg_eq_ok.2 (by omega), ?_⟩
    exact Exec.bind_eq_ok.2 ⟨m₁, hback, hfront⟩
  obtain ⟨hkey, -⟩ := carvePhysArea_ok P (by omega) (by omega) hr
  exact ⟨r.1, by rw [hr, ← hkey]⟩

/-! ### Merging -/

theorem canMergeWith_iff (ha : a.base + a.size ≤ 9223372036854775808) :
    a.canMergeWith b = true ↔ a.base + a.size = b.base ∧ a.label = b.label := by
  rw [PhysicalMemoryArea.canMergeWith, add64_eq (by omega)]
  simp only [PhysicalMemoryArea.label, Label.mk.injEq]
  split_ifs <;> simp_all

/-- Two bytes that follow each other physically and in `U` are neighbours: no two areas
of `m` can be merged across a hole. -/
def Seamless (U : Set ℕ) (m : PhysMap) : Prop :=
  ∀ p q x y, bytes m p = some x → bytes m q = some y → p < q →
    (∀ r, p < r → r < q → r ∉ U) → x.1 + 1 = y.1 → q = p + 1

theorem PhysMapOk.seamless (P : PhysMapOk m U) : Seamless U m := by
  intro p q x y hx hy _ _ hxy
  rw [P.bytes_eq_labels] at hx hy
  obtain ⟨_, _, rfl⟩ := Option.map_eq_some_iff.1 hx
  obtain ⟨_, _, rfl⟩ := Option.map_eq_some_iff.1 hy
  exact hxy.symm

theorem PhysTiles.seamless_of_convex (P : PhysTiles m U)
    (hU : ∀ p q r, p ∈ U → q ∈ U → p < r → r < q → r ∈ U) : Seamless U m := by
  intro p q x y hx hy hpq hgap _
  have hp : p ∈ U := P.tiles.view_isSome_iff.1 (by rw [← bytes, hx]; rfl)
  have hq : q ∈ U := P.tiles.view_isSome_iff.1 (by rw [← bytes, hy]; rfl)
  by_contra hne
  exact hgap (p + 1) (by omega) (by omega) (hU p q (p + 1) hp hq (by omega) (by omega))

theorem PhysTiles.contiguous (P : PhysTiles m U) (hs : Seamless U m)
    (h : m.get? k = some a) (h' : m.get? k' = some b) (hlt : k < k')
    (hnext : ∀ x c, m.get? x = some c → k < x → k' ≤ x) (hab : a.base + a.size = b.base) :
    k + a.size = k' := by
  have hpos := P.tiles.pos h
  have hpos' := P.tiles.pos h'
  have hdisj := P.tiles.disjoint h h' hlt
  have := hs (k + a.size - 1) k' _ _ (P.bytes_eq h (by omega) (by omega))
    (P.bytes_eq h' le_rfl (by omega)) (by omega) ?_ (by simp only; omega)
  · omega
  · intro r hr hr' hrU
    obtain ⟨x, c, hx, hxle, hxlt⟩ := (P.tiles.mem_iff r).1 hrU
    by_cases hkx : k < x
    · have := hnext x c hx hkx
      omega
    · by_cases hxk : x = k
      · subst hxk
        obtain rfl : c = a := by simpa [h] using hx.symm
        omega
      · have := P.tiles.disjoint hx h (by omega)
        omega

structure Coarser (U : Set ℕ) (m m' : PhysMap) : Prop where
  tiles : PhysTiles m' U
  bytes_eq : ∀ p, bytes m' p = bytes m p
  key : ∀ x, (m'.get? x).isSome → (m.get? x).isSome

theorem Coarser.refl (P : PhysTiles m U) : Coarser U m m := ⟨P, fun _ => rfl, fun _ h => h⟩

theorem Coarser.trans {m₁ m₂ m₃ : PhysMap} (h : Coarser U m₁ m₂) (h' : Coarser U m₂ m₃) :
    Coarser U m₁ m₃ :=
  ⟨h'.tiles, fun p => (h'.bytes_eq p).trans (h.bytes_eq p), fun x hx => h.key x (h'.key x hx)⟩

theorem Coarser.seamless (h : Coarser U m m') (hs : Seamless U m) : Seamless U m' := by
  intro p q x y hx hy
  rw [h.bytes_eq] at hx hy
  exact hs p q x y hx hy

theorem Coarser.ok (h : Coarser U m m') (P : PhysMapOk m U) : PhysMapOk m' U := by
  refine ⟨h.tiles, fun {k a} hk => ?_⟩
  have hb := h.tiles.bytes_eq hk le_rfl (by have := h.tiles.tiles.pos hk; omega)
  rw [h.bytes_eq, P.bytes_eq_labels] at hb
  obtain ⟨_, _, heq⟩ := Option.map_eq_some_iff.1 hb
  simpa using (congrArg Prod.fst heq).symm

theorem PhysTiles.joined (P : PhysTiles m U) (h : m.get? k = some a)
    (hb : m.get? (k + a.size) = some b) (hab : a.base + a.size = b.base)
    (hlabel : a.label = b.label)
    (hget : ∀ x, m'.get? x = if x = k + a.size then none
      else if x = k then some { a with size := a.size + b.size } else m.get? x) :
    Coarser U m m' := by
  have hbound := P.bounded hb
  refine ⟨⟨P.tiles.join h hb rfl hget, ?_⟩, ?_, fun x hx => ?_⟩
  · intro x c hx
    rw [hget] at hx
    split_ifs at hx with h1 h2
    · cases hx
      simp only
      omega
    · exact P.bounded hx
  · refine P.tiles.view_join h hb rfl hget (fun i _ => rfl) (fun i _ => ?_)
    have hlabel' : ({ a with size := a.size + b.size } : PhysicalMemoryArea).label = b.label :=
      hlabel
    simp only [PhysicalMemoryArea.byte, hlabel', Prod.mk.injEq, and_true]
    omega
  · rw [hget] at hx
    split_ifs at hx with h1 h2
    · cases hx
    · rw [h2, h]
      rfl
    · exact hx

theorem mergeNextPhys_ok (P : PhysTiles m U) (hs : Seamless U m) (h : m.get? k = some a) :
    Coarser U m (mergeNextPhys m k a).1 ∧
      (mergeNextPhys m k a).1.get? k = some (mergeNextPhys m k a).2 ∧
      ∀ x < k, (mergeNextPhys m k a).1.get? x = m.get? x := by
  have hbound := P.bounded h
  unfold mergeNextPhys
  split
  · next k' b hnext =>
      obtain ⟨hb, hlt, hmin⟩ := OrderedMap.next_eq_some_iff.1 hnext
      split_ifs with hmerge
      · obtain ⟨hab, hlabel⟩ := (canMergeWith_iff hbound).1 hmerge
        have hk' := P.contiguous hs h hb hlt hmin hab
        subst hk'
        have hboundb := P.bounded hb
        have hsize : add64 a.size b.size = a.size + b.size := add64_eq (by omega)
        simp only [hsize]
        refine ⟨P.joined h hb hab hlabel fun x => ?_, ?_, fun x hx => ?_⟩
        · simp only [OrderedMap.get?_erase, OrderedMap.get?_insert]
        · rw [OrderedMap.get?_erase, if_neg (by omega), OrderedMap.get?_insert, if_pos rfl]
        · rw [OrderedMap.get?_erase, if_neg (by omega), OrderedMap.get?_insert,
            if_neg (by omega)]
      · exact ⟨Coarser.refl P, h, fun _ _ => rfl⟩
  · exact ⟨Coarser.refl P, h, fun _ _ => rfl⟩

theorem mergePrevPhys_ok (P : PhysTiles m U) (hs : Seamless U m) (h : m.get? k = some a) :
    Coarser U m (mergePrevPhys m k a).1 ∧
      (∃ c, (mergePrevPhys m k a).1.get? (mergePrevPhys m k a).2 = some c ∧
        (mergePrevPhys m k a).2 ≤ k ∧ k < (mergePrevPhys m k a).2 + c.size) ∧
      (((mergePrevPhys m k a).1.get? k).isSome → ∀ x, 0 < k → bytes m (k - 1) = some x →
        ¬(x.1 + 1 = a.base ∧ x.2 = a.label)) ∧
      ∀ x < k, (m.get? x).isSome → ((mergePrevPhys m k a).1.get? x).isSome := by
  have hpos := P.tiles.pos h
  have hbound := P.bounded h
  have hkeep : ∃ c, m.get? k = some c ∧ k ≤ k ∧ k < k + c.size := ⟨a, h, le_rfl, by omega⟩
  unfold mergePrevPhys
  split
  · next k' b hprev =>
      obtain ⟨hb, hlt, hmax⟩ := OrderedMap.prev_eq_some_iff.1 hprev
      have hboundb := P.bounded hb
      have hposb := P.tiles.pos hb
      split_ifs with hmerge
      · obtain ⟨hba, hlabel⟩ := (canMergeWith_iff hboundb).1 hmerge
        have hk : k' + b.size = k := P.contiguous hs hb h hlt (fun x c hx hkx => by
          by_contra hxk
          have := hmax x c hx (by omega)
          omega) hba
        subst hk
        have hsize : add64 b.size a.size = b.size + a.size := add64_eq (by omega)
        simp only [hsize]
        refine ⟨P.joined hb h hba hlabel fun x => ?_,
          ⟨{ b with size := b.size + a.size }, ?_, by omega, ?_⟩, fun hx => ?_,
          fun x hx hkey => ?_⟩
        · simp only [OrderedMap.get?_erase, OrderedMap.get?_insert]
        · rw [OrderedMap.get?_erase, if_neg (by omega), OrderedMap.get?_insert, if_pos rfl]
        · simp only
          omega
        · simp at hx
        · rw [OrderedMap.get?_erase, if_neg (by omega), OrderedMap.get?_insert]
          split_ifs
          · rfl
          · exact hkey
      · refine ⟨Coarser.refl P, hkeep, fun _ x hk hx hcont => hmerge ?_, fun _ _ hx => hx⟩
        obtain ⟨c, d, hd, hcle, hclt, heq⟩ := P.tiles.view_eq_some_iff.1 hx
        have hck : c = k' := by
          have hle := hmax c d hd (by omega)
          by_contra hne
          have := P.tiles.disjoint hd hb (by omega)
          omega
        subst hck
        obtain rfl : b = d := by simpa [hd] using hb.symm
        have hend := P.tiles.disjoint hd h hlt
        rw [canMergeWith_iff hboundb]
        subst heq
        simp only [PhysicalMemoryArea.byte] at hcont
        exact ⟨by omega, hcont.2⟩
  · next hprev =>
      refine ⟨Coarser.refl P, hkeep, fun _ x hk hx => ?_, fun _ _ hx => hx⟩
      obtain ⟨c, d, hd, hcle, hclt, -⟩ := P.tiles.view_eq_some_iff.1 hx
      have := OrderedMap.prev_eq_none_iff.1 hprev c d hd
      omega

/-- `MergeAdjacent` always returns on an area of the map. It keeps every byte, adds no
key, drops none before `k`, and leaves `k` a key only when the byte before does not
continue into it. -/
theorem mergeAdjacentPhys_ok (P : PhysTiles m U) (hs : Seamless U m)
    (h : m.get? k = some a) :
    ∃ m' k', mergeAdjacentPhys m k = .ok (m', k') ∧ Coarser U m m' ∧
      (∃ c, m'.get? k' = some c ∧ k' ≤ k ∧ k < k' + c.size) ∧
      ((m'.get? k).isSome → ∀ x, 0 < k → bytes m (k - 1) = some x →
        ¬(x.1 + 1 = a.base ∧ x.2 = a.label)) ∧
      ∀ x < k, (m.get? x).isSome → (m'.get? x).isSome := by
  obtain ⟨hcoarse, hget, hbefore⟩ := mergeNextPhys_ok P hs h
  obtain ⟨hcoarse', hcover, hstart, hbefore'⟩ :=
    mergePrevPhys_ok hcoarse.tiles (hcoarse.seamless hs) hget
  refine ⟨_, _, ?_, hcoarse.trans hcoarse', hcover, fun hx x hk hb => ?_, fun x hx hkey =>
    hbefore' x hx (by rwa [hbefore x hx])⟩
  · exact Exec.bind_eq_ok.2 ⟨a, deref_eq_ok.2 h, rfl⟩
  · have heq : (mergeNextPhys m k a).2.base = a.base ∧
        (mergeNextPhys m k a).2.label = a.label := by
      unfold mergeNextPhys
      split
      · split <;> exact ⟨rfl, rfl⟩
      · exact ⟨rfl, rfl⟩
    rw [← heq.1, ← heq.2]
    exact hstart hx x hk (by rw [hcoarse.bytes_eq, hb])

/-! ### Relabelling -/

def Relabels (f : PhysicalMemoryArea → PhysicalMemoryArea) (g : Label → Label) : Prop :=
  ∀ a, (f a).base = a.base ∧ (f a).size = a.size ∧ (f a).label = g a.label

variable {g : Label → Label}

def relabel (g : Label → Label) (addr size : ℕ) (l : ℕ → Option Label) (p : ℕ) :
    Option Label :=
  if addr ≤ p ∧ p < addr + size then (l p).map g else l p

structure Relabelled (U : Set ℕ) (m : PhysMap) (addr size : ℕ) (g : Label → Label)
    (m' : PhysMap) : Prop where
  ok : PhysMapOk m' U
  labels_eq : ∀ p, labels m' p = relabel g addr size (labels m) p
  key : ∀ x, (m'.get? x).isSome → (m.get? x).isSome ∨ x = addr ∨ x = addr + size
  pos : 0 < size
  inside : ∃ k a, m.get? k = some a ∧ k ≤ addr ∧ addr + size ≤ k + a.size

theorem Coarser.labels_eq (h : Coarser U m m') (p : ℕ) : labels m' p = labels m p := by
  rw [labels, labels, h.bytes_eq]

theorem Recut.labels_eq (h : Recut U m m') (p : ℕ) : labels m' p = labels m p := by
  rw [labels, labels, h.bytes_eq]

theorem Relabelled.coarser {m₁ : PhysMap} (h : Relabelled U m addr size g m₁)
    (h' : Coarser U m₁ m') : Relabelled U m addr size g m' :=
  ⟨h'.ok h.ok, fun p => (h'.labels_eq p).trans (h.labels_eq p),
    fun x hx => h.key x (h'.key x hx), h.pos, h.inside⟩

theorem Relabelled.mem (h : Relabelled U m addr size g m') (P : PhysMapOk m U)
    (hle : addr ≤ p) (hlt : p < addr + size) : p ∈ U := by
  obtain ⟨k, a, hk, hkle, hend⟩ := h.inside
  exact P.tiles.mem_of_get? hk (by omega) (by omega)

theorem Carved.modify (h : Carved U m addr size m') (hf : Relabels f g) :
    Relabelled U m addr size g (m'.modify addr f) ∧
      ∃ a, m'.get? addr = some a ∧ a.size = size ∧
        (m'.modify addr f).get? addr = some (f a) := by
  obtain ⟨a, ha, rfl⟩ := h.area
  obtain ⟨hbase, hsize, hlabel⟩ := hf a
  have hget : ∀ x, (m'.modify addr f).get? x =
      if x = addr then some (f a) else m'.get? x := fun x => by
    rw [OrderedMap.get?_modify, ha, Option.map_some]
  have hpos := h.ok.tiles.pos ha
  have htiles : PhysMapOk (m'.modify addr f) U := by
    refine ⟨⟨h.ok.tiles.set ha hsize hget, fun {k b} hk => ?_⟩, fun {k b} hk => ?_⟩
    · rw [hget] at hk
      split_ifs at hk with h1
      · cases hk
        rw [hbase, hsize]
        exact h.ok.bounded ha
      · exact h.ok.bounded hk
    · rw [hget] at hk
      split_ifs at hk with h1
      · cases hk
        rw [hbase, h1]
        exact h.ok.base_eq ha
      · exact h.ok.base_eq hk
  refine ⟨⟨htiles, fun p => ?_, fun x hx => ?_, hpos, h.inside⟩, a, ha, rfl, ?_⟩
  · rw [relabel, ← h.labels_eq, labels, bytes, h.ok.tiles.view_set ha hsize hget]
    split_ifs with hp
    · rw [h.ok.labels_eq ha hp.1 hp.2, Option.map_some, Option.map_some, ← hlabel]
      rfl
    · rfl
  · rw [hget] at hx
    split_ifs at hx with h1
    · exact .inr (.inl h1)
    · exact h.key x hx
  · rw [hget, if_pos rfl]

/-- What a successful relabelling gives: besides the new labels, the area that was
carved, a handle on the merged area around it, and that the carved area starts a merged
one only when the byte before it has another label. -/
theorem relabelPhysArea_ok {handle : ℕ} {area : PhysicalMemoryArea} (P : PhysMapOk m U)
    (hf : Relabels f g) (haddr : addr < 18446744073709551616)
    (hsize : size < 18446744073709551616)
    (hr : relabelPhysArea m addr size f = .ok (m', handle, area)) :
    Relabelled U m addr size g m' ∧
      (area.base = addr ∧ area.size = size ∧
        ∀ p, addr ≤ p → p < addr + size → labels m' p = some area.label) ∧
      (∃ c, m'.get? handle = some c ∧ handle ≤ addr ∧ addr < handle + c.size) ∧
      ((m'.get? addr).isSome → 0 < addr → labels m (addr - 1) ≠ some area.label) := by
  obtain ⟨⟨m₁, h₁⟩, hcarve, hrest⟩ := Exec.bind_eq_ok.1 hr
  obtain ⟨hkey, hcarved⟩ := carvePhysArea_ok P haddr hsize hcarve
  obtain rfl : h₁ = addr := hkey
  obtain ⟨hrel, a, ha, hasize, hget⟩ := hcarved.modify hf
  obtain ⟨area', harea, hrest⟩ := Exec.bind_eq_ok.1 hrest
  obtain rfl : f a = area' := Option.some.inj (hget.symm.trans (deref_eq_ok.1 harea))
  obtain ⟨m₂, h₂, hmerge, hcoarse, hcover, hstart, -⟩ :=
    mergeAdjacentPhys_ok hrel.ok.toPhysTiles hrel.ok.seamless hget
  obtain ⟨⟨m₃, h₃⟩, hmerge', hrest⟩ := Exec.bind_eq_ok.1 hrest
  obtain ⟨rfl, rfl⟩ : m₂ = m₃ ∧ h₂ = h₃ := by simpa [hmerge] using hmerge'
  obtain ⟨rfl, rfl, rfl⟩ : m₂ = m' ∧ h₂ = handle ∧ f a = area := by
    simpa using hrest
  have hbase : (f a).base = h₁ := hrel.ok.base_eq hget
  have hfsize : (f a).size = size := (hf a).2.1.trans hasize
  have hpos := hrel.pos
  refine ⟨hrel.coarser hcoarse, ⟨hbase, hfsize, fun p hp hp' => ?_⟩, hcover,
    fun hx hlt hlabel => ?_⟩
  · rw [hcoarse.labels_eq, hrel.ok.labels_eq hget hp (by omega)]
  · have hl : labels (m₁.modify h₁ f) (h₁ - 1) = some (f a).label := by
      rw [hrel.labels_eq, relabel, if_neg (by omega), hlabel]
    have hb := hrel.ok.bytes_eq_labels (h₁ - 1)
    rw [hl, Option.map_some] at hb
    refine hstart hx _ hlt hb ⟨?_, rfl⟩
    simp only [hbase]
    omega

theorem relabelPhysArea_returns (P : PhysMapOk m U) (hf : Relabels f g)
    (h : m.get? k = some a) (hle : k ≤ addr) (hpos : 0 < size)
    (hend : addr + size ≤ k + a.size) : ∃ r, relabelPhysArea m addr size f = .ok r := by
  have hbound := P.end_le h
  obtain ⟨m₁, hcarve⟩ := carvePhysArea_returns P h hle hpos hend
  obtain ⟨-, hcarved⟩ := carvePhysArea_ok P (by omega) (by omega) hcarve
  obtain ⟨hrel, b, -, -, hget⟩ := hcarved.modify hf
  obtain ⟨m₂, h₂, hmerge, -⟩ :=
    mergeAdjacentPhys_ok hrel.ok.toPhysTiles hrel.ok.seamless hget
  exact ⟨(m₂, h₂, f b), Exec.bind_eq_ok.2 ⟨_, hcarve,
    Exec.bind_eq_ok.2 ⟨_, deref_eq_ok.2 hget, Exec.bind_eq_ok.2 ⟨_, hmerge, rfl⟩⟩⟩⟩

/-! ### Effects

Most operations relabel several ranges one after the other. `PhysEffect` is what a
sequence of relabellings does: the bytes of a set `R` get a new label, and new cuts are
made only at the borders of `R`. -/

structure PhysEffect (U : Set ℕ) (m : PhysMap) (R : Set ℕ) (g : Label → Label)
    (m' : PhysMap) : Prop where
  ok : PhysMapOk m' U
  labels_in : ∀ p ∈ R, labels m' p = (labels m p).map g
  labels_out : ∀ p ∉ R, labels m' p = labels m p
  key : ∀ x, (m'.get? x).isSome → (m.get? x).isSome ∨ ∃ p ∈ R, x = p ∨ x = p + 1
  subset : R ⊆ U

theorem PhysEffect.refl (P : PhysMapOk m U) : PhysEffect U m ∅ g m :=
  ⟨P, fun _ hp => absurd hp (Set.notMem_empty _), fun _ _ => rfl, fun _ hx => .inl hx,
    Set.empty_subset U⟩

theorem Relabelled.effect (h : Relabelled U m addr size g m') (P : PhysMapOk m U) :
    PhysEffect U m (Set.Ico addr (addr + size)) g m' := by
  have hpos := h.pos
  refine ⟨h.ok, fun p hp => ?_, fun p hp => ?_, fun x hx => ?_, fun p hp => ?_⟩
  · rw [h.labels_eq, relabel]
    exact if_pos hp
  · rw [h.labels_eq, relabel]
    exact if_neg hp
  · rcases h.key x hx with hx | rfl | rfl
    · exact .inl hx
    · exact .inr ⟨x, ⟨le_rfl, by omega⟩, .inl rfl⟩
    · exact .inr ⟨addr + size - 1, ⟨by omega, by omega⟩, .inr (by omega)⟩
  · exact h.mem P hp.1 hp.2

theorem PhysEffect.trans {m₁ m₂ m₃ : PhysMap} {R R' : Set ℕ} (hg : ∀ l, g (g l) = g l)
    (h : PhysEffect U m₁ R g m₂) (h' : PhysEffect U m₂ R' g m₃) :
    PhysEffect U m₁ (R ∪ R') g m₃ := by
  refine ⟨h'.ok, fun p hp => ?_, fun p hp => ?_, fun x hx => ?_,
    Set.union_subset h.subset h'.subset⟩
  · by_cases hR' : p ∈ R'
    · rw [h'.labels_in p hR']
      by_cases hR : p ∈ R
      · rw [h.labels_in p hR, Option.map_map]
        congr 1
        funext l
        exact hg l
      · rw [h.labels_out p hR]
    · have hR : p ∈ R := hp.resolve_right hR'
      rw [h'.labels_out p hR', h.labels_in p hR]
  · rw [Set.mem_union, not_or] at hp
    rw [h'.labels_out p hp.2, h.labels_out p hp.1]
  · rcases h'.key x hx with hx | ⟨p, hp, hx⟩
    · rcases h.key x hx with hx | ⟨p, hp, hx⟩
      · exact .inl hx
      · exact .inr ⟨p, .inl hp, hx⟩
    · exact .inr ⟨p, .inr hp, hx⟩

theorem PhysEffect.congr {R R' : Set ℕ} (h : PhysEffect U m R g m') (hR : R = R') :
    PhysEffect U m R' g m' :=
  hR ▸ h

/-- No area of `m` starts strictly inside `[b, e)`: the range lies in one area. -/
def Unbroken (m : PhysMap) (b e : ℕ) : Prop := ∀ x, b < x → x < e → m.get? x = none

theorem Unbroken.inside {e : ℕ} (P : PhysTiles m U) (h : Unbroken m addr e) (hlt : addr < e)
    (hU : ∀ p, addr ≤ p → p < e → p ∈ U) :
    ∃ k a, m.get? k = some a ∧ k ≤ addr ∧ e ≤ k + a.size := by
  obtain ⟨k, a, hk, hle, hlt'⟩ := (P.tiles.mem_iff addr).1 (hU addr le_rfl hlt)
  refine ⟨k, a, hk, hle, ?_⟩
  by_contra hend
  obtain ⟨k', a', hk', hle', hlt''⟩ :=
    (P.tiles.mem_iff (k + a.size)).1 (hU _ (by omega) (by omega))
  have hne : k' ≠ k := by
    rintro rfl
    obtain rfl : a' = a := by simpa [hk] using hk'.symm
    omega
  have hkk' : k < k' := by
    rcases Nat.lt_or_gt_of_ne hne with hlt | hgt
    · have := P.tiles.disjoint hk' hk hlt
      omega
    · exact hgt
  have hend' := P.tiles.disjoint hk hk' hkk'
  rw [h k' (by omega) (by omega)] at hk'
  cases hk'

end OrbitConsole.Memory
