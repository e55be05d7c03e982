import Mathlib.Data.Set.Card
import Mathlib.Order.Interval.Set.Nat
import Mathlib.Order.CompletePartialOrder
import OrbitConsole.Core.Memory.State

/-!
# What unmapping does

`Unmapped L A s s'` says that `s'` is `s` with the range `A` unmapped: bytes of a
removable type become free, the direct memory behind them goes back to
Allocated, the flexible memory behind them goes back to Free. One round of
`UnmapBytesFromEntry` unmaps the part of one area; the loops put the rounds
together. The same lemmas say when unmapping returns: when the backing of the
bytes it meets is unshared.
-/

namespace OrbitConsole.Memory

open Exec

variable {L : Layout} {s s' : MemoryManager} {U : Set ℕ} {T : VMAType}

/-! ### Relabelling what backs a range of one area -/

section Relabel

variable {m₀ m : PhysMap} {v : VirtualMemoryArea} {start stop off len n x : ℕ}
  {a : PhysicalMemoryArea} {f : PhysicalMemoryArea → PhysicalMemoryArea}
  {g : Label → Label} {total : Prop}

/-- The backing of `[start, stop)` of an area can be relabelled piece by piece: no piece
is cut in the physical map and no physical byte occurs twice. -/
structure Releasable (U : Set ℕ) (m₀ : PhysMap) (v : VirtualMemoryArea) (start stop : ℕ) :
    Prop where
  unbroken : ∀ {x a}, v.physAreas.get? x = some a → Unbroken m₀ a.base (a.base + a.size)
  injective : ∀ {i j p l l'}, bytes v.physAreas i = some (p, l) →
    bytes v.physAreas j = some (p, l') → i = j
  subset : physRange v start stop ⊆ U

theorem relabelPiece_spec (P : PhysTiles v.physAreas {x | x < n})
    (hf : Relabels f g) (hg : ∀ l, g (g l) = g l)
    (hsafe : total → Releasable U m₀ v start stop)
    (heff : PhysEffect U m₀ (physRange v start off) g m)
    (h : v.physAreas.get? x = some a) (hstart : start ≤ off) (hle : x ≤ off)
    (hlen : 0 < len) (hend : off + len ≤ x + a.size) (hstop : off + len ≤ stop) :
    Spec total (relabelPhysArea m (a.base + (off - x)) len f) fun r =>
      PhysEffect U m₀ (physRange v start (off + len)) g r.1 := by
  have hbound := P.bounded h
  have hpiece := physRange_piece len P h hle hend
  have hunion : physRange v start (off + len) =
      physRange v start off ∪ Set.Ico (a.base + (off - x)) (a.base + (off - x) + len) := by
    rw [physRange_split hstart (Nat.le_add_right _ _), hpiece]
  refine ⟨fun ht => ?_, ?_⟩
  · obtain ⟨hunbroken, hinj, hsub⟩ := hsafe ht
    have hin : ∀ p, a.base + (off - x) ≤ p → p < a.base + (off - x) + len →
        p ∈ physRange v off (off + len) := by
      intro p hp hp'
      rw [hpiece]
      exact ⟨hp, hp'⟩
    -- an earlier piece has no byte in this one
    have hapart : ∀ p ∈ physRange v start off, p ∉ physRange v off (off + len) := by
      rintro p ⟨i, -, hi, l, hb⟩ ⟨j, hj, -, l', hb'⟩
      have := hinj hb hb'
      omega
    have hwhole : Unbroken m (a.base + (off - x)) (a.base + (off - x) + len) := by
      intro y hy hy'
      by_contra hne
      rcases heff.key y (Option.isSome_iff_ne_none.2 hne) with hk | ⟨p, hp, rfl | rfl⟩
      · rw [hunbroken h y (by omega) (by omega)] at hk
        cases hk
      · exact hapart y hp (hin y hy.le hy')
      · exact hapart p hp (hin p (by omega) (by omega))
    obtain ⟨k, b, hk, hkle, hkend⟩ := hwhole.inside heff.ok.toPhysTiles (by omega)
      fun p hp hp' => hsub (by
        rw [physRange_split hstart (show off ≤ stop by omega),
          physRange_split (Nat.le_add_right off len) hstop]
        exact .inr (.inl (hin p hp hp')))
    exact relabelPhysArea_returns heff.ok hf hk hkle hlen hkend
  · rintro ⟨m', handle, area⟩ hr
    obtain ⟨hrel, -⟩ := relabelPhysArea_ok heff.ok hf (by omega) (by omega) hr
    exact (heff.trans hg (hrel.effect heff.ok)).congr hunion.symm

end Relabel

/-! ### One round of `UnmapBytesFromEntry` -/

/-- What unmapping makes of a direct byte. -/
def Label.setDma (t : PhysicalMemoryType) (l : Label) : Label := { l with dmaType := t }

theorem relabels_setDma (t : PhysicalMemoryType) :
    Relabels (fun area => { area with dmaType := t }) (Label.setDma t) :=
  fun _ => ⟨rfl, rfl, rfl⟩

@[simp] theorem Label.setDma_setDma (t u : PhysicalMemoryType) (l : Label) :
    (l.setDma t).setDma u = l.setDma u := rfl

theorem sub64_sub64 (a b c : ℕ) : sub64 (sub64 a b) c = sub64 a (b + c) := by
  unfold sub64
  omega

@[simp] theorem sub64_zero {a : ℕ} (ha : a < 18446744073709551616) : sub64 a 0 = a :=
  sub64_eq (Nat.zero_le a) ha

/-- What giving back the memory behind the physical bytes `D` and `F` does to the state;
`n` flexible bytes are no longer used. -/
structure Released (L : Layout) (D F : Set ℕ) (n : ℕ) (s s' : MemoryManager) : Prop where
  dmem : PhysEffect L.direct s.dmemMap D (Label.setDma .allocated) s'.dmemMap
  fmem : PhysEffect L.flexible s.fmemMap F (Label.setDma .free) s'.fmemMap
  usage : s'.flexibleUsage = sub64 s.flexibleUsage n
  rest : s' = { s with
    vmaMap := s'.vmaMap
    dmemMap := s'.dmemMap
    fmemMap := s'.fmemMap
    flexibleUsage := s'.flexibleUsage }

theorem Released.refl (W : WellFormed L s) (hu : s.flexibleUsage < 18446744073709551616) :
    Released L ∅ ∅ 0 s s :=
  ⟨PhysEffect.refl W.dmem, PhysEffect.refl W.fmem, (sub64_zero hu).symm, rfl⟩

def physRangeOf (T : VMAType) (v : VirtualMemoryArea) (start stop : ℕ) : Set ℕ :=
  {p | v.type = T ∧ p ∈ physRange v start stop}

theorem physRangeOf_eq {v : VirtualMemoryArea} {start stop : ℕ} (h : v.type = T) :
    physRangeOf T v start stop = physRange v start stop := by
  ext p
  simp [physRangeOf, h]

theorem physRangeOf_ne {v : VirtualMemoryArea} {start stop : ℕ} (h : v.type ≠ T) :
    physRangeOf T v start stop = ∅ := by
  ext p
  simp [physRangeOf, h]

theorem releaseBytes_spec {v : VirtualMemoryArea} {start stop : ℕ} {total : Prop}
    (W : WellFormed L s) (hv : VmaOk v) (hsize : v.size ≤ 9223372036854775808)
    (husage : s.flexibleUsage < 18446744073709551616) (hpooled : v.type ≠ .pooled)
    (hstart : start ≤ stop) (hstop : stop ≤ v.size) (hpos : start < v.size)
    (hdirect : total → v.type = .direct → Releasable L.direct s.dmemMap v start stop)
    (hflexible : total → v.type = .flexible →
      Releasable L.flexible s.fmemMap v start stop) :
    Spec total (s.releaseBytes v start (stop - start)) fun s' =>
      Released L (physRangeOf .direct v start stop) (physRangeOf .flexible v start stop)
        (if v.type = .flexible then stop - start else 0) s s' := by
  have hnone : v.type ≠ .direct → v.type ≠ .flexible →
      Released L (physRangeOf .direct v start stop) (physRangeOf .flexible v start stop)
        (if v.type = .flexible then stop - start else 0) s s := by
    intro hd hf
    rw [physRangeOf_ne hd, physRangeOf_ne hf, if_neg hf]
    exact Released.refl W husage
  by_cases hb : hasPhysicalBacking v = true
  · have P := hv.backed hb
    -- the area covers offset 0, so the walk has an entry to start on
    have hentry : ∃ e b, v.physAreas.floor start = some (e, b) := by
      obtain ⟨x, a, hx, hle, hlt⟩ := (P.tiles.mem_iff start).1 hpos
      exact ⟨x, a, P.tiles.floor_eq hx hle hlt⟩
    obtain ⟨e, b, hfloor⟩ := hentry
    have hlen : 0 < v.physAreas.entries.length := by
      obtain ⟨he, -⟩ := OrderedMap.floor_eq_some_iff.1 hfloor
      exact List.length_pos_of_mem (OrderedMap.get?_eq_some_iff.1 he)
    rw [MemoryManager.releaseBytes, if_pos hlen]
    refine Spec.bind (Spec.of_ok (findArea_eq_ok.2 hfloor) rfl) ?_
    rintro _ rfl
    have htype : v.type = .direct ∨ v.type = .flexible := by
      simp only [hasPhysicalBacking, Bool.or_eq_true, decide_eq_true_eq] at hb
      tauto
    refine Spec.bind (walkPhysAreas_spec (fun pos s' =>
      Released L (physRangeOf .direct v start pos) (physRangeOf .flexible v start pos)
        (if v.type = .flexible then pos - start else 0) s s')
      P hsize hfloor hstart hstop ?_ ?_) ?_
    · simp only [physRangeOf, physRange_self, Set.mem_empty_iff_false, and_false,
        Set.ofPred_false, Nat.sub_self, ite_self]
      exact Released.refl W husage
    · intro x a hx off len s₁ hso hxo hlen hend hle hinv
      rcases htype with htype | htype
      · have hne : v.type ≠ .flexible := by simp [htype]
        rw [physRangeOf_eq htype, physRangeOf_ne hne, if_neg hne] at hinv
        simp only [htype, releasePhys]
        refine Spec.bind (relabelPiece_spec P (relabels_setDma .allocated) (fun _ => rfl)
          (fun ht => hdirect ht htype) hinv.dmem hx hso hxo hlen hend hle) ?_
        rintro ⟨m', handle, area⟩ heff
        refine Spec.pure ?_
        rw [physRangeOf_eq htype, physRangeOf_ne hne, if_neg (by simp)]
        exact ⟨heff, hinv.fmem, hinv.usage, by rw [hinv.rest]⟩
      · have hne : v.type ≠ .direct := by simp [htype]
        rw [physRangeOf_ne hne, physRangeOf_eq htype, if_pos htype] at hinv
        simp only [htype, releasePhys]
        refine Spec.bind (relabelPiece_spec P (relabels_setDma .free) (fun _ => rfl)
          (fun ht => hflexible ht htype) hinv.fmem hx hso hxo hlen hend hle) ?_
        rintro ⟨m', handle, area⟩ heff
        refine Spec.pure ?_
        rw [physRangeOf_ne hne, physRangeOf_eq htype, if_pos (by simp)]
        refine ⟨hinv.dmem, heff, ?_, by rw [hinv.rest]⟩
        simp only [hinv.usage, sub64_sub64]
        congr 1
        omega
    · rintro ⟨s₁, left⟩ ⟨hleft, hinv⟩
      refine Spec.bind (assertMsg_spec fun _ => hleft) fun _ _ => ?_
      exact Spec.pure hinv
  · have hempty := hv.unbacked (by simpa using hb)
    have hlen : ¬ 0 < v.physAreas.entries.length := by
      rw [hempty]
      simp [OrderedMap.empty]
    rw [MemoryManager.releaseBytes, if_neg hlen]
    refine Spec.pure (hnone ?_ ?_) <;>
    · rintro h
      simp [hasPhysicalBacking, h] at hb

theorem releaseBytes_vmaMap {v : VirtualMemoryArea} {start n : ℕ}
    (h : s.releaseBytes v start n = .ok s') : s'.vmaMap = s.vmaMap := by
  have hbody : ∀ s pa len s', releasePhys v.type s pa len = .ok s' →
      s'.vmaMap = s.vmaMap := by
    intro s pa len s' h
    unfold releasePhys at h
    split at h
    · obtain ⟨r, -, h⟩ := bind_eq_ok.1 h
      cases h
      rfl
    · obtain ⟨r, -, h⟩ := bind_eq_ok.1 h
      cases h
      rfl
    · cases h
      rfl
  have hwalk : ∀ l n s r, walkPhysAreas (releasePhys v.type) start l n s = .ok r →
      r.1.vmaMap = s.vmaMap := by
    intro l
    induction l with
    | nil =>
        intro n s r h
        cases h
        rfl
    | cons e l ih =>
        intro n s r h
        obtain ⟨off, a⟩ := e
        rw [walkPhysAreas] at h
        split at h
        · cases h
          rfl
        · obtain ⟨s₁, hs₁, h⟩ := bind_eq_ok.1 h
          rw [ih _ _ _ h, hbody _ _ _ _ hs₁]
  unfold MemoryManager.releaseBytes at h
  split at h
  · obtain ⟨e, -, h⟩ := bind_eq_ok.1 h
    obtain ⟨⟨s₁, left⟩, hs₁, h⟩ := bind_eq_ok.1 h
    obtain ⟨-, -, h⟩ := bind_eq_ok.1 h
    cases h
    exact hwalk _ _ _ _ hs₁
  · cases h
    rfl

/-! ### The effect of unmapping -/

/-- A byte of a free area after unmapping. -/
def Cell.free : Cell := ⟨.free, MemoryProt.noAccess, "", none⟩

def Cell.Removable (c : Cell) : Prop := c.type ≠ .free ∧ c.type ≠ .pooled

def bytesOf (T : VMAType) (m : VMAMap) (A : Set ℕ) : Set ℕ :=
  {x | x ∈ A ∧ ∃ c, cells m x = some c ∧ c.type = T}

structure Unmapped (L : Layout) (A : Set ℕ) (s s' : MemoryManager) : Prop
    extends Released L (physOf .direct s.vmaMap A) (physOf .flexible s.vmaMap A)
      (bytesOf .flexible s.vmaMap A).ncard s s' where
  vma : VmaMapOk s'.vmaMap L.usable
  cells_in : ∀ x ∈ A, ∀ c, cells s.vmaMap x = some c → c.Removable →
    cells s'.vmaMap x = some Cell.free
  cells_out : ∀ x, (x ∈ A → ∀ c, cells s.vmaMap x = some c → ¬ c.Removable) →
    cells s'.vmaMap x = cells s.vmaMap x
  pieces : ∀ Q, SubClosed Q → AllPieces Q s.vmaMap → AllPieces Q s'.vmaMap

variable {A B : Set ℕ}

theorem Unmapped.wellFormed (h : Unmapped L A s s') (W : WellFormed L s) :
    WellFormed L s' := by
  refine ⟨h.vma, h.dmem.ok, h.fmem.ok, ?_, ?_⟩
  · rw [h.rest]
    exact W.direct_eq
  · rw [h.rest]
    exact W.flexible_eq

theorem Unmapped.usage_lt (h : Unmapped L A s s') :
    s'.flexibleUsage < 18446744073709551616 := by
  rw [h.usage]
  exact sub64_lt _ _

theorem Unmapped.cells_not_mem (h : Unmapped L A s s') {x : ℕ} (hx : x ∉ A) :
    cells s'.vmaMap x = cells s.vmaMap x :=
  h.cells_out x fun hA => absurd hA hx

theorem Unmapped.of_kept (W : WellFormed L s)
    (husage : s.flexibleUsage < 18446744073709551616)
    (h : ∀ x ∈ A, ∀ c, cells s.vmaMap x = some c → ¬ c.Removable) : Unmapped L A s s := by
  have hnone : ∀ T, T ≠ VMAType.free → T ≠ .pooled → bytesOf T s.vmaMap A = ∅ := by
    intro T hf hp
    ext x
    simp only [bytesOf, Set.mem_ofPred_eq, Set.mem_empty_iff_false, iff_false]
    rintro ⟨hx, c, hc, rfl⟩
    exact h x hx c hc ⟨hf, hp⟩
  have hphys : ∀ T, T ≠ VMAType.free → T ≠ .pooled → physOf T s.vmaMap A = ∅ := by
    intro T hf hp
    ext p
    simp only [Set.mem_empty_iff_false, iff_false]
    rintro ⟨x, hx, c, t, hc, rfl, -⟩
    exact h x hx c hc ⟨hf, hp⟩
  refine ⟨?_, W.vma, fun x hx c hc hr => absurd hr (h x hx c hc), fun _ _ => rfl,
    fun _ _ hm => hm⟩
  rw [hphys .direct (by simp) (by simp), hphys .flexible (by simp) (by simp),
    hnone .flexible (by simp) (by simp), Set.ncard_empty]
  exact Released.refl W husage

theorem bytesOf_congr {m m' : VMAMap} (h : ∀ x ∈ A, cells m' x = cells m x) :
    bytesOf T m' A = bytesOf T m A := by
  ext x
  refine and_congr_right fun hx => ?_
  rw [h x hx]

theorem ncard_bytesOf_union {m : VMAMap} (hAB : Disjoint A B) (hA : A.Finite)
    (hB : B.Finite) :
    (bytesOf T m (A ∪ B)).ncard = (bytesOf T m A).ncard + (bytesOf T m B).ncard := by
  rw [← Set.ncard_union_eq (hAB.mono (fun x hx => hx.1) fun x hx => hx.1)
    (hA.subset fun x hx => hx.1) (hB.subset fun x hx => hx.1)]
  congr 1
  ext x
  simp only [bytesOf, Set.mem_union, Set.mem_ofPred_eq, or_and_right]

theorem Unmapped.cell_of_type (h : Unmapped L A s s') (hT : T ≠ .free) {x : ℕ} {c : Cell}
    (hc : cells s'.vmaMap x = some c) (hcT : c.type = T) :
    cells s.vmaMap x = some c ∧ (x ∈ A → T = .pooled) := by
  by_cases hrem : x ∈ A ∧ ∃ d, cells s.vmaMap x = some d ∧ d.Removable
  · obtain ⟨hx, d, hd, hr⟩ := hrem
    rw [h.cells_in x hx d hd hr, Option.some.injEq] at hc
    subst hc
    exact absurd hcT.symm hT
  · have hkeep : ∀ d, x ∈ A → cells s.vmaMap x = some d → ¬ d.Removable :=
      fun d hx hd hr => hrem ⟨hx, d, hd, hr⟩
    have heq := h.cells_out x fun hx d hd => hkeep d hx hd
    rw [heq] at hc
    refine ⟨hc, fun hx => ?_⟩
    have hnot := hkeep c hx hc
    unfold Cell.Removable at hnot
    rw [hcT] at hnot
    tauto

theorem Unmapped.cell_iff (h : Unmapped L A s s') (hT : T ≠ .free) (hT' : T ≠ .pooled) {x : ℕ}
    {c : Cell} :
    cells s'.vmaMap x = some c ∧ c.type = T ↔
      x ∉ A ∧ cells s.vmaMap x = some c ∧ c.type = T := by
  constructor
  · rintro ⟨hc, hcT⟩
    obtain ⟨hc', hA⟩ := h.cell_of_type hT hc hcT
    exact ⟨fun hx => hT' (hA hx), hc', hcT⟩
  · rintro ⟨hx, hc, hcT⟩
    exact ⟨(h.cells_not_mem hx).trans hc, hcT⟩

theorem Unmapped.physOf_eq (h : Unmapped L A s s') (hT : T ≠ .free) (hT' : T ≠ .pooled) :
    physOf T s'.vmaMap B = physOf T s.vmaMap (B \ A) := by
  ext p
  constructor
  · rintro ⟨x, hx, c, t, hc, hcT, hp⟩
    obtain ⟨hxA, hc', -⟩ := (h.cell_iff hT hT').1 ⟨hc, hcT⟩
    exact ⟨x, ⟨hx, hxA⟩, c, t, hc', hcT, hp⟩
  · rintro ⟨x, ⟨hx, hxA⟩, c, t, hc, hcT, hp⟩
    obtain ⟨hc', -⟩ := (h.cell_iff hT hT').2 ⟨hxA, hc, hcT⟩
    exact ⟨x, hx, c, t, hc', hcT, hp⟩

theorem Unmapped.bytesOf_eq (h : Unmapped L A s s') (hT : T ≠ .free) (hT' : T ≠ .pooled) :
    bytesOf T s'.vmaMap B = bytesOf T s.vmaMap (B \ A) := by
  ext x
  constructor
  · rintro ⟨hx, c, hc⟩
    obtain ⟨hxA, hc'⟩ := (h.cell_iff hT hT').1 hc
    exact ⟨⟨hx, hxA⟩, c, hc'⟩
  · rintro ⟨⟨hx, hxA⟩, c, hc⟩
    exact ⟨hx, c, (h.cell_iff hT hT').2 ⟨hxA, hc⟩⟩

theorem Unmapped.trans {s₁ s₂ : MemoryManager} (h : Unmapped L A s s₁)
    (h' : Unmapped L B s₁ s₂) (hA : A.Finite) (hB : B.Finite) :
    Unmapped L (A ∪ B) s s₂ := by
  refine ⟨⟨?_, ?_, ?_, ?_⟩, h'.vma, ?_, ?_, fun Q hQ hm => h'.pieces Q hQ (h.pieces Q hQ hm)⟩
  · have hd := h'.dmem
    rw [h.physOf_eq VMAType.noConfusion VMAType.noConfusion] at hd
    rw [← Set.union_sdiff_self, physOf_union]
    exact h.dmem.trans (fun _ => rfl) hd
  · have hf := h'.fmem
    rw [h.physOf_eq VMAType.noConfusion VMAType.noConfusion] at hf
    rw [← Set.union_sdiff_self, physOf_union]
    exact h.fmem.trans (fun _ => rfl) hf
  · rw [h'.usage, h.usage, sub64_sub64, h.bytesOf_eq VMAType.noConfusion VMAType.noConfusion,
      ← ncard_bytesOf_union Set.disjoint_sdiff_right hA hB.sdiff, Set.union_sdiff_self]
  · rw [h'.rest, h.rest]
  · intro x hx c hc hr
    by_cases hxA : x ∈ A
    · have hfree := h.cells_in x hxA c hc hr
      rw [h'.cells_out x, hfree]
      rintro - d hd ⟨hd', -⟩
      rw [hfree, Option.some.injEq] at hd
      subst hd
      exact hd' rfl
    · exact h'.cells_in x (hx.resolve_left hxA) c ((h.cells_not_mem hxA).trans hc) hr
  · intro x hx
    have h₁ : cells s₁.vmaMap x = cells s.vmaMap x :=
      h.cells_out x fun hxA c hc => hx (.inl hxA) c hc
    rw [h'.cells_out x fun hxB c hc => hx (.inr hxB) c (h₁ ▸ hc), h₁]

/-! ### Carving, changing and merging a virtual range -/

theorem VmaCarved.area_eq {m m' : VMAMap} {addr n : ℕ} (h : VmaCarved U m addr n m') :
    ∃ v, m'.get? addr = some v ∧ v.size = n ∧ v.base = addr ∧ VmaOk v ∧ 0 < n ∧
      ∀ x, addr ≤ x → x < addr + n → cells m x = some (v.cell (x - addr)) := by
  obtain ⟨v, hv, hsize⟩ := h.area
  have hpos := h.ok.tiles.pos hv
  refine ⟨v, hv, hsize, h.ok.base_eq hv, h.ok.area hv, by omega, fun x hx hx' => ?_⟩
  rw [← h.cells_eq, h.ok.cells_eq hv hx (by omega)]

theorem VmaCarved.subset {m m' : VMAMap} {addr n : ℕ} (h : VmaCarved U m addr n m')
    (V : VmaMapOk m U) : Set.Ico addr (addr + n) ⊆ U := by
  obtain ⟨k, v, hk, hle, hend⟩ := h.inside
  rintro x ⟨hx, hx'⟩
  exact V.tiles.mem_of_get? hk (by omega) (by omega)

theorem modifyMerge_ok {m m' : VMAMap} {addr n : ℕ} {v : VirtualMemoryArea}
    {f : VirtualMemoryArea → VirtualMemoryArea} (h : VmaCarved U m addr n m')
    (hv : m'.get? addr = some v) (hbase : (f v).base = v.base) (hsize : (f v).size = v.size)
    (hok : VmaOk (f v)) :
    ∃ m'' k, mergeAdjacentVMA (m'.modify addr f) addr = .ok (m'', k) ∧ VmaMapOk m'' U ∧
      (∀ x, cells m'' x = if addr ≤ x ∧ x < addr + n then some ((f v).cell (x - addr))
        else cells m x) ∧
      (∀ Q, SubClosed Q → AllPieces Q m → (∀ x a, (f v).physAreas.get? x = some a →
        Q (f v).type a.base (a.base + a.size)) → AllPieces Q m'') ∧
      ∃ w, m''.get? k = some w ∧ k ≤ addr ∧ addr + n ≤ k + w.size := by
  obtain ⟨w, hw, hwn⟩ := h.area
  obtain rfl : v = w := by simpa [hv] using hw
  obtain ⟨V, hcells, hget⟩ := h.ok.modify hv hbase hsize hok
  obtain ⟨m'', k, w, hmerge, hcut, hk, hle, hend⟩ := mergeAdjacentVMA_ok V hget
  refine ⟨m'', k, hmerge, hcut.ok, fun x => ?_, fun Q hQ hm hf => ?_, w, hk, hle, by omega⟩
  · rw [hcut.cells_eq, hcells, hwn, h.cells_eq]
  · exact hcut.pieces Q hQ ((h.pieces Q hQ hm).modify hv hf)

/-! ### `UnmapBytesFromEntry` -/

theorem ico_offset {k addr n : ℕ} (h : k ≤ addr) :
    Set.Ico addr (addr + n) = Set.Ico (k + (addr - k)) (k + (addr - k + n)) := by
  congr 1 <;> omega

theorem VmaMapOk.physOf_ico {m : VMAMap} {k addr n : ℕ} {v : VirtualMemoryArea}
    (V : VmaMapOk m U) (h : m.get? k = some v) (hle : k ≤ addr) (hend : addr + n ≤ k + v.size) :
    physOf T m (Set.Ico addr (addr + n)) = physRangeOf T v (addr - k) (addr - k + n) := by
  rw [ico_offset hle]
  by_cases hT : v.type = T
  · rw [← hT, V.physOf_area h (by omega), physRangeOf_eq rfl]
  · rw [V.physOf_area_ne h (by omega) hT, physRangeOf_ne hT]

theorem VmaMapOk.bytesOf_area {m : VMAMap} {k addr n : ℕ} {v : VirtualMemoryArea}
    (V : VmaMapOk m U) (h : m.get? k = some v) (hle : k ≤ addr) (hend : addr + n ≤ k + v.size) :
    (bytesOf T m (Set.Ico addr (addr + n))).ncard = if v.type = T then n else 0 := by
  have hcell : ∀ x ∈ Set.Ico addr (addr + n), cells m x = some (v.cell (x - k)) := by
    rintro x ⟨hx, hx'⟩
    exact V.cells_eq h (by omega) (by omega)
  split_ifs with hT
  · have hset : bytesOf T m (Set.Ico addr (addr + n)) = Set.Ico addr (addr + n) := by
      ext x
      refine ⟨fun hx => hx.1, fun hx => ⟨hx, _, hcell x hx, hT⟩⟩
    rw [hset, Set.ncard_Ico_nat, Nat.add_sub_cancel_left]
  · have hset : bytesOf T m (Set.Ico addr (addr + n)) = ∅ := by
      ext x
      simp only [Set.mem_empty_iff_false, iff_false]
      rintro ⟨hx, c, hc, rfl⟩
      rw [hcell x hx, Option.some.injEq] at hc
      subst hc
      exact hT rfl
    rw [hset, Set.ncard_empty]

/-- What unmapping needs of a state to return. -/
structure Safe (L : Layout) (s : MemoryManager) : Prop where
  direct : Unshared .direct s.vmaMap s.dmemMap L.direct
  flexible : Unshared .flexible s.vmaMap s.fmemMap L.flexible

theorem Unshared.releasable {m : VMAMap} {pm : PhysMap} {R : Set ℕ} {k start stop : ℕ}
    {v : VirtualMemoryArea} (h : Unshared T m pm R) (V : VmaMapOk m U)
    (hk : m.get? k = some v) (hT : v.type = T) (hv : VmaOk v)
    (hb : hasPhysicalBacking v = true) (hstop : stop ≤ v.size) :
    Releasable R pm v start stop := by
  have P := hv.backed hb
  refine ⟨fun {x a} hx => h.unbroken k v hk x a hx hT, fun {i j p l l'} hi hj => ?_, ?_⟩
  · have hlt : ∀ {i p l}, bytes v.physAreas i = some (p, l) → i < v.size := by
      intro i p l hi
      exact P.tiles.view_isSome_iff.1 (by rw [← bytes, hi]; rfl)
    have hcell : ∀ {i p l}, bytes v.physAreas i = some (p, l) →
        cells m (k + i) = some (v.cell i) ∧ (v.cell i).backing = some (p, l.memoryType) := by
      intro i p l hi
      refine ⟨?_, ?_⟩
      · rw [V.cells_eq hk (by omega) (by have := hlt hi; omega), Nat.add_sub_cancel_left]
      · simp only [VirtualMemoryArea.cell, hi, Option.map_some]
        rfl
    have := h.injective (hcell hi).1 (hcell hj).1 hT hT (hcell hi).2 (hcell hj).2
    omega
  · rw [← V.physOf_area hk hstop, hT]
    exact h.subset _

theorem unmapBytesFromEntry_spec {addr n k : ℕ} {v : VirtualMemoryArea} {total : Prop}
    (W : WellFormed L s) (husage : s.flexibleUsage < 18446744073709551616)
    (haddr : addr < 18446744073709551616) (hn : n < 18446744073709551616)
    (hfloor : s.vmaMap.floor addr = some (k, v))
    (htotal : total → Safe L s ∧ addr < k + v.size ∧ 0 < n) :
    Spec total (s.unmapBytesFromEntry addr v n) fun r =>
      (r = (min (sub64 v.size (addr - k)) n, s) ∧ (v.type = .free ∨ v.type = .pooled)) ∨
      (r.1 = min (k + v.size - addr) n ∧ 0 < r.1 ∧ addr < k + v.size ∧
        Unmapped L (Set.Ico addr (addr + r.1)) s r.2) := by
  obtain ⟨hk, hle, -⟩ := OrderedMap.floor_eq_some_iff.1 hfloor
  have hbase := W.vma.base_eq hk
  have hbound := W.vma.bounded hk
  have hv := W.vma.area hk
  have hsub : sub64 addr v.base = addr - k := by rw [hbase, sub64_eq hle haddr]
  simp only [MemoryManager.unmapBytesFromEntry, hsub]
  by_cases htype : v.type = .free ∨ v.type = .pooled
  · rw [if_pos htype]
    exact Spec.pure (.inl ⟨rfl, htype⟩)
  rw [if_neg htype]
  rw [not_or] at htype
  by_cases hin : addr < k + v.size
  · have hlen : sub64 v.size (addr - k) = v.size - (addr - k) :=
      sub64_eq (by omega) (by omega)
    rw [hlen]
    generalize hu : min (v.size - (addr - k)) n = u
    have hstop : addr - k + u - (addr - k) = u := by omega
    have hrel : Spec total
        (s.releaseBytes v (addr - k) (addr - k + u - (addr - k))) _ :=
      releaseBytes_spec W hv (by omega) husage htype.2 (by omega) (by omega) (by omega)
      (fun ht hd => (htotal ht).1.direct.releasable W.vma hk hd hv
        (by simp [hasPhysicalBacking, hd]) (by omega))
      (fun ht hf => (htotal ht).1.flexible.releasable W.vma hk hf hv
        (by simp [hasPhysicalBacking, hf]) (by omega))
    rw [hstop] at hrel
    have hvma : ∀ s₁, s.releaseBytes v (addr - k) u = .ok s₁ → s₁.vmaMap = s.vmaMap :=
      fun s₁ => releaseBytes_vmaMap
    refine Spec.bind (Q := fun s₁ => s₁.vmaMap = s.vmaMap ∧ Released L
      (physRangeOf .direct v (addr - k) (addr - k + u))
      (physRangeOf .flexible v (addr - k) (addr - k + u))
      (if v.type = .flexible then u else 0) s s₁)
      ⟨hrel.1, fun s₁ hs₁ => ⟨hvma s₁ hs₁, hrel.2 s₁ hs₁⟩⟩ ?_
    rintro s₁ ⟨hvma₁, hrel₁⟩
    rw [hvma₁]
    have hcarve : Spec total (carveVMA s.vmaMap addr u) fun r =>
        r.2 = addr ∧ VmaCarved L.usable s.vmaMap addr u r.1 := by
      refine ⟨fun ht => ?_, fun r hr => carveVMA_ok W.vma haddr (by omega) hr⟩
      obtain ⟨-, -, hpos⟩ := htotal ht
      obtain ⟨m', hm'⟩ := carveVMA_returns W.vma hk hle (show 0 < u by omega) (by omega)
      exact ⟨_, hm'⟩
    refine Spec.bind hcarve ?_
    rintro ⟨m₁, h₁⟩ ⟨hh, hcarved⟩
    obtain rfl : h₁ = addr := hh
    obtain ⟨w, hw, hwsize, hwbase, -, hpos, -⟩ := hcarved.area_eq
    obtain ⟨m₂, k₂, hmerge, V₂, hcells, hpieces, -⟩ :=
      modifyMerge_ok (f := fun vma => { vma with
        type := .free
        prot := MemoryProt.noAccess
        physAreas := OrderedMap.empty
        disallowMerge := false
        name := "" }) hcarved hw rfl rfl ⟨fun h => by simp [hasPhysicalBacking] at h,
          fun _ => rfl⟩
    refine Spec.bind (Spec.of_ok hmerge rfl) ?_
    rintro _ rfl
    refine Spec.pure (.inr ⟨by simp only; omega, hpos, hin, ?_⟩)
    refine ⟨⟨?_, ?_, ?_, ?_⟩, V₂, fun x hx c _ _ => ?_, fun x hx => ?_,
      fun Q hQ hm => hpieces Q hQ hm fun x a hx => by cases hx⟩
    · rw [W.vma.physOf_ico hk hle (by omega)]
      exact hrel₁.dmem
    · rw [W.vma.physOf_ico hk hle (by omega)]
      exact hrel₁.fmem
    · rw [W.vma.bytesOf_area hk hle (by omega)]
      exact hrel₁.usage
    · rw [hrel₁.rest]
    · rw [hcells]
      exact if_pos hx
    · rw [hcells, if_neg]
      intro hx'
      refine hx hx' _ (W.vma.cells_eq hk (by omega) (by omega)) ⟨htype.1, htype.2⟩
  · refine ⟨fun ht => absurd (htotal ht).2.1 hin, fun r hr => ?_⟩
    -- beyond the area nothing can be carved
    obtain ⟨s₁, hs₁, hr⟩ := bind_eq_ok.1 hr
    obtain ⟨⟨m₁, h₁⟩, hcarve, -⟩ := bind_eq_ok.1 hr
    rw [releaseBytes_vmaMap hs₁] at hcarve
    obtain ⟨-, hcarved⟩ := carveVMA_ok W.vma haddr (by omega) hcarve
    obtain ⟨k', v', hk', hle', hend'⟩ := hcarved.inside
    obtain ⟨-, -, -, -, -, hpos, -⟩ := hcarved.area_eq
    have hfloor' := W.vma.tiles.floor_eq hk' hle' (by omega)
    rw [hfloor, Option.some.injEq, Prod.mk.injEq] at hfloor'
    obtain ⟨rfl, rfl⟩ := hfloor'
    omega

end OrbitConsole.Memory
