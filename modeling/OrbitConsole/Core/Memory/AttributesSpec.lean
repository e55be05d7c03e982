import OrbitConsole.Core.Memory.FreeSpec
import Mathlib.Order.CompletePartialOrder

/-!
# What changing attributes does

`Protect` and `NameVirtualRange` change the protection and the name of cells
and leave their type and backing alone. `SetDirectMemoryType` changes the
memory type of the Direct and Pooled cells of a range and of the direct memory
behind them.
-/

namespace OrbitConsole.Memory

open Exec

variable {L : Layout} {s s' : MemoryManager} {U A B : Set ℕ} {m m' : VMAMap}

/-! ### Protection and names -/

namespace Cell

def mapping (c : Cell) : VMAType × Option (ℕ × ℤ) := (c.type, c.backing)

end Cell

structure SameMapping (U : Set ℕ) (m m' : VMAMap) : Prop where
  ok : VmaMapOk m' U
  mapping_eq : ∀ x, (cells m' x).map Cell.mapping = (cells m x).map Cell.mapping
  pieces : ∀ Q, SubClosed Q → AllPieces Q m → AllPieces Q m'

theorem SameMapping.refl (V : VmaMapOk m U) : SameMapping U m m :=
  ⟨V, fun _ => rfl, fun _ _ h => h⟩

theorem SameMapping.trans {m₁ m₂ m₃ : VMAMap} (h : SameMapping U m₁ m₂)
    (h' : SameMapping U m₂ m₃) : SameMapping U m₁ m₃ :=
  ⟨h'.ok, fun x => (h'.mapping_eq x).trans (h.mapping_eq x),
    fun Q hQ hm => h'.pieces Q hQ (h.pieces Q hQ hm)⟩

theorem VmaRecut.sameMapping (h : VmaRecut U m m') : SameMapping U m m' :=
  ⟨h.ok, fun x => by rw [h.cells_eq], h.pieces⟩

/-- `f` changes the protection or the name of an area only. -/
structure Relabelling (f : VirtualMemoryArea → VirtualMemoryArea) : Prop where
  base : ∀ v, (f v).base = v.base
  size : ∀ v, (f v).size = v.size
  type : ∀ v, (f v).type = v.type
  physAreas : ∀ v, (f v).physAreas = v.physAreas

theorem Relabelling.vmaOk {f : VirtualMemoryArea → VirtualMemoryArea} (hf : Relabelling f)
    {v : VirtualMemoryArea} (hv : VmaOk v) : VmaOk (f v) := by
  have hb : hasPhysicalBacking (f v) = hasPhysicalBacking v := by
    unfold hasPhysicalBacking
    rw [hf.type]
  refine ⟨fun h => ?_, fun h => ?_⟩
  · rw [hf.physAreas, hf.size]
    exact hv.backed (hb ▸ h)
  · rw [hf.physAreas]
    exact hv.unbacked (hb ▸ h)

theorem Relabelling.modify {f : VirtualMemoryArea → VirtualMemoryArea} (hf : Relabelling f)
    {k : ℕ} {v : VirtualMemoryArea} (V : VmaMapOk m U) (h : m.get? k = some v) :
    SameMapping U m (m.modify k f) := by
  obtain ⟨V', hcells, -⟩ := V.modify h (hf.base v) (hf.size v) (hf.vmaOk (V.area h))
  refine ⟨V', fun x => ?_, fun Q hQ hm => hm.modify h ?_⟩
  · rw [hcells]
    split
    · next hx =>
        rw [V.cells_eq h hx.1 hx.2]
        simp [Cell.mapping, VirtualMemoryArea.cell, hf.type, hf.physAreas]
    · rfl
  · rw [hf.type, hf.physAreas]
    exact hm k v h

theorem mergeAdjacentVMA_recut {k : ℕ} {r : VMAMap × ℕ} (V : VmaMapOk m U)
    (h : mergeAdjacentVMA m k = .ok r) : VmaRecut U m r.1 := by
  obtain ⟨v, hv, -⟩ := bind_eq_ok.1 h
  obtain ⟨m', k', v', hmerge, hcut, -⟩ := mergeAdjacentVMA_ok V (deref_eq_ok.1 hv)
  obtain rfl : (m', k') = r := Except.ok.inj (hmerge.symm.trans h)
  exact hcut

theorem SameMapping.merge {k : ℕ} {r : VMAMap × ℕ} (h : SameMapping U m m')
    (hmerge : mergeAdjacentVMA m' k = .ok r) : SameMapping U m r.1 :=
  h.trans (mergeAdjacentVMA_recut h.ok hmerge).sameMapping

theorem relabelling_prot (prot : MemoryProt) :
    Relabelling fun newVma => { newVma with prot := prot } :=
  ⟨fun _ => rfl, fun _ => rfl, fun _ => rfl, fun _ => rfl⟩

theorem relabelling_name (name : String) :
    Relabelling fun newVma => { newVma with name := name } :=
  ⟨fun _ => rfl, fun _ => rfl, fun _ => rfl, fun _ => rfl⟩

theorem sameMapping_of_carve {f : VirtualMemoryArea → VirtualMemoryArea} {addr size : ℕ}
    {m₁ : VMAMap} {handle : ℕ} (hf : Relabelling f) (V : VmaMapOk m U)
    (haddr : addr < 18446744073709551616) (hsize : size < 18446744073709551616)
    (hcarve : carveVMA m addr size = .ok (m₁, handle)) :
    SameMapping U m (m₁.modify handle f) := by
  obtain ⟨hhandle, hcarved⟩ := carveVMA_ok V haddr hsize hcarve
  simp only at hhandle hcarved
  subst hhandle
  obtain ⟨v, hv, -⟩ := hcarved.area
  exact hcarved.toVmaRecut.sameMapping.trans (hf.modify hcarved.ok hv)

theorem protectBytes_ok {addr size : ℕ} {v : VirtualMemoryArea} {prot : MemoryProt}
    {r : ℕ × MemoryManager} (V : VmaMapOk s.vmaMap U) (haddr : addr < 18446744073709551616)
    (hsize : size < 18446744073709551616) (h : s.protectBytes addr v size prot = .ok r) :
    SameMapping U s.vmaMap r.2.vmaMap ∧ r.2 = { s with vmaMap := r.2.vmaMap } := by
  unfold MemoryManager.protectBytes at h
  simp only at h
  split at h
  · cases h
    exact ⟨SameMapping.refl V, rfl⟩
  · obtain ⟨⟨m₁, handle⟩, hcarve, h⟩ := bind_eq_ok.1 h
    obtain ⟨⟨m₂, k⟩, hmerge, h⟩ := bind_eq_ok.1 h
    cases h
    refine ⟨SameMapping.merge ?_ hmerge, rfl⟩
    exact sameMapping_of_carve (relabelling_prot _) V haddr (by omega) hcarve

theorem protectLoop_ok {addr size : ℕ} {prot : MemoryProt} (rounds done : ℕ)
    {r : ℤ × MemoryManager} (V : VmaMapOk s.vmaMap U)
    (h : MemoryManager.protectLoop addr size prot rounds done s = .ok r) :
    SameMapping U s.vmaMap r.2.vmaMap ∧ r.2 = { s with vmaMap := r.2.vmaMap } := by
  induction rounds generalizing done s with
  | zero => cases h
  | succ rounds ih =>
      rw [MemoryManager.protectLoop] at h
      split at h
      · obtain ⟨⟨k, v⟩, -, h⟩ := bind_eq_ok.1 h
        obtain ⟨⟨n, s₁⟩, hbytes, h⟩ := bind_eq_ok.1 h
        obtain ⟨hsame, hrest⟩ := protectBytes_ok V (add64_lt _ _) (sub64_lt _ _) hbytes
        simp only at h
        split at h
        · rw [pure_eq_ok] at h
          rw [← h]
          exact ⟨hsame, hrest⟩
        · obtain ⟨hsame', hrest'⟩ := ih _ hsame.ok h
          exact ⟨hsame.trans hsame', hrest'.trans (by rw [hrest])⟩
      · cases h
        exact ⟨SameMapping.refl V, rfl⟩

theorem protect_ok {addr size : ℕ} {prot : MemoryProt} {r : ℤ × MemoryManager}
    (V : VmaMapOk s.vmaMap U) (h : s.protect addr size prot = .ok r) :
    SameMapping U s.vmaMap r.2.vmaMap ∧ r.2 = { s with vmaMap := r.2.vmaMap } := by
  unfold MemoryManager.protect at h
  split at h
  · cases h
    exact ⟨SameMapping.refl V, rfl⟩
  · obtain ⟨_, -, h⟩ := bind_eq_ok.1 h
    exact protectLoop_ok _ _ V h

theorem nameArea_ok {name : String} {handle addr size : ℕ} {r : VMAMap × ℕ} (V : VmaMapOk m U)
    (haddr : addr < 18446744073709551616) (hsize : size < 18446744073709551616)
    (h : MemoryManager.nameArea m name handle addr size = .ok r) : SameMapping U m r.1 := by
  unfold MemoryManager.nameArea at h
  obtain ⟨v, hv, h⟩ := bind_eq_ok.1 h
  split at h
  · cases h
    exact SameMapping.refl V
  · split at h
    · obtain ⟨⟨m₁, handle'⟩, hcarve, h⟩ := bind_eq_ok.1 h
      cases h
      exact sameMapping_of_carve (relabelling_name name) V haddr hsize hcarve
    · cases h
      exact (relabelling_name name).modify V (deref_eq_ok.1 hv)

theorem nameLoop_ok {name : String} (rounds : ℕ) {handle : Option ℕ} {addr size : ℕ}
    (V : VmaMapOk m U) (haddr : addr < 18446744073709551616)
    (hsize : size < 18446744073709551616)
    (h : MemoryManager.nameLoop name rounds handle addr size m = .ok m') :
    SameMapping U m m' := by
  induction rounds generalizing handle addr size m with
  | zero =>
      cases handle with
      | none =>
          cases h
          exact SameMapping.refl V
      | some handle => cases h
  | succ rounds ih =>
      cases handle with
      | none =>
          cases h
          exact SameMapping.refl V
      | some handle =>
          rw [MemoryManager.nameLoop] at h
          split at h
          · cases h
            exact SameMapping.refl V
          · obtain ⟨v, -, h⟩ := bind_eq_ok.1 h
            obtain ⟨⟨m₁, k₁⟩, hname, h⟩ := bind_eq_ok.1 h
            obtain ⟨⟨m₂, k₂⟩, hmerge, h⟩ := bind_eq_ok.1 h
            obtain ⟨w, -, h⟩ := bind_eq_ok.1 h
            have hsame := nameArea_ok V haddr (by omega) hname
            have hsame' := hsame.merge hmerge
            exact hsame'.trans (ih hsame'.ok (add64_lt _ _) (sub64_lt _ _) h)

theorem nameVirtualRange_ok {addr size : ℕ} {name : String} (V : VmaMapOk s.vmaMap U)
    (haddr : addr < 18446744073709551616) (hsize : size < 18446744073709551616)
    (h : s.nameVirtualRange addr size name = .ok s') :
    SameMapping U s.vmaMap s'.vmaMap ∧ s' = { s with vmaMap := s'.vmaMap } := by
  unfold MemoryManager.nameVirtualRange at h
  obtain ⟨_, -, h⟩ := bind_eq_ok.1 h
  obtain ⟨⟨k, v⟩, -, h⟩ := bind_eq_ok.1 h
  obtain ⟨m', hm', h⟩ := bind_eq_ok.1 h
  cases h
  exact ⟨nameLoop_ok _ V ((alignDown_le _ _).trans_lt haddr) (alignUp_lt hsize) hm', rfl⟩

/-! ### Memory types -/

def Label.setType (t : ℤ) (l : Label) : Label := { l with memoryType := t }

theorem relabels_setType (t : ℤ) :
    Relabels (fun area => { area with memoryType := t }) (Label.setType t) :=
  fun _ => ⟨rfl, rfl, rfl⟩

namespace Cell

def Typed (c : Cell) : Prop := c.type = .direct ∨ c.type = .pooled

instance (c : Cell) : Decidable c.Typed := inferInstanceAs (Decidable (_ ∨ _))

def place (c : Cell) : VMAType × Option ℕ := (c.type, c.backing.map Prod.fst)

def setType (t : ℤ) (c : Cell) : Cell := { c with backing := c.backing.map fun b => (b.1, t) }

@[simp] theorem place_setType (t : ℤ) (c : Cell) : (c.setType t).place = c.place := by
  simp [place, setType, Function.comp_def]

end Cell

def runBytes (l : List (ℕ × PhysicalMemoryArea)) : Set ℕ :=
  {p | ∃ e ∈ l, e.2.base ≤ p ∧ p < e.2.base + e.2.size}

theorem retypePhysAreas_ok {t : ℤ} (l : List (ℕ × PhysicalMemoryArea)) {pa pa' dm dm' : PhysMap}
    (P : PhysMapOk dm U) (hl : l.Pairwise fun e e' => e.1 < e'.1)
    (hbound : ∀ e ∈ l, e.2.base < 18446744073709551616 ∧ e.2.size < 18446744073709551616)
    (h : MemoryManager.retypePhysAreas t l pa dm = .ok (pa', dm')) :
    PhysEffect U dm (runBytes l) (Label.setType t) dm' ∧
      (∀ x, pa'.get? x = if ∃ e ∈ l, e.1 = x then
        (pa.get? x).map fun area => { area with memoryType := t } else pa.get? x) ∧
      ∀ x, (dm'.get? x).isSome → (dm.get? x).isSome ∨
        ∃ e ∈ l, x = e.2.base ∨ x = e.2.base + e.2.size := by
  induction l generalizing pa dm with
  | nil =>
      cases h
      refine ⟨(PhysEffect.refl P).congr ?_, fun x => by simp, fun x hx => .inl hx⟩
      ext p
      simp [runBytes]
  | cons e l ih =>
      obtain ⟨x, a⟩ := e
      rw [MemoryManager.retypePhysAreas] at h
      obtain ⟨⟨dm₁, handle⟩, hcarve, h⟩ := bind_eq_ok.1 h
      obtain ⟨hbase, hsize⟩ := hbound (x, a) (by simp)
      obtain ⟨hhandle, hcarved⟩ := carvePhysArea_ok P hbase hsize hcarve
      simp only at hhandle hcarved
      subst hhandle
      rw [List.pairwise_cons] at hl
      obtain ⟨hrel, -⟩ := hcarved.modify (relabels_setType t)
      obtain ⟨heff, hget, hkey⟩ :=
        ih hrel.ok hl.2 (fun e he => hbound e (List.mem_cons_of_mem _ he)) h
      refine ⟨((hrel.effect P).trans (g := Label.setType t) (fun _ => rfl) heff).congr ?_,
        fun y => ?_, fun y hy => ?_⟩
      · ext p
        simp [runBytes]
      · rw [hget, OrderedMap.get?_modify]
        by_cases hy : y = x
        · subst hy
          have hnot : ¬∃ e ∈ l, e.1 = y := by
            rintro ⟨e, he, heq⟩
            have := hl.1 e he
            simp only at this
            omega
          rw [if_neg hnot, if_pos rfl, if_pos ⟨(y, a), by simp, rfl⟩]
        · rw [if_neg hy]
          refine if_congr ?_ rfl rfl
          simp [Ne.symm hy]
      · rcases hkey y hy with hy | ⟨e, he, hy⟩
        · rcases hrel.key y hy with hy | hy
          · exact .inl hy
          · exact .inr ⟨(x, a), by simp, hy⟩
        · exact .inr ⟨e, List.mem_cons_of_mem _ he, hy⟩

theorem runBytes_entries {pa : PhysMap} {n : ℕ} (P : PhysTiles pa {x | x < n}) :
    runBytes pa.entries = physBytes pa := by
  ext p
  constructor
  · rintro ⟨⟨x, a⟩, he, hle, hlt⟩
    simp only at hle hlt
    refine ⟨x + (p - a.base), a.label, ?_⟩
    rw [P.bytes_eq (OrderedMap.get?_eq_some_iff.2 he) (by omega) (by omega),
      Nat.add_sub_cancel_left, Nat.add_sub_cancel' hle]
  · rintro ⟨i, l, hi⟩
    have hmem : i < n := P.tiles.view_isSome_iff.1 (by rw [← bytes, hi]; rfl)
    obtain ⟨x, a, hx, hle, hlt⟩ := (P.tiles.mem_iff i).1 hmem
    rw [P.bytes_eq hx hle hlt, Option.some.injEq, Prod.mk.injEq] at hi
    refine ⟨(x, a), OrderedMap.get?_eq_some_iff.1 hx, ?_⟩
    simp only
    omega

theorem physRange_all {v : VirtualMemoryArea} (P : PhysTiles v.physAreas {x | x < v.size}) :
    physRange v 0 v.size = physBytes v.physAreas := by
  ext p
  constructor
  · rintro ⟨i, -, -, l, hi⟩
    exact ⟨i, l, hi⟩
  · rintro ⟨i, l, hi⟩
    have hmem : i < v.size := P.tiles.view_isSome_iff.1 (by rw [← bytes, hi]; rfl)
    exact ⟨i, Nat.zero_le i, hmem, l, hi⟩

theorem PhysTiles.retype {pa pa' : PhysMap} {t : ℤ} (P : PhysTiles pa U)
    (hget : ∀ x, pa'.get? x = (pa.get? x).map fun area => { area with memoryType := t }) :
    PhysTiles pa' U ∧ ∀ i, bytes pa' i = (bytes pa i).map fun b => (b.1, b.2.setType t) := by
  have hsize : ∀ a : PhysicalMemoryArea, ({ a with memoryType := t } : PhysicalMemoryArea).size =
      a.size := fun _ => rfl
  refine ⟨⟨P.tiles.map hsize hget, fun {x a} hx => ?_⟩,
    fun i => P.tiles.view_map (h := fun b : ℕ × Label => (b.1, b.2.setType t)) hsize
      (fun _ _ => rfl) hget i⟩
  obtain ⟨b, hb, rfl⟩ := Option.map_eq_some_iff.1 ((hget x).symm.trans hx)
  change b.base + b.size ≤ _
  exact P.bounded hb

theorem cell_retype {v : VirtualMemoryArea} {pa : PhysMap} {t : ℤ}
    (hbytes : ∀ i, bytes pa i = (bytes v.physAreas i).map fun b => (b.1, b.2.setType t))
    (i : ℕ) : ({ v with physAreas := pa } : VirtualMemoryArea).cell i = (v.cell i).setType t := by
  simp only [VirtualMemoryArea.cell, Cell.setType, hbytes, Option.map_map]
  rfl

structure Retyped (L : Layout) (t : ℤ) (A : Set ℕ) (s s' : MemoryManager) : Prop where
  dmem : PhysEffect L.direct s.dmemMap
    (physOf .direct s.vmaMap A ∪ physOf .pooled s.vmaMap A) (Label.setType t) s'.dmemMap
  rest : s' = { s with
    vmaMap := s'.vmaMap
    dmemMap := s'.dmemMap }
  vma : VmaMapOk s'.vmaMap L.usable
  cells_in : ∀ x ∈ A, cells s'.vmaMap x =
    (cells s.vmaMap x).map fun c => if c.Typed then c.setType t else c
  cells_out : ∀ x ∉ A, cells s'.vmaMap x = cells s.vmaMap x
  pieces : ∀ Q, SubClosed Q → AllPieces Q s.vmaMap → AllPieces Q s'.vmaMap
  unshared : ∀ T, T = .direct ∨ T = .pooled →
    Disjoint (physOf .direct s.vmaMap Set.univ) (physOf .pooled s.vmaMap Set.univ) →
    Unshared T s.vmaMap s.dmemMap L.direct → Unshared T s'.vmaMap s'.dmemMap L.direct

theorem Retyped.wellFormed {t : ℤ} (h : Retyped L t A s s') (W : WellFormed L s) :
    WellFormed L s' := by
  have hrest := h.rest
  refine ⟨h.vma, h.dmem.ok, ?_, ?_, ?_⟩
  · rw [hrest]
    exact W.fmem
  · rw [hrest]
    exact W.direct_eq
  · rw [hrest]
    exact W.flexible_eq

theorem Unshared.of_recut {pm : PhysMap} {R : Set ℕ} {T : VMAType}
    (hu : Unshared T m pm R) (h : VmaRecut U m m') : Unshared T m' pm R := by
  refine ⟨fun hx hy => ?_, fun B => ?_, h.pieces _ (subClosed_unbroken _ _) hu.unbroken⟩
  · rw [h.cells_eq] at hx hy
    exact hu.injective hx hy
  · rw [physOf_congr fun x _ => h.cells_eq x]
    exact hu.subset B

theorem Retyped.of_recut {t : ℤ} {m' : VMAMap} (W : WellFormed L s)
    (h : VmaRecut L.usable s.vmaMap m')
    (hA : ∀ x ∈ A, ∀ c, cells s.vmaMap x = some c → ¬ c.Typed) :
    Retyped L t A s { s with vmaMap := m' } := by
  have hnone : ∀ T, T = .direct ∨ T = .pooled → physOf T s.vmaMap A = ∅ := by
    intro T hT
    ext p
    simp only [Set.mem_empty_iff_false, iff_false]
    rintro ⟨x, hx, c, u, hc, rfl, -⟩
    exact hA x hx c hc hT
  refine ⟨?_, rfl, h.ok, fun x hx => ?_, fun x _ => h.cells_eq x, h.pieces,
    fun _ _ _ hu => ?_⟩
  · rw [hnone _ (.inl rfl), hnone _ (.inr rfl), Set.union_empty]
    exact PhysEffect.refl W.dmem
  · rw [h.cells_eq]
    cases hc : cells s.vmaMap x with
    | none => rfl
    | some c => rw [Option.map_some, if_neg (hA x hx c hc)]
  · exact hu.of_recut h

theorem cell_of_place (hplace : ∀ x, (cells m' x).map Cell.place = (cells m x).map Cell.place)
    {x p : ℕ} {c : Cell} {u : ℤ} (hc : cells m' x = some c) (hp : c.backing = some (p, u)) :
    ∃ d q, cells m x = some d ∧ d.type = c.type ∧ d.backing = some (p, q) := by
  have hx := hplace x
  rw [hc, Option.map_some] at hx
  obtain ⟨d, hd, hdc⟩ := Option.map_eq_some_iff.1 hx.symm
  obtain ⟨htype, hback⟩ := Prod.mk.inj hdc
  rw [hp, Option.map_some] at hback
  obtain ⟨⟨p', q⟩, hq, rfl⟩ := Option.map_eq_some_iff.1 hback
  exact ⟨d, q, hd, htype, hq⟩

theorem physOf_subset_of_place
    (hplace : ∀ x, (cells m' x).map Cell.place = (cells m x).map Cell.place) (T : VMAType)
    (B : Set ℕ) : physOf T m' B ⊆ physOf T m B := by
  rintro p ⟨x, hx, c, u, hc, hcT, hp⟩
  obtain ⟨d, q, hd, hdt, hdb⟩ := cell_of_place hplace hc hp
  exact ⟨x, hx, d, q, hd, hdt.trans hcT, hdb⟩

theorem Retyped.place {t : ℤ} (h : Retyped L t A s s') (x : ℕ) :
    (cells s'.vmaMap x).map Cell.place = (cells s.vmaMap x).map Cell.place := by
  by_cases hx : x ∈ A
  · rw [h.cells_in x hx, Option.map_map]
    refine congrArg (Option.map · _) (funext fun c => ?_)
    simp only [Function.comp_apply]
    split
    · exact Cell.place_setType t c
    · rfl
  · rw [h.cells_out x hx]

theorem Retyped.trans {t : ℤ} {s₁ s₂ : MemoryManager} (h : Retyped L t A s s₁)
    (h' : Retyped L t B s₁ s₂) (hAB : Disjoint A B) : Retyped L t (A ∪ B) s s₂ := by
  have hcells : ∀ x ∈ B, cells s₁.vmaMap x = cells s.vmaMap x := fun x hx =>
    h.cells_out x fun hxA => Set.disjoint_left.1 hAB hxA hx
  refine ⟨?_, ?_, h'.vma, ?_, ?_, fun Q hQ hm => h'.pieces Q hQ (h.pieces Q hQ hm), ?_⟩
  · have hd := h'.dmem
    rw [physOf_congr hcells, physOf_congr hcells] at hd
    refine (h.dmem.trans (g := Label.setType t) (fun _ => rfl) hd).congr ?_
    rw [physOf_union, physOf_union, Set.union_union_union_comm]
  · rw [h'.rest, h.rest]
  · intro x hx
    by_cases hxB : x ∈ B
    · rw [h'.cells_in x hxB, hcells x hxB]
    · rw [h'.cells_out x hxB, h.cells_in x (hx.resolve_right hxB)]
  · intro x hx
    rw [h'.cells_out x fun hxB => hx (.inr hxB), h.cells_out x fun hxA => hx (.inl hxA)]
  · intro T hT hdisjoint hu
    exact h'.unshared T hT (hdisjoint.mono (physOf_subset_of_place h.place _ _)
      (physOf_subset_of_place h.place _ _)) (h.unshared T hT hdisjoint hu)

theorem VmaMapOk.cell_of_piece {k x q : ℕ} {v : VirtualMemoryArea} {a : PhysicalMemoryArea}
    (V : VmaMapOk m U) (hk : m.get? k = some v) (hb : hasPhysicalBacking v = true)
    (ha : v.physAreas.get? x = some a) (hq : a.base ≤ q) (hlt : q < a.base + a.size) :
    ∃ c, cells m (k + (x + (q - a.base))) = some c ∧ c.type = v.type ∧
      c.backing = some (q, a.memoryType) ∧ x + (q - a.base) < v.size := by
  have P := (V.area hk).backed hb
  have hend := P.end_le ha
  refine ⟨v.cell (x + (q - a.base)), ?_, rfl, ?_, by omega⟩
  · rw [V.cells_eq hk (by omega) (by omega), Nat.add_sub_cancel_left]
  · simp only [VirtualMemoryArea.cell, P.bytes_eq ha (show x ≤ x + (q - a.base) by omega)
      (by omega), Option.map_some, backingOf, Nat.add_sub_cancel_left, Nat.add_sub_cancel' hq]
    rfl

theorem Unshared.piece_eq {pm : PhysMap} {R : Set ℕ} {T : VMAType} {k k' x y q : ℕ}
    {v w : VirtualMemoryArea} {a b : PhysicalMemoryArea} (h : Unshared T m pm R)
    (V : VmaMapOk m U) (hk : m.get? k = some v) (hk' : m.get? k' = some w) (hv : v.type = T)
    (hw : w.type = T) (hvb : hasPhysicalBacking v = true) (hwb : hasPhysicalBacking w = true)
    (ha : v.physAreas.get? x = some a) (hb : w.physAreas.get? y = some b)
    (hq : a.base ≤ q) (hlt : q < a.base + a.size) (hq' : b.base ≤ q)
    (hlt' : q < b.base + b.size) : a = b := by
  obtain ⟨c, hc, hct, hcb, hcv⟩ := V.cell_of_piece hk hvb ha hq hlt
  obtain ⟨d, hd, hdt, hdb, hdv⟩ := V.cell_of_piece hk' hwb hb hq' hlt'
  have heq := h.injective hc hd (hct.trans hv) (hdt.trans hw) hcb hdb
  have hkk : k = k' := V.tiles.key_unique hk hk'
    (p := k + (x + (q - a.base))) ⟨by omega, by omega⟩ ⟨by omega, by omega⟩
  subst hkk
  obtain rfl : v = w := Option.some.inj (hk.symm.trans hk')
  have P := (V.area hk).backed hvb
  have hxy : x = y := P.tiles.key_unique ha hb (p := x + (q - a.base)) ⟨by omega, by omega⟩
    ⟨by omega, by omega⟩
  subst hxy
  exact Option.some.inj (ha.symm.trans hb)

theorem Unshared.of_place {pm pm' : PhysMap} {R : Set ℕ} {T : VMAType}
    (h : Unshared T m pm R)
    (hplace : ∀ x, (cells m' x).map Cell.place = (cells m x).map Cell.place)
    (hunbroken : AllPieces (fun t b e => t = T → Unbroken pm' b e) m') :
    Unshared T m' pm' R := by
  refine ⟨fun {x y c d p t u} hx hy hc hd hp hp' => ?_, fun B => ?_, hunbroken⟩
  · obtain ⟨c', q, hx', hct, hcb⟩ := cell_of_place hplace hx hp
    obtain ⟨d', q', hy', hdt, hdb⟩ := cell_of_place hplace hy hp'
    exact h.injective hx' hy' (hct.trans hc) (hdt.trans hd) hcb hdb
  · exact (physOf_subset_of_place hplace T B).trans (h.subset B)

theorem Unshared.unbroken_of_retype {dm dm' pa : PhysMap} {R : Set ℕ} {T : VMAType} {t : ℤ}
    {k : ℕ} {w : VirtualMemoryArea} (h : Unshared T m dm R) (V : VmaMapOk m U)
    (hT : T = .direct ∨ T = .pooled)
    (hdisjoint : Disjoint (physOf .direct m Set.univ) (physOf .pooled m Set.univ))
    (hw : m.get? k = some w) (hwt : w.type = .direct ∨ w.type = .pooled)
    (hget : ∀ x, pa.get? x = (w.physAreas.get? x).map fun area => { area with memoryType := t })
    (hkey : ∀ x, (dm'.get? x).isSome → (dm.get? x).isSome ∨
      ∃ e ∈ w.physAreas.entries, x = e.2.base ∨ x = e.2.base + e.2.size) :
    AllPieces (fun t b e => t = T → Unbroken dm' b e)
      (m.modify k fun vma => { vma with physAreas := pa }) := by
  have hb : ∀ {v : VirtualMemoryArea}, v.type = .direct ∨ v.type = .pooled →
      hasPhysicalBacking v = true := by
    intro v hv
    rcases hv with hv | hv <;> simp [hasPhysicalBacking, hv]
  have hpiece : AllPieces (fun t b e => t = T → Unbroken dm' b e) m := by
    intro k' v hk' x a ha hv y hy hy'
    rw [← hv] at hT
    -- a byte that belongs to a piece of both areas belongs to one piece
    have hshared : ∀ {z e q}, w.physAreas.get? z = some e → a.base ≤ q → q < a.base + a.size →
        e.base ≤ q → q < e.base + e.size → a = e := by
      intro z e q he hq hlt hq' hlt'
      by_cases hwT : w.type = T
      · exact h.piece_eq V hk' hw hv hwT (hb hT) (hb hwt) ha he hq hlt hq' hlt'
      · obtain ⟨c, hc, hct, hcb, -⟩ := V.cell_of_piece hk' (hb hT) ha hq hlt
        obtain ⟨d, hd, hdt, hdb, -⟩ := V.cell_of_piece hw (hb hwt) he hq' hlt'
        have hc' : q ∈ physOf v.type m Set.univ := ⟨_, Set.mem_univ _, c, _, hc, hct, hcb⟩
        have hd' : q ∈ physOf w.type m Set.univ := ⟨_, Set.mem_univ _, d, _, hd, hdt, hdb⟩
        rw [← hv] at hwT
        rcases hT with hT | hT <;> rcases hwt with hwt | hwt
        · exact absurd (hwt.trans hT.symm) hwT
        · exact absurd (hwt ▸ hd') (Set.disjoint_left.1 hdisjoint (hT ▸ hc'))
        · exact absurd (hT ▸ hc') (Set.disjoint_left.1 hdisjoint (hwt ▸ hd'))
        · exact absurd (hwt.trans hT.symm) hwT
    by_contra hne
    rcases hkey y (Option.isSome_iff_ne_none.2 hne) with hsome | ⟨⟨z, e⟩, he, hye⟩
    · rw [h.unbroken k' v hk' x a ha hv y hy hy'] at hsome
      cases hsome
    · have he' := OrderedMap.get?_eq_some_iff.2 he
      have hpos := ((V.area hw).backed (hb hwt)).tiles.pos he'
      -- a byte at the cut belongs to both pieces
      rcases hye with hye | hye
      · simp only at hye
        have := hshared (q := y) he' (by omega) (by omega) (by omega) (by omega)
        subst this
        omega
      · simp only at hye
        have := hshared (q := y - 1) he' (by omega) (by omega) (by omega) (by omega)
        subst this
        omega
  refine hpiece.modify hw fun x a ha => ?_
  obtain ⟨b, hb', rfl⟩ := Option.map_eq_some_iff.1 ((hget x).symm.trans ha)
  exact hpiece k w hw x b hb'

theorem retypeArea_ok {t : ℤ} {k addr n : ℕ} {v : VirtualMemoryArea} {r : ℕ × MemoryManager}
    (W : WellFormed L s) (hk : s.vmaMap.get? k = some v) (hle : k ≤ addr) (hpos : 0 < n)
    (hend : addr + n ≤ k + v.size) (h : s.retypeArea t k addr n = .ok r) :
    Retyped L t (Set.Ico addr (addr + n)) s r.2 ∧
      ∃ w, r.2.vmaMap.get? r.1 = some w ∧ r.1 ≤ addr ∧ addr + n ≤ r.1 + w.size := by
  have hbound := W.vma.bounded hk
  have hcell : ∀ x ∈ Set.Ico addr (addr + n), cells s.vmaMap x = some (v.cell (x - k)) := by
    rintro x ⟨hx, hx'⟩
    exact W.vma.cells_eq hk (by omega) (by omega)
  unfold MemoryManager.retypeArea at h
  obtain ⟨v', hv', h⟩ := bind_eq_ok.1 h
  obtain rfl : v = v' := Option.some.inj (hk.symm.trans (deref_eq_ok.1 hv'))
  by_cases htype : v.type = .direct ∨ v.type = .pooled
  swap
  · rw [if_neg htype] at h
    cases h
    refine ⟨Retyped.of_recut W (VmaRecut.refl W.vma) fun x hx c hc => ?_, v, hk, hle, hend⟩
    rw [hcell x hx, Option.some.injEq] at hc
    subst hc
    exact htype
  rw [if_pos htype] at h
  obtain ⟨⟨m₁, handle⟩, hcarve, hnext⟩ := bind_eq_ok.1 h
  obtain ⟨hhandle, hcarved⟩ := carveVMA_ok W.vma (by omega) (by omega) hcarve
  simp only at hhandle hcarved
  subst hhandle
  obtain ⟨w, hw, hwsize, -, hwok, -, hwcell⟩ := hcarved.area_eq
  obtain ⟨w', hw', hnext⟩ := bind_eq_ok.1 hnext
  obtain rfl : w = w' := Option.some.inj (hw.symm.trans (deref_eq_ok.1 hw'))
  obtain ⟨⟨pa, dm⟩, hretype, hnext⟩ := bind_eq_ok.1 hnext
  cases hnext
  -- the carved area has the type of the area it was carved from
  have hwtype : w.type = v.type := by
    have h₁ := hwcell handle le_rfl (by omega)
    rw [hcell handle ⟨le_rfl, by omega⟩, Option.some.injEq] at h₁
    exact congrArg Cell.type h₁.symm
  rw [← hwtype] at htype
  have hwb : hasPhysicalBacking w = true := by
    simp only [hasPhysicalBacking]
    rcases htype with htype | htype <;> simp [htype]
  have P := hwok.backed hwb
  have hbounds : ∀ e ∈ w.physAreas.entries,
      e.2.base < 18446744073709551616 ∧ e.2.size < 18446744073709551616 := by
    intro e he
    have := P.bounded (OrderedMap.get?_eq_some_iff.2 he)
    omega
  obtain ⟨heff, hget, hkey⟩ := retypePhysAreas_ok _ W.dmem w.physAreas.sorted hbounds hretype
  have hget' : ∀ x, pa.get? x = (w.physAreas.get? x).map fun area =>
      { area with memoryType := t } := by
    intro x
    rw [hget]
    split
    · rfl
    · next hnot =>
        cases hx : w.physAreas.get? x with
        | none => rfl
        | some a => exact absurd ⟨(x, a), OrderedMap.get?_eq_some_iff.1 hx, rfl⟩ hnot
  obtain ⟨P', hbytes⟩ := P.retype hget'
  obtain ⟨V, hcells, hfw⟩ := hcarved.ok.modify hw
    (f := fun vma => { vma with physAreas := pa }) rfl rfl
    ⟨fun _ => P', fun hnot => absurd (hwb.symm.trans hnot) (by decide)⟩
  have hin : ∀ x ∈ Set.Ico handle (handle + n),
      cells (m₁.modify handle fun vma => { vma with physAreas := pa }) x =
        (cells s.vmaMap x).map fun c => if c.Typed then c.setType t else c := by
    intro x hx
    rw [hcells, if_pos ⟨hx.1, by rw [hwsize]; exact hx.2⟩, hwcell x hx.1 hx.2, Option.map_some,
      if_pos (show (w.cell (x - handle)).Typed from htype), cell_retype hbytes]
  have hout : ∀ x ∉ Set.Ico handle (handle + n),
      cells (m₁.modify handle fun vma => { vma with physAreas := pa }) x =
        cells s.vmaMap x := by
    intro x hx
    rw [hcells, hwsize, hcarved.cells_eq]
    exact if_neg hx
  refine ⟨⟨?_, rfl, V, hin, hout, ?_, ?_⟩, _, hfw, le_rfl, by simp only [hwsize]; exact le_rfl⟩
  · refine heff.congr ?_
    have hphys : ∀ T, physOf T s.vmaMap (Set.Ico handle (handle + n)) =
        physRangeOf T w 0 w.size := by
      intro T
      rw [← physOf_congr (fun x _ => hcarved.cells_eq x),
        hcarved.ok.physOf_ico hw le_rfl (by rw [hwsize]), Nat.sub_self, Nat.zero_add, hwsize]
    rw [hphys, hphys, runBytes_entries P, ← physRange_all P]
    rcases htype with htype | htype
    · rw [physRangeOf_eq htype, physRangeOf_ne (by simp [htype]), Set.union_empty]
    · rw [physRangeOf_eq htype, physRangeOf_ne (by simp [htype]), Set.empty_union]
  · intro Q hQ hm
    have hm₁ := hcarved.pieces Q hQ hm
    refine hm₁.modify hw fun x a hx => ?_
    obtain ⟨b, hb, rfl⟩ := Option.map_eq_some_iff.1 ((hget' x).symm.trans hx)
    exact hm₁ handle w hw x b hb
  · intro T hT hdisjoint hu
    have hu₁ := hu.of_recut hcarved.toVmaRecut
    simp only [← physOf_congr fun x _ => hcarved.cells_eq x] at hdisjoint
    refine hu₁.of_place (fun x => ?_)
      (hu₁.unbroken_of_retype hcarved.ok hT hdisjoint hw htype hget' hkey)
    by_cases hx : x ∈ Set.Ico handle (handle + n)
    · rw [hin x hx, hcarved.cells_eq, hwcell x hx.1 hx.2]
      simp [show (w.cell (x - handle)).Typed from htype]
    · rw [hout x hx, hcarved.cells_eq]

theorem next_position {k next : ℕ} {v : VirtualMemoryArea} (V : VmaMapOk m U)
    (hk : m.get? k = some v) (hle : k ≤ next) (hend : next ≤ k + v.size) (hmem : next ∈ U) :
    ∃ y w, (if k + v.size ≤ next then (m.next k).map Prod.fst else some k) = some y ∧
      m.get? y = some w ∧ y ≤ next ∧ next < y + w.size := by
  split
  · next hover =>
      obtain ⟨y, w, hy, hyle, hylt⟩ := (V.tiles.mem_iff next).1 hmem
      have hky : k < y := by
        by_contra hnot
        rcases Nat.eq_or_lt_of_le (Nat.le_of_not_lt hnot) with rfl | hlt
        · rw [hk, Option.some.injEq] at hy
          subst hy
          omega
        · have := V.tiles.disjoint hy hk hlt
          omega
      refine ⟨y, w, ?_, hy, hyle, hylt⟩
      rw [OrderedMap.next_eq_some_iff.2 ⟨hy, hky, fun z b hz hkz => ?_⟩, Option.map_some]
      have := V.tiles.disjoint hk hz hkz
      omega
  · next hover => exact ⟨k, v, rfl, hk, hle, by omega⟩

theorem setTypeLoop_zero {t : ℤ} {rounds addr : ℕ} {handle : Option ℕ}
    (h : MemoryManager.setTypeLoop t rounds handle addr 0 s = .ok s') : s' = s := by
  cases handle with
  | none =>
      cases rounds <;> cases h <;> rfl
  | some k =>
      cases rounds with
      | zero => cases h
      | succ rounds =>
          rw [MemoryManager.setTypeLoop, if_pos rfl] at h
          cases h
          rfl

theorem Retyped.refl_empty {t : ℤ} (W : WellFormed L s) : Retyped L t ∅ s s :=
  Retyped.of_recut W (VmaRecut.refl W.vma) fun _ hx => hx.elim

theorem setTypeLoop_ok {t : ℤ} (rounds : ℕ) {handle : Option ℕ} {addr size : ℕ}
    (W : WellFormed L s) (hrange : Set.Ico addr (addr + size) ⊆ L.usable)
    (hlt : addr + size ≤ 9223372036854775808)
    (hpos : size = 0 ∨ ∃ k v, handle = some k ∧ s.vmaMap.get? k = some v ∧ k ≤ addr ∧
      addr < k + v.size)
    (h : MemoryManager.setTypeLoop t rounds handle addr size s = .ok s') :
    Retyped L t (Set.Ico addr (addr + size)) s s' := by
  induction rounds generalizing handle addr size s with
  | zero =>
      cases handle with
      | none =>
          cases h
          rcases hpos with rfl | ⟨k, v, hk, -⟩
          · rw [Nat.add_zero, Set.Ico_self]
            exact Retyped.refl_empty W
          · cases hk
      | some k => cases h
  | succ rounds ih =>
      by_cases hzero : size = 0
      · subst hzero
        rw [setTypeLoop_zero h, Nat.add_zero, Set.Ico_self]
        exact Retyped.refl_empty W
      obtain ⟨k, v, rfl, hk, hle, hin⟩ := hpos.resolve_left hzero
      have hbound := W.vma.bounded hk
      rw [MemoryManager.setTypeLoop, if_neg hzero] at h
      obtain ⟨v', hv', h⟩ := bind_eq_ok.1 h
      obtain rfl : v = v' := Option.some.inj (hk.symm.trans (deref_eq_ok.1 hv'))
      have hoff : sub64 addr v.base = addr - k := by
        rw [W.vma.base_eq hk]
        exact sub64_eq hle (by omega)
      have hlen : sub64 v.size (addr - k) = v.size - (addr - k) :=
        sub64_eq (by omega) (by omega)
      simp only [hoff, hlen] at h
      generalize hn : min size (v.size - (addr - k)) = n at h
      obtain ⟨⟨k₁, s₁⟩, hretype, h⟩ := bind_eq_ok.1 h
      obtain ⟨⟨m₂, k₂⟩, hmerge, h⟩ := bind_eq_ok.1 h
      obtain ⟨w, hw, hnext⟩ := bind_eq_ok.1 h
      obtain ⟨hret, w₁, hw₁, hk₁, hend₁⟩ :=
        retypeArea_ok W hk hle (show 0 < n by omega) (by omega) hretype
      have W₁ := hret.wellFormed W
      obtain ⟨m', k', w', hmerge', hcut, hw', hk', hend'⟩ := mergeAdjacentVMA_ok W₁.vma hw₁
      rw [hmerge, Except.ok.injEq, Prod.mk.injEq] at hmerge'
      obtain ⟨rfl, rfl⟩ := hmerge'
      obtain rfl : w' = w := Option.some.inj (hw'.symm.trans (deref_eq_ok.1 hw))
      have hround : Retyped L t (Set.Ico addr (addr + n) ∪ ∅) s { s₁ with vmaMap := m₂ } :=
        hret.trans (Retyped.of_recut W₁ hcut fun x hx => hx.elim) (Set.disjoint_empty _)
      rw [Set.union_empty] at hround
      have hbound' := hcut.ok.bounded hw'
      have hcur : add64 addr n = addr + n := add64_eq (by omega)
      have hrem : sub64 size n = size - n := sub64_eq (by omega) (by omega)
      simp only at hk₁ hend₁ hk' hend'
      rw [hcur, hrem, hcut.ok.base_eq hw', add64_eq (by omega)] at hnext
      have hrest := ih (hround.wellFormed W)
        (fun x hx => hrange ⟨by have := hx.1; omega, by have := hx.2; omega⟩) (by omega) ?_ hnext
      · rw [show addr + n + (size - n) = addr + size by omega] at hrest
        have htrans := hround.trans hrest (ico_disjoint _ _ _)
        rwa [ico_split (by omega) (by omega)] at htrans
      · rcases Nat.eq_zero_or_pos (size - n) with hdone | hmore
        · exact .inl hdone
        · obtain ⟨y, u, hy, hget, hyle, hylt⟩ := next_position hcut.ok hw'
            (show k₂ ≤ addr + n by omega) (by omega) (hrange ⟨by omega, by omega⟩)
          exact .inr ⟨y, u, hy, hget, hyle, hylt⟩

theorem setDirectMemoryType_ok {t : ℤ} {addr size : ℕ} (W : WellFormed L s)
    (haddr : addr < 18446744073709551616) (hsize : size < 18446744073709551616)
    (h : s.setDirectMemoryType addr size t = .ok s') :
    ∃ A, Retyped L t A s s' ∧
      ((A = Set.Ico addr (addr + size) ∧ A ⊆ L.usable) ∨ A = ∅ ∧ addr ∉ L.usable) := by
  unfold MemoryManager.setDirectMemoryType at h
  obtain ⟨_, hvalid, h⟩ := bind_eq_ok.1 h
  obtain ⟨⟨k, v⟩, hfind, h⟩ := bind_eq_ok.1 h
  simp only at h
  have hfloor := findArea_eq_ok.1 hfind
  obtain ⟨hk, hle, -⟩ := OrderedMap.floor_eq_some_iff.1 hfloor
  have hlt := isValidMapping_lt W.vma (assertMsg_eq_ok.1 hvalid)
  have hbound := W.vma.bounded hk
  by_cases hin : addr < k + v.size
  · have hmem := W.vma.tiles.mem_of_get? hk hle hin
    have hrange := isValidMapping_subset W.vma hmem hsize (assertMsg_eq_ok.1 hvalid)
    have hend : addr + size ≤ 9223372036854775808 := by
      rcases Nat.eq_zero_or_pos size with rfl | hpos
      · omega
      · have := W.vma.lt_of_mem (hrange ⟨show addr ≤ addr + size - 1 by omega, by omega⟩)
        omega
    exact ⟨_, setTypeLoop_ok _ W hrange hend (.inr ⟨k, v, rfl, hk, hle, hin⟩) h,
      .inl ⟨rfl, hrange⟩⟩
  · -- the range starts in a gap: the only round looks at the area before it
    have hnot : addr ∉ L.usable := by
      intro hmem
      obtain ⟨k', v', hfloor', hlt'⟩ := floor_of_mem W.vma hmem
      rw [hfloor, Option.some.injEq, Prod.mk.injEq] at hfloor'
      obtain ⟨rfl, rfl⟩ := hfloor'
      exact hin hlt'
    refine ⟨∅, ?_, .inr ⟨rfl, hnot⟩⟩
    rcases Nat.eq_zero_or_pos size with rfl | hpos
    · rw [setTypeLoop_zero h]
      exact Retyped.refl_empty W
    have hgap : min (sub64 v.size (addr - k)) size = size := by
      rcases isValidMapping_cases W.vma haddr hsize (assertMsg_eq_ok.1 hvalid) with
        hsub | ⟨k', v', hfloor', -, hmin⟩
      · exact absurd (hsub ⟨le_rfl, by omega⟩) hnot
      · rw [hfloor, Option.some.injEq, Prod.mk.injEq] at hfloor'
        obtain ⟨rfl, rfl⟩ := hfloor'
        exact hmin
    rw [MemoryManager.setTypeLoop, if_neg (by omega)] at h
    obtain ⟨v', hv', h⟩ := bind_eq_ok.1 h
    obtain rfl : v = v' := Option.some.inj (hk.symm.trans (deref_eq_ok.1 hv'))
    have hoff : sub64 addr v.base = addr - k := by
      rw [W.vma.base_eq hk]
      exact sub64_eq hle (by omega)
    simp only [hoff, min_comm size, hgap] at h
    obtain ⟨⟨k₁, s₁⟩, hretype, h⟩ := bind_eq_ok.1 h
    obtain ⟨⟨m₂, k₂⟩, hmerge, h⟩ := bind_eq_ok.1 h
    obtain ⟨w, hw, hnext⟩ := bind_eq_ok.1 h
    rw [sub64_eq le_rfl hsize, Nat.sub_self] at hnext
    rw [setTypeLoop_zero hnext]
    obtain rfl : s₁ = s := by
      obtain ⟨v', hv', hretype⟩ := bind_eq_ok.1 hretype
      split at hretype
      · obtain ⟨⟨m₁, h₁⟩, hcarve, -⟩ := bind_eq_ok.1 hretype
        obtain ⟨-, hcarved⟩ := carveVMA_ok W.vma haddr hsize hcarve
        exact absurd (hcarved.subset W.vma ⟨le_rfl, by omega⟩) hnot
      · cases hretype
        rfl
    exact Retyped.of_recut W (mergeAdjacentVMA_recut W.vma hmerge) fun _ hx => hx.elim

end OrbitConsole.Memory
