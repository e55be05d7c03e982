import OrbitConsole.Core.Memory.Partition

/-!
# Counting bytes

The counters of the manager are compared with numbers of bytes: the bytes a
physical map labels with a type, the virtual bytes of a type, and the physical
bytes behind them.
-/

namespace OrbitConsole.Memory

open Tiling

variable {L : Layout} {m m' : PhysMap} {U R A : Set ℕ} {t u : PhysicalMemoryType} {T : VMAType}

/-! ### The size of the areas of a type -/

def totalSize (t : PhysicalMemoryType) (m : PhysMap) : ℕ :=
  ((m.entries.filter fun e => e.2.dmaType = t).map fun e => e.2.size).sum

theorem ncard_bytesOfType (P : PhysMapOk m U) (t : PhysicalMemoryType) :
    (bytesOfType t m).ncard = totalSize t m := by
  have hset : bytesOfType t m =
      ranges PhysicalMemoryArea.size (m.entries.filter fun e => e.2.dmaType = t) := by
    ext p
    constructor
    · rintro ⟨l, hl, hlt⟩
      have hmem : p ∈ U := P.labels_isSome_iff.1 (by rw [hl]; rfl)
      obtain ⟨k, a, hk, hle, hlt'⟩ := (P.tiles.mem_iff p).1 hmem
      rw [P.labels_eq hk hle hlt', Option.some.injEq] at hl
      subst hl
      exact ⟨(k, a), List.mem_filter.2 ⟨OrderedMap.get?_eq_some_iff.1 hk, decide_eq_true hlt⟩,
        hle, hlt'⟩
    · rintro ⟨⟨k, a⟩, he, hle, hlt⟩
      obtain ⟨hk, ht⟩ := List.mem_filter.1 he
      exact ⟨a.label, P.labels_eq (OrderedMap.get?_eq_some_iff.2 hk) hle hlt, of_decide_eq_true ht⟩
  rw [hset]
  exact ncard_ranges _ (P.tiles.entries_pairwise.filter _)

/-! ### Physical bytes behind virtual bytes -/

theorem VmaMapOk.backing_of_cell {m : VMAMap} (V : VmaMapOk m U) {x : ℕ} {c : Cell}
    (h : cells m x = some c) (hT : c.type = .direct ∨ c.type = .flexible ∨ c.type = .pooled) :
    ∃ p t, c.backing = some (p, t) := by
  obtain ⟨k, v, hk, hle, hlt⟩ := (V.tiles.mem_iff x).1 (V.mem_of_cell h)
  rw [V.cells_eq hk hle hlt, Option.some.injEq] at h
  subst h
  have hb : hasPhysicalBacking v = true := by
    simpa [hasPhysicalBacking, VirtualMemoryArea.cell, or_assoc] using hT
  have P := (V.area hk).backed hb
  obtain ⟨y, a, hy, hyle, hylt⟩ := (P.tiles.mem_iff (x - k)).1
    (show x - k < v.size by omega)
  refine ⟨a.base + (x - k - y), a.memoryType, ?_⟩
  simp only [VirtualMemoryArea.cell, P.bytes_eq hy hyle hylt, Option.map_some]
  rfl

/-- No physical byte is behind two virtual bytes of type `T`. -/
def Injective (T : VMAType) (m : VMAMap) : Prop :=
  ∀ {x y c d p t u}, cells m x = some c → cells m y = some d → c.type = T → d.type = T →
    c.backing = some (p, t) → d.backing = some (p, u) → x = y

/-- Every byte of type `T` of `m'` was one of `m`, in front of the same physical byte. -/
def Inherits (T : VMAType) (m m' : VMAMap) : Prop :=
  ∀ x c', cells m' x = some c' → c'.type = T →
    ∃ c, cells m x = some c ∧ c.type = T ∧ c'.backing.map Prod.fst = c.backing.map Prod.fst

section Inherits

variable {s s' : MemoryManager} {m m' : VMAMap}

theorem Inherits.refl (m : VMAMap) : Inherits T m m := fun _ c h hT => ⟨c, h, hT, rfl⟩

theorem Inherits.trans {m₁ m₂ m₃ : VMAMap} (h : Inherits T m₁ m₂) (h' : Inherits T m₂ m₃) :
    Inherits T m₁ m₃ := by
  intro x c hc hcT
  obtain ⟨d, hd, hdT, hcd⟩ := h' x c hc hcT
  obtain ⟨e, he, heT, hde⟩ := h x d hd hdT
  exact ⟨e, he, heT, hcd.trans hde⟩

theorem Inherits.backing (h : Inherits T m m') {x p : ℕ} {c' : Cell} {t : ℤ}
    (hc : cells m' x = some c') (hT : c'.type = T) (hp : c'.backing = some (p, t)) :
    ∃ c u, cells m x = some c ∧ c.type = T ∧ c.backing = some (p, u) := by
  obtain ⟨c, hc', hT', heq⟩ := h x c' hc hT
  rw [hp, Option.map_some] at heq
  obtain ⟨⟨q, u⟩, hq, hqp⟩ := Option.map_eq_some_iff.1 heq.symm
  obtain rfl : q = p := hqp
  exact ⟨c, u, hc', hT', hq⟩

theorem Inherits.injective (h : Inherits T m m') (hm : Injective T m) : Injective T m' := by
  intro x y c d p t u hc hd hcT hdT hp hq
  obtain ⟨c₀, t₀, hc₀, hcT₀, hp₀⟩ := h.backing hc hcT hp
  obtain ⟨d₀, u₀, hd₀, hdT₀, hq₀⟩ := h.backing hd hdT hq
  exact hm hc₀ hd₀ hcT₀ hdT₀ hp₀ hq₀

theorem Inherits.physOf_subset (h : Inherits T m m') : physOf T m' A ⊆ physOf T m A := by
  rintro p ⟨x, hx, c, t, hc, hcT, hp⟩
  obtain ⟨c₀, t₀, hc₀, hcT₀, hp₀⟩ := h.backing hc hcT hp
  exact ⟨x, hx, c₀, t₀, hc₀, hcT₀, hp₀⟩

theorem Unmapped.inherits (h : Unmapped L A s s') (hT : T ≠ .free) :
    Inherits T s.vmaMap s'.vmaMap :=
  fun _ c hc hcT => ⟨c, (h.cell_of_type hT hc hcT).1, hcT, rfl⟩

theorem SameMapping.inherits (h : SameMapping U m m') : Inherits T m m' := by
  intro x c' hc' hT
  have heq := h.mapping_eq x
  rw [hc', Option.map_some] at heq
  obtain ⟨c, hc, hmapping⟩ := Option.map_eq_some_iff.1 heq.symm
  obtain ⟨htype, hbacking⟩ := Prod.mk.inj hmapping
  exact ⟨c, hc, htype.trans hT, by rw [hbacking]⟩

theorem Retyped.inherits {t : ℤ} (h : Retyped L t A s s') :
    Inherits T s.vmaMap s'.vmaMap := by
  intro x c' hc' hT
  by_cases hx : x ∈ A
  · rw [h.cells_in x hx] at hc'
    obtain ⟨c, hc, rfl⟩ := Option.map_eq_some_iff.1 hc'
    have hplace : (if c.Typed then c.setType t else c).place = c.place := by
      split
      · exact Cell.place_setType t c
      · rfl
    obtain ⟨htype, hbacking⟩ := Prod.mk.inj hplace
    exact ⟨c, hc, htype.symm.trans hT, hbacking⟩
  · rw [h.cells_out x hx] at hc'
    exact ⟨c', hc', hT, rfl⟩

theorem Decommitted.inherits (h : Decommitted L A s s') (hT : T ≠ .poolReserved) :
    Inherits T s.vmaMap s'.vmaMap := by
  intro x c' hc' hcT
  by_cases hx : x ∈ A
  · rw [h.cells_in x hx, Option.some.injEq] at hc'
    subst hc'
    exact absurd hcT.symm hT
  · rw [h.cells_out x hx] at hc'
    exact ⟨c', hc', hcT, rfl⟩

section Created

variable {addr size : ℕ} {prot : MemoryProt} {type : VMAType} {name : String} {pa : PhysMap}

theorem AreaCreated.inherits (h : AreaCreated U addr size prot type name m pa m')
    (hT : type ≠ T) : Inherits T m m' := by
  intro x c' hc' hcT
  rw [h.cells_eq] at hc'
  split at hc'
  · cases hc'
    exact absurd hcT hT
  · exact ⟨c', hc', hcT, rfl⟩

theorem AreaCreated.cell_backing (h : AreaCreated U addr size prot T name m pa m') {x p : ℕ}
    {c : Cell} {t : ℤ} (hc : cells m' x = some c) (hp : c.backing = some (p, t)) :
    ((addr ≤ x ∧ x < addr + size) ∧ ∃ l, bytes pa (x - addr) = some (p, l)) ∨
      cells m x = some c := by
  rw [h.cells_eq] at hc
  split at hc
  · next hx =>
      left
      cases hc
      obtain ⟨⟨q, l⟩, hq, hqp⟩ := Option.map_eq_some_iff.1 hp
      obtain rfl : q = p := (Prod.mk.inj hqp).1
      exact ⟨hx, l, hq⟩
  · exact .inr hc

theorem AreaCreated.physOf_subset (h : AreaCreated U addr size prot T name m pa m') :
    physOf T m' A ⊆ physOf T m A ∪ physBytes pa := by
  rintro p ⟨x, hx, c, t, hc, hcT, hp⟩
  rcases h.cell_backing hc hp with ⟨-, l, hl⟩ | hc
  · exact .inr ⟨_, l, hl⟩
  · exact .inl ⟨x, hx, c, t, hc, hcT, hp⟩

theorem AreaCreated.injective (h : AreaCreated U addr size prot T name m pa m')
    (hm : Injective T m)
    (hpa : ∀ {i j p l l'}, bytes pa i = some (p, l) → bytes pa j = some (p, l') → i = j)
    (hfresh : ∀ p ∈ physBytes pa, p ∉ physOf T m Set.univ) : Injective T m' := by
  intro x y c d p t u hc hd hcT hdT hp hq
  rcases h.cell_backing hc hp with ⟨hx, l, hl⟩ | hc' <;>
    rcases h.cell_backing hd hq with ⟨hy, l', hl'⟩ | hd'
  · have := hpa hl hl'
    omega
  · exact absurd ⟨y, Set.mem_univ y, d, u, hd', hdT, hq⟩ (hfresh p ⟨_, l, hl⟩)
  · exact absurd ⟨x, Set.mem_univ x, c, t, hc', hcT, hp⟩ (hfresh p ⟨_, l', hl'⟩)
  · exact hm hc' hd' hcT hdT hp hq

end Created

end Inherits

theorem ncard_physOf {m : VMAMap} (V : VmaMapOk m U)
    (hT : T = .direct ∨ T = .flexible ∨ T = .pooled) (h : Injective T m) (A : Set ℕ) :
    (physOf T m A).ncard = (bytesOf T m A).ncard := by
  symm
  refine Set.ncard_congr
    (fun x _ => (((cells m x).bind Cell.backing).map Prod.fst).getD 0) ?_ ?_ ?_
  · rintro x ⟨hx, c, hc, rfl⟩
    obtain ⟨p, t, hp⟩ := V.backing_of_cell hc hT
    refine ⟨x, hx, c, t, hc, rfl, ?_⟩
    simp [hc, hp]
  · rintro x y ⟨-, c, hc, hcT⟩ ⟨-, d, hd, hdT⟩ heq
    obtain ⟨p, t, hp⟩ := V.backing_of_cell hc (by rw [hcT]; exact hT)
    obtain ⟨q, u, hq⟩ := V.backing_of_cell hd (by rw [hdT]; exact hT)
    simp only [hc, hd, hp, hq, Option.bind_some, Option.map_some, Option.getD_some] at heq
    subst heq
    exact h hc hd hcT hdT hp hq
  · rintro p ⟨x, hx, c, t, hc, hcT, hp⟩
    exact ⟨x, ⟨hx, c, hc, hcT⟩, by simp [hc, hp]⟩

theorem Backed.ncard {m₀ pa : PhysMap} {g : Label → Label} {n : ℕ}
    (h : Backed U m₀ g m pa n) : (physBytes pa).ncard = n := by
  have hbytes : ∀ i < n, ∃ p l, bytes pa i = some (p, l) := by
    intro i hi
    obtain ⟨x, a, hx, hle, hlt⟩ := (h.tiles.tiles.mem_iff i).1 hi
    exact ⟨_, _, h.tiles.bytes_eq hx hle hlt⟩
  rw [← Set.ncard_Iio_nat n]
  symm
  refine Set.ncard_congr (fun i _ => ((bytes pa i).map Prod.fst).getD 0) ?_ ?_ ?_
  · intro i hi
    obtain ⟨p, l, hp⟩ := hbytes i hi
    exact ⟨i, l, by simp [hp]⟩
  · intro i j hi hj heq
    obtain ⟨p, l, hp⟩ := hbytes i hi
    obtain ⟨q, l', hq⟩ := hbytes j hj
    simp only [hp, hq, Option.map_some, Option.getD_some] at heq
    subst heq
    exact h.injective hp hq
  · rintro p ⟨i, l, hi⟩
    have hlt : i < n := h.tiles.tiles.view_isSome_iff.1 (by rw [← bytes, hi]; rfl)
    exact ⟨i, hlt, by simp [hi]⟩

/-! ### Relabelling and counting -/

theorem PhysEffect.bytesOfType_eq {g : Label → Label} (h : PhysEffect U m R g m')
    (hg : ∀ l, (g l).dmaType = t) (P : PhysMapOk m U) :
    bytesOfType t m' = bytesOfType t m ∪ R := by
  ext p
  by_cases hp : p ∈ R
  · obtain ⟨l, hl⟩ := Option.isSome_iff_exists.1 (P.labels_isSome_iff.2 (h.subset hp))
    refine ⟨fun _ => .inr hp, fun _ => ⟨g l, ?_, hg l⟩⟩
    rw [h.labels_in p hp, hl, Option.map_some]
  · simp only [bytesOfType, Set.mem_union, Set.mem_ofPred_eq, h.labels_out p hp, hp, or_false]

theorem PhysEffect.bytesOfType_ne {g : Label → Label} (h : PhysEffect U m R g m')
    (hg : ∀ l, (g l).dmaType ≠ t) : bytesOfType t m' = bytesOfType t m \ R := by
  ext p
  by_cases hp : p ∈ R
  · simp only [Set.mem_sdiff, hp, not_true_eq_false, and_false, iff_false]
    rintro ⟨l, hl, hlt⟩
    rw [h.labels_in p hp] at hl
    obtain ⟨l', -, rfl⟩ := Option.map_eq_some_iff.1 hl
    exact hg l' hlt
  · simp only [bytesOfType, Set.mem_sdiff, Set.mem_ofPred_eq, h.labels_out p hp, hp,
      not_false_eq_true, and_true]

end OrbitConsole.Memory
