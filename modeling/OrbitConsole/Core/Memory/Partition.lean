import OrbitConsole.Core.Memory.Effects

/-!
# The maps partition memory

Set-up builds three maps that partition the usable regions, the direct memory
and the flexible backing, and every call keeps them partitions. Every virtual
area is backed exactly, and rearranging areas changes no byte.
-/

namespace OrbitConsole.Memory

open Exec Tiling

variable {cfg : Config} {s s₀ : MemoryManager}

/-! ### Set-up -/

/-- What set-up fixes: the layout of every state of the run. -/
def Config.layout (cfg : Config) (s₀ : MemoryManager) : Layout where
  usable := cfg.regions.addresses
  directSize := s₀.totalDirectSize
  flexBase := (MemoryManager.construct cfg).totalDirectSize
  flexSize := s₀.totalFlexibleSize

theorem get?_emplace {α : Type*} (m : OrderedMap ℕ α) (k : ℕ) (a : α) (x : ℕ) :
    (m.emplace k a).get? x = if x = k ∧ m.get? k = none then some a else m.get? x := by
  unfold OrderedMap.emplace
  cases hk : m.get? k with
  | none =>
      rw [OrderedMap.get?_insert]
      simp
  | some b => simp

theorem get?_foldl_emplace {α : Type*} (f : ℕ × ℕ → α) (l : List (ℕ × ℕ))
    (m : OrderedMap ℕ α) (hl : l.Pairwise fun a b => a.1 < b.1)
    (hm : ∀ r ∈ l, m.get? r.1 = none) (x : ℕ) (a : α) :
    (l.foldl (fun m r => m.emplace r.1 (f r)) m).get? x = some a ↔
      m.get? x = some a ∨ ∃ r ∈ l, r.1 = x ∧ f r = a := by
  induction l generalizing m with
  | nil => simp
  | cons r l ih =>
      rw [List.pairwise_cons] at hl
      have hr := hm r (by simp)
      rw [List.foldl_cons, ih _ hl.2]
      · rw [get?_emplace]
        by_cases hx : x = r.1
        · subst hx
          simp [hr]
        · simp [hx, Ne.symm hx]
      · intro r' hr'
        have hne := hl.1 r' hr'
        rw [get?_emplace, if_neg (by omega)]
        exact hm r' (List.mem_cons_of_mem _ hr')

theorem apart_of_pairwise {l : List (ℕ × ℕ)} (hsep : l.Pairwise fun a b => a.2 ≤ b.1)
    (hne : ∀ r ∈ l, r.1 < r.2) {a b : ℕ × ℕ} (ha : a ∈ l) (hb : b ∈ l) (hlt : a.1 < b.1) :
    a.2 ≤ b.1 := by
  induction l with
  | nil => cases ha
  | cons r l ih =>
      rw [List.pairwise_cons] at hsep
      have hrest := fun r hr => hne r (List.mem_cons_of_mem _ hr)
      rcases List.mem_cons.1 ha with rfl | ha'
      · rcases List.mem_cons.1 hb with rfl | hb'
        · omega
        · exact hsep.1 b hb'
      · rcases List.mem_cons.1 hb with rfl | hb'
        · have := hsep.1 a ha'
          have := hne b (by simp)
          omega
        · exact ih hsep.2 hrest ha' hb'

theorem construct_vmaMap_get? (cfg : Config) (x : ℕ) (v : VirtualMemoryArea) :
    (MemoryManager.construct cfg).vmaMap.get? x = some v ↔
      ∃ r ∈ cfg.regions.regions, r.1 = x ∧
        ({ base := r.1, size := sub64 r.2 r.1 } : VirtualMemoryArea) = v := by
  have hsorted : cfg.regions.regions.Pairwise fun a b => a.1 < b.1 := by
    refine List.Pairwise.imp_of_mem (fun {a b} ha _ hab => ?_) cfg.regions.separate
    have := cfg.regions.nonempty a ha
    omega
  have := get?_foldl_emplace
    (fun r => ({ base := r.1, size := sub64 r.2 r.1 } : VirtualMemoryArea))
    cfg.regions.regions OrderedMap.empty hsorted (fun _ _ => rfl) x v
  simpa [MemoryManager.construct] using this

theorem construct_vmaMap (cfg : Config) :
    VmaMapOk (MemoryManager.construct cfg).vmaMap cfg.regions.addresses := by
  have hget := construct_vmaMap_get? cfg
  have hsome : ∀ {x v}, (MemoryManager.construct cfg).vmaMap.get? x = some v →
      ∃ r ∈ cfg.regions.regions, x = r.1 ∧ x + v.size = r.2 ∧ r.1 < r.2 ∧
        r.2 ≤ 9223372036854775808 ∧ v.base = x ∧ v.type = .free ∧
        v.physAreas = OrderedMap.empty := by
    intro x v hx
    obtain ⟨r, hr, rfl, rfl⟩ := (hget x v).1 hx
    have hne := cfg.regions.nonempty r hr
    have hbound := cfg.regions.bounded r hr
    refine ⟨r, hr, rfl, ?_, hne, hbound, rfl, rfl, rfl⟩
    simp only
    rw [sub64_eq hne.le (by omega)]
    omega
  refine ⟨⟨fun {x v} hx => ?_, fun {x v y w} hx hy hxy => ?_, fun p => ?_⟩, fun {x v} hx => ?_,
    fun {x v} hx => ?_, fun {x v} hx => ?_⟩
  · obtain ⟨r, -, rfl, hend, hne, -⟩ := hsome hx
    omega
  · obtain ⟨r, hr, rfl, hend, hne, -⟩ := hsome hx
    obtain ⟨r', hr', rfl, hend', hne', -⟩ := hsome hy
    rw [hend]
    exact apart_of_pairwise cfg.regions.separate cfg.regions.nonempty hr hr' hxy
  · constructor
    · rintro ⟨r, hr, hle, hlt⟩
      have hne := cfg.regions.nonempty r hr
      have hbound := cfg.regions.bounded r hr
      refine ⟨r.1, _, (hget _ _).2 ⟨r, hr, rfl, rfl⟩, hle, ?_⟩
      simp only
      rw [sub64_eq hne.le (by omega)]
      omega
    · rintro ⟨x, v, hx, hle, hlt⟩
      obtain ⟨r, hr, rfl, hend, -⟩ := hsome hx
      exact ⟨r, hr, hle, by omega⟩
  · obtain ⟨r, -, -, -, -, -, hbase, -⟩ := hsome hx
    exact hbase
  · obtain ⟨r, -, -, hend, -, hbound, -⟩ := hsome hx
    omega
  · obtain ⟨r, -, -, -, -, -, -, htype, hpa⟩ := hsome hx
    exact ⟨fun hb => by simp [hasPhysicalBacking, htype] at hb, fun _ => hpa⟩

theorem construct_cells {x : ℕ} {c : Cell}
    (h : cells (MemoryManager.construct cfg).vmaMap x = some c) : c.type = .free := by
  obtain ⟨⟨k, v⟩, hpiece, rfl⟩ := Option.map_eq_some_iff.1 h
  obtain ⟨r, -, -, rfl⟩ := (construct_vmaMap_get? cfg k v).1 (get?_of_pieceAt hpiece).1
  rfl

theorem physMapOk_single {base t : ℕ} (size : ℕ) (area : PhysicalMemoryArea) (hpos : 0 < size)
    (hbound : base + size ≤ 9223372036854775808) {m : PhysMap}
    (hget : ∀ x, m.get? x = if x = base then some area else none)
    (hbase : area.base = base) (hsize : area.size = size) (hstop : t = base + size) :
    PhysMapOk m (Set.Ico base t) := by
  have hsome : ∀ {x a}, m.get? x = some a → x = base ∧ a = area := by
    intro x a hx
    rw [hget] at hx
    split at hx
    · next heq => exact ⟨heq, (Option.some.inj hx).symm⟩
    · cases hx
  refine ⟨⟨⟨fun {x a} hx => ?_, fun {x a y b} hx hy hxy => ?_, fun p => ?_⟩, fun {x a} hx => ?_⟩,
    fun {x a} hx => ?_⟩
  · rw [(hsome hx).2, hsize]
    exact hpos
  · rw [(hsome hx).1, (hsome hy).1] at hxy
    omega
  · constructor
    · rintro ⟨hle, hlt⟩
      exact ⟨base, area, by rw [hget, if_pos rfl], hle, by omega⟩
    · rintro ⟨x, a, hx, hle, hlt⟩
      obtain ⟨rfl, rfl⟩ := hsome hx
      exact ⟨hle, by omega⟩
  · rw [(hsome hx).2]
    omega
  · rw [(hsome hx).1, (hsome hx).2, hbase]

theorem Fresh.regular (h : Fresh cfg s₀) : Regular (cfg.layout s₀) s₀ := by
  obtain ⟨hsetup, hextra, hextra', hpos⟩ := h
  -- the constructor's total is an ordinary size
  have htotal : (MemoryManager.construct cfg).totalDirectSize < 4611686018427387904 := by
    change ((((totalMemDevPro : ℕ) : ℤ) + cfg.extraDmem * mb) % 18446744073709551616).toNat < _
    unfold totalMemDevPro mb
    omega
  obtain ⟨_, -, hsetup⟩ := bind_eq_ok.1 hsetup
  obtain ⟨⟨k, a⟩, hfind, hsetup⟩ := bind_eq_ok.1 hsetup
  obtain ⟨_, hshrink, hret⟩ := bind_eq_ok.1 hsetup
  rw [assertMsg_eq_ok] at hshrink
  obtain ⟨hk, -, -⟩ := OrderedMap.floor_eq_some_iff.1 (findArea_eq_ok.1 hfind)
  generalize hold : (MemoryManager.construct cfg).totalDirectSize = old at htotal hshrink hret
  generalize hnew : sub64 (MemoryManager.consoleMem cfg) cfg.flexibleSize.toNat = new
    at hfind hshrink hret
  have hget : ∀ x, (MemoryManager.construct cfg).dmemMap.get? x =
      if x = 0 then some { base := 0, size := old } else none := by
    intro x
    rw [← hold]
    change (OrderedMap.empty.emplace 0 _).get? x = _
    rw [get?_emplace]
    simp [MemoryManager.construct]
  obtain ⟨rfl, rfl⟩ : k = 0 ∧ a = { base := 0, size := old } := by
    rw [hget] at hk
    split at hk
    · next heq => exact ⟨heq, (Option.some.inj hk).symm⟩
    · cases hk
  have hle : new ≤ old := by
    have hlt : new < 18446744073709551616 := hnew ▸ sub64_lt _ _
    have := hshrink.2
    simp only [sub64] at this
    omega
  cases hret
  simp only at hpos
  have hsize : sub64 old (sub64 old new) = new := by
    rw [sub64_eq hle (by omega), sub64_eq (Nat.sub_le _ _) (by omega)]
    omega
  have hIio : Set.Iio new = Set.Ico 0 new := by
    ext x
    simp
  refine ⟨⟨construct_vmaMap cfg, ?_, ?_, rfl, rfl⟩, ?_, ?_⟩
  · change PhysMapOk _ (Set.Iio new)
    rw [hIio]
    refine physMapOk_single new { base := 0, size := new } hpos (by omega)
      (fun x => ?_) rfl rfl (Nat.zero_add _).symm
    rw [OrderedMap.get?_modify, hget, if_pos rfl, Option.map_some]
    simp only [hsize]
    split
    · rfl
    · next hx => rw [hget, if_neg hx]
  · change PhysMapOk _ (Set.Ico (MemoryManager.construct cfg).totalDirectSize _)
    refine physMapOk_single flexibleMemorySize
      { base := old, size := flexibleMemorySize } (by decide) ?_ (fun x => ?_) ?_ rfl rfl
    · rw [hold]
      unfold flexibleMemorySize mb
      omega
    · rw [hold]
      change (OrderedMap.empty.emplace (MemoryManager.construct cfg).totalDirectSize
        ({ base := (MemoryManager.construct cfg).totalDirectSize, size := _ } :
          PhysicalMemoryArea)).get? x = _
      rw [hold, get?_emplace]
      simp
    · exact hold.symm
  · exact (by decide : 0 < 18446744073709551616)
  · exact (by decide : 0 < 18446744073709551616)

theorem Reachable.regular {ok : MemoryManager → Call → Prop} (hfresh : Fresh cfg s₀)
    (hok : ∀ s c, ok s c → c.Promised) (h : Reachable ok s₀ s) :
    Regular (cfg.layout s₀) s :=
  h.invariant hfresh.regular fun _ _ c hs hc hcall =>
    (Call.exec_effect hs (hok _ c hc) hcall).regular hs

/-! ### The maps are partitions -/

structure Partitions {α : Type*} (base size : α → ℕ) (m : OrderedMap ℕ α) (U : Set ℕ) :
    Prop where
  key : ∀ k a, m.get? k = some a → k = base a
  nonzero : ∀ k a, m.get? k = some a → 0 < size a
  disjoint : ∀ k a k' a', m.get? k = some a → m.get? k' = some a' → k ≠ k' →
    Disjoint (Set.Ico (base a) (base a + size a)) (Set.Ico (base a') (base a' + size a'))
  union : {x | ∃ k a, m.get? k = some a ∧ base a ≤ x ∧ x < base a + size a} = U

theorem Partitions.of_tiles {α : Type*} {base size : α → ℕ} {m : OrderedMap ℕ α} {U : Set ℕ}
    (T : Tiles size m U) (hbase : ∀ k a, m.get? k = some a → base a = k) :
    Partitions base size m U := by
  refine ⟨fun k a h => (hbase k a h).symm, fun k a h => T.pos h,
    fun k a k' a' h h' hne => ?_, ?_⟩
  · rw [hbase k a h, hbase k' a' h', Set.disjoint_left]
    rintro x ⟨hle, hlt⟩ ⟨hle', hlt'⟩
    exact hne (T.key_unique h h' ⟨hle, hlt⟩ ⟨hle', hlt'⟩)
  · ext x
    rw [T.mem_iff]
    refine exists_congr fun k => exists_congr fun a => and_congr_right fun h => ?_
    rw [hbase k a h]

/-- In every reachable state the virtual areas partition the usable regions, and the physical
areas partition the direct memory and the flexible backing. -/
theorem maps_partition (hfresh : Fresh cfg s₀)
    (h : Reachable (fun _ c => c.Promised) s₀ s) :
    Partitions VirtualMemoryArea.base VirtualMemoryArea.size s.vmaMap cfg.regions.addresses ∧
      Partitions PhysicalMemoryArea.base PhysicalMemoryArea.size s.dmemMap
        (Set.Ico 0 s.totalDirectSize) ∧
      s.totalDirectSize = s₀.totalDirectSize ∧
      Partitions PhysicalMemoryArea.base PhysicalMemoryArea.size s.fmemMap
        (Set.Ico (MemoryManager.construct cfg).totalDirectSize
          ((MemoryManager.construct cfg).totalDirectSize + flexibleMemorySize)) := by
  have W := (h.regular hfresh fun _ _ hc => hc).toWellFormed
  have hdirect : s.totalDirectSize = s₀.totalDirectSize := W.direct_eq
  refine ⟨.of_tiles W.vma.tiles fun _ _ => W.vma.base_eq, ?_, hdirect,
    .of_tiles W.fmem.tiles fun _ _ => W.fmem.base_eq⟩
  have hIio : Set.Ico 0 s.totalDirectSize = (cfg.layout s₀).direct := by
    ext x
    simp [Layout.direct, Config.layout, hdirect]
  rw [hIio]
  exact .of_tiles W.dmem.tiles fun _ _ => W.dmem.base_eq

def sampleCalls : List Call :=
  [.allocate 0 0x10000 0x8000 0 0,
    .mapMemory 0x200000000 0x8000 3 0x10 .direct "direct" false 0 0,
    .mapMemory 0x200010000 0x8000 3 0x10 .flexible "flexible" false 0xffffffffffffffff 0,
    .unmapMemory 0x200000000 0x4000]

theorem sampleCalls_reachable {s : MemoryManager}
    (h : runCalls Config.retail.start sampleCalls = .ok s) :
    Reachable (fun _ c => c.Promised) Config.retail.start s := by
  refine runCalls_reachable .start (fun c hc _ => ?_) h
  simp only [sampleCalls, List.mem_cons, List.not_mem_nil, or_false] at hc
  rcases hc with rfl | rfl | rfl | rfl <;> simp [Call.Promised]

theorem maps_partition_sample : ∃ s, runCalls Config.retail.start sampleCalls = .ok s ∧
    Partitions VirtualMemoryArea.base VirtualMemoryArea.size s.vmaMap
      Config.retail.regions.addresses := by
  obtain ⟨s, hs⟩ : ∃ s, runCalls Config.retail.start sampleCalls = .ok s :=
    exists_of_toBool (by decide)
  exact ⟨s, hs, (maps_partition fresh_retail (sampleCalls_reachable hs)).1⟩

/-! ### Virtual areas are backed exactly -/

/-- In every reachable state the physical areas of a Direct, Flexible or Pooled area tile it
and other areas have none. On such a map, and on every map that is in order like it,
`CarveVMA`, `Split` and `MergeAdjacent` change no cell. -/
theorem backing_exact (hfresh : Fresh cfg s₀)
    (h : Reachable (fun _ c => c.Promised) s₀ s) :
    VmaMapOk s.vmaMap cfg.regions.addresses ∧
      (∀ k v, s.vmaMap.get? k = some v →
        (v.type = .direct ∨ v.type = .flexible ∨ v.type = .pooled →
          Tiles PhysicalMemoryArea.size v.physAreas {i | i < v.size}) ∧
        (¬(v.type = .direct ∨ v.type = .flexible ∨ v.type = .pooled) →
          v.physAreas = OrderedMap.empty)) ∧
      ∀ m, VmaMapOk m cfg.regions.addresses →
        (∀ addr size m' k, addr < 18446744073709551616 → size < 18446744073709551616 →
          carveVMA m addr size = .ok (m', k) →
          VmaMapOk m' cfg.regions.addresses ∧ ∀ x, cells m' x = cells m x) ∧
        (∀ handle offset m' k, splitVMA m handle offset = .ok (m', k) →
          VmaMapOk m' cfg.regions.addresses ∧ ∀ x, cells m' x = cells m x) ∧
        ∀ handle m' k, mergeAdjacentVMA m handle = .ok (m', k) →
          VmaMapOk m' cfg.regions.addresses ∧ ∀ x, cells m' x = cells m x := by
  have V : VmaMapOk s.vmaMap cfg.regions.addresses :=
    (h.regular hfresh fun _ _ hc => hc).vma
  refine ⟨V, fun k v hk => ⟨fun htype => ?_, fun htype => ?_⟩, fun m V' => ⟨?_, ?_, ?_⟩⟩
  · exact ((V.area hk).backed (by simpa [hasPhysicalBacking, or_assoc] using htype)).tiles
  · exact (V.area hk).unbacked (by simpa [hasPhysicalBacking, and_assoc] using htype)
  · intro addr size m' k haddr hsize hcarve
    obtain ⟨-, hcarved⟩ := carveVMA_ok V' haddr hsize hcarve
    exact ⟨hcarved.ok, hcarved.cells_eq⟩
  · intro handle offset m' k hsplit
    obtain ⟨v, hv, -⟩ := bind_eq_ok.1 hsplit
    obtain ⟨-, -, -, hcut, -⟩ := splitVMA_ok V' (deref_eq_ok.1 hv) hsplit
    exact ⟨hcut.ok, hcut.cells_eq⟩
  · intro handle m' k hmerge
    have hcut := mergeAdjacentVMA_recut V' hmerge
    exact ⟨hcut.ok, hcut.cells_eq⟩

theorem backing_exact_sample : ∃ s, runCalls Config.retail.start sampleCalls = .ok s ∧
    ∀ k v, s.vmaMap.get? k = some v → v.type = .direct →
      Tiles PhysicalMemoryArea.size v.physAreas {i | i < v.size} := by
  obtain ⟨s, hs⟩ : ∃ s, runCalls Config.retail.start sampleCalls = .ok s :=
    exists_of_toBool (by decide)
  obtain ⟨-, hback, -⟩ := backing_exact fresh_retail (sampleCalls_reachable hs)
  exact ⟨s, hs, fun k v hk htype => (hback k v hk).1 (.inl htype)⟩

end OrbitConsole.Memory
