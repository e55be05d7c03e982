import OrbitConsole.Core.Memory.PhysAreas

/-!
# What the virtual helpers do, byte by byte

The map of virtual areas is read as a partial function too: `cells m x` is the
type, protection, name and backing of the virtual byte `x`. An area is `VmaOk`
when its physical areas tile it exactly, or when it has no backing and no
physical areas. `Split`, `CarveVMA` and `MergeAdjacent` rearrange areas and
physical areas without changing any cell.
-/

namespace OrbitConsole.Memory

open Tiling

/-! ### The physical areas of one virtual area -/

section Nested

variable {m : PhysMap} {off n n' k : ℕ} {a : PhysicalMemoryArea}

def frontEntry (off : ℕ) (e : ℕ × PhysicalMemoryArea) : Option (ℕ × PhysicalMemoryArea) :=
  if e.1 < off then
    some (e.1, if e.1 + e.2.size ≤ off then e.2 else { e.2 with size := off - e.1 })
  else none

def backEntry (off : ℕ) (e : ℕ × PhysicalMemoryArea) : Option (ℕ × PhysicalMemoryArea) :=
  if off < e.1 + e.2.size then
    some (e.1 - off, if off ≤ e.1 then e.2 else
      { e.2 with base := e.2.base + (off - e.1), size := e.2.size - (off - e.1) })
  else none

theorem frontEntry_key {e b : ℕ × PhysicalMemoryArea} (h : frontEntry off e = some b) :
    b.1 = e.1 := by
  unfold frontEntry at h
  split at h
  · cases h
    rfl
  · cases h

theorem backEntry_key {e b : ℕ × PhysicalMemoryArea} (h : backEntry off e = some b) :
    b.1 = e.1 - off ∧ off < e.1 + e.2.size := by
  unfold backEntry at h
  split at h
  · next hlt =>
      cases h
      exact ⟨rfl, hlt⟩
  · cases h

theorem splitPhysEntry_eq (maps : PhysMap × PhysMap) (hpos : 0 < a.size)
    (hkey : k + a.size ≤ 9223372036854775808)
    (hbase : a.base + a.size ≤ 9223372036854775808) :
    splitPhysEntry off maps (k, a) =
      ((frontEntry off (k, a)).elim maps.1 fun e => maps.1.insert e.1 e.2,
        (backEntry off (k, a)).elim maps.2 fun e => maps.2.insert e.1 e.2) := by
  have hadd : add64 k a.size = k + a.size := add64_eq (by omega)
  simp only [splitPhysEntry, frontEntry, backEntry, hadd]
  by_cases h1 : k + a.size ≤ off
  · have h2 : k < off := by omega
    simp [h1, h2, h2.not_ge, h1.not_gt]
  · have h1' : off < k + a.size := not_le.1 h1
    by_cases h2 : k < off
    · have hsub : sub64 off k = off - k := sub64_eq (by omega) (by omega)
      have hsub' : sub64 a.size (off - k) = a.size - (off - k) :=
        sub64_eq (by omega) (by omega)
      have hadd' : add64 a.base (off - k) = a.base + (off - k) := add64_eq (by omega)
      simp [h1, h1', h2, h2.not_ge, hsub, hsub', hadd', Nat.sub_eq_zero_of_le h2.le]
    · have hsub : sub64 k off = k - off := sub64_eq (by omega) (by omega)
      simp [h1, h1', h2, not_lt.1 h2, hsub]

theorem foldl_splitPhysEntry (l : List (ℕ × PhysicalMemoryArea)) (maps : PhysMap × PhysMap)
    (hl : ∀ e ∈ l, 0 < e.2.size ∧ e.1 + e.2.size ≤ 9223372036854775808 ∧
      e.2.base + e.2.size ≤ 9223372036854775808) :
    l.foldl (splitPhysEntry off) maps =
      ((l.filterMap (frontEntry off)).foldl (fun m e => m.insert e.1 e.2) maps.1,
        (l.filterMap (backEntry off)).foldl (fun m e => m.insert e.1 e.2) maps.2) := by
  induction l generalizing maps with
  | nil => rfl
  | cons e l ih =>
      obtain ⟨k, a⟩ := e
      obtain ⟨hpos, hkey, hbase⟩ := hl (k, a) (by simp)
      rw [List.foldl_cons, splitPhysEntry_eq maps hpos hkey hbase,
        ih _ fun e he => hl e (List.mem_cons_of_mem _ he)]
      simp only [List.filterMap_cons]
      cases frontEntry off (k, a) <;> cases backEntry off (k, a) <;> rfl

theorem splitPhysAreas_entries (off : ℕ) (P : PhysTiles m {x | x < n})
    (hn : n ≤ 9223372036854775808) :
    (splitPhysAreas m off).1.entries = m.entries.filterMap (frontEntry off) ∧
      (splitPhysAreas m off).2.entries = m.entries.filterMap (backEntry off) := by
  have hl : ∀ e ∈ m.entries, 0 < e.2.size ∧ e.1 + e.2.size ≤ 9223372036854775808 ∧
      e.2.base + e.2.size ≤ 9223372036854775808 := by
    rintro ⟨k, a⟩ he
    have h := OrderedMap.get?_eq_some_iff.2 he
    have hpos := P.tiles.pos h
    have hlt : k + a.size - 1 < n := P.tiles.mem_of_get? h (by omega) (by omega)
    exact ⟨hpos, by simp only; omega, P.bounded h⟩
  have hfront : (m.entries.filterMap (frontEntry off)).Pairwise (fun a b => a.1 < b.1) := by
    rw [List.pairwise_filterMap]
    refine m.sorted.imp fun {e e'} hlt b hb b' hb' => ?_
    rw [frontEntry_key hb, frontEntry_key hb']
    exact hlt
  have hback : (m.entries.filterMap (backEntry off)).Pairwise (fun a b => a.1 < b.1) := by
    rw [List.pairwise_filterMap]
    refine P.tiles.entries_pairwise.imp_of_mem fun {e e'} he _ hle b hb b' hb' => ?_
    have hpos := (hl e he).1
    obtain ⟨hkey, hlt⟩ := backEntry_key hb
    obtain ⟨hkey', -⟩ := backEntry_key hb'
    omega
  rw [splitPhysAreas, foldl_splitPhysEntry _ _ hl]
  constructor
  · rw [OrderedMap.foldl_insert_entries hfront (by simp [OrderedMap.empty])]
    rfl
  · rw [OrderedMap.foldl_insert_entries hback (by simp [OrderedMap.empty])]
    rfl

theorem splitPhysAreas_ok (P : PhysTiles m {x | x < n}) (hn : n ≤ 9223372036854775808)
    (hoff : off < n) :
    (PhysTiles (splitPhysAreas m off).1 {x | x < off} ∧
      ∀ i < off, bytes (splitPhysAreas m off).1 i = bytes m i) ∧
    PhysTiles (splitPhysAreas m off).2 {x | x < n - off} ∧
      ∀ i, bytes (splitPhysAreas m off).2 i = bytes m (off + i) := by
  obtain ⟨hfront, hback⟩ := splitPhysAreas_entries off P hn
  let take : PhysicalMemoryArea → ℕ → PhysicalMemoryArea := fun a n => { a with size := n }
  let drop : PhysicalMemoryArea → ℕ → PhysicalMemoryArea := fun a n =>
    { a with base := a.base + n, size := a.size - n }
  have hget₁ : ∀ x, (splitPhysAreas m off).1.get? x = if x < off then
      (m.get? x).map fun a => if x + a.size ≤ off then a else take a (off - x) else none := by
    intro x
    ext b
    rw [OrderedMap.get?_eq_some_iff, hfront, List.mem_filterMap]
    simp only [Prod.exists, ← OrderedMap.get?_eq_some_iff, frontEntry]
    constructor
    · rintro ⟨k, a, ha, heq⟩
      by_cases h1 : k < off
      · rw [if_pos h1] at heq
        cases heq
        rw [if_pos h1, ha]
        rfl
      · rw [if_neg h1] at heq
        cases heq
    · intro h
      split_ifs at h with h1
      obtain ⟨a, ha, rfl⟩ := Option.map_eq_some_iff.1 h
      exact ⟨x, a, ha, by rw [if_pos h1]⟩
  have hget₂ : ∀ x b, (splitPhysAreas m off).2.get? x = some b ↔
      ∃ k a, m.get? k = some a ∧ off < k + a.size ∧ x = k - off ∧
        b = if off ≤ k then a else drop a (off - k) := by
    intro x b
    rw [OrderedMap.get?_eq_some_iff, hback, List.mem_filterMap]
    simp only [Prod.exists, ← OrderedMap.get?_eq_some_iff, backEntry]
    refine exists_congr fun k => exists_congr fun a => and_congr_right fun _ => ?_
    by_cases h1 : off < k + a.size
    · simp [h1, drop, eq_comm]
    · simp [h1]
  have hset₁ : {x | x ∈ {x | x < n} ∧ x < off} = {x | x < off} := by
    ext x
    simp only [Set.mem_ofPred_eq]
    omega
  have hset₂ : {x | off + x ∈ {x | x < n}} = {x | x < n - off} := by
    ext x
    simp only [Set.mem_ofPred_eq]
    omega
  refine ⟨⟨⟨?_, fun {x b} hx => ?_⟩, fun i hi => ?_⟩, ⟨?_, fun {x b} hx => ?_⟩, fun i => ?_⟩
  · have T := P.tiles.front (t := take) (fun _ _ => rfl) hget₁
    rwa [hset₁] at T
  · rw [hget₁] at hx
    split_ifs at hx with h1
    obtain ⟨a, ha, rfl⟩ := Option.map_eq_some_iff.1 hx
    have := P.bounded ha
    split_ifs with h2
    · exact this
    · simp only [take]
      omega
  · exact P.tiles.view_front (t := take) (fun _ _ => rfl) (fun _ _ _ => rfl) hget₁ hi
  · have T := P.tiles.back (d := drop) (fun _ _ => rfl) hget₂
    rwa [hset₂] at T
  · obtain ⟨k, a, ha, hlt, rfl, rfl⟩ := (hget₂ x b).1 hx
    have := P.bounded ha
    split_ifs with h2
    · exact this
    · simp only [drop]
      omega
  · refine P.tiles.view_back (d := drop) (fun _ _ => rfl) (fun a n i => ?_) hget₂ i
    simp [drop, PhysicalMemoryArea.byte, PhysicalMemoryArea.label, Nat.add_assoc]

theorem splitPhysAreas_piece (P : PhysTiles m {x | x < n}) (hn : n ≤ 9223372036854775808)
    {x : ℕ} {b : PhysicalMemoryArea}
    (h : (splitPhysAreas m off).1.get? x = some b ∨
      (splitPhysAreas m off).2.get? x = some b) :
    ∃ k a, m.get? k = some a ∧ a.base ≤ b.base ∧ b.base + b.size ≤ a.base + a.size := by
  obtain ⟨hfront, hback⟩ := splitPhysAreas_entries off P hn
  rcases h with h | h
  · rw [OrderedMap.get?_eq_some_iff, hfront, List.mem_filterMap] at h
    obtain ⟨⟨k, a⟩, ha, heq⟩ := h
    refine ⟨k, a, OrderedMap.get?_eq_some_iff.2 ha, ?_⟩
    unfold frontEntry at heq
    split at heq
    · cases heq
      split
      · exact ⟨le_rfl, le_rfl⟩
      · refine ⟨le_rfl, ?_⟩
        simp only at *
        omega
    · cases heq
  · rw [OrderedMap.get?_eq_some_iff, hback, List.mem_filterMap] at h
    obtain ⟨⟨k, a⟩, ha, heq⟩ := h
    refine ⟨k, a, OrderedMap.get?_eq_some_iff.2 ha, ?_⟩
    unfold backEntry at heq
    split at heq
    · cases heq
      split
      · exact ⟨le_rfl, le_rfl⟩
      · simp only at *
        omega
    · cases heq

theorem appendPhysAreas_entries {m₁ m₂ : PhysMap} (P₁ : PhysTiles m₁ {x | x < n})
    (P₂ : PhysTiles m₂ {x | x < n'}) (hn : n + n' ≤ 9223372036854775808) :
    (appendPhysAreas m₁ n m₂).entries =
      m₁.entries ++ m₂.entries.map fun e => (n + e.1, e.2) := by
  have hlt : ∀ e ∈ m₁.entries, e.1 < n := fun e he => by
    have h := OrderedMap.get?_eq_some_iff.2 he
    exact P₁.tiles.mem_of_get? h le_rfl (by have := P₁.tiles.pos h; omega)
  have hlt' : ∀ e ∈ m₂.entries, e.1 < n' := fun e he => by
    have h := OrderedMap.get?_eq_some_iff.2 he
    exact P₂.tiles.mem_of_get? h le_rfl (by have := P₂.tiles.pos h; omega)
  have hmap : appendPhysAreas m₁ n m₂ =
      (m₂.entries.map fun e => (n + e.1, e.2)).foldl (fun m e => m.insert e.1 e.2) m₁ := by
    rw [appendPhysAreas, List.foldl_map]
    refine List.foldl_ext _ _ _ fun areas e he => ?_
    have := hlt' e he
    rw [add64_eq (by omega)]
  rw [hmap, OrderedMap.foldl_insert_entries]
  · rw [List.pairwise_map]
    exact m₂.sorted.imp fun h => Nat.add_lt_add_left h n
  · intro e he e' he'
    obtain ⟨e₂, he₂, rfl⟩ := List.mem_map.1 he'
    have := hlt e he
    simp only
    omega

theorem appendPhysAreas_ok {m₁ m₂ : PhysMap} (P₁ : PhysTiles m₁ {x | x < n})
    (P₂ : PhysTiles m₂ {x | x < n'}) (hn : n + n' ≤ 9223372036854775808) :
    PhysTiles (appendPhysAreas m₁ n m₂) {x | x < n + n'} ∧
      ∀ i, bytes (appendPhysAreas m₁ n m₂) i =
        if i < n then bytes m₁ i else bytes m₂ (i - n) := by
  have hget : ∀ x b, (appendPhysAreas m₁ n m₂).get? x = some b ↔
      m₁.get? x = some b ∨ ∃ k, m₂.get? k = some b ∧ x = n + k := by
    intro x b
    rw [OrderedMap.get?_eq_some_iff, appendPhysAreas_entries P₁ P₂ hn, List.mem_append,
      List.mem_map]
    simp only [Prod.exists, Prod.mk.injEq, OrderedMap.get?_eq_some_iff]
    refine or_congr_right ⟨?_, ?_⟩
    · rintro ⟨k, a, ha, rfl, rfl⟩
      exact ⟨k, ha, rfl⟩
    · rintro ⟨k, ha, rfl⟩
      exact ⟨k, b, ha, rfl, rfl⟩
  refine ⟨⟨P₁.tiles.append P₂.tiles hget, fun {x b} hx => ?_⟩,
    fun i => P₁.tiles.view_append P₂.tiles hget i⟩
  rcases (hget x b).1 hx with hx | ⟨k, hk, -⟩
  · exact P₁.bounded hx
  · exact P₂.bounded hk

end Nested

/-! ### The map of virtual areas -/

/-- What the map of virtual areas says of a byte: `backing` is its physical address and
memory type. -/
structure Cell where
  type : VMAType
  prot : MemoryProt
  name : String
  backing : Option (ℕ × ℤ)
  deriving DecidableEq, Repr

/-- The part of a physical byte a cell shows. -/
def backingOf (b : ℕ × Label) : ℕ × ℤ := (b.1, b.2.memoryType)

namespace VirtualMemoryArea

def cell (v : VirtualMemoryArea) (i : ℕ) : Cell :=
  ⟨v.type, v.prot, v.name, (bytes v.physAreas i).map backingOf⟩

end VirtualMemoryArea

def cells (m : VMAMap) : ℕ → Option Cell :=
  view VirtualMemoryArea.size VirtualMemoryArea.cell m

/-- The physical areas of a virtual area tile it, if its type has backing; else there are
none. -/
structure VmaOk (v : VirtualMemoryArea) : Prop where
  backed : hasPhysicalBacking v = true → PhysTiles v.physAreas {x | x < v.size}
  unbacked : hasPhysicalBacking v = false → v.physAreas = OrderedMap.empty

structure VmaMapOk (m : VMAMap) (U : Set ℕ) : Prop where
  tiles : Tiles VirtualMemoryArea.size m U
  base_eq : ∀ {k v}, m.get? k = some v → v.base = k
  bounded : ∀ {k v}, m.get? k = some v → k + v.size ≤ 9223372036854775808
  area : ∀ {k v}, m.get? k = some v → VmaOk v

/-- A property of the type and the physical range `[b, e)` of a piece of backing that
parts of the piece inherit. -/
def SubClosed (Q : VMAType → ℕ → ℕ → Prop) : Prop :=
  ∀ t b e b' e', Q t b e → b ≤ b' → e' ≤ e → Q t b' e'

/-- Every physical area of every virtual area satisfies `Q`. -/
def AllPieces (Q : VMAType → ℕ → ℕ → Prop) (m : VMAMap) : Prop :=
  ∀ k v, m.get? k = some v → ∀ x a, v.physAreas.get? x = some a →
    Q v.type a.base (a.base + a.size)

variable {m m' : VMAMap} {U : Set ℕ} {k k' p addr size off : ℕ}
  {v w : VirtualMemoryArea} {f : VirtualMemoryArea → VirtualMemoryArea}

theorem VmaMapOk.cells_eq (V : VmaMapOk m U) (h : m.get? k = some v) (hle : k ≤ p)
    (hlt : p < k + v.size) : cells m p = some (v.cell (p - k)) :=
  V.tiles.view_eq h hle hlt

theorem VmaMapOk.lt_of_mem (V : VmaMapOk m U) (hp : p ∈ U) : p < 9223372036854775808 := by
  obtain ⟨k, v, h, _, hlt⟩ := (V.tiles.mem_iff p).1 hp
  have := V.bounded h
  omega

/-- `m'` shows the same cells as `m`, and its pieces of backing are parts of those of
`m`. -/
structure VmaRecut (U : Set ℕ) (m m' : VMAMap) : Prop where
  ok : VmaMapOk m' U
  cells_eq : ∀ p, cells m' p = cells m p
  pieces : ∀ Q, SubClosed Q → AllPieces Q m → AllPieces Q m'

theorem VmaRecut.refl (V : VmaMapOk m U) : VmaRecut U m m := ⟨V, fun _ => rfl, fun _ _ h => h⟩

theorem VmaRecut.trans {m₁ m₂ m₃ : VMAMap} (h : VmaRecut U m₁ m₂) (h' : VmaRecut U m₂ m₃) :
    VmaRecut U m₁ m₃ :=
  ⟨h'.ok, fun p => (h'.cells_eq p).trans (h.cells_eq p),
    fun Q hQ hm => h'.pieces Q hQ (h.pieces Q hQ hm)⟩

def splitHalves (v : VirtualMemoryArea) (off : ℕ) : VirtualMemoryArea × VirtualMemoryArea :=
  if hasPhysicalBacking v then
    ({ v with size := off, physAreas := (splitPhysAreas v.physAreas off).1 },
      { v with base := v.base + off, size := v.size - off,
               physAreas := (splitPhysAreas v.physAreas off).2 })
  else ({ v with size := off }, { v with base := v.base + off, size := v.size - off })

theorem splitVMA_eq (V : VmaMapOk m U) (h : m.get? k = some v) (off : ℕ) :
    splitVMA m k off =
      if off < v.size ∧ 0 < off then
        .ok ((m.insert k (splitHalves v off).1).insert (k + off) (splitHalves v off).2, k + off)
      else .error (.assertion "Assertion Failed!") := by
  have hend := V.bounded h
  obtain rfl : v.base = k := V.base_eq h
  simp only [splitVMA, deref, h, pure_bind]
  by_cases hoff : off < v.size ∧ 0 < off
  · have hadd : add64 v.base off = v.base + off := add64_eq (by omega)
    have hsub : sub64 v.size off = v.size - off := sub64_eq (by omega) (by omega)
    have hnone : m.get? (v.base + off) = none :=
      V.tiles.get?_eq_none_of_mem h (by omega) (by omega)
    have hfresh : ∀ w w', (m.insert v.base w).emplace (v.base + off) w' =
        (m.insert v.base w).insert (v.base + off) w' := fun w w' => by
      rw [OrderedMap.emplace_of_get?_eq_none]
      rw [OrderedMap.get?_insert, if_neg (by omega), hnone]
    have hbacked : hasPhysicalBacking
        { v with base := v.base + off, size := v.size - off } = hasPhysicalBacking v := rfl
    rw [if_pos hoff]
    simp only [assertMsg, if_pos hoff, hadd, hsub, hbacked, splitHalves]
    split_ifs with hb <;> simp [hfresh, bind, Except.bind, pure, Except.pure]
  · simp [assertMsg, hoff, bind, Except.bind]

theorem splitHalves_fst_size (v : VirtualMemoryArea) (off : ℕ) :
    (splitHalves v off).1.size = off ∧ (splitHalves v off).1.base = v.base := by
  unfold splitHalves
  split <;> exact ⟨rfl, rfl⟩

theorem splitHalves_snd_size (v : VirtualMemoryArea) (off : ℕ) :
    (splitHalves v off).2.size = v.size - off ∧ (splitHalves v off).2.base = v.base + off := by
  unfold splitHalves
  split <;> exact ⟨rfl, rfl⟩

theorem splitHalves_ok (hv : VmaOk v) (hsize : v.size ≤ 9223372036854775808)
    (hoff : off < v.size) :
    VmaOk (splitHalves v off).1 ∧ VmaOk (splitHalves v off).2 ∧
      (∀ i < off, (splitHalves v off).1.cell i = v.cell i) ∧
      ∀ i, (splitHalves v off).2.cell i = v.cell (off + i) := by
  unfold splitHalves
  split
  · next hb =>
      obtain ⟨⟨P₁, hbytes₁⟩, P₂, hbytes₂⟩ := splitPhysAreas_ok (hv.backed hb) hsize hoff
      have hnb : ¬ hasPhysicalBacking v = false := by simp [hb]
      refine ⟨⟨fun _ => P₁, fun h => absurd h hnb⟩, ⟨fun _ => P₂, fun h => absurd h hnb⟩,
        fun i hi => ?_, fun i => ?_⟩
      · simp only [VirtualMemoryArea.cell, hbytes₁ i hi]
      · simp only [VirtualMemoryArea.cell, hbytes₂ i]
  · next hb =>
      have hb' : hasPhysicalBacking v = false := by simpa using hb
      have hempty := hv.unbacked hb'
      refine ⟨⟨fun h => absurd h hb, fun _ => hempty⟩, ⟨fun h => absurd h hb, fun _ => hempty⟩,
        fun i _ => rfl, fun i => ?_⟩
      simp only [VirtualMemoryArea.cell, hempty]
      rfl

theorem splitHalves_piece (off : ℕ) (hv : VmaOk v) (hsize : v.size ≤ 9223372036854775808) {x : ℕ}
    {b : PhysicalMemoryArea} (h : (splitHalves v off).1.physAreas.get? x = some b ∨
      (splitHalves v off).2.physAreas.get? x = some b) :
    ∃ k a, v.physAreas.get? k = some a ∧ a.base ≤ b.base ∧
      b.base + b.size ≤ a.base + a.size := by
  unfold splitHalves at h
  split at h
  · next hb => exact splitPhysAreas_piece (hv.backed hb) hsize h
  · rcases h with h | h <;> exact ⟨x, b, h, le_rfl, le_rfl⟩

theorem splitHalves_type (v : VirtualMemoryArea) (off : ℕ) :
    (splitHalves v off).1.type = v.type ∧ (splitHalves v off).2.type = v.type := by
  unfold splitHalves
  split <;> exact ⟨rfl, rfl⟩

theorem splitVMA_ok {r : VMAMap × ℕ} (V : VmaMapOk m U) (h : m.get? k = some v)
    (hr : splitVMA m k off = .ok r) :
    off < v.size ∧ 0 < off ∧ r.2 = k + off ∧ VmaRecut U m r.1 ∧
      ∀ x, r.1.get? x = if x = k + off then some (splitHalves v off).2
        else if x = k then some (splitHalves v off).1 else m.get? x := by
  rw [splitVMA_eq V h] at hr
  split_ifs at hr with hoff
  obtain rfl := (Except.ok.inj hr).symm
  have hget : ∀ x, ((m.insert k (splitHalves v off).1).insert (k + off)
      (splitHalves v off).2).get? x = if x = k + off then some (splitHalves v off).2
        else if x = k then some (splitHalves v off).1 else m.get? x := by
    intro x
    simp only [OrderedMap.get?_insert]
  have hend := V.bounded h
  have hbase := V.base_eq h
  obtain ⟨hsize₁, hbase₁⟩ := splitHalves_fst_size v off
  obtain ⟨hsize₂, hbase₂⟩ := splitHalves_snd_size v off
  obtain ⟨hok₁, hok₂, hcell₁, hcell₂⟩ := splitHalves_ok (V.area h) (by omega) hoff.1
  have hget' : ∀ x, ((m.insert k (splitHalves v off).1).insert (k + off)
      (splitHalves v off).2).get? x =
        if x = k + (splitHalves v off).1.size then some (splitHalves v off).2
        else if x = k then some (splitHalves v off).1 else m.get? x := by
    intro x
    rw [hget, hsize₁]
  refine ⟨hoff.1, hoff.2, rfl, ⟨⟨?_, ?_, ?_, ?_⟩, ?_, ?_⟩, hget⟩
  · exact V.tiles.cut h (by omega) (by omega) (by omega) hget'
  · intro x c hx
    rw [hget] at hx
    split_ifs at hx with h1 h2
    · cases hx
      omega
    · cases hx
      omega
    · exact V.base_eq hx
  · intro x c hx
    rw [hget] at hx
    split_ifs at hx with h1 h2
    · cases hx
      omega
    · cases hx
      omega
    · exact V.bounded hx
  · intro x c hx
    rw [hget] at hx
    split_ifs at hx with h1 h2
    · cases hx
      exact hok₂
    · cases hx
      exact hok₁
    · exact V.area hx
  · refine V.tiles.view_cut h (by omega) (by omega) (by omega) hget' (fun i hi => ?_)
      (fun i _ => ?_)
    · exact hcell₁ i (by omega)
    · rw [hcell₂, hsize₁]
  · intro Q hQ hm x c hx y b hy
    have hpiece : ∀ c, (c = (splitHalves v off).1 ∨ c = (splitHalves v off).2) →
        c.physAreas.get? y = some b → Q c.type b.base (b.base + b.size) := by
      intro c hc hy
      have htype : c.type = v.type := by
        rcases hc with rfl | rfl
        · exact (splitHalves_type v off).1
        · exact (splitHalves_type v off).2
      obtain ⟨z, a, ha, hle, hle'⟩ := splitHalves_piece off (V.area h) (by omega)
        (hc.elim (fun e => .inl (e ▸ hy)) fun e => .inr (e ▸ hy))
      rw [htype]
      exact hQ _ _ _ _ _ (hm k v h z a ha) hle hle'
    rw [hget] at hx
    split_ifs at hx with h1 h2
    · cases hx
      exact hpiece _ (.inr rfl) hy
    · cases hx
      exact hpiece _ (.inl rfl) hy
    · exact hm x c hx y b hy

structure VmaCarved (U : Set ℕ) (m : VMAMap) (addr size : ℕ) (m' : VMAMap) : Prop
    extends VmaRecut U m m' where
  area : ∃ v, m'.get? addr = some v ∧ v.size = size
  inside : ∃ k v, m.get? k = some v ∧ k ≤ addr ∧ addr + size ≤ k + v.size

theorem splitBackVMA_ok {stop : ℕ} (V : VmaMapOk m U) (h : m.get? k = some v)
    (hle : stop ≤ v.size)
    (hr : (if stop ≠ v.size then Prod.fst <$> splitVMA m k stop else pure m) = .ok m') :
    0 < stop ∧ VmaRecut U m m' ∧ ∃ w, m'.get? k = some w ∧ w.size = stop := by
  by_cases hstop : stop = v.size
  · subst hstop
    obtain rfl : m = m' := by simpa using hr
    exact ⟨V.tiles.pos h, VmaRecut.refl V, v, h, rfl⟩
  · rw [if_pos hstop] at hr
    obtain ⟨r, hsplit, rfl⟩ := Exec.map_eq_ok.1 hr
    obtain ⟨-, hpos, -, hcut, hget⟩ := splitVMA_ok V h hsplit
    exact ⟨hpos, hcut, _, by rw [hget, if_neg (by omega), if_pos rfl],
      (splitHalves_fst_size v stop).1⟩

theorem splitFrontVMA_ok {start : ℕ} {r : VMAMap × ℕ} (V : VmaMapOk m U)
    (h : m.get? k = some v)
    (hr : (if start ≠ 0 then splitVMA m k start else pure (m, k)) = .ok r) :
    start < v.size ∧ r.2 = k + start ∧ VmaRecut U m r.1 ∧
      ∃ w, r.1.get? (k + start) = some w ∧ w.size = v.size - start := by
  by_cases hstart : start = 0
  · subst hstart
    obtain rfl : (m, k) = r := by simpa using hr
    exact ⟨V.tiles.pos h, rfl, VmaRecut.refl V, v, h, rfl⟩
  · rw [if_pos hstart] at hr
    obtain ⟨hlt, -, hkey, hcut, hget⟩ := splitVMA_ok V h hr
    exact ⟨hlt, hkey, hcut, _, by rw [hget, if_pos rfl], (splitHalves_snd_size v start).1⟩

theorem carveVMA_ok {r : VMAMap × ℕ} (V : VmaMapOk m U)
    (haddr : addr < 18446744073709551616) (hsize : size < 18446744073709551616)
    (hr : carveVMA m addr size = .ok r) : r.2 = addr ∧ VmaCarved U m addr size r.1 := by
  obtain ⟨⟨k, v⟩, hfloor, hr⟩ := Exec.bind_eq_ok.1 hr
  obtain ⟨_, hle, hr⟩ := Exec.bind_eq_ok.1 hr
  obtain ⟨h, hkle, -⟩ := OrderedMap.floor_eq_some_iff.1 (findArea_eq_ok.1 hfloor)
  have hbase : v.base = k := V.base_eq h
  have hend := V.bounded h
  have hstart : sub64 addr v.base = addr - k := by rw [hbase, sub64_eq hkle haddr]
  simp only [hstart] at hr
  by_cases hwhole : addr - k = 0 ∧ size = v.size
  · rw [if_pos hwhole] at hr
    obtain rfl : (m, k) = r := by simpa using hr
    have hk : k = addr := by omega
    subst hk
    exact ⟨rfl, VmaRecut.refl V, ⟨v, h, hwhole.2.symm⟩, k, v, h, le_rfl, by omega⟩
  · rw [if_neg hwhole] at hr
    obtain ⟨_, hfit, hr⟩ := Exec.bind_eq_ok.1 hr
    obtain ⟨m₁, hback, hfront⟩ := Exec.bind_eq_ok.1 hr
    rw [assertMsg_eq_ok] at hfit
    obtain ⟨hpos, hcut₁, w₁, hget₁, hw₁⟩ := splitBackVMA_ok V h hfit hback
    obtain ⟨hlt, hr₂, hcut₂, w₂, hget₂, hw₂⟩ := splitFrontVMA_ok hcut₁.ok hget₁ hfront
    -- the start lies before the end, so the end did not wrap around
    have hstop : add64 (addr - k) size = addr - k + size := by
      unfold add64 at hw₁ ⊢
      omega
    rw [hstop] at hfit hw₁
    have haddr' : k + (addr - k) = addr := Nat.add_sub_cancel' hkle
    rw [haddr'] at hr₂ hget₂
    exact ⟨hr₂, hcut₁.trans hcut₂, ⟨w₂, hget₂, by omega⟩, k, v, h, hkle, by omega⟩

theorem carveVMA_returns (V : VmaMapOk m U) (h : m.get? k = some v) (hle : k ≤ addr)
    (hpos : 0 < size) (hend : addr + size ≤ k + v.size) :
    ∃ m', carveVMA m addr size = .ok (m', addr) := by
  have hbound := V.bounded h
  have hbase := V.base_eq h
  have hfloor : findArea m addr = .ok (k, v) :=
    findArea_eq_ok.2 (V.tiles.floor_eq h hle (by omega))
  have hstart : sub64 addr v.base = addr - k := by rw [hbase, sub64_eq hle (by omega)]
  have hstop : add64 (addr - k) size = addr - k + size := add64_eq (by omega)
  obtain ⟨r, hr⟩ : ∃ r, carveVMA m addr size = .ok r := by
    by_cases hwhole : addr - k = 0 ∧ size = v.size
    · refine ⟨(m, k), Exec.bind_eq_ok.2 ⟨_, hfloor, ?_⟩⟩
      refine Exec.bind_eq_ok.2 ⟨(), assertMsg_eq_ok.2 (by omega), ?_⟩
      simp only [hstart]
      rw [if_pos hwhole]
      rfl
    · obtain ⟨m₁, hback⟩ : ∃ m₁, (if addr - k + size ≠ v.size then
          Prod.fst <$> splitVMA m k (addr - k + size) else pure m) = Except.ok m₁ := by
        by_cases hs : addr - k + size = v.size
        · exact ⟨m, by simp [hs, pure, Except.pure]⟩
        · rw [if_pos hs, splitVMA_eq V h, if_pos ⟨by omega, by omega⟩]
          exact ⟨_, rfl⟩
      obtain ⟨-, hcut₁, w, hget₁, hw⟩ := splitBackVMA_ok V h (by omega) hback
      obtain ⟨r, hfront⟩ : ∃ r, (if addr - k ≠ 0 then splitVMA m₁ k (addr - k)
          else pure (m₁, k)) = Except.ok r := by
        by_cases hs : addr - k = 0
        · exact ⟨(m₁, k), by simp [hs, pure, Except.pure]⟩
        · rw [if_pos hs, splitVMA_eq hcut₁.ok hget₁, if_pos ⟨by omega, by omega⟩]
          exact ⟨_, rfl⟩
      refine ⟨r, Exec.bind_eq_ok.2 ⟨_, hfloor, ?_⟩⟩
      refine Exec.bind_eq_ok.2 ⟨(), assertMsg_eq_ok.2 (by omega), ?_⟩
      simp only [hstart, hstop]
      rw [if_neg hwhole]
      refine Exec.bind_eq_ok.2 ⟨(), assertMsg_eq_ok.2 (by omega), ?_⟩
      exact Exec.bind_eq_ok.2 ⟨m₁, hback, hfront⟩
  obtain ⟨hkey, -⟩ := carveVMA_ok V (by omega) (by omega) hr
  exact ⟨r.1, by rw [hr, ← hkey]⟩

/-! ### Merging -/

theorem canMergeWith_eq (v w : VirtualMemoryArea) :
    v.canMergeWith w =
      if (v.disallowMerge || w.disallowMerge) = true ∨ add64 v.base v.size ≠ w.base then
        .ok false
      else (fun continues => continues && decide
        (v.prot = w.prot ∧ v.type = w.type ∧ v.name = w.name)) <$> v.backingContinues w := by
  unfold VirtualMemoryArea.canMergeWith
  by_cases h1 : (v.disallowMerge || w.disallowMerge) = true
  · rw [if_pos h1, if_pos (.inl h1)]
    rfl
  · rw [if_neg h1]
    by_cases h2 : add64 v.base v.size ≠ w.base
    · rw [if_pos h2, if_pos (.inr h2)]
      rfl
    · rw [if_neg h2, if_neg (not_or.2 ⟨h1, h2⟩)]
      rcases v.backingContinues w with e | continues
      · rfl
      · simp only [bind, Except.bind, Functor.map, Except.map, pure, Except.pure]
        cases continues with
        | false => simp
        | true =>
            by_cases hprot : v.prot = w.prot <;> by_cases htype : v.type = w.type <;>
              by_cases hname : v.name = w.name <;> simp [hprot, htype, hname]

theorem canMergeWith_returns (hv : VmaOk v) (hw : VmaOk w) (hvpos : 0 < v.size)
    (hwpos : 0 < w.size) : ∃ merge, v.canMergeWith w = .ok merge := by
  have hentries : ∀ {u : VirtualMemoryArea}, VmaOk u → 0 < u.size → u.type = .direct →
      u.physAreas.entries ≠ [] := fun {u} hu hpos htype hnil => by
    have hP := hu.backed (by simp [hasPhysicalBacking, htype])
    obtain ⟨k, a, ha, -, -⟩ := (hP.tiles.mem_iff 0).1 hpos
    rw [OrderedMap.get?_eq_some_iff, hnil] at ha
    cases ha
  obtain ⟨continues, hcont⟩ : ∃ b, v.backingContinues w = .ok b := by
    unfold VirtualMemoryArea.backingContinues
    by_cases htype : v.type = .direct ∧ w.type = .direct
    · rw [if_pos htype]
      cases hlast : v.physAreas.last with
      | none =>
          exact absurd (List.getLast?_eq_none_iff.1 hlast) (hentries hv hvpos htype.1)
      | some e =>
          cases hfirst : w.physAreas.first with
          | none => exact absurd (List.head?_eq_none_iff.1 hfirst) (hentries hw hwpos htype.2)
          | some e' => exact ⟨_, rfl⟩
    · rw [if_neg htype]
      exact ⟨true, rfl⟩
  rw [canMergeWith_eq, hcont]
  split_ifs <;> exact ⟨_, rfl⟩

theorem canMergeWith_eq_true (hv : v.base + v.size ≤ 9223372036854775808)
    (h : v.canMergeWith w = .ok true) :
    v.base + v.size = w.base ∧ v.type = w.type ∧ v.prot = w.prot ∧ v.name = w.name := by
  rw [canMergeWith_eq, add64_eq (by omega)] at h
  split_ifs at h with h1
  · cases h
  · obtain ⟨continues, -, heq⟩ := Exec.map_eq_ok.1 h
    simp only [Bool.and_eq_true, decide_eq_true_eq] at heq
    obtain ⟨-, hprot, htype, hname⟩ := heq
    exact ⟨not_not.1 (not_or.1 h1).2, htype, hprot, hname⟩

theorem absorb_ok (hv : VmaOk v) (hw : VmaOk w)
    (hsize : v.size + w.size ≤ 9223372036854775808) (htype : v.type = w.type)
    (hprot : v.prot = w.prot) (hname : v.name = w.name) :
    VmaOk (absorb v w) ∧ (absorb v w).size = v.size + w.size ∧
      (∀ i < v.size, (absorb v w).cell i = v.cell i) ∧
      ∀ i < w.size, (absorb v w).cell (v.size + i) = w.cell i := by
  have hadd : add64 v.size w.size = v.size + w.size := add64_eq (by omega)
  have hbacking : hasPhysicalBacking (absorb v w) = hasPhysicalBacking v := rfl
  have hbacking' : hasPhysicalBacking w = hasPhysicalBacking v := by
    simp only [hasPhysicalBacking, htype]
  cases hb : hasPhysicalBacking v with
  | true =>
      obtain ⟨P, hbytes⟩ := appendPhysAreas_ok (hv.backed hb)
        (hw.backed (hbacking'.trans hb)) hsize
      refine ⟨⟨fun _ => ?_, fun h => ?_⟩, hadd, fun i hi => ?_, fun i hi => ?_⟩
      · simpa only [absorb, hadd] using P
      · rw [hbacking, hb] at h
        cases h
      · simp only [VirtualMemoryArea.cell, absorb, hbytes, if_pos hi]
      · rw [VirtualMemoryArea.cell, absorb, hbytes, if_neg (by omega),
          Nat.add_sub_cancel_left]
        simp only [VirtualMemoryArea.cell, htype, hprot, hname]
  | false =>
      have hempty : (absorb v w).physAreas = OrderedMap.empty := by
        simp only [absorb, hv.unbacked hb, hw.unbacked (hbacking'.trans hb)]
        rfl
      refine ⟨⟨fun h => ?_, fun _ => hempty⟩, hadd, fun i _ => ?_, fun i _ => ?_⟩
      · rw [hbacking, hb] at h
        cases h
      · rw [VirtualMemoryArea.cell, hempty, VirtualMemoryArea.cell, hv.unbacked hb]
        rfl
      · rw [VirtualMemoryArea.cell, hempty, VirtualMemoryArea.cell,
          hw.unbacked (hbacking'.trans hb), ← htype, ← hprot, ← hname]
        rfl

theorem VmaMapOk.joined (V : VmaMapOk m U) (h : m.get? k = some v)
    (hw : m.get? (k + v.size) = some w) (hmerge : v.canMergeWith w = .ok true)
    (hget : ∀ x, m'.get? x = if x = k + v.size then none
      else if x = k then some (absorb v w) else m.get? x) :
    VmaRecut U m m' := by
  have hbound := V.bounded h
  have hboundw := V.bounded hw
  have hbase := V.base_eq h
  obtain ⟨-, htype, hprot, hname⟩ := canMergeWith_eq_true (by omega) hmerge
  obtain ⟨hok, hsize, hcell, hcell'⟩ :=
    absorb_ok (V.area h) (V.area hw) (by omega) htype hprot hname
  refine ⟨⟨V.tiles.join h hw hsize hget, ?_, ?_, ?_⟩,
    V.tiles.view_join h hw hsize hget hcell hcell', ?_⟩
  · intro x c hx
    rw [hget] at hx
    split_ifs at hx with h1 h2
    · cases hx
      exact hbase.trans h2.symm
    · exact V.base_eq hx
  · intro x c hx
    rw [hget] at hx
    split_ifs at hx with h1 h2
    · cases hx
      omega
    · exact V.bounded hx
  · intro x c hx
    rw [hget] at hx
    split_ifs at hx with h1 h2
    · cases hx
      exact hok
    · exact V.area hx
  · intro Q _ hm x c hx y b hy
    rw [hget] at hx
    split_ifs at hx with h1 h2
    · cases hx
      have hb : b ∈ (absorb v w).physAreas.entries.map Prod.snd :=
        List.mem_map.2 ⟨_, OrderedMap.get?_eq_some_iff.1 hy, rfl⟩
      cases hbk : hasPhysicalBacking v with
      | true =>
          have hbk' : hasPhysicalBacking w = true := by
            rw [← hbk]
            simp only [hasPhysicalBacking, htype]
          simp only [absorb] at hb
          rw [appendPhysAreas_entries ((V.area h).backed hbk) ((V.area hw).backed hbk')
            (by omega), List.map_append, List.mem_append, List.map_map] at hb
          rcases hb with hb | hb
          · obtain ⟨⟨z, a⟩, hz, rfl⟩ := List.mem_map.1 hb
            exact hm k v h z a (OrderedMap.get?_eq_some_iff.2 hz)
          · obtain ⟨⟨z, a⟩, hz, rfl⟩ := List.mem_map.1 hb
            have hQ := hm _ w hw z a (OrderedMap.get?_eq_some_iff.2 hz)
            rwa [← htype] at hQ
      | false =>
          rw [hok.unbacked hbk] at hy
          cases hy
    · exact hm x c hx y b hy

theorem mergeNextVMA_ok (V : VmaMapOk m U) (h : m.get? k = some v) :
    ∃ m' v', mergeNextVMA m k v = .ok (m', v') ∧ VmaRecut U m m' ∧
      m'.get? k = some v' ∧ v.size ≤ v'.size := by
  have hbound := V.bounded h
  have hbase := V.base_eq h
  unfold mergeNextVMA
  split
  · next k' w hnext =>
      obtain ⟨hw, hlt, -⟩ := OrderedMap.next_eq_some_iff.1 hnext
      have hboundw := V.bounded hw
      obtain ⟨merge, hmerge⟩ :=
        canMergeWith_returns (V.area h) (V.area hw) (V.tiles.pos h) (V.tiles.pos hw)
      rw [hmerge]
      cases merge with
      | false => exact ⟨m, v, rfl, VmaRecut.refl V, h, le_rfl⟩
      | true =>
          obtain ⟨hcont, htype, hprot, hname⟩ := canMergeWith_eq_true (by omega) hmerge
          have hbasew := V.base_eq hw
          have hk' : k' = k + v.size := by omega
          subst hk'
          obtain ⟨-, hsize, -⟩ :=
            absorb_ok (V.area h) (V.area hw) (by omega) htype hprot hname
          refine ⟨_, _, rfl, V.joined h hw hmerge fun x => ?_, ?_, by omega⟩
          · simp only [OrderedMap.get?_erase, OrderedMap.get?_insert]
          · rw [OrderedMap.get?_erase, if_neg (by omega), OrderedMap.get?_insert,
              if_pos rfl]
  · exact ⟨m, v, rfl, VmaRecut.refl V, h, le_rfl⟩

theorem mergePrevVMA_ok (V : VmaMapOk m U) (h : m.get? k = some v) :
    ∃ m' k' v', mergePrevVMA m k v = .ok (m', k') ∧ VmaRecut U m m' ∧
      m'.get? k' = some v' ∧ k' ≤ k ∧ k + v.size ≤ k' + v'.size := by
  unfold mergePrevVMA
  split
  · next k' w hprev =>
      obtain ⟨hw, hlt, -⟩ := OrderedMap.prev_eq_some_iff.1 hprev
      have hbound := V.bounded h
      have hboundw := V.bounded hw
      have hbasew := V.base_eq hw
      obtain ⟨merge, hmerge⟩ :=
        canMergeWith_returns (V.area hw) (V.area h) (V.tiles.pos hw) (V.tiles.pos h)
      rw [hmerge]
      cases merge with
      | false => exact ⟨m, k, v, rfl, VmaRecut.refl V, h, le_rfl, le_rfl⟩
      | true =>
          obtain ⟨hcont, htype, hprot, hname⟩ := canMergeWith_eq_true (by omega) hmerge
          have hbase := V.base_eq h
          have hk : k' + w.size = k := by omega
          subst hk
          obtain ⟨-, hsize, -⟩ :=
            absorb_ok (V.area hw) (V.area h) (by omega) htype hprot hname
          refine ⟨_, k', absorb w v, rfl, V.joined hw h hmerge fun x => ?_, ?_, by omega,
            by omega⟩
          · simp only [OrderedMap.get?_erase, OrderedMap.get?_insert]
          · rw [OrderedMap.get?_erase, if_neg (by omega), OrderedMap.get?_insert,
              if_pos rfl]
  · exact ⟨m, k, v, rfl, VmaRecut.refl V, h, le_rfl, le_rfl⟩

theorem mergeAdjacentVMA_ok (V : VmaMapOk m U) (h : m.get? k = some v) :
    ∃ m' k' v', mergeAdjacentVMA m k = .ok (m', k') ∧ VmaRecut U m m' ∧
      m'.get? k' = some v' ∧ k' ≤ k ∧ k + v.size ≤ k' + v'.size := by
  obtain ⟨m₁, v₁, hnext, hcut, hget, hle⟩ := mergeNextVMA_ok V h
  obtain ⟨m₂, k₂, v₂, hprev, hcut', hget', hle', hle''⟩ := mergePrevVMA_ok hcut.ok hget
  refine ⟨m₂, k₂, v₂, ?_, hcut.trans hcut', hget', hle', by omega⟩
  exact Exec.bind_eq_ok.2 ⟨v, deref_eq_ok.2 h, Exec.bind_eq_ok.2 ⟨_, hnext, hprev⟩⟩

/-! ### Assignments to an area -/

theorem VmaMapOk.modify (V : VmaMapOk m U) (h : m.get? k = some v)
    (hbase : (f v).base = v.base) (hsize : (f v).size = v.size) (hok : VmaOk (f v)) :
    VmaMapOk (m.modify k f) U ∧
      (∀ p, cells (m.modify k f) p =
        if k ≤ p ∧ p < k + v.size then some ((f v).cell (p - k)) else cells m p) ∧
      (m.modify k f).get? k = some (f v) := by
  have hget : ∀ x, (m.modify k f).get? x = if x = k then some (f v) else m.get? x :=
    fun x => by rw [OrderedMap.get?_modify, h, Option.map_some]
  refine ⟨⟨V.tiles.set h hsize hget, ?_, ?_, ?_⟩, V.tiles.view_set h hsize hget,
    by rw [hget, if_pos rfl]⟩
  · intro x c hx
    rw [hget] at hx
    split_ifs at hx with h1
    · cases hx
      rw [hbase, h1, V.base_eq h]
    · exact V.base_eq hx
  · intro x c hx
    rw [hget] at hx
    split_ifs at hx with h1
    · cases hx
      rw [hsize, h1]
      exact V.bounded h
    · exact V.bounded hx
  · intro x c hx
    rw [hget] at hx
    split_ifs at hx with h1
    · cases hx
      exact hok
    · exact V.area hx

theorem AllPieces.modify {Q : VMAType → ℕ → ℕ → Prop} (hm : AllPieces Q m)
    (h : m.get? k = some v) (hf : ∀ x a, (f v).physAreas.get? x = some a →
      Q (f v).type a.base (a.base + a.size)) : AllPieces Q (m.modify k f) := by
  intro x c hx
  rw [OrderedMap.get?_modify, h, Option.map_some] at hx
  split_ifs at hx with h1
  · cases hx
    exact hf
  · exact hm x c hx

end OrbitConsole.Memory
