import OrbitConsole.Core.Memory.UnmapLoopSpec

/-!
# What backing a new area does

The loops of `MapMemory` and `PoolCommit` collect physical memory piece by
piece: each piece is relabelled in the physical map and added to the areas of
the new mapping. `Backed U m₀ g m pa n` is their invariant: `pa` tiles the
first `n` bytes, `m` is `m₀` with the bytes of `pa` relabelled, `pa` repeats the
labels of `m`, and every entry of `pa` lies in one area of `m`.
-/

namespace OrbitConsole.Memory

open Exec Tiling

variable {U : Set ℕ} {m₀ m m' pa : PhysMap} {g : Label → Label} {n : ℕ}
  {f : PhysicalMemoryArea → PhysicalMemoryArea}

def physBytes (pa : PhysMap) : Set ℕ := {p | ∃ i l, bytes pa i = some (p, l)}

structure Backed (U : Set ℕ) (m₀ : PhysMap) (g : Label → Label) (m pa : PhysMap) (n : ℕ) :
    Prop where
  tiles : PhysTiles pa {x | x < n}
  effect : PhysEffect U m₀ (physBytes pa) g m
  label : ∀ {i p l}, bytes pa i = some (p, l) → labels m p = some l
  injective : ∀ {i j p l l'}, bytes pa i = some (p, l) → bytes pa j = some (p, l') → i = j
  unbroken : ∀ {x a}, pa.get? x = some a → Unbroken m a.base (a.base + a.size)

theorem bytes_empty (i : ℕ) : bytes OrderedMap.empty i = none := rfl

theorem physBytes_empty : physBytes OrderedMap.empty = ∅ := by
  ext p
  simp [physBytes, bytes_empty]

theorem Backed.start (P : PhysMapOk m U) : Backed U m g m OrderedMap.empty 0 := by
  refine ⟨⟨⟨?_, ?_, fun p => ⟨fun hp => absurd hp (Nat.not_lt_zero p), ?_⟩⟩, ?_⟩, ?_, ?_, ?_, ?_⟩
  · intro k a h
    cases h
  · intro k a k' a' h
    cases h
  · rintro ⟨k, a, h, -⟩
    cases h
  · intro k a h
    cases h
  · rw [physBytes_empty]
    exact PhysEffect.refl P
  · intro i p l h
    cases h
  · intro i j p l l' h
    cases h
  · intro x a h
    cases h

theorem PhysTiles.insert_last {a : PhysicalMemoryArea} (P : PhysTiles pa {x | x < n})
    (hpos : 0 < a.size) (hbound : a.base + a.size ≤ 9223372036854775808) :
    PhysTiles (pa.insert n a) {x | x < n + a.size} ∧
      ∀ i, bytes (pa.insert n a) i =
        if i < n then bytes pa i
        else if i < n + a.size then some (a.base + (i - n), a.label) else none := by
  have hfresh : pa.get? n = none := by
    cases h : pa.get? n with
    | none => rfl
    | some b =>
        have := P.tiles.pos h
        exact absurd (P.tiles.mem_of_get? h le_rfl (by omega)) (lt_irrefl n)
  have hsingle : ∀ x b, (OrderedMap.empty.insert 0 a : PhysMap).get? x = some b ↔
      x = 0 ∧ a = b := by
    intro x b
    rw [OrderedMap.get?_insert]
    split_ifs with h <;> simp [h]
  have hget : ∀ x b, (pa.insert n a).get? x = some b ↔
      pa.get? x = some b ∨
        ∃ k, (OrderedMap.empty.insert 0 a : PhysMap).get? k = some b ∧ x = n + k := by
    intro x b
    simp only [hsingle]
    rw [OrderedMap.get?_insert]
    split_ifs with h
    · subst h
      simp [hfresh]
    · simp only [iff_self_or]
      rintro ⟨k, ⟨rfl, -⟩, hx⟩
      exact absurd hx h
  have T : Tiles PhysicalMemoryArea.size (OrderedMap.empty.insert 0 a : PhysMap)
      {x | x < a.size} := by
    refine ⟨fun {k b} hk => ?_, fun {k b k' b'} hk hk' hlt => ?_, fun p => ?_⟩
    · obtain ⟨-, rfl⟩ := (hsingle k b).1 hk
      exact hpos
    · obtain ⟨rfl, -⟩ := (hsingle k b).1 hk
      obtain ⟨rfl, -⟩ := (hsingle k' b').1 hk'
      omega
    · constructor
      · intro hp
        exact ⟨0, a, (hsingle 0 a).2 ⟨rfl, rfl⟩, Nat.zero_le p, by simpa using hp⟩
      · rintro ⟨k, b, hk, -, hlt⟩
        obtain ⟨rfl, rfl⟩ := (hsingle k b).1 hk
        simpa using hlt
  have Tall := P.tiles.append T hget
  refine ⟨⟨Tall, fun {x b} hx => ?_⟩, fun i => ?_⟩
  · rcases (hget x b).1 hx with hx | ⟨k, hk, -⟩
    · exact P.bounded hx
    · obtain ⟨-, rfl⟩ := (hsingle k b).1 hk
      exact hbound
  · rw [bytes, P.tiles.view_append T hget i]
    split_ifs with h1 h2
    · rfl
    · rw [T.view_eq ((hsingle 0 a).2 ⟨rfl, rfl⟩) (Nat.zero_le _) (by omega)]
      rfl
    · refine T.view_eq_none fun hmem => h2 ?_
      have : i - n < a.size := hmem
      omega

theorem Backed.add (h : Backed U m₀ g m pa n) (hf : Relabels f g) (hg : ∀ l, g (g l) = g l)
    {addr len handle k' : ℕ} {area : PhysicalMemoryArea} {pa' : PhysMap}
    (haddr : addr < 18446744073709551616) (hlen : len < 18446744073709551616)
    (hfresh : ∀ p, addr ≤ p → p < addr + len → p ∉ physBytes pa)
    (hr : relabelPhysArea m addr len f = .ok (m', handle, area))
    (hmerge : mergeAdjacentPhys (pa.insert n area) n = .ok (pa', k')) :
    Backed U m₀ g m' pa' (n + len) ∧
      physBytes pa' = physBytes pa ∪ Set.Ico addr (addr + len) ∧
      ∀ i, bytes pa' i = if i < n then bytes pa i
        else if i < n + len then some (addr + (i - n), area.label) else none := by
  obtain ⟨hrel, ⟨hbase, hsize, hlabel⟩, -, hstart⟩ :=
    relabelPhysArea_ok h.effect.ok hf haddr hlen hr
  have hpos := hrel.pos
  obtain ⟨k, b, hk, hkle, hkend⟩ := hrel.inside
  have hbound := h.effect.ok.end_le hk
  obtain ⟨P₁, hbytes₁⟩ := h.tiles.insert_last (a := area) (by omega) (by omega)
  have hconvex : ∀ p q r, p ∈ {x | x < n + area.size} → q ∈ {x | x < n + area.size} →
      p < r → r < q → r ∈ {x | x < n + area.size} := by
    intro p q r _ hq _ hrq
    have hq' : q < n + area.size := hq
    exact hrq.trans hq'
  obtain ⟨pa'', k'', hmerge', hcoarse, -, hcut, hbefore⟩ :=
    mergeAdjacentPhys_ok P₁ (P₁.seamless_of_convex hconvex)
      (show (pa.insert n area).get? n = some area by
        rw [OrderedMap.get?_insert, if_pos rfl])
  obtain ⟨rfl, rfl⟩ : pa'' = pa' ∧ k'' = k' := by simpa [hmerge] using hmerge'.symm
  have hbytes : ∀ i, bytes pa'' i = if i < n then bytes pa i
      else if i < n + len then some (addr + (i - n), area.label) else none := by
    intro i
    rw [hcoarse.bytes_eq, hbytes₁, hbase, hsize]
  -- the bytes of the piece, and those collected before
  have hnew : ∀ {i p l}, bytes pa'' i = some (p, l) → n ≤ i →
      i < n + len ∧ p = addr + (i - n) ∧ l = area.label := by
    intro i p l hi hni
    rw [hbytes, if_neg (by omega)] at hi
    split_ifs at hi with hlt
    cases hi
    exact ⟨hlt, rfl, rfl⟩
  have hold : ∀ {i p l}, bytes pa'' i = some (p, l) → i < n →
      bytes pa i = some (p, l) ∧ ¬(addr ≤ p ∧ p < addr + len) := by
    intro i p l hi hlt
    rw [hbytes, if_pos hlt] at hi
    exact ⟨hi, fun hp => hfresh p hp.1 hp.2 ⟨i, l, hi⟩⟩
  have hset : physBytes pa'' = physBytes pa ∪ Set.Ico addr (addr + len) := by
    ext p
    constructor
    · rintro ⟨i, l, hi⟩
      rcases Nat.lt_or_ge i n with hlt | hge
      · exact .inl ⟨i, l, (hold hi hlt).1⟩
      · obtain ⟨hlt, rfl, -⟩ := hnew hi hge
        exact .inr ⟨by omega, by omega⟩
    · rintro (⟨i, l, hi⟩ | ⟨hp, hp'⟩)
      · have hlt : i < n := h.tiles.tiles.view_isSome_iff.1 (by rw [← bytes, hi]; rfl)
        exact ⟨i, l, by rw [hbytes, if_pos hlt, hi]⟩
      · refine ⟨n + (p - addr), area.label, ?_⟩
        rw [hbytes, if_neg (by omega), if_pos (by omega), Nat.add_sub_cancel_left,
          Nat.add_sub_cancel' hp]
  refine ⟨⟨?_, ?_, ?_, ?_, ?_⟩, hset, hbytes⟩
  · rw [← hsize]
    exact hcoarse.tiles
  · exact (h.effect.trans hg (hrel.effect h.effect.ok)).congr hset.symm
  · intro i p l hi
    rcases Nat.lt_or_ge i n with hlt | hge
    · obtain ⟨hi', hout⟩ := hold hi hlt
      rw [hrel.labels_eq, relabel, if_neg hout, h.label hi']
    · obtain ⟨hlt, rfl, rfl⟩ := hnew hi hge
      exact hlabel _ (by omega) (by omega)
  · intro i j p l l' hi hj
    rcases Nat.lt_or_ge i n with hin | hin <;> rcases Nat.lt_or_ge j n with hjn | hjn
    · exact h.injective (hold hi hin).1 (hold hj hjn).1
    · obtain ⟨hlt, rfl, -⟩ := hnew hj hjn
      exact absurd ⟨by omega, by omega⟩ (hold hi hin).2
    · obtain ⟨hlt, rfl, -⟩ := hnew hi hin
      exact absurd ⟨by omega, by omega⟩ (hold hj hjn).2
    · obtain ⟨-, hp, -⟩ := hnew hi hin
      obtain ⟨-, hq, -⟩ := hnew hj hjn
      omega
  · intro x a hx y hy hy'
    -- `y` is the byte at the offset `i`, and the byte before it is in the same entry
    obtain ⟨i, hi⟩ : ∃ i, i = x + (y - a.base) := ⟨_, rfl⟩
    have hbi : bytes pa'' i = some (y, a.label) := by
      rw [hi, hcoarse.tiles.bytes_eq hx (by omega) (by omega)]
      simp only [Option.some.injEq, Prod.mk.injEq, and_true]
      omega
    have hbi' : bytes pa'' (i - 1) = some (y - 1, a.label) := by
      rw [hi, hcoarse.tiles.bytes_eq hx (by omega) (by omega)]
      simp only [Option.some.injEq, Prod.mk.injEq, and_true]
      omega
    have hcutless : pa''.get? i = none :=
      hcoarse.tiles.tiles.get?_eq_none_of_mem hx (by omega) (by omega)
    rcases Nat.lt_trichotomy i n with hlt | heq | hgt
    · -- both bytes were collected before, in one entry
      obtain ⟨hi₁, hout⟩ := hold hbi hlt
      obtain ⟨hi₂, hout'⟩ := hold hbi' (by omega)
      have hnokey : pa.get? i = none := by
        by_contra hne
        have hkey := hbefore i hlt (by
          rw [OrderedMap.get?_insert, if_neg (by omega)]
          exact Option.isSome_iff_ne_none.2 hne)
        rw [hcutless] at hkey
        cases hkey
      obtain ⟨z, c, hz, hzle, hzlt, hzeq⟩ := h.tiles.tiles.view_eq_some_iff.1 hi₁
      have hzi : z ≠ i := by
        rintro rfl
        rw [hnokey] at hz
        cases hz
      simp only [PhysicalMemoryArea.byte, Prod.mk.injEq] at hzeq
      by_contra hne
      rcases hrel.key y (Option.isSome_iff_ne_none.2 hne) with hkey | rfl | rfl
      · rw [h.unbroken hz y (by omega) (by omega)] at hkey
        cases hkey
      · exact hout ⟨le_rfl, by omega⟩
      · exact hout' ⟨by omega, by omega⟩
    · -- the piece starts here, and was merged with the entry before it
      subst heq
      obtain ⟨-, hy₀, hl⟩ := hnew hbi le_rfl
      obtain ⟨hi₂, -⟩ := hold hbi' (by omega)
      have hyaddr : y = addr := by omega
      subst hyaddr
      by_contra hne
      refine hstart (Option.isSome_iff_ne_none.2 hne) (by omega) ?_
      rw [h.label hi₂, hl]
    · -- inside the piece, which lies in one area
      obtain ⟨hlt, hy₀, -⟩ := hnew hbi hgt.le
      by_contra hne
      rcases hrel.key y (Option.isSome_iff_ne_none.2 hne) with hkey | hkey | hkey
      · rw [h.effect.ok.tiles.get?_eq_none_of_mem hk (by omega) (by omega)] at hkey
        cases hkey
      · omega
      · omega

/-! ### One piece -/

theorem add64_add64 (a b c : ℕ) : add64 (add64 a b) c = add64 a (b + c) := by
  unfold add64
  omega

structure Backing.At (b : Backing) (start usage size n : ℕ) : Prop where
  le : n ≤ size
  remaining : b.remainingSize = size - n
  current : b.currentAddr = start + n
  usage : b.usage = add64 usage n

variable {b b' : Backing} {start usage size addr len handle : ℕ}

theorem Backing.At.add (h : Backing.At b start usage size n) (hlen : n + len ≤ size)
    (hsize : size < 18446744073709551616) (hlt : start + n + len < 18446744073709551616)
    (hremaining : b'.remainingSize = sub64 b.remainingSize len)
    (hcurrent : b'.currentAddr = add64 b.currentAddr len)
    (husage : b'.usage = add64 b.usage len) : Backing.At b' start usage size (n + len) := by
  refine ⟨hlen, ?_, ?_, ?_⟩
  · rw [hremaining, h.remaining, sub64_eq (by omega) (by omega)]
    omega
  · rw [hcurrent, h.current, add64_eq (by omega)]
    omega
  · rw [husage, h.usage, add64_add64]

theorem Backing.add_ok (h : Backed U m₀ g b.map b.physAreas n) (hf : Relabels f g)
    (hg : ∀ l, g (g l) = g l) (haddr : addr < 18446744073709551616)
    (hlen : len < 18446744073709551616)
    (hfresh : ∀ p, addr ≤ p → p < addr + len → p ∉ physBytes b.physAreas)
    (hr : b.add addr len n f = .ok (b', handle)) :
    Backed U m₀ g b'.map b'.physAreas (n + len) ∧
      physBytes b'.physAreas = physBytes b.physAreas ∪ Set.Ico addr (addr + len) ∧
      (∃ l, ∀ i, bytes b'.physAreas i = if i < n then bytes b.physAreas i
        else if i < n + len then some (addr + (i - n), l) else none) ∧
      (∃ area, relabelPhysArea b.map addr len f = .ok (b'.map, handle, area)) ∧
      b'.remainingSize = sub64 b.remainingSize len ∧
      b'.currentAddr = add64 b.currentAddr len ∧ b'.usage = add64 b.usage len := by
  obtain ⟨⟨m', handle', area⟩, hrel, hr⟩ := bind_eq_ok.1 hr
  obtain ⟨⟨pa', k'⟩, hmerge, hr⟩ := bind_eq_ok.1 hr
  cases hr
  obtain ⟨hB, hset, hbytes⟩ := h.add hf hg haddr hlen hfresh hrel hmerge
  exact ⟨hB, hset, ⟨_, hbytes⟩, ⟨area, hrel⟩, rfl, rfl, rfl⟩

/-! ### Direct memory -/

theorem Backing.direct_ok (hsize : size < 18446744073709551616) (rounds : ℕ)
    (hlt : start + n < 18446744073709551616)
    (hB : Backed U m₀ (Label.setDma .mapped) b.map b.physAreas n)
    (hat : Backing.At b start usage size n)
    (hbytes : ∀ i < n, ∃ l, bytes b.physAreas i = some (start + i, l))
    (hr : Backing.direct start rounds b = .ok b') :
    Backed U m₀ (Label.setDma .mapped) b'.map b'.physAreas size ∧
      b'.remainingSize = 0 ∧
      ∀ i < size, ∃ l, bytes b'.physAreas i = some (start + i, l) := by
  induction rounds generalizing b n with
  | zero => cases hr
  | succ rounds ih =>
      rw [Backing.direct] at hr
      split at hr
      · next hzero =>
          cases hr
          have hn : n = size := by
            have := hat.remaining
            have := hat.le
            omega
          subst hn
          exact ⟨hB, hzero, hbytes⟩
      · next hmore =>
          obtain ⟨⟨k, a⟩, hfind, hr⟩ := bind_eq_ok.1 hr
          obtain ⟨⟨b₁, handle⟩, hadd, hr⟩ := bind_eq_ok.1 hr
          obtain ⟨hk, hle, -⟩ := OrderedMap.floor_eq_some_iff.1 (findArea_eq_ok.1 hfind)
          have hbase := hB.effect.ok.base_eq hk
          have hend := hB.effect.ok.end_le hk
          have hcur := hat.current
          have hrem := hat.remaining
          have hnle := hat.le
          have hmax : max b.currentAddr a.base = start + n := by omega
          have hoff : sub64 (start + n) start = n := by
            rw [sub64_eq (by omega) (by omega)]
            omega
          have hlt64 : min (sub64 a.size (sub64 (start + n) a.base)) b.remainingSize <
              18446744073709551616 := by omega
          rw [hmax, hcur, hoff] at hadd
          have hfresh : ∀ p, start + n ≤ p →
              p < start + n + min (sub64 a.size (sub64 (start + n) a.base)) b.remainingSize →
              p ∉ physBytes b.physAreas := by
            rintro p hp - ⟨i, l, hi⟩
            have hin : i < n := hB.tiles.tiles.view_isSome_iff.1 (by rw [← bytes, hi]; rfl)
            obtain ⟨l', hi'⟩ := hbytes i hin
            rw [hi] at hi'
            cases hi'
            omega
          obtain ⟨hB₁, -, ⟨l, hbytes₁⟩, ⟨area, hrel⟩, h1, h2, h3⟩ :=
            Backing.add_ok hB (relabels_setDma .mapped) (fun _ => rfl) (by omega) hlt64 hfresh
              hadd
          -- a piece that was carved lies in the map, so no address has wrapped around
          obtain ⟨x, c, hc, hcle, hcend⟩ := (relabelPhysArea_ok hB.effect.ok
            (relabels_setDma .mapped) (by omega) hlt64 hrel).1.inside
          have hcbound := hB.effect.ok.end_le hc
          refine ih (by omega) hB₁ (hat.add (by omega) hsize (by omega) h1 h2 h3)
            (fun i hi => ?_) hr
          rw [hbytes₁]
          split_ifs with hin
          · exact hbytes i hin
          · exact ⟨l, by rw [show start + n + (i - n) = start + i by omega]⟩

/-! ### Scattered memory -/

/-- The bytes of type `wanted` from the handle on; `none` is `end ()`. -/
def wantedFrom (wanted : PhysicalMemoryType) (m : PhysMap) (handle : Option ℕ) : Set ℕ :=
  {p | ∃ q, handle = some q ∧ q ≤ p ∧ ∃ l, labels m p = some l ∧ l.dmaType = wanted}

theorem wantedFrom_finite (P : PhysMapOk m U) (wanted : PhysicalMemoryType)
    (handle : Option ℕ) : (wantedFrom wanted m handle).Finite := by
  refine (Set.finite_Iio 9223372036854775808).subset ?_
  rintro p ⟨q, -, -, l, hl, -⟩
  exact P.lt_of_mem (P.labels_isSome_iff.1 (by rw [hl]; rfl))

theorem wantedFrom_next {wanted : PhysicalMemoryType} {q : ℕ} {a : PhysicalMemoryArea}
    (P : PhysMapOk m U) (h : m.get? q = some a) {p : ℕ} {l : Label} (hp : q ≤ p)
    (hl : labels m p = some l) (hwanted : l.dmaType = wanted) :
    (p < q + a.size ∧ l = a.label) ∨
      p ∈ wantedFrom wanted m ((m.next q).map Prod.fst) := by
  have hpU := P.labels_isSome_iff.1 (show (labels m p).isSome by rw [hl]; rfl)
  obtain ⟨k, c, hk, hle, hlt⟩ := (P.tiles.mem_iff p).1 hpU
  have hlc : l = c.label := by
    rw [P.labels_eq hk hle hlt] at hl
    exact (Option.some.inj hl).symm
  rcases Nat.lt_trichotomy k q with hkq | rfl | hqk
  · have := P.tiles.disjoint hk h hkq
    omega
  · obtain rfl : c = a := by simpa [hk] using h
    exact .inl ⟨hlt, hlc⟩
  · right
    cases hnext : m.next q with
    | none =>
        have := OrderedMap.next_eq_none_iff.1 hnext k c hk
        omega
    | some e =>
        obtain ⟨k', c'⟩ := e
        obtain ⟨-, -, hmin⟩ := OrderedMap.next_eq_some_iff.1 hnext
        exact ⟨k', rfl, (hmin k c hk hqk).trans hle, l, hl, hwanted⟩

theorem entriesFrom_length_lt {m₁ m₂ : PhysMap} {q q' : ℕ} {a : PhysicalMemoryArea}
    (hq : m₁.get? q = some a)
    (h : ∀ x, q' ≤ x → (m₂.get? x).isSome → q < x ∧ (m₁.get? x).isSome) :
    (m₂.entriesFrom q').length < (m₁.entriesFrom q).length := by
  have hnodup : ∀ (m : PhysMap) k, ((m.entriesFrom k).map Prod.fst).Nodup := by
    intro m k
    rw [List.Nodup, List.pairwise_map]
    exact (m.entriesFrom_sorted k).imp fun hlt => hlt.ne
  have hsub : (q :: (m₂.entriesFrom q').map Prod.fst) ⊆ (m₁.entriesFrom q).map Prod.fst := by
    intro x hx
    rcases List.mem_cons.1 hx with rfl | hx
    · exact List.mem_map.2 ⟨(x, a), OrderedMap.mem_entriesFrom.2 ⟨hq, le_rfl⟩, rfl⟩
    · obtain ⟨⟨y, c⟩, hy, rfl⟩ := List.mem_map.1 hx
      obtain ⟨hy, hle⟩ := OrderedMap.mem_entriesFrom.1 hy
      obtain ⟨hlt, hsome⟩ := h y hle (by rw [hy]; rfl)
      obtain ⟨d, hd⟩ := Option.isSome_iff_exists.1 hsome
      exact List.mem_map.2 ⟨(y, d), OrderedMap.mem_entriesFrom.2 ⟨hd, hlt.le⟩, rfl⟩
  have hcons : (q :: (m₂.entriesFrom q').map Prod.fst).Nodup := by
    refine List.nodup_cons.2 ⟨fun hmem => ?_, hnodup m₂ q'⟩
    obtain ⟨⟨y, c⟩, hy, heq⟩ := List.mem_map.1 hmem
    obtain ⟨hy, hle⟩ := OrderedMap.mem_entriesFrom.1 hy
    have := (h y hle (by rw [hy]; rfl)).1
    simp only at heq
    omega
  have hle := (List.subperm_of_subset hcons hsub).length_le
  simpa using hle

theorem Relabelled.key_of_whole {a : PhysicalMemoryArea} {q x : ℕ}
    (h : Relabelled U m q a.size g m') (P : PhysMapOk m U) (hq : m.get? q = some a)
    (hx : (m'.get? x).isSome) : (m.get? x).isSome := by
  rcases h.key x hx with hx | rfl | rfl
  · exact hx
  · rw [hq]
    rfl
  · -- the byte behind the area is covered by an area that starts there
    obtain ⟨c, hc⟩ := Option.isSome_iff_exists.1 hx
    have hmem : q + a.size ∈ U :=
      h.ok.tiles.mem_of_get? hc le_rfl (by have := h.ok.tiles.pos hc; omega)
    obtain ⟨k, d, hk, hle, hlt⟩ := (P.tiles.mem_iff _).1 hmem
    have hpos := P.tiles.pos hq
    rcases Nat.lt_trichotomy k q with hkq | rfl | hqk
    · have := P.tiles.disjoint hk hq hkq
      omega
    · obtain rfl : d = a := by simpa [hk] using hq
      omega
    · have := P.tiles.disjoint hq hk hqk
      obtain rfl : k = q + a.size := by omega
      rw [hk]
      rfl

theorem next_key {k q : ℕ} (h : (m.next k).map Prod.fst = some q) :
    (m.get? q).isSome ∧ k < q := by
  obtain ⟨⟨x, c⟩, hx, rfl⟩ := Option.map_eq_some_iff.1 h
  obtain ⟨hx, hlt, -⟩ := OrderedMap.next_eq_some_iff.1 hx
  exact ⟨by rw [hx]; rfl, hlt⟩

/-- A piece at the start of an area can be added. -/
theorem Backing.add_returns {b : Backing} {a : PhysicalMemoryArea} {q k : ℕ}
    (hB : Backed U m₀ g b.map b.physAreas n) (hf : Relabels f g) (ha : b.map.get? q = some a)
    (hpos : 0 < k) (hle : k ≤ a.size) : ∃ r, b.add q k n f = .ok r := by
  have P := hB.effect.ok
  have hbase := P.base_eq ha
  have hend := P.end_le ha
  obtain ⟨⟨m', h', area⟩, hrel⟩ := relabelPhysArea_returns P hf ha le_rfl hpos (by omega)
  obtain ⟨-, ⟨hab, has, -⟩, -⟩ := relabelPhysArea_ok P hf (by omega) (by omega) hrel
  obtain ⟨P₁, -⟩ := hB.tiles.insert_last (a := area) (by omega) (by omega)
  have hconvex : ∀ p q r, p ∈ {x | x < n + area.size} → q ∈ {x | x < n + area.size} →
      p < r → r < q → r ∈ {x | x < n + area.size} := by
    intro p q r _ hq _ hrq
    have hq' : q < n + area.size := hq
    exact hrq.trans hq'
  obtain ⟨pa', k', hmerge, -⟩ := mergeAdjacentPhys_ok P₁ (P₁.seamless_of_convex hconvex)
    (show (b.physAreas.insert n area).get? n = some area by
      rw [OrderedMap.get?_insert, if_pos rfl])
  exact ⟨_, bind_eq_ok.2 ⟨_, hrel, bind_eq_ok.2 ⟨_, hmerge, rfl⟩⟩⟩

/-- After an area was relabelled, what is wanted lies in it or behind the merged one. -/
theorem wantedFrom_relabelled {wanted : PhysicalMemoryType} {q handle size : ℕ}
    {c : PhysicalMemoryArea} (P : PhysMapOk m' U) (hc : m'.get? handle = some c)
    (hle : handle ≤ q) (hnew : c.label.dmaType ≠ wanted)
    (hout : ∀ p, q + size ≤ p → labels m' p = labels m p) :
    wantedFrom wanted m (some q) ⊆
      Set.Ico q (q + size) ∪ wantedFrom wanted m' ((m'.next handle).map Prod.fst) := by
  rintro p ⟨_, hq₀, hp, l, hl, hlw⟩
  cases hq₀
  rcases Nat.lt_or_ge p (q + size) with hpa | hpa
  · exact .inl ⟨hp, hpa⟩
  · rcases wantedFrom_next P hc (hle.trans hp) ((hout p hpa).trans hl) hlw with ⟨-, rfl⟩ | h
    · exact absurd hlw hnew
    · exact .inr h

theorem Backing.scatter_spec {wanted : PhysicalMemoryType} {total : Prop}
    (hf : Relabels f g) (hg : ∀ l, g (g l) = g l) (hnew : ∀ l, (g l).dmaType ≠ wanted)
    (hstart : start + size < 18446744073709551616) (rounds : ℕ) (next : Option ℕ)
    (hB : Backed U m₀ g b.map b.physAreas n) (hat : Backing.At b start usage size n)
    (hwanted : ∀ p ∈ physBytes b.physAreas, ∃ l, labels m₀ p = some l ∧ l.dmaType = wanted)
    (hkey : ∀ q, next = some q → (b.map.get? q).isSome)
    (htotal : total → b.remainingSize ≤ (wantedFrom wanted b.map next).ncard)
    (hrounds : ∀ q, next = some q → b.remainingSize = 0 ∧ 0 < rounds ∨
      (b.map.entriesFrom q).length < rounds) :
    Spec total (Backing.scatter wanted f start rounds next b) fun b' =>
      ∃ n', Backed U m₀ g b'.map b'.physAreas n' ∧ Backing.At b' start usage size n' ∧
        (∀ p ∈ physBytes b'.physAreas, ∃ l, labels m₀ p = some l ∧ l.dmaType = wanted) ∧
        (total → n' = size) := by
  have hdone : b.remainingSize = 0 → n = size := by
    have := hat.remaining
    have := hat.le
    omega
  induction rounds generalizing next b n with
  | zero =>
      cases next with
      | none =>
          rw [Backing.scatter]
          refine Spec.pure ⟨n, hB, hat, hwanted, fun ht => hdone ?_⟩
          have := htotal ht
          simpa [wantedFrom] using this
      | some q =>
          rcases hrounds q rfl with ⟨-, h⟩ | h
          · omega
          · omega
  | succ rounds ih =>
      cases next with
      | none =>
          rw [Backing.scatter]
          · refine Spec.pure ⟨n, hB, hat, hwanted, fun ht => hdone ?_⟩
            have := htotal ht
            simpa [wantedFrom] using this
      | some q =>
          rw [Backing.scatter]
          split
          · next hzero => exact Spec.pure ⟨n, hB, hat, hwanted, fun _ => hdone hzero⟩
          next hmore =>
          obtain ⟨a, ha⟩ := Option.isSome_iff_exists.1 (hkey q rfl)
          have hlen : (b.map.entriesFrom q).length ≤ rounds := by
            rcases hrounds q rfl with ⟨h, -⟩ | h
            · exact absurd h hmore
            · omega
          have P := hB.effect.ok
          refine Spec.bind (Spec.of_ok (deref_eq_ok.2 ha) rfl) ?_
          rintro _ rfl
          split
          · next hother =>
              refine ih _ hB hat hwanted (fun q' hq' => (next_key hq').1) (fun ht => ?_)
                (fun q' hq' => .inr ?_) hdone
              · refine (htotal ht).trans (Set.ncard_le_ncard ?_ (wantedFrom_finite P _ _))
                rintro p ⟨_, hq₀, hp, l, hl, hlw⟩
                cases hq₀
                rcases wantedFrom_next P ha hp hl hlw with ⟨-, rfl⟩ | h
                · exact absurd hlw hother
                · exact h
              · refine (entriesFrom_length_lt ha fun x hx hsome => ⟨?_, hsome⟩).trans_le hlen
                have := (next_key hq').2
                omega
          · next hsame =>
              rw [not_not] at hsame
              have hbase := P.base_eq ha
              have hpos := P.tiles.pos ha
              have hend := P.end_le ha
              have hcur : sub64 b.currentAddr start = n := by
                have := hat.le
                rw [hat.current, sub64_eq (by omega) (by omega)]
                omega
              rw [hbase, hcur]
              have hrem := hat.remaining
              have hle := hat.le
              -- what is collected has the new label, so the piece is fresh
              have hfresh : ∀ p, q ≤ p → p < q + min b.remainingSize a.size →
                  p ∉ physBytes b.physAreas := by
                rintro p hp hp' hmem
                have hin := hB.effect.labels_in p hmem
                rw [P.labels_eq ha hp (by omega)] at hin
                obtain ⟨l, -, hl⟩ := Option.map_eq_some_iff.1 hin.symm
                refine hnew l ?_
                rw [hl]
                exact hsame
              have hadd : Spec total (b.add q (min b.remainingSize a.size) n f)
                  fun r => b.add q (min b.remainingSize a.size) n f = .ok r :=
                ⟨fun _ => Backing.add_returns hB hf ha (by omega) (by omega), fun _ hr => hr⟩
              refine Spec.bind hadd ?_
              rintro ⟨b₁, handle⟩ hr
              obtain ⟨hB₁, hset, -, ⟨area, hrel⟩, h1, h2, h3⟩ :=
                Backing.add_ok hB hf hg (by omega) (by omega) hfresh hr
              have hat₁ := hat.add (by omega) (by omega) (by omega) h1 h2 h3
              have hrem₁ := hat₁.remaining
              obtain ⟨hrelabelled, ⟨-, hasize, harea⟩, ⟨c, hc, hcle, hclt⟩, -⟩ :=
                relabelPhysArea_ok P hf (by omega) (by omega) hrel
              have P₁ := hrelabelled.ok
              -- the merged area carries the new label throughout
              have hcnew : c.label.dmaType ≠ wanted := by
                have hl := P₁.labels_eq hc hcle hclt
                rw [hrelabelled.labels_eq, relabel, if_pos ⟨le_rfl, by omega⟩,
                  P.labels_eq ha le_rfl (by omega), Option.map_some, Option.some.injEq] at hl
                rw [← hl]
                exact hnew _
              simp only at *
              refine ih _ hB₁ hat₁ (fun p hp => ?_) (fun q' hq' => (next_key hq').1)
                (fun ht => ?_) (fun q' hq' => ?_) (by
                  have := hat₁.le
                  omega)
              · rw [hset] at hp
                rcases hp with hp | ⟨hp, hp'⟩
                · exact hwanted p hp
                · refine ⟨a.label, ?_, hsame⟩
                  rw [← hB.effect.labels_out p (hfresh p hp hp'),
                    P.labels_eq ha hp (by omega)]
              · rcases Nat.lt_or_ge b.remainingSize a.size with hlt | hge
                · omega
                · rw [min_eq_right hge] at hrelabelled hrem₁
                  have hout : ∀ p, q + a.size ≤ p → labels b₁.map p = labels b.map p :=
                    fun p hp => by rw [hrelabelled.labels_eq, relabel, if_neg (by omega)]
                  have hcover := wantedFrom_relabelled P₁ hc hcle hcnew hout
                  have hcard := (Set.ncard_le_ncard hcover ((Set.finite_Ico _ _).union
                    (wantedFrom_finite P₁ _ _))).trans (Set.ncard_union_le _ _)
                  rw [Set.ncard_Ico_nat, Nat.add_sub_cancel_left] at hcard
                  have := htotal ht
                  omega
              · rcases Nat.lt_or_ge b.remainingSize a.size with hlt | hge
                · have hentry : 0 < (b.map.entriesFrom q).length :=
                    List.length_pos_of_mem
                      (OrderedMap.mem_entriesFrom.2 ⟨ha, le_rfl⟩)
                  exact .inl ⟨by omega, by omega⟩
                · rw [min_eq_right hge] at hrelabelled
                  refine .inr ((entriesFrom_length_lt ha fun x hx hsome => ⟨?_,
                    hrelabelled.key_of_whole P ha hsome⟩).trans_le hlen)
                  -- a later key lies behind the merged area, which covers `q`
                  obtain ⟨d, hd⟩ := Option.isSome_iff_exists.1 hsome
                  have hlt := (next_key hq').2
                  have := P₁.tiles.disjoint hc hd (by omega)
                  omega

def bytesOfType (t : PhysicalMemoryType) (m : PhysMap) : Set ℕ :=
  {p | ∃ l, labels m p = some l ∧ l.dmaType = t}

theorem bytesOfType_finite (P : PhysMapOk m U) (t : PhysicalMemoryType) :
    (bytesOfType t m).Finite := by
  refine (Set.finite_Iio 9223372036854775808).subset ?_
  rintro p ⟨l, hl, -⟩
  exact P.lt_of_mem (P.labels_isSome_iff.1 (by rw [hl]; rfl))

theorem wantedFrom_first (P : PhysMapOk m U) (t : PhysicalMemoryType) :
    wantedFrom t m (m.first.map Prod.fst) = bytesOfType t m := by
  ext p
  constructor
  · rintro ⟨q, -, -, hp⟩
    exact hp
  · rintro ⟨l, hl, ht⟩
    have hpU := P.labels_isSome_iff.1 (show (labels m p).isSome by rw [hl]; rfl)
    obtain ⟨k, a, hk, hle, -⟩ := (P.tiles.mem_iff p).1 hpU
    cases hfirst : m.first with
    | none =>
        rw [OrderedMap.get?_eq_some_iff, List.head?_eq_none_iff.1 hfirst] at hk
        cases hk
    | some e =>
        obtain ⟨q, c⟩ := e
        obtain ⟨-, hmin⟩ := OrderedMap.first_eq_some_iff.1 hfirst
        exact ⟨q, rfl, (hmin k a hk).trans hle, l, hl, ht⟩

theorem Backing.scatter_all_spec {t : PhysicalMemoryType} {total : Prop} (P : PhysMapOk m U)
    (hf : Relabels f g) (hg : ∀ l, g (g l) = g l) (hnew : ∀ l, (g l).dmaType ≠ t)
    (hstart : start + size < 18446744073709551616) (husage : usage < 18446744073709551616)
    (htotal : total → size ≤ (bytesOfType t m).ncard) :
    Spec total (Backing.scatter t f start (m.entries.length + 2) (m.first.map Prod.fst)
      { map := m, physAreas := OrderedMap.empty, remainingSize := size,
        currentAddr := start, usage := usage }) fun b' =>
      (b'.remainingSize = 0 → Backed U m g b'.map b'.physAreas size ∧
        b'.usage = add64 usage size ∧
        ∀ p ∈ physBytes b'.physAreas, p ∈ bytesOfType t m) ∧
      (total → b'.remainingSize = 0) := by
  refine (Backing.scatter_spec (n := 0) hf hg hnew hstart _ _ (Backed.start P)
    ⟨Nat.zero_le _, rfl, rfl, (add64_eq (show usage + 0 < _ by omega)).symm⟩ ?_ ?_ ?_ ?_).mono ?_
  · intro p hp
    rw [physBytes_empty] at hp
    exact absurd hp (Set.notMem_empty p)
  · intro q hq
    obtain ⟨⟨k, a⟩, hk, rfl⟩ := Option.map_eq_some_iff.1 hq
    rw [(OrderedMap.first_eq_some_iff.1 hk).1]
    rfl
  · intro ht
    rw [wantedFrom_first P]
    exact htotal ht
  · intro q _
    right
    have := List.length_filter_le (fun e : ℕ × PhysicalMemoryArea => decide (q ≤ e.1)) m.entries
    simp only [OrderedMap.entriesFrom]
    omega
  · rintro b' ⟨n', hB, hat, hwanted, hall⟩
    have hrem := hat.remaining
    have hle := hat.le
    refine ⟨fun hzero => ?_, fun ht => ?_⟩
    · obtain rfl : n' = size := by omega
      exact ⟨hB, hat.usage, hwanted⟩
    · have := hall ht
      omega

end OrbitConsole.Memory
