import OrbitConsole.Core.Memory.DirectSpec

/-!
# What freeing direct memory does

`Free` makes two lists before it changes anything: the virtual ranges to unmap
and the pieces of non-free memory to release. `Freed` is its effect in terms of
these lists; `mem_collectRemoveList` and `mem_collectFreeList` say what is on
them.
-/

namespace OrbitConsole.Memory

open Exec

variable {L : Layout} {s s' : MemoryManager} {U : Set ℕ} {physAddr size : ℕ}

def rangeSet (l : List (ℕ × ℕ)) : Set ℕ := {x | ∃ e ∈ l, e.1 ≤ x ∧ x < e.1 + e.2}

@[simp] theorem rangeSet_nil : rangeSet [] = ∅ := by
  ext x
  simp [rangeSet]

theorem rangeSet_cons (e : ℕ × ℕ) (l : List (ℕ × ℕ)) :
    rangeSet (e :: l) = Set.Ico e.1 (e.1 + e.2) ∪ rangeSet l := by
  ext x
  simp [rangeSet]

theorem rangeSet_finite (l : List (ℕ × ℕ)) : (rangeSet l).Finite := by
  induction l with
  | nil =>
      rw [rangeSet_nil]
      exact Set.finite_empty
  | cons e l ih =>
      rw [rangeSet_cons]
      exact (Set.finite_Ico _ _).union ih

/-! ### The virtual ranges to unmap -/

def overlapStart (physAddr : ℕ) (a : PhysicalMemoryArea) : ℕ := max a.base physAddr - a.base

theorem removeEntry_eq {m : VMAMap} (V : VmaMapOk m U) {k x : ℕ} {v : VirtualMemoryArea}
    {a : PhysicalMemoryArea} (hk : m.get? k = some v) (htype : v.type = .direct)
    (hx : v.physAreas.get? x = some a) (hphys : physAddr < 18446744073709551616) :
    removeEntry physAddr size v.base (x, a) =
      if a.base < add64 physAddr size ∧ physAddr < a.base + a.size then
        some (k + x + overlapStart physAddr a, min (a.size - overlapStart physAddr a) size)
      else none := by
  have P := (V.area hk).backed (by simp [hasPhysicalBacking, htype])
  have hbound := P.bounded hx
  have hpos := P.tiles.pos hx
  have hend := P.end_le hx
  have hbase := V.base_eq hk
  have hkbound := V.bounded hk
  simp only [removeEntry, add64_eq (show a.base + a.size < 18446744073709551616 by omega)]
  by_cases hover : a.base < add64 physAddr size ∧ physAddr < a.base + a.size
  · rw [if_pos hover, if_pos hover]
    have hstart : sub64 (max a.base physAddr) a.base = overlapStart physAddr a :=
      sub64_eq (le_max_left _ _) (by omega)
    have hlt : overlapStart physAddr a < a.size := by
      unfold overlapStart
      omega
    rw [hstart, hbase, add64_eq (show k + x < 18446744073709551616 by omega),
      add64_eq (by omega), sub64_eq (by omega) (by omega)]
  · rw [if_neg hover, if_neg hover]

theorem mem_collectRemoveList {m : VMAMap} (V : VmaMapOk m U)
    (hphys : physAddr < 18446744073709551616) {e : ℕ × ℕ} :
    e ∈ collectRemoveList m physAddr size ↔
      ∃ k v x a, m.get? k = some v ∧ v.type = .direct ∧ v.physAreas.get? x = some a ∧
        a.base < add64 physAddr size ∧ physAddr < a.base + a.size ∧
        e = (k + x + overlapStart physAddr a, min (a.size - overlapStart physAddr a) size) := by
  unfold collectRemoveList
  rw [List.mem_flatMap]
  constructor
  · rintro ⟨⟨k, v⟩, hk, he⟩
    have hk' := OrderedMap.get?_eq_some_iff.2 hk
    simp only at he
    by_cases htype : v.type = .direct
    · rw [if_neg (not_not.2 htype), List.mem_filterMap] at he
      obtain ⟨⟨x, a⟩, hx, he⟩ := he
      have hx' := OrderedMap.get?_eq_some_iff.2 hx
      rw [removeEntry_eq V hk' htype hx' hphys] at he
      split_ifs at he with hover
      cases he
      exact ⟨k, v, x, a, hk', htype, hx', hover.1, hover.2, rfl⟩
    · rw [if_pos htype] at he
      cases he
  · rintro ⟨k, v, x, a, hk, htype, hx, h₁, h₂, rfl⟩
    refine ⟨(k, v), OrderedMap.get?_eq_some_iff.1 hk, ?_⟩
    simp only
    rw [if_neg (not_not.2 htype), List.mem_filterMap]
    refine ⟨(x, a), OrderedMap.get?_eq_some_iff.1 hx, ?_⟩
    rw [removeEntry_eq V hk htype hx hphys, if_pos ⟨h₁, h₂⟩]

theorem collectRemoveList_direct {m : VMAMap} (V : VmaMapOk m U)
    (hphys : physAddr < 18446744073709551616) {p : ℕ}
    (hp : p ∈ rangeSet (collectRemoveList m physAddr size)) :
    ∃ c, cells m p = some c ∧ c.type = .direct := by
  obtain ⟨e, he, hle, hlt⟩ := hp
  obtain ⟨k, v, x, a, hk, htype, hx, -, h₂, rfl⟩ := (mem_collectRemoveList V hphys).1 he
  have P := (V.area hk).backed (by simp [hasPhysicalBacking, htype])
  have hpos := P.tiles.pos hx
  have hend := P.end_le hx
  simp only at hle hlt
  exact ⟨_, V.cells_eq hk (by omega) (by omega), htype⟩

theorem VmaMapOk.mem_of_cell {m : VMAMap} (V : VmaMapOk m U) {x : ℕ} {c : Cell}
    (h : cells m x = some c) : x ∈ U :=
  V.tiles.view_isSome_iff.1 (by rw [← cells, h]; rfl)

theorem unmapMemoryImpl_zero {addr : ℕ} (W : WellFormed L s)
    (husage : s.flexibleUsage < 18446744073709551616) (haddr : addr < 18446744073709551616) :
    s.unmapMemoryImpl addr 0 ≠ .ok s' := by
  intro h
  rw [MemoryManager.unmapMemoryImpl, MemoryManager.unmapMemoryImplLoop] at h
  obtain ⟨⟨k, v⟩, hfind, h⟩ := bind_eq_ok.1 h
  obtain ⟨⟨u, s₁⟩, hu, h⟩ := bind_eq_ok.1 h
  obtain ⟨_, hpos, -⟩ := bind_eq_ok.1 h
  rw [add64_eq (by omega), Nat.add_zero] at hfind hu
  rw [sub64_zero (by omega)] at hu
  rw [assertMsg_eq_ok] at hpos
  rcases (unmapBytesFromEntry_spec W husage haddr (by omega) (findArea_eq_ok.1 hfind)
    (fun h : False => h.elim)).2 _ hu with ⟨heq, -⟩ | ⟨heq, -⟩
  · obtain ⟨rfl, -⟩ := Prod.mk.inj heq
    simp at hpos
  · simp only at heq
    omega

theorem unmapRemoveList_ok (l : List (ℕ × ℕ)) (W : WellFormed L s)
    (husage : s.flexibleUsage < 18446744073709551616)
    (hl : ∀ e ∈ l, Set.Ico e.1 (e.1 + e.2) ⊆ L.usable ∧ e.1 < 18446744073709551616)
    (h : MemoryManager.unmapRemoveList l s = .ok s') : Unmapped L (rangeSet l) s s' := by
  induction l generalizing s with
  | nil =>
      cases h
      rw [rangeSet_nil]
      exact Unmapped.of_kept W husage fun x hx => hx.elim
  | cons e l ih =>
      obtain ⟨addr, n⟩ := e
      obtain ⟨s₁, hs₁, hrest⟩ := bind_eq_ok.1 h
      obtain ⟨hrange, hlt⟩ := hl (addr, n) (by simp)
      rcases Nat.eq_zero_or_pos n with rfl | hpos
      · exact absurd hs₁ (unmapMemoryImpl_zero W husage hlt)
      · have hun := (unmapMemoryImpl_spec W husage hpos hrange fun h : False => h.elim).2 _ hs₁
        rw [rangeSet_cons]
        exact hun.trans (ih (hun.wellFormed W) hun.usage_lt
          (fun e he => hl e (List.mem_cons_of_mem _ he)) hrest) (Set.finite_Ico _ _)
          (rangeSet_finite l)

/-! ### The pieces to release -/

def nonFree (physAddr : ℕ) (l : List (ℕ × PhysicalMemoryArea)) : Set ℕ :=
  {p | physAddr ≤ p ∧ ∃ e ∈ l, e.1 ≤ p ∧ p < e.1 + e.2.size ∧ e.2.dmaType ≠ .free}

def firstBytes (S : Set ℕ) (n : ℕ) : Set ℕ := {p | p ∈ S ∧ (S ∩ Set.Iio p).ncard < n}

theorem firstBytes_block {S : Set ℕ} {start len : ℕ} (hS : ∀ p ∈ S, start + len ≤ p) (n : ℕ) :
    firstBytes (Set.Ico start (start + len) ∪ S) n =
      Set.Ico start (start + min n len) ∪ firstBytes S (n - min n len) := by
  have hblock : ∀ p, p < start + len →
      (Set.Ico start (start + len) ∪ S) ∩ Set.Iio p = Set.Ico start p := by
    intro p hp
    ext q
    simp only [Set.mem_inter_iff, Set.mem_union, Set.mem_Ico, Set.mem_Iio]
    constructor
    · rintro ⟨hq | hq, hlt⟩
      · exact ⟨hq.1, hlt⟩
      · have := hS q hq
        omega
    · rintro ⟨hq, hlt⟩
      exact ⟨.inl ⟨hq, by omega⟩, hlt⟩
  have hafter : ∀ p, start + len ≤ p →
      ((Set.Ico start (start + len) ∪ S) ∩ Set.Iio p).ncard = len + (S ∩ Set.Iio p).ncard := by
    intro p hp
    have hset : (Set.Ico start (start + len) ∪ S) ∩ Set.Iio p =
        Set.Ico start (start + len) ∪ S ∩ Set.Iio p := by
      ext q
      simp only [Set.mem_inter_iff, Set.mem_union, Set.mem_Ico, Set.mem_Iio]
      constructor
      · rintro ⟨hq | hq, hlt⟩
        · exact .inl hq
        · exact .inr ⟨hq, hlt⟩
      · rintro (hq | hq)
        · exact ⟨.inl hq, by omega⟩
        · exact ⟨.inr hq.1, hq.2⟩
    rw [hset, Set.ncard_union_eq, Set.ncard_Ico_nat, Nat.add_sub_cancel_left]
    rw [Set.disjoint_left]
    rintro q hq hq'
    have := hS q hq'.1
    have := hq.2
    omega
  ext p
  simp only [firstBytes, Set.mem_union, Set.mem_ofPred_eq]
  rcases Nat.lt_or_ge p (start + len) with hlt | hge
  · have hnot : p ∉ S := fun hp => by
      have := hS p hp
      omega
    rw [hblock p hlt, Set.ncard_Ico_nat]
    simp only [Set.mem_Ico, hnot, false_and, or_false]
    omega
  · rw [hafter p hge]
    simp only [Set.mem_Ico]
    constructor
    · rintro ⟨hp | hp, hcount⟩
      · omega
      · exact .inr ⟨hp, by omega⟩
    · rintro (hp | ⟨hp, hcount⟩)
      · omega
      · exact ⟨.inr hp, by omega⟩

theorem firstBytes_zero (S : Set ℕ) : firstBytes S 0 = ∅ := by
  ext p
  simp [firstBytes]

theorem collectFreeList_eq {isChecked : Bool} (l : List (ℕ × PhysicalMemoryArea))
    (hl : l.Pairwise fun e e' => e.1 + e.2.size ≤ e'.1)
    (hbound : ∀ e ∈ l, e.1 + e.2.size ≤ 9223372036854775808 ∧ physAddr ≤ e.1 + e.2.size)
    (hsize : size < 18446744073709551616) {freeList : List (ℕ × ℕ)}
    (h : collectFreeList physAddr isChecked l size = some freeList) :
    rangeSet freeList = firstBytes (nonFree physAddr l) size ∧
      ∀ e ∈ freeList, e.1 < 18446744073709551616 ∧ e.2 < 18446744073709551616 := by
  induction l generalizing size freeList with
  | nil =>
      cases h
      refine ⟨?_, fun e he => by cases he⟩
      ext p
      simp [firstBytes, nonFree, rangeSet]
  | cons e l ih =>
      obtain ⟨k, a⟩ := e
      rw [List.pairwise_cons] at hl
      obtain ⟨hend, hphys⟩ := hbound (k, a) (by simp)
      have hrest := fun e he => hbound e (List.mem_cons_of_mem _ he)
      simp only [collectFreeList] at h
      by_cases hzero : size = 0
      · rw [if_pos hzero] at h
        cases h
        subst hzero
        rw [firstBytes_zero, rangeSet_nil]
        exact ⟨rfl, fun e he => by cases he⟩
      rw [if_neg hzero] at h
      by_cases hfree : a.dmaType = .free
      · rw [if_pos hfree] at h
        split at h
        · cases h
        · obtain ⟨heq, hlt⟩ := ih hl.2 hrest hsize h
          refine ⟨?_, hlt⟩
          rw [heq]
          congr 1
          ext p
          simp [nonFree, hfree]
      · rw [if_neg hfree] at h
        obtain ⟨rest, hcollect, rfl⟩ := Option.map_eq_some_iff.1 h
        simp only at hend hphys
        have hstart : sub64 (max physAddr k) k = max physAddr k - k :=
          sub64_eq (le_max_right _ _) (by omega)
        have hlen : sub64 a.size (max physAddr k - k) = a.size - (max physAddr k - k) :=
          sub64_eq (by omega) (by omega)
        rw [hstart, hlen, sub64_eq (min_le_left _ _) hsize] at hcollect
        rw [hstart, hlen]
        obtain ⟨heq, hlt⟩ := ih hl.2 hrest (by omega) hcollect
        have hset : nonFree physAddr ((k, a) :: l) =
            Set.Ico (max physAddr k) (max physAddr k + (a.size - (max physAddr k - k))) ∪
              nonFree physAddr l := by
          ext p
          simp only [nonFree, List.mem_cons, exists_eq_or_imp, Set.mem_union, Set.mem_Ico,
            Set.mem_ofPred_eq, hfree, not_false_eq_true, and_true, ne_eq, and_or_left]
          refine or_congr_left ?_
          omega
        refine ⟨?_, fun e he => ?_⟩
        · rw [rangeSet_cons, heq, hset, firstBytes_block]
          rintro p ⟨-, e, he, hle, -⟩
          have := hl.1 e he
          simp only at this
          omega
        · rcases List.mem_cons.1 he with rfl | he
          · constructor <;> simp only <;> omega
          · exact hlt e he

/-- What releasing makes of a byte. -/
def Label.release (_ : Label) : Label := ⟨0, .free⟩

theorem releaseFreeList_ok {m m' : PhysMap} (l : List (ℕ × ℕ)) (P : PhysMapOk m U)
    (hl : ∀ e ∈ l, e.1 < 18446744073709551616 ∧ e.2 < 18446744073709551616)
    (h : releaseFreeList l m = .ok m') : PhysEffect U m (rangeSet l) Label.release m' := by
  induction l generalizing m with
  | nil =>
      cases h
      exact (PhysEffect.refl P).congr rangeSet_nil.symm
  | cons e l ih =>
      obtain ⟨addr, n⟩ := e
      obtain ⟨⟨m₁, handle, area⟩, hm₁, hrest⟩ := bind_eq_ok.1 h
      obtain ⟨haddr, hn⟩ := hl (addr, n) (by simp)
      have hf : Relabels (fun area => { area with dmaType := .free, memoryType := 0 })
          Label.release := fun _ => ⟨rfl, rfl, rfl⟩
      obtain ⟨hrel, -⟩ := relabelPhysArea_ok P hf haddr hn hm₁
      have heff := hrel.effect P
      exact (heff.trans (g := Label.release) (fun _ => rfl)
        (ih heff.ok (fun e he => hl e (List.mem_cons_of_mem _ he)) hrest)).congr
        (rangeSet_cons _ _).symm

/-! ### `Free` -/

structure Freed (L : Layout) (physAddr size : ℕ) (s s₁ s' : MemoryManager) : Prop where
  unmapped : Unmapped L (rangeSet (collectRemoveList s.vmaMap physAddr size)) s s₁
  dmem : PhysEffect L.direct s₁.dmemMap
    (firstBytes {p | physAddr ≤ p ∧ ∃ l, labels s.dmemMap p = some l ∧ l.dmaType ≠ .free} size)
    Label.release s'.dmemMap
  rest : s' = { s₁ with dmemMap := s'.dmemMap }

theorem nonFree_entriesFrom {m : PhysMap} (P : PhysMapOk m U) {k : ℕ} {a : PhysicalMemoryArea}
    (hfloor : m.floor physAddr = some (k, a)) :
    nonFree physAddr (m.entriesFrom k) =
      {p | physAddr ≤ p ∧ ∃ l, labels m p = some l ∧ l.dmaType ≠ .free} := by
  obtain ⟨hk, hle, hmax⟩ := OrderedMap.floor_eq_some_iff.1 hfloor
  ext p
  refine and_congr_right fun hp => ?_
  constructor
  · rintro ⟨⟨x, b⟩, he, hxle, hxlt, hfree⟩
    obtain ⟨hx, -⟩ := OrderedMap.mem_entriesFrom.1 he
    exact ⟨b.label, P.labels_eq hx hxle hxlt, hfree⟩
  · rintro ⟨l, hl, hfree⟩
    have hmem : p ∈ U := P.labels_isSome_iff.1 (by rw [hl]; rfl)
    obtain ⟨x, b, hx, hxle, hxlt⟩ := (P.tiles.mem_iff p).1 hmem
    rw [P.labels_eq hx hxle hxlt, Option.some.injEq] at hl
    subst hl
    refine ⟨(x, b), OrderedMap.mem_entriesFrom.2 ⟨hx, ?_⟩, hxle, hxlt, hfree⟩
    by_contra hnot
    have := P.tiles.disjoint hx hk (by omega)
    omega

theorem entriesFrom_bound {m : PhysMap} {n : ℕ} (P : PhysMapOk m (Set.Iio n))
    (hphys : physAddr ≤ n) {k : ℕ} {a : PhysicalMemoryArea}
    (hfloor : m.floor physAddr = some (k, a)) :
    ∀ e ∈ m.entriesFrom k,
      e.1 + e.2.size ≤ 9223372036854775808 ∧ physAddr ≤ e.1 + e.2.size := by
  obtain ⟨hk, hle, hmax⟩ := OrderedMap.floor_eq_some_iff.1 hfloor
  rintro ⟨x, b⟩ he
  obtain ⟨hx, hkx⟩ := OrderedMap.mem_entriesFrom.1 he
  refine ⟨P.end_le hx, ?_⟩
  have hfirst : physAddr ≤ k + a.size := by
    by_contra hnot
    obtain ⟨y, c, hy, hyle, hylt⟩ := (P.tiles.mem_iff (k + a.size)).1
      (show k + a.size < n by omega)
    have := hmax y c hy (by omega)
    rcases Nat.eq_or_lt_of_le this with rfl | hlt
    · rw [hk, Option.some.injEq] at hy
      subst hy
      omega
    · have := P.tiles.disjoint hy hk hlt
      omega
  rcases Nat.eq_or_lt_of_le hkx with heq | hlt
  · simp only at heq hx ⊢
    rw [← heq, hk, Option.some.injEq] at hx
    rw [← heq, ← hx]
    exact hfirst
  · have := P.tiles.disjoint hk hx hlt
    simp only at this ⊢
    omega

theorem collectFreeList_unchecked (l : List (ℕ × PhysicalMemoryArea)) (n : ℕ) :
    collectFreeList physAddr false l n ≠ none := by
  induction l generalizing n with
  | nil => exact Option.some_ne_none _
  | cons e l ih =>
      simp only [collectFreeList]
      split
      · exact Option.some_ne_none _
      split
      · exact ih n
      · rw [ne_eq, Option.map_eq_none_iff]
        exact ih _

theorem free_ok {isChecked : Bool} {r : ℤ × MemoryManager} (W : WellFormed L s)
    (husage : s.flexibleUsage < 18446744073709551616)
    (hphys : physAddr < 18446744073709551616) (hsize : size < 18446744073709551616)
    (h : s.free physAddr size isChecked = .ok r) :
    (r.2 = s ∧ (isChecked = true ∨ L.directSize < physAddr)) ∨
      ∃ s₁, Freed L physAddr size s s₁ r.2 := by
  unfold MemoryManager.free at h
  split at h
  · next hout =>
    cases h
    rw [W.direct_eq] at hout
    exact .inl ⟨rfl, hout.symm.imp_left And.left⟩
  next hin =>
  obtain ⟨⟨k, a⟩, hfind, h⟩ := bind_eq_ok.1 h
  simp only at h
  split at h
  · next hnone =>
    cases h
    refine .inl ⟨rfl, .inl ?_⟩
    by_contra hunchecked
    rw [Bool.not_eq_true] at hunchecked
    subst hunchecked
    exact collectFreeList_unchecked _ _ hnone
  next freeList hcollect =>
  obtain ⟨s₁, hs₁, h⟩ := bind_eq_ok.1 h
  obtain ⟨dmem, hdmem, h⟩ := bind_eq_ok.1 h
  have hfloor := findArea_eq_ok.1 hfind
  have hbound := entriesFrom_bound W.dmem (by rw [W.direct_eq] at hin; omega) hfloor
  obtain ⟨heq, hlt⟩ := collectFreeList_eq _ (W.dmem.tiles.entries_pairwise.filter _) hbound
    hsize hcollect
  have hremove : ∀ e ∈ collectRemoveList s.vmaMap physAddr size,
      Set.Ico e.1 (e.1 + e.2) ⊆ L.usable ∧ e.1 < 18446744073709551616 := by
    intro e he
    refine ⟨fun x hx => ?_, ?_⟩
    · obtain ⟨c, hc, -⟩ := collectRemoveList_direct W.vma hphys ⟨e, he, hx.1, hx.2⟩
      exact W.vma.mem_of_cell hc
    · obtain ⟨y, v, x, b, hy, htype, hx, -, hover, rfl⟩ :=
        (mem_collectRemoveList W.vma hphys).1 he
      have := ((W.vma.area hy).backed (by simp [hasPhysicalBacking, htype])).end_le hx
      have := W.vma.bounded hy
      simp only [overlapStart]
      omega
  have hun := unmapRemoveList_ok _ W husage hremove hs₁
  have hrel := releaseFreeList_ok _ hun.dmem.ok hlt hdmem
  rw [heq, ← OrderedMap.entriesFrom, nonFree_entriesFrom W.dmem hfloor] at hrel
  cases h
  exact .inr ⟨s₁, hun, hrel, rfl⟩

theorem collectFreeList_checked (l : List (ℕ × PhysicalMemoryArea))
    (hl : l.Pairwise fun e e' => e.1 + e.2.size ≤ e'.1)
    (hbound : ∀ e ∈ l, e.1 + e.2.size ≤ 9223372036854775808 ∧ physAddr ≤ e.1 + e.2.size)
    {b n : ℕ} (hstart : ∀ e ∈ l, b ≤ max physAddr e.1)
    (hn : n < 18446744073709551616) {e : ℕ × PhysicalMemoryArea} (he : e ∈ l)
    (hfree : e.2.dmaType = .free) (hmeet : max physAddr e.1 < b + n) :
    collectFreeList physAddr true l n = none := by
  induction l generalizing b n with
  | nil => cases he
  | cons e₀ l ih =>
      obtain ⟨k, a⟩ := e₀
      rw [List.pairwise_cons] at hl
      obtain ⟨hend, hphys⟩ := hbound (k, a) (by simp)
      have hhead := hstart (k, a) (by simp)
      have he₀ := hstart e he
      simp only at hend hphys hhead
      rw [collectFreeList, if_neg (by omega)]
      by_cases hfree₀ : a.dmaType = .free
      · rw [if_pos hfree₀, if_pos rfl]
      · rw [if_neg hfree₀]
        rcases List.mem_cons.1 he with rfl | he
        · exact absurd hfree hfree₀
        have hafter := hl.1 e he
        simp only at hafter
        have hfrom : sub64 (max physAddr k) k = max physAddr k - k :=
          sub64_eq (le_max_right _ _) (by omega)
        have hlen : sub64 a.size (max physAddr k - k) = a.size - (max physAddr k - k) :=
          sub64_eq (by omega) (by omega)
        simp only [hfrom, hlen]
        rw [sub64_eq (min_le_left _ _) hn,
          ih hl.2 (fun e he => hbound e (List.mem_cons_of_mem _ he)) (b := k + a.size)
            (fun e he => (hl.1 e he).trans (le_max_right _ _)) (by omega) he (by omega)]
        rfl

theorem free_refused {r : ℤ × MemoryManager} (W : WellFormed L s)
    (hsize : size < 18446744073709551616)
    (hrefused : s.totalDirectSize < add64 physAddr size ∨
      ∃ p, physAddr ≤ p ∧ p < physAddr + size ∧ p ∈ bytesOfType .free s.dmemMap)
    (h : s.free physAddr size true = .ok r) : r.2 = s := by
  unfold MemoryManager.free at h
  split at h
  · cases h
    rfl
  next hin =>
  obtain ⟨⟨k, a⟩, hfind, h⟩ := bind_eq_ok.1 h
  have hfloor := findArea_eq_ok.1 hfind
  obtain ⟨p, hle, hlt, l, hl, hfree⟩ := hrefused.resolve_left fun hout =>
    hin (.inr ⟨rfl, hout⟩)
  have hmem : p ∈ L.direct := W.dmem.labels_isSome_iff.1 (by rw [hl]; rfl)
  obtain ⟨x, b, hx, hxle, hxlt⟩ := (W.dmem.tiles.mem_iff p).1 hmem
  rw [W.dmem.labels_eq hx hxle hxlt, Option.some.injEq] at hl
  subst hl
  have hkx : k ≤ x := by
    obtain ⟨hk, hkle, hmax⟩ := OrderedMap.floor_eq_some_iff.1 hfloor
    by_contra hnot
    have := W.dmem.tiles.disjoint hx hk (by omega)
    omega
  have hnone := collectFreeList_checked (s.dmemMap.entriesFrom k)
    (W.dmem.tiles.entries_pairwise.filter _)
    (entriesFrom_bound W.dmem (by rw [W.direct_eq] at hin; omega) hfloor)
    (fun e _ => le_max_left physAddr e.1) hsize
    (OrderedMap.mem_entriesFrom.2 ⟨hx, hkx⟩) hfree (show max physAddr x < physAddr + size by
      omega)
  simp only [hnone] at h
  cases h
  rfl

end OrbitConsole.Memory
