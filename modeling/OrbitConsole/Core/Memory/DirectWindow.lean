import OrbitConsole.Core.Memory.Partition

/-!
# The search window of `Allocate` and `PoolExpand`

Both searches walk the areas of `dmem_map` from the one around `search_start` and
take the first free one with room behind its aligned start. They see one area at
a time, they never look at `search_end`, and the end they compare is a `u64`.
`allocate_window_iff` says when that is the lowest place of the window.
-/

namespace OrbitConsole.Memory

open Exec

/-! ### Aligning without the wrap-around -/

def roundUp (value size : ℕ) : ℕ :=
  if value % size = 0 then value else value - value % size + size

variable {value size alignment lo : ℕ} {m : PhysMap} {U : Set ℕ}

theorem alignUp_eq_roundUp (h : value < 18446744073709551616) :
    alignUp value alignment = roundUp value alignment % 18446744073709551616 := by
  unfold alignUp roundUp add64
  simp only
  split
  · next hmod =>
      rw [hmod, Nat.sub_zero, Nat.mod_eq_of_lt h]
  · rfl

theorem le_roundUp (hpos : 0 < alignment) : value ≤ roundUp value alignment := by
  have hmod := Nat.mod_lt value hpos
  unfold roundUp
  split <;> omega

theorem roundUp_lt (hpos : 0 < alignment) : roundUp value alignment < value + alignment := by
  have hmod := Nat.mod_le value alignment
  unfold roundUp
  split <;> omega

theorem dvd_roundUp : alignment ∣ roundUp value alignment := by
  unfold roundUp
  split
  · next hmod => exact Nat.dvd_of_mod_eq_zero hmod
  · exact Nat.dvd_add (Nat.dvd_sub_mod value) (dvd_refl alignment)

theorem roundUp_le (hpos : 0 < alignment) {p : ℕ} (hdvd : alignment ∣ p) (hle : value ≤ p) :
    roundUp value alignment ≤ p := by
  by_contra hlt
  have hup : roundUp value alignment < value + alignment := roundUp_lt hpos
  -- two multiples less than one alignment apart are the same
  obtain ⟨c, hc⟩ := (Nat.dvd_sub dvd_roundUp hdvd : alignment ∣ roundUp value alignment - p)
  rcases Nat.eq_zero_or_pos c with rfl | hc0
  · omega
  · have : alignment ≤ alignment * c := Nat.le_mul_of_pos_right _ hc0
    omega

theorem alignUp_eq_of_le {x : ℕ} (hx : x < 18446744073709551616)
    (h : roundUp x alignment < 18446744073709551616) :
    alignUp x alignment = roundUp x alignment := by
  rw [alignUp_eq_roundUp hx, Nat.mod_eq_of_lt h]

theorem roundUp_lt_of_lt (hvalue : value < 9223372036854775808) (hpos : 0 < alignment)
    (hlt : alignment < 18446744073709551616) :
    roundUp value alignment < 18446744073709551616 := by
  rcases Nat.lt_or_ge value alignment with hless | hge
  · unfold roundUp
    rw [Nat.mod_eq_of_lt hless]
    split <;> omega
  · have : roundUp value alignment < value + alignment := roundUp_lt hpos
    omega

/-! ### Places for an allocation -/

def FreeRange (m : PhysMap) (start size : ℕ) : Prop :=
  ∀ x, start ≤ x → x < start + size → ∃ l, labels m x = some l ∧ l.dmaType = .free

structure WindowPlace (m : PhysMap) (searchStart searchEnd size alignment p : ℕ) : Prop where
  aligned : alignment ∣ p
  above : searchStart ≤ p
  below : p + size ≤ searchEnd
  free : FreeRange m p size

structure AreaPlace (m : PhysMap) (searchStart size alignment p : ℕ) : Prop where
  aligned : alignment ∣ p
  above : searchStart ≤ p
  inside : ∃ k a, m.get? k = some a ∧ a.dmaType = .free ∧ k ≤ p ∧ p + size ≤ k + a.size

theorem AreaPlace.free (P : PhysMapOk m U) {p : ℕ} (h : AreaPlace m lo size alignment p) :
    FreeRange m p size := by
  intro x hx hx'
  obtain ⟨k, a, hk, hfree, hle, hend⟩ := h.inside
  exact ⟨a.label, P.labels_eq hk (by omega) (by omega), hfree⟩

/-- What the search tests of an area: it is Free and the computed end lies in it. -/
def Suits (lo size alignment k : ℕ) (a : PhysicalMemoryArea) : Prop :=
  a.dmaType = .free ∧ add64 (alignUp (max lo k) alignment) size ≤ k + a.size

instance (lo size alignment k : ℕ) (a : PhysicalMemoryArea) :
    Decidable (Suits lo size alignment k a) := by
  unfold Suits
  infer_instance

/-- What it should test: the true end lies in it. -/
def Fits (lo size alignment k : ℕ) (a : PhysicalMemoryArea) : Prop :=
  a.dmaType = .free ∧ roundUp (max lo k) alignment + size ≤ k + a.size

/-- The key `k` is not below the area around `lo`, where the search starts. -/
def Reached (m : PhysMap) (lo k : ℕ) : Prop := ∀ k' b, m.get? k' = some b → k' ≤ lo → k' ≤ k

/-- The search comes to a Free area in which the computed end lies although the true end does
not: the end has wrapped around. -/
def Overflows (m : PhysMap) (lo size alignment : ℕ) : Prop :=
  ∃ k a, m.get? k = some a ∧ Reached m lo k ∧
    (∀ p, AreaPlace m lo size alignment p → k ≤ p) ∧
    Suits lo size alignment k a ∧ ¬ Fits lo size alignment k a

theorem Fits.suits {k : ℕ} {a : PhysicalMemoryArea} (P : PhysMapOk m U)
    (hlo : lo < 18446744073709551616) (h : m.get? k = some a)
    (hfits : Fits lo size alignment k a) : Suits lo size alignment k a := by
  have hbound := P.end_le h
  obtain ⟨hfree, hend⟩ := hfits
  refine ⟨hfree, ?_⟩
  rw [alignUp_eq_of_le (max_lt hlo (by omega)) (by omega), add64_eq (by omega)]
  exact hend

theorem Fits.place {k : ℕ} {a : PhysicalMemoryArea} (hpos : 0 < alignment)
    (h : m.get? k = some a) (hfits : Fits lo size alignment k a) :
    AreaPlace m lo size alignment (roundUp (max lo k) alignment) := by
  have hle : max lo k ≤ roundUp (max lo k) alignment := le_roundUp hpos
  exact ⟨dvd_roundUp, (le_max_left _ _).trans hle,
    k, a, h, hfits.1, (le_max_right _ _).trans hle, hfits.2⟩

theorem AreaPlace.fits (P : PhysMapOk m U) (hpos : 0 < alignment) (hsize : 0 < size) {p : ℕ}
    (h : AreaPlace m lo size alignment p) :
    ∃ k a, m.get? k = some a ∧ Reached m lo k ∧ k ≤ p ∧ p < k + a.size ∧
      Fits lo size alignment k a ∧ roundUp (max lo k) alignment ≤ p := by
  obtain ⟨k, a, hk, hfree, hle, hend⟩ := h.inside
  have hup := roundUp_le hpos h.aligned (max_le h.above hle)
  refine ⟨k, a, hk, fun k' b hk' hlo => ?_, hle, by omega, ⟨hfree, by omega⟩, hup⟩
  -- an area that starts behind `k` and not behind `p` would cut the area at `k`
  by_contra hlt
  have habove := h.above
  have hnone := P.tiles.get?_eq_none_of_mem hk (Nat.lt_of_not_le hlt) (by omega)
  rw [hnone] at hk'
  cases hk'

/-! ### The search -/

theorem skip_iff_not_suits {k : ℕ} {a : PhysicalMemoryArea} (hbase : a.base = k)
    (hbound : k + a.size ≤ 9223372036854775808) :
    (a.dmaType ≠ .free ∨ a.getEnd < add64 (alignUp (max lo k) alignment) size) ↔
      ¬ Suits lo size alignment k a := by
  rw [PhysicalMemoryArea.getEnd, hbase, add64_eq (by omega), Suits, not_and_or, Nat.not_le]

theorem searchDmem_cons {k start : ℕ} {a : PhysicalMemoryArea} (hbase : a.base = k)
    (hbound : k + a.size ≤ 9223372036854775808) (l : List (ℕ × PhysicalMemoryArea))
    (hstart : start = alignUp (max lo k) alignment) :
    searchDmem size alignment ((k, a) :: l) start =
      if Suits lo size alignment k a then some (k, start)
      else match l with
        | [] => none
        | (_, next) :: _ => searchDmem size alignment l (alignUp next.base alignment) := by
  subst hstart
  by_cases hsuits : Suits lo size alignment k a
  · exact (if_neg fun h => (skip_iff_not_suits hbase hbound).1 h hsuits).trans (if_pos hsuits).symm
  · exact (if_pos ((skip_iff_not_suits hbase hbound).2 hsuits)).trans (if_neg hsuits).symm

theorem searchDmem_eq_find (l : List (ℕ × PhysicalMemoryArea)) (k : ℕ) (a : PhysicalMemoryArea)
    (hl : ∀ e ∈ (k, a) :: l, e.2.base = e.1 ∧ e.1 + e.2.size ≤ 9223372036854775808)
    (hlo : ∀ e ∈ l, lo ≤ e.1) :
    searchDmem size alignment ((k, a) :: l) (alignUp (max lo k) alignment) =
      (((k, a) :: l).find? fun e => Suits lo size alignment e.1 e.2).map
        fun e => (e.1, alignUp (max lo e.1) alignment) := by
  induction l generalizing k a with
  | nil =>
      obtain ⟨hbase, hbound⟩ := hl (k, a) (by simp)
      rw [searchDmem_cons hbase hbound _ rfl]
      by_cases hs : Suits lo size alignment k a <;> simp [hs]
  | cons e l ih =>
      obtain ⟨k', b⟩ := e
      obtain ⟨hbase, hbound⟩ := hl (k, a) (by simp)
      rw [searchDmem_cons hbase hbound _ rfl]
      by_cases hs : Suits lo size alignment k a
      · simp [hs]
      · have hbase' : b.base = k' := (hl (k', b) (by simp)).1
        have hle : lo ≤ k' := hlo (k', b) (by simp)
        have htail := ih k' b (fun e he => hl e (List.mem_cons_of_mem _ he))
          (fun e he => hlo e (List.mem_cons_of_mem _ he))
        rw [if_neg hs, List.find?_cons_of_neg (by simpa using hs), ← htail]
        simp only [hbase', max_eq_right hle]

variable {h : ℕ} {a₀ : PhysicalMemoryArea}

theorem searchDmem_eq (P : PhysMapOk m U) (hfloor : m.floor lo = some (h, a₀)) :
    searchDmem size alignment (m.entriesFrom h) (alignUp (max lo h) alignment) =
      ((m.entriesFrom h).find? fun e => Suits lo size alignment e.1 e.2).map
        fun e => (e.1, alignUp (max lo e.1) alignment) := by
  obtain ⟨hget, hle, hmax⟩ := OrderedMap.floor_eq_some_iff.1 hfloor
  have hsorted := m.entriesFrom_sorted h
  have hmem : (h, a₀) ∈ m.entriesFrom h := OrderedMap.mem_entriesFrom.2 ⟨hget, le_rfl⟩
  cases hl : m.entriesFrom h with
  | nil => rw [hl] at hmem; cases hmem
  | cons e l =>
      obtain ⟨k, a⟩ := e
      have hk : m.get? k = some a ∧ h ≤ k :=
        OrderedMap.mem_entriesFrom.1 (hl ▸ List.mem_cons_self)
      rw [hl] at hmem hsorted
      rw [List.pairwise_cons] at hsorted
      obtain rfl : k = h := by
        rcases List.mem_cons.1 hmem with heq | htail
        · exact (Prod.mk.inj heq).1.symm
        · exact absurd (hsorted.1 _ htail) (Nat.not_lt.2 hk.2)
      refine searchDmem_eq_find l k a (fun e he => ?_) (fun e he => ?_)
      · have he := (OrderedMap.mem_entriesFrom.1 (hl ▸ he)).1
        exact ⟨P.base_eq he, P.end_le he⟩
      · have he' := (OrderedMap.mem_entriesFrom.1 (hl ▸ List.mem_cons_of_mem (k, a) he)).1
        by_contra hlt
        have := hmax _ _ he' (by omega)
        have := hsorted.1 _ he
        simp only at this
        omega

theorem reached_iff (hfloor : m.floor lo = some (h, a₀)) {k : ℕ} : Reached m lo k ↔ h ≤ k := by
  obtain ⟨hget, hle, hmax⟩ := OrderedMap.floor_eq_some_iff.1 hfloor
  exact ⟨fun hr => hr h a₀ hget hle, fun hk k' b hk' hlo => (hmax k' b hk' hlo).trans hk⟩

theorem searchDmem_eq_none (P : PhysMapOk m U) (hfloor : m.floor lo = some (h, a₀))
    (hs : searchDmem size alignment (m.entriesFrom h) (alignUp (max lo h) alignment) = none)
    {k : ℕ} {a : PhysicalMemoryArea} (hk : m.get? k = some a) (hr : Reached m lo k) :
    ¬ Suits lo size alignment k a := by
  rw [searchDmem_eq P hfloor, Option.map_eq_none_iff, List.find?_eq_none] at hs
  have := hs (k, a) (OrderedMap.mem_entriesFrom.2 ⟨hk, (reached_iff hfloor).1 hr⟩)
  simpa using this

theorem searchDmem_eq_some (P : PhysMapOk m U) (hfloor : m.floor lo = some (h, a₀))
    {k start : ℕ}
    (hs : searchDmem size alignment (m.entriesFrom h) (alignUp (max lo h) alignment) =
      some (k, start)) :
    start = alignUp (max lo k) alignment ∧ ∃ a, m.get? k = some a ∧ Reached m lo k ∧
      Suits lo size alignment k a ∧
      ∀ k' b, m.get? k' = some b → Reached m lo k' → k' < k → ¬ Suits lo size alignment k' b := by
  rw [searchDmem_eq P hfloor, Option.map_eq_some_iff] at hs
  obtain ⟨⟨k₁, a⟩, hfind, heq⟩ := hs
  obtain ⟨rfl, rfl⟩ := Prod.mk.inj heq
  obtain ⟨hsuits, before, after, hsplit, hbefore⟩ := List.find?_eq_some_iff_append.1 hfind
  have hmem : (k₁, a) ∈ m.entriesFrom h := hsplit ▸ by simp
  obtain ⟨hk, hle⟩ := OrderedMap.mem_entriesFrom.1 hmem
  refine ⟨rfl, a, hk, (reached_iff hfloor).2 hle, by simpa using hsuits,
    fun k' b hk' hr hlt => ?_⟩
  have hmem' := OrderedMap.mem_entriesFrom.2 ⟨hk', (reached_iff hfloor).1 hr⟩
  have hsorted := m.entriesFrom_sorted h
  rw [hsplit, List.pairwise_append, List.pairwise_cons] at hsorted
  rw [hsplit, List.mem_append, List.mem_cons] at hmem'
  rcases hmem' with hin | heq' | hin
  · simpa using hbefore _ hin
  · obtain ⟨rfl, -⟩ := Prod.mk.inj heq'
    exact absurd hlt (lt_irrefl _)
  · exact absurd (hsorted.2.1.1 _ hin) (Nat.not_lt.2 hlt.le)

/-! ### What a call makes of the search -/

/-- What a call over a window is to do: take the lowest place of the window, or change nothing
and return `-1` when there is none. -/
def HonoursWindow (s : MemoryManager) (searchStart searchEnd size alignment : ℕ) (l : Label)
    (x : Exec (ℕ × MemoryManager)) : Prop :=
  ∃ r s', x = .ok (r, s') ∧ s'.vmaMap = s.vmaMap ∧ s'.fmemMap = s.fmemMap ∧
    ((r ≠ invalidAddr ∧
        IsLeast {p | WindowPlace s.dmemMap searchStart searchEnd size alignment p} r ∧
        ∀ p, labels s'.dmemMap p =
          if r ≤ p ∧ p < r + size then some l else labels s.dmemMap p) ∨
      (r = invalidAddr ∧ s'.dmemMap = s.dmemMap ∧
        ∀ p, ¬ WindowPlace s.dmemMap searchStart searchEnd size alignment p))

/-- When the search gives what is asked for: no end wraps around before the lowest place inside
an area is found, every place of the window has one inside an area at or below it, and if there
is any of these at or above the start, the window has a place. -/
structure WindowCondition (m : PhysMap) (searchStart searchEnd size alignment : ℕ) : Prop where
  exact : ¬ Overflows m searchStart size alignment
  whole : ∀ p, WindowPlace m searchStart searchEnd size alignment p →
    ∃ q, q ≤ p ∧ AreaPlace m searchStart size alignment q
  bounded : ∀ q, AreaPlace m searchStart size alignment q →
    ∃ p, WindowPlace m searchStart searchEnd size alignment p

/-- What `Allocate` and `PoolExpand` do with the result of the search around `h`. -/
structure SearchCall (L : Layout) (s : MemoryManager) (lo size alignment h : ℕ) (l : Label)
    (x : Exec (ℕ × MemoryManager)) : Prop where
  notFound : searchDmem size alignment (s.dmemMap.entriesFrom h) (alignUp (max lo h) alignment) =
    none → x = .ok (invalidAddr, s)
  found : ∀ k start, searchDmem size alignment (s.dmemMap.entriesFrom h)
      (alignUp (max lo h) alignment) = some (k, start) →
    Exec.Spec (∃ a, s.dmemMap.get? k = some a ∧ k ≤ start ∧ start + size ≤ k + a.size) x fun r =>
        r.1 = start ∧ r.2.vmaMap = s.vmaMap ∧ r.2.fmemMap = s.fmemMap ∧
          Relabelled L.direct s.dmemMap start size (fun _ => l) r.2.dmemMap

variable {L : Layout} {s : MemoryManager} {l : Label} {x : Exec (ℕ × MemoryManager)}
  {searchEnd : ℕ}

theorem AreaPlace.le_of_first (P : PhysMapOk m U) (hlo : lo < 18446744073709551616)
    (hpos : 0 < alignment) (hsize : 0 < size) {k : ℕ}
    (hfirst : ∀ k' b, m.get? k' = some b → Reached m lo k' → k' < k →
      ¬ Suits lo size alignment k' b) {q : ℕ} (hq : AreaPlace m lo size alignment q) :
    k ≤ q ∧ roundUp (max lo k) alignment ≤ q := by
  obtain ⟨k', b, hk', hr, hle, -, hfits, -⟩ := hq.fits P hpos hsize
  have hkk' : k ≤ k' := by
    by_contra hlt
    exact hfirst k' b hk' hr (Nat.lt_of_not_le hlt) (hfits.suits P hlo hk')
  exact ⟨hkk'.trans hle, roundUp_le hpos hq.aligned (max_le hq.above (hkk'.trans hle))⟩

theorem Suits.fits {k : ℕ} {a : PhysicalMemoryArea} (hlo : lo < 18446744073709551616)
    (hpos : 0 < alignment) (hlt : alignment < 18446744073709551616)
    (hk : k < 9223372036854775808) (hsuits : Suits lo size alignment k a)
    (habove : lo ≤ alignUp (max lo k) alignment)
    (hend : alignUp (max lo k) alignment + size ≤ 9223372036854775808) :
    Fits lo size alignment k a ∧
      alignUp (max lo k) alignment = roundUp (max lo k) alignment := by
  have hmax : max lo k < 18446744073709551616 := max_lt hlo (by omega)
  have hround : roundUp (max lo k) alignment < 18446744073709551616 := by
    rcases le_total lo k with hle | hle
    · rw [max_eq_right hle]
      exact roundUp_lt_of_lt hk hpos hlt
    · rw [max_eq_left hle] at habove ⊢
      rw [alignUp_eq_roundUp hlo] at habove
      have : roundUp lo alignment < lo + alignment := roundUp_lt hpos
      omega
  have heq : alignUp (max lo k) alignment = roundUp (max lo k) alignment :=
    alignUp_eq_of_le hmax hround
  obtain ⟨hfree, hstop⟩ := hsuits
  rw [heq] at hstop hend
  rw [add64_eq (by omega)] at hstop
  exact ⟨⟨hfree, hstop⟩, heq⟩

theorem SearchCall.honoursWindow_iff (P : PhysMapOk s.dmemMap L.direct)
    (C : SearchCall L s lo size alignment h l x) (hfloor : s.dmemMap.floor lo = some (h, a₀))
    (hlo : lo < 18446744073709551616) (hpos : 0 < alignment)
    (hlt : alignment < 18446744073709551616) (hsize : 0 < size) :
    HonoursWindow s lo searchEnd size alignment l x ↔
      WindowCondition s.dmemMap lo searchEnd size alignment := by
  cases hs : searchDmem size alignment (s.dmemMap.entriesFrom h) (alignUp (max lo h) alignment) with
  | none =>
      have hnone : ∀ q, ¬ AreaPlace s.dmemMap lo size alignment q := by
        intro q hq
        obtain ⟨k, a, hk, hr, -, -, hfits, -⟩ := hq.fits P hpos hsize
        exact searchDmem_eq_none P hfloor hs hk hr (hfits.suits P hlo hk)
      constructor
      · rintro ⟨r, s', hx, -, -, hcase⟩
        obtain ⟨rfl, rfl⟩ := Prod.mk.inj (Except.ok.inj ((C.notFound hs).symm.trans hx))
        rcases hcase with ⟨hne, -⟩ | ⟨-, -, hno⟩
        · exact absurd rfl hne
        · refine ⟨?_, fun p hp => absurd hp (hno p), fun q hq => absurd hq (hnone q)⟩
          rintro ⟨k, a, hk, hr, -, hsuits, -⟩
          exact searchDmem_eq_none P hfloor hs hk hr hsuits
      · intro hcond
        refine ⟨invalidAddr, s, C.notFound hs, rfl, rfl, .inr ⟨rfl, rfl, fun p hp => ?_⟩⟩
        obtain ⟨q, -, hq⟩ := hcond.whole p hp
        exact hnone q hq
  | some found =>
      obtain ⟨k, start⟩ := found
      obtain ⟨rfl, a, hk, hr, hsuits, hfirst⟩ := searchDmem_eq_some P hfloor hs
      have hspec := C.found _ _ hs
      have hkpos := P.tiles.pos hk
      have hbound := P.end_le hk
      constructor
      · rintro ⟨r, s', hx, -, -, hcase⟩
        obtain ⟨rfl, -, -, hrel⟩ := hspec.2 _ hx
        simp only at hrel hcase
        obtain ⟨k₁, b, hk₁, hle₁, hend₁⟩ := hrel.inside
        have hbound₁ := P.end_le hk₁
        rcases hcase with ⟨-, hleast, -⟩ | ⟨heq, -⟩
        · obtain ⟨hfits, heq⟩ := hsuits.fits hlo hpos hlt (by omega) hleast.1.above (by omega)
          rw [heq] at hleast
          have hplace := hfits.place hpos hk
          refine ⟨?_, fun p hp => ⟨_, hleast.2 hp, hplace⟩, fun q _ => ⟨_, hleast.1⟩⟩
          rintro ⟨k', b', hk', hr', hmin, hsuits', hnfits⟩
          rcases lt_trichotomy k' k with hlt' | rfl | hgt
          · exact hfirst k' b' hk' hr' hlt' hsuits'
          · obtain rfl := Option.some.inj (hk.symm.trans hk')
            exact hnfits hfits
          · have hle := hmin _ hplace
            have hend := hfits.2
            have hnone := P.tiles.get?_eq_none_of_mem hk hgt (by omega)
            rw [hnone] at hk'
            cases hk'
        · unfold invalidAddr at heq
          omega
      · intro hcond
        have hfits : Fits lo size alignment k a := by
          by_contra hn
          exact hcond.exact ⟨k, a, hk, hr, fun p hp =>
            (hp.le_of_first P hlo hpos hsize hfirst).1, hsuits, hn⟩
        have hplace := hfits.place hpos hk
        obtain ⟨-, hend⟩ := hfits
        have heq : alignUp (max lo k) alignment = roundUp (max lo k) alignment :=
          alignUp_eq_of_le (max_lt hlo (by omega)) (by omega)
        rw [heq] at hspec
        have hle : max lo k ≤ roundUp (max lo k) alignment := le_roundUp hpos
        obtain ⟨⟨r, s'⟩, hx⟩ := hspec.1 ⟨a, hk, by omega, hend⟩
        obtain ⟨rfl, hvma, hfmem, hrel⟩ := hspec.2 _ hx
        obtain ⟨p, hp⟩ := hcond.bounded _ hplace
        obtain ⟨q, hqp, hq⟩ := hcond.whole p hp
        have hrq := (hq.le_of_first P hlo hpos hsize hfirst).2
        have hbelow := hp.below
        refine ⟨_, s', hx, hvma, hfmem, .inl ⟨?_, ⟨⟨hplace.aligned, hplace.above, by omega,
          hplace.free P⟩, fun p hp => ?_⟩, fun p => ?_⟩⟩
        · unfold invalidAddr
          omega
        · obtain ⟨q, hqp, hq⟩ := hcond.whole p hp
          exact (hq.le_of_first P hlo hpos hsize hfirst).2.trans hqp
        · rw [hrel.labels_eq, relabel]
          split_ifs with hin
          · obtain ⟨l', hl', -⟩ := hplace.free P p hin.1 hin.2
            rw [hl', Option.map_some]
          · rfl

theorem SearchCall.succeeds_iff (P : PhysMapOk s.dmemMap L.direct)
    (C : SearchCall L s lo size alignment h l x) (hfloor : s.dmemMap.floor lo = some (h, a₀))
    (hlo : lo < 18446744073709551616) (hpos : 0 < alignment)
    (hlt : alignment < 18446744073709551616) (hsize : 0 < size) :
    (∃ p s', x = .ok (p, s') ∧ WindowPlace s.dmemMap lo searchEnd size alignment p) ↔
      ∃ p, AreaPlace s.dmemMap lo size alignment p ∧ p + size ≤ searchEnd := by
  constructor
  · rintro ⟨p, s', hx, hp⟩
    cases hs : searchDmem size alignment (s.dmemMap.entriesFrom h)
        (alignUp (max lo h) alignment) with
    | none =>
        obtain ⟨rfl, -⟩ := Prod.mk.inj (Except.ok.inj ((C.notFound hs).symm.trans hx))
        obtain ⟨l', hl', -⟩ := hp.free invalidAddr le_rfl (by omega)
        have hmem := P.labels_isSome_iff.1 (show (labels s.dmemMap invalidAddr).isSome by
          rw [hl']
          rfl)
        have := P.lt_of_mem hmem
        unfold invalidAddr at this
        omega
    | some found =>
        obtain ⟨k, start⟩ := found
        obtain ⟨rfl, a, hk, -, hsuits, -⟩ := searchDmem_eq_some P hfloor hs
        obtain ⟨rfl, -, -, hrel⟩ := (C.found _ _ hs).2 _ hx
        have hkpos := P.tiles.pos hk
        have hbound := P.end_le hk
        simp only at hrel hp
        obtain ⟨k₁, b, hk₁, hle₁, hend₁⟩ := hrel.inside
        have hbound₁ := P.end_le hk₁
        obtain ⟨hfits, heq⟩ := hsuits.fits hlo hpos hlt (by omega) hp.above (by omega)
        have hbelow := hp.below
        rw [heq] at hbelow
        exact ⟨_, hfits.place hpos hk, hbelow⟩
  · rintro ⟨p, hp, hend⟩
    obtain ⟨k', b, hk', hr', -, -, hfits', -⟩ := hp.fits P hpos hsize
    cases hs : searchDmem size alignment (s.dmemMap.entriesFrom h)
        (alignUp (max lo h) alignment) with
    | none => exact absurd (hfits'.suits P hlo hk') (searchDmem_eq_none P hfloor hs hk' hr')
    | some found =>
        obtain ⟨k, start⟩ := found
        obtain ⟨rfl, a, hk, -, hsuits, hfirst⟩ := searchDmem_eq_some P hfloor hs
        obtain ⟨hkp, hle⟩ := hp.le_of_first P hlo hpos hsize hfirst
        have hbound := P.end_le hk
        have hbound' := P.lt_of_mem (P.labels_isSome_iff.1 (by
          obtain ⟨l', hl', -⟩ := hp.free P (p + size - 1) (by omega) (by omega)
          rw [hl']
          rfl))
        -- below a place neither the start nor the end wraps around
        have heq : alignUp (max lo k) alignment = roundUp (max lo k) alignment :=
          alignUp_eq_of_le (max_lt hlo (by have := P.tiles.pos hk; omega)) (by omega)
        have hstop := hsuits.2
        rw [heq, add64_eq (by omega)] at hstop
        have hplace := Fits.place hpos hk ⟨hsuits.1, hstop⟩
        have hspec := C.found _ _ hs
        rw [heq] at hspec
        have hup : max lo k ≤ roundUp (max lo k) alignment := le_roundUp hpos
        obtain ⟨⟨r, s'⟩, hx⟩ := hspec.1 ⟨a, hk, by omega, hstop⟩
        obtain ⟨rfl, -⟩ := hspec.2 _ hx
        exact ⟨_, s', hx, hplace.aligned, hplace.above, by omega, hplace.free P⟩

/-! ### The two calls -/

theorem splitPhysArea_keeps {k off : ℕ} {r : PhysMap × ℕ} (hr : splitPhysArea m k off = .ok r)
    {x : ℕ} (hx : (m.get? x).isSome) : (r.1.get? x).isSome := by
  obtain ⟨a, ha, hr⟩ := bind_eq_ok.1 hr
  obtain ⟨-, -, hr⟩ := bind_eq_ok.1 hr
  cases hr
  unfold OrderedMap.emplace
  split
  · rw [OrderedMap.get?_insert]
    split <;> simp [hx]
  · rw [OrderedMap.get?_insert, OrderedMap.get?_insert]
    split
    · rfl
    · split <;> simp [hx]

theorem carvePhysArea_keeps {start : ℕ} {r : PhysMap × ℕ}
    (hr : carvePhysArea m start size = .ok r) {x : ℕ} (hx : (m.get? x).isSome) :
    (r.1.get? x).isSome := by
  obtain ⟨⟨k, a⟩, -, hr⟩ := bind_eq_ok.1 hr
  obtain ⟨-, -, hr⟩ := bind_eq_ok.1 hr
  obtain ⟨-, -, hr⟩ := bind_eq_ok.1 hr
  obtain ⟨-, -, hr⟩ := bind_eq_ok.1 hr
  obtain ⟨m₁, hback, hfront⟩ := bind_eq_ok.1 hr
  have hx₁ : (m₁.get? x).isSome := by
    split at hback
    · obtain ⟨r₁, hr₁, rfl⟩ := map_eq_ok.1 hback
      exact splitPhysArea_keeps hr₁ hx
    · cases hback
      exact hx
  split at hfront
  · exact splitPhysArea_keeps hfront hx₁
  · cases hfront
    exact hx₁

variable {cfg : Config} {s₀ : MemoryManager} {searchStart : ℕ} {memoryType : ℤ}

theorem SearchCall.allocate (W : WellFormed L s) (hlo : searchStart < 18446744073709551616)
    (hsize : 0 < size) (hsize' : size < 18446744073709551616)
    (hfloor : s.dmemMap.floor searchStart = some (h, a₀)) :
    SearchCall L s searchStart size (if 0 < alignment then alignment else pageSize) h
      ⟨memoryType, .allocated⟩
      (s.allocate searchStart searchEnd size alignment memoryType) := by
  obtain ⟨hk, -, -⟩ := OrderedMap.floor_eq_some_iff.1 hfloor
  have hfind : findArea s.dmemMap searchStart = .ok (h, a₀) := findArea_eq_ok.2 hfloor
  have hbase := W.dmem.base_eq hk
  have hunfold : s.allocate searchStart searchEnd size alignment memoryType =
      (searchDmem size (if 0 < alignment then alignment else pageSize)
        (s.dmemMap.entriesFrom h)
        (alignUp (max searchStart h) (if 0 < alignment then alignment else pageSize))).elim
        (pure (invalidAddr, s)) fun found => do
          let carved ← carvePhysArea s.dmemMap found.2 size
          let dmemMap := carved.1.modify carved.2 fun area =>
            { area with memoryType := memoryType, dmaType := .allocated }
          let merged ← mergeAdjacentPhys dmemMap found.1
          return (found.2, { s with dmemMap := merged.1 }) := by
    rw [MemoryManager.allocate, hfind, ← hbase]
    refine (pure_bind _ _).trans ?_
    dsimp only
    split
    case h_1 hnone => rw [hnone]; rfl
    case h_2 hsome => rw [hsome]; rfl
  rw [hunfold]
  refine ⟨fun hs => by rw [hs]; rfl, fun k start hs => ?_⟩
  rw [hs, Option.elim_some]
  dsimp only
  have hstart : start < 18446744073709551616 := by
    obtain ⟨hstart, a, hk', -⟩ := searchDmem_eq_some W.dmem hfloor hs
    have := W.dmem.end_le hk'
    rw [hstart]
    exact alignUp_lt (max_lt hlo (by omega))
  have hrelabels : Relabels
      (fun area => { area with memoryType := memoryType, dmaType := .allocated })
      fun _ => ⟨memoryType, .allocated⟩ := fun _ => ⟨rfl, rfl, rfl⟩
  refine ⟨?_, fun r hr => ?_⟩
  · rintro ⟨a, ha, hle, hend⟩
    obtain ⟨m₁, hcarve⟩ := carvePhysArea_returns W.dmem ha hle hsize hend
    have hkeep := carvePhysArea_keeps hcarve (x := k) (by rw [ha]; rfl)
    obtain ⟨hrel, -⟩ := (carvePhysArea_ok W.dmem hstart hsize' hcarve).2.modify hrelabels
    obtain ⟨b, hb⟩ := Option.isSome_iff_exists.1 hkeep
    obtain ⟨b', hb'⟩ : ∃ b', (m₁.modify start fun area =>
        { area with memoryType := memoryType, dmaType := .allocated }).get? k = some b' := by
      rw [OrderedMap.get?_modify]
      split
      · next heq => exact ⟨_, by rw [← heq, hb]; rfl⟩
      · exact ⟨b, hb⟩
    obtain ⟨m₂, k₂, hmerge, -⟩ := mergeAdjacentPhys_ok hrel.ok.toPhysTiles hrel.ok.seamless hb'
    exact ⟨(start, { s with dmemMap := m₂ }),
      bind_eq_ok.2 ⟨(m₁, start), hcarve, bind_eq_ok.2 ⟨(m₂, k₂), hmerge, rfl⟩⟩⟩
  · obtain ⟨⟨m₁, handle⟩, hcarve, hr⟩ := bind_eq_ok.1 hr
    obtain ⟨⟨m₂, k₂⟩, hmerge, hr⟩ := bind_eq_ok.1 hr
    obtain ⟨rfl, hcarved⟩ := carvePhysArea_ok W.dmem hstart hsize' hcarve
    obtain ⟨hrel, -⟩ := hcarved.modify hrelabels
    obtain ⟨b, hb, -⟩ := bind_eq_ok.1 hmerge
    obtain ⟨m₃, k₃, hmerge', hcoarse, -⟩ := mergeAdjacentPhys_ok hrel.ok.toPhysTiles
      hrel.ok.seamless (deref_eq_ok.1 hb)
    obtain ⟨rfl, -⟩ : m₃ = m₂ ∧ k₃ = k₂ := by
      simpa using hmerge'.symm.trans hmerge
    cases hr
    exact ⟨rfl, rfl, rfl, hrel.coarser hcoarse⟩

theorem SearchCall.poolExpand (W : WellFormed L s) (hlo : searchStart < 18446744073709551616)
    (hsize : 0 < size) (hsize' : size < 18446744073709551616)
    (hfloor : s.dmemMap.floor searchStart = some (h, a₀)) :
    SearchCall L s searchStart size (if 0 < alignment then alignment else poolPageSize) h
      ⟨3, .pooled⟩ (s.poolExpand searchStart searchEnd size alignment) := by
  obtain ⟨hk, hle, -⟩ := OrderedMap.floor_eq_some_iff.1 hfloor
  have hfind : findArea s.dmemMap searchStart = .ok (h, a₀) := findArea_eq_ok.2 hfloor
  have hbase := W.dmem.base_eq hk
  -- the start is chosen by a comparison instead of a maximum
  have hmax (n : ℕ) : (if h < searchStart then alignUp searchStart n else alignUp h n) =
      alignUp (max searchStart h) n := by
    split
    · rw [max_eq_left (by omega)]
    · rw [max_eq_right (by omega)]
  have hunfold : s.poolExpand searchStart searchEnd size alignment =
      (searchDmem size (if 0 < alignment then alignment else poolPageSize)
        (s.dmemMap.entriesFrom h)
        (alignUp (max searchStart h) (if 0 < alignment then alignment else poolPageSize))).elim
        (pure (invalidAddr, s)) fun found => do
          let carved ← carvePhysArea s.dmemMap found.2 size
          let dmemMap := carved.1.modify carved.2 fun area =>
            { area with dmaType := .pooled, memoryType := 3 }
          return (found.2,
            { s with dmemMap := dmemMap, poolBudget := add64 s.poolBudget size }) := by
    rw [← hmax, MemoryManager.poolExpand, hfind, ← hbase]
    refine (pure_bind _ _).trans ?_
    dsimp only
    split
    case h_1 hnone => rw [hnone]; rfl
    case h_2 hsome => rw [hsome]; rfl
  rw [hunfold]
  refine ⟨fun hs => by rw [hs]; rfl, fun k start hs => ?_⟩
  rw [hs, Option.elim_some]
  dsimp only
  have hstart : start < 18446744073709551616 := by
    obtain ⟨hstart, a, hk', -⟩ := searchDmem_eq_some W.dmem hfloor hs
    have := W.dmem.end_le hk'
    rw [hstart]
    exact alignUp_lt (max_lt hlo (by omega))
  refine ⟨?_, fun r hr => ?_⟩
  · rintro ⟨a, ha, hle, hend⟩
    obtain ⟨m₁, hcarve⟩ := carvePhysArea_returns W.dmem ha hle hsize hend
    exact ⟨_, bind_eq_ok.2 ⟨(m₁, start), hcarve, rfl⟩⟩
  · obtain ⟨⟨m₁, handle⟩, hcarve, hr⟩ := bind_eq_ok.1 hr
    obtain ⟨rfl, hcarved⟩ := carvePhysArea_ok W.dmem hstart hsize' hcarve
    obtain ⟨hrel, -⟩ := hcarved.modify
      (f := fun area => { area with dmaType := .pooled, memoryType := 3 })
      (g := fun _ => ⟨3, .pooled⟩) fun _ => ⟨rfl, rfl, rfl⟩
    cases hr
    exact ⟨rfl, rfl, rfl, hrel⟩

def allocateDirectMemoryAccepts (searchStart searchEnd : Int64) (len alignment : UInt64)
    (memoryType : ℤ) : Bool :=
  if searchStart < 0 ∨ searchEnd < 0 then false
  else if len ≤ 0 ∨ len &&& 0x3FFF ≠ 0 then false
  else if alignment ≠ 0 ∧ alignment &&& 0x3FFF ≠ 0 then false
  else if 10 < memoryType then false
  else
    let isInRange := len ≤ (searchEnd - searchStart).toUInt64
    !(searchEnd ≤ searchStart ∨ searchEnd.toUInt64 < len ∨ !isInRange)

def memoryPoolExpandAccepts (searchStart searchEnd len alignment : UInt64) : Bool :=
  if searchEnd ≤ searchStart then false
  else if len ≤ 0 ∨ len &&& 0xFFFF ≠ 0 then false
  else if alignment ≠ 0 ∧ alignment &&& 0xFFFF ≠ 0 then false
  else
    let isInRange := len ≤ searchEnd - searchStart
    !(searchEnd ≤ searchStart ∨ searchEnd < len ∨ !isInRange)

theorem len_pos_of_allocateAccepts {searchStart searchEnd : Int64} {len alignment : UInt64}
    (h : allocateDirectMemoryAccepts searchStart searchEnd len alignment memoryType) :
    0 < len.toNat := by
  unfold allocateDirectMemoryAccepts at h
  split_ifs at h with _ hlen
  rw [not_or, UInt64.not_le] at hlen
  exact hlen.1

theorem len_pos_of_poolExpandAccepts {searchStart searchEnd len alignment : UInt64}
    (h : memoryPoolExpandAccepts searchStart searchEnd len alignment) : 0 < len.toNat := by
  unfold memoryPoolExpandAccepts at h
  split_ifs at h with _ hlen
  rw [not_or, UInt64.not_le] at hlen
  exact hlen.1

theorem WellFormed.floor_dmem (W : WellFormed L s) (hpos : 0 < L.directSize) (x : ℕ) :
    ∃ k a, s.dmemMap.floor x = some (k, a) := by
  cases hfloor : s.dmemMap.floor x with
  | some e => exact ⟨e.1, e.2, rfl⟩
  | none =>
      obtain ⟨k, a, hk, hle, -⟩ := (W.dmem.tiles.mem_iff 0).1 hpos
      have := OrderedMap.floor_eq_none_iff.1 hfloor k a hk
      omega

/-- In every reachable state and for all arguments the entry points let through, `Allocate`
and `PoolExpand` honour their window exactly under the condition. -/
theorem allocate_window_iff (hfresh : Fresh cfg s₀)
    (hreach : Reachable (fun _ c => c.Promised) s₀ s) :
    (∀ (searchStart searchEnd : Int64) (len alignment : UInt64) (memoryType : ℤ),
      allocateDirectMemoryAccepts searchStart searchEnd len alignment memoryType →
      (HonoursWindow s searchStart.toUInt64.toNat searchEnd.toUInt64.toNat len.toNat
          (if 0 < alignment.toNat then alignment.toNat else pageSize)
          ⟨memoryType, .allocated⟩
          (s.allocate searchStart.toUInt64.toNat searchEnd.toUInt64.toNat len.toNat
            alignment.toNat memoryType) ↔
        WindowCondition s.dmemMap searchStart.toUInt64.toNat searchEnd.toUInt64.toNat len.toNat
          (if 0 < alignment.toNat then alignment.toNat else pageSize))) ∧
    ∀ searchStart searchEnd len alignment : UInt64,
      memoryPoolExpandAccepts searchStart searchEnd len alignment →
      (HonoursWindow s searchStart.toNat searchEnd.toNat len.toNat
          (if 0 < alignment.toNat then alignment.toNat else poolPageSize)
          ⟨3, .pooled⟩
          (s.poolExpand searchStart.toNat searchEnd.toNat len.toNat alignment.toNat) ↔
        WindowCondition s.dmemMap searchStart.toNat searchEnd.toNat len.toNat
          (if 0 < alignment.toNat then alignment.toNat else poolPageSize)) := by
  have W := (hreach.regular hfresh fun _ _ hc => hc).toWellFormed
  have hdirect : 0 < (cfg.layout s₀).directSize := hfresh.2.2.2
  refine ⟨fun searchStart searchEnd len alignment memoryType hacc => ?_,
    fun searchStart searchEnd len alignment hacc => ?_⟩
  · obtain ⟨h, a₀, hfloor⟩ := W.floor_dmem hdirect searchStart.toUInt64.toNat
    have hlen := len_pos_of_allocateAccepts hacc
    have hlo := searchStart.toUInt64.toNat_lt
    obtain ⟨hpos, hlt⟩ := alignment_ok (d := pageSize) (Nat.succ_pos _)
      (by unfold pageSize; omega) alignment.toNat_lt
    exact (SearchCall.allocate W hlo hlen len.toNat_lt hfloor).honoursWindow_iff W.dmem hfloor
      hlo hpos hlt hlen
  · obtain ⟨h, a₀, hfloor⟩ := W.floor_dmem hdirect searchStart.toNat
    have hlen := len_pos_of_poolExpandAccepts hacc
    have hlo := searchStart.toNat_lt
    obtain ⟨hpos, hlt⟩ := alignment_ok (d := poolPageSize) (Nat.succ_pos _)
      (by unfold poolPageSize; omega) alignment.toNat_lt
    exact (SearchCall.poolExpand W hlo hlen len.toNat_lt hfloor).honoursWindow_iff W.dmem hfloor
      hlo hpos hlt hlen

def firstPageCalls : List Call := [.allocate 0 0x4000 0x4000 0 0]

theorem firstPageCalls_reachable {s : MemoryManager}
    (h : runCalls Config.retail.start firstPageCalls = .ok s) :
    Reachable (fun _ c => c.Promised) Config.retail.start s := by
  refine runCalls_reachable .start (fun c hc _ => ?_) h
  obtain rfl := List.mem_singleton.1 hc
  simp [Call.Promised]

theorem allocate_window_iff_sample : ∃ s, runCalls Config.retail.start firstPageCalls = .ok s ∧
    (HonoursWindow s 0 0x8000 0x4000 pageSize ⟨0, .allocated⟩ (s.allocate 0 0x8000 0x4000 0 0) ↔
      WindowCondition s.dmemMap 0 0x8000 0x4000 pageSize) := by
  obtain ⟨s, hs⟩ : ∃ s, runCalls Config.retail.start firstPageCalls = .ok s :=
    exists_of_toBool (by decide)
  exact ⟨s, hs, (allocate_window_iff fresh_retail (firstPageCalls_reachable hs)).1
    0 0x8000 0x4000 0 0 (by decide)⟩

/-- Asked for a page of `[0, 0x4000)` when that page is taken, `Allocate` takes the next one. -/
theorem allocate_window_fails : ∃ s,
    Reachable (fun _ c => c.Promised) Config.retail.start s ∧
      allocateDirectMemoryAccepts 0 0x4000 0x4000 0 0 ∧
      ¬ HonoursWindow s 0 0x4000 0x4000 pageSize ⟨0, .allocated⟩
        (s.allocate 0 0x4000 0x4000 0 0) := by
  obtain ⟨s, hs, hany⟩ : ∃ s, runCalls Config.retail.start firstPageCalls = .ok s ∧
      ((s.allocate 0 0x4000 0x4000 0 0).toOption.any fun r => r.1 = 0x4000) = true :=
    exists_of_any (by decide)
  obtain ⟨⟨r, s'⟩, hr, hval⟩ := exists_of_any hany
  obtain rfl : r = 0x4000 := by simpa using hval
  refine ⟨s, firstPageCalls_reachable hs, by decide, ?_⟩
  rintro ⟨r₁, s₁, hx, -, -, hcase⟩
  obtain ⟨rfl, rfl⟩ := Prod.mk.inj (Except.ok.inj (hr.symm.trans hx))
  rcases hcase with ⟨-, hleast, -⟩ | ⟨heq, -⟩
  · have := hleast.1.below
    omega
  · exact absurd heq (by decide)

end OrbitConsole.Memory
