import Mathlib.Algebra.BigOperators.Group.Finset.Basic
import Mathlib.Order.Interval.Finset.Nat
import Mathlib.Order.Interval.Set.Nat
import OrbitConsole.Library.OrderedMap

/-!
# Maps whose entries tile a set of addresses

An entry `(k, a)` of an ordered map over `ℕ` stands for the addresses
`[k, k + size a)`. `Tiles size m U` says that these ranges are nonempty,
disjoint and cover exactly `U`; `view size read m p` is what the map says about
the address `p`, read from the one entry that covers it.

Three edits keep a tiling: cutting a piece in two, joining two neighbours, and
replacing a piece by another of the same size. A cut and a join that agree on
what they say leave the whole view unchanged; a replacement changes it on that
piece only. The edited map is described by its `get?`, so the lemmas apply to
any way of computing it.
-/

namespace Tiling

variable {α L : Type*} (size : α → ℕ) (read : α → ℕ → L)

structure Tiles (m : OrderedMap ℕ α) (U : Set ℕ) : Prop where
  pos : ∀ {k a}, m.get? k = some a → 0 < size a
  disjoint : ∀ {k a k' a'}, m.get? k = some a → m.get? k' = some a' →
    k < k' → k + size a ≤ k'
  mem_iff : ∀ p, p ∈ U ↔ ∃ k a, m.get? k = some a ∧ k ≤ p ∧ p < k + size a

/-- The entry that covers the address `p`. -/
def pieceAt (m : OrderedMap ℕ α) (p : ℕ) : Option (ℕ × α) :=
  match m.floor p with
  | some (k, a) => if p < k + size a then some (k, a) else none
  | none => none

def view (m : OrderedMap ℕ α) (p : ℕ) : Option L :=
  (pieceAt size m p).map fun e => read e.2 (p - e.1)

variable {size read} {m m' : OrderedMap ℕ α} {U : Set ℕ} {k k' p : ℕ} {a a' : α}

theorem get?_of_pieceAt (h : pieceAt size m p = some (k, a)) :
    m.get? k = some a ∧ k ≤ p ∧ p < k + size a := by
  unfold pieceAt at h
  split at h
  · next k₁ a₁ hf =>
      obtain ⟨hget, hle, -⟩ := OrderedMap.floor_eq_some_iff.1 hf
      split at h
      · obtain ⟨rfl, rfl⟩ : k₁ = k ∧ a₁ = a := by simpa using h
        exact ⟨hget, hle, ‹_›⟩
      · cases h
  · cases h

namespace Tiles

theorem key_unique (T : Tiles size m U) (h : m.get? k = some a) (h' : m.get? k' = some a')
    (hp : k ≤ p ∧ p < k + size a) (hp' : k' ≤ p ∧ p < k' + size a') : k = k' := by
  rcases lt_trichotomy k k' with hlt | heq | hgt
  · have := T.disjoint h h' hlt
    omega
  · exact heq
  · have := T.disjoint h' h hgt
    omega

theorem key_eq_of_mem (T : Tiles size m U) (h : m.get? k = some a)
    (h' : m.get? k' = some a') (hle : k ≤ k') (hlt : k' < k + size a) : k' = k := by
  have := T.pos h'
  exact (T.key_unique h h' (p := k') ⟨hle, hlt⟩ ⟨le_rfl, by omega⟩).symm

theorem get?_eq_none_of_mem (T : Tiles size m U) (h : m.get? k = some a)
    (hlt : k < k') (hlt' : k' < k + size a) : m.get? k' = none := by
  cases h' : m.get? k' with
  | none => rfl
  | some a' => exact absurd (T.key_eq_of_mem h h' hlt.le hlt') hlt.ne'

theorem mem_of_get? (T : Tiles size m U) (h : m.get? k = some a) (hle : k ≤ p)
    (hlt : p < k + size a) : p ∈ U :=
  (T.mem_iff p).2 ⟨k, a, h, hle, hlt⟩

theorem entries_pairwise (T : Tiles size m U) :
    m.entries.Pairwise (fun e e' => e.1 + size e.2 ≤ e'.1) := by
  refine m.sorted.imp_of_mem fun {e e'} he he' hlt => ?_
  exact T.disjoint (OrderedMap.get?_eq_some_iff.2 he) (OrderedMap.get?_eq_some_iff.2 he') hlt

theorem floor_eq (T : Tiles size m U) (h : m.get? k = some a) (hle : k ≤ p)
    (hlt : p < k + size a) : m.floor p = some (k, a) := by
  refine OrderedMap.floor_eq_some_iff.2 ⟨h, hle, fun k' a' h' hle' => ?_⟩
  by_contra hgt
  have := T.disjoint h h' (not_le.1 hgt)
  omega

theorem pieceAt_eq (T : Tiles size m U) (h : m.get? k = some a) (hle : k ≤ p)
    (hlt : p < k + size a) : pieceAt size m p = some (k, a) := by
  simp [pieceAt, T.floor_eq h hle hlt, hlt]

theorem view_eq (T : Tiles size m U) (h : m.get? k = some a) (hle : k ≤ p)
    (hlt : p < k + size a) : view size read m p = some (read a (p - k)) := by
  simp [view, T.pieceAt_eq h hle hlt]

theorem view_eq_some_iff (T : Tiles size m U) {l : L} :
    view size read m p = some l ↔
      ∃ k a, m.get? k = some a ∧ k ≤ p ∧ p < k + size a ∧ read a (p - k) = l := by
  constructor
  · intro h
    obtain ⟨⟨k, a⟩, he, hl⟩ := Option.map_eq_some_iff.1 h
    obtain ⟨hget, hle, hlt⟩ := get?_of_pieceAt he
    exact ⟨k, a, hget, hle, hlt, hl⟩
  · rintro ⟨k, a, h, hle, hlt, rfl⟩
    exact T.view_eq h hle hlt

theorem view_isSome_iff (T : Tiles size m U) : (view size read m p).isSome ↔ p ∈ U := by
  rw [Option.isSome_iff_exists, T.mem_iff]
  simp only [T.view_eq_some_iff]
  constructor
  · rintro ⟨_, k, a, h, hle, hlt, _⟩
    exact ⟨k, a, h, hle, hlt⟩
  · rintro ⟨k, a, h, hle, hlt⟩
    exact ⟨_, k, a, h, hle, hlt, rfl⟩

theorem view_eq_none (T : Tiles size m U) (h : p ∉ U) : view size read m p = none := by
  rw [← Option.not_isSome_iff_eq_none, T.view_isSome_iff]
  exact h

end Tiles

/-- The addresses of a list of pieces. -/
def ranges (size : α → ℕ) (l : List (ℕ × α)) : Set ℕ :=
  {p | ∃ e ∈ l, e.1 ≤ p ∧ p < e.1 + size e.2}

theorem ranges_cons (e : ℕ × α) (l : List (ℕ × α)) :
    ranges size (e :: l) = Set.Ico e.1 (e.1 + size e.2) ∪ ranges size l := by
  ext p
  simp [ranges]

theorem ranges_finite (l : List (ℕ × α)) : (ranges size l).Finite := by
  induction l with
  | nil => simp [ranges]
  | cons e l ih =>
      rw [ranges_cons]
      exact (Set.finite_Ico _ _).union ih

theorem ncard_ranges (l : List (ℕ × α))
    (hl : l.Pairwise fun e e' => e.1 + size e.2 ≤ e'.1) :
    (ranges size l).ncard = (l.map fun e => size e.2).sum := by
  induction l with
  | nil => simp [ranges]
  | cons e l ih =>
      rw [List.pairwise_cons] at hl
      have hdisjoint : Disjoint (Set.Ico e.1 (e.1 + size e.2)) (ranges size l) := by
        rw [Set.disjoint_left]
        rintro p ⟨-, hlt⟩ ⟨e', he', hle, -⟩
        have := hl.1 e' he'
        omega
      rw [ranges_cons, Set.ncard_union_eq hdisjoint (Set.finite_Ico _ _) (ranges_finite l),
        ih hl.2, List.map_cons, List.sum_cons, Set.ncard_Ico_nat, Nat.add_sub_cancel_left]

theorem Tiles.map (T : Tiles size m U) {g : α → α} (hg : ∀ a, size (g a) = size a)
    (hget : ∀ x, m'.get? x = (m.get? x).map g) : Tiles size m' U := by
  have hsome : ∀ {x b}, m'.get? x = some b → ∃ a, m.get? x = some a ∧ size b = size a := by
    intro x b hx
    obtain ⟨a, ha, rfl⟩ := Option.map_eq_some_iff.1 ((hget x).symm.trans hx)
    exact ⟨a, ha, hg a⟩
  refine ⟨fun {x b} hx => ?_, fun {x b y c} hx hy hxy => ?_, fun p => ?_⟩
  · obtain ⟨a, ha, heq⟩ := hsome hx
    rw [heq]
    exact T.pos ha
  · obtain ⟨a, ha, heq⟩ := hsome hx
    obtain ⟨a', ha', -⟩ := hsome hy
    rw [heq]
    exact T.disjoint ha ha' hxy
  · rw [T.mem_iff]
    constructor
    · rintro ⟨x, a, hx, hle, hlt⟩
      exact ⟨x, g a, by rw [hget, hx, Option.map_some], hle, by rwa [hg]⟩
    · rintro ⟨x, b, hx, hle, hlt⟩
      obtain ⟨a, ha, heq⟩ := hsome hx
      exact ⟨x, a, ha, hle, by omega⟩

theorem Tiles.view_map (T : Tiles size m U) {g : α → α} {h : L → L}
    (hg : ∀ a, size (g a) = size a) (hread : ∀ a i, read (g a) i = h (read a i))
    (hget : ∀ x, m'.get? x = (m.get? x).map g) (p : ℕ) :
    view size read m' p = (view size read m p).map h := by
  by_cases hp : p ∈ U
  · obtain ⟨x, a, hx, hle, hlt⟩ := (T.mem_iff p).1 hp
    rw [T.view_eq hx hle hlt, (T.map hg hget).view_eq (by rw [hget, hx, Option.map_some]) hle
      (by rwa [hg]), Option.map_some, hread]
  · rw [T.view_eq_none hp, (T.map hg hget).view_eq_none hp, Option.map_none]

/-! ### The three edits -/

section Edits

variable {l r b j : α}

theorem Tiles.cut (T : Tiles size m U) (h : m.get? k = some a) (hl : 0 < size l)
    (hr : 0 < size r) (hsum : size l + size r = size a)
    (hget : ∀ x, m'.get? x =
      if x = k + size l then some r else if x = k then some l else m.get? x) :
    Tiles size m' U := by
  have hkl : m.get? (k + size l) = none := T.get?_eq_none_of_mem h (by omega) (by omega)
  refine ⟨fun {x c} hx => ?_, fun {x c y d} hx hy hxy => ?_, fun p => ?_⟩
  · rw [hget] at hx
    split_ifs at hx with h1 h2
    · simp_all
    · simp_all
    · exact T.pos hx
  · rw [hget] at hx hy
    split_ifs at hx with h1 h2 <;> split_ifs at hy with h3 h4
    · omega
    · omega
    · cases hx
      have := T.disjoint h hy (by omega)
      omega
    · cases hx
      omega
    · omega
    · cases hx
      have := T.disjoint h hy (by omega)
      omega
    · have := T.disjoint hx h (by
        rcases lt_trichotomy x k with hlt | heq | hgt
        · exact hlt
        · exact absurd heq h2
        · have := T.disjoint h hx hgt
          omega)
      omega
    · have := T.disjoint hx h (by omega)
      omega
    · exact T.disjoint hx hy hxy
  · rw [T.mem_iff]
    constructor
    · rintro ⟨x, c, hx, hle, hlt⟩
      by_cases hxk : x = k
      · subst hxk
        obtain rfl : c = a := by simpa [h] using hx.symm
        by_cases hpl : p < x + size l
        · exact ⟨x, l, by rw [hget, if_neg (by omega), if_pos rfl], hle, hpl⟩
        · exact ⟨x + size l, r, by rw [hget, if_pos rfl], by omega, by omega⟩
      · refine ⟨x, c, ?_, hle, hlt⟩
        rw [hget, if_neg, if_neg hxk, hx]
        rintro rfl
        rw [hkl] at hx
        cases hx
    · rintro ⟨x, c, hx, hle, hlt⟩
      rw [hget] at hx
      split_ifs at hx with h1 h2
      · cases hx
        exact ⟨k, a, h, by omega, by omega⟩
      · cases hx
        exact ⟨k, a, h, by omega, by omega⟩
      · exact ⟨x, c, hx, hle, hlt⟩

theorem Tiles.view_cut (T : Tiles size m U) (h : m.get? k = some a) (hl : 0 < size l)
    (hr : 0 < size r) (hsum : size l + size r = size a)
    (hget : ∀ x, m'.get? x =
      if x = k + size l then some r else if x = k then some l else m.get? x)
    (hreadl : ∀ i < size l, read l i = read a i)
    (hreadr : ∀ i < size r, read r i = read a (size l + i)) (p : ℕ) :
    view size read m' p = view size read m p := by
  have T' := T.cut h hl hr hsum hget
  by_cases hp : p ∈ U
  · obtain ⟨x, c, hx, hle, hlt⟩ := (T.mem_iff p).1 hp
    rw [T.view_eq hx hle hlt]
    by_cases hxk : x = k
    · subst hxk
      obtain rfl : c = a := by simpa [h] using hx.symm
      by_cases hpl : p < x + size l
      · rw [T'.view_eq (k := x) (a := l) (by rw [hget, if_neg (by omega), if_pos rfl]) hle hpl,
          hreadl _ (by omega)]
      · rw [T'.view_eq (k := x + size l) (a := r) (by rw [hget, if_pos rfl]) (by omega)
          (by omega), hreadr _ (by omega)]
        congr 2
        omega
    · refine T'.view_eq ?_ hle hlt
      rw [hget, if_neg, if_neg hxk, hx]
      rintro rfl
      rw [T.get?_eq_none_of_mem h (by omega) (by omega)] at hx
      cases hx
  · rw [T.view_eq_none hp, T'.view_eq_none hp]

theorem Tiles.join (T : Tiles size m U) (h : m.get? k = some a)
    (hb : m.get? (k + size a) = some b) (hsum : size j = size a + size b)
    (hget : ∀ x, m'.get? x =
      if x = k + size a then none else if x = k then some j else m.get? x) :
    Tiles size m' U := by
  have ha := T.pos h
  have hb' := T.pos hb
  refine ⟨fun {x c} hx => ?_, fun {x c y d} hx hy hxy => ?_, fun p => ?_⟩
  · rw [hget] at hx
    split_ifs at hx with h1 h2
    · cases hx
      omega
    · exact T.pos hx
  · rw [hget] at hx hy
    split_ifs at hx with h1 h2 <;> split_ifs at hy with h3 h4
    · omega
    · cases hx
      have hlt : k + size a < y := by
        have := T.disjoint h hy (by omega)
        omega
      have := T.disjoint hb hy hlt
      omega
    · have := T.disjoint hx h (by omega)
      omega
    · exact T.disjoint hx hy hxy
  · rw [T.mem_iff]
    constructor
    · rintro ⟨x, c, hx, hle, hlt⟩
      by_cases h1 : x = k + size a
      · subst h1
        obtain rfl : c = b := by simpa [hb] using hx.symm
        exact ⟨k, j, by rw [hget, if_neg (by omega), if_pos rfl], by omega, by omega⟩
      · by_cases h2 : x = k
        · subst h2
          obtain rfl : c = a := by simpa [h] using hx.symm
          exact ⟨x, j, by rw [hget, if_neg (by omega), if_pos rfl], by omega, by omega⟩
        · exact ⟨x, c, by rw [hget, if_neg h1, if_neg h2, hx], hle, hlt⟩
    · rintro ⟨x, c, hx, hle, hlt⟩
      rw [hget] at hx
      split_ifs at hx with h1 h2
      · cases hx
        by_cases hpa : p < k + size a
        · exact ⟨k, a, h, by omega, hpa⟩
        · exact ⟨k + size a, b, hb, by omega, by omega⟩
      · exact ⟨x, c, hx, hle, hlt⟩

theorem Tiles.view_join (T : Tiles size m U) (h : m.get? k = some a)
    (hb : m.get? (k + size a) = some b) (hsum : size j = size a + size b)
    (hget : ∀ x, m'.get? x =
      if x = k + size a then none else if x = k then some j else m.get? x)
    (hreada : ∀ i < size a, read j i = read a i)
    (hreadb : ∀ i < size b, read j (size a + i) = read b i) (p : ℕ) :
    view size read m' p = view size read m p := by
  have T' := T.join h hb hsum hget
  have ha := T.pos h
  have hj : m'.get? k = some j := by rw [hget, if_neg (by omega), if_pos rfl]
  by_cases hp : p ∈ U
  · obtain ⟨x, c, hx, hle, hlt⟩ := (T.mem_iff p).1 hp
    rw [T.view_eq hx hle hlt]
    by_cases h1 : x = k + size a
    · subst h1
      obtain rfl : c = b := by simpa [hb] using hx.symm
      rw [T'.view_eq hj (by omega) (by omega), ← hreadb _ (by omega)]
      congr 2
      omega
    · by_cases h2 : x = k
      · subst h2
        obtain rfl : c = a := by simpa [h] using hx.symm
        rw [T'.view_eq hj (by omega) (by omega), hreada _ (by omega)]
      · exact T'.view_eq (by rw [hget, if_neg h1, if_neg h2, hx]) hle hlt
  · rw [T.view_eq_none hp, T'.view_eq_none hp]

theorem Tiles.set (T : Tiles size m U) (h : m.get? k = some a) (hsize : size a' = size a)
    (hget : ∀ x, m'.get? x = if x = k then some a' else m.get? x) : Tiles size m' U := by
  refine ⟨fun {x c} hx => ?_, fun {x c y d} hx hy hxy => ?_, fun p => ?_⟩
  · rw [hget] at hx
    split_ifs at hx with h1
    · cases hx
      exact hsize ▸ T.pos h
    · exact T.pos hx
  · rw [hget] at hx hy
    split_ifs at hx with h1 <;> split_ifs at hy with h2
    · omega
    · cases hx
      rw [hsize, h1]
      exact T.disjoint h hy (by omega)
    · exact h2 ▸ T.disjoint hx h (by omega)
    · exact T.disjoint hx hy hxy
  · rw [T.mem_iff]
    constructor
    · rintro ⟨x, c, hx, hle, hlt⟩
      by_cases h1 : x = k
      · subst h1
        obtain rfl : c = a := by simpa [h] using hx.symm
        exact ⟨x, a', by rw [hget, if_pos rfl], hle, by omega⟩
      · exact ⟨x, c, by rw [hget, if_neg h1, hx], hle, hlt⟩
    · rintro ⟨x, c, hx, hle, hlt⟩
      rw [hget] at hx
      split_ifs at hx with h1
      · cases hx
        exact ⟨k, a, h, by omega, by omega⟩
      · exact ⟨x, c, hx, hle, hlt⟩

theorem Tiles.view_set (T : Tiles size m U) (h : m.get? k = some a)
    (hsize : size a' = size a)
    (hget : ∀ x, m'.get? x = if x = k then some a' else m.get? x) (p : ℕ) :
    view size read m' p =
      if k ≤ p ∧ p < k + size a then some (read a' (p - k)) else view size read m p := by
  have T' := T.set h hsize hget
  split_ifs with hp
  · exact T'.view_eq (by rw [hget, if_pos rfl]) hp.1 (by omega)
  · by_cases hpU : p ∈ U
    · obtain ⟨x, c, hx, hle, hlt⟩ := (T.mem_iff p).1 hpU
      rw [T.view_eq hx hle hlt]
      refine T'.view_eq ?_ hle hlt
      rw [hget, if_neg, hx]
      rintro rfl
      obtain rfl : c = a := by simpa [h] using hx.symm
      exact hp ⟨hle, hlt⟩
    · rw [T.view_eq_none hpU, T'.view_eq_none hpU]

end Edits

/-! ### Cutting a whole tiling in two, and appending one to another -/

section Halves

variable {off n n' : ℕ} {t d : α → ℕ → α} {m₁ m₂ : OrderedMap ℕ α} {V : Set ℕ}

theorem Tiles.front (T : Tiles size m U) (ht : ∀ a n, size (t a n) = n)
    (hget : ∀ x, m₁.get? x = if x < off then
        (m.get? x).map fun a => if x + size a ≤ off then a else t a (off - x)
      else none) :
    Tiles size m₁ {x | x ∈ U ∧ x < off} := by
  have hmem : ∀ x b, m₁.get? x = some b ↔ x < off ∧ ∃ a, m.get? x = some a ∧
      (if x + size a ≤ off then a else t a (off - x)) = b := by
    intro x b
    rw [hget]
    split_ifs with h <;> simp [h, Option.map_eq_some_iff]
  have hsize : ∀ x a, size (if x + size a ≤ off then a else t a (off - x)) =
      min (size a) (off - x) := by
    intro x a
    split_ifs with h
    · omega
    · rw [ht]
      omega
  refine ⟨fun {x b} hx => ?_, fun {x b y c} hx hy hxy => ?_, fun p => ?_⟩
  · obtain ⟨hlt, a, ha, rfl⟩ := (hmem x b).1 hx
    have := T.pos ha
    rw [hsize]
    omega
  · obtain ⟨-, a, ha, rfl⟩ := (hmem x b).1 hx
    obtain ⟨-, a', ha', rfl⟩ := (hmem y c).1 hy
    have := T.disjoint ha ha' hxy
    rw [hsize]
    omega
  · constructor
    · rintro ⟨hp, hlt⟩
      obtain ⟨x, a, ha, hle, hlt'⟩ := (T.mem_iff p).1 hp
      refine ⟨x, _, (hmem x _).2 ⟨by omega, a, ha, rfl⟩, hle, ?_⟩
      rw [hsize]
      omega
    · rintro ⟨x, b, hx, hle, hlt⟩
      obtain ⟨-, a, ha, rfl⟩ := (hmem x b).1 hx
      rw [hsize] at hlt
      exact ⟨T.mem_of_get? ha hle (by omega), by omega⟩

theorem Tiles.view_front (T : Tiles size m U) (ht : ∀ a n, size (t a n) = n)
    (hread : ∀ a n i, read (t a n) i = read a i)
    (hget : ∀ x, m₁.get? x = if x < off then
        (m.get? x).map fun a => if x + size a ≤ off then a else t a (off - x)
      else none) {p : ℕ} (hp : p < off) :
    view size read m₁ p = view size read m p := by
  have T₁ := T.front ht hget
  by_cases hpU : p ∈ U
  · obtain ⟨x, a, ha, hle, hlt⟩ := (T.mem_iff p).1 hpU
    have hx : m₁.get? x = some (if x + size a ≤ off then a else t a (off - x)) := by
      rw [hget, if_pos (by omega), ha, Option.map_some]
    rw [T.view_eq ha hle hlt, T₁.view_eq hx hle]
    · split_ifs with h
      · rfl
      · rw [hread]
    · split_ifs with h
      · exact hlt
      · rw [ht]
        omega
  · rw [T.view_eq_none hpU, T₁.view_eq_none fun h => hpU h.1]

theorem Tiles.back (T : Tiles size m U) (hd : ∀ a n, size (d a n) = size a - n)
    (hget : ∀ x b, m₂.get? x = some b ↔ ∃ k a, m.get? k = some a ∧ off < k + size a ∧
      x = k - off ∧ b = if off ≤ k then a else d a (off - k)) :
    Tiles size m₂ {x | off + x ∈ U} := by
  have hsize : ∀ k a, size (if off ≤ k then a else d a (off - k)) =
      size a - (off - k) := by
    intro k a
    split_ifs with h
    · omega
    · rw [hd]
  refine ⟨fun {x b} hx => ?_, fun {x b y c} hx hy hxy => ?_, fun p => ?_⟩
  · obtain ⟨k, a, ha, hlt, rfl, rfl⟩ := (hget x b).1 hx
    have := T.pos ha
    rw [hsize]
    omega
  · obtain ⟨k, a, ha, hlt, rfl, rfl⟩ := (hget x b).1 hx
    obtain ⟨k', a', ha', hlt', rfl, rfl⟩ := (hget y c).1 hy
    have := T.disjoint ha ha' (by omega)
    rw [hsize]
    omega
  · constructor
    · intro hp
      obtain ⟨k, a, ha, hle, hlt⟩ := (T.mem_iff (off + p)).1 hp
      refine ⟨k - off, _, (hget _ _).2 ⟨k, a, ha, by omega, rfl, rfl⟩, by omega, ?_⟩
      rw [hsize]
      omega
    · rintro ⟨x, b, hx, hle, hlt⟩
      obtain ⟨k, a, ha, hlt', rfl, rfl⟩ := (hget x b).1 hx
      rw [hsize] at hlt
      exact T.mem_of_get? ha (by omega) (by omega)

theorem Tiles.view_back (T : Tiles size m U) (hd : ∀ a n, size (d a n) = size a - n)
    (hread : ∀ a n i, read (d a n) i = read a (n + i))
    (hget : ∀ x b, m₂.get? x = some b ↔ ∃ k a, m.get? k = some a ∧ off < k + size a ∧
      x = k - off ∧ b = if off ≤ k then a else d a (off - k)) (p : ℕ) :
    view size read m₂ p = view size read m (off + p) := by
  have T₂ := T.back hd hget
  by_cases hpU : off + p ∈ U
  · obtain ⟨k, a, ha, hle, hlt⟩ := (T.mem_iff _).1 hpU
    rw [T.view_eq ha hle hlt,
      T₂.view_eq ((hget _ _).2 ⟨k, a, ha, by omega, rfl, rfl⟩) (by omega)]
    · split_ifs with h
      · congr 2
        omega
      · rw [hread]
        congr 2
        omega
    · split_ifs with h
      · omega
      · rw [hd]
        omega
  · rw [T.view_eq_none hpU, T₂.view_eq_none hpU]

theorem Tiles.append (T : Tiles size m₁ {x | x < n}) (T' : Tiles size m₂ {x | x < n'})
    (hget : ∀ x b, m.get? x = some b ↔
      m₁.get? x = some b ∨ ∃ k, m₂.get? k = some b ∧ x = n + k) :
    Tiles size m {x | x < n + n'} := by
  have hlt : ∀ {k b}, m₁.get? k = some b → k + size b ≤ n := by
    intro k b hk
    have hpos := T.pos hk
    have hmem : k + size b - 1 < n := T.mem_of_get? hk (by omega) (by omega)
    omega
  have hlt' : ∀ {k b}, m₂.get? k = some b → k + size b ≤ n' := by
    intro k b hk
    have hpos := T'.pos hk
    have hmem : k + size b - 1 < n' := T'.mem_of_get? hk (by omega) (by omega)
    omega
  refine ⟨fun {x b} hx => ?_, fun {x b y c} hx hy hxy => ?_, fun p => ?_⟩
  · rcases (hget x b).1 hx with hx | ⟨k, hk, rfl⟩
    · exact T.pos hx
    · exact T'.pos hk
  · rcases (hget x b).1 hx with hx | ⟨k, hk, rfl⟩ <;>
      rcases (hget y c).1 hy with hy | ⟨k', hk', rfl⟩
    · exact T.disjoint hx hy hxy
    · have := hlt hx
      omega
    · have := hlt hy
      have := T.pos hy
      omega
    · have := T'.disjoint hk hk' (by omega)
      omega
  · constructor
    · intro hp
      by_cases hpn : p < n
      · obtain ⟨k, b, hk, hle, hlt⟩ := (T.mem_iff p).1 hpn
        exact ⟨k, b, (hget _ _).2 (.inl hk), hle, hlt⟩
      · obtain ⟨k, b, hk, hle, hlt⟩ := (T'.mem_iff (p - n)).1 (by simp at hp ⊢; omega)
        exact ⟨n + k, b, (hget _ _).2 (.inr ⟨k, hk, rfl⟩), by omega, by omega⟩
    · rintro ⟨x, b, hx, hle, hlt₀⟩
      rcases (hget x b).1 hx with hx | ⟨k, hk, rfl⟩
      · have := hlt hx
        simp only [Set.mem_ofPred_eq]
        omega
      · have := hlt' hk
        simp only [Set.mem_ofPred_eq]
        omega

theorem Tiles.view_append (T : Tiles size m₁ {x | x < n}) (T' : Tiles size m₂ {x | x < n'})
    (hget : ∀ x b, m.get? x = some b ↔
      m₁.get? x = some b ∨ ∃ k, m₂.get? k = some b ∧ x = n + k) (p : ℕ) :
    view size read m p =
      if p < n then view size read m₁ p else view size read m₂ (p - n) := by
  have T₀ := T.append T' hget
  split_ifs with hp
  · obtain ⟨k, b, hk, hle, hlt⟩ := (T.mem_iff p).1 hp
    rw [T.view_eq hk hle hlt, T₀.view_eq ((hget _ _).2 (.inl hk)) hle hlt]
  · by_cases hp' : p - n < n'
    · obtain ⟨k, b, hk, hle, hlt⟩ := (T'.mem_iff (p - n)).1 hp'
      rw [T'.view_eq hk hle hlt,
        T₀.view_eq ((hget _ _).2 (.inr ⟨k, hk, rfl⟩)) (by omega) (by omega)]
      congr 2
      omega
    · rw [T'.view_eq_none hp', T₀.view_eq_none]
      simp only [Set.mem_ofPred_eq]
      omega

end Halves

end Tiling
