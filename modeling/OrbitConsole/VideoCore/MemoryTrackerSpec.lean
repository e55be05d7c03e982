import Mathlib.Data.List.Range
import OrbitConsole.VideoCore.MemoryTracker
import OrbitConsole.VideoCore.RegionManagerSpec

/-!
# The memory tracker as a flat map of pages

The purpose of the tracker, without its regions: for each page of memory, whether
the CPU and whether the GPU modified it. Each call of the tracker does to its pages
what the same call does to the flat map.
-/

namespace OrbitConsole.VideoCore

/-- For each page, by whom it was modified. -/
abbrev FlatMap := Modifier → ℕ → Bool

def Touches (addr size i : ℕ) : Prop :=
  0 < size ∧ addr < (i + 1) * trackerBytesPerPage ∧ i * trackerBytesPerPage < addr + size

instance (addr size : ℕ) : DecidablePred (Touches addr size) :=
  fun _ => inferInstanceAs (Decidable (_ ∧ _ ∧ _))

namespace FlatMap

/-- Every page is modified by the CPU only. -/
def init : FlatMap := fun type _ => type = .cpu

/-- The pages of the range get a value. -/
def set (d : FlatMap) (type : Modifier) (value : Bool) (addr size : ℕ) : FlatMap :=
  fun type' i => if type' = type ∧ Touches addr size i then value else d type' i

end FlatMap

def pagesOf (ranges : List (ℕ × ℕ)) : List ℕ :=
  ranges.flatMap fun r => List.range' (r.1 / trackerBytesPerPage) (r.2 / trackerBytesPerPage)

/-- The ranges are of whole pages: those of the query that are set, each once, in ascending
order. -/
structure Reports (dirty : ℕ → Bool) (addr size : ℕ) (ranges : List (ℕ × ℕ)) : Prop where
  aligned : ∀ r ∈ ranges, r.1 % trackerBytesPerPage = 0 ∧ r.2 % trackerBytesPerPage = 0
  ascending : (pagesOf ranges).Pairwise (· < ·)
  mem : ∀ i, i ∈ pagesOf ranges ↔ Touches addr size i ∧ dirty i = true

namespace MemoryTracker

def Request.flat (d : FlatMap) : Request → FlatMap
  | .isRegionCpuModified _ _ => d
  | .isRegionGpuModified _ _ => d
  | .markRegionAsCpuModified addr size => d.set .cpu true addr size
  | .unmarkRegionAsGpuModified addr size => d.set .gpu false addr size
  | .forEachUploadRange isWritten addr size =>
      if isWritten then (d.set .cpu false addr size).set .gpu true addr size
      else d.set .cpu false addr size
  | .forEachDownloadRange clear addr size => if clear then d.set .gpu false addr size else d

def Request.Answers (d : FlatMap) (answer : Answer) : Request → Prop
  | .isRegionCpuModified addr size =>
      answer.modified = true ↔ ∃ i, Touches addr size i ∧ d .cpu i = true
  | .isRegionGpuModified addr size =>
      answer.modified = true ↔ ∃ i, Touches addr size i ∧ d .gpu i = true
  | .markRegionAsCpuModified _ _ => answer.reported = []
  | .unmarkRegionAsGpuModified _ _ => answer.reported = []
  | .forEachUploadRange _ addr size => Reports (d .cpu) addr size answer.reported
  | .forEachDownloadRange _ addr size => Reports (d .gpu) addr size answer.reported

def FlatRequests : List Request → FlatMap → List Answer → FlatMap → Prop
  | [], d, answers, d' => answers = [] ∧ d' = d
  | r :: rest, d, answers, d' =>
      ∃ answer answers', answers = answer :: answers' ∧ r.Answers d answer ∧
        FlatRequests rest (r.flat d) answers' d'

/-- The parts of a query that are in one region each. -/
def pieces : ℕ → ℕ → ℕ → List (ℕ × ℕ)
  | 0, _, _ => []
  | n + 1, addr, size =>
      if size = 0 then []
      else
        let copyAmount := min (trackerHigherPageSize - addr % trackerHigherPageSize) size
        (addr, copyAmount) :: pieces n (addr + copyAmount) (size - copyAmount)

def NeedsFlush (mode : GpuReadbacksMode) (d : FlatMap) (p : ℕ × ℕ) : Prop :=
  mode ≠ .disabled ∧ ∃ i, Touches p.1 p.2 i ∧ d .gpu i = true

def FlatInvalidate (mode : GpuReadbacksMode) (onFlush : List Request) :
    List (ℕ × ℕ) → FlatMap → List Answer → FlatMap → Prop
  | [], d, answers, d' => answers = [] ∧ d' = d
  | p :: rest, d, answers, d' =>
      (NeedsFlush mode d p ∧ ∃ answers₁ answers₂ d₁, answers = answers₁ ++ answers₂ ∧
          FlatRequests onFlush d answers₁ d₁ ∧
          FlatInvalidate mode onFlush rest d₁ answers₂ d') ∨
        ¬ NeedsFlush mode d p ∧
          FlatInvalidate mode onFlush rest (d.set .cpu true p.1 p.2) answers d'

def FlatOp (mode : GpuReadbacksMode) (d : FlatMap) (answers : List Answer) (d' : FlatMap) :
    Op → Prop
  | .request r => FlatRequests [r] d answers d'
  | .invalidateRegion onFlush addr size =>
      FlatInvalidate mode onFlush (pieces size addr size) d answers d'

def FlatOps (mode : GpuReadbacksMode) : List Op → FlatMap → List Answer → FlatMap → Prop
  | [], d, answers, d' => answers = [] ∧ d' = d
  | op :: rest, d, answers, d' =>
      ∃ answers₁ answers₂ d₁, answers = answers₁ ++ answers₂ ∧ FlatOp mode d answers₁ d₁ op ∧
        FlatOps mode rest d₁ answers₂ d'

/-! ### The parts of a query -/

variable {σ : Type} {t t' : MemoryTracker} {mode : GpuReadbacksMode} {type : Modifier}
  {p : ℕ × ℕ} {m m' : RegionManager} {tracker : PageManager} {addr size i : ℕ}

/-- The index of the region of a part. -/
def region (p : ℕ × ℕ) : ℕ := p.1 / trackerHigherPageSize

/-- A part is within its region. -/
def IsPiece (p : ℕ × ℕ) : Prop := IsPart (p.1 % trackerHigherPageSize) p.2

theorem IsPiece.touches_iff (h : IsPiece p) :
    Touches p.1 p.2 i ↔ i / numPagesPerRegion = region p ∧
      InPart (p.1 % trackerHigherPageSize) p.2 (i % numPagesPerRegion) := by
  have hpos := h.pos
  have hle := h.le
  unfold InPart
  rw [h.startPage_eq, h.endPage_eq]
  unfold Touches region trackerBytesPerPage numPagesPerRegion trackerHigherPageSize at *
  omega

theorem isPiece_of_mem {n : ℕ} (hp : p ∈ pieces n addr size) : IsPiece p := by
  induction n generalizing addr size with
  | zero => exact absurd hp List.not_mem_nil
  | succ n ih =>
      unfold pieces at hp
      split at hp
      · exact absurd hp List.not_mem_nil
      · next hsize =>
          rcases List.mem_cons.1 hp with rfl | hp
          · have hlt : addr % trackerHigherPageSize < trackerHigherPageSize :=
              Nat.mod_lt _ (by decide)
            constructor
            · simp only
              omega
            · simp only
              omega
          · exact ih hp

theorem exists_piece_iff {n : ℕ} (hn : size ≤ n) :
    (∃ p ∈ pieces n addr size, Touches p.1 p.2 i) ↔ Touches addr size i := by
  induction n generalizing addr size with
  | zero =>
      obtain rfl : size = 0 := Nat.le_zero.1 hn
      constructor
      · rintro ⟨p, hp, -⟩
        exact absurd hp List.not_mem_nil
      · exact fun h => absurd h.1 (Nat.lt_irrefl 0)
  | succ n ih =>
      unfold pieces
      split
      · next hzero =>
          constructor
          · rintro ⟨p, hp, -⟩
            exact absurd hp List.not_mem_nil
          · exact fun h => absurd h.1 (by omega)
      · next hsize =>
          have hlt : addr % trackerHigherPageSize < trackerHigherPageSize :=
            Nat.mod_lt _ (by decide)
          simp only [List.mem_cons, exists_eq_or_imp]
          rw [ih (by omega)]
          unfold Touches trackerBytesPerPage
          omega

theorem pieces_pairwise {n : ℕ} :
    (pieces n addr size).Pairwise (fun p p' => region p < region p') ∧
      ∀ p ∈ pieces n addr size, addr ≤ p.1 := by
  induction n generalizing addr size with
  | zero => exact ⟨List.Pairwise.nil, fun p hp => absurd hp List.not_mem_nil⟩
  | succ n ih =>
      unfold pieces
      split
      · exact ⟨List.Pairwise.nil, fun p hp => absurd hp List.not_mem_nil⟩
      · next hsize =>
          obtain ⟨hsorted, hge⟩ := @ih
            (addr + min (trackerHigherPageSize - addr % trackerHigherPageSize) size)
            (size - min (trackerHigherPageSize - addr % trackerHigherPageSize) size)
          refine ⟨List.pairwise_cons.2 ⟨?_, hsorted⟩, ?_⟩
          · intro p hp
            have hle := hge p hp
            -- the next part starts with a region, or there is none
            by_cases hend : size ≤ trackerHigherPageSize - addr % trackerHigherPageSize
            · rw [Nat.min_eq_right hend, Nat.sub_self] at hp
              cases n with
              | zero => exact absurd hp List.not_mem_nil
              | succ n =>
                  unfold pieces at hp
                  rw [if_pos rfl] at hp
                  exact absurd hp List.not_mem_nil
            · rw [Nat.min_eq_left (by omega)] at hle
              unfold region
              unfold trackerHigherPageSize at *
              simp only
              omega
          · intro p hp
            rcases List.mem_cons.1 hp with rfl | hp
            · exact Nat.le_refl _
            · exact Nat.le_trans (Nat.le_add_right _ _) (hge p hp)

/-! ### The loop over the parts -/

def created (createRegionOnFail : Bool) (p : ℕ × ℕ) (t : MemoryTracker) : MemoryTracker :=
  if t.topTier (region p) = none ∧ createRegionOnFail then t.createRegion (region p) else t

/-- `IteratePages` over the parts of a query. -/
def visitAll (createRegionOnFail : Bool) (func : Visit σ) :
    List (ℕ × ℕ) → MemoryTracker → σ → Except String (Bool × MemoryTracker × σ)
  | [], t, acc => .ok (false, t, acc)
  | p :: rest, t, acc => do
      let t := created createRegionOnFail p t
      let (stop, t, acc) ←
        match t.topTier (region p) with
        | some manager => func (region p) manager (p.1 % trackerHigherPageSize) p.2 t acc
        | none => .ok (false, t, acc)
      if stop then .ok (true, t, acc) else visitAll createRegionOnFail func rest t acc

theorem pieces_zero (n addr : ℕ) : pieces n addr 0 = [] := by
  cases n with
  | zero => rfl
  | succ n =>
      unfold pieces
      exact if_pos rfl

theorem iterateFrom_zero (create : Bool) (func : Visit σ) (n index offset : ℕ)
    (t : MemoryTracker) (acc : σ) :
    iterateFrom create func n 0 index offset t acc = .ok (false, t, acc) := by
  cases n with
  | zero => rfl
  | succ n =>
      unfold iterateFrom
      exact if_pos rfl

theorem iterateFrom_eq (create : Bool) (func : Visit σ) (n : ℕ) {offset : ℕ} (index : ℕ)
    (hoffset : offset < trackerHigherPageSize) (t : MemoryTracker) (acc : σ) :
    iterateFrom create func n size index offset t acc =
      visitAll create func (pieces n (index * trackerHigherPageSize + offset) size) t acc := by
  induction n generalizing size index offset t acc with
  | zero => rfl
  | succ n ih =>
      by_cases hzero : size = 0
      · rw [hzero, iterateFrom_zero, pieces_zero]
        rfl
      · have hmod : (index * trackerHigherPageSize + offset) % trackerHigherPageSize = offset := by
          rw [Nat.add_comm, Nat.add_mul_mod_self_right, Nat.mod_eq_of_lt hoffset]
        have hdiv : (index * trackerHigherPageSize + offset) / trackerHigherPageSize = index := by
          rw [Nat.add_comm, Nat.add_mul_div_right _ _ (by decide), Nat.div_eq_of_lt hoffset,
            Nat.zero_add]
        have hrest : ∀ (t : MemoryTracker) (acc : σ),
            iterateFrom create func n (size - min (trackerHigherPageSize - offset) size)
              (index + 1) 0 t acc =
            visitAll create func (pieces n (index * trackerHigherPageSize + offset +
              min (trackerHigherPageSize - offset) size)
              (size - min (trackerHigherPageSize - offset) size)) t acc := by
          intro t acc
          by_cases hend : size ≤ trackerHigherPageSize - offset
          · rw [Nat.min_eq_right hend, Nat.sub_self, iterateFrom_zero, pieces_zero]
            rfl
          · have hnext : index * trackerHigherPageSize + offset +
                (trackerHigherPageSize - offset) = (index + 1) * trackerHigherPageSize + 0 := by
              rw [Nat.succ_mul]
              omega
            rw [Nat.min_eq_left (Nat.le_of_not_le hend), ih (index + 1) (by decide), hnext]
        unfold iterateFrom pieces
        rw [if_neg hzero, if_neg hzero]
        simp only [hmod, hrest]
        have hvisit := visitAll.eq_2 create func t acc
          (index * trackerHigherPageSize + offset, min (trackerHigherPageSize - offset) size)
          (pieces n (index * trackerHigherPageSize + offset +
            min (trackerHigherPageSize - offset) size)
            (size - min (trackerHigherPageSize - offset) size))
        simp only [created, region, hmod, hdiv] at hvisit
        exact hvisit.symm

theorem iteratePages_eq (create : Bool) (func : Visit σ) (addr size : ℕ) (t : MemoryTracker)
    (acc : σ) :
    iteratePages create func addr size t acc =
      visitAll create func (pieces size addr size) t acc := by
  unfold iteratePages
  rw [iterateFrom_eq _ _ _ _ (Nat.mod_lt _ (by decide)), Nat.shiftRight_eq_div_pow]
  have haddr : addr / 2 ^ trackerHigherPageBits * trackerHigherPageSize +
      addr % trackerHigherPageSize = addr := Nat.div_add_mod' addr trackerHigherPageSize
  rw [haddr]

theorem visitAll_cons {create stop : Bool} {func : Visit σ} {rest : List (ℕ × ℕ)} {acc acc' : σ}
    (h : visitAll create func (p :: rest) t acc = .ok (stop, t', acc')) :
    (∃ m stop₁ t₁ acc₁, (created create p t).topTier (region p) = some m ∧
        func (region p) m (p.1 % trackerHigherPageSize) p.2 (created create p t) acc =
          .ok (stop₁, t₁, acc₁) ∧
        (stop₁ = true ∧ stop = true ∧ t' = t₁ ∧ acc' = acc₁ ∨
          stop₁ = false ∧ visitAll create func rest t₁ acc₁ = .ok (stop, t', acc'))) ∨
      t.topTier (region p) = none ∧ create = false ∧
        visitAll create func rest t acc = .ok (stop, t', acc') := by
  unfold visitAll at h
  cases hm : (created create p t).topTier (region p) with
  | some m =>
      simp only [hm] at h
      obtain ⟨⟨stop₁, t₁, acc₁⟩, hvisit, h⟩ := bind_ok h
      refine .inl ⟨m, stop₁, t₁, acc₁, rfl, hvisit, ?_⟩
      cases stop₁
      · exact .inr ⟨rfl, h⟩
      · cases h
        exact .inl ⟨rfl, rfl, rfl, rfl⟩
  | none =>
      simp only [hm] at h
      have h : visitAll create func rest (created create p t) acc = .ok (stop, t', acc') := h
      unfold created at hm h
      by_cases hcond : t.topTier (region p) = none ∧ create = true
      · rw [if_pos hcond] at hm
        unfold createRegion at hm
        simp only [Function.update_self] at hm
        cases hm
      · rw [if_neg hcond] at hm h
        refine .inr ⟨hm, ?_, h⟩
        cases create
        · rfl
        · exact absurd ⟨hm, rfl⟩ hcond

/-! ### The flat map of a tracker -/

/-- Every region has the address of its index. -/
def WellFormed (t : MemoryTracker) : Prop :=
  ∀ index m, t.topTier index = some m → m.cpuAddr = index * trackerHigherPageSize

def dirty (t : MemoryTracker) : FlatMap := fun type i =>
  match t.topTier (i / numPagesPerRegion) with
  | some m => (m.getRegionBits type).get (i % numPagesPerRegion)
  | none => type = .cpu

theorem dirty_some (h : t.topTier (i / numPagesPerRegion) = some m) :
    t.dirty type i = (m.getRegionBits type).get (i % numPagesPerRegion) := by
  unfold dirty
  rw [h]

theorem dirty_none (h : t.topTier (i / numPagesPerRegion) = none) :
    t.dirty type i = decide (type = .cpu) := by
  unfold dirty
  rw [h]

theorem get_create {index : ℕ} (hi : i < numPagesPerRegion) :
    ((RegionManager.create index).getRegionBits type).get i = decide (type = .cpu) := by
  unfold numPagesPerRegion at hi
  cases type
  · exact BitVec.getLsbD_allOnes.trans (decide_eq_true hi)
  · exact BitVec.getLsbD_zero

theorem shiftLeft_higherPageBits (index : ℕ) :
    index <<< trackerHigherPageBits = index * trackerHigherPageSize := by
  rw [Nat.shiftLeft_eq]
  unfold trackerHigherPageBits trackerHigherPageSize
  omega

theorem created_spec (create : Bool) (p : ℕ × ℕ) (hwf : t.WellFormed) :
    (created create p t).WellFormed ∧ (created create p t).dirty = t.dirty ∧
      ∀ index, t.topTier index ≠ none → (created create p t).topTier index = t.topTier index := by
  unfold created
  by_cases hcond : t.topTier (region p) = none ∧ create = true
  · rw [if_pos hcond]
    unfold createRegion
    refine ⟨?_, ?_, ?_⟩
    · intro index m hm
      simp only at hm
      by_cases hindex : index = region p
      · subst hindex
        rw [Function.update_self, Option.some.injEq] at hm
        rw [← hm]
        exact shiftLeft_higherPageBits _
      · rw [Function.update_of_ne hindex] at hm
        exact hwf index m hm
    · funext type i
      by_cases hi : i / numPagesPerRegion = region p
      · have hnone : t.topTier (i / numPagesPerRegion) = none := hi ▸ hcond.1
        rw [dirty_none hnone]
        unfold dirty
        simp only [hi, Function.update_self]
        exact get_create (Nat.mod_lt _ (by decide))
      · unfold dirty
        simp only [Function.update_of_ne hi]
    · intro index hindex
      apply Function.update_of_ne
      rintro rfl
      exact hindex hcond.1
  · rw [if_neg hcond]
    exact ⟨hwf, rfl, fun _ _ => rfl⟩

theorem store_wellFormed {index : ℕ} (hwf : t.WellFormed) (hm : t.topTier index = some m)
    (haddr : m'.cpuAddr = m.cpuAddr) : (t.store index m' tracker).WellFormed := by
  intro index' m₁ hm₁
  unfold store at hm₁
  simp only at hm₁
  by_cases hindex : index' = index
  · subst hindex
    rw [Function.update_self] at hm₁
    cases hm₁
    rw [haddr]
    exact hwf _ _ hm
  · rw [Function.update_of_ne hindex] at hm₁
    exact hwf index' m₁ hm₁

theorem store_dirty {index : ℕ} (t : MemoryTracker) (m' : RegionManager) (tracker : PageManager) :
    (t.store index m' tracker).dirty type i =
      if i / numPagesPerRegion = index then
        (m'.getRegionBits type).get (i % numPagesPerRegion)
      else t.dirty type i := by
  unfold store dirty
  by_cases hi : i / numPagesPerRegion = index
  · simp only [hi, Function.update_self, if_true]
  · simp only [Function.update_of_ne hi, if_neg hi]

theorem dirty_store_changed {value : Bool} (hp : IsPiece p)
    (hm : t.topTier (region p) = some m)
    (hchanged : m.Changed type value (p.1 % trackerHigherPageSize) p.2 m') :
    (t.store (region p) m' tracker).dirty = t.dirty.set type value p.1 p.2 := by
  funext type' i
  rw [store_dirty]
  unfold FlatMap.set
  by_cases hi : i / numPagesPerRegion = region p
  · rw [if_pos hi, hchanged.get, dirty_some (hi ▸ hm)]
    by_cases hin : InPart (p.1 % trackerHigherPageSize) p.2 (i % numPagesPerRegion)
    · simp only [hin, hp.touches_iff, hi, and_true]
    · simp only [hin, hp.touches_iff, hi, and_false]
  · rw [if_neg hi, if_neg]
    exact fun h => hi (hp.touches_iff.1 h.2).1

theorem dirty_store_same (hm : t.topTier (region p) = some m) (hsame : m.SameBits m') :
    (t.store (region p) m' tracker).dirty = t.dirty := by
  funext type i
  rw [store_dirty]
  by_cases hi : i / numPagesPerRegion = region p
  · rw [if_pos hi, hsame.bits, dirty_some (hi ▸ hm)]
  · rw [if_neg hi]

end MemoryTracker

end OrbitConsole.VideoCore
