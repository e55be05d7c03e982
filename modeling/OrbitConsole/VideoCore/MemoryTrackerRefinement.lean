import OrbitConsole.VideoCore.MemoryTrackerSpec
import OrbitConsole.VideoCore.PageManagerSpec

/-!
# The memory tracker refines the flat map
-/

namespace OrbitConsole.VideoCore

namespace FlatMap

/-- The pages of the parts get a value. -/
def setAll (type : Modifier) (value : Bool) (ps : List (ℕ × ℕ)) (d : FlatMap) : FlatMap :=
  ps.foldl (fun d p => d.set type value p.1 p.2) d

variable {type : Modifier} {value : Bool} {ps : List (ℕ × ℕ)} {d : FlatMap} {addr size i : ℕ}

theorem setAll_cons (p : ℕ × ℕ) :
    setAll type value (p :: ps) d = setAll type value ps (d.set type value p.1 p.2) := rfl

theorem setAll_apply (type' : Modifier) :
    setAll type value ps d type' i =
      if type' = type ∧ ∃ p ∈ ps, Touches p.1 p.2 i then value else d type' i := by
  induction ps generalizing d with
  | nil =>
      rw [if_neg]
      · rfl
      · rintro ⟨-, p, hp, -⟩
        exact List.not_mem_nil hp
  | cons p ps ih =>
      rw [setAll_cons, ih]
      unfold set
      by_cases htype : type' = type
      · by_cases hrest : ∃ p ∈ ps, Touches p.1 p.2 i
        · obtain ⟨p', hp', hin⟩ := hrest
          rw [if_pos ⟨htype, p', hp', hin⟩, if_pos ⟨htype, p', List.mem_cons_of_mem p hp', hin⟩]
        · rw [if_neg fun h => hrest h.2]
          by_cases hp : Touches p.1 p.2 i
          · rw [if_pos ⟨htype, hp⟩, if_pos ⟨htype, p, List.mem_cons_self, hp⟩]
          · rw [if_neg fun h => hp h.2, if_neg]
            rintro ⟨-, p', hp', hin⟩
            rcases List.mem_cons.1 hp' with rfl | hp'
            · exact hp hin
            · exact hrest ⟨p', hp', hin⟩
      · rw [if_neg fun h => htype h.1, if_neg fun h => htype h.1, if_neg fun h => htype h.1]

theorem setAll_pieces :
    setAll type value (MemoryTracker.pieces size addr size) d = d.set type value addr size := by
  funext type' i
  rw [setAll_apply]
  unfold set
  simp only [MemoryTracker.exists_piece_iff (Nat.le_refl size)]

theorem set_eq (h : ∀ i, Touches addr size i → d type i = value) :
    d.set type value addr size = d := by
  funext type' i
  unfold set
  split
  · next hin =>
      rw [hin.1]
      exact (h i hin.2).symm
  · rfl

end FlatMap

namespace MemoryTracker

variable {σ : Type} {t t' : MemoryTracker} {mode : GpuReadbacksMode} {type : Modifier}
  {p : ℕ × ℕ} {ps : List (ℕ × ℕ)} {m m' : RegionManager} {tracker : PageManager}
  {create stop enable clear : Bool} {addr size i : ℕ}

theorem created_false (p : ℕ × ℕ) (t : MemoryTracker) : created false p t = t := by
  unfold created
  exact if_neg fun h => Bool.false_ne_true h.2

theorem dirty_missing (hp : IsPiece p) (hm : t.topTier (region p) = none)
    (hin : Touches p.1 p.2 i) : t.dirty type i = decide (type = .cpu) :=
  dirty_none ((hp.touches_iff.1 hin).1 ▸ hm)

/-- No region goes away. -/
def Keeps (t t' : MemoryTracker) : Prop := ∀ index, t.topTier index ≠ none → t'.topTier index ≠ none

theorem Keeps.trans {t₁ : MemoryTracker} (h : t.Keeps t₁) (h' : t₁.Keeps t') : t.Keeps t' :=
  fun index hm => h' index (h index hm)

theorem keeps_store {index : ℕ} : t.Keeps (t.store index m tracker) := by
  intro index' hm
  unfold store
  by_cases hindex : index' = index
  · subst hindex
    simp only [Function.update_self]
    exact Option.some_ne_none _
  · simp only [Function.update_of_ne hindex]
    exact hm

theorem keeps_created (hwf : t.WellFormed) : t.Keeps (created create p t) :=
  fun index hm => by rw [(created_spec create p hwf).2.2 index hm]; exact hm

/-! ### Changing the state of pages -/

theorem changeVisit_ok {acc acc' : σ} (hwf : t.WellFormed) (hp : IsPiece p)
    (hm : t.topTier (region p) = some m)
    (h : changeVisit mode type enable (region p) m (p.1 % trackerHigherPageSize) p.2 t acc =
      .ok (stop, t', acc')) :
    stop = false ∧ acc' = acc ∧ t'.WellFormed ∧ t.Keeps t' ∧
      t'.dirty = t.dirty.set type enable p.1 p.2 := by
  unfold changeVisit at h
  obtain ⟨⟨m', tracker'⟩, hchange, h⟩ := bind_ok h
  have hchanged := RegionManager.changeRegionState_ok hp hchange
  cases h
  exact ⟨rfl, rfl, store_wellFormed hwf hm hchanged.cpuAddr, keeps_store,
    dirty_store_changed hp hm hchanged⟩

/-- Every region is there, or the missing ones need no change. -/
def Covered (t : MemoryTracker) (type : Modifier) (enable : Bool) (ps : List (ℕ × ℕ)) : Prop :=
  (∀ p ∈ ps, t.topTier (region p) ≠ none) ∨ decide (type = .cpu) = enable

theorem changeAll_ok {acc acc' : σ} (hps : ∀ p ∈ ps, IsPiece p) (hwf : t.WellFormed)
    (hcovered : t.Covered type enable ps)
    (h : visitAll false (changeVisit mode type enable) ps t acc = .ok (stop, t', acc')) :
    t'.WellFormed ∧ t'.dirty = FlatMap.setAll type enable ps t.dirty := by
  induction ps generalizing t acc with
  | nil =>
      cases h
      exact ⟨hwf, rfl⟩
  | cons p ps ih =>
      have hp := hps p List.mem_cons_self
      have hps := fun q hq => hps q (List.mem_cons_of_mem p hq)
      rw [FlatMap.setAll_cons]
      rcases visitAll_cons h with ⟨m, stop₁, t₁, acc₁, hm, hvisit, hnext⟩ | ⟨hm, -, hnext⟩
      · rw [created_false] at hm hvisit
        obtain ⟨rfl, rfl, hwf₁, hkeeps, hdirty⟩ := changeVisit_ok hwf hp hm hvisit
        rcases hnext with ⟨hstop, -⟩ | ⟨-, hnext⟩
        · cases hstop
        · rw [← hdirty]
          refine ih hps hwf₁ ?_ hnext
          exact hcovered.imp_left fun hall q hq =>
            hkeeps _ (hall q (List.mem_cons_of_mem p hq))
      · have hvalue : decide (type = .cpu) = enable :=
          hcovered.resolve_left fun hall => hall p List.mem_cons_self hm
        rw [FlatMap.set_eq fun i hin => (dirty_missing hp hm hin).trans hvalue]
        exact ih hps hwf (.inr hvalue) hnext

/-! ### Queries -/

theorem isRegionModified_piece (type : Modifier) (hp : IsPiece p)
    (hm : t.topTier (region p) = some m) :
    m.isRegionModified type (p.1 % trackerHigherPageSize) p.2 = true ↔
      ∃ i, Touches p.1 p.2 i ∧ t.dirty type i = true := by
  rw [RegionManager.isRegionModified_iff hp]
  constructor
  · rintro ⟨i, hin, hset⟩
    have hlt := RegionBits.get_lt hset
    have hdiv : (region p * numPagesPerRegion + i) / numPagesPerRegion = region p := by
      rw [Nat.add_comm, Nat.add_mul_div_right _ _ (by decide), Nat.div_eq_of_lt hlt,
        Nat.zero_add]
    have hmod : (region p * numPagesPerRegion + i) % numPagesPerRegion = i := by
      rw [Nat.add_comm, Nat.add_mul_mod_self_right, Nat.mod_eq_of_lt hlt]
    refine ⟨region p * numPagesPerRegion + i, hp.touches_iff.2 ⟨hdiv, hmod.symm ▸ hin⟩, ?_⟩
    rw [dirty_some (hdiv.symm ▸ hm), hmod]
    exact hset
  · rintro ⟨i, hin, hset⟩
    obtain ⟨hdiv, hpart⟩ := hp.touches_iff.1 hin
    refine ⟨_, hpart, ?_⟩
    rw [dirty_some (hdiv ▸ hm)] at hset
    exact hset

theorem queryAll_ok (hps : ∀ p ∈ ps, IsPiece p) (hwf : t.WellFormed)
    (hcreate : create = true ∨ type = .gpu)
    (h : visitAll create (queryVisit type) ps t () = .ok (stop, t', ())) :
    t'.WellFormed ∧ t'.dirty = t.dirty ∧
      (stop = true ↔ ∃ p ∈ ps, ∃ i, Touches p.1 p.2 i ∧ t.dirty type i = true) := by
  induction ps generalizing t with
  | nil =>
      cases h
      refine ⟨hwf, rfl, fun hf => absurd hf Bool.false_ne_true, ?_⟩
      rintro ⟨p, hp, -⟩
      exact absurd hp List.not_mem_nil
  | cons p ps ih =>
      have hp := hps p List.mem_cons_self
      have hps := fun q hq => hps q (List.mem_cons_of_mem p hq)
      simp only [List.mem_cons, exists_eq_or_imp]
      rcases visitAll_cons h with ⟨m, stop₁, t₁, acc₁, hm, hvisit, hnext⟩ | ⟨hm, hfalse, hnext⟩
      · obtain ⟨hwf₁, hdirty, -⟩ := created_spec create p hwf
        cases hvisit
        have hiff := isRegionModified_piece type hp hm
        rw [hdirty] at hiff
        rcases hnext with ⟨hmodified, rfl, rfl, -⟩ | ⟨hmodified, hnext⟩
        · exact ⟨hwf₁, hdirty, fun _ => .inl (hiff.1 hmodified), fun _ => rfl⟩
        · obtain ⟨hwf', hdirty', hiff'⟩ := ih hps hwf₁ hnext
          rw [hdirty] at hdirty' hiff'
          refine ⟨hwf', hdirty', hiff'.trans (or_iff_right ?_).symm⟩
          intro hex
          rw [hiff.2 hex] at hmodified
          cases hmodified
      · have htype : type = .gpu := hcreate.resolve_left fun h => by rw [hfalse] at h; cases h
        obtain ⟨hwf', hdirty', hiff'⟩ := ih hps hwf hnext
        refine ⟨hwf', hdirty', hiff'.trans (or_iff_right ?_).symm⟩
        rintro ⟨i, hin, hset⟩
        rw [dirty_missing hp hm hin, htype] at hset
        cases hset

/-! ### Reported ranges -/

/-- Some parts of a query are reported. -/
structure ReportsAll (dirty : ℕ → Bool) (ps ranges : List (ℕ × ℕ)) : Prop where
  aligned : ∀ r ∈ ranges, r.1 % trackerBytesPerPage = 0 ∧ r.2 % trackerBytesPerPage = 0
  ascending : (pagesOf ranges).Pairwise (· < ·)
  mem : ∀ i, i ∈ pagesOf ranges ↔ (∃ p ∈ ps, Touches p.1 p.2 i) ∧ dirty i = true

theorem pagesOf_addresses (hm : m.cpuAddr = region p * trackerHigherPageSize)
    (bits : RegionBits) :
    pagesOf (m.addresses bits) = bits.ranges.flatMap fun r =>
      List.range' (region p * numPagesPerRegion + r.1) (r.2 - r.1) := by
  unfold pagesOf RegionManager.addresses
  rw [List.flatMap_map]
  congr 1
  funext r
  have hstart : (m.cpuAddr + r.1 * trackerBytesPerPage) / trackerBytesPerPage =
      region p * numPagesPerRegion + r.1 := by
    rw [hm]
    unfold trackerHigherPageSize trackerBytesPerPage numPagesPerRegion
    omega
  rw [hstart, Nat.mul_div_cancel _ (by decide)]

theorem mem_pagesOf_addresses (hm : m.cpuAddr = region p * trackerHigherPageSize)
    {bits : RegionBits} : i ∈ pagesOf (m.addresses bits) ↔ InMask (region p) bits i := by
  rw [pagesOf_addresses hm, ← inRanges_iff, List.mem_flatMap]
  unfold InRanges
  apply exists_congr
  intro r
  rw [List.mem_range'_1]
  apply and_congr_right
  intro hr
  have hlt := (Runs.mem_runs hr).1
  omega

theorem addresses_ascending (hm : m.cpuAddr = region p * trackerHigherPageSize)
    (bits : RegionBits) : (pagesOf (m.addresses bits)).Pairwise (· < ·) := by
  rw [pagesOf_addresses hm, List.pairwise_flatMap]
  refine ⟨fun r _ => List.pairwise_lt_range', ?_⟩
  apply Runs.runs_pairwise.imp
  intro r r' hlt i hi i' hi'
  rw [List.mem_range'_1] at hi hi'
  omega

theorem addresses_aligned (hm : m.cpuAddr = region p * trackerHigherPageSize)
    (bits : RegionBits) : ∀ r ∈ m.addresses bits,
      r.1 % trackerBytesPerPage = 0 ∧ r.2 % trackerBytesPerPage = 0 := by
  intro r hr
  obtain ⟨q, -, rfl⟩ := List.mem_map.1 hr
  constructor
  · simp only
    rw [hm]
    unfold trackerHigherPageSize trackerBytesPerPage
    omega
  · exact Nat.mul_mod_left _ _

theorem reportsAll_singleton (hp : IsPiece p) (hwf : t.WellFormed)
    (hm : t.topTier (region p) = some m) :
    ReportsAll (t.dirty type) [p] (m.addresses ((m.getRegionBits type).slice
      (startPage (p.1 % trackerHigherPageSize))
      (endPage (p.1 % trackerHigherPageSize) p.2))) := by
  have haddr := hwf _ _ hm
  refine ⟨addresses_aligned haddr _, addresses_ascending haddr _, fun i => ?_⟩
  rw [mem_pagesOf_addresses haddr]
  unfold InMask
  rw [RegionBits.get_slice hp.endPage_le, Bool.and_eq_true, decide_eq_true_iff]
  constructor
  · rintro ⟨hle, hset, hin⟩
    have hlt := RegionBits.get_lt hset
    have hi : i = i - region p * numPagesPerRegion + region p * numPagesPerRegion := by omega
    have hdiv : i / numPagesPerRegion = region p := by
      rw [hi, Nat.add_mul_div_right _ _ (by decide), Nat.div_eq_of_lt hlt, Nat.zero_add]
    have hmod : i % numPagesPerRegion = i - region p * numPagesPerRegion := by
      conv_lhs => rw [hi, Nat.add_mul_mod_self_right, Nat.mod_eq_of_lt hlt]
    refine ⟨⟨p, List.mem_singleton_self p, hp.touches_iff.2 ⟨hdiv, ?_⟩⟩, ?_⟩
    · rw [hmod]
      exact hin
    · rw [dirty_some (hdiv.symm ▸ hm), hmod]
      exact hset
  · rintro ⟨⟨q, hq, hin⟩, hset⟩
    rw [List.mem_singleton.1 hq] at hin
    obtain ⟨hdiv, hpart⟩ := hp.touches_iff.1 hin
    rw [dirty_some (hdiv ▸ hm)] at hset
    have hmod : i % numPagesPerRegion = i - region p * numPagesPerRegion := by
      have := Nat.div_add_mod' i numPagesPerRegion
      rw [hdiv] at this
      omega
    have hle : region p * numPagesPerRegion ≤ i := hdiv ▸ Nat.div_mul_le_self i numPagesPerRegion
    rw [← hmod]
    exact ⟨hle, hset, hpart⟩

theorem reportsAll_nil (dirty : ℕ → Bool) : ReportsAll dirty [] [] where
  aligned r hr := absurd hr List.not_mem_nil
  ascending := List.Pairwise.nil
  mem i := by
    constructor
    · exact fun h => absurd h List.not_mem_nil
    · rintro ⟨⟨p, hp, -⟩, -⟩
      exact absurd hp List.not_mem_nil

theorem pagesOf_append (ranges ranges' : List (ℕ × ℕ)) :
    pagesOf (ranges ++ ranges') = pagesOf ranges ++ pagesOf ranges' :=
  List.flatMap_append

theorem ReportsAll.cons {dirty : ℕ → Bool} {ranges ranges' : List (ℕ × ℕ)}
    (hpieces : ∀ q ∈ p :: ps, IsPiece q) (hsorted : ∀ q ∈ ps, region p < region q)
    (h : ReportsAll dirty [p] ranges) (h' : ReportsAll dirty ps ranges') :
    ReportsAll dirty (p :: ps) (ranges ++ ranges') := by
  refine ⟨?_, ?_, fun i => ?_⟩
  · intro r hr
    rcases List.mem_append.1 hr with hr | hr
    · exact h.aligned r hr
    · exact h'.aligned r hr
  · rw [pagesOf_append, List.pairwise_append]
    refine ⟨h.ascending, h'.ascending, fun i hi i' hi' => ?_⟩
    obtain ⟨⟨q, hq, hin⟩, -⟩ := (h.mem i).1 hi
    obtain ⟨⟨q', hq', hin'⟩, -⟩ := (h'.mem i').1 hi'
    rw [List.mem_singleton.1 hq] at hin
    have hdiv := ((hpieces p List.mem_cons_self).touches_iff.1 hin).1
    have hdiv' := ((hpieces q' (List.mem_cons_of_mem p hq')).touches_iff.1 hin').1
    have hlt := hsorted q' hq'
    rw [← hdiv, ← hdiv'] at hlt
    by_contra hle
    exact Nat.not_lt.2 (Nat.div_le_div_right (Nat.not_lt.1 hle)) hlt
  · rw [pagesOf_append, List.mem_append, h.mem, h'.mem, ← or_and_right]
    simp only [List.mem_cons, exists_eq_or_imp, exists_eq_left, List.not_mem_nil, or_false]

theorem ReportsAll.congr {dirty dirty' : ℕ → Bool} {ranges : List (ℕ × ℕ)}
    (h : ReportsAll dirty ps ranges)
    (heq : ∀ p ∈ ps, ∀ i, Touches p.1 p.2 i → dirty' i = dirty i) :
    ReportsAll dirty' ps ranges := by
  refine ⟨h.aligned, h.ascending, fun i => ?_⟩
  rw [h.mem]
  apply and_congr_right
  rintro ⟨p, hp, hin⟩
  rw [heq p hp i hin]

theorem rangeVisit_ok {acc acc' : List (ℕ × ℕ)} (hwf : t.WellFormed) (hp : IsPiece p)
    (hm : t.topTier (region p) = some m)
    (h : rangeVisit mode type clear (region p) m (p.1 % trackerHigherPageSize) p.2 t acc =
      .ok (stop, t', acc')) :
    stop = false ∧ t'.WellFormed ∧ t.Keeps t' ∧
      t'.dirty = (if clear then t.dirty.set type false p.1 p.2 else t.dirty) ∧
      ∃ ranges, acc' = acc ++ ranges ∧ ReportsAll (t.dirty type) [p] ranges := by
  unfold rangeVisit at h
  obtain ⟨⟨m', tracker', ranges⟩, hrange, h⟩ := bind_ok h
  obtain ⟨hbits, hranges⟩ := RegionManager.forEachModifiedRange_ok hp hrange
  cases h
  refine ⟨rfl, ?_, keeps_store, ?_, ranges, rfl, hranges ▸ reportsAll_singleton hp hwf hm⟩
  · cases clear
    · exact store_wellFormed hwf hm (RegionManager.SameBits.cpuAddr hbits)
    · exact store_wellFormed hwf hm (RegionManager.Changed.cpuAddr hbits)
  · cases clear
    · exact dirty_store_same hm hbits
    · exact dirty_store_changed hp hm hbits

theorem rangeAll_ok {acc acc' : List (ℕ × ℕ)} (hps : ∀ p ∈ ps, IsPiece p)
    (hsorted : ps.Pairwise fun p q => region p < region q) (hwf : t.WellFormed)
    (hcreate : create = true ∨ type = .gpu)
    (h : visitAll create (rangeVisit mode type clear) ps t acc = .ok (stop, t', acc')) :
    t'.WellFormed ∧ t.Keeps t' ∧
      (create = true → ∀ p ∈ ps, t'.topTier (region p) ≠ none) ∧
      t'.dirty = (if clear then FlatMap.setAll type false ps t.dirty else t.dirty) ∧
      ∃ ranges, acc' = acc ++ ranges ∧ ReportsAll (t.dirty type) ps ranges := by
  induction ps generalizing t acc with
  | nil =>
      cases h
      refine ⟨hwf, fun _ hm => hm, fun _ p hp => absurd hp List.not_mem_nil, ?_, [],
        (List.append_nil _).symm, reportsAll_nil _⟩
      cases clear <;> rfl
  | cons p ps ih =>
      have hp := hps p List.mem_cons_self
      have hrest := fun q hq => hps q (List.mem_cons_of_mem p hq)
      obtain ⟨hbefore, hsorted⟩ := List.pairwise_cons.1 hsorted
      -- the later parts are in other regions, so they are as they were
      have hother : ∀ q ∈ ps, ∀ i, Touches q.1 q.2 i → ¬ Touches p.1 p.2 i := by
        intro q hq i hin hin'
        have hdiv := (hp.touches_iff.1 hin').1
        have hdiv' := ((hrest q hq).touches_iff.1 hin).1
        have hlt := hbefore q hq
        omega
      rcases visitAll_cons h with ⟨m, stop₁, t₁, acc₁, hm, hvisit, hnext⟩ | ⟨hm, hfalse, hnext⟩
      · obtain ⟨hwf₀, hdirty₀, -⟩ := created_spec create p hwf
        obtain ⟨rfl, hwf₁, hkeeps, hdirty, ranges, rfl, hreports⟩ :=
          rangeVisit_ok hwf₀ hp hm hvisit
        rw [hdirty₀] at hdirty hreports
        rcases hnext with ⟨hstop, -⟩ | ⟨-, hnext⟩
        · cases hstop
        obtain ⟨hwf', hkeeps', hall, hdirty', ranges', rfl, hreports'⟩ :=
          ih hrest hsorted hwf₁ hnext
        refine ⟨hwf', ((keeps_created hwf).trans hkeeps).trans hkeeps', ?_, ?_, ranges ++ ranges',
          List.append_assoc .., hreports.cons hps hbefore (hreports'.congr ?_)⟩
        · intro hcreate q hq
          rcases List.mem_cons.1 hq with rfl | hq
          · apply hkeeps' _ (hkeeps _ _)
            rw [hm]
            exact Option.some_ne_none m
          · exact hall hcreate q hq
        · rw [hdirty', hdirty]
          cases clear <;> rfl
        · intro q hq i hin
          rw [hdirty]
          cases clear
          · rfl
          · exact (if_neg fun h => hother q hq i hin h.2).symm
      · have htype : type = .gpu := hcreate.resolve_left fun h => by rw [hfalse] at h; cases h
        have hclear : ∀ i, Touches p.1 p.2 i → t.dirty type i = false := by
          intro i hin
          rw [dirty_missing hp hm hin, htype]
          rfl
        obtain ⟨hwf', hkeeps', -, hdirty', ranges', rfl, hreports'⟩ := ih hrest hsorted hwf hnext
        refine ⟨hwf', hkeeps', fun h => ?_, ?_, ranges', rfl, ?_⟩
        · rw [hfalse] at h
          cases h
        · rw [hdirty', FlatMap.setAll_cons, FlatMap.set_eq hclear]
        · refine ⟨hreports'.aligned, hreports'.ascending, fun i => ?_⟩
          rw [hreports'.mem]
          apply and_congr_left
          intro hset
          simp only [List.mem_cons, exists_eq_or_imp]
          refine (or_iff_right fun hin => ?_).symm
          rw [hclear i hin] at hset
          cases hset

/-! ### The calls -/

theorem isPiece_pieces : ∀ p ∈ pieces size addr size, IsPiece p := fun _ hp => isPiece_of_mem hp

theorem ReportsAll.reports {dirty : ℕ → Bool} {ranges : List (ℕ × ℕ)}
    (h : ReportsAll dirty (pieces size addr size) ranges) : Reports dirty addr size ranges := by
  refine ⟨h.aligned, h.ascending, fun i => ?_⟩
  rw [h.mem, exists_piece_iff (Nat.le_refl size)]

theorem exists_dirty_piece {dirty : ℕ → Bool} :
    (∃ p ∈ pieces size addr size, ∃ i, Touches p.1 p.2 i ∧ dirty i = true) ↔
      ∃ i, Touches addr size i ∧ dirty i = true := by
  constructor
  · rintro ⟨p, hp, i, hin, hset⟩
    exact ⟨i, (exists_piece_iff (Nat.le_refl size)).1 ⟨p, hp, hin⟩, hset⟩
  · rintro ⟨i, hin, hset⟩
    obtain ⟨p, hp, hin⟩ := (exists_piece_iff (Nat.le_refl size)).2 hin
    exact ⟨p, hp, i, hin, hset⟩

theorem change_ok {acc acc' : σ} (hwf : t.WellFormed)
    (hcovered : t.Covered type enable (pieces size addr size))
    (h : iteratePages false (changeVisit mode type enable) addr size t acc =
      .ok (stop, t', acc')) :
    t'.WellFormed ∧ t'.dirty = t.dirty.set type enable addr size := by
  rw [iteratePages_eq] at h
  rw [← FlatMap.setAll_pieces]
  exact changeAll_ok isPiece_pieces hwf hcovered h

theorem query_ok (hwf : t.WellFormed) (hcreate : create = true ∨ type = .gpu)
    (h : iteratePages create (queryVisit type) addr size t () = .ok (stop, t', ())) :
    t'.WellFormed ∧ t'.dirty = t.dirty ∧
      (stop = true ↔ ∃ i, Touches addr size i ∧ t.dirty type i = true) := by
  rw [iteratePages_eq] at h
  rw [← exists_dirty_piece]
  exact queryAll_ok isPiece_pieces hwf hcreate h

theorem range_ok {reported : List (ℕ × ℕ)} (hwf : t.WellFormed)
    (hcreate : create = true ∨ type = .gpu)
    (h : iteratePages create (rangeVisit mode type clear) addr size t [] =
      .ok (stop, t', reported)) :
    t'.WellFormed ∧
      (create = true → ∀ p ∈ pieces size addr size, t'.topTier (region p) ≠ none) ∧
      t'.dirty = (if clear then t.dirty.set type false addr size else t.dirty) ∧
      Reports (t.dirty type) addr size reported := by
  rw [iteratePages_eq] at h
  obtain ⟨hwf', -, hall, hdirty, ranges, rfl, hreports⟩ :=
    rangeAll_ok isPiece_pieces pieces_pairwise.1 hwf hcreate h
  rw [FlatMap.setAll_pieces] at hdirty
  exact ⟨hwf', hall, hdirty, hreports.reports⟩

theorem Request.run_ok {r : Request} {answer : Answer} (hwf : t.WellFormed)
    (h : r.run mode t = .ok (t', answer)) :
    t'.WellFormed ∧ t'.dirty = r.flat t.dirty ∧ r.Answers t.dirty answer := by
  cases r with
  | isRegionCpuModified addr size =>
      obtain ⟨⟨stop, t₁, u⟩, hquery, h⟩ := bind_ok h
      cases h
      exact query_ok hwf (.inl rfl) hquery
  | isRegionGpuModified addr size =>
      obtain ⟨⟨stop, t₁, u⟩, hquery, h⟩ := bind_ok h
      cases h
      exact query_ok hwf (.inr rfl) hquery
  | markRegionAsCpuModified addr size =>
      obtain ⟨⟨stop, t₁, u⟩, hchange, h⟩ := bind_ok h
      cases h
      obtain ⟨hwf', hdirty⟩ := change_ok hwf (.inr rfl) hchange
      exact ⟨hwf', hdirty, rfl⟩
  | unmarkRegionAsGpuModified addr size =>
      obtain ⟨⟨stop, t₁, u⟩, hchange, h⟩ := bind_ok h
      cases h
      obtain ⟨hwf', hdirty⟩ := change_ok hwf (.inr rfl) hchange
      exact ⟨hwf', hdirty, rfl⟩
  | forEachUploadRange isWritten addr size =>
      obtain ⟨⟨stop, t₁, reported⟩, hrange, h⟩ := bind_ok h
      obtain ⟨hwf₁, hall, hdirty, hreports⟩ := range_ok hwf (.inl rfl) hrange
      cases isWritten
      · cases h
        exact ⟨hwf₁, hdirty, hreports⟩
      · obtain ⟨⟨stop₂, t₂, reported₂⟩, hchange, h⟩ := bind_ok h
        cases h
        obtain ⟨hwf', hdirty'⟩ := change_ok hwf₁ (.inl (hall rfl)) hchange
        refine ⟨hwf', ?_, hreports⟩
        rw [hdirty', hdirty]
        rfl
  | forEachDownloadRange clear addr size =>
      obtain ⟨⟨stop, t₁, reported⟩, hrange, h⟩ := bind_ok h
      obtain ⟨hwf₁, -, hdirty, hreports⟩ := range_ok hwf (.inr rfl) hrange
      cases h
      exact ⟨hwf₁, hdirty, hreports⟩

theorem runRequests_ok {requests : List Request} {answers : List Answer} (hwf : t.WellFormed)
    (h : runRequests mode requests t = .ok (t', answers)) :
    t'.WellFormed ∧ FlatRequests requests t.dirty answers t'.dirty := by
  induction requests generalizing t answers with
  | nil =>
      cases h
      exact ⟨hwf, rfl, rfl⟩
  | cons r rest ih =>
      obtain ⟨⟨t₁, answer⟩, hrun, h⟩ := bind_ok h
      obtain ⟨⟨t₂, answers₂⟩, hrest, h⟩ := bind_ok h
      cases h
      obtain ⟨hwf₁, hdirty, hanswer⟩ := Request.run_ok hwf hrun
      obtain ⟨hwf', hflat⟩ := ih hwf₁ hrest
      exact ⟨hwf', answer, answers₂, rfl, hanswer, hdirty ▸ hflat⟩

theorem invalidateAll_ok {onFlush : List Request} {acc acc' : List Answer}
    (hps : ∀ p ∈ ps, IsPiece p) (hwf : t.WellFormed)
    (h : visitAll false (invalidateVisit mode (runRequests mode onFlush)) ps t acc =
      .ok (stop, t', acc')) :
    ∃ answers, acc' = acc ++ answers ∧ t'.WellFormed ∧
      FlatInvalidate mode onFlush ps t.dirty answers t'.dirty := by
  induction ps generalizing t acc with
  | nil =>
      cases h
      exact ⟨[], (List.append_nil _).symm, hwf, rfl, rfl⟩
  | cons p ps ih =>
      have hp := hps p List.mem_cons_self
      have hps := fun q hq => hps q (List.mem_cons_of_mem p hq)
      rcases visitAll_cons h with ⟨m, stop₁, t₁, acc₁, hm, hvisit, hnext⟩ | ⟨hm, -, hnext⟩
      · rw [created_false] at hm hvisit
        have hquery : m.isRegionModified .gpu (p.1 % trackerHigherPageSize) p.2 = true ↔
            ∃ i, Touches p.1 p.2 i ∧ t.dirty .gpu i = true := isRegionModified_piece .gpu hp hm
        unfold invalidateVisit at hvisit
        split at hvisit
        · next hflush =>
            obtain ⟨⟨t₂, answers₂⟩, hrun, hvisit⟩ := bind_ok hvisit
            cases hvisit
            obtain ⟨hwf₁, hflat⟩ := runRequests_ok hwf hrun
            rcases hnext with ⟨hstop, -⟩ | ⟨-, hnext⟩
            · cases hstop
            obtain ⟨answers, rfl, hwf', hrest⟩ := ih hps hwf₁ hnext
            exact ⟨answers₂ ++ answers, List.append_assoc .., hwf', .inl
              ⟨⟨hflush.1, hquery.1 hflush.2⟩, answers₂, answers, _, rfl, hflat, hrest⟩⟩
        · next hflush =>
            obtain ⟨rfl, rfl, hwf₁, -, hdirty⟩ := changeVisit_ok hwf hp hm hvisit
            rcases hnext with ⟨hstop, -⟩ | ⟨-, hnext⟩
            · cases hstop
            obtain ⟨answers, rfl, hwf', hrest⟩ := ih hps hwf₁ hnext
            refine ⟨answers, rfl, hwf', .inr ⟨fun h => hflush ⟨h.1, hquery.2 h.2⟩, ?_⟩⟩
            rw [← hdirty]
            exact hrest
      · obtain ⟨answers, rfl, hwf', hrest⟩ := ih hps hwf hnext
        refine ⟨answers, rfl, hwf', .inr ⟨?_, ?_⟩⟩
        · rintro ⟨-, i, hin, hset⟩
          rw [dirty_missing hp hm hin] at hset
          cases hset
        · have hsame : t.dirty.set .cpu true p.1 p.2 = t.dirty :=
            FlatMap.set_eq fun i hin => dirty_missing hp hm hin
          rw [hsame]
          exact hrest

theorem Op.run_ok {op : Op} {answers : List Answer} (hwf : t.WellFormed)
    (h : op.run mode t = .ok (t', answers)) :
    t'.WellFormed ∧ FlatOp mode t.dirty answers t'.dirty op := by
  cases op with
  | request r =>
      obtain ⟨⟨t₁, answer⟩, hrun, h⟩ := bind_ok h
      obtain ⟨hwf₁, hdirty, hanswer⟩ := Request.run_ok hwf hrun
      cases h
      exact ⟨hwf₁, answer, [], rfl, hanswer, rfl, hdirty⟩
  | invalidateRegion onFlush addr size =>
      obtain ⟨⟨stop, t₁, answers₁⟩, hiterate, h⟩ := bind_ok h
      rw [iteratePages_eq] at hiterate
      obtain ⟨answers, rfl, hwf', hflat⟩ := invalidateAll_ok isPiece_pieces hwf hiterate
      cases h
      exact ⟨hwf', hflat⟩

theorem runOps_ok {ops : List Op} {answers : List Answer} (hwf : t.WellFormed)
    (h : runOps mode ops t = .ok (t', answers)) :
    t'.WellFormed ∧ FlatOps mode ops t.dirty answers t'.dirty := by
  induction ops generalizing t answers with
  | nil =>
      cases h
      exact ⟨hwf, rfl, rfl⟩
  | cons op rest ih =>
      obtain ⟨⟨t₁, answers₁⟩, hrun, h⟩ := bind_ok h
      obtain ⟨⟨t₂, answers₂⟩, hrest, h⟩ := bind_ok h
      cases h
      obtain ⟨hwf₁, hop⟩ := Op.run_ok hwf hrun
      obtain ⟨hwf', hflat⟩ := ih hwf₁ hrest
      exact ⟨hwf', answers₁, answers₂, _, rfl, hop, hflat⟩

theorem wellFormed_init : init.WellFormed := fun _ _ h => absurd h.symm (Option.some_ne_none _)

end MemoryTracker

end OrbitConsole.VideoCore
