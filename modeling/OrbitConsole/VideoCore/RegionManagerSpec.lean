import OrbitConsole.VideoCore.RegionManager

/-!
# What the calls of a region do to its pages
-/

namespace OrbitConsole.VideoCore

theorem bind_ok {α β : Type} {x : Except String α} {f : α → Except String β} {b : β}
    (h : x >>= f = .ok b) : ∃ a, x = .ok a ∧ f a = .ok b := by
  cases x with
  | error e => cases h
  | ok a => exact ⟨a, rfl, h⟩

variable {m m' : RegionManager} {tracker tracker' : PageManager} {type : Modifier}
  {mode : GpuReadbacksMode} {offset size i : ℕ}

/-- The page of the region has a byte of the range. -/
def InPart (offset size i : ℕ) : Prop := startPage offset ≤ i ∧ i < endPage offset size

instance : Decidable (InPart offset size i) := inferInstanceAs (Decidable (_ ∧ _))

/-- The range is within a region. -/
structure IsPart (offset size : ℕ) : Prop where
  pos : 0 < size
  le : offset + size ≤ trackerHigherPageSize

theorem IsPart.startPage_eq (h : IsPart offset size) : startPage offset = offset / 4096 := by
  have hle := h.le
  unfold startPage sanitizeAddress trackerBytesPerPage
  unfold trackerHigherPageSize at hle
  rw [if_pos (by omega)]

theorem IsPart.endPage_eq (h : IsPart offset size) :
    endPage offset size = (offset + size + 4095) / 4096 := by
  have hle := h.le
  unfold endPage wrap sanitizeAddress trackerBytesPerPage divCeil
  unfold trackerHigherPageSize at hle
  rw [Nat.mod_eq_of_lt (by omega), if_pos (by omega)]
  rfl

theorem IsPart.endPage_le (h : IsPart offset size) : endPage offset size ≤ numPagesPerRegion := by
  have hle := h.le
  rw [h.endPage_eq]
  unfold trackerHigherPageSize at hle
  unfold numPagesPerRegion
  omega

theorem IsPart.not_skipped (h : IsPart offset size) :
    ¬ (numPagesPerRegion ≤ startPage offset ∨ endPage offset size ≤ startPage offset) := by
  have hle := h.le
  have hpos := h.pos
  rw [h.startPage_eq, h.endPage_eq]
  unfold trackerHigherPageSize at hle
  unfold numPagesPerRegion
  omega

theorem IsPart.offsetOf_eq (h : IsPart offset size) (m : RegionManager) :
    m.offsetOf (m.cpuAddr + offset) = offset := by
  have hle := h.le
  unfold trackerHigherPageSize at hle
  unfold RegionManager.offsetOf wrap
  omega

namespace RegionManager

theorem getRegionBits_setRegionBits (m : RegionManager) (type : Modifier) (bits : RegionBits)
    (type' : Modifier) :
    (m.setRegionBits type bits).getRegionBits type' =
      if type' = type then bits else m.getRegionBits type' := by
  cases type <;> cases type' <;> rfl

theorem cpuAddr_setRegionBits (m : RegionManager) (type : Modifier) (bits : RegionBits) :
    (m.setRegionBits type bits).cpuAddr = m.cpuAddr := by
  cases type <;> rfl

/-- The address and who modified which page are the same. -/
structure SameBits (m m' : RegionManager) : Prop where
  cpuAddr : m'.cpuAddr = m.cpuAddr
  bits : ∀ type, m'.getRegionBits type = m.getRegionBits type

theorem SameBits.refl (m : RegionManager) : SameBits m m := ⟨rfl, fun _ => rfl⟩

theorem updateProtection_ok {track isRead : Bool}
    (h : m.updateProtection track isRead tracker = .ok (m', tracker')) : SameBits m m' := by
  unfold updateProtection at h
  cases isRead
  · simp only [Bool.false_eq_true, if_false] at h
    split at h
    · cases h
      exact .refl m
    · obtain ⟨tracker₁, -, h⟩ := bind_ok h
      cases h
      exact ⟨rfl, fun type => by cases type <;> rfl⟩
  · simp only [if_true] at h
    split at h
    · cases h
      exact .refl m
    · obtain ⟨tracker₁, -, h⟩ := bind_ok h
      cases h
      exact ⟨rfl, fun type => by cases type <;> rfl⟩

/-- The pages of the range have the value, the others are as before. -/
structure Changed (m : RegionManager) (type : Modifier) (value : Bool) (offset size : ℕ)
    (m' : RegionManager) : Prop where
  cpuAddr : m'.cpuAddr = m.cpuAddr
  get : ∀ type' i, (m'.getRegionBits type').get i =
    if type' = type ∧ InPart offset size i then value else (m.getRegionBits type').get i

theorem Changed.sameBits {value : Bool} {m₁ : RegionManager}
    (h : m.Changed type value offset size m₁) (hs : SameBits m₁ m') :
    m.Changed type value offset size m' :=
  ⟨hs.cpuAddr.trans h.cpuAddr, fun type' i => by rw [hs.bits, h.get]⟩

theorem get_changed (hpart : IsPart offset size) (bits : RegionBits) (value : Bool) (i : ℕ) :
    RegionBits.get (if value then bits.setRange (startPage offset) (endPage offset size)
      else bits.unsetRange (startPage offset) (endPage offset size)) i =
        if InPart offset size i then value else bits.get i := by
  have hle := hpart.endPage_le
  by_cases hin : InPart offset size i
  · have hdec : decide (startPage offset ≤ i ∧ i < endPage offset size) = true :=
      decide_eq_true hin
    rw [if_pos hin]
    cases value
    · rw [if_neg Bool.false_ne_true, RegionBits.get_unsetRange hle, hdec, Bool.not_true,
        Bool.and_false]
    · rw [if_pos rfl, RegionBits.get_setRange hle, hdec, Bool.or_true]
  · have hdec : decide (startPage offset ≤ i ∧ i < endPage offset size) = false :=
      decide_eq_false hin
    rw [if_neg hin]
    cases value
    · rw [if_neg Bool.false_ne_true, RegionBits.get_unsetRange hle, hdec, Bool.not_false,
        Bool.and_true]
    · rw [if_pos rfl, RegionBits.get_setRange hle, hdec, Bool.or_false]

theorem changed_setRegionBits (hpart : IsPart offset size) (type : Modifier) (value : Bool)
    (m : RegionManager) :
    m.Changed type value offset size (m.setRegionBits type
      (if value then (m.getRegionBits type).setRange (startPage offset) (endPage offset size)
      else (m.getRegionBits type).unsetRange (startPage offset) (endPage offset size))) := by
  refine ⟨cpuAddr_setRegionBits .., fun type' i => ?_⟩
  rw [getRegionBits_setRegionBits]
  by_cases htype : type' = type
  · rw [if_pos htype, get_changed hpart, htype]
    by_cases hin : InPart offset size i
    · rw [if_pos hin, if_pos ⟨rfl, hin⟩]
    · rw [if_neg hin, if_neg fun h => hin h.2]
  · rw [if_neg htype, if_neg fun h => htype h.1]

theorem changeRegionState_ok {enable : Bool} (hpart : IsPart offset size)
    (h : m.changeRegionState mode type enable (m.cpuAddr + offset) size tracker =
      .ok (m', tracker')) : m.Changed type enable offset size m' := by
  unfold changeRegionState at h
  simp only [hpart.offsetOf_eq, if_neg hpart.not_skipped] at h
  have hchanged := changed_setRegionBits hpart type enable m
  cases type with
  | cpu => exact hchanged.sameBits (updateProtection_ok h)
  | gpu =>
      simp only at h
      split at h
      · exact hchanged.sameBits (updateProtection_ok h)
      · cases h
        exact hchanged

def addresses (m : RegionManager) (bits : RegionBits) : List (ℕ × ℕ) :=
  bits.ranges.map fun r =>
    (m.cpuAddr + r.1 * trackerBytesPerPage, (r.2 - r.1) * trackerBytesPerPage)

theorem clearRange_ok {clear : Bool} (hpart : IsPart offset size)
    (h : m.clearRange mode type clear (startPage offset) (endPage offset size) tracker =
      .ok (m', tracker')) :
    if clear then m.Changed type false offset size m' else SameBits m m' := by
  unfold clearRange at h
  cases clear
  · cases h
    exact .refl m
  · have hset := changed_setRegionBits hpart type false m
    cases type with
    | cpu => exact hset.sameBits (updateProtection_ok h)
    | gpu =>
        simp only [Bool.true_eq_false, if_false] at h
        split at h
        · cases h
          exact hset
        · exact hset.sameBits (updateProtection_ok h)

theorem forEachModifiedRange_ok {clear : Bool} {reported : List (ℕ × ℕ)}
    (hpart : IsPart offset size)
    (h : m.forEachModifiedRange mode type clear (m.cpuAddr + offset) size tracker =
      .ok (m', tracker', reported)) :
    (if clear then m.Changed type false offset size m' else SameBits m m') ∧
      reported = m.addresses
        ((m.getRegionBits type).slice (startPage offset) (endPage offset size)) := by
  unfold forEachModifiedRange at h
  simp only [hpart.offsetOf_eq, if_neg hpart.not_skipped] at h
  obtain ⟨⟨m₁, tracker₁⟩, hclear, h⟩ := bind_ok h
  have hbits := clearRange_ok hpart hclear
  have haddr : m₁.cpuAddr = m.cpuAddr := by
    cases clear
    · exact SameBits.cpuAddr hbits
    · exact Changed.cpuAddr hbits
  cases h
  refine ⟨hbits, ?_⟩
  unfold addresses
  rw [haddr]

theorem isRegionModified_iff (hpart : IsPart offset size) :
    m.isRegionModified type offset size = true ↔
      ∃ i, InPart offset size i ∧ (m.getRegionBits type).get i = true := by
  unfold isRegionModified
  rw [if_neg hpart.not_skipped, RegionBits.any_iff]
  apply exists_congr
  intro i
  rw [RegionBits.get_slice hpart.endPage_le, Bool.and_eq_true, decide_eq_true_iff]
  exact and_comm

end RegionManager

end OrbitConsole.VideoCore
