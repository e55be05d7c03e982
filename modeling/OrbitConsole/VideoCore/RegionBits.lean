import OrbitConsole.Library.Runs

/-!
# The bits of a tracked region

`RegionBits`, a `BitArray` with one bit for each of the 1024 pages of a region.
Only the bits are modelled, not the words they are kept in.
-/

namespace OrbitConsole.VideoCore

def numPagesPerRegion : ℕ := 1024

abbrev RegionBits := BitVec 1024

namespace RegionBits

def get (bits : RegionBits) (idx : ℕ) : Bool := bits.getLsbD idx

def span (start stop : ℕ) : RegionBits :=
  (BitVec.allOnes 1024 <<< start) &&& ~~~(BitVec.allOnes 1024 <<< stop)

def setRange (bits : RegionBits) (start stop : ℕ) : RegionBits :=
  if stop ≤ start ∨ numPagesPerRegion < stop then bits else bits ||| span start stop

def unsetRange (bits : RegionBits) (start stop : ℕ) : RegionBits :=
  if stop ≤ start ∨ numPagesPerRegion < stop then bits else bits &&& ~~~span start stop

/-- The constructor that copies a range. -/
def slice (bits : RegionBits) (start stop : ℕ) : RegionBits :=
  if stop ≤ start ∨ numPagesPerRegion < stop then 0 else bits &&& span start stop

def any (bits : RegionBits) : Bool := bits != 0

def firstRange (bits : RegionBits) : ℕ × ℕ := Runs.firstRun bits.get numPagesPerRegion 0

def lastRange (bits : RegionBits) : ℕ × ℕ := Runs.lastRun bits.get numPagesPerRegion

/-- The ranges that iterating from `begin` to `end` gives. -/
def ranges (bits : RegionBits) : List (ℕ × ℕ) := Runs.runs bits.get numPagesPerRegion

variable {bits : RegionBits} {start stop i : ℕ}

theorem get_lt (h : bits.get i = true) : i < numPagesPerRegion := by
  by_contra hle
  rw [get, BitVec.getLsbD_of_ge bits i (Nat.not_lt.1 hle)] at h
  cases h

theorem get_span :
    (span start stop).get i = decide (i < numPagesPerRegion ∧ start ≤ i ∧ i < stop) := by
  unfold span get numPagesPerRegion
  simp only [BitVec.getLsbD_and, BitVec.getLsbD_not, BitVec.getLsbD_shiftLeft,
    BitVec.getLsbD_allOnes]
  by_cases h : i < 1024 <;> by_cases h₁ : i < start <;> by_cases h₂ : i < stop <;>
    simp [h, h₁, h₂] <;> omega

theorem get_setRange (h : stop ≤ numPagesPerRegion) :
    (bits.setRange start stop).get i = (bits.get i || decide (start ≤ i ∧ i < stop)) := by
  unfold setRange
  split
  · next hout =>
      have hno : ¬ (start ≤ i ∧ i < stop) := by omega
      simp [hno]
  · have hor : (bits ||| span start stop).get i = (bits.get i || (span start stop).get i) :=
      BitVec.getLsbD_or
    rw [hor, get_span]
    congr 1
    apply decide_eq_decide.2
    omega

theorem get_unsetRange (h : stop ≤ numPagesPerRegion) :
    (bits.unsetRange start stop).get i = (bits.get i && !decide (start ≤ i ∧ i < stop)) := by
  unfold unsetRange
  split
  · next hout =>
      have hno : ¬ (start ≤ i ∧ i < stop) := by omega
      simp [hno]
  · by_cases hi : i < numPagesPerRegion
    · have hand : (bits &&& ~~~span start stop).get i =
          (bits.get i && !(span start stop).get i) := by
        unfold get
        rw [BitVec.getLsbD_and, BitVec.getLsbD_not]
        simp [show i < 1024 from hi]
      rw [hand, get_span]
      simp [hi]
    · have hno : ∀ b : RegionBits, b.get i = false := fun b =>
        BitVec.getLsbD_of_ge b i (Nat.not_lt.1 hi)
      rw [hno, hno, Bool.false_and]

theorem get_slice (h : stop ≤ numPagesPerRegion) :
    (bits.slice start stop).get i = (bits.get i && decide (start ≤ i ∧ i < stop)) := by
  unfold slice
  split
  · next hout =>
      have hno : ¬ (start ≤ i ∧ i < stop) := by omega
      simp [hno, get]
  · have hand : (bits &&& span start stop).get i = (bits.get i && (span start stop).get i) :=
      BitVec.getLsbD_and
    rw [hand, get_span]
    cases hbit : bits.get i
    · rfl
    · have := get_lt hbit
      simp [this]

theorem get_xor (bits' : RegionBits) : (bits ^^^ bits').get i = (bits.get i ^^ bits'.get i) :=
  BitVec.getLsbD_xor

theorem get_not : (~~~bits).get i = (decide (i < numPagesPerRegion) && !bits.get i) :=
  BitVec.getLsbD_not

theorem any_iff : bits.any = true ↔ ∃ i, bits.get i = true := by
  unfold any
  rw [bne_iff_ne, ne_eq, ← not_iff_not, not_not, not_exists]
  constructor
  · rintro rfl i
    simp [get]
  · intro h
    apply BitVec.eq_of_getLsbD_eq
    intro i _
    have := h i
    rw [Bool.not_eq_true] at this
    exact this.trans BitVec.getLsbD_zero.symm

end RegionBits

end OrbitConsole.VideoCore
