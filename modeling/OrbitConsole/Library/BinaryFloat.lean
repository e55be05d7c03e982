import Mathlib.Algebra.Order.Field.Rat
import Mathlib.Tactic.Linarith
import Mathlib.Tactic.Positivity
import Mathlib.Tactic.Ring

/-!
# Binary floating-point formats

The interchange formats of IEEE 754: a sign, a biased exponent and the fraction of a mantissa.
A normal number has one representation in a format, and a wider format has all numbers of a
narrower one.
-/

namespace BinaryFloat

/-- What a word stands for. Zeros have a sign. -/
inductive FloatValue
  | finite (negative : Bool) (magnitude : ℚ)
  | infinite (negative : Bool)
  | nan

structure FloatFormat where
  expBits : ℕ
  fracBits : ℕ

namespace FloatFormat

variable (f : FloatFormat)

def bias : ℤ := 2 ^ (f.expBits - 1) - 1

def frac (x : ℕ) : ℕ := x % 2 ^ f.fracBits

def exp (x : ℕ) : ℕ := x / 2 ^ f.fracBits % 2 ^ f.expBits

def sign (x : ℕ) : Bool := decide (x / 2 ^ (f.fracBits + f.expBits) % 2 = 1)

/-- The exponent of infinities and of what is not a number. -/
def maxExp : ℕ := 2 ^ f.expBits - 1

def value (x : ℕ) : FloatValue :=
  if f.exp x = f.maxExp then
    if f.frac x = 0 then .infinite (f.sign x) else .nan
  else if f.exp x = 0 then .finite (f.sign x) (f.frac x * 2 ^ (1 - f.bias - f.fracBits))
  else .finite (f.sign x)
    ((2 ^ f.fracBits + f.frac x : ℕ) * 2 ^ ((f.exp x : ℤ) - f.bias - f.fracBits))

def Normal (x : ℕ) : Prop := f.exp x ≠ 0 ∧ f.exp x ≠ f.maxExp

def Zero (x : ℕ) : Prop := f.exp x = 0 ∧ f.frac x = 0

def Infinite (x : ℕ) : Prop := f.exp x = f.maxExp ∧ f.frac x = 0

instance (x : ℕ) : Decidable (f.Normal x) := inferInstanceAs (Decidable (_ ∧ _))

end FloatFormat

/-! ### Representations -/

theorem mantissa_unique {k a b i j : ℕ} (ha : 2 ^ k ≤ a) (ha' : a < 2 ^ (k + 1))
    (hb : 2 ^ k ≤ b) (hb' : b < 2 ^ (k + 1)) (h : a * 2 ^ i = b * 2 ^ j) : i = j ∧ a = b := by
  have aux : ∀ {a b i j : ℕ}, 2 ^ k ≤ a → b < 2 ^ (k + 1) → a * 2 ^ i = b * 2 ^ j → i ≤ j := by
    intro a b i j ha hb h
    by_contra hlt
    obtain ⟨d, rfl⟩ := Nat.exists_eq_add_of_lt (Nat.not_le.1 hlt)
    have hpow : a * 2 ^ (j + d + 1) = a * 2 ^ (d + 1) * 2 ^ j := by ring
    rw [hpow] at h
    have heq := Nat.eq_of_mul_eq_mul_right (Nat.two_pow_pos j) h
    have hle : 2 ^ (k + 1) ≤ a * 2 ^ (d + 1) := calc
      2 ^ (k + 1) = 2 ^ k * 2 ^ 1 := pow_add 2 k 1
      _ ≤ a * 2 ^ (d + 1) :=
        Nat.mul_le_mul ha (Nat.pow_le_pow_right Nat.two_pos (Nat.le_add_left 1 d))
    omega
  obtain rfl : i = j := Nat.le_antisymm (aux ha hb' h) (aux hb ha' h.symm)
  exact ⟨rfl, Nat.eq_of_mul_eq_mul_right (Nat.two_pow_pos i) h⟩

theorem mul_two_pow_eq {a b : ℕ} {x y : ℤ} (i j : ℕ) (h : (a : ℚ) * 2 ^ x = b * 2 ^ y)
    (hij : (i : ℤ) - x = j - y) : a * 2 ^ i = b * 2 ^ j := by
  have hx : (2 : ℚ) ^ (i : ℤ) = 2 ^ x * 2 ^ ((i : ℤ) - x) := by
    rw [← zpow_add₀ two_ne_zero, add_sub_cancel]
  have hy : (2 : ℚ) ^ (j : ℤ) = 2 ^ y * 2 ^ ((i : ℤ) - x) := by
    rw [hij, ← zpow_add₀ two_ne_zero, add_sub_cancel]
  have hq : (a : ℚ) * 2 ^ (i : ℤ) = b * 2 ^ (j : ℤ) := by
    rw [hx, hy, ← mul_assoc, ← mul_assoc, h]
  simp only [zpow_natCast] at hq
  exact_mod_cast hq

namespace FloatFormat

variable {f : FloatFormat} {x : ℕ}

theorem value_normal (h : f.Normal x) : f.value x = .finite (f.sign x)
    ((2 ^ f.fracBits + f.frac x : ℕ) * 2 ^ ((f.exp x : ℤ) - f.bias - f.fracBits)) := by
  rw [value, if_neg h.2, if_neg h.1]

theorem value_zero (hmax : f.maxExp ≠ 0) (h : f.Zero x) : f.value x = .finite (f.sign x) 0 := by
  rw [value, if_neg fun heq => hmax (heq.symm.trans h.1), if_pos h.1, h.2, Nat.cast_zero, zero_mul]

theorem value_infinite (h : f.Infinite x) : f.value x = .infinite (f.sign x) := by
  rw [value, if_pos h.1, if_pos h.2]

theorem frac_lt : f.frac x < 2 ^ f.fracBits := Nat.mod_lt _ (Nat.two_pow_pos _)

theorem value_eq_infinite {negative : Bool} (h : f.value x = .infinite negative) :
    f.Infinite x ∧ f.sign x = negative := by
  unfold value at h
  split at h
  · next hexp =>
      split at h
      · next hfrac => exact ⟨⟨hexp, hfrac⟩, FloatValue.infinite.inj h⟩
      · cases h
  · split at h <;> cases h

theorem value_eq_zero {negative : Bool} (h : f.value x = .finite negative 0) :
    f.Zero x ∧ f.sign x = negative := by
  unfold value at h
  split at h
  · split at h <;> cases h
  · split at h
    · next hexp =>
        obtain ⟨hsign, hzero⟩ := FloatValue.finite.inj h
        have hfrac := (mul_eq_zero.1 hzero).resolve_right (zpow_ne_zero _ two_ne_zero)
        exact ⟨⟨hexp, Nat.cast_eq_zero.1 hfrac⟩, hsign⟩
    · have hzero := (FloatValue.finite.inj h).2
      have hmantissa := (mul_eq_zero.1 hzero).resolve_right (zpow_ne_zero _ two_ne_zero)
      have hpos := Nat.two_pow_pos f.fracBits
      have := Nat.cast_eq_zero.1 hmantissa
      omega

variable {g : FloatFormat} {y : ℕ}

theorem value_eq_normal (d shift : ℕ) (hfrac : g.fracBits = f.fracBits + d)
    (hbias : g.bias = f.bias + shift) (hshift : g.fracBits < f.fracBits + shift)
    (hx : f.Normal x) (h : g.value y = f.value x) :
    g.sign y = f.sign x ∧ g.exp y = f.exp x + shift ∧ g.frac y = f.frac x * 2 ^ d := by
  rw [value_normal hx] at h
  have hltx : f.frac x < 2 ^ f.fracBits := frac_lt
  have hlty : g.frac y < 2 ^ g.fracBits := frac_lt
  unfold value at h
  split at h
  · split at h <;> cases h
  · split at h
    · next hexp =>
        -- a subnormal number is below all normal numbers of the narrower format
        have hq := mul_two_pow_eq 1 (f.exp x + shift + d) (FloatValue.finite.inj h).2
          (by omega)
        have hle : 2 ^ g.fracBits * 2 ^ 1 ≤
            (2 ^ f.fracBits + f.frac x) * 2 ^ (f.exp x + shift + d) := by
          rw [hfrac, pow_add, mul_assoc, ← pow_add]
          refine Nat.mul_le_mul (Nat.le_add_right _ _) ?_
          exact Nat.pow_le_pow_right Nat.two_pos (by omega)
        omega
    · obtain ⟨hsign, hmagnitude⟩ := FloatValue.finite.inj h
      have hq := mul_two_pow_eq (g.exp y) (f.exp x + shift + d) hmagnitude (by omega)
      have hq' : (2 ^ g.fracBits + g.frac y) * 2 ^ g.exp y =
          ((2 ^ f.fracBits + f.frac x) * 2 ^ d) * 2 ^ (f.exp x + shift) := by
        rw [hq]
        ring
      have hmantissa : (2 ^ f.fracBits + f.frac x) * 2 ^ d =
          2 ^ g.fracBits + f.frac x * 2 ^ d := by
        rw [hfrac]
        ring
      have hfits : f.frac x * 2 ^ d < 2 ^ g.fracBits := by
        rw [hfrac, pow_add]
        exact Nat.mul_lt_mul_of_pos_right hltx (Nat.two_pow_pos d)
      rw [hmantissa] at hq'
      have hpow : 2 ^ (g.fracBits + 1) = 2 ^ g.fracBits * 2 := pow_succ _ _
      obtain ⟨hexp, heq⟩ := mantissa_unique (Nat.le_add_right _ _) (by omega)
        (Nat.le_add_right _ _) (by omega) hq'
      exact ⟨hsign, hexp, Nat.add_left_cancel heq⟩

end FloatFormat

end BinaryFloat
