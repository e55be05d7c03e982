import Mathlib.Algebra.BigOperators.Ring.Finset
import Mathlib.Data.Fintype.BigOperators
import Mathlib.Logic.Function.Basic

/-!
# The weight of a family

The sum of a weight over the members of a family, such as the number of threads
that stand at a certain place, and what one update of the family does to it.
-/

variable {ι α : Type*} [Fintype ι]

/-- The sum of the weights of the members of `f`. -/
def tally (w : α → ℕ) (f : ι → α) : ℕ := ∑ i, w (f i)

theorem tally_update [DecidableEq ι] (w : α → ℕ) (f : ι → α) (i : ι) (a : α) :
    tally w (Function.update f i a) + w (f i) = tally w f + w a := by
  unfold tally
  rw [Fintype.sum_eq_add_sum_compl i, Fintype.sum_eq_add_sum_compl i fun j => w (f j)]
  have hrest : ∑ j ∈ {i}ᶜ, w (Function.update f i a j) = ∑ j ∈ {i}ᶜ, w (f j) := by
    refine Finset.sum_congr rfl fun j hj => ?_
    rw [Function.update_of_ne (by simpa using hj)]
  rw [hrest, Function.update_self]
  omega

theorem tally_eq_zero {w : α → ℕ} {f : ι → α} : tally w f = 0 ↔ ∀ i, w (f i) = 0 := by
  unfold tally
  rw [Finset.sum_eq_zero_iff]
  simp

theorem tally_pos {w : α → ℕ} {f : ι → α} {i : ι} (h : 0 < w (f i)) : 0 < tally w f := by
  rw [Nat.pos_iff_ne_zero, ne_eq, tally_eq_zero]
  intro hall
  rw [hall i] at h
  omega
