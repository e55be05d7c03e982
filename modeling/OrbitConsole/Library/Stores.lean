import Mathlib.Logic.Function.Basic
import Mathlib.Tactic.Common

/-!
# A sequence of stores

`storeAll target value mem n` stores `value i` at `target i` for `i < n`, in order,
and skips an `i` without a target. The last store to a place decides what it
holds; on consecutive targets the sequence is one block copy.
-/

namespace Stores

variable {α β : Type*} [DecidableEq α]

def storeAll (target : ℕ → Option α) (value : ℕ → β) (mem : α → β) : ℕ → α → β
  | 0 => mem
  | n + 1 =>
      match target n with
      | some p => Function.update (storeAll target value mem n) p (value n)
      | none => storeAll target value mem n

variable {target : ℕ → Option α} {value : ℕ → β} {mem : α → β} {n i : ℕ} {p : α}

def IsLast (target : ℕ → Option α) (n i : ℕ) : Prop :=
  i < n ∧ ∀ j, i < j → j < n → target j ≠ target i

theorem storeAll_succ_of_ne (h : target n ≠ some p) :
    storeAll target value mem (n + 1) p = storeAll target value mem n p := by
  cases hq : target n with
  | none => simp only [storeAll, hq]
  | some q =>
      simp only [storeAll, hq]
      refine Function.update_of_ne (fun heq => h ?_) _ _
      rw [hq, heq]

theorem storeAll_of_forall_ne (h : ∀ i < n, target i ≠ some p) :
    storeAll target value mem n p = mem p := by
  induction n with
  | zero => rfl
  | succ n ih =>
      rw [storeAll_succ_of_ne (h n (Nat.lt_succ_self n))]
      exact ih fun i hi => h i (Nat.lt_succ_of_lt hi)

theorem storeAll_of_isLast (h : IsLast target n i) (hi : target i = some p) :
    storeAll target value mem n p = value i := by
  induction n with
  | zero => exact absurd h.1 (Nat.not_lt_zero i)
  | succ n ih =>
      rcases Nat.lt_or_eq_of_le (Nat.le_of_lt_succ h.1) with hlt | rfl
      · have hne := h.2 n hlt (Nat.lt_succ_self n)
        rw [storeAll_succ_of_ne (hi ▸ hne)]
        exact ih ⟨hlt, fun j hij hj => h.2 j hij (Nat.lt_succ_of_lt hj)⟩
      · simp [storeAll, hi]

theorem exists_isLast (hi : i < n) : ∃ j, IsLast target n j ∧ target j = target i := by
  induction n with
  | zero => exact absurd hi (Nat.not_lt_zero i)
  | succ n ih =>
      by_cases heq : target n = target i
      · exact ⟨n, ⟨Nat.lt_succ_self n, fun j hj hj' => absurd hj' (by omega)⟩, heq⟩
      · rcases Nat.lt_or_eq_of_le (Nat.le_of_lt_succ hi) with hlt | rfl
        · obtain ⟨j, hlast, hj⟩ := ih hlt
          refine ⟨j, ⟨Nat.lt_succ_of_lt hlast.1, fun x hx hx' => ?_⟩, hj⟩
          rcases Nat.lt_or_eq_of_le (Nat.le_of_lt_succ hx') with hlt' | rfl
          · exact hlast.2 x hx hlt'
          · rwa [hj]
        · exact absurd rfl heq

theorem storeAll_eq_iff {want : ℕ → β} :
    (∀ i < n, ∃ p, target i = some p ∧ storeAll target value mem n p = want i) ↔
      (∀ i < n, target i ≠ none) ∧
        ∀ i j, i < n → IsLast target n j → target j = target i → want i = value j := by
  constructor
  · intro h
    refine ⟨fun i hi hnone => ?_, fun i j hi hj heq => ?_⟩
    · obtain ⟨p, hp, -⟩ := h i hi
      rw [hp] at hnone
      cases hnone
    · obtain ⟨p, hp, hval⟩ := h i hi
      rw [← hval, storeAll_of_isLast hj (heq.trans hp)]
  · rintro ⟨hsome, hlast⟩ i hi
    obtain ⟨p, hp⟩ := Option.ne_none_iff_exists'.1 (hsome i hi)
    obtain ⟨j, hj, heq⟩ : ∃ j, IsLast target n j ∧ target j = target i := exists_isLast hi
    exact ⟨p, hp, by rw [storeAll_of_isLast hj (heq.trans hp), hlast i j hi hj heq]⟩

def memcpy (mem : ℕ → β) (dst : ℕ) (data : ℕ → β) (len : ℕ) (p : ℕ) : β :=
  if dst ≤ p ∧ p < dst + len then data (p - dst) else mem p

theorem memcpy_storeAll {target : ℕ → Option ℕ} {mem : ℕ → β} {dst : ℕ} {data : ℕ → β}
    (len : ℕ) (htarget : ∀ i < len, target (n + i) = some (dst + i))
    (hvalue : ∀ i < len, value (n + i) = data i) :
    memcpy (storeAll target value mem n) dst data len = storeAll target value mem (n + len) := by
  induction len with
  | zero =>
      funext p
      simp only [memcpy, Nat.add_zero]
      rw [if_neg (by omega)]
  | succ len ih =>
      have hcopy := ih (fun i hi => htarget i (Nat.lt_succ_of_lt hi))
        (fun i hi => hvalue i (Nat.lt_succ_of_lt hi))
      funext p
      rw [← Nat.add_assoc, storeAll, htarget len (Nat.lt_succ_self len), ← hcopy]
      simp only [memcpy, Function.update_apply, hvalue len (Nat.lt_succ_self len)]
      by_cases hp : p = dst + len
      · rw [if_pos hp, if_pos (by omega), hp, Nat.add_sub_cancel_left]
      · rw [if_neg hp]
        exact if_congr (by omega) rfl rfl

end Stores
