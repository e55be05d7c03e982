import Mathlib.Data.List.Pairwise
import Mathlib.Data.Nat.Notation
import Mathlib.Tactic.Common

/-!
# Ascending ranges

Lists of half-open ranges of numbers in ascending order: the part of a sorted
list between two searches, clipping to a window, and the gaps a list leaves.
-/

namespace Segments

/-- The number `a` lies in the range. -/
def Within (r : ℕ × ℕ) (a : ℕ) : Prop := r.1 ≤ a ∧ a < r.2

structure Partition (ranges : List (ℕ × ℕ)) (p : ℕ → Prop) : Prop where
  nonempty : ∀ r ∈ ranges, r.1 < r.2
  ascending : ranges.Pairwise fun r r' => r.2 ≤ r'.1
  union : ∀ a, (∃ r ∈ ranges, Within r a) ↔ p a

/-- The part of the range inside the window. -/
def clip (window r : ℕ × ℕ) : ℕ × ℕ := (max r.1 window.1, min r.2 window.2)

def gaps (stop : ℕ) : ℕ → List (ℕ × ℕ) → List (ℕ × ℕ)
  | start, [] => if start < stop then [(start, stop)] else []
  | start, r :: rest =>
      if start < r.1 then (start, r.1) :: gaps stop r.2 rest else gaps stop r.2 rest

section Slice

variable {α : Type*} {p q : α → Bool}

theorem findIdx_eq_zero {l : List α} (h : ∀ x ∈ l, p x = true) : l.findIdx p = 0 := by
  cases l with
  | nil => rfl
  | cons x l => rw [List.findIdx_cons, h x List.mem_cons_self, cond_true]

theorem slice_eq_filter {l : List α} (hp : l.Pairwise fun x y => p x = true → p y = true)
    (hq : l.Pairwise fun x y => q x = true → q y = true) (hqp : ∀ x ∈ l, q x = true → p x = true) :
    (l.take (l.findIdx q)).drop (l.findIdx p) = l.filter fun x => p x && !q x := by
  induction l with
  | nil => rfl
  | cons x l ih =>
      obtain ⟨hpx, hp⟩ := List.pairwise_cons.1 hp
      obtain ⟨hqx, hq⟩ := List.pairwise_cons.1 hq
      have ih := ih hp hq fun y hy => hqp y (List.mem_cons_of_mem _ hy)
      rw [List.findIdx_cons, List.findIdx_cons]
      by_cases hx : q x = true
      · have hnone : l.filter (fun y => p y && !q y) = [] := by
          rw [List.filter_eq_nil_iff]
          intro y hy
          simp [hqx y hy hx]
        simp [hx, hqp x List.mem_cons_self hx, hnone]
      · by_cases hx' : p x = true
        · rw [findIdx_eq_zero fun y hy => hpx y hy hx', List.drop_zero] at ih
          simp [hx, hx', ih]
        · simp [hx, hx', ih]

theorem findIdx_le_findIdx {l : List α} (hqp : ∀ x ∈ l, q x = true → p x = true) :
    l.findIdx p ≤ l.findIdx q := by
  induction l with
  | nil => exact Nat.le_refl _
  | cons x l ih =>
      have ih := ih fun y hy => hqp y (List.mem_cons_of_mem _ hy)
      have hx := hqp x List.mem_cons_self
      rw [List.findIdx_cons, List.findIdx_cons]
      cases hp : p x <;> cases hq : q x <;> simp_all

end Slice

variable {ranges : List (ℕ × ℕ)} {p : ℕ → Prop} {start stop a : ℕ}

theorem Partition.clip {window : ℕ × ℕ} (hwindow : window.1 < window.2)
    (h : Partition ranges p) :
    Partition ((ranges.filter fun r => decide (window.1 < r.2 ∧ r.1 < window.2)).map
      (clip window)) fun a => p a ∧ Within window a := by
  refine ⟨?_, ?_, fun a => ?_⟩
  · intro r hr
    obtain ⟨x, hx, rfl⟩ := List.mem_map.1 hr
    obtain ⟨hx, hmeets⟩ := List.mem_filter.1 hx
    obtain ⟨h₁, h₂⟩ := of_decide_eq_true hmeets
    have hlt := h.nonempty x hx
    unfold Segments.clip
    dsimp only
    omega
  · rw [List.pairwise_map]
    refine (h.ascending.filter _).imp fun {x y} hxy => ?_
    unfold Segments.clip
    dsimp only
    omega
  · rw [← h.union a]
    constructor
    · rintro ⟨r, hr, hin⟩
      obtain ⟨x, hx, rfl⟩ := List.mem_map.1 hr
      obtain ⟨hx, -⟩ := List.mem_filter.1 hx
      unfold Within Segments.clip at hin
      dsimp only at hin
      exact ⟨⟨x, hx, by unfold Within; omega⟩, by unfold Within; omega⟩
    · rintro ⟨⟨x, hx, hin⟩, hwin⟩
      unfold Within at hin hwin
      refine ⟨Segments.clip window x, List.mem_map_of_mem (List.mem_filter.2 ⟨hx, ?_⟩), ?_⟩
      · exact decide_eq_true (by omega)
      · unfold Within Segments.clip
        dsimp only
        omega

theorem mem_gaps {r : ℕ × ℕ} (hranges : ∀ r ∈ ranges, r.1 < r.2 ∧ r.2 ≤ stop)
    (hstart : ∀ r ∈ ranges, start ≤ r.1) (hascending : ranges.Pairwise fun r r' => r.2 ≤ r'.1)
    (hr : r ∈ gaps stop start ranges) : start ≤ r.1 ∧ r.1 < r.2 ∧ r.2 ≤ stop := by
  induction ranges generalizing start with
  | nil =>
      unfold gaps at hr
      split at hr
      · next hlt =>
          obtain rfl := List.mem_singleton.1 hr
          exact ⟨Nat.le_refl _, hlt, Nat.le_refl _⟩
      · cases hr
  | cons x rest ih =>
      obtain ⟨hx, hrest⟩ := List.pairwise_cons.1 hascending
      obtain ⟨hlt, hle⟩ := hranges x List.mem_cons_self
      have hfrom := hstart x List.mem_cons_self
      have ih := ih (fun r h => hranges r (List.mem_cons_of_mem _ h)) hx hrest
      unfold gaps at hr
      split at hr
      · next hgap =>
          rcases List.mem_cons.1 hr with rfl | hr
          · dsimp only
            omega
          · have := ih hr
            omega
      · have := ih hr
        omega

theorem gaps_partition (hranges : ∀ r ∈ ranges, r.1 < r.2 ∧ r.2 ≤ stop)
    (hstart : ∀ r ∈ ranges, start ≤ r.1) (hascending : ranges.Pairwise fun r r' => r.2 ≤ r'.1) :
    Partition (gaps stop start ranges)
      fun a => Within (start, stop) a ∧ ¬ ∃ r ∈ ranges, Within r a := by
  induction ranges generalizing start with
  | nil =>
      unfold gaps
      split
      · next hlt =>
          refine ⟨?_, List.pairwise_singleton _ _, fun a => ?_⟩
          · rintro r hr
            obtain rfl := List.mem_singleton.1 hr
            exact hlt
          · simp
      · next hnot =>
          refine ⟨fun r hr => absurd hr List.not_mem_nil, List.Pairwise.nil, fun a => ?_⟩
          simp only [List.not_mem_nil, false_and, exists_false, not_false_eq_true, and_true,
            false_iff]
          unfold Within
          dsimp only
          omega
  | cons x rest ih =>
      obtain ⟨hx, hrest⟩ := List.pairwise_cons.1 hascending
      obtain ⟨hlt, hle⟩ := hranges x List.mem_cons_self
      have hfrom := hstart x List.mem_cons_self
      have hranges' : ∀ r ∈ rest, r.1 < r.2 ∧ r.2 ≤ stop :=
        fun r h => hranges r (List.mem_cons_of_mem _ h)
      have ih := ih hranges' hx hrest
      have hunion : ∀ a, (∃ r ∈ gaps stop start (x :: rest), Within r a) ↔
          (start ≤ a ∧ a < x.1) ∨ ∃ r ∈ gaps stop x.2 rest, Within r a := by
        intro a
        rw [gaps]
        split
        · simp only [List.mem_cons, exists_eq_or_imp]
          rfl
        · rw [iff_or_self]
          omega
      refine ⟨fun r hr => (mem_gaps hranges hstart hascending hr).2.1, ?_, fun a => ?_⟩
      · rw [gaps]
        split
        · refine List.pairwise_cons.2 ⟨fun r hr => ?_, ih.ascending⟩
          have := mem_gaps hranges' hx hrest hr
          dsimp only
          omega
        · exact ih.ascending
      · rw [hunion, ih.union]
        simp only [List.mem_cons, exists_eq_or_imp, not_or]
        have hbefore : a < x.1 → ¬ ∃ r ∈ rest, Within r a := by
          rintro ha ⟨r, hr, hin⟩
          have := hx r hr
          unfold Within at hin
          omega
        unfold Within at hbefore ⊢
        dsimp only
        constructor
        · rintro (⟨h₁, h₂⟩ | ⟨⟨h₁, h₂⟩, hrest⟩)
          · exact ⟨⟨h₁, by omega⟩, by omega, hbefore h₂⟩
          · exact ⟨⟨by omega, h₂⟩, by omega, hrest⟩
        · rintro ⟨⟨h₁, h₂⟩, hout, hrest⟩
          by_cases ha : a < x.1
          · exact .inl ⟨h₁, ha⟩
          · exact .inr ⟨⟨by omega, h₂⟩, hrest⟩

end Segments
