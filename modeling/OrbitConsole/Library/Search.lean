import Mathlib.Data.List.Basic
import Mathlib.Data.List.Nodup
import Mathlib.Data.List.Perm.Subperm
import Mathlib.Logic.Relation
import Mathlib.Tactic.Common

/-!
# Breadth-first search

A search with a queue and a list of the nodes that were queued. Within a finite
set that no edge leaves it ends, and it finds what can be reached.
-/

namespace Search

variable {α : Type*} (succ : α → List α) (p : α → Bool)

def enqueue [DecidableEq α] : List α → List α → List α → List α × List α
  | visited, queue, [] => (visited, queue)
  | visited, queue, a :: rest =>
      if a ∈ visited then enqueue visited queue rest
      else enqueue (visited ++ [a]) (queue ++ [a]) rest

/-- Whether a node with `p` is found, or `none` if the rounds do not suffice. -/
def search [DecidableEq α] : ℕ → List α → List α → Option Bool
  | _, _, [] => some false
  | 0, _, _ :: _ => none
  | fuel + 1, visited, a :: queue =>
      if p a then some true
      else
        let (visited, queue) := enqueue visited queue (succ a)
        search fuel visited queue

def Reaches (a : α) : Prop := ∃ b, Relation.ReflTransGen (fun x y => y ∈ succ x) a b ∧ p b = true

variable {succ p}

theorem enqueue_spec [DecidableEq α] (l visited queue : List α) :
    ∃ new, enqueue visited queue l = (visited ++ new, queue ++ new) ∧ (∀ a ∈ new, a ∈ l) ∧
      (∀ a ∈ l, a ∈ visited ++ new) ∧ (visited.Nodup → (visited ++ new).Nodup) := by
  induction l generalizing visited queue with
  | nil =>
      refine ⟨[], ?_, fun a ha => ha, fun a ha => absurd ha List.not_mem_nil, ?_⟩
      · simp [enqueue]
      · simp
  | cons x rest ih =>
      unfold enqueue
      split
      · next hx =>
          obtain ⟨new, heq, hnew, hall, hnodup⟩ := ih visited queue
          refine ⟨new, heq, fun a ha => List.mem_cons_of_mem _ (hnew a ha), ?_, hnodup⟩
          intro a ha
          rcases List.mem_cons.1 ha with rfl | ha
          · exact List.mem_append_left _ hx
          · exact hall a ha
      · next hx =>
          obtain ⟨new, heq, hnew, hall, hnodup⟩ := ih (visited ++ [x]) (queue ++ [x])
          refine ⟨x :: new, ?_, ?_, ?_, ?_⟩
          · simpa using heq
          · intro a ha
            rcases List.mem_cons.1 ha with rfl | ha
            · exact List.mem_cons_self
            · exact List.mem_cons_of_mem _ (hnew a ha)
          · intro a ha
            rcases List.mem_cons.1 ha with rfl | ha
            · exact List.mem_append_right _ List.mem_cons_self
            · simpa using hall a ha
          · intro h
            have h' : (visited ++ [x]).Nodup :=
              List.nodup_append.2 ⟨h, List.nodup_singleton x, by
                intro a ha b hb
                obtain rfl := List.mem_singleton.1 hb
                rintro rfl
                exact hx ha⟩
            simpa using hnodup h'

/-- The state of a search from `root`: a node that was queued is still so or was passed. -/
structure Explored (succ : α → List α) (p : α → Bool) (U : List α) (root : α)
    (visited queue : List α) : Prop where
  nodup : visited.Nodup
  within : ∀ a ∈ visited, a ∈ U
  queued : ∀ a ∈ queue, Relation.ReflTransGen (fun x y => y ∈ succ x) root a
  queued_within : ∀ a ∈ queue, a ∈ U
  passed : ∀ a, a = root ∨ a ∈ visited → a ∈ queue ∨ p a = false ∧ ∀ b ∈ succ a, b ∈ visited

theorem Explored.start {U : List α} {root : α} (hroot : root ∈ U) :
    Explored succ p U root [] [root] where
  nodup := List.nodup_nil
  within a ha := absurd ha List.not_mem_nil
  queued a ha := by
    obtain rfl := List.mem_singleton.1 ha
    exact .refl
  queued_within a ha := by
    obtain rfl := List.mem_singleton.1 ha
    exact hroot
  passed a ha := by
    rcases ha with rfl | ha
    · exact .inl List.mem_cons_self
    · exact absurd ha List.not_mem_nil

theorem Explored.pass {U : List α} {root a : α} {visited queue new : List α}
    (h : Explored succ p U root visited (a :: queue)) (hU : ∀ x ∈ U, ∀ y ∈ succ x, y ∈ U)
    (ha : p a = false) (hnew : ∀ x ∈ new, x ∈ succ a) (hall : ∀ x ∈ succ a, x ∈ visited ++ new)
    (hnodup : visited.Nodup → (visited ++ new).Nodup) :
    Explored succ p U root (visited ++ new) (queue ++ new) where
  nodup := hnodup h.nodup
  within x hx := by
    rcases List.mem_append.1 hx with hx | hx
    · exact h.within x hx
    · exact hU a (h.queued_within a List.mem_cons_self) x (hnew x hx)
  queued x hx := by
    rcases List.mem_append.1 hx with hx | hx
    · exact h.queued x (List.mem_cons_of_mem _ hx)
    · exact (h.queued a List.mem_cons_self).tail (hnew x hx)
  queued_within x hx := by
    rcases List.mem_append.1 hx with hx | hx
    · exact h.queued_within x (List.mem_cons_of_mem _ hx)
    · exact hU a (h.queued_within a List.mem_cons_self) x (hnew x hx)
  passed x hx := by
    have hkeep : (x ∈ a :: queue ∨ p x = false ∧ ∀ b ∈ succ x, b ∈ visited) →
        x ∈ queue ++ new ∨ p x = false ∧ ∀ b ∈ succ x, b ∈ visited ++ new := by
      rintro (hmem | ⟨hp, hsucc⟩)
      · rcases List.mem_cons.1 hmem with rfl | hmem
        · exact .inr ⟨ha, hall⟩
        · exact .inl (List.mem_append_left _ hmem)
      · exact .inr ⟨hp, fun b hb => List.mem_append_left _ (hsucc b hb)⟩
    rcases hx with hx | hx
    · exact hkeep (h.passed x (.inl hx))
    · rcases List.mem_append.1 hx with hx | hx
      · exact hkeep (h.passed x (.inr hx))
      · exact .inl (List.mem_append_right _ hx)

theorem Explored.not_reaches {U : List α} {root : α} {visited : List α}
    (h : Explored succ p U root visited []) : ¬ Reaches succ p root := by
  have hpassed : ∀ a, a = root ∨ a ∈ visited →
      p a = false ∧ ∀ b ∈ succ a, b ∈ visited := by
    intro a ha
    exact (h.passed a ha).resolve_left List.not_mem_nil
  rintro ⟨b, hpath, hb⟩
  have hin : b = root ∨ b ∈ visited := by
    clear hb
    induction hpath with
    | refl => exact .inl rfl
    | tail _ hstep ih => exact .inr ((hpassed _ ih).2 _ hstep)
  rw [(hpassed b hin).1] at hb
  cases hb

theorem search_of_explored [DecidableEq α] {U : List α} {root : α}
    (hU : ∀ x ∈ U, ∀ y ∈ succ x, y ∈ U) {fuel : ℕ}
    {visited queue : List α} (h : Explored succ p U root visited queue)
    (hfuel : U.length + queue.length ≤ fuel + visited.length) :
    ∃ found, search succ p fuel visited queue = some found ∧
      (found = true ↔ Reaches succ p root) := by
  induction fuel generalizing visited queue with
  | zero =>
      cases queue with
      | nil => exact ⟨false, by rw [search], by simpa using h.not_reaches⟩
      | cons a queue =>
          have hle := (List.subperm_of_subset h.nodup h.within).length_le
          simp only [List.length_cons] at hfuel
          omega
  | succ fuel ih =>
      cases queue with
      | nil => exact ⟨false, by rw [search], by simpa using h.not_reaches⟩
      | cons a queue =>
          rw [search]
          split
          · next ha =>
              exact ⟨true, rfl, iff_of_true rfl ⟨a, h.queued a List.mem_cons_self, ha⟩⟩
          · next ha =>
              obtain ⟨new, heq, hnew, hall, hnodup⟩ := enqueue_spec (succ a) visited queue
              have hpass := h.pass hU (by simpa using ha) hnew hall hnodup
              rw [heq]
              refine ih hpass ?_
              simp only [List.length_cons, List.length_append] at hfuel ⊢
              omega

theorem search_spec [DecidableEq α] {U : List α} {root : α} (hroot : root ∈ U)
    (hU : ∀ x ∈ U, ∀ y ∈ succ x, y ∈ U) :
    ∃ found, search succ p (U.length + 1) [] [root] = some found ∧
      (found = true ↔ Reaches succ p root) :=
  search_of_explored hU (Explored.start hroot) (by simp)

end Search
