import Mathlib.Algebra.Ring.Int.Defs
import Mathlib.Algebra.BigOperators.Group.List.Basic
import OrbitConsole.Library.OrderedMap

/-!
# The weight of a map

The sum of a weight over the entries of an ordered map, such as the number of
entries with a property, and what inserting, replacing and erasing an entry do
to it.
-/

namespace OrderedMap

variable {κ α : Type*} [LinearOrder κ] {m : OrderedMap κ α} {k : κ} {a a₀ : α}

def weight (w : α → ℤ) (m : OrderedMap κ α) : ℤ := (m.entries.map fun e => w e.2).sum

theorem weight_ite (p : α → Prop) [DecidablePred p] (m : OrderedMap κ α) :
    weight (fun a => if p a then 1 else 0) m = (m.entries.countP fun e => p e.2 : ℕ) := by
  unfold weight
  induction m.entries with
  | nil => rfl
  | cons e l ih =>
      rw [List.map_cons, List.sum_cons, ih, List.countP_cons]
      by_cases h : p e.2 <;> simp [h, add_comm]

@[simp] theorem weight_empty (w : α → ℤ) : weight w (empty : OrderedMap κ α) = 0 := rfl

omit [LinearOrder κ] in
theorem sum_filter_add (w : α → ℤ) (p : κ × α → Bool) (l : List (κ × α)) :
    ((l.filter p).map fun e => w e.2).sum + ((l.filter fun e => !p e).map fun e => w e.2).sum =
      (l.map fun e => w e.2).sum := by
  induction l with
  | nil => rfl
  | cons e l ih =>
      cases hp : p e <;> simp only [List.filter_cons, hp, Bool.not_true, Bool.not_false, if_true,
        Bool.false_eq_true, if_false, List.map_cons, List.sum_cons] <;> omega

theorem filter_key_eq (h : m.get? k = some a) : m.entries.filter (·.1 = k) = [(k, a)] := by
  have hmem := get?_eq_some_iff.1 h
  obtain ⟨before, after, hsplit⟩ := List.append_of_mem hmem
  have hsorted := m.sorted
  rw [hsplit, List.pairwise_append, List.pairwise_cons] at hsorted
  have hbefore : before.filter (·.1 = k) = [] := by
    refine List.filter_eq_nil_iff.2 fun e he => ?_
    have := hsorted.2.2 e he (k, a) List.mem_cons_self
    simpa using this.ne
  have hafter : after.filter (·.1 = k) = [] := by
    refine List.filter_eq_nil_iff.2 fun e he => ?_
    have := hsorted.2.1.1 e he
    simpa using this.ne'
  rw [hsplit, List.filter_append, hbefore, List.filter_cons, hafter]
  simp

theorem weight_erase (w : α → ℤ) (h : m.get? k = some a) :
    weight w (m.erase k) + w a = weight w m := by
  have hsum := sum_filter_add w (fun e => decide (e.1 = k)) m.entries
  have hkey := filter_key_eq h
  have hrest : (m.entries.filter fun e => !decide (e.1 = k)) = (m.erase k).entries := by
    simp [erase]
  rw [hkey, hrest] at hsum
  simp only [List.map_cons, List.map_nil, List.sum_cons, List.sum_nil] at hsum
  unfold weight
  omega

theorem erase_eq_self (h : m.get? k = none) : m.erase k = m := by
  refine ext_get? fun x => ?_
  rw [get?_erase]
  split
  · next hx => rw [hx, h]
  · rfl

theorem erase_insert (m : OrderedMap κ α) (k : κ) (a : α) :
    (m.insert k a).erase k = m.erase k := by
  refine ext_get? fun x => ?_
  simp only [get?_erase, get?_insert]
  split <;> rfl

theorem weight_insert_new (w : α → ℤ) (h : m.get? k = none) :
    weight w (m.insert k a) = weight w m + w a := by
  have hget : (m.insert k a).get? k = some a := by simp
  rw [← weight_erase w hget, erase_insert, erase_eq_self h]

theorem weight_insert (w : α → ℤ) (h : m.get? k = some a₀) :
    weight w (m.insert k a) = weight w m - w a₀ + w a := by
  have hget : (m.insert k a).get? k = some a := by simp
  rw [← weight_erase w hget, erase_insert, ← weight_erase w h]
  omega

end OrderedMap
