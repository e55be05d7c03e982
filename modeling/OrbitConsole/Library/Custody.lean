import Mathlib.Data.List.Nodup
import Mathlib.Tactic.Common

/-!
# Things kept in places

Every place keeps a list of things, and a thing is kept once and in one place at
most. Moving things keeps this when the new place of each is one.
-/

variable {π ι : Type*} {held held' : π → List ι} {moved : ι → π → Prop} {x : ι} {p p' : π}

/-- A thing is kept in at most one place, and once there. -/
structure Exclusive (held : π → List ι) : Prop where
  nodup : ∀ p, (held p).Nodup
  unique : ∀ {p p' x}, x ∈ held p → x ∈ held p' → p = p'

/-- What `moved` names goes to its place, and the rest stays where it is. -/
structure Relocates (moved : ι → π → Prop) (held held' : π → List ι) : Prop where
  mem_iff : ∀ x p, x ∈ held' p ↔ moved x p ∨ (∀ p', ¬moved x p') ∧ x ∈ held p
  toOne : ∀ {x p p'}, moved x p → moved x p' → p = p'

namespace Relocates

theorem single {y : ι} {p₀ : π}
    (h : ∀ x p, x ∈ held' p ↔ x = y ∧ p = p₀ ∨ x ≠ y ∧ x ∈ held p) :
    Relocates (fun x p => x = y ∧ p = p₀) held held' where
  mem_iff x p := by
    rw [h, show (∀ p', ¬(x = y ∧ p' = p₀)) ↔ x ≠ y by simp]
  toOne h h' := h.2.trans h'.2.symm

theorem exclusive (hr : Relocates moved held held') (h : Exclusive held)
    (hn : ∀ p, (held' p).Nodup) : Exclusive held' := by
  refine ⟨hn, fun {p p' x} hp hp' => ?_⟩
  rcases (hr.mem_iff x p).1 hp with hm | ⟨hno, hp⟩ <;>
    rcases (hr.mem_iff x p').1 hp' with hm' | ⟨hno', hp'⟩
  · exact hr.toOne hm hm'
  · exact absurd hm (hno' p)
  · exact absurd hm' (hno p')
  · exact h.unique hp hp'

end Relocates

/-! ### Handing out a list -/

section Zip

variable {α β : Type*} {tds : List α} {things : List β} {a a' : α} {b : β}

theorem List.Nodup.zip_left_unique (h : things.Nodup) (ha : (a, b) ∈ tds.zip things)
    (ha' : (a', b) ∈ tds.zip things) : a = a' := by
  induction tds generalizing things with
  | nil => simp at ha
  | cons t tds ih =>
      cases things with
      | nil => simp at ha
      | cons x things =>
          have hx := List.nodup_cons.1 h
          have hout : ∀ {c}, (c, x) ∈ tds.zip things → False := fun hc =>
            hx.1 (List.of_mem_zip hc).2
          simp only [List.zip_cons_cons, List.mem_cons, Prod.mk.injEq] at ha ha'
          rcases ha with ⟨rfl, rfl⟩ | ha <;> rcases ha' with ⟨rfl, hb⟩ | ha'
          · rfl
          · exact (hout ha').elim
          · exact (hout (hb ▸ ha)).elim
          · exact ih hx.2 ha ha'

theorem List.exists_mem_zip (h : things.length ≤ tds.length) (hb : b ∈ things) :
    ∃ a, (a, b) ∈ tds.zip things := by
  rw [← List.map_snd_zip h] at hb
  obtain ⟨⟨a, _⟩, hmem, rfl⟩ := List.mem_map.1 hb
  exact ⟨a, hmem⟩

theorem List.exists_zip_mem (h : tds.length ≤ things.length) (ha : a ∈ tds) :
    ∃ b, (a, b) ∈ tds.zip things := by
  rw [← List.map_fst_zip h] at ha
  obtain ⟨⟨_, b⟩, hmem, rfl⟩ := List.mem_map.1 ha
  exact ⟨b, hmem⟩

end Zip
