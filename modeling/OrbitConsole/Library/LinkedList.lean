import Mathlib.Data.List.Nodup
import Mathlib.Logic.Function.Basic
import Mathlib.Tactic.Common

/-!
# Doubly linked lists

Nodes that point to the next and to the previous one. `Linked` says that the pointers of the
nodes of a list put them in its order. A node is unlinked by the pointers of its neighbours, and
another one is appended by those of the last node.
-/

namespace LinkedList

variable {ι β : Type*} {next prev next' prev' : ι → Option ι} {l a b : List ι}
  {p n : Option ι} {i : ι}

def Linked (next prev : ι → Option ι) : Option ι → List ι → Option ι → Prop
  | _, [], _ => True
  | p, i :: l, n => prev i = p ∧ next i = l.head?.or n ∧ Linked next prev (some i) l n

theorem Linked.congr (h : Linked next prev p l n)
    (heq : ∀ i ∈ l, next' i = next i ∧ prev' i = prev i) : Linked next' prev' p l n := by
  induction l generalizing p with
  | nil => exact True.intro
  | cons i l ih =>
      obtain ⟨hprev, hnext, hrest⟩ := h
      obtain ⟨hn, hp⟩ := heq i List.mem_cons_self
      exact ⟨hp.trans hprev, hn.trans hnext,
        ih hrest fun j hj => heq j (List.mem_cons_of_mem i hj)⟩

theorem linked_append : Linked next prev p (a ++ b) n ↔
    Linked next prev p a (b.head?.or n) ∧ Linked next prev (a.getLast?.or p) b n := by
  induction a generalizing p with
  | nil => simp [Linked]
  | cons i a ih =>
      have hlast : (i :: a).getLast?.or p = a.getLast?.or (some i) := by
        cases a with
        | nil => rfl
        | cons j a => simp [List.getLast?_cons]
      have hhead : (a ++ b).head?.or n = a.head?.or (b.head?.or n) := by
        cases a <;> rfl
      rw [List.cons_append, Linked, Linked, ih, hlast, hhead, and_assoc, and_assoc]

theorem Linked.pointers (h : Linked next prev none (a ++ i :: b) none) :
    prev i = a.getLast? ∧ next i = b.head? := by
  obtain ⟨-, hprev, hnext, -⟩ := linked_append.1 h
  rw [Option.or_none] at hprev hnext
  exact ⟨hprev, hnext⟩

section Pointers

variable [DecidableEq ι]

/-- The value at a node, if there is one. -/
def setAt (f : ι → β) : Option ι → β → ι → β
  | some i, v => Function.update f i v
  | none, _ => f

theorem setAt_of_ne {f : ι → β} {o : Option ι} {v : β} (h : o ≠ some i) : setAt f o v i = f i := by
  cases o with
  | none => rfl
  | some j => exact Function.update_of_ne (fun heq => h (congrArg some heq.symm)) v f

theorem Linked.setNext (h : Linked next prev p l n) (hl : l.Nodup) :
    Linked (setAt next l.getLast? n') prev p l n' := by
  obtain rfl | ⟨a, x, rfl⟩ := List.eq_nil_or_concat' l
  · exact True.intro
  · rw [linked_append] at h ⊢
    have hx : x ∉ a := fun hx => (List.nodup_append.1 hl).2.2 x hx x (List.mem_singleton_self x) rfl
    rw [List.getLast?_concat]
    refine ⟨h.1.congr fun i hi => ⟨setAt_of_ne fun heq => ?_, rfl⟩, h.2.1,
      Function.update_self _ _ _, True.intro⟩
    rw [Option.some.inj heq] at hx
    exact hx hi

theorem Linked.setPrev {p' : Option ι} (h : Linked next prev p l n) (hl : l.Nodup) :
    Linked next (setAt prev l.head? p') p' l n := by
  cases l with
  | nil => exact True.intro
  | cons x b =>
      have hx : x ∉ b := (List.nodup_cons.1 hl).1
      refine ⟨Function.update_self _ _ _, h.2.1, h.2.2.congr fun i hi =>
        ⟨rfl, setAt_of_ne fun heq => ?_⟩⟩
      rw [Option.some.inj heq] at hx
      exact hx hi

theorem Linked.unlink (h : Linked next prev none (a ++ i :: b) none)
    (hl : (a ++ i :: b).Nodup) :
    Linked (setAt next a.getLast? b.head?) (setAt prev b.head? a.getLast?) none (a ++ b) none := by
  obtain ⟨ha, -, -, hb⟩ := linked_append.1 h
  obtain ⟨hla, hlb, hdisjoint⟩ := List.nodup_append.1 hl
  have hlb := (List.nodup_cons.1 hlb).2
  rw [linked_append, Option.or_none, Option.or_none]
  refine ⟨(ha.setNext hla).congr fun j hj => ⟨rfl, setAt_of_ne fun heq => ?_⟩,
    (hb.setPrev hlb).congr fun j hj => ⟨setAt_of_ne fun heq => ?_, rfl⟩⟩
  · exact hdisjoint j hj j (List.mem_cons_of_mem i (List.mem_of_mem_head? heq)) rfl
  · exact hdisjoint j (List.mem_of_getLast? heq) j (List.mem_cons_of_mem i hj) rfl

theorem Linked.concat (h : Linked next prev none l none) (hl : l.Nodup) (hi : i ∉ l) :
    Linked (Function.update (setAt next l.getLast? (some i)) i none)
      (Function.update prev i l.getLast?) none (l ++ [i]) none := by
  have hne : ∀ j ∈ l, j ≠ i := fun j hj heq => hi (heq ▸ hj)
  rw [linked_append, Option.or_none]
  have hfront : Linked (setAt next l.getLast? (some i)) prev none l (some i) := h.setNext hl
  refine ⟨hfront.congr fun j hj => ⟨?_, ?_⟩, ?_, ?_, True.intro⟩
  · rw [Function.update_of_ne (hne j hj)]
  · rw [Function.update_of_ne (hne j hj)]
  · rw [Option.or_none, Function.update_self]
  · rw [Function.update_self]
    rfl

end Pointers

end LinkedList
