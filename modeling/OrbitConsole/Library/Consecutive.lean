import OrbitConsole.Library.Tiling

/-!
# Runs of consecutive entries

A loop over a tiling goes from an entry on to the end. `Onward size m l start` says
that the list `l` is such a run: it holds the entries of `m` from `start` on, all of
them and in order. When an address lies where no entry is under way (`Boundary`), the
entry that covers it is the head of the run.
-/

namespace Tiling

variable {α : Type*} {size : α → ℕ} {m : OrderedMap ℕ α} {U : Set ℕ} {k k' p start : ℕ}
  {a a' : α} {l : List (ℕ × α)}

theorem Tiles.end_le (T : Tiles size m U) (h : m.get? k = some a) (h' : m.get? k' = some a')
    (hlt : k' < k + size a) : k' + size a' ≤ k + size a := by
  rcases lt_trichotomy k' k with hk | rfl | hk
  · have := T.disjoint h' h hk
    omega
  · rw [Option.some.inj (h.symm.trans h')]
  · have := T.disjoint h h' hk
    omega

/-- No entry that starts before `start` reaches over it. -/
def Boundary (size : α → ℕ) (m : OrderedMap ℕ α) (start : ℕ) : Prop :=
  ∀ k a, m.get? k = some a → k < start → k + size a ≤ start

theorem Tiles.boundary_key (T : Tiles size m U) (h : m.get? k = some a) : Boundary size m k :=
  fun _ _ h' hlt => T.disjoint h' h hlt

theorem Tiles.boundary_end (T : Tiles size m U) (h : m.get? k = some a) :
    Boundary size m (k + size a) :=
  fun _ _ h' hlt => T.end_le h h' hlt

/-- The entries a loop meets from `start` on. -/
structure Onward (size : α → ℕ) (m : OrderedMap ℕ α) (l : List (ℕ × α)) (start : ℕ) : Prop where
  mem : ∀ e ∈ l, m.get? e.1 = some e.2
  pairwise : l.Pairwise fun e e' => e.1 + size e.2 ≤ e'.1
  ge : ∀ e ∈ l, start ≤ e.1
  all : ∀ k a, m.get? k = some a → start ≤ k → (k, a) ∈ l

namespace Onward

theorem entriesFrom (T : Tiles size m U) : Onward size m (m.entriesFrom k) k where
  mem _ he := (OrderedMap.mem_entriesFrom.1 he).1
  pairwise := T.entries_pairwise.filter _
  ge _ he := (OrderedMap.mem_entriesFrom.1 he).2
  all _ _ h hle := OrderedMap.mem_entriesFrom.2 ⟨h, hle⟩

theorem get?_head (h : Onward size m ((k, a) :: l) start) : m.get? k = some a :=
  h.mem (k, a) List.mem_cons_self

theorem tail (T : Tiles size m U) (h : Onward size m ((k, a) :: l) start) :
    Onward size m l (k + size a) where
  mem e he := h.mem e (List.mem_cons_of_mem _ he)
  pairwise := (List.pairwise_cons.1 h.pairwise).2
  ge e he := (List.pairwise_cons.1 h.pairwise).1 e he
  all k' a' h' hle := by
    have hpos := T.pos h.get?_head
    have hge : start ≤ k := h.ge (k, a) List.mem_cons_self
    rcases List.mem_cons.1 (h.all k' a' h' (by omega)) with heq | hmem
    · rw [Prod.mk.injEq] at heq
      omega
    · exact hmem

theorem head_eq (T : Tiles size m U) (h : Onward size m l start) (hmem : start ∈ U)
    (hstart : Boundary size m start) : ∃ a l', l = (start, a) :: l' := by
  obtain ⟨k, a, hk, hle, hlt⟩ := (T.mem_iff start).1 hmem
  obtain rfl : k = start := by
    by_contra hne
    have := hstart k a hk (by omega)
    omega
  cases l with
  | nil => cases h.all k a hk le_rfl
  | cons e l =>
      obtain ⟨k', a'⟩ := e
      have hge : k ≤ k' := h.ge (k', a') List.mem_cons_self
      rcases List.mem_cons.1 (h.all k a hk le_rfl) with heq | hin
      · rw [Prod.mk.injEq] at heq
        exact ⟨a', l, by rw [heq.1]⟩
      · have hnext : k' + size a' ≤ k := (List.pairwise_cons.1 h.pairwise).1 (k, a) hin
        have hpos := T.pos h.get?_head
        omega

theorem head_key {n : ℕ} (T : Tiles size m (Set.Iio n))
    (h : Onward size m ((k, a) :: l) start) (hstart : Boundary size m start) : k = start := by
  have hge : start ≤ k := h.ge (k, a) List.mem_cons_self
  have hk : k < n := T.mem_of_get? h.get?_head le_rfl (by have := T.pos h.get?_head; omega)
  obtain ⟨a', l', heq⟩ := h.head_eq T (show start < n by omega) hstart
  rw [List.cons.injEq, Prod.mk.injEq] at heq
  exact heq.1.1

theorem dropWhile {n : ℕ} (T : Tiles size m (Set.Iio n)) (f : ℕ × α → Bool)
    (h : Onward size m l start) (hstart : Boundary size m start) :
    ∃ stop, start ≤ stop ∧ Onward size m (l.dropWhile f) stop ∧ Boundary size m stop ∧
      ∀ x, start ≤ x → x < stop → ∃ k a, m.get? k = some a ∧ k ≤ x ∧ x < k + size a ∧
        f (k, a) = true := by
  induction l generalizing start with
  | nil => exact ⟨start, le_rfl, h, hstart, fun x hx hx' => absurd hx' (by omega)⟩
  | cons e l ih =>
      obtain ⟨k, a⟩ := e
      obtain rfl := h.head_key T hstart
      rw [List.dropWhile_cons]
      split
      · next hf =>
          obtain ⟨stop, hle, hrun, hbound, hskip⟩ := ih (h.tail T) (T.boundary_end h.get?_head)
          refine ⟨stop, by omega, hrun, hbound, fun x hx hx' => ?_⟩
          rcases Nat.lt_or_ge x (k + size a) with hlt | hge
          · exact ⟨k, a, h.get?_head, hx, hlt, hf⟩
          · exact hskip x hge hx'
      · exact ⟨k, le_rfl, h, hstart, fun x hx hx' => absurd hx' (by omega)⟩

end Onward

end Tiling
