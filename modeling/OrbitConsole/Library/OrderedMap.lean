import Mathlib.Order.Lattice
import Mathlib.Data.List.Pairwise

/-!
# Ordered maps

`OrderedMap κ α` is a finite map whose entries are kept in strictly increasing
key order, as `std::map` keeps them. The order is a field, so an unsorted map
cannot be built. An iterator is the key it stands on: `floor x` is the entry
`std::prev (upper_bound x)` points to, `next k` and `prev k` are the
neighbours of a key, and `entriesFrom k` is the run of entries a loop meets that
starts at the key `k`.

Every query has one characteristic lemma in terms of `get?`; later proofs use
these and never look at the entry list.
-/

structure OrderedMap (κ : Type*) [LinearOrder κ] (α : Type*) where
  entries : List (κ × α)
  sorted : entries.Pairwise (fun a b => a.1 < b.1)

namespace OrderedMap

section List

variable {κ α : Type*} [LinearOrder κ]

theorem head?_eq_some_iff_of_sorted {l : List (κ × α)} {e : κ × α}
    (hl : l.Pairwise (fun a b => a.1 < b.1)) :
    l.head? = some e ↔ e ∈ l ∧ ∀ e' ∈ l, e.1 ≤ e'.1 := by
  cases l with
  | nil => simp
  | cons a l =>
      rw [List.pairwise_cons] at hl
      constructor
      · intro h
        obtain rfl : a = e := by simpa using h
        refine ⟨by simp, fun e' he' => ?_⟩
        rcases List.mem_cons.1 he' with rfl | he'
        · exact le_rfl
        · exact (hl.1 e' he').le
      · rintro ⟨he, hmin⟩
        rcases List.mem_cons.1 he with rfl | he
        · rfl
        · exact absurd (hl.1 e he) (not_lt.2 (hmin a (by simp)))

theorem getLast?_eq_some_iff_of_sorted {l : List (κ × α)} {e : κ × α}
    (hl : l.Pairwise (fun a b => a.1 < b.1)) :
    l.getLast? = some e ↔ e ∈ l ∧ ∀ e' ∈ l, e'.1 ≤ e.1 := by
  induction l with
  | nil => simp
  | cons a l ih =>
      rw [List.pairwise_cons] at hl
      cases l with
      | nil => simp +contextual [eq_comm]
      | cons b l =>
          rw [List.getLast?_cons_cons, ih hl.2]
          constructor
          · rintro ⟨he, hmax⟩
            refine ⟨List.mem_cons_of_mem _ he, fun e' he' => ?_⟩
            rcases List.mem_cons.1 he' with rfl | he'
            · exact (hl.1 e he).le
            · exact hmax e' he'
          · rintro ⟨he, hmax⟩
            refine ⟨?_, fun e' he' => hmax e' (List.mem_cons_of_mem _ he')⟩
            rcases List.mem_cons.1 he with rfl | he
            · exact absurd (hl.1 b (by simp)) (not_lt.2 (hmax b (by simp)))
            · exact he

end List

variable {κ α : Type*} [LinearOrder κ]

/-- The value stored under the key `k`. -/
def get? (m : OrderedMap κ α) (k : κ) : Option α :=
  (m.entries.find? fun e => e.1 = k).map Prod.snd

theorem get?_eq_some_iff {m : OrderedMap κ α} {k : κ} {a : α} :
    m.get? k = some a ↔ (k, a) ∈ m.entries := by
  have hkey : ∀ e ∈ m.entries, ∀ e' ∈ m.entries, e.1 = e'.1 → e = e' := by
    intro e he e' he' heq
    by_contra hne
    have := List.Pairwise.forall_of_forall_of_flip
      (R := fun a b : κ × α => a.1 = b.1 → a = b) (l := m.entries)
      (fun _ _ _ => rfl)
      (m.sorted.imp fun hlt h => absurd h hlt.ne)
      (m.sorted.imp fun hlt h => absurd h.symm hlt.ne)
    exact hne (this he he' heq)
  constructor
  · intro h
    obtain ⟨e, he, rfl⟩ := Option.map_eq_some_iff.1 h
    obtain rfl : e.1 = k := by simpa using List.find?_some he
    exact List.mem_of_find?_eq_some he
  · intro h
    cases hf : m.entries.find? fun e => e.1 = k with
    | none => simpa using List.find?_eq_none.1 hf _ h
    | some e =>
        have he := List.mem_of_find?_eq_some hf
        have hk : e.1 = k := by simpa using List.find?_some hf
        obtain rfl := hkey e he (k, a) h hk
        simp [get?, hf]

theorem ext_get? {m m' : OrderedMap κ α} (h : ∀ k, m.get? k = m'.get? k) : m = m' := by
  have hmem : ∀ e, e ∈ m.entries ↔ e ∈ m'.entries := fun ⟨k, a⟩ => by
    rw [← get?_eq_some_iff, ← get?_eq_some_iff, h]
  have hnodup : ∀ m : OrderedMap κ α, m.entries.Nodup := fun m =>
    m.sorted.imp fun hlt heq => absurd (congrArg Prod.fst heq) hlt.ne
  have hperm := (List.perm_ext_iff_of_nodup (hnodup m) (hnodup m')).2 hmem
  have heq := hperm.eq_of_pairwise
    (fun a b _ _ (hab : a.1 < b.1) hba => absurd hab hba.asymm) m.sorted m'.sorted
  cases m
  cases m'
  simpa using heq

/-- The map without entries. -/
def empty : OrderedMap κ α := ⟨[], List.Pairwise.nil⟩

@[simp] theorem get?_empty (k : κ) : (empty : OrderedMap κ α).get? k = none := rfl

/-- `m[k] = a`: the entry is added, or overwritten when the key is present. -/
def insert (m : OrderedMap κ α) (k : κ) (a : α) : OrderedMap κ α where
  entries := m.entries.filter (·.1 < k) ++ (k, a) :: m.entries.filter (k < ·.1)
  sorted := by
    rw [List.pairwise_append, List.pairwise_cons]
    refine ⟨m.sorted.filter _, ⟨fun e he => ?_, m.sorted.filter _⟩, fun e he e' he' => ?_⟩
    · simpa using (List.mem_filter.1 he).2
    · have hlt : e.1 < k := by simpa using (List.mem_filter.1 he).2
      rcases List.mem_cons.1 he' with rfl | he'
      · exact hlt
      · exact hlt.trans (by simpa using (List.mem_filter.1 he').2)

@[simp] theorem get?_insert (m : OrderedMap κ α) (k : κ) (a : α) (x : κ) :
    (m.insert k a).get? x = if x = k then some a else m.get? x := by
  ext b
  rw [get?_eq_some_iff]
  by_cases hx : x = k
  · subst hx
    simp [insert, eq_comm]
  · rcases lt_or_gt_of_ne hx with hlt | hgt
    · simp [insert, hx, hlt, hlt.asymm, get?_eq_some_iff]
    · simp [insert, hx, hgt, hgt.asymm, get?_eq_some_iff]

theorem insert_insert (m : OrderedMap κ α) (k : κ) (a b : α) :
    (m.insert k a).insert k b = m.insert k b := by
  refine ext_get? fun x => ?_
  simp only [get?_insert]
  split <;> rfl

/-- `m.emplace (k, a)`: an entry already present is left as it is. -/
def emplace (m : OrderedMap κ α) (k : κ) (a : α) : OrderedMap κ α :=
  match m.get? k with
  | some _ => m
  | none => m.insert k a

theorem emplace_of_get?_eq_none {m : OrderedMap κ α} {k : κ} {a : α}
    (h : m.get? k = none) : m.emplace k a = m.insert k a := by
  simp [emplace, h]

def erase (m : OrderedMap κ α) (k : κ) : OrderedMap κ α where
  entries := m.entries.filter (·.1 ≠ k)
  sorted := m.sorted.filter _

@[simp] theorem get?_erase (m : OrderedMap κ α) (k x : κ) :
    (m.erase k).get? x = if x = k then none else m.get? x := by
  ext b
  rw [get?_eq_some_iff]
  by_cases hx : x = k <;> simp [erase, hx, get?_eq_some_iff]

/-- An assignment through an iterator on the key `k`. -/
def modify (m : OrderedMap κ α) (k : κ) (f : α → α) : OrderedMap κ α :=
  match m.get? k with
  | some a => m.insert k (f a)
  | none => m

@[simp] theorem get?_modify (m : OrderedMap κ α) (k : κ) (f : α → α) (x : κ) :
    (m.modify k f).get? x = if x = k then (m.get? k).map f else m.get? x := by
  unfold modify
  cases h : m.get? k with
  | none => by_cases hx : x = k <;> simp [hx, h]
  | some a => simp

theorem modify_modify (m : OrderedMap κ α) (k : κ) (f g : α → α) :
    (m.modify k f).modify k g = m.modify k (g ∘ f) := by
  refine ext_get? fun x => ?_
  simp only [get?_modify]
  split_ifs
  · rw [Option.map_map]
  · rfl

/-- `std::prev (m.upper_bound x)`: the last entry whose key is at most `x`. -/
def floor (m : OrderedMap κ α) (x : κ) : Option (κ × α) :=
  (m.entries.filter (·.1 ≤ x)).getLast?

theorem floor_eq_some_iff {m : OrderedMap κ α} {x k : κ} {a : α} :
    m.floor x = some (k, a) ↔
      m.get? k = some a ∧ k ≤ x ∧ ∀ k' a', m.get? k' = some a' → k' ≤ x → k' ≤ k := by
  rw [floor, getLast?_eq_some_iff_of_sorted (m.sorted.filter _), get?_eq_some_iff]
  simp only [List.mem_filter, decide_eq_true_eq, Prod.forall, get?_eq_some_iff, and_imp,
    and_assoc]

theorem floor_eq_none_iff {m : OrderedMap κ α} {x : κ} :
    m.floor x = none ↔ ∀ k a, m.get? k = some a → x < k := by
  simp only [floor, List.getLast?_eq_none_iff, List.filter_eq_nil_iff, Prod.forall,
    get?_eq_some_iff, decide_eq_true_eq, not_le]

/-- `std::next`: the first entry after the key `k`; `none` is `end ()`. -/
def next (m : OrderedMap κ α) (k : κ) : Option (κ × α) :=
  (m.entries.filter (k < ·.1)).head?

theorem next_eq_some_iff {m : OrderedMap κ α} {k k' : κ} {a : α} :
    m.next k = some (k', a) ↔
      m.get? k' = some a ∧ k < k' ∧ ∀ x b, m.get? x = some b → k < x → k' ≤ x := by
  rw [next, head?_eq_some_iff_of_sorted (m.sorted.filter _), get?_eq_some_iff]
  simp only [List.mem_filter, decide_eq_true_eq, Prod.forall, get?_eq_some_iff, and_imp,
    and_assoc]

theorem next_eq_none_iff {m : OrderedMap κ α} {k : κ} :
    m.next k = none ↔ ∀ x a, m.get? x = some a → x ≤ k := by
  simp only [next, List.head?_eq_none_iff, List.filter_eq_nil_iff, Prod.forall,
    get?_eq_some_iff, decide_eq_true_eq, not_lt]

/-- `std::prev`: the last entry before the key `k`; `none` when `k` is `begin ()`. -/
def prev (m : OrderedMap κ α) (k : κ) : Option (κ × α) :=
  (m.entries.filter (·.1 < k)).getLast?

theorem prev_eq_some_iff {m : OrderedMap κ α} {k k' : κ} {a : α} :
    m.prev k = some (k', a) ↔
      m.get? k' = some a ∧ k' < k ∧ ∀ x b, m.get? x = some b → x < k → x ≤ k' := by
  rw [prev, getLast?_eq_some_iff_of_sorted (m.sorted.filter _), get?_eq_some_iff]
  simp only [List.mem_filter, decide_eq_true_eq, Prod.forall, get?_eq_some_iff, and_imp,
    and_assoc]

theorem prev_eq_none_iff {m : OrderedMap κ α} {k : κ} :
    m.prev k = none ↔ ∀ x a, m.get? x = some a → k ≤ x := by
  simp only [prev, List.getLast?_eq_none_iff, List.filter_eq_nil_iff, Prod.forall,
    get?_eq_some_iff, decide_eq_true_eq, not_lt]

/-- `begin ()`. -/
def first (m : OrderedMap κ α) : Option (κ × α) := m.entries.head?

theorem first_eq_some_iff {m : OrderedMap κ α} {k : κ} {a : α} :
    m.first = some (k, a) ↔
      m.get? k = some a ∧ ∀ x b, m.get? x = some b → k ≤ x := by
  rw [first, head?_eq_some_iff_of_sorted m.sorted, get?_eq_some_iff]
  simp only [Prod.forall, get?_eq_some_iff]

/-- `std::prev (end ())`. -/
def last (m : OrderedMap κ α) : Option (κ × α) := m.entries.getLast?

theorem last_eq_some_iff {m : OrderedMap κ α} {k : κ} {a : α} :
    m.last = some (k, a) ↔
      m.get? k = some a ∧ ∀ x b, m.get? x = some b → x ≤ k := by
  rw [last, getLast?_eq_some_iff_of_sorted m.sorted, get?_eq_some_iff]
  simp only [Prod.forall, get?_eq_some_iff]

/-- The entries a loop meets that starts on the key `k`. -/
def entriesFrom (m : OrderedMap κ α) (k : κ) : List (κ × α) :=
  m.entries.filter (k ≤ ·.1)

theorem mem_entriesFrom {m : OrderedMap κ α} {k x : κ} {a : α} :
    (x, a) ∈ m.entriesFrom k ↔ m.get? x = some a ∧ k ≤ x := by
  simp [entriesFrom, get?_eq_some_iff]

theorem entriesFrom_sorted (m : OrderedMap κ α) (k : κ) :
    (m.entriesFrom k).Pairwise (fun a b => a.1 < b.1) :=
  m.sorted.filter _

theorem entriesFrom_eq_cons {m : OrderedMap κ α} {k : κ} {a : α} (h : m.get? k = some a) :
    ∃ l, m.entriesFrom k = (k, a) :: l := by
  have hhead : (m.entriesFrom k).head? = some (k, a) := by
    rw [head?_eq_some_iff_of_sorted (m.entriesFrom_sorted k)]
    exact ⟨mem_entriesFrom.2 ⟨h, le_rfl⟩, fun e he => (mem_entriesFrom.1 he).2⟩
  cases hl : m.entriesFrom k with
  | nil => simp [hl] at hhead
  | cons e l =>
      rw [hl, List.head?_cons, Option.some.injEq] at hhead
      exact ⟨l, by rw [hhead]⟩

theorem foldl_insert_entries {m : OrderedMap κ α} {l : List (κ × α)}
    (hl : l.Pairwise (fun a b => a.1 < b.1))
    (hm : ∀ e ∈ m.entries, ∀ e' ∈ l, e.1 < e'.1) :
    (l.foldl (fun m e => m.insert e.1 e.2) m).entries = m.entries ++ l := by
  induction l generalizing m with
  | nil => simp
  | cons a l ih =>
      rw [List.pairwise_cons] at hl
      have hlt : ∀ e ∈ m.entries, e.1 < a.1 := fun e he => hm e he a (by simp)
      have hins : (m.insert a.1 a.2).entries = m.entries ++ [a] := by
        simp only [insert]
        rw [List.filter_eq_self.2 fun e he => decide_eq_true (hlt e he),
          List.filter_eq_nil_iff.2 fun e he => by simpa using (hlt e he).le]
      rw [List.foldl_cons, ih hl.2, hins]
      · simp
      · intro e he e' he'
        rw [hins, List.mem_append, List.mem_singleton] at he
        rcases he with he | rfl
        · exact hm e he e' (List.mem_cons_of_mem _ he')
        · exact hl.1 e' he'

end OrderedMap
