import Mathlib.Data.List.Pairwise
import Mathlib.Data.Nat.Notation
import Mathlib.Tactic.Common

/-!
# Runs of set bits

The maximal runs of the numbers below `N` at which a Boolean function is true,
as half-open ranges in ascending order.
-/

namespace Runs

variable (f : ℕ → Bool) (N : ℕ)

def scan (v : Bool) : ℕ → ℕ → ℕ
  | 0, i => i
  | n + 1, i => if f i = v then i else scan v n (i + 1)

def find (v : Bool) (i : ℕ) : ℕ := scan f v (N - i) i

def firstRun (start : ℕ) : ℕ × ℕ :=
  if N ≤ start then (N, N)
  else (find f N true start, find f N false (find f N true start))

def runsFrom : ℕ → ℕ → List (ℕ × ℕ)
  | 0, _ => []
  | n + 1, start =>
      let r := firstRun f N start
      if r = (N, N) then [] else r :: runsFrom n r.2

def runs : List (ℕ × ℕ) := runsFrom f N N 0

/-- The end of the last of the numbers below `i` with the value `v`, or zero. -/
def findLast (v : Bool) : ℕ → ℕ
  | 0 => 0
  | i + 1 => if f i = v then i + 1 else findLast v i

def lastRun : ℕ × ℕ := (findLast f false (findLast f true N), findLast f true N)

variable {f N}

theorem scan_spec (v : Bool) (n i : ℕ) :
    i ≤ scan f v n i ∧ scan f v n i ≤ i + n ∧
      (scan f v n i < i + n → f (scan f v n i) = v) ∧
      ∀ j, i ≤ j → j < scan f v n i → f j = !v := by
  induction n generalizing i with
  | zero =>
      refine ⟨Nat.le_refl i, Nat.le_refl i, fun h => absurd h (Nat.lt_irrefl i), ?_⟩
      intro j hle hlt
      exact absurd (Nat.lt_of_le_of_lt hle hlt) (Nat.lt_irrefl i)
  | succ n ih =>
      unfold scan
      split
      · next hv =>
          refine ⟨Nat.le_refl i, Nat.le_add_right i _, fun _ => hv, ?_⟩
          intro j hle hlt
          exact absurd (Nat.lt_of_le_of_lt hle hlt) (Nat.lt_irrefl i)
      · next hv =>
          obtain ⟨hle, hend, hval, hbefore⟩ := ih (i + 1)
          refine ⟨by omega, by omega, fun hlt => hval (by omega), ?_⟩
          intro j hij hlt
          rcases Nat.eq_or_lt_of_le hij with rfl | hij
          · cases v <;> simpa using hv
          · exact hbefore j hij hlt

theorem find_spec (v : Bool) {i : ℕ} (hi : i ≤ N) :
    i ≤ find f N v i ∧ find f N v i ≤ N ∧ (find f N v i < N → f (find f N v i) = v) ∧
      ∀ j, i ≤ j → j < find f N v i → f j = !v := by
  obtain ⟨hle, hend, hval, hbefore⟩ := scan_spec (f := f) v (N - i) i
  refine ⟨hle, ?_, ?_, hbefore⟩
  · unfold find
    omega
  · intro hlt
    apply hval
    unfold find at hlt
    omega

structure IsRun (f : ℕ → Bool) (N start : ℕ) (r : ℕ × ℕ) : Prop where
  start_le : start ≤ r.1
  lt : r.1 < r.2
  le : r.2 ≤ N
  set : ∀ i, r.1 ≤ i → i < r.2 → f i = true
  before : ∀ i, start ≤ i → i < r.1 → f i = false
  behind : r.2 < N → f r.2 = false

theorem firstRun_spec {start : ℕ} (hstart : start ≤ N) :
    IsRun f N start (firstRun f N start) ∨
      firstRun f N start = (N, N) ∧ ∀ i, start ≤ i → i < N → f i = false := by
  unfold firstRun
  split
  · next hle => exact .inr ⟨rfl, fun i hi hlt => absurd (Nat.le_trans hle hi) (Nat.not_le.2 hlt)⟩
  · obtain ⟨hle, hend, hval, hbefore⟩ := find_spec (f := f) true hstart
    obtain ⟨hle', hend', hval', hbefore'⟩ := find_spec (f := f) false hend
    rcases Nat.eq_or_lt_of_le hend with heq | hlt
    · right
      have heq' : find f N false (find f N true start) = N := by omega
      rw [heq', heq]
      refine ⟨rfl, fun i hi hlt => ?_⟩
      exact hbefore i hi (by omega)
    · left
      have hset := hval hlt
      refine ⟨hle, ?_, hend', fun i hi hlt => hbefore' i hi hlt, hbefore, hval'⟩
      apply Nat.lt_of_le_of_ne hle'
      intro heq
      have hclear := hval' (heq ▸ hlt)
      rw [← heq, hset] at hclear
      cases hclear

theorem runsFrom_spec {n start : ℕ} (hstart : start ≤ N) (hn : N ≤ start + n) :
    (∀ r ∈ runsFrom f N n start, start ≤ r.1 ∧ r.1 < r.2 ∧ r.2 ≤ N ∧
        ∀ i, r.1 ≤ i → i < r.2 → f i = true) ∧
      (runsFrom f N n start).Pairwise (fun r r' => r.2 < r'.1) ∧
      ∀ i, start ≤ i → i < N → f i = true → ∃ r ∈ runsFrom f N n start, r.1 ≤ i ∧ i < r.2 := by
  induction n generalizing start with
  | zero =>
      refine ⟨fun r hr => absurd hr List.not_mem_nil, List.Pairwise.nil, fun i hi hlt => ?_⟩
      omega
  | succ n ih =>
      unfold runsFrom
      rcases firstRun_spec (f := f) hstart with hrun | ⟨hnone, hclear⟩
      · have hlt := hrun.lt
        have hle := hrun.le
        have hge := hrun.start_le
        have hne : firstRun f N start ≠ (N, N) := by
          intro heq
          rw [heq] at hlt
          exact Nat.lt_irrefl N hlt
        simp only [if_neg hne]
        obtain ⟨hall, hsorted, hcover⟩ := ih hle (by omega)
        refine ⟨?_, List.pairwise_cons.2 ⟨?_, hsorted⟩, ?_⟩
        · intro r hr
          rcases List.mem_cons.1 hr with rfl | hr
          · exact ⟨hge, hlt, hle, hrun.set⟩
          · obtain ⟨h₁, h₂, h₃, h₄⟩ := hall r hr
            exact ⟨by omega, h₂, h₃, h₄⟩
        · intro r hr
          obtain ⟨h₁, h₂, h₃, h₄⟩ := hall r hr
          apply Nat.lt_of_le_of_ne h₁
          intro heq
          have hset := h₄ r.1 (Nat.le_refl _) h₂
          rw [← heq, hrun.behind (by omega)] at hset
          cases hset
        · intro i hi hiN hset
          by_cases hin : i < (firstRun f N start).2
          · refine ⟨_, List.mem_cons_self, ?_, hin⟩
            by_contra hbefore
            rw [hrun.before i hi (Nat.not_le.1 hbefore)] at hset
            cases hset
          · obtain ⟨r, hr, hir⟩ := hcover i (Nat.not_lt.1 hin) hiN hset
            exact ⟨r, List.mem_cons_of_mem _ hr, hir⟩
      · simp only [if_pos hnone]
        refine ⟨fun r hr => absurd hr List.not_mem_nil, List.Pairwise.nil, ?_⟩
        intro i hi hlt hset
        rw [hclear i hi hlt] at hset
        cases hset

theorem mem_runs {r : ℕ × ℕ} (hr : r ∈ runs f N) :
    r.1 < r.2 ∧ r.2 ≤ N ∧ ∀ i, r.1 ≤ i → i < r.2 → f i = true :=
  ((runsFrom_spec (Nat.zero_le N) (by omega)).1 r hr).2

theorem runs_pairwise : (runs f N).Pairwise fun r r' => r.2 < r'.1 :=
  (runsFrom_spec (Nat.zero_le N) (by omega)).2.1

theorem exists_run {i : ℕ} (hi : i < N) (hset : f i = true) :
    ∃ r ∈ runs f N, r.1 ≤ i ∧ i < r.2 :=
  (runsFrom_spec (Nat.zero_le N) (by omega)).2.2 i (Nat.zero_le i) hi hset

theorem findLast_spec (v : Bool) (n : ℕ) :
    findLast f v n ≤ n ∧ (∀ i, findLast f v n ≤ i → i < n → f i = !v) ∧
      (0 < findLast f v n → f (findLast f v n - 1) = v) := by
  induction n with
  | zero =>
      exact ⟨Nat.le_refl 0, fun i _ h => absurd h (Nat.not_lt_zero i),
        fun h => absurd h (Nat.lt_irrefl 0)⟩
  | succ n ih =>
      obtain ⟨hle, hbehind, hval⟩ := ih
      unfold findLast
      split
      · next hv =>
          refine ⟨Nat.le_refl _, fun i hi hlt => by omega, fun _ => hv⟩
      · next hv =>
          refine ⟨by omega, fun i hi hlt => ?_, hval⟩
          rcases Nat.lt_succ_iff_lt_or_eq.1 hlt with hlt | rfl
          · exact hbehind i hi hlt
          · cases v <;> simpa using hv

theorem find_eq {v : Bool} {i k : ℕ} (hi : i ≤ k) (hk : k ≤ N) (hval : k < N → f k = v)
    (hbefore : ∀ j, i ≤ j → j < k → f j = !v) : find f N v i = k := by
  obtain ⟨hle, hend, hval', hbefore'⟩ := find_spec (f := f) v (Nat.le_trans hi hk)
  rcases Nat.lt_trichotomy (find f N v i) k with hlt | heq | hlt
  · have h := hbefore _ hle hlt
    rw [hval' (Nat.lt_of_lt_of_le hlt hk)] at h
    cases v <;> cases h
  · exact heq
  · have h := hbefore' k hi hlt
    rw [hval (Nat.lt_of_lt_of_le hlt hend)] at h
    cases v <;> cases h

theorem findLast_eq {v : Bool} {n k : ℕ} (hk : k ≤ n) (hbehind : ∀ i, k ≤ i → i < n → f i = !v)
    (hval : 0 < k → f (k - 1) = v) : findLast f v n = k := by
  obtain ⟨hle, hbehind', hval'⟩ := findLast_spec (f := f) v n
  rcases Nat.lt_trichotomy (findLast f v n) k with hlt | heq | hlt
  · have h := hbehind' (k - 1) (by omega) (by omega)
    rw [hval (by omega)] at h
    cases v <;> cases h
  · exact heq
  · have h := hbehind (findLast f v n - 1) (by omega) (by omega)
    rw [hval' (by omega)] at h
    cases v <;> cases h

theorem find_skip {v : Bool} {i k : ℕ} (hi : i ≤ k) (hk : k ≤ N)
    (hbefore : ∀ j, i ≤ j → j < k → f j = !v) : find f N v i = find f N v k := by
  obtain ⟨hle, hend, hval, hbefore'⟩ := find_spec (f := f) v hk
  refine find_eq (Nat.le_trans hi hle) hend hval fun j hj hlt => ?_
  by_cases hjk : j < k
  · exact hbefore j hj hjk
  · exact hbefore' j (Nat.not_lt.1 hjk) hlt

theorem findLast_skip {v : Bool} {n k : ℕ} (hk : k ≤ n)
    (hbehind : ∀ i, k ≤ i → i < n → f i = !v) : findLast f v n = findLast f v k := by
  obtain ⟨hle, hbehind', hval⟩ := findLast_spec (f := f) v k
  refine findLast_eq (Nat.le_trans hle hk) (fun i hi hlt => ?_) hval
  by_cases hik : i < k
  · exact hbehind' i hi hik
  · exact hbehind i (Nat.not_lt.1 hik) hlt

theorem find_self (v : Bool) : find f N v N = N :=
  find_eq (Nat.le_refl N) (Nat.le_refl N) (fun h => absurd h (Nat.lt_irrefl N))
    fun _ h h' => absurd (Nat.lt_of_le_of_lt h h') (Nat.lt_irrefl N)

/-! ### Maximal runs -/

/-- A run that does not go on at either end. -/
structure IsMaximal (f : ℕ → Bool) (N : ℕ) (r : ℕ × ℕ) : Prop where
  lt : r.1 < r.2
  le : r.2 ≤ N
  set : ∀ i, r.1 ≤ i → i < r.2 → f i = true
  before : r.1 = 0 ∨ f (r.1 - 1) = false
  behind : r.2 = N ∨ f r.2 = false

theorem runs_apart {r r' : ℕ × ℕ} (hr : r ∈ runs f N) (hr' : r' ∈ runs f N) (hne : r ≠ r') :
    r.2 < r'.1 ∨ r'.2 < r.1 := by
  have hpair : (runs f N).Pairwise fun r r' => r.2 < r'.1 ∨ r'.2 < r.1 :=
    runs_pairwise.imp .inl
  have : Std.Symm fun r r' : ℕ × ℕ => r.2 < r'.1 ∨ r'.2 < r.1 := ⟨fun _ _ => Or.symm⟩
  exact hpair.forall hr hr' hne

theorem isMaximal_of_mem {r : ℕ × ℕ} (hr : r ∈ runs f N) : IsMaximal f N r := by
  obtain ⟨hlt, hle, hset⟩ := mem_runs hr
  -- a set bit next to the run would lie in a run that is apart from it
  have hnext : ∀ i, i < N → (i + 1 = r.1 ∨ i = r.2) → f i = false := by
    intro i hi hor
    by_contra hbit
    obtain ⟨r', hr', h₁, h₂⟩ := exists_run hi (by simpa using hbit)
    have hne : r ≠ r' := by
      rintro rfl
      omega
    rcases runs_apart hr hr' hne with h | h <;> omega
  refine ⟨hlt, hle, hset, ?_, ?_⟩
  · by_cases hzero : r.1 = 0
    · exact .inl hzero
    · exact .inr (hnext (r.1 - 1) (by omega) (.inl (by omega)))
  · by_cases hend : r.2 = N
    · exact .inl hend
    · exact .inr (hnext r.2 (by omega) (.inr rfl))

theorem mem_runs_iff {r : ℕ × ℕ} : r ∈ runs f N ↔ IsMaximal f N r := by
  refine ⟨isMaximal_of_mem, fun h => ?_⟩
  obtain ⟨r', hr', h₁, h₂⟩ := exists_run (Nat.lt_of_lt_of_le h.lt h.le)
    (h.set r.1 (Nat.le_refl _) h.lt)
  have h' := isMaximal_of_mem hr'
  have hstart : r'.1 = r.1 := by
    by_contra hne
    rcases h.before with hzero | hclear
    · omega
    · rw [h'.set _ (by omega) (by omega)] at hclear
      cases hclear
  have hend : r'.2 = r.2 := by
    rcases Nat.lt_trichotomy r'.2 r.2 with hlt | heq | hlt
    · rcases h'.behind with hN | hclear
      · have := h.le
        omega
      · rw [h.set _ (by omega) hlt] at hclear
        cases hclear
    · exact heq
    · rcases h.behind with hN | hclear
      · have := h'.le
        omega
      · rw [h'.set _ (by have := h.lt; omega) hlt] at hclear
        cases hclear
  have heq : r' = r := Prod.ext hstart hend
  exact heq ▸ hr'

def IsLast (f : ℕ → Bool) (n : ℕ) (r : ℕ × ℕ) : Prop :=
  (IsMaximal f n r ∧ ∀ i, r.2 ≤ i → i < n → f i = false) ∨ r = (0, 0) ∧ ∀ i < n, f i = false

theorem isLast_iff {n : ℕ} {r : ℕ × ℕ} : IsLast f n r ↔ r = lastRun f n := by
  obtain ⟨hle, hbehind, hval⟩ := findLast_spec (f := f) true n
  obtain ⟨hle', hset, hclear⟩ := findLast_spec (f := f) false (findLast f true n)
  constructor
  · rintro (⟨hmax, hout⟩ | ⟨rfl, hout⟩)
    · have hend : findLast f true n = r.2 := findLast_eq hmax.le hout
        fun hpos => hmax.set _ (by have := hmax.lt; omega) (by omega)
      have hstart : findLast f false r.2 = r.1 :=
        findLast_eq (Nat.le_of_lt hmax.lt) hmax.set fun hpos =>
          hmax.before.resolve_left (Nat.ne_of_gt hpos)
      rw [lastRun, hend, hstart]
    · have hend : findLast f true n = 0 :=
        findLast_eq (Nat.zero_le n) (fun i _ hi => hout i hi) fun h => absurd h (Nat.lt_irrefl 0)
      rw [lastRun, hend]
      rfl
  · rintro rfl
    rcases Nat.eq_zero_or_pos (findLast f true n) with hzero | hpos
    · right
      rw [lastRun, hzero]
      exact ⟨rfl, fun i hi => hbehind i (by omega) hi⟩
    · left
      have hbit := hval hpos
      refine ⟨⟨?_, hle, hset, ?_, ?_⟩, hbehind⟩
      · refine Nat.lt_of_le_of_ne hle' fun heq => ?_
        have heq' : findLast f false (findLast f true n) = findLast f true n := heq
        have h := hclear (by omega)
        rw [heq', hbit] at h
        cases h
      · rcases Nat.eq_zero_or_pos (findLast f false (findLast f true n)) with h | h
        · exact .inl h
        · exact .inr (hclear h)
      · rcases Nat.eq_or_lt_of_le hle with h | h
        · exact .inl h
        · exact .inr (hbehind _ (Nat.le_refl _) h)

end Runs
