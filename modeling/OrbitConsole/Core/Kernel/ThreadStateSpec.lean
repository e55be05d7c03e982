import Mathlib.Data.List.Nodup
import Mathlib.Data.Set.Card
import Mathlib.Tactic.Linarith
import Mathlib.Tactic.Ring
import OrbitConsole.Core.Kernel.ThreadState

/-!
# Collecting threads over all runs

The count of references is the number of calls that hold one, and one more as
long as the thread runs. A thread off the list of threads is dead, detached and
not referenced; so only calls that are done with it but for a last step can
still come to it, and these are what has to be over when it is freed.
-/

namespace OrbitConsole.Kernel

namespace Reclaim

open Transition

variable {s s' : ThreadState} {k td gen : ℕ} {p : Pthread} {op : GcOp}

namespace GcOp

/-- The call holds a reference. -/
def Holds (td : ℕ) : GcOp → Prop
  | .holding td' _ | .collecting td' _ _ => td' = td
  | _ => False

theorem holds_holding : (holding td gen).Holds td := rfl

theorem holds_collecting {exits : Bool} : (collecting td gen exits).Holds td := rfl

theorem not_holds_idle : ¬ idle.Holds td := id

theorem not_holds_unlocking {exits : Bool} : ¬ (unlocking td gen exits).Holds td := id

instance : (op : GcOp) → Decidable (op.Holds td)
  | .holding td' _ | .collecting td' _ _ => inferInstanceAs (Decidable (td' = td))
  | .idle | .joining _ _ | .joined _ _ | .unlocking _ _ _ | .storing _ _ | .notifying _ _
  | .leaving _ _ | .gathering | .freeing _ => inferInstanceAs (Decidable False)

/-- The call is in `JoinThread`. -/
def Joins (td : ℕ) : GcOp → Prop
  | .joining td' _ | .joined td' _ => td' = td
  | _ => False

/-- The call has only its last steps on the thread to take. -/
def Finishing (td : ℕ) : GcOp → Prop
  | .unlocking td' _ _ | .storing td' _ | .notifying td' _ | .leaving td' _ => td' = td
  | _ => False

theorem Holds.target (h : op.Holds td) : ∃ gen, op.target = some (td, gen) := by
  cases op with
  | holding td' gen =>
      cases h
      exact ⟨gen, rfl⟩
  | collecting td' gen exits =>
      cases h
      exact ⟨gen, rfl⟩
  | _ => cases h

theorem Joins.target (h : op.Joins td) : ∃ gen, op.target = some (td, gen) := by
  cases op with
  | joining td' gen =>
      cases h
      exact ⟨gen, rfl⟩
  | joined td' gen =>
      cases h
      exact ⟨gen, rfl⟩
  | _ => cases h

theorem cases_of_target (h : op.target = some (td, gen)) :
    op.Holds td ∨ op.Joins td ∨ op.Finishing td := by
  cases op with
  | idle => cases h
  | gathering => cases h
  | freeing workList => cases h
  | joining td' gen' => cases h; exact .inr (.inl rfl)
  | joined td' gen' => cases h; exact .inr (.inl rfl)
  | holding td' gen' => cases h; exact .inl rfl
  | collecting td' gen' exits => cases h; exact .inl rfl
  | unlocking td' gen' exits => cases h; exact .inr (.inr rfl)
  | storing td' gen' => cases h; exact .inr (.inr rfl)
  | notifying td' gen' => cases h; exact .inr (.inr rfl)
  | leaving td' gen' => cases h; exact .inr (.inr rfl)

end GcOp

/-- The calls that hold a reference. -/
def ThreadState.holders (s : ThreadState) (td : ℕ) : Set ℕ := { k | (s.op k).Holds td }

/-- The reference a thread has to itself as long as it runs. -/
def Pthread.own (p : Pthread) : ℤ := if p.dead then 0 else 1

structure GcInv (s : ThreadState) : Prop where
  target : ∀ k td gen, (s.op k).target = some (td, gen) →
    (s.thread td).live = true ∧ (s.thread td).gen = gen
  finite : ∀ td, (s.holders td).Finite
  refs : ∀ td, (s.thread td).live = true →
    (s.thread td).refcount = (s.holders td).ncard + (s.thread td).own
  joins : ∀ k td, (s.op k).Joins td →
    (s.thread td).detached = false ∧ (s.thread td).joiner = some k
  linked : ∀ td, s.linked td = true → (s.thread td).live = true
  gone : ∀ td, (s.thread td).live = true → s.linked td = false →
    (s.thread td).dead = true ∧ (s.thread td).detached = true ∧ (s.thread td).refcount = 0
  gc : ∀ td ∈ s.gcList, (s.thread td).live = true ∧ s.linked td = false
  gc_nodup : s.gcList.Nodup
  work : ∀ k, ∀ td ∈ (s.op k).workList,
    (s.thread td).live = true ∧ s.linked td = false ∧ td ∉ s.gcList
  work_nodup : ∀ k, (s.op k).workList.Nodup
  work_unique : ∀ k k' td, td ∈ (s.op k).workList → td ∈ (s.op k').workList → k = k'
  fault : s.fault = false

theorem GcInv.init : GcInv .init where
  target _ _ _ h := by cases h
  finite _ := Set.finite_empty
  refs _ h := by cases h
  joins _ _ h := by cases h
  linked _ h := by cases h
  gone _ h := by cases h
  gc _ h := absurd h List.not_mem_nil
  gc_nodup := List.nodup_nil
  work _ _ h := absurd h List.not_mem_nil
  work_nodup _ := List.nodup_nil
  work_unique _ _ _ h := absurd h List.not_mem_nil
  fault := rfl

/-! ### Who can still come to a thread -/

theorem GcInv.linked_of_holds (h : GcInv s) (hk : (s.op k).Holds td) : s.linked td = true := by
  obtain ⟨gen, htarget⟩ := hk.target
  have hlive := (h.target k td gen htarget).1
  by_contra hnot
  obtain ⟨hdead, -, hzero⟩ := h.gone td hlive (Bool.eq_false_iff.2 hnot)
  have hrefs := h.refs td hlive
  rw [hzero, Pthread.own, if_pos hdead, add_zero] at hrefs
  have hempty := (Set.ncard_eq_zero (h.finite td)).1 (by exact_mod_cast hrefs.symm)
  exact Set.eq_empty_iff_forall_notMem.1 hempty k hk

theorem GcInv.linked_of_joins (h : GcInv s) (hk : (s.op k).Joins td) : s.linked td = true := by
  obtain ⟨gen, htarget⟩ := hk.target
  by_contra hnot
  have hdetached := (h.gone td (h.target k td gen htarget).1 (Bool.eq_false_iff.2 hnot)).2.1
  rw [(h.joins k td hk).1] at hdetached
  cases hdetached

theorem GcInv.finishing (h : GcInv s) (hlinked : s.linked td = false)
    (htarget : (s.op k).target = some (td, gen)) : (s.op k).Finishing td := by
  rcases GcOp.cases_of_target htarget with hk | hk | hk
  · exact absurd (h.linked_of_holds hk) (by simp [hlinked])
  · exact absurd (h.linked_of_joins hk) (by simp [hlinked])
  · exact hk

/-! ### A step of one call on its thread -/

theorem ThreadState.set_thread (s : ThreadState) :
    (s.set k op td p).thread = Function.update s.thread td p := rfl

theorem ThreadState.set_op (s : ThreadState) :
    (s.set k op td p).op = Function.update s.op k op := rfl

theorem ThreadState.holders_set (s : ThreadState) (k : ℕ) (op : GcOp) (td : ℕ) (p : Pthread)
    (t : ℕ) : (s.set k op td p).holders t =
      { j | j = k ∧ op.Holds t ∨ j ≠ k ∧ (s.op j).Holds t } := by
  ext j
  change (Function.update s.op k op j).Holds t ↔ _
  rcases eq_or_ne j k with rfl | hne
  · rw [Function.update_self]
    simp
  · rw [Function.update_of_ne hne]
    simp [hne]

theorem GcInv.ncard_set (h : GcInv s) (k : ℕ) (op : GcOp) (td : ℕ) (p : Pthread)
    (t : ℕ) :
    ((s.set k op td p).holders t).Finite ∧
      (((s.set k op td p).holders t).ncard : ℤ) + (if (s.op k).Holds t then 1 else 0) =
        (s.holders t).ncard + if op.Holds t then 1 else 0 := by
  have hrest : ({ j | j ≠ k ∧ (s.op j).Holds t } : Set ℕ) = s.holders t \ {k} := by
    ext j
    simp [ThreadState.holders, and_comm]
  have hfinite : (s.holders t \ {k}).Finite := (h.finite t).sdiff
  have hout : k ∉ s.holders t \ {k} := fun hk => hk.2 rfl
  -- the count before, by whether the call held a reference
  have hbefore : ((s.holders t).ncard : ℤ) =
      (s.holders t \ {k}).ncard + if (s.op k).Holds t then 1 else 0 := by
    split
    · next hk =>
        have hk : k ∈ s.holders t := hk
        exact_mod_cast (Set.ncard_sdiff_singleton_add_one hk (h.finite t)).symm
    · next hk =>
        have hk : k ∉ s.holders t := hk
        rw [Set.sdiff_singleton_eq_self hk, add_zero]
  by_cases hop : op.Holds t
  · have hafter : (s.set k op td p).holders t = insert k (s.holders t \ {k}) := by
      rw [s.holders_set, ← hrest]
      ext j
      simp [hop]
    rw [hafter, Set.ncard_insert_of_notMem hout hfinite, if_pos hop, hbefore]
    exact ⟨hfinite.insert k, by push_cast; ring⟩
  · have hafter : (s.set k op td p).holders t = s.holders t \ {k} := by
      rw [s.holders_set, ← hrest]
      ext j
      simp [hop]
    rw [hafter, if_neg hop, hbefore]
    exact ⟨hfinite, by ring⟩

theorem GcInv.update (h : GcInv s) (hlive : (s.thread td).live = true)
    (hplive : p.live = true) (hgen : p.gen = (s.thread td).gen)
    (hbefore : ∀ t gen, (s.op k).target = some (t, gen) → t = td)
    (hafter : ∀ t gen, op.target = some (t, gen) → t = td ∧ gen = p.gen)
    (hrefs : p.refcount - p.own - (if op.Holds td then 1 else 0) =
      (s.thread td).refcount - (s.thread td).own - if (s.op k).Holds td then 1 else 0)
    (hjoins : op.Joins td → p.detached = false ∧ p.joiner = some k)
    (hothers : ∀ j, j ≠ k → (s.op j).Joins td → p.detached = false ∧ p.joiner = some j)
    (hgone : s.linked td = false → p.dead = true ∧ p.detached = true ∧ p.refcount = 0)
    (hwork : (s.op k).workList = []) (hwork' : op.workList = []) :
    GcInv (s.set k op td p) := by
  have hthread : ∀ t, t ≠ td → (s.set k op td p).thread t = s.thread t := by
    intro t hne
    rw [ThreadState.set_thread, Function.update_of_ne hne]
  have hself : (s.set k op td p).thread td = p := by
    rw [ThreadState.set_thread, Function.update_self]
  have hop : ∀ j, j ≠ k → (s.set k op td p).op j = s.op j := by
    intro j hne
    rw [ThreadState.set_op, Function.update_of_ne hne]
  have hopself : (s.set k op td p).op k = op := by
    rw [ThreadState.set_op, Function.update_self]
  have hlives : ∀ t, (s.thread t).live = true → ((s.set k op td p).thread t).live = true := by
    intro t ht
    rcases eq_or_ne t td with rfl | hne
    · rw [hself, hplive]
    · rw [hthread t hne, ht]
  have hworks : ∀ j, ((s.set k op td p).op j).workList = (s.op j).workList := by
    intro j
    rcases eq_or_ne j k with rfl | hne
    · rw [hopself, hwork, hwork']
    · rw [hop j hne]
  constructor
  · intro j t gen ht
    rcases eq_or_ne j k with rfl | hne
    · rw [hopself] at ht
      obtain ⟨rfl, rfl⟩ := hafter t gen ht
      rw [hself]
      exact ⟨hplive, rfl⟩
    · rw [hop j hne] at ht
      obtain ⟨hlive, hgen'⟩ := h.target j t gen ht
      refine ⟨hlives t hlive, ?_⟩
      rcases eq_or_ne t td with rfl | hne'
      · rw [hself, hgen, hgen']
      · rw [hthread t hne', hgen']
  · exact fun t => (h.ncard_set k op td p t).1
  · intro t ht
    obtain ⟨-, hcard⟩ := h.ncard_set k op td p t
    rcases eq_or_ne t td with rfl | hne
    · rw [hself]
      have hold := h.refs t hlive
      linarith
    · rw [hthread t hne] at ht ⊢
      have hno : ¬ (s.op k).Holds t := fun hk => by
        obtain ⟨gen, htarget⟩ := hk.target
        exact hne (hbefore t gen htarget)
      have hno' : ¬ op.Holds t := fun hk => by
        obtain ⟨gen, htarget⟩ := hk.target
        exact hne (hafter t gen htarget).1
      rw [if_neg hno, if_neg hno', add_zero, add_zero] at hcard
      rw [hcard]
      exact h.refs t ht
  · intro j t hj
    rcases eq_or_ne j k with rfl | hne
    · rw [hopself] at hj
      obtain ⟨gen, htarget⟩ := hj.target
      obtain ⟨rfl, -⟩ := hafter t gen htarget
      rw [hself]
      exact hjoins hj
    · rw [hop j hne] at hj
      rcases eq_or_ne t td with rfl | hne'
      · rw [hself]
        exact hothers j hne hj
      · rw [hthread t hne']
        exact h.joins j t hj
  · exact fun t ht => hlives t (h.linked t ht)
  · intro t ht hlinked
    rcases eq_or_ne t td with rfl | hne
    · rw [hself]
      exact hgone hlinked
    · rw [hthread t hne] at ht ⊢
      exact h.gone t ht hlinked
  · exact fun t ht => ⟨hlives t (h.gc t ht).1, (h.gc t ht).2⟩
  · exact h.gc_nodup
  · intro j t ht
    rw [hworks] at ht
    obtain ⟨hlive, hrest⟩ := h.work j t ht
    exact ⟨hlives t hlive, hrest⟩
  · intro j
    rw [hworks]
    exact h.work_nodup j
  · intro j j' t hj hj'
    rw [hworks] at hj hj'
    exact h.work_unique j j' t hj hj'
  · exact h.fault

@[simp] theorem GcOp.not_holds_next {exits : Bool} {t : ℕ} :
    ¬ (GcOp.next td gen exits).Holds t := by
  unfold GcOp.next
  split <;> exact id

@[simp] theorem GcOp.not_joins_next {exits : Bool} {t : ℕ} :
    ¬ (GcOp.next td gen exits).Joins t := by
  unfold GcOp.next
  split <;> exact id

@[simp] theorem GcOp.workList_next {exits : Bool} : (GcOp.next td gen exits).workList = [] := by
  unfold GcOp.next
  split <;> rfl

theorem GcOp.target_next {exits : Bool} {t gen' : ℕ}
    (h : (GcOp.next td gen exits).target = some (t, gen')) : t = td ∧ gen' = gen := by
  unfold GcOp.next at h
  split at h
  · cases h
    exact ⟨rfl, rfl⟩
  · cases h

theorem GcInv.tryCollect (h : GcInv s) {exits : Bool} (hlinked : s.linked td = true)
    (hplive : p.live = true) (hgen : p.gen = (s.thread td).gen) (hgen' : gen = p.gen)
    (hbefore : ∀ t gen, (s.op k).target = some (t, gen) → t = td)
    (hrefs : p.refcount - p.own =
      (s.thread td).refcount - (s.thread td).own - if (s.op k).Holds td then 1 else 0)
    (hothers : ∀ j, j ≠ k → (s.op j).Joins td → p.detached = false ∧ p.joiner = some j)
    (hwork : (s.op k).workList = []) : GcInv (s.tryCollect k td gen exits p) := by
  unfold ThreadState.tryCollect Pthread.tryCollect
  split
  · next hcollect =>
      refine h.update (h.linked td hlinked) hplive hgen hbefore ?_ ?_ ?_ hothers ?_ hwork rfl
      · intro t gen' ht
        cases ht
        exact ⟨rfl, hgen'⟩
      · rw [if_pos GcOp.holds_collecting, ← hrefs]
        change p.refcount + 1 - p.own - 1 = _
        ring
      · exact fun hj => hj.elim
      · exact fun hnot => absurd (hlinked.symm.trans hnot) Bool.noConfusion
  · refine h.update (h.linked td hlinked) hplive hgen hbefore ?_ ?_ ?_ hothers ?_ hwork
      GcOp.workList_next
    · intro t gen'' ht
      obtain ⟨rfl, rfl⟩ := GcOp.target_next ht
      exact ⟨rfl, hgen'⟩
    · rw [if_neg GcOp.not_holds_next, sub_zero, hrefs]
    · exact fun hj => absurd hj GcOp.not_joins_next
    · exact fun hnot => absurd (hlinked.symm.trans hnot) Bool.noConfusion

/-! ### The steps -/

theorem GcInv.create (h : GcInv s) {detached : Bool} (hs : s.create td detached = some s') :
    GcInv s' := by
  unfold ThreadState.create at hs
  split at hs
  · cases hs
  next hfree =>
    cases hs
    have hfree : (s.thread td).live = false := Bool.eq_false_iff.2 hfree
    have hne : ∀ t, (s.thread t).live = true → t ≠ td := by
      rintro t ht rfl
      exact absurd (ht.symm.trans hfree) Bool.noConfusion
    have hthread : ∀ (p : Pthread) t, (s.thread t).live = true →
        Function.update s.thread td p t = s.thread t :=
      fun p t ht => Function.update_of_ne (hne t ht) p s.thread
    have hnone : ∀ k gen, (s.op k).target ≠ some (td, gen) :=
      fun k gen htarget => hne td (h.target k td gen htarget).1 rfl
    constructor
    · intro k t gen ht
      change (Function.update s.thread td _ t).live = true ∧
        (Function.update s.thread td _ t).gen = gen
      rw [hthread _ t (h.target k t gen ht).1]
      exact h.target k t gen ht
    · exact h.finite
    · intro t ht
      change (Function.update s.thread td _ t).refcount =
        (s.holders t).ncard + (Function.update s.thread td _ t).own
      rcases eq_or_ne t td with rfl | hnt
      · rw [Function.update_self]
        have hempty : s.holders t = ∅ := by
          rw [Set.eq_empty_iff_forall_notMem]
          intro k hk
          obtain ⟨gen, htarget⟩ := GcOp.Holds.target hk
          exact hnone k gen htarget
        rw [hempty, Set.ncard_empty]
        rfl
      · change (Function.update s.thread td _ t).live = true at ht
        rw [Function.update_of_ne hnt] at ht ⊢
        exact h.refs t ht
    · intro k t hk
      obtain ⟨gen, htarget⟩ := hk.target
      change (Function.update s.thread td _ t).detached = false ∧
        (Function.update s.thread td _ t).joiner = some k
      rw [hthread _ t (h.target k t gen htarget).1]
      exact h.joins k t hk
    · intro t ht
      change Function.update s.linked td true t = true at ht
      change (Function.update s.thread td _ t).live = true
      rcases eq_or_ne t td with rfl | hnt
      · rw [Function.update_self]
      · rw [Function.update_of_ne hnt] at ht
        have hlive := h.linked t ht
        rw [hthread _ t hlive]
        exact hlive
    · intro t ht hlinked
      change (Function.update s.thread td _ t).live = true at ht
      change Function.update s.linked td true t = false at hlinked
      rcases eq_or_ne t td with rfl | hnt
      · rw [Function.update_self] at hlinked
        cases hlinked
      · rw [Function.update_of_ne hnt] at ht hlinked
        change (Function.update s.thread td _ t).dead = true ∧
          (Function.update s.thread td _ t).detached = true ∧
          (Function.update s.thread td _ t).refcount = 0
        rw [hthread _ t ht]
        exact h.gone t ht hlinked
    · intro t ht
      obtain ⟨hlive, hlinked⟩ := h.gc t ht
      change (Function.update s.thread td _ t).live = true ∧
        Function.update s.linked td true t = false
      rw [hthread _ t hlive, Function.update_of_ne (hne t hlive)]
      exact ⟨hlive, hlinked⟩
    · exact h.gc_nodup
    · intro k t ht
      obtain ⟨hlive, hlinked, hout⟩ := h.work k t ht
      change (Function.update s.thread td _ t).live = true ∧
        Function.update s.linked td true t = false ∧ _
      rw [hthread _ t hlive, Function.update_of_ne (hne t hlive)]
      exact ⟨hlive, hlinked, hout⟩
    · exact h.work_nodup
    · exact h.work_unique
    · exact h.fault

theorem GcInv.idle_target (hk : s.op k = .idle) :
    ∀ t gen, (s.op k).target = some (t, gen) → t = td := by
  intro t gen ht
  rw [hk] at ht
  cases ht

theorem GcInv.join (h : GcInv s) (hs : s.join k td = some s') : GcInv s' := by
  unfold ThreadState.join at hs
  simp only at hs
  split at hs
  · cases hs
  next hidle =>
  have hidle : s.op k = .idle := not_not.1 hidle
  split at hs
  · cases hs
    exact h
  next hlinked =>
  split at hs
  · cases hs
  split at hs
  · cases hs
    exact h
  next hcan =>
    cases hs
    rw [not_or, not_not] at hcan
    have hlinked : s.linked td = true := by simpa using hlinked
    have hlive := h.linked td hlinked
    refine h.update hlive hlive rfl (GcInv.idle_target hidle) ?_ ?_ ?_ ?_ ?_
      (by rw [hidle]; rfl) rfl
    · intro t gen ht
      cases ht
      exact ⟨rfl, rfl⟩
    · rw [hidle]
      rfl
    · exact fun _ => ⟨Bool.eq_false_iff.2 hcan.1, rfl⟩
    · intro j _ hj
      exact absurd ((h.joins j td hj).2.symm.trans hcan.2) (Option.some_ne_none j)
    · exact fun hnot => absurd (hlinked.symm.trans hnot) Bool.noConfusion

theorem GcInv.access_eq (h : GcInv s) (hk : (s.op k).target = some (td, gen))
    (r : Option ThreadState) : s.access td gen r = r := by
  unfold ThreadState.access
  rw [if_pos (h.target k td gen hk)]

theorem GcInv.joinPoll (h : GcInv s) (hs : s.joinPoll k = some s') : GcInv s' := by
  unfold ThreadState.joinPoll at hs
  split at hs
  · next td gen hk =>
      have htarget : (s.op k).target = some (td, gen) := by rw [hk]; rfl
      rw [h.access_eq htarget] at hs
      split at hs
      · cases hs
        obtain ⟨hlive, hgen⟩ := h.target k td gen htarget
        have hjoins : (s.op k).Joins td := by rw [hk]; rfl
        have hlinked := h.linked_of_joins hjoins
        refine h.update hlive hlive rfl ?_ ?_ ?_ (fun _ => h.joins k td hjoins)
          (fun j _ hj => h.joins j td hj)
          (fun hnot => absurd (hlinked.symm.trans hnot) Bool.noConfusion) (by rw [hk]; rfl) rfl
        · intro t gen' ht
          rw [hk] at ht
          cases ht
          rfl
        · intro t gen' ht
          cases ht
          exact ⟨rfl, hgen.symm⟩
        · rw [hk]
          rfl
      · cases hs
        exact h
  · cases hs

theorem GcInv.joins_unique (h : GcInv s) {j : ℕ} (hk : (s.op k).Joins td)
    (hj : (s.op j).Joins td) : j = k :=
  Option.some.inj ((h.joins j td hj).2.symm.trans (h.joins k td hk).2)

theorem GcInv.joinEnd (h : GcInv s) (hs : s.joinEnd k = some s') : GcInv s' := by
  unfold ThreadState.joinEnd at hs
  split at hs
  · next td gen hk =>
      have htarget : (s.op k).target = some (td, gen) := by rw [hk]; rfl
      rw [h.access_eq htarget] at hs
      split at hs
      · cases hs
      · cases hs
        obtain ⟨hlive, hgen⟩ := h.target k td gen htarget
        have hjoins : (s.op k).Joins td := by rw [hk]; rfl
        have hlinked := h.linked_of_joins hjoins
        refine h.tryCollect hlinked hlive rfl hgen.symm ?_ ?_ ?_ (by rw [hk]; rfl)
        · intro t gen' ht
          rw [hk] at ht
          cases ht
          rfl
        · rw [hk]
          exact (sub_zero _).symm
        · exact fun j hne hj => absurd (h.joins_unique hjoins hj) hne
  · cases hs

theorem GcInv.detach (h : GcInv s) (hs : s.detach k td = some s') : GcInv s' := by
  unfold ThreadState.detach at hs
  simp only at hs
  split at hs
  · cases hs
  next hidle =>
  have hidle : s.op k = .idle := not_not.1 hidle
  split at hs
  · cases hs
    exact h
  next hlinked =>
  split at hs
  · cases hs
  split at hs
  · cases hs
    exact h
  next hcan =>
    cases hs
    rw [not_or, not_not] at hcan
    have hlinked : s.linked td = true := by simpa using hlinked
    refine h.tryCollect hlinked (h.linked td hlinked) rfl rfl (GcInv.idle_target hidle) ?_ ?_
      (by rw [hidle]; rfl)
    · rw [hidle]
      exact (sub_zero _).symm
    · intro j _ hj
      exact absurd ((h.joins j td hj).2.symm.trans hcan.2) (Option.some_ne_none j)

theorem GcInv.refAdd (h : GcInv s) {includeDead : Bool}
    (hs : s.refAdd k td includeDead = some s') : GcInv s' := by
  unfold ThreadState.refAdd at hs
  simp only at hs
  split at hs
  · cases hs
  next hidle =>
  have hidle : s.op k = .idle := not_not.1 hidle
  split at hs
  · cases hs
    exact h
  next hlinked =>
  split at hs
  · cases hs
  split at hs
  · cases hs
    exact h
  next =>
    cases hs
    have hlinked : s.linked td = true := by simpa using hlinked
    have hlive := h.linked td hlinked
    refine h.update hlive hlive rfl (GcInv.idle_target hidle) ?_ ?_ (fun hj => hj.elim)
      (fun j _ hj => h.joins j td hj)
      (fun hnot => absurd (hlinked.symm.trans hnot) Bool.noConfusion) (by rw [hidle]; rfl) rfl
    · intro t gen ht
      cases ht
      exact ⟨rfl, rfl⟩
    · rw [hidle, if_pos GcOp.holds_holding, if_neg GcOp.not_holds_idle]
      change (s.thread td).refcount + 1 - (s.thread td).own - 1 = _
      ring

theorem GcInv.refUse (h : GcInv s) (hs : s.refUse k = some s') : GcInv s' := by
  unfold ThreadState.refUse at hs
  split at hs
  · next td gen hk =>
      have htarget : (s.op k).target = some (td, gen) := by rw [hk]; rfl
      rw [h.access_eq htarget] at hs
      cases hs
      exact h
  · cases hs

theorem GcInv.refDelete (h : GcInv s) (hs : s.refDelete k = some s') : GcInv s' := by
  unfold ThreadState.refDelete at hs
  split at hs
  · next td gen hk =>
      have htarget : (s.op k).target = some (td, gen) := by rw [hk]; rfl
      rw [h.access_eq htarget] at hs
      split at hs
      · cases hs
      · cases hs
        obtain ⟨hlive, hgen⟩ := h.target k td gen htarget
        have hholds : (s.op k).Holds td := by rw [hk]; rfl
        refine h.tryCollect (h.linked_of_holds hholds) hlive rfl hgen.symm ?_ ?_
          (fun j _ hj => h.joins j td hj) (by rw [hk]; rfl)
        · intro t gen' ht
          rw [hk] at ht
          cases ht
          rfl
        · rw [if_pos hholds]
          change (s.thread td).refcount - 1 - (s.thread td).own = _
          ring
  · cases hs

theorem GcInv.exit (h : GcInv s) (hs : s.exit k td = some s') : GcInv s' := by
  unfold ThreadState.exit at hs
  simp only at hs
  split at hs
  · cases hs
  next hcan =>
    cases hs
    simp only [not_or, not_not] at hcan
    obtain ⟨hidle, hlive, hdead, -⟩ := hcan
    have hlive : (s.thread td).live = true := by simpa using hlive
    have hlinked : s.linked td = true := by
      by_contra hnot
      exact hdead (h.gone td hlive (Bool.eq_false_iff.2 hnot)).1
    refine h.tryCollect hlinked hlive rfl rfl (GcInv.idle_target hidle) ?_
      (fun j _ hj => h.joins j td hj) (by rw [hidle]; rfl)
    rw [hidle, if_neg GcOp.not_holds_idle]
    simp only [Pthread.own, if_true]
    rw [if_neg hdead]

theorem GcInv.push (h : GcInv s) (hlinked : s.linked td = true)
    (hdead : (s.thread td).dead = true) (hdetached : (s.thread td).detached = true)
    (hzero : (s.thread td).refcount = 0) :
    GcInv { s with
      linked := Function.update s.linked td false
      gcList := s.gcList ++ [td] } := by
  have hout : td ∉ s.gcList := fun hmem =>
    absurd (hlinked.symm.trans (h.gc td hmem).2) Bool.noConfusion
  have hkeep : ∀ t, s.linked t = false → Function.update s.linked td false t = false := by
    intro t ht
    rcases eq_or_ne t td with rfl | hne
    · rw [Function.update_self]
    · rw [Function.update_of_ne hne, ht]
  constructor
  · exact h.target
  · exact h.finite
  · exact h.refs
  · exact h.joins
  · intro t ht
    change Function.update s.linked td false t = true at ht
    rcases eq_or_ne t td with rfl | hne
    · rw [Function.update_self] at ht
      cases ht
    · rw [Function.update_of_ne hne] at ht
      exact h.linked t ht
  · intro t ht hnot
    change Function.update s.linked td false t = false at hnot
    rcases eq_or_ne t td with rfl | hne
    · exact ⟨hdead, hdetached, hzero⟩
    · rw [Function.update_of_ne hne] at hnot
      exact h.gone t ht hnot
  · intro t ht
    rcases List.mem_append.1 ht with ht | ht
    · exact ⟨(h.gc t ht).1, hkeep t (h.gc t ht).2⟩
    · obtain rfl := List.mem_singleton.1 ht
      exact ⟨h.linked t hlinked, Function.update_self t false s.linked⟩
  · exact h.gc_nodup.append (List.nodup_singleton td) (List.disjoint_singleton.2 hout)
  · intro k t ht
    obtain ⟨hlive, hnot, hgc⟩ := h.work k t ht
    refine ⟨hlive, hkeep t hnot, fun hmem => ?_⟩
    rcases List.mem_append.1 hmem with hmem | hmem
    · exact hgc hmem
    · obtain rfl := List.mem_singleton.1 hmem
      exact absurd (hlinked.symm.trans hnot) Bool.noConfusion
  · exact h.work_nodup
  · exact h.work_unique
  · exact h.fault

theorem Pthread.shouldCollect_iff :
    p.shouldCollect = true ↔ p.refcount = 0 ∧ p.dead = true ∧ p.detached = true := by
  unfold Pthread.shouldCollect
  rw [Bool.and_eq_true, Bool.and_eq_true, decide_eq_true_eq, and_assoc]

theorem GcInv.collect (h : GcInv s) (hs : s.collect k = some s') : GcInv s' := by
  unfold ThreadState.collect at hs
  split at hs
  · next td gen exits hk =>
      have htarget : (s.op k).target = some (td, gen) := by rw [hk]; rfl
      simp only at hs
      rw [h.access_eq htarget] at hs
      split at hs
      · cases hs
      obtain ⟨hlive, hgen⟩ := h.target k td gen htarget
      have hholds : (s.op k).Holds td := by rw [hk]; rfl
      have hlinked := h.linked_of_holds hholds
      have hset : GcInv (s.set k (.unlocking td gen exits) td
          { s.thread td with refcount := (s.thread td).refcount - 1, locked := true }) := by
        refine h.update hlive hlive rfl ?_ ?_ ?_ (fun hj => hj.elim)
          (fun j _ hj => h.joins j td hj)
          (fun hnot => absurd (hlinked.symm.trans hnot) Bool.noConfusion) (by rw [hk]; rfl) rfl
        · intro t gen' ht
          rw [hk] at ht
          cases ht
          rfl
        · intro t gen' ht
          cases ht
          exact ⟨rfl, hgen.symm⟩
        · rw [if_pos hholds, if_neg GcOp.not_holds_unlocking]
          change (s.thread td).refcount - 1 - (s.thread td).own - 0 = _
          ring
      split at hs
      · next hcollect =>
          cases hs
          obtain ⟨hzero, hdead, hdetached⟩ := Pthread.shouldCollect_iff.1 hcollect
          have hthread : ∀ q : Pthread,
              (s.set k (.unlocking td gen exits) td q).thread td = q := by
            intro q
            rw [ThreadState.set_thread, Function.update_self]
          refine hset.push hlinked ?_ ?_ ?_
          · rw [hthread]
            exact hdead
          · rw [hthread]
            exact hdetached
          · rw [hthread]
            exact hzero
      · cases hs
        exact hset
  · cases hs

theorem GcInv.finish (h : GcInv s) (hk : (s.op k).Finishing td)
    (htarget : (s.op k).target = some (td, gen)) (hplive : p.live = true)
    (hgen : p.gen = (s.thread td).gen) (hrefcount : p.refcount = (s.thread td).refcount)
    (hdead : p.dead = (s.thread td).dead) (hdetached : p.detached = (s.thread td).detached)
    (hjoiner : p.joiner = (s.thread td).joiner)
    (hafter : ∀ t gen, op.target = some (t, gen) → t = td ∧ gen = p.gen)
    (hholds : ¬ op.Holds td) (hjoins : ¬ op.Joins td) (hwork : op.workList = []) :
    GcInv (s.set k op td p) := by
  have hcall : ∀ o : GcOp, o.Finishing td → (∀ t gen, o.target = some (t, gen) → t = td) ∧
      ¬ o.Holds td ∧ o.workList = [] := by
    intro o ho
    cases o with
    | unlocking td' gen exits =>
        cases ho
        exact ⟨fun t gen ht => by cases ht; rfl, id, rfl⟩
    | storing td' gen =>
        cases ho
        exact ⟨fun t gen ht => by cases ht; rfl, id, rfl⟩
    | notifying td' gen =>
        cases ho
        exact ⟨fun t gen ht => by cases ht; rfl, id, rfl⟩
    | leaving td' gen =>
        cases ho
        exact ⟨fun t gen ht => by cases ht; rfl, id, rfl⟩
    | _ => cases ho
  obtain ⟨hbefore, hnot, hempty⟩ := hcall _ hk
  have hlive := (h.target k td gen htarget).1
  refine h.update hlive hplive hgen hbefore hafter ?_ (fun hj => absurd hj hjoins) ?_ ?_ hempty
    hwork
  · rw [if_neg hholds, if_neg hnot, hrefcount, Pthread.own, hdead]
    rfl
  · intro j _ hj
    rw [hdetached, hjoiner]
    exact h.joins j td hj
  · intro hlinked
    rw [hdead, hdetached, hrefcount]
    exact h.gone td hlive hlinked

theorem GcInv.unlock (h : GcInv s) (hs : s.unlock k = some s') : GcInv s' := by
  unfold ThreadState.unlock at hs
  split at hs
  · next td gen exits hk =>
      have htarget : (s.op k).target = some (td, gen) := by rw [hk]; rfl
      rw [h.access_eq htarget] at hs
      cases hs
      obtain ⟨hlive, hgen⟩ := h.target k td gen htarget
      refine h.finish (by rw [hk]; rfl) htarget hlive rfl rfl rfl rfl rfl ?_
        GcOp.not_holds_next GcOp.not_joins_next GcOp.workList_next
      intro t gen' ht
      obtain ⟨rfl, rfl⟩ := GcOp.target_next ht
      exact ⟨rfl, hgen.symm⟩
  · cases hs

theorem GcInv.exitStep (h : GcInv s) (hs : s.exitStep k = some s') : GcInv s' := by
  unfold ThreadState.exitStep at hs
  split at hs
  · next td gen hk =>
      have htarget : (s.op k).target = some (td, gen) := by rw [hk]; rfl
      rw [h.access_eq htarget] at hs
      cases hs
      obtain ⟨hlive, hgen⟩ := h.target k td gen htarget
      refine h.finish (by rw [hk]; rfl) htarget hlive rfl rfl rfl rfl rfl ?_ id id rfl
      intro t gen' ht
      cases ht
      exact ⟨rfl, hgen.symm⟩
  · next td gen hk =>
      have htarget : (s.op k).target = some (td, gen) := by rw [hk]; rfl
      rw [h.access_eq htarget] at hs
      cases hs
      obtain ⟨hlive, hgen⟩ := h.target k td gen htarget
      refine h.finish (by rw [hk]; rfl) htarget hlive rfl rfl rfl rfl rfl ?_ id id rfl
      intro t gen' ht
      cases ht
      exact ⟨rfl, hgen.symm⟩
  · next td gen hk =>
      have htarget : (s.op k).target = some (td, gen) := by rw [hk]; rfl
      rw [h.access_eq htarget] at hs
      cases hs
      obtain ⟨hlive, hgen⟩ := h.target k td gen htarget
      refine h.finish (by rw [hk]; rfl) htarget hlive rfl rfl rfl rfl rfl ?_ id id rfl
      intro t gen' ht
      cases ht
  · cases hs

/-! ### Calls that come to no thread -/

theorem ThreadState.target_update (hk : (s.op k).target = none) (hop : op.target = none) (j : ℕ) :
    (Function.update s.op k op j).target = (s.op j).target := by
  rcases eq_or_ne j k with rfl | hne
  · rw [Function.update_self, hk, hop]
  · rw [Function.update_of_ne hne]

theorem ThreadState.holders_update (hk : (s.op k).target = none) (hop : op.target = none)
    (t : ℕ) : { j | (Function.update s.op k op j).Holds t } = s.holders t := by
  have hnot : ∀ o : GcOp, o.target = none → ¬ o.Holds t := by
    intro o ho ht
    obtain ⟨gen, htarget⟩ := ht.target
    exact absurd (htarget.symm.trans ho) (Option.some_ne_none _)
  ext j
  change (Function.update s.op k op j).Holds t ↔ (s.op j).Holds t
  rcases eq_or_ne j k with rfl | hne
  · rw [Function.update_self]
    exact ⟨fun ht => absurd ht (hnot _ hop), fun ht => absurd ht (hnot _ hk)⟩
  · rw [Function.update_of_ne hne]

theorem ThreadState.joins_update (hop : op.target = none) {j t : ℕ}
    (hj : (Function.update s.op k op j).Joins t) : (s.op j).Joins t := by
  rcases eq_or_ne j k with rfl | hne
  · rw [Function.update_self] at hj
    obtain ⟨gen, htarget⟩ := hj.target
    exact absurd (htarget.symm.trans hop) (Option.some_ne_none _)
  · rwa [Function.update_of_ne hne] at hj

theorem GcInv.gather (h : GcInv s) (hs : s.gather k = some s') : GcInv s' := by
  unfold ThreadState.gather at hs
  split at hs
  · cases hs
  next hgathering =>
    have hidle : (s.op k).target = none := by
      rw [not_not.1 hgathering]
      rfl
    cases hs
    have hwork : ∀ j, j ≠ k → ∀ o : GcOp, (Function.update s.op k o j).workList =
        (s.op j).workList := by
      intro j hne o
      rw [Function.update_of_ne hne]
    constructor
    · intro j t gen ht
      exact h.target j t gen ((ThreadState.target_update hidle rfl j).symm.trans ht)
    · intro t
      exact (congrArg Set.Finite (ThreadState.holders_update hidle rfl t)).mpr (h.finite t)
    · intro t ht
      exact (h.refs t ht).trans (congrArg (fun S : Set ℕ => (S.ncard : ℤ) + (s.thread t).own)
        (ThreadState.holders_update hidle rfl t).symm)
    · exact fun j t hj => h.joins j t (ThreadState.joins_update rfl hj)
    · exact h.linked
    · exact h.gone
    · exact fun t ht => h.gc t (List.mem_of_mem_filter ht)
    · exact h.gc_nodup.filter _
    · intro j t ht
      change t ∈ (Function.update s.op k _ j).workList at ht
      rcases eq_or_ne j k with rfl | hne
      · rw [Function.update_self] at ht
        obtain ⟨hmem, hterm⟩ := List.mem_filter.1 ht
        obtain ⟨hlive, hlinked⟩ := h.gc t hmem
        refine ⟨hlive, hlinked, fun hmem' => ?_⟩
        have := (List.mem_filter.1 hmem').2
        rw [hterm] at this
        cases this
      · rw [hwork j hne] at ht
        obtain ⟨hlive, hlinked, hout⟩ := h.work j t ht
        exact ⟨hlive, hlinked, fun hmem => hout (List.mem_of_mem_filter hmem)⟩
    · intro j
      change (Function.update s.op k _ j).workList.Nodup
      rcases eq_or_ne j k with rfl | hne
      · rw [Function.update_self]
        exact h.gc_nodup.filter _
      · rw [hwork j hne]
        exact h.work_nodup j
    · intro j j' t hj hj'
      change t ∈ (Function.update s.op k _ j).workList at hj
      change t ∈ (Function.update s.op k _ j').workList at hj'
      rcases eq_or_ne j k with rfl | hne
      · rcases eq_or_ne j' j with rfl | hne'
        · rfl
        · rw [Function.update_self] at hj
          rw [hwork j' hne'] at hj'
          exact absurd (List.mem_of_mem_filter hj) (h.work j' t hj').2.2
      · rw [hwork j hne] at hj
        rcases eq_or_ne j' k with rfl | hne'
        · rw [Function.update_self] at hj'
          exact absurd (List.mem_of_mem_filter hj') (h.work j t hj).2.2
        · rw [hwork j' hne'] at hj'
          exact h.work_unique j j' t hj hj'
    · exact h.fault

theorem GcInv.rework (h : GcInv s) (hk : (s.op k).target = none) (hop : op.target = none)
    (hsub : op.workList.Sublist (s.op k).workList) :
    GcInv { s with op := Function.update s.op k op } := by
  have hwork : ∀ j, (Function.update s.op k op j).workList.Sublist (s.op j).workList := by
    intro j
    rcases eq_or_ne j k with rfl | hne
    · rw [Function.update_self]
      exact hsub
    · rw [Function.update_of_ne hne]
  constructor
  · intro j t gen ht
    exact h.target j t gen ((ThreadState.target_update hk hop j).symm.trans ht)
  · intro t
    exact (congrArg Set.Finite (ThreadState.holders_update hk hop t)).mpr (h.finite t)
  · intro t ht
    exact (h.refs t ht).trans (congrArg (fun S : Set ℕ => (S.ncard : ℤ) + (s.thread t).own)
      (ThreadState.holders_update hk hop t).symm)
  · exact fun j t hj => h.joins j t (ThreadState.joins_update hop hj)
  · exact h.linked
  · exact h.gone
  · exact h.gc
  · exact h.gc_nodup
  · exact fun j t ht => h.work j t ((hwork j).subset ht)
  · exact fun j => (h.work_nodup j).sublist (hwork j)
  · exact fun j j' t hj hj' => h.work_unique j j' t ((hwork j).subset hj) ((hwork j').subset hj')
  · exact h.fault

theorem GcInv.gcNeeded (h : GcInv s) (hs : s.gcNeeded k = some s') : GcInv s' := by
  unfold ThreadState.gcNeeded at hs
  split at hs
  · cases hs
  next hidle =>
    split at hs <;> cases hs
    · exact h.rework (by rw [not_not.1 hidle]; rfl) rfl (List.nil_sublist _)
    · exact h

theorem GcInv.kill (h : GcInv s) (hlinked : s.linked td = false) (hgc : td ∉ s.gcList)
    (hwork : ∀ j, td ∉ (s.op j).workList) (htarget : ∀ j gen, (s.op j).target ≠ some (td, gen))
    (hplive : p.live = false) :
    GcInv { s with thread := Function.update s.thread td p } := by
  have hthread : ∀ t, t ≠ td → Function.update s.thread td p t = s.thread t :=
    fun t hne => Function.update_of_ne hne p s.thread
  have hlive : ∀ t, (Function.update s.thread td p t).live = true →
      t ≠ td ∧ (s.thread t).live = true := by
    intro t ht
    rcases eq_or_ne t td with rfl | hne
    · rw [Function.update_self, hplive] at ht
      cases ht
    · rw [hthread t hne] at ht
      exact ⟨hne, ht⟩
  constructor
  · intro j t gen ht
    have hne : t ≠ td := by
      rintro rfl
      exact htarget j gen ht
    change (Function.update s.thread td p t).live = true ∧
      (Function.update s.thread td p t).gen = gen
    rw [hthread t hne]
    exact h.target j t gen ht
  · exact h.finite
  · intro t ht
    obtain ⟨hne, ht⟩ := hlive t ht
    change (Function.update s.thread td p t).refcount =
      (s.holders t).ncard + (Function.update s.thread td p t).own
    rw [hthread t hne]
    exact h.refs t ht
  · intro j t hj
    have hne : t ≠ td := by
      rintro rfl
      obtain ⟨gen, hj⟩ := hj.target
      exact htarget j gen hj
    change (Function.update s.thread td p t).detached = false ∧
      (Function.update s.thread td p t).joiner = some j
    rw [hthread t hne]
    exact h.joins j t hj
  · intro t ht
    have hne : t ≠ td := by
      rintro rfl
      exact absurd (ht.symm.trans hlinked) Bool.noConfusion
    change (Function.update s.thread td p t).live = true
    rw [hthread t hne]
    exact h.linked t ht
  · intro t ht hnot
    obtain ⟨hne, ht⟩ := hlive t ht
    change (Function.update s.thread td p t).dead = true ∧
      (Function.update s.thread td p t).detached = true ∧
      (Function.update s.thread td p t).refcount = 0
    rw [hthread t hne]
    exact h.gone t ht hnot
  · intro t ht
    have hne : t ≠ td := by
      rintro rfl
      exact hgc ht
    change (Function.update s.thread td p t).live = true ∧ _
    rw [hthread t hne]
    exact h.gc t ht
  · exact h.gc_nodup
  · intro j t ht
    have hne : t ≠ td := by
      rintro rfl
      exact hwork j ht
    change (Function.update s.thread td p t).live = true ∧ _
    rw [hthread t hne]
    exact h.work j t ht
  · exact h.work_nodup
  · exact h.work_unique
  · exact h.fault

/-- A thread that is freed is dead, detached and not referenced, and no call works on it. -/
structure Reclaimable (s : ThreadState) (td : ℕ) : Prop where
  live : (s.thread td).live = true
  dead : (s.thread td).dead = true
  detached : (s.thread td).detached = true
  refcount : (s.thread td).refcount = 0
  untargeted : ∀ j gen, (s.op j).target ≠ some (td, gen)

/-- When a thread is freed, no call has a last step to take on it: the `ExitThread` of the
thread is over, and no `TryCollect` is yet to give up its lock. -/
def GcAction.Settled (s : ThreadState) : GcAction → Prop
  | .free k => ∀ td rest, s.op k = .freeing (td :: rest) → ∀ j, ¬ (s.op j).Finishing td
  | _ => True

theorem GcInv.reclaimable (h : GcInv s) {rest : List ℕ} (hk : s.op k = .freeing (td :: rest))
    (hsettled : ∀ j, ¬ (s.op j).Finishing td) : Reclaimable s td := by
  have hmem : td ∈ (s.op k).workList := by
    rw [hk]
    exact List.mem_cons_self
  obtain ⟨hlive, hlinked, -⟩ := h.work k td hmem
  obtain ⟨hdead, hdetached, hzero⟩ := h.gone td hlive hlinked
  exact ⟨hlive, hdead, hdetached, hzero,
    fun j gen htarget => hsettled j (h.finishing hlinked htarget)⟩

theorem GcInv.free (h : GcInv s) (hsettled : (GcAction.free k).Settled s)
    (hs : s.free k = some s') : GcInv s' := by
  unfold ThreadState.free at hs
  split at hs
  · next hk =>
      cases hs
      exact h.rework (by rw [hk]; rfl) rfl (List.nil_sublist _)
  · next td rest hk =>
      cases hs
      have hreclaim := h.reclaimable hk (hsettled td rest hk)
      have hmem : td ∈ (s.op k).workList := by
        rw [hk]
        exact List.mem_cons_self
      obtain ⟨-, hlinked, hgc⟩ := h.work k td hmem
      have hnone : (s.op k).target = none := by
        rw [hk]
        rfl
      have hrest : GcInv { s with op := Function.update s.op k (.freeing rest) } := by
        apply h.rework hnone rfl
        rw [hk]
        exact List.sublist_cons_self td rest
      have hout : ∀ j, td ∉ (Function.update s.op k (.freeing rest) j).workList := by
        intro j hj
        rcases eq_or_ne j k with rfl | hne
        · rw [Function.update_self] at hj
          have hnodup := h.work_nodup j
          rw [hk] at hnodup
          exact (List.nodup_cons.1 hnodup).1 hj
        · rw [Function.update_of_ne hne] at hj
          exact hne (h.work_unique j k td hj hmem)
      have hkill := hrest.kill (p := { s.thread td with live := false }) hlinked hgc hout
        (fun j gen => by
          rw [ThreadState.target_update hnone rfl]
          exact hreclaim.untargeted j gen) rfl
      have hfault : (s.fault || !(s.thread td).live) = s.fault := by
        rw [hreclaim.live]
        exact Bool.or_false _
      rw [hfault]
      exact hkill
  · cases hs

/-- The references are counted right after every settled step. -/
theorem GcInv.step (h : GcInv s) {a : GcAction} (hsettled : a.Settled s)
    (hs : s.step a = some s') : GcInv s' := by
  cases a with
  | create td detached => exact h.create hs
  | join k td => exact h.join hs
  | joinPoll k => exact h.joinPoll hs
  | joinEnd k => exact h.joinEnd hs
  | detach k td => exact h.detach hs
  | refAdd k td includeDead => exact h.refAdd hs
  | refUse k => exact h.refUse hs
  | refDelete k => exact h.refDelete hs
  | exit k td => exact h.exit hs
  | collect k => exact h.collect hs
  | unlock k => exact h.unlock hs
  | exitStep k => exact h.exitStep hs
  | gcNeeded k => exact h.gcNeeded hs
  | gather k => exact h.gather hs
  | free k => exact h.free hsettled hs

/-! ### What the steps do to the lists -/

/-- The threads that are allocated stay so. -/
def Lives (s s' : ThreadState) : Prop :=
  ∀ t, (s.thread t).live = true → (s'.thread t).live = true

theorem Lives.refl (s : ThreadState) : Lives s s := fun _ ht => ht

theorem lives_set (hp : p.live = (s.thread td).live) : Lives s (s.set k op td p) := by
  intro t ht
  change (Function.update s.thread td p t).live = true
  rcases eq_or_ne t td with rfl | hne
  · rw [Function.update_self, hp, ht]
  · rw [Function.update_of_ne hne, ht]

inductive ListEffect (s s' : ThreadState) (a : GcAction) : Prop
  | keep (hlinked : s'.linked = s.linked) (hgc : ∀ t ∈ s'.gcList, t ∈ s.gcList)
      (hlives : Lives s s')
  | link (td : ℕ) (hdead : (s.thread td).live = false)
      (hlinked : s'.linked = Function.update s.linked td true) (hgc : s'.gcList = s.gcList)
      (hlives : Lives s s')
  | push (td : ℕ) (hin : s.linked td = true)
      (hlinked : s'.linked = Function.update s.linked td false)
      (hgc : s'.gcList = s.gcList ++ [td]) (hlives : Lives s s')
  | free (k td : ℕ) (rest : List ℕ) (ha : a = .free k) (hk : s.op k = .freeing (td :: rest))
      (hlinked : s'.linked = s.linked) (hgc : s'.gcList = s.gcList)
      (hlives : ∀ t, t ≠ td → (s.thread t).live = true → (s'.thread t).live = true)

theorem ListEffect.same {a : GcAction} : ListEffect s s a :=
  .keep rfl (fun _ ht => ht) (.refl s)

theorem ListEffect.set {a : GcAction} (hp : p.live = (s.thread td).live) :
    ListEffect s (s.set k op td p) a :=
  .keep rfl (fun _ ht => ht) (lives_set hp)

theorem ListEffect.tryCollect {a : GcAction} {exits : Bool} (hp : p.live = (s.thread td).live) :
    ListEffect s (s.tryCollect k td gen exits p) a := by
  apply ListEffect.set
  rw [← hp]
  unfold Pthread.tryCollect
  split <;> rfl

theorem GcInv.listEffect (h : GcInv s) {a : GcAction} (hs : s.step a = some s') :
    ListEffect s s' a := by
  cases a with
  | create td detached =>
      simp only [ThreadState.step, ThreadState.create] at hs
      split at hs
      · cases hs
      · next hfree =>
          cases hs
          refine .link td (Bool.eq_false_iff.2 hfree) rfl rfl fun t ht => ?_
          change (Function.update s.thread td _ t).live = true
          rcases eq_or_ne t td with rfl | hne
          · rw [Function.update_self]
          · rw [Function.update_of_ne hne, ht]
  | join k td =>
      simp only [ThreadState.step, ThreadState.join] at hs
      split at hs
      · cases hs
      split at hs
      · cases hs
        exact .same
      split at hs
      · cases hs
      split at hs <;> cases hs
      · exact .same
      · exact .set rfl
  | joinPoll k =>
      simp only [ThreadState.step, ThreadState.joinPoll] at hs
      split at hs
      · next td gen hk =>
          rw [h.access_eq (by rw [hk]; rfl)] at hs
          split at hs <;> cases hs
          · exact .set rfl
          · exact .same
      · cases hs
  | joinEnd k =>
      simp only [ThreadState.step, ThreadState.joinEnd] at hs
      split at hs
      · next td gen hk =>
          rw [h.access_eq (by rw [hk]; rfl)] at hs
          split at hs <;> cases hs
          exact .tryCollect rfl
      · cases hs
  | detach k td =>
      simp only [ThreadState.step, ThreadState.detach] at hs
      split at hs
      · cases hs
      split at hs
      · cases hs
        exact .same
      split at hs
      · cases hs
      split at hs <;> cases hs
      · exact .same
      · exact .tryCollect rfl
  | refAdd k td includeDead =>
      simp only [ThreadState.step, ThreadState.refAdd] at hs
      split at hs
      · cases hs
      split at hs
      · cases hs
        exact .same
      split at hs
      · cases hs
      split at hs <;> cases hs
      · exact .same
      · exact .set rfl
  | refUse k =>
      simp only [ThreadState.step, ThreadState.refUse] at hs
      split at hs
      · next td gen hk =>
          rw [h.access_eq (by rw [hk]; rfl)] at hs
          cases hs
          exact .same
      · cases hs
  | refDelete k =>
      simp only [ThreadState.step, ThreadState.refDelete] at hs
      split at hs
      · next td gen hk =>
          rw [h.access_eq (by rw [hk]; rfl)] at hs
          split at hs <;> cases hs
          exact .tryCollect rfl
      · cases hs
  | exit k td =>
      simp only [ThreadState.step, ThreadState.exit] at hs
      split at hs <;> cases hs
      exact .tryCollect rfl
  | collect k =>
      simp only [ThreadState.step, ThreadState.collect] at hs
      split at hs
      · next td gen exits hk =>
          rw [h.access_eq (by rw [hk]; rfl)] at hs
          split at hs
          · cases hs
          split at hs <;> cases hs
          · have hholds : (s.op k).Holds td := by rw [hk]; rfl
            refine .push td (h.linked_of_holds hholds) rfl rfl ?_
            exact @lives_set s k td _ (.unlocking td gen exits) rfl
          · exact .set rfl
      · cases hs
  | unlock k =>
      simp only [ThreadState.step, ThreadState.unlock] at hs
      split at hs
      · next td gen exits hk =>
          rw [h.access_eq (by rw [hk]; rfl)] at hs
          cases hs
          exact .set rfl
      · cases hs
  | exitStep k =>
      simp only [ThreadState.step, ThreadState.exitStep] at hs
      split at hs
      · next td gen hk =>
          rw [h.access_eq (by rw [hk]; rfl)] at hs
          cases hs
          exact .set rfl
      · next td gen hk =>
          rw [h.access_eq (by rw [hk]; rfl)] at hs
          cases hs
          exact .set rfl
      · next td gen hk =>
          rw [h.access_eq (by rw [hk]; rfl)] at hs
          cases hs
          exact .set rfl
      · cases hs
  | gcNeeded k =>
      simp only [ThreadState.step, ThreadState.gcNeeded] at hs
      split at hs
      · cases hs
      split at hs <;> cases hs
      · exact .keep rfl (fun t ht => ht) fun t ht => ht
      · exact .same
  | gather k =>
      simp only [ThreadState.step, ThreadState.gather] at hs
      split at hs <;> cases hs
      exact .keep rfl (fun t ht => List.mem_of_mem_filter ht) fun t ht => ht
  | free k =>
      simp only [ThreadState.step, ThreadState.free] at hs
      split at hs
      · cases hs
        exact .keep rfl (fun t ht => ht) fun t ht => ht
      · next td rest hk =>
          cases hs
          refine .free k td rest rfl hk rfl rfl fun t hne ht => ?_
          change (Function.update s.thread td _ t).live = true
          rw [Function.update_of_ne hne, ht]
      · cases hs

/-! ### All runs -/

/-- In every run that frees a thread only when no call has a last step to take on it, no call
comes to a thread that is gone, a thread is put on the list of those to collect at most once for
each allocation (it leaves the list of threads then, and only a new allocation links it again),
and what is freed is dead, detached or joined, and not referenced. -/
theorem reclaims_safely (h : Reachable ThreadState.step (fun s a => a.Settled s) .init s) :
    s.fault = false ∧ s.gcList.Nodup ∧ (∀ td ∈ s.gcList, s.linked td = false) ∧
      ∀ a s', a.Settled s → s.step a = some s' →
        (∀ td, td ∈ s'.gcList → td ∉ s.gcList → s.linked td = true ∧ s'.linked td = false) ∧
        (∀ td, s.linked td = false → s'.linked td = true → (s.thread td).live = false) ∧
        ∀ td, (s.thread td).live = true → (s'.thread td).live = false → Reclaimable s td := by
  have hinv : GcInv s := h.invariant GcInv.init fun _ _ _ hs ha hstep => hs.step ha hstep
  refine ⟨hinv.fault, hinv.gc_nodup, fun td htd => (hinv.gc td htd).2, fun a s' ha hstep => ?_⟩
  have hdies : ∀ td, Lives s s' → (s.thread td).live = true → (s'.thread td).live = false →
      Reclaimable s td := fun td hlives hlive hdead =>
    absurd ((hlives td hlive).symm.trans hdead) Bool.noConfusion
  have hstays : ∀ td, s.linked td = false → s.linked td = true → (s.thread td).live = false :=
    fun td hnot hin => absurd (hin.symm.trans hnot) Bool.noConfusion
  cases hinv.listEffect hstep with
  | keep hlinked hgc hlives =>
      refine ⟨fun td hin hout => absurd (hgc td hin) hout, fun td hnot hin => ?_,
        fun td => hdies td hlives⟩
      rw [hlinked] at hin
      exact hstays td hnot hin
  | link td hdead hlinked hgc hlives =>
      refine ⟨fun t hin hout => ?_, fun t hnot hin => ?_, fun t => hdies t hlives⟩
      · rw [hgc] at hin
        exact absurd hin hout
      · rcases eq_or_ne t td with rfl | hne
        · exact hdead
        · rw [hlinked, Function.update_of_ne hne] at hin
          exact hstays t hnot hin
  | push td hin hlinked hgc hlives =>
      refine ⟨fun t hmem hout => ?_, fun t hnot hmem => ?_, fun t => hdies t hlives⟩
      · rw [hgc] at hmem
        rcases List.mem_append.1 hmem with hmem | hmem
        · exact absurd hmem hout
        · obtain rfl := List.mem_singleton.1 hmem
          rw [hlinked, Function.update_self]
          exact ⟨hin, rfl⟩
      · rw [hlinked] at hmem
        rcases eq_or_ne t td with rfl | hne
        · rw [Function.update_self] at hmem
          cases hmem
        · rw [Function.update_of_ne hne] at hmem
          exact hstays t hnot hmem
  | free k td rest hfree hk hlinked hgc hlives =>
      subst hfree
      refine ⟨fun t hin hout => ?_, fun t hnot hin => ?_, fun t hlive hdead => ?_⟩
      · rw [hgc] at hin
        exact absurd hin hout
      · rw [hlinked] at hin
        exact hstays t hnot hin
      · rcases eq_or_ne t td with rfl | hne
        · exact hinv.reclaimable hk (ha t rest hk)
        · exact absurd ((hlives t hne hlive).symm.trans hdead) Bool.noConfusion

/-- A detached thread that runs to its end. -/
def endThread (td : ℕ) : List GcAction :=
  [.create td true, .exit 0 td, .collect 0, .unlock 0, .exitStep 0, .exitStep 0, .exitStep 0]

/-- The fifth thread to collect makes `Alloc` collect them. -/
def collectFive : List GcAction :=
  [5, 6, 7, 8, 9].flatMap endThread ++ [.gcNeeded 1, .gather 1]

theorem reclaims_safely_sample : ∃ s s', run ThreadState.step .init collectFive = some s ∧
    s.op 1 = .freeing [5, 6, 7, 8, 9] ∧ s.step (.free 1) = some s' ∧
    (s'.thread 5).live = false ∧ Reclaimable s 5 := by
  obtain ⟨s, s', hs, hop, hfree, hlive, hdead, hfinishing⟩ : ∃ s s',
      run ThreadState.step .init collectFive = some s ∧ s.op 1 = .freeing [5, 6, 7, 8, 9] ∧
      s.step (.free 1) = some s' ∧ (s.thread 5).live = true ∧ (s'.thread 5).live = false ∧
      ∀ j, ¬ (s.op j).Finishing 5 := by
    refine ⟨_, _, rfl, rfl, rfl, rfl, rfl, fun j => ?_⟩
    match j with
    | 0 => exact id
    | 1 => exact id
    | j + 2 => exact id
  have hreach : Reachable ThreadState.step (fun s a => a.Settled s) .init s := by
    refine reachable_of_run hs (allOk_of_forall fun s a ha => ?_)
    cases a with
    | free k =>
        revert ha
        simp [collectFive, endThread]
    | _ => exact True.intro
  refine ⟨s, s', hs, hop, hfree, hdead, ?_⟩
  refine ((reclaims_safely hreach).2.2.2 (.free 1) s' ?_ hfree).2.2 5 hlive hdead
  intro td rest htd
  obtain ⟨rfl, -⟩ := List.cons.inj (GcOp.freeing.inj (hop.symm.trans htd))
  exact hfinishing

/-- A detached thread that has published its end is freed before it has notified a joiner. -/
theorem reclaims_too_early : ∃ s, run ThreadState.step .init
      ([5, 6, 7, 8].flatMap endThread ++ [.create 9 true, .exit 0 9, .collect 0, .unlock 0,
        .exitStep 0, .gcNeeded 1, .gather 1, .free 1, .free 1, .free 1, .free 1, .free 1,
        .exitStep 0]) = some s ∧ s.fault = true :=
  ⟨_, rfl, rfl⟩

end Reclaim

end OrbitConsole.Kernel
