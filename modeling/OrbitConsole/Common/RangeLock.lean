import Mathlib.Data.Multiset.AddSub
import Mathlib.Data.Nat.Notation

/-!
# Locking a range of locks

`LockRange` waits for one lock at a time and only tries the others. The ranges of two
threads can overlap in any way, so it must not wait while it holds a lock of its range.
-/

namespace OrbitConsole.Common

/-- A thread with the locks that it holds, and what it held at each of its waits; `answers` are
those of `try_lock`. -/
structure LockThread where
  held : Multiset ℕ
  waits : List (Multiset ℕ) := []
  answers : ℕ → Bool
  tries : ℕ := 0

namespace LockThread

/-- It may take any time until the lock is free. -/
def lock (t : LockThread) (i : ℕ) : LockThread :=
  { t with held := i ::ₘ t.held, waits := t.held :: t.waits }

def tryLock (t : LockThread) (i : ℕ) : LockThread × Bool :=
  if t.answers t.tries then ({ t with held := i ::ₘ t.held, tries := t.tries + 1 }, true)
  else ({ t with tries := t.tries + 1 }, false)

def unlock (t : LockThread) (range : List ℕ) : LockThread := { t with held := t.held - range }

/-- The number says where it failed, the length of the range that it did not. -/
def tryLockRange (t : LockThread) : List ℕ → LockThread × ℕ
  | [] => (t, 0)
  | first :: rest =>
    let guard := t.tryLock first
    if guard.2 then
      let r := guard.1.tryLockRange rest
      if r.2 = rest.length then (r.1, r.2 + 1) else (r.1.unlock [first], r.2 + 1)
    else (guard.1, 0)

/-- `fuel` rounds of the loop of `LockRange`, whose answer is whether it has returned. -/
def lockRange : ℕ → List ℕ → Bool → ℕ → LockThread → LockThread × Bool
  | 0, _, _, _, t => (t, false)
  | _ + 1, [], _, _, t => (t, true)
  | fuel + 1, first :: rest, true, next, t =>
    let range := (first :: rest).drop next
    let r := (t.lock first).tryLockRange range
    if r.2 = range.length then (r.1, true)
    else lockRange fuel (first :: rest) false (next + r.2) (r.1.unlock [first])
  | fuel + 1, first :: rest, false, next, t =>
    let range := (first :: rest).drop next
    let guard := lockRange fuel range true 1 t
    if guard.2 then
      let beginLock := guard.1.tryLock first
      if beginLock.2 then
        let between := rest.take (next - 1)
        let r := beginLock.1.tryLockRange between
        if r.2 = between.length then (r.1, true)
        else lockRange fuel (first :: rest) false (1 + r.2) ((r.1.unlock [first]).unlock range)
      else lockRange fuel (first :: rest) true 1 (beginLock.1.unlock range)
    else guard

variable {t : LockThread} {i : ℕ} {H : Multiset ℕ} {range : List ℕ}

theorem tryLock_cases (t : LockThread) (i : ℕ) : (t.tryLock i).1.waits = t.waits ∧
    ((t.tryLock i).2 = true ∧ (t.tryLock i).1.held = i ::ₘ t.held ∨
      (t.tryLock i).2 = false ∧ (t.tryLock i).1.held = t.held) := by
  unfold tryLock
  split
  · exact ⟨rfl, .inl ⟨rfl, rfl⟩⟩
  · exact ⟨rfl, .inr ⟨rfl, rfl⟩⟩

theorem held_unlock (h : t.held = i ::ₘ H) : (t.unlock [i]).held = H := by
  change t.held - (i ::ₘ 0) = H
  rw [h, Multiset.sub_cons, Multiset.erase_cons_head, Multiset.sub_zero]

/-- The range is taken as a whole or not at all, without a wait. -/
theorem tryLockRange_spec (t : LockThread) (range : List ℕ) :
    (t.tryLockRange range).1.waits = t.waits ∧
      ((t.tryLockRange range).2 = range.length ∧
        (t.tryLockRange range).1.held = range + t.held ∨
      (t.tryLockRange range).2 < range.length ∧ (t.tryLockRange range).1.held = t.held) := by
  induction range generalizing t with
  | nil => exact ⟨rfl, .inl ⟨rfl, (Multiset.zero_add _).symm⟩⟩
  | cons first rest ih =>
      obtain ⟨hwaits, hguard⟩ := tryLock_cases t first
      obtain ⟨hwaits', hrest⟩ := ih (t.tryLock first).1
      unfold tryLockRange
      dsimp only
      obtain ⟨hok, hheld⟩ | ⟨hok, hheld⟩ := hguard
      · rw [if_pos hok]
        rw [hheld] at hrest
        obtain ⟨hall, hheld'⟩ | ⟨hlt, hheld'⟩ := hrest
        · rw [if_pos hall]
          refine ⟨hwaits'.trans hwaits, .inl ⟨congrArg (· + 1) hall, hheld'.trans ?_⟩⟩
          rw [Multiset.add_cons, ← Multiset.cons_add, Multiset.cons_coe]
        · rw [if_neg (Nat.ne_of_lt hlt)]
          exact ⟨hwaits'.trans hwaits, .inr ⟨Nat.succ_lt_succ hlt, held_unlock hheld'⟩⟩
      · rw [if_neg (by rw [hok]; exact Bool.false_ne_true)]
        exact ⟨hwaits, .inr ⟨Nat.succ_pos _, hheld⟩⟩

/-- From `t` to `t'` every wait was one with the locks of `t`; at the end there are `range`, too. -/
structure Locks (t : LockThread) (range : List ℕ) (r : LockThread × Bool) : Prop where
  waits : ∀ w ∈ r.1.waits, w ∈ t.waits ∨ w = t.held
  held : r.2 = true → r.1.held = range + t.held

theorem Locks.again {t' : LockThread} {r : LockThread × Bool} (h : Locks t' range r)
    (hheld : t'.held = t.held) (hwaits : ∀ w ∈ t'.waits, w ∈ t.waits ∨ w = t.held) :
    Locks t range r :=
  ⟨fun w hw => (h.waits w hw).elim (hwaits w) fun heq => .inr (heq.trans hheld),
    fun hr => hheld ▸ h.held hr⟩

theorem locks_lockRange (fuel : ℕ) (range : List ℕ) (start : Bool) (next : ℕ)
    (hnext : 0 < next) (hstart : start = true → next = 1) (t : LockThread) :
    Locks t range (lockRange fuel range start next t) := by
  induction fuel generalizing range start next t with
  | zero => exact ⟨fun w hw => .inl hw, fun h => by cases h⟩
  | succ fuel ih =>
      cases range with
      | nil => exact ⟨fun w hw => .inl hw, fun _ => (Multiset.zero_add _).symm⟩
      | cons first rest =>
          cases start with
          | true =>
              obtain rfl := hstart rfl
              obtain ⟨hwaits, hrest⟩ := tryLockRange_spec (t.lock first) rest
              have hwaits' : ∀ w ∈ ((t.lock first).tryLockRange rest).1.waits,
                  w ∈ t.waits ∨ w = t.held := by
                rw [hwaits]
                exact fun w hw => (List.mem_cons.1 hw).symm
              unfold lockRange
              simp only [List.drop_succ_cons, List.drop_zero]
              obtain ⟨hall, hheld⟩ | ⟨hlt, hheld⟩ := hrest
              · rw [if_pos hall]
                refine ⟨hwaits', fun _ => hheld.trans ?_⟩
                change _ + first ::ₘ t.held = _
                rw [Multiset.add_cons, ← Multiset.cons_add, Multiset.cons_coe]
              · rw [if_neg (Nat.ne_of_lt hlt)]
                exact (ih _ false _ (by omega) (by simp) _).again (held_unlock hheld) hwaits'
          | false =>
              have hguard := ih ((first :: rest).drop next) true 1 Nat.one_pos (fun _ => rfl) t
              unfold lockRange
              dsimp only
              generalize lockRange fuel ((first :: rest).drop next) true 1 t = guard at hguard
              obtain ⟨guard, returned⟩ := guard
              cases returned with
              | false => exact ⟨hguard.waits, by simp⟩
              | true =>
                  have hheld := hguard.held rfl
                  have hunlock {u : LockThread} (hu : u.held = guard.held) :
                      (u.unlock ((first :: rest).drop next)).held = t.held := by
                    change u.held - _ = _
                    rw [hu, hheld, Multiset.add_comm]
                    exact Multiset.add_sub_cancel_right
                  obtain ⟨hwaits, htry⟩ := tryLock_cases guard first
                  rw [if_pos rfl]
                  obtain ⟨hok, hfirst⟩ | ⟨hok, hfirst⟩ := htry
                  · rw [if_pos hok]
                    obtain ⟨hwaits', hrest⟩ := tryLockRange_spec (guard.tryLock first).1
                      (rest.take (next - 1))
                    rw [hwaits] at hwaits'
                    rw [hfirst] at hrest
                    obtain ⟨hall, hheld'⟩ | ⟨hlt, hheld'⟩ := hrest
                    · rw [if_pos hall]
                      refine ⟨hwaits' ▸ hguard.waits, fun _ => hheld'.trans ?_⟩
                      obtain ⟨k, rfl⟩ := Nat.exists_eq_succ_of_ne_zero (Nat.ne_of_gt hnext)
                      rw [hheld, Nat.succ_sub_one, List.drop_succ_cons, Multiset.add_cons,
                        ← Multiset.add_assoc, Multiset.coe_add, List.take_append_drop,
                        ← Multiset.cons_add, Multiset.cons_coe]
                    · rw [if_neg (Nat.ne_of_lt hlt)]
                      exact (ih _ false _ (by omega) (by simp) _).again (hunlock (held_unlock hheld'))
                        (hwaits' ▸ hguard.waits)
                  · rw [if_neg (by rw [hok]; exact Bool.false_ne_true)]
                    exact (ih _ _ _ Nat.one_pos (fun _ => rfl) _).again (hunlock hfirst)
                      (hwaits ▸ hguard.waits)

theorem tryLockRange_of_free (t : LockThread) (range : List ℕ)
    (hfree : ∀ n, t.answers n = true) : (t.tryLockRange range).2 = range.length := by
  induction range generalizing t with
  | nil => rfl
  | cons first rest ih =>
      have htry : t.tryLock first =
          ({ t with held := first ::ₘ t.held, tries := t.tries + 1 }, true) := if_pos (hfree _)
      have hrest := ih { t with held := first ::ₘ t.held, tries := t.tries + 1 } hfree
      simp only [tryLockRange, htry, if_true, hrest, List.length_cons]

/-- In every execution of `LockRange`, also one that has not come to its end, the thread waits
for a lock of the range only while it has no other lock of it, and when it is done it has each
of them once; one round is enough if the locks are free. -/
theorem lockRange_waits_without_locks (range : List ℕ) (t : LockThread) :
    (∀ fuel, Locks t range (lockRange fuel range true 1 t)) ∧
      ((∀ n, t.answers n = true) → ∀ fuel, (lockRange (fuel + 1) range true 1 t).2 = true) := by
  refine ⟨fun fuel => locks_lockRange fuel range true 1 Nat.one_pos (fun _ => rfl) t,
    fun hfree fuel => ?_⟩
  cases range with
  | nil => rfl
  | cons first rest =>
      have hall := tryLockRange_of_free (t.lock first) rest hfree
      simp only [lockRange, List.drop_succ_cons, List.drop_zero, hall, if_true]

end LockThread

end OrbitConsole.Common
