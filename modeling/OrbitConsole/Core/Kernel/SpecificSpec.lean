import Mathlib.Data.Finset.Card
import Mathlib.Data.Finset.Range
import OrbitConsole.Core.Kernel.Specific

/-!
# Thread-specific data respects key generations

A value is found under the generation of its key it was set in, and the count of a
thread's values is right as long as the thread has its elements, over all runs.
-/

namespace OrbitConsole.Kernel

open Function (update update_eq_self update_of_ne update_self)

namespace Specific

/-! ### Counting values -/

/-- The keys a thread has a value for. -/
def filled (f : ℕ → PthreadSpecificElem) : Finset ℕ :=
  (Finset.range pthreadKeysMax).filter fun k => (f k).data ≠ 0

variable {f : ℕ → PthreadSpecificElem} {k key : ℕ} {e : PthreadSpecificElem}

theorem mem_filled : k ∈ filled f ↔ k < pthreadKeysMax ∧ (f k).data ≠ 0 := by
  rw [filled, Finset.mem_filter, Finset.mem_range]

theorem filled_update_of_eq (he : e.data = 0) :
    filled (update f key e) = (filled f).erase key := by
  ext k
  rw [Finset.mem_erase, mem_filled, mem_filled]
  rcases eq_or_ne k key with rfl | hne
  · simp [he]
  · simp [hne]

theorem filled_update_of_ne (hkey : key < pthreadKeysMax) (he : e.data ≠ 0) :
    filled (update f key e) = insert key (filled f) := by
  ext k
  rw [Finset.mem_insert, mem_filled, mem_filled]
  rcases eq_or_ne k key with rfl | hne
  · simp [he, hkey]
  · simp [hne]

theorem card_filled_update (hkey : key < pthreadKeysMax) :
    ((filled (update f key e)).card : ℤ) =
      if (f key).data = 0 then
        if e.data ≠ 0 then ((filled f).card : ℤ) + 1 else ((filled f).card : ℤ)
      else if e.data = 0 then ((filled f).card : ℤ) - 1 else ((filled f).card : ℤ) := by
  by_cases he : e.data = 0
  · rw [filled_update_of_eq he]
    by_cases hf : (f key).data = 0
    · have hout : key ∉ filled f := fun h => (mem_filled.1 h).2 hf
      rw [Finset.erase_eq_of_notMem hout, if_pos hf, if_neg (not_not_intro he)]
    · have hin : key ∈ filled f := mem_filled.2 ⟨hkey, hf⟩
      have hpos : 0 < (filled f).card := Finset.card_pos.2 ⟨key, hin⟩
      rw [Finset.card_erase_of_mem hin, if_neg hf, if_pos he]
      omega
  · rw [filled_update_of_ne hkey he]
    by_cases hf : (f key).data = 0
    · have hout : key ∉ filled f := fun h => (mem_filled.1 h).2 hf
      rw [Finset.card_insert_of_notMem hout, if_pos hf, if_pos he]
      rfl
    · have hin : key ∈ filled f := mem_filled.2 ⟨hkey, hf⟩
      rw [Finset.insert_eq_of_mem hin, if_neg hf, if_neg he]

/-! ### The clean-up -/

/-- Some values have been cleared, and the count says how many are left. -/
structure Clears (v v' : Values) : Prop where
  elems : ∀ k, v'.elems k = v.elems k ∨ v'.elems k = { v.elems k with data := 0 }
  count : v.count = (filled v.elems).card → v'.count = (filled v'.elems).card

structure Current (table : KeyTable) (v : Values) (call : DestructorCall) : Prop where
  key : call.key < pthreadKeysMax
  allocated : (table call.key).allocated = true
  destructor : call.destructor = (table call.key).destructor
  data : call.data = (v.elems call.key).data
  ne_zero : call.data ≠ 0
  seqno : (v.elems call.key).seqno = (table call.key).seqno

variable {table : KeyTable} {v v' v'' : Values} {call : DestructorCall} {n rounds : ℕ}

theorem Clears.refl (v : Values) : Clears v v := ⟨fun _ => .inl rfl, id⟩

theorem Clears.trans (h : Clears v v') (h' : Clears v' v'') : Clears v v'' := by
  refine ⟨fun k => ?_, fun hc => h'.count (h.count hc)⟩
  obtain hk' | hk' := h'.elems k <;> obtain hk | hk := h.elems k <;> rw [hk', hk]
  · exact .inl rfl
  · exact .inr rfl
  · exact .inr rfl
  · exact .inr rfl

theorem Clears.seqno (h : Clears v v') (k : ℕ) : (v'.elems k).seqno = (v.elems k).seqno := by
  obtain hk | hk := h.elems k <;> rw [hk]

theorem Clears.data (h : Clears v v') (hk : (v'.elems k).data ≠ 0) :
    (v'.elems k).data = (v.elems k).data := by
  obtain he | he := h.elems k <;> rw [he]
  rw [he] at hk
  exact absurd rfl hk

theorem Current.mono (h : Clears v v') (hc : Current table v' call) : Current table v call where
  key := hc.key
  allocated := hc.allocated
  destructor := hc.destructor
  data := by
    rw [hc.data]
    exact h.data (hc.data ▸ hc.ne_zero)
  ne_zero := hc.ne_zero
  seqno := (h.seqno call.key).symm.trans hc.seqno

theorem clears_clear (hkey : key < pthreadKeysMax) (h : (v.elems key).data ≠ 0) :
    Clears v (v.clear key) := by
  refine ⟨fun k => ?_, fun hc => ?_⟩
  · rcases eq_or_ne k key with rfl | hne
    · exact .inr (update_self ..)
    · exact .inl (update_of_ne hne ..)
  · change v.count - 1 = ((filled (update v.elems key _)).card : ℤ)
    rw [card_filled_update hkey, if_neg h, if_pos rfl, hc]

theorem visitKey_spec (table : KeyTable) (v : Values) (hkey : key < pthreadKeysMax) :
    Clears v (visitKey table v key).1 ∧
    ∀ call, (visitKey table v key).2 = some call → Current table v call := by
  unfold visitKey
  dsimp only
  split
  case isTrue h =>
      refine ⟨clears_clear hkey h.2, fun call hcall => ?_⟩
      simp only [Option.ite_none_right_eq_some, Option.some.injEq] at hcall
      obtain ⟨⟨hseqno, -⟩, rfl⟩ := hcall
      exact ⟨hkey, h.1, rfl, rfl, h.2, hseqno⟩
  case isFalse =>
      split
      case isTrue h => exact ⟨clears_clear hkey h, nofun⟩
      case isFalse => exact ⟨Clears.refl v, nofun⟩

theorem scanKeys_spec (table : KeyTable) (v : Values) (hn : n ≤ pthreadKeysMax) :
    Clears v (scanKeys table n v).1 ∧
    ∀ call, (scanKeys table n v).2 = some call → Current table v call := by
  induction n generalizing v with
  | zero => exact ⟨Clears.refl v, nofun⟩
  | succ n ih =>
      unfold scanKeys
      split
      case isFalse => exact ⟨Clears.refl v, nofun⟩
      case isTrue =>
          obtain ⟨hclears, hcall⟩ := visitKey_spec table v
            (show pthreadKeysMax - (n + 1) < pthreadKeysMax by omega)
          split
          case h_1 v' c hvisit =>
              rw [hvisit] at hclears hcall
              exact ⟨hclears, fun call h => hcall call h⟩
          case h_2 v' hvisit =>
              rw [hvisit] at hclears
              obtain ⟨hrest, hcall'⟩ := ih v' (by omega)
              exact ⟨hclears.trans hrest, fun call h => (hcall' call h).mono hclears⟩

theorem scanRounds_spec (table : KeyTable) (rounds : ℕ) (v : Values) :
    Clears v (scanRounds table rounds v).1 ∧
    ∀ r call, (scanRounds table rounds v).2 = some (r, call) → Current table v call := by
  induction rounds generalizing v with
  | zero => exact ⟨Clears.refl v, nofun⟩
  | succ rounds ih =>
      unfold scanRounds
      split
      case isFalse => exact ⟨Clears.refl v, nofun⟩
      case isTrue =>
          obtain ⟨hclears, hcall⟩ := scanKeys_spec table v (le_refl pthreadKeysMax)
          split
          case h_1 v' c hscan =>
              rw [hscan] at hclears hcall
              refine ⟨hclears, fun r call h => ?_⟩
              cases h
              exact hcall _ rfl
          case h_2 v' hscan =>
              rw [hscan] at hclears
              obtain ⟨hrest, hcall'⟩ := ih v'
              exact ⟨hclears.trans hrest, fun r call h => (hcall' r call h).mono hclears⟩

theorem resumeScan_spec (table : KeyTable) (rounds key : ℕ) (v : Values) :
    Clears v (resumeScan table rounds key v).1 ∧
    ∀ r call, (resumeScan table rounds key v).2 = some (r, call) → Current table v call := by
  obtain ⟨hclears, hcall⟩ := scanKeys_spec table v
    (Nat.sub_le pthreadKeysMax (key + 1))
  unfold resumeScan
  split
  case h_1 v' c hscan =>
      rw [hscan] at hclears hcall
      refine ⟨hclears, fun r call h => ?_⟩
      cases h
      exact hcall _ rfl
  case h_2 v' hscan =>
      rw [hscan] at hclears
      obtain ⟨hrest, hcall'⟩ := scanRounds_spec table rounds v'
      exact ⟨hclears.trans hrest, fun r call h => (hcall' r call h).mono hclears⟩

/-! ### Generations -/

/-- The elements of a thread against what it has set last: those of the current generation of
their key hold it, and those of an older one say that nothing has been set. -/
structure Good (table : KeyTable) (f : ℕ → PthreadSpecificElem) (last : ℕ → ℕ) : Prop where
  older : ∀ k, (f k).seqno ≤ (table k).seqno
  current : ∀ k, (f k).seqno = (table k).seqno → last k = (f k).data
  stale : ∀ k, (f k).seqno ≠ (table k).seqno → last k = 0

variable {last : ℕ → ℕ} {table' : KeyTable}

theorem Good.congr (h : Good table f last) (hseqno : ∀ k, (table' k).seqno = (table k).seqno) :
    Good table' f last where
  older := fun k => hseqno k ▸ h.older k
  current := fun k hk => h.current k (hseqno k ▸ hk)
  stale := fun k hk => h.stale k (hseqno k ▸ hk)

theorem Good.of_zero (table : KeyTable) : Good table (fun _ => ⟨0, 0⟩) fun _ => 0 :=
  ⟨fun _ => Nat.zero_le _, fun _ _ => rfl, fun _ _ => rfl⟩

theorem Good.create {entry : PthreadKey} (h : Good table f last)
    (hentry : (table key).seqno < entry.seqno) :
    Good (update table key entry) f (update last key 0) := by
  refine ⟨fun k => ?_, fun k hk => ?_, fun k hk => ?_⟩
  · rcases eq_or_ne k key with rfl | hne
    · rw [update_self]
      exact le_of_lt (lt_of_le_of_lt (h.older k) hentry)
    · rw [update_of_ne hne]
      exact h.older k
  · rcases eq_or_ne k key with rfl | hne
    · rw [update_self] at hk
      have := h.older k
      omega
    · rw [update_of_ne hne] at hk ⊢
      exact h.current k hk
  · rcases eq_or_ne k key with rfl | hne
    · exact update_self ..
    · rw [update_of_ne hne] at hk ⊢
      exact h.stale k hk

theorem Good.set {value : ℕ} (h : Good table f last) : Good table
    (update f key ⟨value, (table key).seqno⟩) (update last key value) := by
  refine ⟨fun k => ?_, fun k hk => ?_, fun k hk => ?_⟩ <;> rcases eq_or_ne k key with rfl | hne
  · rw [update_self]
  · rw [update_of_ne hne]
    exact h.older k
  · rw [update_self, update_self]
  · rw [update_of_ne hne] at hk
    rw [update_of_ne hne, update_of_ne hne]
    exact h.current k hk
  · rw [update_self] at hk
    exact absurd rfl hk
  · rw [update_of_ne hne] at hk
    rw [update_of_ne hne]
    exact h.stale k hk

theorem Good.clear (h : Good table v.elems last) (hclears : Clears v v') :
    Good table v'.elems fun k => if (v'.elems k).data = 0 then 0 else last k := by
  refine ⟨fun k => hclears.seqno k ▸ h.older k, fun k hk => ?_, fun k hk => ?_⟩
  · rw [hclears.seqno] at hk
    by_cases hdata : (v'.elems k).data = 0
    · rw [if_pos hdata, hdata]
    · rw [if_neg hdata, hclears.data hdata, h.current k hk]
  · rw [hclears.seqno] at hk
    rw [h.stale k hk, ite_self]

/-! ### Runs -/

section Invariant

variable {τ : Type*} {s : State τ}

structure Inv (s : State τ) : Prop where
  seqno : ∀ k, (s.table k).seqno = s.creations k ∧ s.creations k < 2 ^ 32
  good : ∀ t, Good s.table (elems (s.thread t)) (s.lastSet t)
  count : ∀ t, s.phase t ≠ .exited →
    (s.thread t).specific_data_count = (filled (elems (s.thread t))).card

theorem inv_start : Inv (start : State τ) where
  seqno := fun _ => ⟨rfl, Nat.two_pow_pos 32⟩
  good := fun _ => Good.of_zero _
  count := fun t _ => by
    have hempty : filled (fun _ => ⟨0, 0⟩) = ∅ := Finset.filter_eq_empty_iff.2 (by simp)
    exact (congrArg (fun l : Finset ℕ => (l.card : ℤ)) hempty).symm

theorem Inv.create {k destructor : ℕ} (h : Inv s) (hfew : s.creations k + 1 < 2 ^ 32) :
    Inv { s with
      table := update s.table k
        ⟨true, ((s.table k).seqno + 1) % 2 ^ 32, destructor⟩
      creations := update s.creations k (s.creations k + 1)
      lastSet := fun t => update (s.lastSet t) k 0 } := by
  have hnext : ((s.table k).seqno + 1) % 2 ^ 32 = s.creations k + 1 := by
    rw [(h.seqno k).1, Nat.mod_eq_of_lt hfew]
  refine ⟨fun j => ?_, fun t => (h.good t).create ?_, h.count⟩
  · rcases eq_or_ne j k with rfl | hne
    · simp only [update_self]
      exact ⟨hnext, hfew⟩
    · simp only [update_of_ne hne]
      exact h.seqno j
  · rw [hnext, (h.seqno k).1]
    exact Nat.lt_succ_self _

theorem keyDelete_seqno (table : KeyTable) (key : BitVec 32) (k : ℕ) :
    ((keyDelete table key).2 k).seqno = (table k).seqno := by
  unfold keyDelete
  split
  · rfl
  split
  · rfl
  · dsimp only
    rcases eq_or_ne k key.toNat with rfl | hne
    · rw [update_self]
    · rw [update_of_ne hne]

theorem Inv.delete (h : Inv s) (key : BitVec 32) :
    Inv { s with table := (keyDelete s.table key).2 } where
  seqno := fun k => by
    rw [keyDelete_seqno]
    exact h.seqno k
  good := fun t => (h.good t).congr (keyDelete_seqno s.table key)
  count := h.count

end Invariant

section System

variable {τ : Type*} [DecidableEq τ] {s s' : State τ} {t : τ}

theorem Inv.update {thread : Pthread} {p : Phase} (h : Inv s)
    (hgood : Good s.table (elems thread) last)
    (hcount : p ≠ .exited → thread.specific_data_count = (filled (elems thread)).card) :
    Inv { s with
      thread := update s.thread t thread
      phase := update s.phase t p
      lastSet := update s.lastSet t last } := by
  refine ⟨h.seqno, fun u => ?_, fun u hu => ?_⟩ <;> rcases eq_or_ne u t with rfl | hne
  · simpa only [update_self] using hgood
  · simpa only [update_of_ne hne] using h.good u
  · simp only [update_self] at hu ⊢
    exact hcount hu
  · simp only [update_of_ne hne] at hu ⊢
    exact h.count u hu

theorem setspecific_spec {thread thread' : Pthread} {key : BitVec 32} {value code : ℕ}
    {canAllocate : Bool} (hgood : Good table (elems thread) last)
    (hcount : thread.specific_data_count = (filled (elems thread)).card)
    (hset : setspecific table thread key value canAllocate = (code, thread')) :
    Good table (elems thread')
        (if code = 0 then update last key.toNat value else last) ∧
      thread'.specific_data_count = (filled (elems thread')).card := by
  unfold setspecific at hset
  split at hset
  · cases hset
    exact ⟨hgood, hcount⟩
  dsimp only at hset
  split at hset
  · cases hset
    exact ⟨hgood, hcount⟩
  rename_i hkey
  split at hset
  · cases hset
    exact ⟨hgood, hcount⟩
  cases hset
  refine ⟨hgood.set, ?_⟩
  change _ = ((filled (update (elems thread) key.toNat _)).card : ℤ)
  rw [card_filled_update (Nat.lt_of_not_le hkey), ← hcount]

theorem Inv.afterScan {f : ℕ → PthreadSpecificElem}
    {scan : Values × Option (ℕ × DestructorCall)} (h : Inv s)
    (ht : (s.thread t).specific = some f) (hphase : s.phase t ≠ .exited)
    (hclears : Clears ⟨f, (s.thread t).specific_data_count⟩ scan.1) :
    Inv (s.afterScan t scan) := by
  have helems : elems (s.thread t) = f := by rw [elems, ht]; rfl
  have hgood := h.good t
  have hcount := h.count t hphase
  rw [helems] at hgood hcount
  unfold State.afterScan
  split
  · exact h.update (hgood.clear (v := ⟨f, _⟩) hclears) fun _ => hclears.count hcount
  · exact h.update (Good.of_zero _) fun hne => absurd rfl hne

/-- A step keeps the counts and values right while the sequence numbers do not wrap around. -/
theorem inv_step (s s' : State τ) (a : Action τ) (h : Inv s) (hok : FewCreations s a)
    (hs : step s a = some s') : Inv s' := by
  cases a with
  | create destructor =>
      simp only [step, keyCreate] at hs
      cases hk : freeKey s.table with
      | none =>
          rw [hk] at hs
          cases hs
          exact h
      | some k =>
          rw [hk] at hs
          cases hs
          exact h.create (hok k hk)
  | delete key =>
      cases hs
      exact h.delete key
  | set t key value canAllocate =>
      simp only [step] at hs
      split at hs
      · cases hs
      rename_i hphase
      cases hset : setspecific s.table (s.thread t) key value canAllocate with
      | mk code thread =>
          rw [hset] at hs
          cases hs
          obtain ⟨hgood, hcount⟩ := setspecific_spec (h.good t) (h.count t hphase) hset
          have hupdate := h.update (t := t) (p := s.phase t) hgood fun _ => hcount
          rw [update_eq_self] at hupdate
          by_cases hcode : code = 0
          · simpa only [hcode, if_true] using hupdate
          · simpa only [hcode, if_false, update_eq_self] using hupdate
  | exit t =>
      simp only [step, Option.ite_none_right_eq_some] at hs
      obtain ⟨hphase, hs⟩ := hs
      have hne : s.phase t ≠ .exited := fun h => by cases hphase.symm.trans h
      split at hs <;> cases hs
      · have hupdate := h.update (t := t) (p := .exited) (h.good t) fun hne => absurd rfl hne
        simpa only [update_eq_self] using hupdate
      · rename_i hf
        exact h.afterScan hf hne (scanRounds_spec ..).1
  | resume t =>
      simp only [step] at hs
      split at hs <;> cases hs
      rename_i hphase hf
      have hne : s.phase t ≠ .exited := fun h => by cases hphase.symm.trans h
      exact h.afterScan hf hne (resumeScan_spec ..).1

theorem getspecific_eq {thread : Pthread} (h : Good table (elems thread) last) (key : BitVec 32) :
    getspecific table thread key =
      if key.toNat < pthreadKeysMax ∧ (table key.toNat).allocated = true then last key.toNat
      else 0 := by
  have hlast : (elems thread key.toNat).data =
      if (elems thread key.toNat).seqno = (table key.toNat).seqno then last key.toNat
      else (elems thread key.toNat).data := by
    split
    case isTrue hseqno => exact (h.current _ hseqno).symm
    case isFalse => rfl
  have hstale := h.stale key.toNat
  unfold getspecific
  cases hspecific : thread.specific with
  | none =>
      have hzero : last key.toNat = 0 := by
        have helems : elems thread = fun _ => ⟨0, 0⟩ := by rw [elems, hspecific]; rfl
        rw [helems] at h
        by_cases hseqno : 0 = (table key.toNat).seqno
        · exact h.current _ hseqno
        · exact h.stale _ hseqno
      rw [hzero, ite_self]
  | some f =>
      have helems : elems thread = f := by rw [elems, hspecific]; rfl
      rw [helems] at hlast hstale
      by_cases hkey : pthreadKeysMax ≤ key.toNat
      · simp [hkey, Nat.not_lt.2 hkey]
      by_cases hseqno : (f key.toNat).seqno = (table key.toNat).seqno
      · rw [if_pos hseqno] at hlast
        simp [hkey, Nat.lt_of_not_le hkey, hseqno, hlast]
      · simp [hkey, hseqno, hstale hseqno]

theorem current_of_step {a : Action τ} {rounds : ℕ} (ha : a = .exit t ∨ a = .resume t)
    (hs : step s a = some s') (hphase : s'.phase t = .inDestructor rounds call) :
    ∃ f, (s.thread t).specific = some f ∧
      Current s.table ⟨f, (s.thread t).specific_data_count⟩ call := by
  have hafter : ∀ scan : Values × Option (ℕ × DestructorCall),
      (s.afterScan t scan).phase t = .inDestructor rounds call → scan.2 = some (rounds, call) := by
    intro scan hscan
    unfold State.afterScan at hscan
    split at hscan <;> simp only [update_self] at hscan
    · rename_i h
      cases hscan
      exact h
    · cases hscan
  obtain rfl | rfl := ha
  · simp only [step, Option.ite_none_right_eq_some] at hs
    obtain ⟨-, hs⟩ := hs
    split at hs <;> cases hs
    · simp only [update_self] at hphase
      cases hphase
    · rename_i f hf
      exact ⟨f, hf, (scanRounds_spec ..).2 rounds call (hafter _ hphase)⟩
  · simp only [step] at hs
    split at hs <;> cases hs
    rename_i f _ hf
    exact ⟨f, hf, (resumeScan_spec ..).2 rounds call (hafter _ hphase)⟩

/-- A thread gets what it has set last under the current generation of an allocated key, its count
is that of its values until it has exited, and its destructors are called for such values. -/
theorem threadSpecific_generations (s : State τ)
    (h : Transition.Reachable step FewCreations start s) :
    (∀ t key, getspecific s.table (s.thread t) key =
        if key.toNat < pthreadKeysMax ∧ (s.table key.toNat).allocated = true then
          s.lastSet t key.toNat
        else 0) ∧
      (∀ t, s.phase t ≠ .exited →
        (s.thread t).specific_data_count = (filled (elems (s.thread t))).card) ∧
      ∀ s' a t rounds call, a = Action.exit t ∨ a = Action.resume t → step s a = some s' →
        s'.phase t = .inDestructor rounds call →
        call.data ≠ 0 ∧ (s.table call.key).allocated = true ∧
          s.lastSet t call.key = call.data ∧ call.destructor = (s.table call.key).destructor := by
  have hinv : Inv s := h.invariant inv_start inv_step
  refine ⟨fun t key => getspecific_eq (hinv.good t) key, hinv.count,
    fun s' a t rounds call ha hs hphase => ?_⟩
  obtain ⟨f, hf, hcurrent⟩ := current_of_step ha hs hphase
  have helems : elems (s.thread t) = f := by rw [elems, hf]; rfl
  refine ⟨hcurrent.ne_zero, hcurrent.allocated, ?_, hcurrent.destructor⟩
  rw [hcurrent.data]
  have hgood := (hinv.good t).current call.key
  rw [helems] at hgood
  exact hgood hcurrent.seqno

end System

def settingRun : List (Action ℕ) := [.create 100, .set 0 0 7 true]

theorem allOk_settingRun (rest : List (Action ℕ))
    (h : ∀ s, ∀ a ∈ rest, FewCreations s a) :
    Transition.AllOk step FewCreations start (settingRun ++ rest) :=
  ⟨fun _ _ => (by decide : 0 + 1 < 2 ^ 32),
    fun _ _ => ⟨trivial, fun _ _ => Transition.allOk_of_forall h⟩⟩

theorem threadSpecific_generations_set : ∃ s : State ℕ,
    Transition.run step start settingRun = some s ∧ s.lastSet 0 0 = 7 ∧
      getspecific s.table (s.thread 0) 0 = 7 := by
  have hrun : (Transition.run step start settingRun).map (fun s => (s.lastSet 0 0,
      (s.table 0).allocated)) = some (7, true) := by decide
  obtain ⟨s, hs, hfields⟩ := Option.map_eq_some_iff.1 hrun
  obtain ⟨hlast, hallocated⟩ := Prod.mk.inj hfields
  refine ⟨s, hs, hlast, ?_⟩
  have hget := (threadSpecific_generations s (Transition.reachable_of_run hs
    (allOk_settingRun [] nofun))).1 0 0
  rw [hget, if_pos ⟨by decide, hallocated⟩]
  exact hlast

/-- Once the key is deleted, nothing is found. -/
theorem getspecific_deleted : ¬ ∀ s : State ℕ,
    Transition.Reachable step FewCreations start s → ∀ t key, key.toNat < pthreadKeysMax →
      getspecific s.table (s.thread t) key = s.lastSet t key.toNat := by
  intro hall
  have hrun : (Transition.run step start (settingRun ++ [.delete 0])).map
      (fun s => (getspecific s.table (s.thread 0) 0, s.lastSet 0 0)) = some (0, 7) := by decide
  obtain ⟨s, hs, hfields⟩ := Option.map_eq_some_iff.1 hrun
  obtain ⟨hget, hlast⟩ := Prod.mk.inj hfields
  have heq := hall s (Transition.reachable_of_run hs
    (allOk_settingRun _ fun s a ha => by
      rw [List.mem_singleton] at ha
      subst ha
      trivial)) 0 0 (by decide)
  rw [hget] at heq
  exact absurd (heq.trans hlast) (by decide)

end Specific

end OrbitConsole.Kernel
