import OrbitConsole.Core.Kernel.SleepQueue
import OrbitConsole.Library.Custody

/-!
# The ownership of sleep queues

A `SleepQueue` is with a thread, in a chain of the table or on the free list of
another one. An active queue has one object less on its free list than threads
that are blocked on it, so there is one for everybody who leaves.
-/

namespace OrbitConsole.Kernel

open Function (update update_apply)

open Transition

/-- Where an object can be. -/
inductive SleepqPlace where
  | thread (td : ℕ)
  | chain (h : ℕ)
  | free (sq : ℕ)
  deriving DecidableEq

namespace Sleepq

variable {s s' : Sleepq} {sq sq' own td t c h : ℕ}

def held (s : Sleepq) : SleepqPlace → List ℕ
  | .thread td => (s.sleepqueue td).toList
  | .chain h => s.queues h
  | .free sq => (s.queue sq).freeq

/-- The object is in the chain of its channel. -/
def Active (s : Sleepq) (sq : ℕ) : Prop := sq ∈ s.queues (scHash (s.queue sq).wchan)

def Sleeping (s : Sleepq) (td : ℕ) : Prop := ∃ sq, td ∈ (s.queue sq).blocked

def BlockedOn (s : Sleepq) (c td : ℕ) : Prop :=
  ∃ sq, td ∈ (s.queue sq).blocked ∧ (s.queue sq).wchan = c

/-- The ownership of the objects is in order. -/
structure Conserved (s : Sleepq) : Prop where
  exclusive : Exclusive s.held
  hashed : ∀ {h sq}, sq ∈ s.queues h → scHash (s.queue sq).wchan = h
  oneActive : ∀ {sq sq'}, s.Active sq → s.Active sq' → (s.queue sq).wchan = (s.queue sq').wchan →
    sq = sq'
  active : ∀ {sq}, s.Active sq → (s.queue sq).freeq.length + 1 = (s.queue sq).blocked.length
  idle : ∀ {sq}, ¬s.Active sq → (s.queue sq).blocked = [] ∧ (s.queue sq).freeq = []
  nodup : ∀ sq, (s.queue sq).blocked.Nodup
  asleep : ∀ {sq td}, td ∈ (s.queue sq).blocked →
    s.sleepqueue td = none ∧ s.wchan td = (s.queue sq).wchan
  awake : ∀ {td}, ¬s.Sleeping td → s.sleepqueue td ≠ none ∧ s.wchan td = 0

namespace Conserved

theorem active_of_mem (hs : s.Conserved) (h : td ∈ (s.queue sq).blocked) : s.Active sq := by
  by_contra hno
  rw [(hs.idle hno).1] at h
  exact List.not_mem_nil h

theorem active_of_mem_queues (hs : s.Conserved) (h' : sq ∈ s.queues h) : s.Active sq := by
  unfold Active
  rwa [hs.hashed h']

theorem eq_of_mem (hs : s.Conserved) (h : td ∈ (s.queue sq).blocked)
    (h' : td ∈ (s.queue sq').blocked) : sq = sq' :=
  hs.oneActive (hs.active_of_mem h) (hs.active_of_mem h')
    ((hs.asleep h).2.symm.trans (hs.asleep h').2)

theorem awake_of_sleepqueue (hs : s.Conserved) (h : s.sleepqueue td = some own) :
    ¬s.Sleeping td := by
  rintro ⟨sq, hmem⟩
  rw [(hs.asleep hmem).1] at h
  cases h

theorem eq_thread (hs : s.Conserved) (h : s.sleepqueue td = some own) {p : SleepqPlace}
    (hp : own ∈ s.held p) : p = .thread td :=
  hs.exclusive.unique hp (show own ∈ s.held (.thread td) by simp [held, h])

theorem sleepqueue_inj (hs : s.Conserved) (h : s.sleepqueue td = some own)
    (h' : s.sleepqueue t = some own) : t = td := by
  have := hs.eq_thread h (p := .thread t) (by simp [held, h'])
  grind

theorem not_mem_queues (hs : s.Conserved) (h : s.sleepqueue td = some own) (c : ℕ) :
    own ∉ s.queues c := fun hmem => nomatch hs.eq_thread h (p := .chain c) hmem

theorem not_mem_freeq (hs : s.Conserved) (h : s.sleepqueue td = some own) (sq : ℕ) :
    own ∉ (s.queue sq).freeq := fun hmem => nomatch hs.eq_thread h (p := .free sq) hmem

theorem not_active_of_free (hs : s.Conserved) (h : own ∈ (s.queue sq).freeq) :
    ¬s.Active own := fun hact => by
  have := hs.exclusive.unique (show own ∈ s.held (.free sq) from h)
    (show own ∈ s.held (.chain _) from hact)
  cases this

theorem filter_freeq (hs : s.Conserved) (h : s.Active sq) (sq' : ℕ) :
    (s.queue sq').freeq.filter (· ≠ sq) = (s.queue sq').freeq :=
  List.filter_eq_self.2 fun x hx => by
    have : x ≠ sq := fun heq => hs.not_active_of_free hx (heq ▸ h)
    simpa using this

theorem lookup_eq_some (hs : s.Conserved) :
    s.lookup c = some sq ↔ s.Active sq ∧ (s.queue sq).wchan = c := by
  constructor
  · intro h
    have hc : (s.queue sq).wchan = c := by simpa using List.find?_some h
    exact ⟨hs.active_of_mem_queues (List.mem_of_find?_eq_some h), hc⟩
  · rintro ⟨hact, rfl⟩
    obtain ⟨sq', h⟩ := Option.isSome_iff_exists.1
      (List.find?_isSome.2 ⟨sq, hact, by simp⟩ : (s.lookup (s.queue sq).wchan).isSome)
    have hc : (s.queue sq').wchan = (s.queue sq).wchan := by simpa using List.find?_some h
    have heq := hs.oneActive (hs.active_of_mem_queues (List.mem_of_find?_eq_some h)) hact hc
    exact heq ▸ h

theorem lookup_eq_none (hs : s.Conserved) (h : s.lookup c = none) (hact : s.Active sq) :
    (s.queue sq).wchan ≠ c := fun hc => by
  rw [hs.lookup_eq_some.2 ⟨hact, hc⟩] at h
  cases h

end Conserved

theorem conserved_init {own : ℕ → ℕ} (hown : Function.Injective own) : (init own).Conserved where
  exclusive := by
    refine ⟨fun p => ?_, fun {p p' x} h h' => ?_⟩
    · cases p <;> simp [held, init]
    · cases p <;> cases p' <;> simp [held, init] at h h'
      exact congrArg _ (hown (h.symm.trans h'))
  hashed h := by simp [init] at h
  oneActive h := by simp [Active, init] at h
  active h := by simp [Active, init] at h
  idle _ := ⟨rfl, rfl⟩
  nodup _ := List.nodup_nil
  asleep h := by simp [init] at h
  awake _ := ⟨by simp [init], rfl⟩

/-! ### Joining a queue -/

section Add

variable (hs : s.Conserved) (hown : s.sleepqueue td = some own)
include hs hown

theorem Conserved.add_new (hl : s.lookup c = none) (hadd : s.add c td = some s') :
    s'.Conserved := by
  have honly := fun t => hs.sleepqueue_inj hown (t := t)
  have hchain := hs.not_mem_queues hown
  have hfree := hs.not_mem_freeq hown
  have hidle := hs.idle (hchain _)
  simp only [add, hl, hown, Option.some.injEq] at hadd
  have hq : s'.queue = update s.queue own ⟨[td], [], c⟩ := by
    rw [← hadd, hidle.1, hidle.2]
    rfl
  have hqs : s'.queues = update s.queues (scHash c) (own :: s.queues (scHash c)) := by
    rw [← hadd]
  have hsl : s'.sleepqueue = update s.sleepqueue td none := by
    rw [← hadd]
    rfl
  have hw : s'.wchan = update s.wchan td c := by
    rw [← hadd]
    rfl
  clear hadd
  have hact : ∀ sq, s'.Active sq ↔ sq = own ∨ s.Active sq := by
    intro sq
    simp only [Active, hq, hqs, update_apply]
    grind
  have hmove : Relocates (fun x p => x = own ∧ p = .chain (scHash c)) s.held s'.held := by
    refine .single fun x p => ?_
    cases p <;> simp only [held, hq, hqs, hsl, update_apply] <;> grind
  constructor
  · refine hmove.exclusive hs.exclusive fun p => ?_
    have := hs.exclusive.nodup p
    cases p <;> simp only [held, hq, hqs, hsl, update_apply] at this ⊢ <;> grind
  · have := @hs.hashed
    simp only [hq, hqs, update_apply]
    grind
  · have h1 := @hs.oneActive
    have h2 : ∀ {sq}, s.Active sq → (s.queue sq).wchan ≠ c := hs.lookup_eq_none hl
    simp only [hact, hq, update_apply]
    grind
  · have := @hs.active
    simp only [hact, hq, update_apply]
    grind
  · have := @hs.idle
    simp only [hact, hq, update_apply]
    grind
  · have := hs.nodup
    simp only [hq, update_apply]
    grind
  · have h1 := @hs.asleep
    have h2 := hs.awake_of_sleepqueue hown
    simp only [Sleeping, hq, hsl, hw, update_apply] at h2 ⊢
    grind
  · have := @hs.awake
    simp only [Sleeping, hq, hsl, hw, update_apply] at this ⊢
    grind

theorem Conserved.add_old (hl : s.lookup c = some sq) (hadd : s.add c td = some s') :
    s'.Conserved := by
  obtain ⟨hsq, rfl⟩ := hs.lookup_eq_some.1 hl
  have honly := fun t => hs.sleepqueue_inj hown (t := t)
  have hchain := hs.not_mem_queues hown
  have hfree := hs.not_mem_freeq hown
  simp only [add, hl, hown, Option.some.injEq] at hadd
  have hq : s'.queue = update s.queue sq ⟨td :: (s.queue sq).blocked,
      own :: (s.queue sq).freeq, (s.queue sq).wchan⟩ := by
    rw [← hadd]
    rfl
  have hqs : s'.queues = s.queues := by
    rw [← hadd]
    rfl
  have hsl : s'.sleepqueue = update s.sleepqueue td none := by
    rw [← hadd]
    rfl
  have hw : s'.wchan = update s.wchan td (s.queue sq).wchan := by
    rw [← hadd]
    rfl
  clear hadd
  have hwchan : ∀ q, (s'.queue q).wchan = (s.queue q).wchan := by
    simp only [hq, update_apply]
    grind
  have hact : ∀ q, s'.Active q ↔ s.Active q := by
    simp only [Active, hwchan, hqs, implies_true]
  have hmove : Relocates (fun x p => x = own ∧ p = .free sq) s.held s'.held := by
    refine .single fun x p => ?_
    cases p <;> simp only [held, hq, hqs, hsl, update_apply] <;> grind
  have hnone := hs.awake_of_sleepqueue hown
  constructor
  · refine hmove.exclusive hs.exclusive fun p => ?_
    have := hs.exclusive.nodup p
    cases p <;> simp only [held, hq, hqs, hsl, update_apply] at this ⊢ <;> grind
  · simpa only [hwchan, hqs] using @hs.hashed
  · simpa only [hact, hwchan] using @hs.oneActive
  · have := @hs.active
    simp only [hact, hq, update_apply]
    grind
  · have := @hs.idle
    simp only [hact, hq, update_apply]
    grind
  · have := hs.nodup
    simp only [Sleeping, hq, update_apply] at hnone ⊢
    grind
  · have := @hs.asleep
    simp only [Sleeping, hq, hsl, hw, update_apply] at hnone ⊢
    grind
  · have := @hs.awake
    simp only [Sleeping, hq, hsl, hw, update_apply] at this ⊢
    grind

end Add

theorem Conserved.add (hs : s.Conserved) (h : s.add c td = some s') : s'.Conserved := by
  cases hown : s.sleepqueue td with
  | none => simp [Sleepq.add, hown] at h
  | some own =>
      cases hl : s.lookup c with
      | none => exact hs.add_new hown hl h
      | some sq => exact hs.add_old hown hl h

/-! ### Leaving a queue -/

section Remove

variable {more : Bool} (hs : s.Conserved) (hmem : td ∈ (s.queue sq).blocked)
include hs hmem

theorem Conserved.length_filter :
    ((s.queue sq).blocked.filter (· ≠ td)).length = (s.queue sq).freeq.length := by
  have herase := (hs.nodup sq).erase_eq_filter td
  have hlen := List.length_erase_of_mem hmem
  have hact := hs.active (hs.active_of_mem hmem)
  have hsame : (s.queue sq).blocked.filter (· ≠ td) = (s.queue sq).blocked.filter (· != td) :=
    List.filter_congr fun x _ => by by_cases hx : x = td <;> simp [hx]
  rw [hsame, ← herase]
  omega

theorem Conserved.remove_last (hlast : (s.queue sq).blocked.filter (· ≠ td) = [])
    (h : s.remove sq td = some (s', more)) : s'.Conserved := by
  have hsq := hs.active_of_mem hmem
  have hfreeq : (s.queue sq).freeq = [] := by
    rw [← List.length_eq_zero_iff, ← hs.length_filter hmem, hlast, List.length_nil]
  have hothers : ∀ t, t ∈ (s.queue sq).blocked → t = td := by
    intro t ht
    by_contra hne
    exact List.not_mem_nil (hlast ▸ List.mem_filter.2 ⟨ht, by simpa using hne⟩)
  have hthread := fun t own (h : s.sleepqueue t = some own) => hs.not_mem_queues h
  have hfree : ∀ q, sq ∉ (s.queue q).freeq := fun q hq => hs.not_active_of_free hq hsq
  simp only [remove, hlast, if_true, Option.some.injEq, Prod.mk.injEq] at h
  have hb : ∀ q, (s'.queue q).blocked = if q = sq then [] else (s.queue q).blocked := by
    intro q
    rw [← h.1]
    simp only [unlink, setThread, setQueue, update_apply]
    split <;> rfl
  have hf : ∀ q, (s'.queue q).freeq = (s.queue q).freeq := by
    intro q
    rw [← h.1, ← hs.filter_freeq hsq q]
    simp only [unlink, setThread, setQueue, update_apply]
    split <;> simp_all
  have hwchan : ∀ q, (s'.queue q).wchan = (s.queue q).wchan := by
    intro q
    rw [← h.1]
    simp only [unlink, setThread, setQueue, update_apply]
    grind
  have hqs : ∀ c, s'.queues c = (s.queues c).filter (· ≠ sq) := by
    intro c
    rw [← h.1]
    rfl
  have hsl : s'.sleepqueue = update s.sleepqueue td (some sq) := by
    rw [← h.1]
    rfl
  have hw : s'.wchan = update s.wchan td 0 := by
    rw [← h.1]
    rfl
  clear h
  have hact : ∀ q, s'.Active q ↔ q ≠ sq ∧ s.Active q := by
    intro q
    simp only [Active, hwchan, hqs]
    grind
  have hmove : Relocates (fun x p => x = sq ∧ p = .thread td) s.held s'.held := by
    refine .single fun x p => ?_
    have := (hs.asleep hmem).1
    unfold Active at hsq
    cases p <;> simp only [held, hf, hqs, hsl, update_apply] <;> grind
  constructor
  · refine hmove.exclusive hs.exclusive fun p => ?_
    have := hs.exclusive.nodup p
    cases p <;> simp only [held, hf, hqs, hsl, update_apply] at this ⊢ <;> grind
  · have := @hs.hashed
    simp only [hwchan, hqs]
    grind
  · have := @hs.oneActive
    simp only [hact, hwchan]
    grind
  · have := @hs.active
    simp only [hact, hb, hf]
    grind
  · have := @hs.idle
    simp only [hact, hb, hf]
    grind
  · have := hs.nodup
    simp only [hb]
    grind
  · have h1 := @hs.asleep
    have h2 : ∀ {q}, td ∈ (s.queue q).blocked → sq = q := hs.eq_of_mem hmem
    simp only [hb, hwchan, hsl, hw, update_apply]
    grind
  · have := @hs.awake
    simp only [Sleeping, hb, hsl, hw, update_apply] at this ⊢
    grind

theorem Conserved.remove_other {rest : List ℕ} (hfreeq : (s.queue sq).freeq = own :: rest)
    (h : s.remove sq td = some (s', more)) : s'.Conserved := by
  have hsq := hs.active_of_mem hmem
  have hlen := hs.length_filter hmem
  have hlast : (s.queue sq).blocked.filter (· ≠ td) ≠ [] := by
    rintro hnil
    rw [hnil, hfreeq] at hlen
    simp at hlen
  simp only [remove, hlast, hfreeq, if_false, Option.some.injEq, Prod.mk.injEq] at h
  have hq : s'.queue = update s.queue sq
      ⟨(s.queue sq).blocked.filter (· ≠ td), rest, (s.queue sq).wchan⟩ := by
    rw [← h.1]
    rfl
  have hqs : s'.queues = s.queues := by
    rw [← h.1]
    rfl
  have hsl : s'.sleepqueue = update s.sleepqueue td (some own) := by
    rw [← h.1]
    rfl
  have hw : s'.wchan = update s.wchan td 0 := by
    rw [← h.1]
    rfl
  clear h
  have hwchan : ∀ q, (s'.queue q).wchan = (s.queue q).wchan := by
    simp only [hq, update_apply]
    grind
  have hact : ∀ q, s'.Active q ↔ s.Active q := by
    simp only [Active, hwchan, hqs, implies_true]
  have hmove : Relocates (fun x p => x = own ∧ p = .thread td) s.held s'.held := by
    refine .single fun x p => ?_
    have h1 := (hs.asleep hmem).1
    have h2 := hs.exclusive.nodup (.free sq)
    have h3 : ∀ p, own ∈ s.held p → own ∈ s.held (.free sq) → p = .free sq := fun p =>
      hs.exclusive.unique
    have h4 := fun t => h3 (.thread t)
    have h5 := fun c => h3 (.chain c)
    have h6 := fun q => h3 (.free q)
    simp only [held, hfreeq] at h2 h4 h5 h6
    cases p <;> simp only [held, hq, hqs, hsl, update_apply] <;> grind
  constructor
  · refine hmove.exclusive hs.exclusive fun p => ?_
    have := hs.exclusive.nodup p
    cases p <;> simp only [held, hq, hqs, hsl, update_apply] at this ⊢ <;> grind
  · simpa only [hwchan, hqs] using @hs.hashed
  · simpa only [hact, hwchan] using @hs.oneActive
  · have := @hs.active
    simp only [hact, hq, update_apply]
    grind
  · have := @hs.idle
    simp only [hact, hq, update_apply]
    grind
  · have := hs.nodup
    simp only [hq, update_apply]
    grind
  · have h1 := @hs.asleep
    have h2 : ∀ {q}, td ∈ (s.queue q).blocked → sq = q := hs.eq_of_mem hmem
    simp only [hq, hsl, hw, update_apply]
    grind
  · have := @hs.awake
    simp only [Sleeping, hq, hsl, hw, update_apply] at this ⊢
    grind

end Remove

theorem Conserved.remove_total (hs : s.Conserved) (hmem : td ∈ (s.queue sq).blocked) :
    ∃ r, s.remove sq td = some r := by
  have hlen := hs.length_filter hmem
  simp only [Sleepq.remove]
  split
  · exact ⟨_, rfl⟩
  · next hne =>
    split
    · next hnil =>
      rw [hnil] at hlen
      exact absurd (List.length_eq_zero_iff.1 hlen) hne
    · exact ⟨_, rfl⟩

theorem Conserved.remove (hs : s.Conserved) (hmem : td ∈ (s.queue sq).blocked) {more : Bool}
    (h : s.remove sq td = some (s', more)) : s'.Conserved := by
  cases hfreeq : (s.queue sq).freeq with
  | nil =>
      have hlen := hs.length_filter hmem
      rw [hfreeq] at hlen
      exact hs.remove_last hmem (List.length_eq_zero_iff.1 hlen) h
  | cons own rest => exact hs.remove_other hmem hfreeq h

/-! ### Everybody leaves -/

theorem giveEach_spec {tds sqs : List ℕ} (hlen : tds.length = sqs.length) (hn : tds.Nodup) :
    ∃ s', s.giveEach tds sqs = some s' ∧ s'.queue = s.queue ∧ s'.queues = s.queues ∧
      (∀ t x, s'.sleepqueue t = some x ↔
        (t, x) ∈ tds.zip sqs ∨ t ∉ tds ∧ s.sleepqueue t = some x) ∧
      ∀ t, s'.wchan t = if t ∈ tds then 0 else s.wchan t := by
  induction tds generalizing s sqs with
  | nil => exact ⟨s, rfl, rfl, rfl, by simp, by simp⟩
  | cons td tds ih =>
      cases sqs with
      | nil => simp at hlen
      | cons sq sqs =>
          obtain ⟨hnot, hn⟩ := List.nodup_cons.1 hn
          obtain ⟨s', h, hq, hqs, hsl, hw⟩ :=
            ih (s := s.setThread td (some sq) 0) (by simpa using hlen) hn
          refine ⟨s', h, hq, hqs, fun t x => ?_, fun t => ?_⟩
          · have hzip := fun h => hnot (List.of_mem_zip h : td ∈ tds ∧ x ∈ sqs).1
            rw [hsl]
            simp only [setThread, update_apply, List.zip_cons_cons, List.mem_cons]
            grind
          · rw [hw]
            simp only [setThread, update_apply, List.mem_cons]
            grind

theorem drop_of_cons {rest : List ℕ} (h : (s.queue sq).blocked = td :: rest) :
    s.drop sq = (((s.unlink sq).setThread td (some sq) 0).giveEach rest (s.queue sq).freeq).map
      fun s => s.setQueue sq { s.queue sq with blocked := [], freeq := [] } := by
  simp only [drop, h]

theorem Conserved.drop_eq {rest : List ℕ} (hs : s.Conserved)
    (hblocked : (s.queue sq).blocked = td :: rest) :
    ∃ s', s.drop sq = some s' ∧
      (∀ q, s'.queue q = if q = sq then ⟨[], [], (s.queue sq).wchan⟩ else s.queue q) ∧
      (∀ c, s'.queues c = (s.queues c).filter (· ≠ sq)) ∧
      (∀ t x, s'.sleepqueue t = some x ↔ (t, x) ∈ rest.zip (s.queue sq).freeq ∨
        t ∉ rest ∧ if t = td then sq = x else s.sleepqueue t = some x) ∧
      ∀ t, s'.wchan t = if t ∈ (s.queue sq).blocked then 0 else s.wchan t := by
  have hsq := hs.active_of_mem (show td ∈ (s.queue sq).blocked by simp [hblocked])
  have hlen := hs.active hsq
  have hnodup := hs.nodup sq
  rw [hblocked] at hlen hnodup
  have hlen' : rest.length = (s.queue sq).freeq.length := by simpa using hlen.symm
  obtain ⟨s₁, h, hq₁, hqs₁, hsl₁, hw₁⟩ :=
    giveEach_spec (s := (s.unlink sq).setThread td (some sq) 0) hlen' (List.nodup_cons.1 hnodup).2
  rw [drop_of_cons hblocked, h, Option.map_some]
  refine ⟨_, rfl, fun q => ?_, fun c => ?_, fun t x => ?_, fun t => ?_⟩
  · have := hs.filter_freeq hsq q
    simp only [setQueue, update_apply, hq₁, unlink, setThread, this]
  · simp only [setQueue, hqs₁, unlink, setThread]
  · simp only [setQueue, hsl₁, setThread, unlink, update_apply]
    grind
  · rw [hblocked]
    simp only [setQueue, hw₁, setThread, unlink, update_apply, List.mem_cons]
    grind

theorem Conserved.drop (hs : s.Conserved) : ∃ s', s.drop sq = some s' ∧ s'.Conserved := by
  cases hblocked : (s.queue sq).blocked with
  | nil => exact ⟨s, by simp only [Sleepq.drop, hblocked], hs⟩
  | cons td rest =>
  have hmem : td ∈ (s.queue sq).blocked := by simp [hblocked]
  have hsq := hs.active_of_mem hmem
  have hlen := hs.active hsq
  have hnodup := hs.nodup sq
  rw [hblocked] at hlen hnodup
  obtain ⟨s', h, hq, hqs, hsl, hw⟩ := hs.drop_eq hblocked
  refine ⟨s', h, ?_⟩
  have hfreeq : (s.queue sq).freeq.Nodup := hs.exclusive.nodup (.free sq)
  have hzip : ∀ {t x}, (t, x) ∈ rest.zip (s.queue sq).freeq →
      t ∈ rest ∧ x ∈ (s.queue sq).freeq := List.of_mem_zip
  have hact : ∀ q, s'.Active q ↔ q ≠ sq ∧ s.Active q := by
    intro q
    simp only [Active, hq, hqs]
    grind
  have hmove : Relocates (fun x p => x = sq ∧ p = .thread td ∨
      ∃ t, (t, x) ∈ rest.zip (s.queue sq).freeq ∧ p = .thread t) s.held s'.held := by
    have hmoved : ∀ x, (∀ p', ¬(x = sq ∧ p' = .thread td ∨
        ∃ t, (t, x) ∈ rest.zip (s.queue sq).freeq ∧ p' = SleepqPlace.thread t)) ↔
        x ≠ sq ∧ x ∉ (s.queue sq).freeq := by
      intro x
      have : x ∈ (s.queue sq).freeq → ∃ t, (t, x) ∈ rest.zip (s.queue sq).freeq :=
        List.exists_mem_zip (by simpa using Nat.le_of_eq hlen)
      grind
    have hfree : ∀ p x, x ∈ s.held p → x ∈ (s.queue sq).freeq → p = .free sq := fun p x h h' =>
      hs.exclusive.unique h (show x ∈ s.held (.free sq) from h')
    have hchain : ∀ p, sq ∈ s.held p → p = .chain _ := fun p h =>
      hs.exclusive.unique h (show sq ∈ s.held (.chain _) from hsq)
    refine ⟨fun x p => ?_, ?_⟩
    · rw [hmoved]
      have h1 := hfree p x
      have h2 := hchain p
      cases p with
      | thread t =>
          have h3 : t ∈ (s.queue sq).blocked → _ := hs.asleep
          simp only [held, Option.mem_toList, hsl, hblocked] at h1 h2 h3 ⊢
          grind
      | chain c =>
          simp only [held, hqs] at h1 h2 ⊢
          grind
      | free q =>
          simp only [held, hq] at h1 h2 ⊢
          grind
    · have hone : ∀ {x t t'}, (t, x) ∈ rest.zip (s.queue sq).freeq →
          (t', x) ∈ rest.zip (s.queue sq).freeq → t = t' := hfreeq.zip_left_unique
      have : sq ∉ (s.queue sq).freeq := fun h => hs.not_active_of_free h hsq
      grind
  constructor
  · refine hmove.exclusive hs.exclusive fun p => ?_
    have := hs.exclusive.nodup p
    cases p with
    | thread t => cases h : s'.sleepqueue t <;> simp [held, h]
    | chain c => simpa only [held, hqs] using this.filter _
    | free q =>
        simp only [held, hq] at this ⊢
        grind
  · have := @hs.hashed
    simp only [hq, hqs]
    grind
  · have := @hs.oneActive
    simp only [hact, hq]
    grind
  · have := @hs.active
    simp only [hact, hq]
    grind
  · have := @hs.idle
    simp only [hact, hq]
    grind
  · have := hs.nodup
    simp only [hq]
    grind
  · have h1 := @hs.asleep
    have h2 : ∀ {t q}, t ∈ (s.queue sq).blocked → t ∈ (s.queue q).blocked → sq = q :=
      hs.eq_of_mem
    simp only [hq, hw, Option.eq_none_iff_forall_ne_some, ne_eq, hsl]
    grind
  · intro t hno
    by_cases ht : t ∈ (s.queue sq).blocked
    · refine ⟨Option.ne_none_iff_exists'.2 ?_, by rw [hw, if_pos ht]⟩
      rcases List.mem_cons.1 (hblocked ▸ ht) with rfl | hrest
      · exact ⟨sq, (hsl _ _).2 (.inr ⟨(List.nodup_cons.1 hnodup).1, by simp⟩)⟩
      · have hlen' : rest.length ≤ (s.queue sq).freeq.length := by
          simpa using Nat.le_of_eq hlen.symm
        obtain ⟨x, hx⟩ := List.exists_zip_mem hlen' hrest
        exact ⟨x, (hsl _ _).2 (.inl hx)⟩
    · have hawake : ¬s.Sleeping t := by
        rintro ⟨q, hmem⟩
        have hne : q ≠ sq := fun h => ht (h ▸ hmem)
        exact hno ⟨q, by rwa [hq, if_neg hne]⟩
      obtain ⟨own, hown⟩ := Option.ne_none_iff_exists'.1 (hs.awake hawake).1
      have hne : t ∉ rest ∧ t ≠ td := by grind
      refine ⟨Option.ne_none_iff_exists'.2 ⟨own, (hsl _ _).2 (.inr ⟨hne.1, ?_⟩)⟩, ?_⟩
      · rwa [if_neg hne.2]
      · rw [hw, if_neg ht, (hs.awake hawake).2]

/-! ### What the other threads see -/

theorem remove_frame {more : Bool} (h : s.remove sq td = some (s', more)) :
    (∀ q, (s'.queue q).blocked =
      if q = sq then (s.queue sq).blocked.filter (· ≠ td) else (s.queue q).blocked) ∧
      s'.wchan = update s.wchan td 0 := by
  simp only [remove] at h
  split at h
  · next hnil =>
    cases h
    refine ⟨fun q => ?_, rfl⟩
    simp only [unlink, setThread, setQueue, update_apply]
    split <;> simp_all
  · split at h
    · cases h
    · cases h
      refine ⟨fun q => ?_, rfl⟩
      simp only [setThread, setQueue, update_apply]
      split <;> rfl

theorem Conserved.sleeping_remove {more : Bool} (hs : s.Conserved)
    (hmem : td ∈ (s.queue sq).blocked) (h : s.remove sq td = some (s', more)) :
    s'.Sleeping t ↔ s.Sleeping t ∧ t ≠ td := by
  have hb := (remove_frame h).1
  have hone : ∀ {q}, td ∈ (s.queue q).blocked → sq = q := hs.eq_of_mem hmem
  simp only [Sleeping, hb]
  grind

theorem sleeping_add (h : s.add c td = some s') : s'.Sleeping t → t = td ∨ s.Sleeping t := by
  rintro ⟨q, hq⟩
  simp only [add] at h
  split at h
  · cases h
  all_goals
    cases h
    simp only [setQueue, setThread, update_apply] at hq
    split at hq
    · rcases List.mem_cons.1 hq with ht | ht
      · exact .inl ht
      · exact .inr ⟨_, ht⟩
    · exact .inr ⟨_, hq⟩

theorem add_wchan (h : s.add c td = some s') : s'.wchan = update s.wchan td c := by
  simp only [add] at h
  split at h <;> cases h <;> rfl

theorem Conserved.sleeping_drop (hs : s.Conserved) (h : s.drop sq = some s')
    (ht : s'.Sleeping t) : s.Sleeping t ∧ s'.wchan t = s.wchan t := by
  cases hblocked : (s.queue sq).blocked with
  | nil =>
      simp only [Sleepq.drop, hblocked] at h
      cases h
      exact ⟨ht, rfl⟩
  | cons td rest =>
      obtain ⟨s₁, h₁, hq, -, -, hw⟩ := hs.drop_eq hblocked
      cases h₁.symm.trans h
      obtain ⟨q, hmem⟩ := ht
      rw [hq] at hmem
      by_cases hne : q = sq
      · simp [hne] at hmem
      · rw [if_neg hne] at hmem
        refine ⟨⟨q, hmem⟩, ?_⟩
        rw [hw, if_neg fun hin => hne (hs.eq_of_mem hmem hin)]

/-! ### Runs -/

/-- Blocking lends an object to a channel, and waking gives one back. -/
theorem Conserved.step {a : SleepqAction} (hs : s.Conserved) (hok : s.Queued a)
    (h : s.step a = some s') : s'.Conserved := by
  cases a with
  | add c td => exact hs.add h
  | remove sq td =>
      obtain ⟨⟨s₁, more⟩, hr, rfl⟩ := Option.map_eq_some_iff.1 h
      exact hs.remove hok hr
  | drop sq =>
      obtain ⟨s₁, h₁, hs₁⟩ : ∃ s', s.drop sq = some s' ∧ s'.Conserved := hs.drop
      rw [Sleepq.step, h₁] at h
      cases h
      exact hs₁

theorem Conserved.channel (hs : s.Conserved) (h : s.BlockedOn c td) :
    ∃ sq, s.lookup c = some sq ∧
      (∀ sq' h, sq' ∈ s.queues h → (s.queue sq').wchan = c → sq' = sq) ∧
      (∀ t, s.BlockedOn c t ↔ t ∈ (s.queue sq).blocked) ∧
      (s.queue sq).blocked.Nodup ∧
      (s.queue sq).freeq.length + 1 = (s.queue sq).blocked.length := by
  obtain ⟨sq, hmem, hc⟩ := h
  have hsq := hs.active_of_mem hmem
  have hone : ∀ {sq'}, s.Active sq' → (s.queue sq').wchan = c → sq' = sq := fun h h' =>
    hs.oneActive h hsq (h'.trans hc.symm)
  refine ⟨sq, hs.lookup_eq_some.2 ⟨hsq, hc⟩, fun sq' h h' hc' =>
    hone (hs.active_of_mem_queues h') hc', fun t => ⟨?_, fun ht => ⟨sq, ht, hc⟩⟩, hs.nodup sq,
    hs.active hsq⟩
  rintro ⟨sq', ht, hc'⟩
  exact hone (hs.active_of_mem ht) hc' ▸ ht

theorem Conserved.enabled {a : SleepqAction} (hs : s.Conserved) (hok : s.Queued a)
    (hadd : ∀ c td, a = .add c td → ¬s.Sleeping td) : ∃ s', s.step a = some s' := by
  cases a with
  | add c td =>
      obtain ⟨own, hown⟩ := Option.ne_none_iff_exists'.1 (hs.awake (hadd c td rfl)).1
      simp only [Sleepq.step, Sleepq.add, hown]
      split <;> simp_all
  | remove sq td =>
      obtain ⟨r, hr⟩ := hs.remove_total hok
      exact ⟨r.1, by rw [Sleepq.step, hr]; rfl⟩
  | drop sq =>
      obtain ⟨s₁, h₁, -⟩ : ∃ s', s.drop sq = some s' ∧ s'.Conserved := hs.drop
      exact ⟨s₁, h₁⟩

end Sleepq

open Sleepq

variable {s : Sleepq} {own : ℕ → ℕ}

theorem conserved_of_reachable (hown : Function.Injective own)
    (h : Reachable Sleepq.step Queued (init own) s) : s.Conserved :=
  h.invariant (conserved_init hown) fun _ _ _ hs hok h => hs.step hok h

/-- Whatever threads queue themselves, leave or are dropped: a thread has its object or sleeps,
every object is in one place, and a channel with blocked threads has one active object, which
`SleepqLookup` finds, and one less on its free list than threads. -/
theorem sleepqueue_ownership_conserved (hown : Function.Injective own)
    (h : Reachable Sleepq.step Queued (init own) s) :
    (∀ td, ¬s.Sleeping td → ∃ sq, s.sleepqueue td = some sq) ∧
      (∀ td, s.Sleeping td → s.sleepqueue td = none) ∧ Exclusive s.held ∧
      (∀ c td, s.BlockedOn c td → s.wchan td = c ∧ ∃ sq, s.lookup c = some sq ∧
        (∀ sq' h, sq' ∈ s.queues h → (s.queue sq').wchan = c → sq' = sq) ∧
        (∀ t, s.BlockedOn c t ↔ t ∈ (s.queue sq).blocked) ∧
        (s.queue sq).blocked.Nodup ∧
        (s.queue sq).freeq.length + 1 = (s.queue sq).blocked.length) ∧
      ∀ a, s.Queued a → (∀ c td, a = .add c td → ¬s.Sleeping td) →
        ∃ s', s.step a = some s' := by
  have hs := conserved_of_reachable hown h
  refine ⟨fun td hawake => Option.ne_none_iff_exists'.1 (hs.awake hawake).1, ?_, hs.exclusive,
    fun c td hc => ⟨?_, hs.channel hc⟩, fun a hok hadd => hs.enabled hok hadd⟩
  · rintro td ⟨sq, hmem⟩
    exact (hs.asleep hmem).1
  · obtain ⟨sq, hmem, rfl⟩ := hc
    exact (hs.asleep hmem).2

/-- Two channels of one chain, the first with two threads, of which the one leaves that brought
the active object. -/
theorem sleepqueue_ownership_conserved_collision :
    scHash 8 = scHash 4096 ∧ ∃ s, run Sleepq.step (init id)
      [.add 8 1, .add 4096 2, .add 8 3, .remove 1 1] = some s ∧ Exclusive s.held := by
  refine ⟨by decide, ?_⟩
  have hrun : (run Sleepq.step (init id)
      [.add 8 1, .add 4096 2, .add 8 3, .remove 1 1]).isSome := by decide
  obtain ⟨s, hs⟩ := Option.isSome_iff_exists.1 hrun
  have hok : AllOk Sleepq.step Queued (init id)
      [.add 8 1, .add 4096 2, .add 8 3, .remove 1 1] := by
    refine ⟨trivial, fun s₁ h₁ => ⟨trivial, fun s₂ h₂ => ⟨trivial, fun s₃ h₃ => ⟨?_, fun _ _ =>
      trivial⟩⟩⟩⟩
    cases h₁
    cases h₂
    cases h₃
    change 1 ∈ [3, 1]
    simp
  exact ⟨s, hs, (sleepqueue_ownership_conserved Function.injective_id
    (reachable_of_run hs hok)).2.2.1⟩

end OrbitConsole.Kernel
