import Mathlib.Data.List.Basic
import Mathlib.Data.Nat.Notation
import Mathlib.Tactic.Common

/-!
# Accesses and barriers

What a block does to shared memory, as a list of events; what the placing of
barriers makes of it; and when the accesses of consecutive blocks stay apart.
-/

namespace OrbitConsole.ShaderRecompiler

inductive Access
  | load
  | write
  deriving DecidableEq

inductive MemoryEvent
  | access (kind : Access)
  | barrier
  | other
  deriving DecidableEq

namespace MemoryEvent

def isAccess : MemoryEvent → Bool
  | .access _ => true
  | _ => false

/-- Between a write and a read, or a read and a write, that follow one another is a barrier. -/
def Separated (events : List MemoryEvent) : Prop :=
  ∀ before x between y behind, events = before ++ .access x :: between ++ .access y :: behind →
    x ≠ y → (∀ z ∈ between, z.isAccess = false) → .barrier ∈ between

def spread : Option Access → List MemoryEvent → List MemoryEvent
  | _, [] => []
  | last, .access kind :: rest =>
      if last = none ∨ last = some kind then .access kind :: spread (some kind) rest
      else .barrier :: .access kind :: spread (some kind) rest
  | last, z :: rest => z :: spread last rest

def placed (events : List MemoryEvent) : List MemoryEvent :=
  let new := spread none events
  if events.any isAccess then
    new.take (new.length - 1) ++ .barrier :: new.drop (new.length - 1)
  else new

variable {events : List MemoryEvent} {last : Option Access}

def lastAccess (last : Option Access) : List MemoryEvent → Option Access
  | [] => last
  | .access kind :: rest => lastAccess (some kind) rest
  | _ :: rest => lastAccess last rest

theorem spread_append (a b : List MemoryEvent) :
    spread last (a ++ b) = spread last a ++ spread (lastAccess last a) b := by
  induction a generalizing last with
  | nil => rfl
  | cons z a ih =>
      cases z with
      | access kind =>
          simp only [List.cons_append, spread, lastAccess]
          split <;> simp [ih]
      | barrier => simp [spread, lastAccess, ih]
      | other => simp [spread, lastAccess, ih]

theorem spread_eq_self (h : ∀ z ∈ events, z.isAccess = false) : spread last events = events := by
  induction events generalizing last with
  | nil => rfl
  | cons z rest ih =>
      have hz := h z List.mem_cons_self
      have ih : spread last rest = rest := ih fun x hx => h x (List.mem_cons_of_mem _ hx)
      cases z with
      | access kind => cases hz
      | barrier => rw [spread, ih]; exact fun _ h => nomatch h
      | other => rw [spread, ih]; exact fun _ h => nomatch h

theorem lastAccess_eq_self (h : ∀ z ∈ events, z.isAccess = false) :
    lastAccess last events = last := by
  induction events generalizing last with
  | nil => rfl
  | cons z rest ih =>
      have hz := h z List.mem_cons_self
      have ih : lastAccess last rest = last := ih fun x hx => h x (List.mem_cons_of_mem _ hx)
      cases z with
      | access kind => cases hz
      | barrier => exact ih
      | other => exact ih

theorem placed_eq_self (h : ∀ z ∈ events, z.isAccess = false) : placed events = events := by
  have hany : events.any isAccess = false := by
    rw [List.any_eq_false]
    intro z hz
    simp [h z hz]
  unfold placed
  simp only [hany, Bool.false_eq_true, if_false]
  exact spread_eq_self h

theorem placed_concat {z : MemoryEvent} (h : ∃ x ∈ events ++ [z], x.isAccess = true) :
    ∃ new, placed (events ++ [z]) = new ++ [.barrier, z] ∧
      (new = spread none events ∨ new = spread none events ++ [.barrier]) := by
  have hany : (events ++ [z]).any isAccess = true := List.any_eq_true.2 h
  have hlast : ∃ new, spread none (events ++ [z]) = new ++ [z] ∧
      (new = spread none events ∨ new = spread none events ++ [.barrier]) := by
    rw [spread_append]
    cases z with
    | access kind =>
        simp only [spread]
        split
        · exact ⟨_, rfl, .inl rfl⟩
        · exact ⟨spread none events ++ [.barrier], by simp, .inr rfl⟩
    | barrier => exact ⟨_, rfl, .inl rfl⟩
    | other => exact ⟨_, rfl, .inl rfl⟩
  obtain ⟨new, heq, hnew⟩ := hlast
  refine ⟨new, ?_, hnew⟩
  unfold placed
  simp [hany, heq]

/-! ### One block -/

def SeparatedFrom : Option Access → List MemoryEvent → Prop
  | _, [] => True
  | last, .access kind :: rest =>
      (last = none ∨ last = some kind) ∧ SeparatedFrom (some kind) rest
  | _, .barrier :: rest => SeparatedFrom none rest
  | last, .other :: rest => SeparatedFrom last rest

theorem SeparatedFrom.reset (h : SeparatedFrom last events) : SeparatedFrom none events := by
  induction events generalizing last with
  | nil => trivial
  | cons z rest ih =>
      cases z with
      | access kind => exact ⟨.inl rfl, h.2⟩
      | barrier => exact h
      | other => exact ih h

theorem SeparatedFrom.insert {a b : List MemoryEvent} (h : SeparatedFrom last (a ++ b)) :
    SeparatedFrom last (a ++ .barrier :: b) := by
  induction a generalizing last with
  | nil => exact h.reset
  | cons z a ih =>
      cases z with
      | access kind => exact ⟨h.1, ih h.2⟩
      | barrier => exact ih h
      | other => exact ih h

theorem separatedFrom_spread : SeparatedFrom last (spread last events) := by
  induction events generalizing last with
  | nil => trivial
  | cons z rest ih =>
      cases z with
      | access kind =>
          rw [spread]
          split
          · next h => exact ⟨h, ih⟩
          · exact ⟨.inl rfl, ih⟩
      | barrier =>
          rw [spread]
          · exact ih.reset
          · exact fun _ h => nomatch h
      | other =>
          rw [spread]
          · exact ih
          · exact fun _ h => nomatch h

theorem SeparatedFrom.drop {a b : List MemoryEvent} (h : SeparatedFrom last (a ++ b)) :
    SeparatedFrom none b := by
  induction a generalizing last with
  | nil => exact h.reset
  | cons z a ih =>
      cases z with
      | access kind => exact ih h.2
      | barrier => exact ih h
      | other => exact ih h

theorem SeparatedFrom.separated (h : SeparatedFrom last events) : Separated events := by
  rintro before x between y behind rfl hne hbetween
  rw [List.append_assoc] at h
  replace h := h.drop.2
  by_contra hbarrier
  have hother : ∀ z ∈ between, z = .other := by
    intro z hz
    cases z with
    | access kind => exact absurd (hbetween _ hz) (by simp [isAccess])
    | barrier => exact absurd hz hbarrier
    | other => rfl
  clear hbetween hbarrier
  induction between with
  | nil =>
      rcases h.1 with h | h
      · cases h
      · exact hne (Option.some.inj h)
  | cons z rest ih =>
      obtain rfl := hother z List.mem_cons_self
      exact ih h fun z hz => hother z (List.mem_cons_of_mem _ hz)

theorem separated_placed (events : List MemoryEvent) : Separated (placed events) := by
  have hspread : SeparatedFrom none (spread none events) := separatedFrom_spread
  suffices h : SeparatedFrom none (placed events) from h.separated
  unfold placed
  dsimp only
  split
  · refine SeparatedFrom.insert ?_
    rwa [List.take_append_drop]
  · exact hspread

theorem exists_access_of_mem_placed {x : Access} (h : .access x ∈ placed events) :
    ∃ z ∈ events, z.isAccess = true := by
  by_contra hnone
  have hall : ∀ z ∈ events, z.isAccess = false := by simpa using hnone
  rw [placed_eq_self hall] at h
  exact absurd (hall _ h) (by simp [isAccess])

theorem placed_getLast? (events : List MemoryEvent) :
    (placed events).getLast? = events.getLast? := by
  by_cases h : ∃ z ∈ events, z.isAccess = true
  · have hne : events ≠ [] := fun hnil => by simp [hnil] at h
    obtain ⟨init, z, rfl⟩ := List.eq_nil_or_concat events |>.resolve_left hne
    rw [List.concat_eq_append] at h ⊢
    obtain ⟨new, heq, -⟩ := placed_concat h
    simp [heq]
  · rw [placed_eq_self (by simpa using h)]

theorem placed_of_first {first rest : List MemoryEvent} {y : Access}
    (hfirst : ∀ z ∈ first, z.isAccess = false) (hrest : rest ≠ []) :
    ∃ rest', placed (first ++ .access y :: rest) = first ++ .access y :: rest' := by
  obtain ⟨rest, z, rfl⟩ := List.eq_nil_or_concat rest |>.resolve_left hrest
  have hany : ∃ x ∈ (first ++ .access y :: rest) ++ [z], x.isAccess = true :=
    ⟨.access y, by simp, rfl⟩
  obtain ⟨new, heq, hnew⟩ := placed_concat hany
  have hspread : spread none (first ++ .access y :: rest) =
      first ++ .access y :: spread (some y) rest := by
    rw [spread_append, spread_eq_self hfirst, lastAccess_eq_self hfirst]
    simp [spread]
  rw [List.append_assoc, List.cons_append] at heq
  rw [List.concat_eq_append, heq]
  rcases hnew with rfl | rfl
  · exact ⟨spread (some y) rest ++ [.barrier, z], by simp [hspread]⟩
  · exact ⟨spread (some y) rest ++ [.barrier, .barrier, z], by simp [hspread]⟩

theorem of_spread_eq {first rest : List MemoryEvent} {y : Access}
    (h : spread none events = first ++ .access y :: rest) (hfirst : ∀ z ∈ first, z = .other) :
    ∃ rest', events = first ++ .access y :: rest' := by
  induction first generalizing events with
  | nil =>
      cases events with
      | nil => cases h
      | cons z events =>
          cases z with
          | access kind =>
              simp only [spread, true_or, if_true, List.nil_append, List.cons.injEq,
                access.injEq] at h
              exact ⟨events, by rw [h.1]; rfl⟩
          | barrier => simp [spread] at h
          | other => simp [spread] at h
  | cons w first ih =>
      obtain rfl := hfirst w List.mem_cons_self
      cases events with
      | nil => cases h
      | cons z events =>
          cases z with
          | access kind => simp [spread] at h
          | barrier => simp [spread] at h
          | other =>
              simp only [spread, List.cons_append, List.cons.injEq, true_and] at h
              obtain ⟨rest', rfl⟩ := ih h fun z hz => hfirst z (List.mem_cons_of_mem _ hz)
              exact ⟨rest', rfl⟩

theorem prefix_of_append_barrier {a b first rest : List MemoryEvent} {y : Access}
    (h : a ++ .barrier :: b = first ++ .access y :: rest) (hfirst : ∀ z ∈ first, z = .other) :
    ∃ rest', a = first ++ .access y :: rest' := by
  rcases List.append_eq_append_iff.1 h with ⟨c, rfl, hc⟩ | ⟨c, rfl, hc⟩
  · cases c with
    | nil => cases hc
    | cons z c =>
        obtain ⟨rfl, -⟩ := List.cons.inj hc
        cases hfirst .barrier (by simp)
  · cases c with
    | nil => cases hc
    | cons z c =>
        obtain ⟨rfl, -⟩ := List.cons.inj hc
        exact ⟨c, rfl⟩

theorem of_placed_eq_first {first rest : List MemoryEvent} {y : Access}
    (h : placed events = first ++ .access y :: rest) (hfirst : ∀ z ∈ first, z = .other) :
    ∃ rest', rest' ≠ [] ∧ events = first ++ .access y :: rest' := by
  have haccess : ∃ z ∈ events, z.isAccess = true :=
    exists_access_of_mem_placed (x := y) (by simp [h])
  have hne : events ≠ [] := fun hnil => by simp [hnil] at haccess
  obtain ⟨init, z, rfl⟩ := List.eq_nil_or_concat events |>.resolve_left hne
  rw [List.concat_eq_append] at haccess h ⊢
  obtain ⟨new, heq, hnew⟩ := placed_concat haccess
  rw [heq] at h
  obtain ⟨rest₁, h₁⟩ := prefix_of_append_barrier h hfirst
  have hinit : ∃ rest₂, spread none init = first ++ .access y :: rest₂ := by
    rcases hnew with rfl | rfl
    · exact ⟨rest₁, h₁⟩
    · exact prefix_of_append_barrier h₁ hfirst
  obtain ⟨rest₂, h₂⟩ := hinit
  obtain ⟨rest₃, rfl⟩ := of_spread_eq h₂ hfirst
  exact ⟨rest₃ ++ [z], by simp, by simp⟩

theorem of_placed_eq_last {first rest : List MemoryEvent} {x : Access}
    (h : placed events = first ++ .access x :: rest) (hrest : .barrier ∉ rest) :
    rest = [] ∧ events.getLast? = some (.access x) := by
  have haccess : ∃ z ∈ events, z.isAccess = true :=
    exists_access_of_mem_placed (x := x) (by simp [h])
  have hnil : rest = [] := by
    have hevents : events ≠ [] := fun hnil => by simp [hnil] at haccess
    obtain ⟨init, z, rfl⟩ := List.eq_nil_or_concat events |>.resolve_left hevents
    rw [List.concat_eq_append] at haccess h
    obtain ⟨new, heq, -⟩ := placed_concat haccess
    rw [heq] at h
    by_contra hne
    obtain ⟨rest, z', rfl⟩ := List.eq_nil_or_concat rest |>.resolve_left hne
    have hsplit : (new ++ [.barrier]) ++ [z] = (first ++ .access x :: rest) ++ [z'] := by
      simpa using h
    have hinit := (List.append_inj' hsplit rfl).1
    rcases List.eq_nil_or_concat rest with rfl | ⟨rest, z₁, rfl⟩
    · cases (List.append_inj' hinit rfl).2
    · have hsplit : new ++ [.barrier] = (first ++ .access x :: rest) ++ [z₁] := by
        simpa using hinit
      obtain rfl : .barrier = z₁ := (List.cons.inj (List.append_inj' hsplit rfl).2).1
      exact hrest (by simp)
  refine ⟨hnil, ?_⟩
  rw [← placed_getLast?, h, hnil]
  simp

/-! ### Blocks one after another -/

/-- What a visit of a block does before the pass; a marked one gets a barrier behind its
phis. -/
structure Visit where
  events : List MemoryEvent
  marked : Prop

/-- What the pass makes of a visit. -/
inductive Visit.Placed : Visit → List MemoryEvent → Prop
  | kept {events : List MemoryEvent} (h : ∀ z ∈ events, z.isAccess = false) :
      Placed ⟨events, False⟩ events
  | placed (events : List MemoryEvent) : Placed ⟨events, False⟩ (MemoryEvent.placed events)
  | marked {phis rest : List MemoryEvent} (h : ∀ z ∈ phis, z = .other) :
      Placed ⟨phis ++ rest, True⟩ (MemoryEvent.placed (phis ++ .barrier :: rest))

/-- An access that is the last event of its visit is followed, with nothing but other events in
between, by an access of the other kind that is not the last event of its visit. -/
def Exposed (visits : List Visit) : Prop :=
  ∃ before u between v behind x y first rest,
    visits = before ++ u :: (between ++ v :: behind) ∧ x ≠ y ∧
    u.events.getLast? = some (.access x) ∧ v.events = first ++ .access y :: rest ∧ rest ≠ [] ∧
    (∀ z ∈ first, z = .other) ∧ ¬ v.marked ∧
    ∀ w ∈ between, ¬ w.marked ∧ ∀ z ∈ w.events, z = .other

theorem eq_other_iff {z : MemoryEvent} : z = .other ↔ z.isAccess = false ∧ z ≠ .barrier := by
  cases z <;> simp [isAccess]

variable {v : Visit} {new : List MemoryEvent}

theorem Visit.Placed.quiet_iff (h : v.Placed new) :
    (∀ z ∈ new, z = .other) ↔ ¬ v.marked ∧ ∀ z ∈ v.events, z = .other := by
  cases h with
  | kept h => simp
  | placed events =>
      constructor
      · intro hquiet
        refine ⟨not_false, ?_⟩
        have hnone : ∀ z ∈ events, z.isAccess = false := by
          by_contra hnot
          have hany : ∃ z ∈ events, z.isAccess = true := by simpa using hnot
          have hne : events ≠ [] := fun hnil => by simp [hnil] at hany
          obtain ⟨init, z, rfl⟩ := List.eq_nil_or_concat events |>.resolve_left hne
          rw [List.concat_eq_append] at hany hquiet
          obtain ⟨new, heq, -⟩ := placed_concat hany
          rw [heq] at hquiet
          cases hquiet .barrier (by simp)
        rwa [placed_eq_self hnone] at hquiet
      · rintro ⟨-, hquiet⟩
        rwa [placed_eq_self fun z hz => (eq_other_iff.1 (hquiet z hz)).1]
  | @marked phis rest h =>
      simp only [not_true_eq_false, false_and, iff_false]
      intro hquiet
      by_cases hnone : ∀ z ∈ phis ++ .barrier :: rest, z.isAccess = false
      · rw [placed_eq_self hnone] at hquiet
        cases hquiet .barrier (by simp)
      · have hany : ∃ z ∈ phis ++ .barrier :: rest, z.isAccess = true := by simpa using hnone
        have hne : phis ++ MemoryEvent.barrier :: rest ≠ [] := by simp
        obtain ⟨init, z, hz⟩ := List.eq_nil_or_concat (phis ++ .barrier :: rest)
          |>.resolve_left hne
        rw [List.concat_eq_append] at hz
        rw [hz] at hany hquiet
        obtain ⟨new, heq, -⟩ := placed_concat hany
        rw [heq] at hquiet
        cases hquiet .barrier (by simp)

theorem Visit.Placed.separated (h : v.Placed new) : Separated new := by
  cases h with
  | kept h =>
      rintro before x between y behind rfl - -
      exact absurd (h (.access x) (by simp)) (by simp [isAccess])
  | placed events => exact separated_placed events
  | marked h => exact separated_placed _

theorem Visit.Placed.of_last (h : v.Placed new) {first rest : List MemoryEvent} {x : Access}
    (hnew : new = first ++ .access x :: rest) (hrest : .barrier ∉ rest) :
    rest = [] ∧ v.events.getLast? = some (.access x) := by
  cases h with
  | kept h => exact absurd (h (.access x) (by simp [hnew])) (by simp [isAccess])
  | placed events => exact of_placed_eq_last hnew hrest
  | @marked phis tail h =>
      obtain ⟨hnil, hlast⟩ := of_placed_eq_last hnew hrest
      refine ⟨hnil, ?_⟩
      cases tail with
      | nil => simp at hlast
      | cons z tail => simpa [List.getLast?_append, List.getLast?_cons_cons] using hlast

theorem Visit.Placed.exists_last (h : v.Placed new) {x : Access}
    (hlast : v.events.getLast? = some (.access x)) : ∃ first, new = first ++ [.access x] := by
  suffices hnew : new.getLast? = some (.access x) by
    obtain ⟨first, hfirst⟩ := List.getLast?_eq_some_iff.1 hnew
    exact ⟨first, hfirst⟩
  cases h with
  | kept h => exact hlast
  | placed events => rwa [placed_getLast?]
  | @marked phis tail h =>
      rw [placed_getLast?]
      cases tail with
      | nil =>
          have hmem := h _ (by simpa using List.mem_of_getLast? hlast)
          cases hmem
      | cons z tail => simpa [List.getLast?_append, List.getLast?_cons_cons] using hlast

theorem Visit.Placed.of_first (h : v.Placed new) {first rest : List MemoryEvent} {y : Access}
    (hnew : new = first ++ .access y :: rest) (hfirst : ∀ z ∈ first, z = .other) :
    ¬ v.marked ∧ ∃ rest', rest' ≠ [] ∧ v.events = first ++ .access y :: rest' := by
  cases h with
  | kept h => exact absurd (h (.access y) (by simp [hnew])) (by simp [isAccess])
  | placed events => exact ⟨not_false, of_placed_eq_first hnew hfirst⟩
  | @marked phis tail h =>
      obtain ⟨rest', -, heq⟩ := of_placed_eq_first hnew hfirst
      obtain ⟨rest', hphis⟩ := prefix_of_append_barrier heq hfirst
      cases h (.access y) (by simp [hphis])

theorem Visit.Placed.exists_first (h : v.Placed new) (hmarked : ¬ v.marked)
    {first rest : List MemoryEvent} {y : Access} (hevents : v.events = first ++ .access y :: rest)
    (hrest : rest ≠ []) (hfirst : ∀ z ∈ first, z = .other) :
    ∃ rest', new = first ++ .access y :: rest' := by
  cases h with
  | kept h =>
      dsimp only at hevents
      exact absurd (h (.access y) (by simp [hevents])) (by simp [isAccess])
  | placed events =>
      dsimp only at hevents
      rw [hevents]
      exact placed_of_first (fun z hz => (eq_other_iff.1 (hfirst z hz)).1) hrest
  | marked h => exact absurd trivial hmarked

theorem flatMap_eq_append_cons {α β : Type*} {l : List α} {f : α → List β} {a b : List β} {x : β}
    (h : l.flatMap f = a ++ x :: b) :
    ∃ l₁ i l₂ a' b', l = l₁ ++ i :: l₂ ∧ f i = a' ++ x :: b' ∧ a = l₁.flatMap f ++ a' ∧
      b = b' ++ l₂.flatMap f := by
  induction l generalizing a with
  | nil => simp at h
  | cons i l ih =>
      rw [List.flatMap_cons] at h
      rcases List.append_eq_append_iff.1 h with ⟨c, rfl, hc⟩ | ⟨c, hi, hc⟩
      · obtain ⟨l₁, j, l₂, a', b', rfl, hj, rfl, rfl⟩ := ih hc
        exact ⟨i :: l₁, j, l₂, a', b', rfl, hj, by simp, rfl⟩
      · cases c with
        | nil =>
            obtain ⟨l₁, j, l₂, a', b', rfl, hj, ha, rfl⟩ := ih (a := []) (by simpa using hc.symm)
            refine ⟨i :: l₁, j, l₂, a', b', rfl, hj, ?_, rfl⟩
            rw [List.flatMap_cons, List.append_assoc, ← ha, hi]
            simp
        | cons z c =>
            obtain ⟨rfl, rfl⟩ := List.cons.inj hc
            exact ⟨[], i, l, a, c, rfl, hi, rfl, rfl⟩

theorem separated_iff {visits : List (Visit × List MemoryEvent)}
    (h : ∀ w ∈ visits, w.1.Placed w.2) :
    Separated (visits.flatMap Prod.snd) ↔ ¬ Exposed (visits.map Prod.fst) := by
  constructor
  · rintro hsep ⟨before, u, between, v, behind, x, y, first, rest, hvisits, hne, hu, hv, hrest,
      hfirst, hmarked, hbetween⟩
    obtain ⟨before, l₁, rfl, rfl, h₁⟩ := List.map_eq_append_iff.1 hvisits
    obtain ⟨u, l₂, rfl, rfl, h₂⟩ := List.map_eq_cons_iff.1 h₁
    obtain ⟨between, l₃, rfl, rfl, h₃⟩ := List.map_eq_append_iff.1 h₂
    obtain ⟨v, behind, rfl, rfl, rfl⟩ := List.map_eq_cons_iff.1 h₃
    obtain ⟨u₁, hu₁⟩ := (h u (by simp)).exists_last hu
    obtain ⟨v₂, hv₂⟩ := (h v (by simp)).exists_first hmarked hv hrest hfirst
    have hquiet : ∀ z ∈ between.flatMap Prod.snd ++ first, z = .other := by
      intro z hz
      rcases List.mem_append.1 hz with hz | hz
      · obtain ⟨w, hw, hz⟩ := List.mem_flatMap.1 hz
        have hq := hbetween w.1 (List.mem_map_of_mem hw)
        exact (h w (by simp [hw])).quiet_iff.2 hq z hz
      · exact hfirst z hz
    have hbarrier := hsep (before.flatMap Prod.snd ++ u₁) x
      (between.flatMap Prod.snd ++ first) y (v₂ ++ behind.flatMap Prod.snd)
      (by simp [hu₁, hv₂]) hne fun z hz => (eq_other_iff.1 (hquiet z hz)).1
    cases hquiet _ hbarrier
  · rintro hnot before x between y behind hevents hne hbetween
    by_contra hbarrier
    have hquiet : ∀ z ∈ between, z = .other := fun z hz =>
      eq_other_iff.2 ⟨hbetween z hz, fun heq => hbarrier (heq ▸ hz)⟩
    rw [List.append_assoc] at hevents
    obtain ⟨l₁, u, l₂, a, b, rfl, hu, rfl, hb⟩ := flatMap_eq_append_cons hevents
    have hplaced := h u (by simp)
    have hlater : ∀ c, between = b ++ c → l₂.flatMap Prod.snd = c ++ .access y :: behind →
        Exposed ((l₁ ++ u :: l₂).map Prod.fst) := by
      rintro c rfl hc
      obtain ⟨rfl, hlast⟩ := hplaced.of_last hu fun hb => hbarrier (List.mem_append_left _ hb)
      obtain ⟨l₃, v, l₄, a', b', rfl, hv, rfl, rfl⟩ := flatMap_eq_append_cons hc
      have hfirst : ∀ z ∈ a', z = .other := fun z hz => hquiet z (by simp [hz])
      obtain ⟨hmarked, rest, hrest, hevents⟩ := (h v (by simp)).of_first hv hfirst
      refine ⟨l₁.map Prod.fst, u.1, l₃.map Prod.fst, v.1, l₄.map Prod.fst, x, y, a', rest,
        by simp, hne, hlast, hevents, hrest, hfirst, hmarked, ?_⟩
      intro w₁ hw₁
      obtain ⟨w, hw, rfl⟩ := List.mem_map.1 hw₁
      refine (h w (by simp [hw])).quiet_iff.1 fun z hz => hquiet z ?_
      have hmem : z ∈ l₃.flatMap Prod.snd := List.mem_flatMap.2 ⟨w, hw, hz⟩
      simp [hmem]
    rcases List.append_eq_append_iff.1 hb with ⟨c, rfl, hc⟩ | ⟨c, hbetween', hc⟩
    · cases c with
      | nil => exact hnot (hlater [] (by simp) (by simpa using hc.symm))
      | cons z c =>
          obtain ⟨rfl, -⟩ := List.cons.inj hc
          exact hbarrier (hplaced.separated a x between y c (by simpa using hu) hne hbetween)
    · exact hnot (hlater c hbetween' hc)

end MemoryEvent

end OrbitConsole.ShaderRecompiler
