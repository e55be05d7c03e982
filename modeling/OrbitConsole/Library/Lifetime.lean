import OrbitConsole.Library.Transition

/-!
# Objects that are destroyed while threads use them

A system over an object gets one more action, the destruction of the object.
After it no call starts, but the threads inside a call go on; `touched` records
those of them that take a step on the object itself.
-/

namespace Transition

/-- An object with its life: whether it exists, and who used it when it did not. -/
structure Lifetime (σ ι : Type*) where
  state : σ
  alive : Bool
  touched : List ι

inductive LifeAction (α : Type*) where
  | act (a : α)
  | destroy

namespace Lifetime

variable {σ α ι : Type*}

/-- The object as long as it exists. -/
def live (s : σ) : Lifetime σ ι := ⟨s, true, []⟩

/-- `starts` are the actions by which a call begins, `user` the thread that takes a step on the
object in the middle of one. -/
def step (base : σ → α → Option σ) (starts : α → Bool) (user : α → Option ι)
    (l : Lifetime σ ι) : LifeAction α → Option (Lifetime σ ι)
  | .destroy => if l.alive then some { l with alive := false } else none
  | .act a =>
      if l.alive then (base l.state a).map fun s => { l with state := s }
      else if starts a then none
      else (base l.state a).map fun s =>
        { l with state := s, touched := (user a).toList ++ l.touched }

variable {base : σ → α → Option σ} {starts : α → Bool} {user : α → Option ι}
  {l l' : Lifetime σ ι} {ok : Lifetime σ ι → LifeAction α → Prop}

theorem destroy_cases (hs : step base starts user l .destroy = some l') :
    l.alive = true ∧ l' = { l with alive := false } := by
  simp only [step] at hs
  split at hs
  · next halive => exact ⟨halive, (Option.some.inj hs).symm⟩
  · cases hs

theorem act_cases {a : α} (hs : step base starts user l (.act a) = some l') :
    ∃ s, base l.state a = some s ∧ (l.alive = true ∧ l' = { l with state := s } ∨
      l.alive = false ∧ starts a = false ∧
        l' = { l with state := s, touched := (user a).toList ++ l.touched }) := by
  simp only [step] at hs
  split at hs
  · next halive =>
      obtain ⟨s, hbase, hl⟩ := Option.map_eq_some_iff.1 hs
      exact ⟨s, hbase, .inl ⟨halive, hl.symm⟩⟩
  split at hs
  · cases hs
  · next halive hstarts =>
      obtain ⟨s, hbase, hl⟩ := Option.map_eq_some_iff.1 hs
      exact ⟨s, hbase, .inr ⟨eq_false_of_ne_true halive,
        eq_false_of_ne_true hstarts, hl.symm⟩⟩

theorem state_invariant {P : σ → Prop} (hstep : ∀ s s' a, P s → base s a = some s' → P s')
    {l₀ : Lifetime σ ι} (h : Reachable (step base starts user) ok l₀ l) (hstart : P l₀.state) :
    P l.state := by
  apply h.invariant (P := fun l => P l.state) hstart
  intro l l' a hl _ hs
  cases a with
  | destroy =>
      obtain ⟨-, rfl⟩ := destroy_cases hs
      exact hl
  | act a =>
      obtain ⟨s, hbase, ⟨-, rfl⟩ | ⟨-, -, rfl⟩⟩ := act_cases hs
      · exact hstep _ _ a hl hbase
      · exact hstep _ _ a hl hbase

theorem touched_eq_nil (inCall : σ → ι → Prop)
    (hidle : ∀ s s' a, starts a = false → base s a = some s' → (∀ i, ¬ inCall s i) →
      ∀ i, ¬ inCall s' i)
    (huser : ∀ s s' a i, base s a = some s' → user a = some i → inCall s i)
    (hok : ∀ l : Lifetime σ ι, ok l .destroy → ∀ i, ¬ inCall l.state i) {s : σ}
    (h : Reachable (step base starts user) ok (live s) l) : l.touched = [] := by
  have hinv : l.touched = [] ∧ (l.alive = false → ∀ i, ¬ inCall l.state i) := by
    apply h.invariant (P := fun l : Lifetime σ ι =>
      l.touched = [] ∧ (l.alive = false → ∀ i, ¬ inCall l.state i))
    · exact ⟨rfl, fun h => Bool.noConfusion h⟩
    · intro l l' a hl ha hs
      cases a with
      | destroy =>
          obtain ⟨-, rfl⟩ := destroy_cases hs
          exact ⟨hl.1, fun _ => hok l ha⟩
      | act a =>
          obtain ⟨s, hbase, ⟨halive, rfl⟩ | ⟨hdead, hstarts, rfl⟩⟩ := act_cases hs
          · exact ⟨hl.1, fun hdead => Bool.noConfusion (halive.symm.trans hdead)⟩
          · have hnone := hl.2 hdead
            have huser : user a = none := by
              cases hu : user a with
              | none => rfl
              | some i => exact absurd (huser _ _ a i hbase hu) (hnone i)
            refine ⟨?_, fun _ => hidle _ _ a hstarts hbase hnone⟩
            change (user a).toList ++ l.touched = []
            rw [huser, hl.1]
            rfl
  exact hinv.1

variable (base starts user)

theorem touched_of_act {i : ι} {a : α} {s : σ} (hstarts : starts a = false)
    (huser : user a = some i) (hs : base l.state a = some s) (hdead : l.alive = false) :
    ∃ l', step base starts user l (.act a) = some l' ∧ i ∈ l'.touched := by
  refine ⟨{ l with state := s, touched := (user a).toList ++ l.touched }, ?_, ?_⟩
  · simp only [step, hdead, hstarts, hs, Bool.false_eq_true, if_false, Option.map_some]
  · rw [huser]
    exact List.mem_cons_self

theorem exists_act {a : α} {s : σ} (hstarts : starts a = false) (hs : base l.state a = some s) :
    ∃ l', step base starts user l (.act a) = some l' ∧ l'.state = s ∧ l'.alive = l.alive := by
  by_cases halive : l.alive
  · exact ⟨{ l with state := s }, by simp [step, halive, hs], rfl, rfl⟩
  · exact ⟨{ l with state := s, touched := (user a).toList ++ l.touched },
      by simp [step, halive, hs, hstarts], rfl, rfl⟩

end Lifetime

end Transition
