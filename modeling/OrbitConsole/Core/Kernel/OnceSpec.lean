import OrbitConsole.Core.Kernel.Once

/-!
# One-time initialisation runs once

One invariant over all interleavings: the control is `InProgress` or `Wait` exactly while
one thread holds it, and a blocked thread has `Wait` before it or a notification ahead.
-/

namespace OrbitConsole.Kernel

namespace Once

/-- The phases between the exchange that starts a run and the one that ends it. -/
def Phase.holds : Phase → Bool
  | .running | .completing | .completeStore | .cancelling | .cancelStore => true
  | _ => false

def Phase.notifies : Phase → Bool
  | .completeNotify | .cancelNotify => true
  | _ => false

/-- The phases after `init_routine` has returned. -/
def Phase.completes : Phase → Bool
  | .completing | .completeStore | .completeNotify => true
  | _ => false

section Invariant

variable {τ : Type*}

structure Inv (s : State τ) : Prop where
  valid : ∀ v, s.state ≠ .other v
  holder : ∀ t, (s.phase t).holds = true → s.state = .inProgress ∨ s.state = .wait
  unique : ∀ t u, (s.phase t).holds = true → (s.phase u).holds = true → t = u
  storing : ∀ t, s.phase t = .completeStore ∨ s.phase t = .cancelStore → s.state = .wait
  blocked : ∀ u, s.phase u = .blocked →
    s.state = .wait ∨ ∃ t, (s.phase t).notifies = true ∧ s.eligible t u = true
  completed : 0 < s.completed →
    s.state = .done ∨ ∃ t, (s.phase t).holds = true ∧ (s.phase t).completes = true
  completes : ∀ t, (s.phase t).completes = true → 0 < s.completed
  done : s.state = .done → 0 < s.completed
  returns : ∀ r ∈ s.returns, r.1 = 0 → 0 < r.2

theorem inv_start : Inv (start : State τ) where
  valid := nofun
  holder := nofun
  unique := nofun
  storing := by simp [start]
  blocked := nofun
  completed := nofun
  completes := nofun
  done := nofun
  returns := nofun

theorem Inv.completed_eq_zero {s : State τ} (h : Inv s) {t : τ}
    (ht : (s.phase t).holds = true) (hc : (s.phase t).completes = false) : s.completed = 0 := by
  by_contra hne
  obtain hdone | ⟨u, hu, huc⟩ := h.completed (Nat.pos_of_ne_zero hne)
  · obtain hs | hs := h.holder t ht <;> rw [hdone] at hs <;> cases hs
  · rw [h.unique u t hu ht, hc] at huc
    cases huc

theorem Inv.toWait {s : State τ} (h : Inv s) (hstate : s.state = .inProgress) :
    Inv (s.withState .wait) where
  valid := nofun
  holder := fun _ _ => .inr rfl
  unique := h.unique
  storing := fun _ _ => rfl
  blocked := fun _ _ => .inl rfl
  completed := fun hc => (h.completed hc).imp_left fun hs => by
    rw [hstate] at hs
    cases hs
  completes := h.completes
  done := nofun
  returns := h.returns

theorem Inv.addReturn {s : State τ} (h : Inv s) {code : ℕ} (hcode : code = 0 → 0 < s.completed) :
    Inv { s with returns := (code, s.completed) :: s.returns } where
  valid := h.valid
  holder := h.holder
  unique := h.unique
  storing := h.storing
  blocked := h.blocked
  completed := h.completed
  completes := h.completes
  done := h.done
  returns := fun r hr => by
    obtain rfl | hr := List.mem_cons.1 hr
    · exact hcode
    · exact h.returns r hr

theorem wake_phase {s : State τ} {β : Type*} (f : Phase → β) (hf : f .waitCheck = f .blocked)
    (who : τ → Bool) (u : τ) : f ((s.wake who).phase u) = f (s.phase u) := by
  unfold State.wake
  dsimp only
  split
  case isTrue h => rw [h.1, hf]
  case isFalse => rfl

theorem blocked_of_wake {s : State τ} {who : τ → Bool} {u : τ}
    (h : (s.wake who).phase u = .blocked) : s.phase u = .blocked ∧ who u = false := by
  unfold State.wake at h
  dsimp only at h
  split at h
  case isTrue => cases h
  case isFalse hnot => exact ⟨h, by simpa [h] using hnot⟩

theorem Inv.wake {s : State τ} (h : Inv s) (who : τ → Bool) : Inv (s.wake who) where
  valid := h.valid
  holder := fun u hu => h.holder u (wake_phase Phase.holds rfl who u ▸ hu)
  unique := fun u v hu hv => h.unique u v (wake_phase Phase.holds rfl who u ▸ hu)
    (wake_phase Phase.holds rfl who v ▸ hv)
  storing := fun u hu => h.storing u
    ((wake_phase (fun q => q = .completeStore ∨ q = .cancelStore) (by simp) who u).mp hu)
  blocked := fun u hu => by
    obtain ⟨hblocked, hwho⟩ := blocked_of_wake hu
    refine (h.blocked u hblocked).imp_right fun ⟨v, hv, helig⟩ => ⟨v, ?_, ?_⟩
    · rwa [wake_phase Phase.notifies rfl]
    · simp [State.wake, helig, hwho]
  completed := fun hc => (h.completed hc).imp_right fun ⟨u, hu, huc⟩ =>
    ⟨u, by rwa [wake_phase Phase.holds rfl], by rwa [wake_phase Phase.completes rfl]⟩
  completes := fun u hu => h.completes u (wake_phase Phase.completes rfl who u ▸ hu)
  done := h.done
  returns := h.returns

theorem Inv.state_eq_wait {s : State τ} (h : Inv s) {t : τ} (ht : (s.phase t).holds = true)
    (hs : s.state ≠ .inProgress) : s.state = .wait :=
  (h.holder t ht).resolve_left hs

end Invariant

section Steps

variable {τ : Type*} [DecidableEq τ] {s s' : State τ} {t : τ} {p : Phase}

theorem set_phase_self : (s.set t p).phase t = p := Function.update_self ..

theorem set_phase_of_ne {u : τ} (h : u ≠ t) : (s.set t p).phase u = s.phase u :=
  Function.update_of_ne h ..

theorem forall_set {P : τ → Phase → Prop} (hself : P t p) (hother : ∀ u, u ≠ t → P u (s.phase u))
    (u : τ) : P u ((s.set t p).phase u) := by
  rcases eq_or_ne u t with rfl | hne
  · rwa [set_phase_self]
  · rw [set_phase_of_ne hne]
    exact hother u hne

theorem Inv.set (h : Inv s) (hholds : p.holds = (s.phase t).holds)
    (hcompletes : p.completes = (s.phase t).completes ∨ p.holds = false ∧ p.completes = false)
    (hnotifies : (s.phase t).notifies = true → ∀ u, s.phase u = .blocked → s.eligible t u = false)
    (hstoring : p = .completeStore ∨ p = .cancelStore → s.state = .wait)
    (hblocked : p = .blocked → s.state = .wait) : Inv (s.set t p) := by
  have hphase : ∀ u, ((s.set t p).phase u).holds = (s.phase u).holds :=
    forall_set (P := fun u q => q.holds = (s.phase u).holds) hholds fun u _ => rfl
  refine
    { valid := h.valid
      holder := fun u hu => h.holder u (hphase u ▸ hu)
      unique := fun u v hu hv => h.unique u v (hphase u ▸ hu) (hphase v ▸ hv)
      storing := forall_set (P := fun _ q => q = .completeStore ∨ q = .cancelStore →
        s.state = .wait) hstoring fun u _ => h.storing u
      blocked := fun u hu => ?_
      completed := fun hc => ?_
      completes := forall_set (P := fun _ q => q.completes = true → 0 < s.completed)
        (fun hp => ?_) fun u _ => h.completes u
      done := h.done
      returns := h.returns }
  · rcases eq_or_ne u t with rfl | hne
    · rw [set_phase_self] at hu
      exact .inl (hblocked hu)
    · rw [set_phase_of_ne hne] at hu
      refine (h.blocked u hu).imp_right fun ⟨v, hv, helig⟩ => ⟨v, ?_, helig⟩
      have hvt : v ≠ t := by
        rintro rfl
        rw [hnotifies hv u hu] at helig
        cases helig
      rwa [set_phase_of_ne hvt]
  · refine (h.completed hc).imp_right fun ⟨u, hu, huc⟩ => ⟨u, ?_, ?_⟩
    · rwa [hphase u]
    · rcases eq_or_ne u t with rfl | hne
      · rw [set_phase_self]
        obtain hsame | ⟨hp, -⟩ := hcompletes
        · rwa [hsame]
        · rw [hholds, hu] at hp
          cases hp
      · rwa [set_phase_of_ne hne]
  · obtain hsame | ⟨-, hnone⟩ := hcompletes
    · exact h.completes t (hsame ▸ hp)
    · rw [hnone] at hp
      cases hp

theorem Inv.acquire (h : Inv s) (hstate : s.state = .neverDone) (ht : s.phase t = .tryStart) :
    Inv ((s.withState .inProgress).set t .running) := by
  have hnone : ∀ u, (s.phase u).holds = false := fun u => by
    by_contra hu
    obtain hs | hs := h.holder u (by simpa using hu) <;> rw [hstate] at hs <;> cases hs
  have hzero : ¬ 0 < s.completed := fun hc => by
    obtain hs | ⟨u, hu, -⟩ := h.completed hc
    · rw [hstate] at hs
      cases hs
    · rw [hnone u] at hu
      cases hu
  have hself : ∀ u, (((s.withState .inProgress).set t .running).phase u).holds = true → u = t :=
    forall_set (P := fun u q => q.holds = true → u = t) (fun _ => rfl) fun u _ hu => by
      rw [State.withState, hnone u] at hu
      cases hu
  refine
    { valid := nofun
      holder := fun _ _ => .inl rfl
      unique := fun u v hu hv => (hself u hu).trans (hself v hv).symm
      storing := forall_set (P := fun _ q => q = .completeStore ∨ q = .cancelStore → _)
        (by simp) fun u _ hu => ?_
      blocked := fun u hu => ?_
      completed := fun hc => absurd hc hzero
      completes := forall_set (P := fun _ q => q.completes = true → 0 < s.completed) nofun
        fun u _ => h.completes u
      done := nofun
      returns := h.returns }
  · have hs := h.storing u hu
    rw [hstate] at hs
    cases hs
  · have hne : u ≠ t := by
      rintro rfl
      rw [set_phase_self] at hu
      cases hu
    rw [set_phase_of_ne hne] at hu
    obtain hs | ⟨v, hv, helig⟩ := h.blocked u hu
    · rw [hstate] at hs
      cases hs
    · refine .inr ⟨v, ?_, helig⟩
      have hvt : v ≠ t := by
        rintro rfl
        rw [ht] at hv
        cases hv
      rwa [set_phase_of_ne hvt]

theorem Inv.release {x : PthreadOnceState} {e : τ → τ → Bool} (h : Inv s)
    (ht : (s.phase t).holds = true) (hp : p.holds = false) (hpb : p ≠ .blocked)
    (hpc : p.completes = true → 0 < s.completed)
    (hx : x = .done ∧ 0 < s.completed ∨ x = .neverDone ∧ s.completed = 0)
    (hblocked : ∀ u, s.phase u = .blocked →
      ∃ v, ((s.set t p).phase v).notifies = true ∧ e v u = true) :
    Inv { (s.withState x).set t p with eligible := e } := by
  have hnone : ∀ u, (((s.withState x).set t p).phase u).holds = false :=
    forall_set (P := fun _ q => q.holds = false) hp fun u hne => by
      by_contra hu
      have hholds : (s.phase u).holds = true := by simpa [State.withState] using hu
      exact hne (h.unique u t hholds ht)
  have hnone' : ∀ u, ¬ (((s.withState x).set t p).phase u).holds = true := fun u hu => by
    rw [hnone u] at hu
    cases hu
  refine
    { valid := fun v hv => ?_
      holder := fun u hu => absurd hu (hnone' u)
      unique := fun u v hu hv => absurd hu (hnone' u)
      storing := fun u hu => absurd ?_ (hnone' u)
      blocked := fun u hu => .inr (hblocked u ?_)
      completed := fun hc => ?_
      completes := forall_set (P := fun _ q => q.completes = true → 0 < s.completed) hpc
        fun u _ => h.completes u
      done := fun hs => ?_
      returns := h.returns }
  · change x = _ at hv
    obtain ⟨rfl, -⟩ | ⟨rfl, -⟩ := hx <;> cases hv
  · obtain hu | hu := hu <;> exact (congrArg Phase.holds hu).trans rfl
  · have hne : u ≠ t := by
      rintro rfl
      exact hpb (set_phase_self.symm.trans hu)
    exact (set_phase_of_ne hne).symm.trans hu
  · obtain ⟨rfl, -⟩ | ⟨-, hzero⟩ := hx
    · exact .inl rfl
    · exact absurd hc (by rw [State.set, State.withState]; simp [hzero])
  · change x = _ at hs
    obtain ⟨-, hpos⟩ | ⟨rfl, -⟩ := hx
    · exact hpos
    · cases hs

theorem Inv.finish (h : Inv s) (ht : s.phase t = .running) :
    Inv { s.set t .completing with completed := s.completed + 1 } := by
  have hholds : (s.phase t).holds = true := by rw [ht]; rfl
  have hphase : ∀ u, ((s.set t .completing).phase u).holds = (s.phase u).holds :=
    forall_set (P := fun u q => q.holds = (s.phase u).holds) hholds.symm fun u _ => rfl
  refine
    { valid := h.valid
      holder := fun u hu => h.holder u (hphase u ▸ hu)
      unique := fun u v hu hv => h.unique u v (hphase u ▸ hu) (hphase v ▸ hv)
      storing := forall_set (P := fun _ q => q = .completeStore ∨ q = .cancelStore →
        s.state = .wait) (by simp) fun u _ => h.storing u
      blocked := fun u hu => ?_
      completed := fun _ => .inr ⟨t, ?_, ?_⟩
      completes := fun _ _ => Nat.succ_pos _
      done := fun _ => Nat.succ_pos _
      returns := h.returns }
  · have hne : u ≠ t := by
      rintro rfl
      have := set_phase_self.symm.trans hu
      cases this
    refine (h.blocked u ((set_phase_of_ne hne).symm.trans hu)).imp_right
      fun ⟨v, hv, helig⟩ => ⟨v, ?_, helig⟩
    have hvt : v ≠ t := by
      rintro rfl
      rw [ht] at hv
      cases hv
    exact (congrArg Phase.notifies (set_phase_of_ne hvt)).trans hv
  · exact congrArg Phase.holds set_phase_self
  · exact congrArg Phase.completes set_phase_self

theorem Inv.ret (h : Inv s) {code : ℕ} (hholds : (s.phase t).holds = false)
    (hnotifies : (s.phase t).notifies = true → ∀ u, s.phase u = .blocked → s.eligible t u = false)
    (hcode : code = 0 → 0 < s.completed) : Inv (s.ret t code) :=
  Inv.addReturn (s := s.set t .idle) (h.set hholds.symm (.inr ⟨rfl, rfl⟩) hnotifies nofun nofun)
    hcode

theorem Inv.load (h : Inv s) (ht : s.phase t = .loop) : Inv (s.load t) := by
  have hnot : (s.phase t).notifies = true → ∀ u, s.phase u = .blocked → s.eligible t u = false := by
    rw [ht]
    nofun
  have hholds : (s.phase t).holds = false := by rw [ht]; rfl
  unfold State.load
  split
  case h_1 hs => exact h.ret hholds hnot fun _ => h.done hs
  case h_2 => exact h.set hholds.symm (.inr ⟨rfl, rfl⟩) hnot nofun nofun
  case h_3 => exact h.set hholds.symm (.inr ⟨rfl, rfl⟩) hnot nofun nofun
  case h_4 => exact h.set hholds.symm (.inr ⟨rfl, rfl⟩) hnot nofun nofun
  case h_5 => exact h.ret hholds hnot nofun

theorem Inv.pending (h : Inv s) (ht : (s.phase t).holds = true) (hs : s.state = .inProgress)
    (u : τ) (hu : s.phase u = .blocked) :
    ∃ v, ((s.set t p).phase v).notifies = true ∧ s.eligible v u = true := by
  obtain hwait | ⟨v, hv, helig⟩ := h.blocked u hu
  · rw [hs] at hwait
    cases hwait
  · refine ⟨v, ?_, helig⟩
    have hvt : v ≠ t := by
      rintro rfl
      generalize s.phase v = q at ht hv
      cases q <;> simp [Phase.holds, Phase.notifies] at ht hv
    rwa [set_phase_of_ne hvt]

theorem Inv.compareExchange (h : Inv s) (hs : s.compareExchange t = some s') : Inv s' := by
  unfold State.compareExchange at hs
  split at hs <;> cases hs
  case h_1 ht =>
      split
      case isTrue hstate => exact h.acquire hstate ht
      case isFalse =>
          exact h.set (by rw [ht]; rfl) (.inr ⟨rfl, rfl⟩) (by rw [ht]; nofun) nofun nofun
  case h_2 ht =>
      split
      case isTrue hstate =>
          exact (h.toWait hstate).set (by rw [State.withState, ht]; rfl) (.inr ⟨rfl, rfl⟩)
            (by rw [State.withState, ht]; nofun) nofun nofun
      case isFalse =>
          exact h.set (by rw [ht]; rfl) (.inr ⟨rfl, rfl⟩) (by rw [ht]; nofun) nofun nofun
  case h_3 ht =>
      have hholds : (s.phase t).holds = true := by rw [ht]; rfl
      have hpos : 0 < s.completed := h.completes t (by rw [ht]; rfl)
      split
      case isTrue hstate =>
          exact (h.release (p := .idle) (e := s.eligible) hholds rfl nofun nofun
            (.inl ⟨rfl, hpos⟩) (h.pending hholds hstate)).addReturn fun _ => hpos
      case isFalse hstate =>
          exact h.set hholds.symm (.inl (by rw [ht]; rfl)) (by rw [ht]; nofun)
            (fun _ => h.state_eq_wait hholds hstate) nofun
  case h_4 ht =>
      have hholds : (s.phase t).holds = true := by rw [ht]; rfl
      split
      case isTrue hstate =>
          exact h.release (p := .idle) (e := s.eligible) hholds rfl nofun nofun
            (.inr ⟨rfl, h.completed_eq_zero hholds (by rw [ht]; rfl)⟩) (h.pending hholds hstate)
      case isFalse hstate =>
          exact h.set hholds.symm (.inl (by rw [ht]; rfl)) (by rw [ht]; nofun)
            (fun _ => h.state_eq_wait hholds hstate) nofun

theorem Inv.publish {x : PthreadOnceState} (h : Inv s) (ht : (s.phase t).holds = true)
    (hp : p.notifies = true) (hp' : p.holds = false) (hpc : p.completes = true → 0 < s.completed)
    (hx : x = .done ∧ 0 < s.completed ∨ x = .neverDone ∧ s.completed = 0) :
    Inv (s.publish t x p) := by
  refine h.release ht hp' (fun hb => ?_) hpc hx fun u hu => ⟨t, ?_, ?_⟩
  · rw [hb] at hp
    cases hp
  · rwa [set_phase_self]
  · rw [Function.update_self]
    simpa using hu

theorem Inv.store (h : Inv s) (hs : s.store t = some s') : Inv s' := by
  unfold State.store at hs
  split at hs <;> cases hs
  case h_1 ht =>
      have hpos : 0 < s.completed := h.completes t (by rw [ht]; rfl)
      exact h.publish (by rw [ht]; rfl) rfl rfl (fun _ => hpos) (.inl ⟨rfl, hpos⟩)
  case h_2 ht =>
      have hzero := h.completed_eq_zero (t := t) (by rw [ht]; rfl) (by rw [ht]; rfl)
      exact h.publish (by rw [ht]; rfl) rfl rfl nofun (.inr ⟨rfl, hzero⟩)

theorem Inv.notify {others : τ → Bool} (h : Inv s) (hs : s.notify t others = some s') :
    Inv s' := by
  have hwake := h.wake fun u => s.eligible t u || others u
  have hnone : ∀ u, (s.wake fun u => s.eligible t u || others u).phase u = .blocked →
      (s.wake fun u => s.eligible t u || others u).eligible t u = false := fun u hu => by
    have hwho := (blocked_of_wake hu).2
    simp only [Bool.or_eq_false_iff] at hwho
    simp [State.wake, hwho.1]
  have hself : ((s.wake fun u => s.eligible t u || others u).phase t).holds =
      (s.phase t).holds := wake_phase Phase.holds rfl _ t
  unfold State.notify at hs
  split at hs <;> cases hs
  case h_1 ht =>
      exact hwake.ret (by rw [hself, ht]; rfl) (fun _ => hnone)
        fun _ => h.completes t (by rw [ht]; rfl)
  case h_2 ht =>
      exact hwake.set (by rw [hself, ht]; rfl) (.inr ⟨rfl, rfl⟩) (fun _ => hnone) nofun nofun

/-- One thread at a time runs the initialisation, whoever takes the next step. -/
theorem inv_step (s s' : State τ) (a : Action τ) (h : Inv s) (_ : True)
    (hs : step s a = some s') : Inv s' := by
  cases a with
  | call t =>
      simp only [step, Option.ite_none_right_eq_some, Option.some.injEq] at hs
      obtain ⟨ht, rfl⟩ := hs
      exact h.set (by rw [ht]; rfl) (.inr ⟨rfl, rfl⟩) (by rw [ht]; nofun) nofun nofun
  | load t =>
      simp only [step, Option.ite_none_right_eq_some, Option.some.injEq] at hs
      obtain ⟨ht, rfl⟩ := hs
      exact h.load ht
  | compareExchange t => exact h.compareExchange hs
  | check t =>
      simp only [step, Option.ite_none_right_eq_some, Option.some.injEq] at hs
      obtain ⟨ht, rfl⟩ := hs
      split
      case isTrue hstate =>
          exact h.set (by rw [ht]; rfl) (.inr ⟨rfl, rfl⟩) (by rw [ht]; nofun) nofun
            fun _ => hstate
      case isFalse =>
          exact h.set (by rw [ht]; rfl) (.inr ⟨rfl, rfl⟩) (by rw [ht]; nofun) nofun nofun
  | store t => exact h.store hs
  | notify t others => exact h.notify hs
  | finish t =>
      simp only [step, Option.ite_none_right_eq_some, Option.some.injEq] at hs
      obtain ⟨ht, rfl⟩ := hs
      exact h.finish ht
  | cancel t =>
      simp only [step, Option.ite_none_right_eq_some, Option.some.injEq] at hs
      obtain ⟨ht, rfl⟩ := hs
      exact h.set (by rw [ht]; rfl) (.inl (by rw [ht]; rfl)) (by rw [ht]; nofun) (by simp) nofun
  | spurious t =>
      simp only [step, Option.ite_none_right_eq_some, Option.some.injEq] at hs
      obtain ⟨-, rfl⟩ := hs
      exact h.wake _

theorem not_notifies_of_stuck (h : Stuck s) (t : τ) : (s.phase t).notifies = false := by
  have hnone := (h t).2.2.2.2 fun _ => false
  simp only [step, State.notify] at hnone
  cases hp : s.phase t <;> simp only [hp] at hnone <;> first | rfl | cases hnone

/-- At most one `init_routine` runs at a time and none after one has completed, a call returns
zero only when a run has, and where nothing moves nobody waits for what has happened. -/
theorem pthreadOnce_runs_once (s : State τ)
    (h : Transition.Reachable step (fun _ _ => True) start s) :
    (∀ t u, s.phase t = .running → s.phase u = .running → t = u) ∧
      (0 < s.completed → ∀ t, s.phase t ≠ .running) ∧
      (∀ r ∈ s.returns, r.1 = 0 → 0 < r.2) ∧
      (Stuck s → ∀ t, s.phase t = .blocked → s.state ≠ .done ∧ s.state ≠ .neverDone) := by
  have hinv : Inv s := h.invariant inv_start inv_step
  refine ⟨fun t u ht hu => hinv.unique t u (by rw [ht]; rfl) (by rw [hu]; rfl),
    fun hc t ht => ?_, hinv.returns, fun hstuck t ht => ?_⟩
  · have hzero := hinv.completed_eq_zero (t := t) (by rw [ht]; rfl) (by rw [ht]; rfl)
    omega
  · obtain hwait | ⟨v, hv, -⟩ := hinv.blocked t ht
    · rw [hwait]
      exact ⟨nofun, nofun⟩
    · rw [not_notifies_of_stuck hstuck v] at hv
      cases hv

end Steps

/-- One thread is cancelled while another waits, which then runs `init_routine` itself. -/
def cancelledRun : List (Action ℕ) :=
  [.call 0, .call 1, .load 0, .compareExchange 0, .load 1, .compareExchange 1, .check 1,
    .cancel 0, .compareExchange 0, .store 0, .notify 0 fun _ => false, .check 1, .load 1,
    .compareExchange 1, .finish 1, .compareExchange 1]

theorem pthreadOnce_runs_once_cancelled : ∃ s : State ℕ,
    Transition.run step start cancelledRun = some s ∧ s.returns = [(0, 1)] ∧
      ∀ t, s.phase t ≠ .running := by
  have hrun : (Transition.run step start cancelledRun).map
      (fun s => (s.returns, s.completed)) = some ([(0, 1)], 1) := by decide
  obtain ⟨s, hs, hfields⟩ := Option.map_eq_some_iff.1 hrun
  obtain ⟨-, hcompleted, -⟩ := pthreadOnce_runs_once s
    (Transition.reachable_of_run hs (Transition.allOk_of_forall fun _ _ _ => trivial))
  simp only [Prod.mk.injEq] at hfields
  exact ⟨s, hs, hfields.1, hcompleted (by rw [hfields.2]; decide)⟩

end Once

end OrbitConsole.Kernel
