import OrbitConsole.VideoCore.ConstantEngine

/-!
# The two engines keep to their counters

What the counters are for: the draw engine waits until the constant engine is ahead, the
constant engine waits until it is not too far ahead, and each goes on as soon as it may. The
packets that are left, with the numbers of increments, are a system in which a step of one
engine never stops the other, so any order of steps completes if one does.
-/

namespace OrbitConsole.VideoCore

namespace CounterState

section Ideal

variable {de de' : List (List DePacket)} {ce ce' : List (List CePacket)} {c d n : ℕ}

/-- The draw engine executes its next packet; whether that increments its counter. -/
def advanceDe : List (List DePacket) → Option (List (List DePacket) × ℕ)
  | [] => none
  | [] :: callers => some (callers, 0)
  | (.incrementDeCounter :: dcb) :: callers => some (dcb :: callers, 1)
  | (.waitOnCeCounter :: dcb) :: callers => some (dcb :: callers, 0)
  | (.indirectBuffer inner :: dcb) :: callers => some (inner :: dcb :: callers, 0)
  | (.other :: dcb) :: callers => some (dcb :: callers, 0)

/-- The constant engine executes its next packet; whether that increments its counter. -/
def advanceCe : List (List CePacket) → Option (List (List CePacket) × ℕ)
  | [] => none
  | [] :: callers => some (callers, 0)
  | (.incrementCeCounter :: ccb) :: callers => some (ccb :: callers, 1)
  | (.waitOnDeCounterDiff _ :: ccb) :: callers => some (ccb :: callers, 0)
  | (.indirectBufferConst inner :: ccb) :: callers => some (inner :: ccb :: callers, 0)
  | (.other :: ccb) :: callers => some (ccb :: callers, 0)

/-- A wait for the constant engine is over when it is ahead, or has ended. -/
def DeReady (de : List (List DePacket)) (ce : List (List CePacket)) (c d : ℕ) : Prop :=
  match de with
  | (.waitOnCeCounter :: _) :: _ => d < c ∨ ce = []
  | _ => True

/-- A wait for the draw engine is over when the constant engine leads by less than `diff`. -/
def CeReady (ce : List (List CePacket)) (c d : ℕ) : Prop :=
  match ce with
  | (.waitOnDeCounterDiff diff :: _) :: _ => c < d + diff
  | _ => True

/-- Both engines can run to completion in some order of their packets. -/
inductive Completes : List (List DePacket) → List (List CePacket) → ℕ → ℕ → Prop
  | done {c d : ℕ} : Completes [] [] c d
  | de {de de' : List (List DePacket)} {ce : List (List CePacket)} {c d n : ℕ}
      (hnext : advanceDe de = some (de', n)) (hready : DeReady de ce c d)
      (h : Completes de' ce c (d + n)) : Completes de ce c d
  | ce {de : List (List DePacket)} {ce ce' : List (List CePacket)} {c d n : ℕ}
      (hnext : advanceCe ce = some (ce', n)) (hready : CeReady ce c d)
      (h : Completes de ce' (c + n) d) : Completes de ce c d

theorem DeReady.after_ce (h : DeReady de ce c d) (hnext : advanceCe ce = some (ce', n)) :
    DeReady de ce' (c + n) d := by
  unfold DeReady at *
  split at h
  · obtain hlt | rfl := h
    · exact .inl (Nat.lt_of_lt_of_le hlt (Nat.le_add_right c n))
    · cases hnext
  · exact True.intro

theorem CeReady.after_de (h : CeReady ce c d) (n : ℕ) : CeReady ce c (d + n) := by
  unfold CeReady at *
  split at h
  · omega
  · exact True.intro

theorem Completes.after_de (h : Completes de ce c d) (hnext : advanceDe de = some (de', n))
    (hready : DeReady de ce c d) : Completes de' ce c (d + n) := by
  induction h generalizing de' n with
  | done => cases hnext
  | de hnext' _ h _ =>
      rw [hnext'] at hnext
      cases hnext
      exact h
  | ce hnext' hready' _ ih =>
      exact .ce hnext' (hready'.after_de n) (ih hnext (hready.after_ce hnext'))

theorem Completes.after_ce (h : Completes de ce c d) (hnext : advanceCe ce = some (ce', n))
    (hready : CeReady ce c d) : Completes de ce' (c + n) d := by
  induction h generalizing ce' n with
  | done => cases hnext
  | de hnext' hready' _ ih =>
      exact .de hnext' (hready'.after_ce hnext) (ih hnext (hready.after_de _))
  | ce hnext' _ h _ =>
      rw [hnext'] at hnext
      cases hnext
      exact h

theorem Completes.progress (h : Completes de ce c d) :
    (de = [] ∧ ce = []) ∨ (de ≠ [] ∧ DeReady de ce c d) ∨ (ce ≠ [] ∧ CeReady ce c d) := by
  cases h with
  | done => exact .inl ⟨rfl, rfl⟩
  | de hnext hready _ =>
      exact .inr (.inl ⟨fun hnil => (by rw [hnil] at hnext; cases hnext), hready⟩)
  | ce hnext hready _ =>
      exact .inr (.inr ⟨fun hnil => (by rw [hnil] at hnext; cases hnext), hready⟩)

end Ideal

variable {s s' s₀ : CounterState} {dcb : List DePacket} {ccb : List CePacket}

/-- The condition on the state before a step: the counters do not wrap, a nested buffer begins
with equal counters, a null `ce_task` is not asked, and the constant engine that waits is
either not ahead and less than `diff` behind, or ahead by `diff` and by no more than
`2 ^ 32 - diff`. -/
def StepOk (s : CounterState) : Prop :=
  match s.running with
  | .de =>
      match s.de with
      | (.incrementDeCounter :: _) :: _ => s.deCount < 4294967295
      | (.waitOnCeCounter :: _) :: _ => s.ceHandle = true ∨ s.deCount < s.ceCount
      | (.indirectBuffer _ :: _) :: _ => s.ceCount = s.deCount
      | _ => True
  | .ce =>
      match s.ce with
      | (.incrementCeCounter :: _) :: _ => s.ceCount < 4294967295
      | (.waitOnDeCounterDiff diff :: _) :: _ =>
          (s.ceCount ≤ s.deCount ∧ s.deCount < s.ceCount + diff) ∨
            (s.deCount + diff ≤ s.ceCount ∧ s.ceCount + diff ≤ s.deCount + 4294967296)
      | _ => True

structure Inv (s : CounterState) : Prop where
  ce_lt : s.ceCount < 4294967296
  de_lt : s.deCount < 4294967296
  diff_eq : s.ceCount + s.deIncrements = s.deCount + s.ceIncrements

theorem inv_start : (start dcb ccb).Inv :=
  ⟨Nat.succ_pos 4294967295, Nat.succ_pos 4294967295, rfl⟩

/-- The draw engine executes a packet. -/
structure DeMoves (s s' : CounterState) (n : ℕ) : Prop where
  next : advanceDe s.de = some (s'.de, n)
  ready : DeReady s.de s.ce s.ceIncrements s.deIncrements
  ce_eq : s'.ce = s.ce
  ceIncrements_eq : s'.ceIncrements = s.ceIncrements
  deIncrements_eq : s'.deIncrements = s.deIncrements + n
  running_eq : s'.running = s.running
  inv : s'.Inv

/-- The constant engine executes a packet. -/
structure CeMoves (s s' : CounterState) (n : ℕ) : Prop where
  next : advanceCe s.ce = some (s'.ce, n)
  ready : CeReady s.ce s.ceIncrements s.deIncrements
  de_eq : s'.de = s.de
  ceIncrements_eq : s'.ceIncrements = s.ceIncrements + n
  deIncrements_eq : s'.deIncrements = s.deIncrements
  running_eq : s'.running = s.running
  inv : s'.Inv

/-- What a step of the draw engine does. -/
inductive DeStep (s : CounterState) : Next CounterState → Prop
  | finished (hde : s.de = []) (hce : s.ce = []) : DeStep s .finished
  | moves {s' : CounterState} {n : ℕ} (h : DeMoves s s' n) : DeStep s (.to s')
  | yields (hce : s.ce ≠ [])
      (hwaits : s.de = [] ∨ ¬ DeReady s.de s.ce s.ceIncrements s.deIncrements) :
      DeStep s (.to { s with running := .ce })

/-- What a step of the constant engine does. -/
inductive CeStep (s : CounterState) : Next CounterState → Prop
  | moves {s' : CounterState} {n : ℕ} (h : CeMoves s s' n) : CeStep s (.to s')
  | yields (hwaits : s.ce = [] ∨ ¬ CeReady s.ce s.ceIncrements s.deIncrements) :
      CeStep s (.to { s with running := .de })

theorem stepDe_spec (h : s.Inv) (hrun : s.running = .de) (hok : s.StepOk) :
    DeStep s s.stepDe := by
  obtain ⟨hce, hde, hdiff⟩ := h
  unfold StepOk at hok
  rw [hrun] at hok
  unfold stepDe
  split
  case h_1 hnil =>
      split
      case isTrue hdone => exact .finished hnil hdone
      case isFalse hce => exact .yields hce (.inl hnil)
  case h_2 callers heq =>
      exact .moves (n := 0) ⟨by rw [heq]; rfl, by rw [heq]; trivial, rfl, rfl, rfl, rfl,
        ⟨hce, hde, hdiff⟩⟩
  case h_3 dcb callers heq =>
      rw [heq] at hok
      have hinc := incU32_eq hok
      exact .moves (n := 1) ⟨by rw [heq]; rfl, by rw [heq]; trivial, rfl, rfl, rfl, rfl,
        ⟨hce, by dsimp only; omega, by dsimp only; omega⟩⟩
  case h_4 dcb callers heq =>
      rw [heq] at hok
      have hready : DeReady s.de s.ce s.ceIncrements s.deIncrements ↔
          s.deIncrements < s.ceIncrements ∨ s.ce = [] := by
        rw [heq]
        exact Iff.rfl
      split
      case isTrue hwaits =>
          have hwaits : s.ceCount ≤ s.deCount := hwaits
          have hhandle : s.ceHandle = true := hok.resolve_right (Nat.not_lt.2 hwaits)
          rw [if_neg (by rw [hhandle]; exact Bool.noConfusion)]
          split
          case isTrue hdone =>
              exact .moves (n := 0) ⟨by rw [heq]; rfl, hready.2 (.inr hdone), rfl, rfl, rfl, rfl,
                ⟨hce, hde, hdiff⟩⟩
          case isFalse hrest =>
              refine .yields hrest (.inr fun hr => ?_)
              obtain hlt | hnil := hready.1 hr
              · omega
              · exact hrest hnil
      case isFalse hpasses =>
          have hpasses : ¬ s.ceCount ≤ s.deCount := hpasses
          exact .moves (n := 0) ⟨by rw [heq]; rfl, hready.2 (.inl (by omega)), rfl, rfl, rfl, rfl,
            ⟨hce, hde, hdiff⟩⟩
  case h_5 inner dcb callers heq =>
      rw [heq] at hok
      have hequal : s.ceCount = s.deCount := hok
      exact .moves (n := 0) ⟨by rw [heq]; rfl, by rw [heq]; trivial, rfl, rfl, rfl, rfl,
        ⟨by dsimp only; omega, by dsimp only; omega, by dsimp only; omega⟩⟩
  case h_6 dcb callers heq =>
      exact .moves (n := 0) ⟨by rw [heq]; rfl, by rw [heq]; trivial, rfl, rfl, rfl, rfl,
        ⟨hce, hde, hdiff⟩⟩

theorem stepCe_spec (h : s.Inv) (hrun : s.running = .ce) (hok : s.StepOk) :
    CeStep s s.stepCe := by
  obtain ⟨hce, hde, hdiff⟩ := h
  unfold StepOk at hok
  rw [hrun] at hok
  unfold stepCe
  split
  case h_1 hnil => exact .yields (.inl hnil)
  case h_2 callers heq =>
      exact .moves (n := 0) ⟨by rw [heq]; rfl, by rw [heq]; trivial, rfl, rfl, rfl, rfl,
        ⟨hce, hde, hdiff⟩⟩
  case h_3 ccb callers heq =>
      rw [heq] at hok
      have hinc := incU32_eq hok
      exact .moves (n := 1) ⟨by rw [heq]; rfl, by rw [heq]; trivial, rfl, rfl, rfl, rfl,
        ⟨by dsimp only; omega, hde, by dsimp only; omega⟩⟩
  case h_4 diff ccb callers heq =>
      rw [heq] at hok
      have hok : (s.ceCount ≤ s.deCount ∧ s.deCount < s.ceCount + diff) ∨
        (s.deCount + diff ≤ s.ceCount ∧ s.ceCount + diff ≤ s.deCount + 4294967296) := hok
      have hready : CeReady s.ce s.ceIncrements s.deIncrements ↔
          s.ceIncrements < s.deIncrements + diff := by
        rw [heq]
        exact Iff.rfl
      split
      case isTrue hwaits =>
          unfold waitsOnDe at hwaits
          exact .yields (.inr fun hr => by have := hready.1 hr; omega)
      case isFalse hpasses =>
          unfold waitsOnDe at hpasses
          exact .moves (n := 0) ⟨by rw [heq]; rfl, hready.2 (by omega), rfl, rfl, rfl, rfl,
            ⟨hce, hde, hdiff⟩⟩
  case h_5 inner ccb callers heq =>
      exact .moves (n := 0) ⟨by rw [heq]; rfl, by rw [heq]; trivial, rfl, rfl, rfl, rfl,
        ⟨hce, hde, hdiff⟩⟩
  case h_6 ccb callers heq =>
      exact .moves (n := 0) ⟨by rw [heq]; rfl, by rw [heq]; trivial, rfl, rfl, rfl, rfl,
        ⟨hce, hde, hdiff⟩⟩

theorem step_de (hrun : s.running = .de) : s.step = s.stepDe := by
  unfold step
  rw [hrun]

theorem step_ce (hrun : s.running = .ce) : s.step = s.stepCe := by
  unfold step
  rw [hrun]

/-- The counters differ by the increments that are done, whichever engine runs. -/
theorem step_inv (h : s.Inv) (hok : s.StepOk) (hs : s.step = .to s') : s'.Inv := by
  cases hrun : s.running with
  | de =>
      have hstep := stepDe_spec h hrun hok
      rw [← step_de hrun, hs] at hstep
      cases hstep with
      | moves hm => exact hm.inv
      | yields _ _ => exact ⟨h.ce_lt, h.de_lt, h.diff_eq⟩
  | ce =>
      have hstep := stepCe_spec h hrun hok
      rw [← step_ce hrun, hs] at hstep
      cases hstep with
      | moves hm => exact hm.inv
      | yields _ => exact ⟨h.ce_lt, h.de_lt, h.diff_eq⟩

structure Safe (s : CounterState) : Prop where
  ce_ahead : ∀ dcb callers s', s.running = .de →
    s.de = (.waitOnCeCounter :: dcb) :: callers → s.step = .to s' → s'.de = dcb :: callers →
    s.deIncrements < s.ceIncrements ∨ s.ce = []
  ce_near : ∀ diff ccb callers s', s.running = .ce →
    s.ce = (.waitOnDeCounterDiff diff :: ccb) :: callers → s.step = .to s' →
    s'.ce = ccb :: callers → s.ceIncrements < s.deIncrements + diff
  handle : s.step ≠ .nullHandle

theorem safe_of_stepOk (h : s.Inv) (hok : s.StepOk) : s.Safe where
  ce_ahead dcb callers s' hrun heq hs hpast := by
    have hstep := stepDe_spec h hrun hok
    rw [← step_de hrun, hs] at hstep
    cases hstep with
    | moves hm =>
        have hready := hm.ready
        rw [heq] at hready
        exact hready
    | yields _ _ =>
        have hsame : (DePacket.waitOnCeCounter :: dcb) :: callers = dcb :: callers :=
          heq.symm.trans hpast
        exact absurd (List.cons.inj hsame).1 (List.cons_ne_self _ _)
  ce_near diff ccb callers s' hrun heq hs hpast := by
    have hstep := stepCe_spec h hrun hok
    rw [← step_ce hrun, hs] at hstep
    cases hstep with
    | moves hm =>
        have hready := hm.ready
        rw [heq] at hready
        exact hready
    | yields _ =>
        have hsame : (CePacket.waitOnDeCounterDiff diff :: ccb) :: callers = ccb :: callers :=
          heq.symm.trans hpast
        exact absurd (List.cons.inj hsame).1 (List.cons_ne_self _ _)
  handle hnull := by
    cases hrun : s.running with
    | de =>
        have hstep := stepDe_spec h hrun hok
        rw [← step_de hrun, hnull] at hstep
        cases hstep
    | ce =>
        have hstep := stepCe_spec h hrun hok
        rw [← step_ce hrun, hnull] at hstep
        cases hstep

/-- By induction on the steps of the two engines. -/
theorem Reaches.inv (h : Reaches s₀ s) (h₀ : s₀.Inv)
    (hok : ∀ s, Reaches s₀ s → s.StepOk) : s.Inv := by
  induction h with
  | start => exact h₀
  | step h hs ih => exact step_inv ih (hok _ h) hs

section Completion

theorem advanceDe_lt {de de' : List (List DePacket)} {n : ℕ}
    (h : advanceDe de = some (de', n)) : sizeOf de' < sizeOf de := by
  unfold advanceDe at h
  split at h <;> cases h <;> simp <;> omega

theorem advanceCe_lt {ce ce' : List (List CePacket)} {n : ℕ}
    (h : advanceCe ce = some (ce', n)) : sizeOf ce' < sizeOf ce := by
  unfold advanceCe at h
  split at h <;> cases h <;> simp <;> omega

/-- What is left of both buffers. -/
noncomputable def left (s : CounterState) : ℕ := sizeOf s.de + sizeOf s.ce

def CanComplete (s : CounterState) : Prop :=
  Completes s.de s.ce s.ceIncrements s.deIncrements

theorem DeMoves.left_lt {n : ℕ} (h : DeMoves s s' n) : s'.left < s.left := by
  have := advanceDe_lt h.next
  unfold left
  rw [h.ce_eq]
  omega

theorem CeMoves.left_lt {n : ℕ} (h : CeMoves s s' n) : s'.left < s.left := by
  have := advanceCe_lt h.next
  unfold left
  rw [h.de_eq]
  omega

theorem DeMoves.canComplete {n : ℕ} (h : DeMoves s s' n) (hc : s.CanComplete) :
    s'.CanComplete := by
  unfold CanComplete
  rw [h.ce_eq, h.ceIncrements_eq, h.deIncrements_eq]
  exact Completes.after_de hc h.next h.ready

theorem CeMoves.canComplete {n : ℕ} (h : CeMoves s s' n) (hc : s.CanComplete) :
    s'.CanComplete := by
  unfold CanComplete
  rw [h.de_eq, h.ceIncrements_eq, h.deIncrements_eq]
  exact Completes.after_ce hc h.next h.ready

theorem not_deadlocked (hc : s.CanComplete) (hce : s.ce ≠ [])
    (hde : s.de = [] ∨ ¬ DeReady s.de s.ce s.ceIncrements s.deIncrements)
    (hwaits : ¬ CeReady s.ce s.ceIncrements s.deIncrements) : False := by
  obtain ⟨-, hnil⟩ | ⟨hne, hready⟩ | ⟨-, hready⟩ := Completes.progress hc
  · exact hce hnil
  · exact hde.elim hne fun h => h hready
  · exact hwaits hready

theorem advances (h : s.Inv) (hok : ∀ s', Reaches s s' → s'.StepOk) (hc : s.CanComplete) :
    (∃ s', Reaches s s' ∧ s'.step = .finished) ∨
      ∃ s', Reaches s s' ∧ s'.left < s.left ∧ s'.CanComplete := by
  have hok₀ := hok s .start
  cases hrun : s.running with
  | de =>
      have hstep := stepDe_spec h hrun hok₀
      rw [← step_de hrun] at hstep
      generalize hnext : s.step = next at hstep
      cases hstep with
      | finished _ _ => exact .inl ⟨s, .start, hnext⟩
      | moves hm => exact .inr ⟨_, .step .start hnext, hm.left_lt, hm.canComplete hc⟩
      | yields hce hwaits =>
          have hreach := Reaches.step .start hnext
          have hstep' := stepCe_spec (step_inv h hok₀ hnext) rfl (hok _ hreach)
          generalize hnext' : stepCe _ = next' at hstep'
          cases hstep' with
          | moves hm => exact .inr ⟨_, .step hreach hnext', hm.left_lt, hm.canComplete hc⟩
          | yields hwaits' =>
              exact (not_deadlocked hc hce hwaits (hwaits'.resolve_left hce)).elim
  | ce =>
      have hstep := stepCe_spec h hrun hok₀
      rw [← step_ce hrun] at hstep
      generalize hnext : s.step = next at hstep
      cases hstep with
      | moves hm => exact .inr ⟨_, .step .start hnext, hm.left_lt, hm.canComplete hc⟩
      | yields hwaits =>
          have hreach := Reaches.step .start hnext
          have hstep' := stepDe_spec (step_inv h hok₀ hnext) rfl (hok _ hreach)
          generalize hnext' : stepDe _ = next' at hstep'
          cases hstep' with
          | finished _ _ => exact .inl ⟨_, hreach, hnext'⟩
          | moves hm => exact .inr ⟨_, .step hreach hnext', hm.left_lt, hm.canComplete hc⟩
          | yields hce hwaits' =>
              exact (not_deadlocked hc hce hwaits' (hwaits.resolve_left hce)).elim

theorem Reaches.trans (h : Reaches s₀ s) (h' : Reaches s s') : Reaches s₀ s' := by
  induction h' with
  | start => exact h
  | step _ hs ih => exact .step ih hs

theorem runs_to_completion (h : s.Inv) (hok : ∀ s', Reaches s s' → s'.StepOk)
    (hc : s.CanComplete) : ∃ s', Reaches s s' ∧ s'.step = .finished := by
  induction hn : s.left using Nat.strongRecOn generalizing s with
  | ind n ih =>
      obtain hdone | ⟨s', hreach, hlt, hc'⟩ := advances h hok hc
      · exact hdone
      · have hok' : ∀ t, Reaches s' t → t.StepOk := fun t ht => hok t (hreach.trans ht)
        obtain ⟨t, ht, hdone⟩ := ih s'.left (hn ▸ hlt) (hreach.inv h hok) hok' hc' rfl
        exact ⟨t, hreach.trans ht, hdone⟩

end Completion

/-- In a run whose steps meet the condition the engines keep to their counters, and both run to
completion if they can in any order of their packets. -/
theorem engines_keep_to_counters
    (hok : ∀ s, Reaches (start dcb ccb) s → s.StepOk) :
    (∀ s, Reaches (start dcb ccb) s → s.Safe) ∧
      ((start dcb ccb).CanComplete →
        ∃ s, Reaches (start dcb ccb) s ∧ s.step = .finished) :=
  ⟨fun s h => safe_of_stepOk (h.inv inv_start hok) (hok s h), runs_to_completion inv_start hok⟩

section Samples

instance : DecidablePred StepOk := fun s => by
  unfold StepOk
  split <;> split <;> infer_instance

/-- The condition is met in every state of a run that ends within some steps. -/
def allOk : ℕ → CounterState → Bool
  | 0, _ => false
  | fuel + 1, s =>
      decide s.StepOk &&
        match s.step with
        | .to s' => allOk fuel s'
        | _ => true

theorem Reaches.eq_or_head (h : Reaches s₀ s) :
    s = s₀ ∨ ∃ s', s₀.step = .to s' ∧ Reaches s' s := by
  induction h with
  | start => exact .inl rfl
  | step _ hs ih =>
      obtain rfl | ⟨s', hs', h'⟩ := ih
      · exact .inr ⟨_, hs, .start⟩
      · exact .inr ⟨s', hs', .step h' hs⟩

theorem stepOk_of_allOk {fuel : ℕ} (hall : allOk fuel s₀ = true) (h : Reaches s₀ s) :
    s.StepOk := by
  induction fuel generalizing s₀ with
  | zero => cases hall
  | succ fuel ih =>
      unfold allOk at hall
      rw [Bool.and_eq_true, decide_eq_true_iff] at hall
      obtain rfl | ⟨s', hs', h'⟩ := h.eq_or_head
      · exact hall.1
      · have hrest := hall.2
        rw [hs'] at hrest
        exact ih hrest h'

def sampleDcb : List DePacket :=
  [.waitOnCeCounter, .incrementDeCounter, .indirectBuffer [.other], .waitOnCeCounter,
    .incrementDeCounter]

def sampleCcb : List CePacket :=
  [.incrementCeCounter, .waitOnDeCounterDiff 1, .incrementCeCounter]

theorem engines_keep_to_counters_sample :
    (∀ s, Reaches (start sampleDcb sampleCcb) s → s.Safe) ∧
      ∃ s, Reaches (start sampleDcb sampleCcb) s ∧ s.step = .finished := by
  have hall : allOk 30 (start sampleDcb sampleCcb) = true := by decide
  have h := engines_keep_to_counters fun s hs => stepOk_of_allOk hall hs
  refine ⟨h.1, h.2 ?_⟩
  exact .ce rfl trivial (.de rfl (.inl (by decide)) (.de rfl trivial (.de rfl trivial
    (.de rfl trivial (.de rfl trivial (.ce rfl (by decide : 1 < 1 + 1) (.ce rfl trivial
      (.ce rfl trivial (.de rfl (.inl (by decide)) (.de rfl trivial
        (.de rfl trivial .done)))))))))))

/-- A draw engine that counts twice while the constant engine waits for it to count once. -/
def behindState (de : List (List DePacket)) (ce : List (List CePacket)) (ceCount deCount : ℕ)
    (running : Running) : CounterState :=
  { de, ce, hasCe := true, ceCount, deCount, ceIncrements := ceCount, deIncrements := deCount,
    running }

def behindStates : List CounterState :=
  [behindState [[.incrementDeCounter, .incrementDeCounter]]
      [[.incrementCeCounter, .waitOnDeCounterDiff 1]] 0 0 .ce,
    behindState [[.incrementDeCounter, .incrementDeCounter]] [[.waitOnDeCounterDiff 1]] 1 0 .ce,
    behindState [[.incrementDeCounter, .incrementDeCounter]] [[.waitOnDeCounterDiff 1]] 1 0 .de,
    behindState [[.incrementDeCounter]] [[.waitOnDeCounterDiff 1]] 1 1 .de,
    behindState [[]] [[.waitOnDeCounterDiff 1]] 1 2 .de,
    behindState [] [[.waitOnDeCounterDiff 1]] 1 2 .de,
    behindState [] [[.waitOnDeCounterDiff 1]] 1 2 .ce]

theorem mem_behindStates (h : Reaches (start [.incrementDeCounter, .incrementDeCounter]
    [.incrementCeCounter, .waitOnDeCounterDiff 1]) s) : s ∈ behindStates := by
  induction h with
  | start => exact .head _
  | step _ hs ih =>
      simp only [behindStates, List.mem_cons, List.not_mem_nil, or_false] at ih ⊢
      obtain rfl | rfl | rfl | rfl | rfl | rfl | rfl := ih <;>
        simp [behindState, step, stepDe, stepCe, waitsOnDe, incU32] at hs <;>
        subst hs <;> simp [behindState]

/-- A wait in a nested buffer asks the handle of a constant engine that the nested call does not
have, and a constant engine that is behind waits for ever though its wait is over. -/
theorem nested_wait_asks_null :
    (∃ s, Reaches (start [.indirectBuffer [.waitOnCeCounter]] [.incrementCeCounter]) s ∧
      s.step = .nullHandle) ∧
    (start [.incrementDeCounter, .incrementDeCounter]
      [.incrementCeCounter, .waitOnDeCounterDiff 1]).CanComplete ∧
    ∀ s, Reaches (start [.incrementDeCounter, .incrementDeCounter]
      [.incrementCeCounter, .waitOnDeCounterDiff 1]) s → s.step ≠ .finished := by
  refine ⟨⟨_, .step (.step (.step (.step .start rfl) rfl) rfl) rfl, rfl⟩, ?_, fun s hs => ?_⟩
  · exact .ce rfl trivial (.de rfl trivial (.de rfl trivial (.de rfl trivial
      (.ce rfl (by decide : 1 < 2 + 1) (.ce rfl trivial .done)))))
  · have hmem := mem_behindStates hs
    simp only [behindStates, List.mem_cons, List.not_mem_nil, or_false] at hmem
    obtain rfl | rfl | rfl | rfl | rfl | rfl | rfl := hmem <;>
      simp [behindState, step, stepDe, stepCe, waitsOnDe]

end Samples

end CounterState

end OrbitConsole.VideoCore
