import OrbitConsole.VideoCore.CommandProcessor

/-!
# Nothing submitted is lost

Tasks and commands are run in the order they came in, whatever the threads do.
While `num_submits` is never counted down from zero and `SubmitDone` does not fall
between a flush and the clearing of its flag, a processor that is blocked has
nothing to do, and a state in which nobody can move has no work left.
-/

namespace OrbitConsole.VideoCore

open Function (update update_of_ne update_self)

/-- The command that is taken and not run. -/
def ProcessorPc.inHand {ι : Type} : ProcessorPc ι → List (Command ι)
  | .callback c _ => [c]
  | _ => []

/-- Whether a task has left its queue and is still counted. -/
def ProcessorPc.uncounted {ι : Type} : ProcessorPc ι → ℕ
  | .decrement => 1
  | _ => 0

/-- It is in the task at the front of the current queue. -/
def ProcessorPc.inTask {ι : Type} : ProcessorPc ι → Bool
  | .resumed | .commands .task | .popCommand .task | .callback _ .task => true
  | _ => false

/-- Whether it has queued its task and not counted it. -/
def CallerPc.uncounted : CallerPc → ℕ
  | .counting _ => 1
  | _ => 0

@[simp] theorem CallerPc.uncounted_wake (pc : CallerPc) : pc.wake.uncounted = pc.uncounted := by
  cases pc <;> rfl

theorem CallerPc.wake_ne_blocked (pc : CallerPc) : pc.wake ≠ .blocked false := by
  cases pc <;> simp [CallerPc.wake]

theorem CallerPc.wake_eq_acquiring {pc : CallerPc} : pc.wake = .acquiring ↔ pc = .acquiring := by
  cases pc <;> simp [CallerPc.wake]

@[simp] theorem Back.inHand_pc {ι : Type} (back : Back) :
    (back.pc : ProcessorPc ι).inHand = [] := by
  cases back <;> rfl

@[simp] theorem Back.uncounted_pc {ι : Type} (back : Back) :
    (back.pc : ProcessorPc ι).uncounted = 0 := by
  cases back <;> rfl

theorem Back.inTask_pc {ι : Type} (back : Back) :
    (back.pc : ProcessorPc ι).inTask = (.commands back : ProcessorPc ι).inTask := by
  cases back <;> rfl

namespace Liverpool

variable {ι : Type} {s s' : Liverpool ι}

/-- `num_submits` is not counted down from zero, no counter wraps around, and `SubmitDone` is not
called between a flush and the clearing of its flag. -/
def Careful (s : Liverpool ι) : GpuAction ι → Prop
  | .caller i _ => (s.callers i).uncounted = 1 → s.numSubmits ≠ 4294967295
  | .sendCommand _ _ _ _ => s.numCommands ≠ 4294967295
  | .submitDone _ _ => s.processor ≠ .flushing
  | .processor => s.processor = .decrement → s.numSubmits ≠ 0
  | _ => True

instance [DecidableEq ι] (s : Liverpool ι) (a : GpuAction ι) : Decidable (s.Careful a) :=
  match a with
  | .caller _ _ => inferInstanceAs (Decidable (_ → _ ≠ _))
  | .sendCommand _ _ _ _ => inferInstanceAs (Decidable (_ ≠ _))
  | .submitDone _ _ => inferInstanceAs (Decidable (_ ≠ _))
  | .processor => inferInstanceAs (Decidable (_ → _ ≠ _))
  | .submit _ _ _ | .waitGpuIdle _ | .spuriousProcessor | .spuriousCaller _ => isTrue True.intro

variable [Fintype ι]

/-- What holds in every state of a careful run, a blocked processor apart. -/
structure Core (s : Liverpool ι) : Prop where
  order : ∀ q, s.completed q ++ (s.submits q).map GpuTask.id = s.submitted q
  commands : s.executed ++ (s.processor.inHand ++ s.commandQueue) = s.sent
  numCommands : s.numCommands = s.commandQueue.length
  commandsBound : s.numCommands < 4294967296
  count : s.numSubmits + tally CallerPc.uncounted s.callers =
    tally List.length s.submits + s.processor.uncounted
  bound : s.numSubmits < 4294967296
  inTask : s.processor.inTask = true → s.currQueue ≠ []
  popping : ∀ back, s.processor = .popCommand back → s.commandQueue ≠ []
  flush : s.flushDue = true → s.submitDone = true
  flushing : s.processor = .flushing → s.flushDue = false
  callerBlocked : ∀ i, s.callers i = .blocked false → s.numSubmits ≠ 0 ∨ s.processor = .notify
  acquiring : ∀ i, s.callers i = .acquiring →
    s.sem i = true ∨ ∃ c ∈ s.processor.inHand ++ s.commandQueue, c.waiter = some i

/-- What holds in every state of a careful run. -/
structure Inv (s : Liverpool ι) : Prop extends Core s where
  blocked : s.processor = .blocked false →
    s.numSubmits = 0 ∧ s.numCommands = 0 ∧ s.submitDone = false

theorem inv_init : Inv (init : Liverpool ι) where
  order q := rfl
  commands := rfl
  numCommands := rfl
  commandsBound := by simp [init]
  count := by
    have hcallers : tally CallerPc.uncounted (init : Liverpool ι).callers = 0 :=
      tally_eq_zero.2 fun _ => rfl
    have hsubmits : tally List.length (init : Liverpool ι).submits = 0 :=
      tally_eq_zero.2 fun _ => rfl
    rw [hcallers, hsubmits]
    rfl
  bound := by simp [init]
  inTask h := by cases h
  popping back h := by cases h
  flush h := by cases h
  flushing h := by cases h
  callerBlocked i h := by cases h
  acquiring i h := by cases h
  blocked h := by cases h

variable [DecidableEq ι] {i : ι}

omit [Fintype ι] in
theorem forall_caller {f : ι → CallerPc} {pc : CallerPc} {P : ι → CallerPc → Prop}
    (hnew : P i pc) (h : ∀ j, P j (f j)) (j : ι) : P j (update f i pc j) := by
  by_cases hj : j = i
  · subst hj
    rw [update_self]
    exact hnew
  · rw [update_of_ne hj]
    exact h j

namespace Core

theorem setCaller (h : Core s) {pc : CallerPc} (hpc : (s.callers i).uncounted = pc.uncounted)
    (hblocked : pc = .blocked false → s.numSubmits ≠ 0)
    (hacquiring : pc = .acquiring → s.sem i = true) : Core (s.setCaller i pc) :=
  { h with
    count := by
      have htally := tally_update CallerPc.uncounted s.callers i pc
      have hcount := h.count
      simp only [Liverpool.setCaller]
      omega
    callerBlocked := forall_caller (P := fun _ pc => pc = .blocked false →
      s.numSubmits ≠ 0 ∨ s.processor = .notify) (fun hb => .inl (hblocked hb)) h.callerBlocked
    acquiring := forall_caller (P := fun j pc => pc = .acquiring →
      s.sem j = true ∨ ∃ c ∈ s.processor.inHand ++ s.commandQueue, c.waiter = some j)
      (fun ha => .inl (hacquiring ha)) h.acquiring }

omit [DecidableEq ι] in
theorem setProcessor (h : Core s) {pc : ProcessorPc ι} (hhand : s.processor.inHand = [])
    (hhand' : pc.inHand = []) (hcount : s.processor.uncounted = 0) (hcount' : pc.uncounted = 0)
    (htask : pc.inTask = true → s.currQueue ≠ [])
    (hpop : ∀ back, pc = .popCommand back → s.commandQueue ≠ [])
    (hflush : pc ≠ .flushing) (hnotify : s.processor ≠ .notify) :
    Core { s with processor := pc } :=
  { h with
    commands := by
      have := h.commands
      rw [hhand] at this
      simp only [hhand']
      exact this
    count := by
      have := h.count
      rw [hcount] at this
      simp only [hcount']
      exact this
    inTask := htask
    popping := hpop
    flushing := fun hf => absurd hf hflush
    callerBlocked := fun j hj => .inl ((h.callerBlocked j hj).resolve_right hnotify)
    acquiring := fun j hj => by
      have := h.acquiring j hj
      rw [hhand] at this
      simp only [hhand']
      exact this }

theorem wakeOne (h : Core s) {target : Option (Option ι)} (hcan : s.CanNotify target) :
    Core (s.wakeOne target) := by
  match target with
  | none => exact h
  | some none =>
      have hpc : s.processor = .blocked false := hcan
      exact h.setProcessor (by rw [hpc]; rfl) rfl (by rw [hpc]; rfl) rfl
        (by simp [ProcessorPc.inTask])
        (by simp) (by simp) (by simp [hpc])
  | some (some j) =>
      have hpc : s.callers j = .blocked false := hcan
      exact h.setCaller (by rw [hpc]; rfl) (by simp) (by simp)

theorem notifyOne {target : Option (Option ι)} (hs : s.notifyOne target = some s')
    (h : Core s) (hquiet : s.processor = .blocked false → ∀ j, s.callers j ≠ .blocked false) :
    Inv s' := by
  unfold Liverpool.notifyOne at hs
  split at hs
  case isFalse => cases hs
  case isTrue hcan =>
      obtain rfl := Option.some.inj hs
      refine { h.wakeOne hcan with blocked := fun hb => ?_ }
      match target with
      | none => exact absurd hb hcan.1
      | some none => cases hb
      | some (some j) => exact absurd hcan (hquiet hb j)

end Core

namespace Inv

omit [DecidableEq ι] in
theorem quiet (h : Inv s) (hb : s.processor = .blocked false) (j : ι) :
    s.callers j ≠ .blocked false := by
  intro hj
  rcases h.callerBlocked j hj with hnum | hnotify
  · exact hnum (h.blocked hb).1
  · rw [hb] at hnotify
    cases hnotify

theorem setCaller (h : Inv s) {pc : CallerPc} (hpc : (s.callers i).uncounted = pc.uncounted)
    (hblocked : pc = .blocked false → s.numSubmits ≠ 0)
    (hacquiring : pc = .acquiring → s.sem i = true) : Inv (s.setCaller i pc) :=
  { h.toCore.setCaller hpc hblocked hacquiring with blocked := h.blocked }

omit [DecidableEq ι] in
theorem setProcessor (h : Inv s) {pc : ProcessorPc ι} (hhand : s.processor.inHand = [])
    (hhand' : pc.inHand = []) (hcount : s.processor.uncounted = 0) (hcount' : pc.uncounted = 0)
    (htask : pc.inTask = true → s.currQueue ≠ [])
    (hpop : ∀ back, pc = .popCommand back → s.commandQueue ≠ [])
    (hflush : pc ≠ .flushing) (hnotify : s.processor ≠ .notify)
    (hblocked : pc = .blocked false →
      s.numSubmits = 0 ∧ s.numCommands = 0 ∧ s.submitDone = false) :
    Inv { s with processor := pc } :=
  { h.toCore.setProcessor hhand hhand' hcount hcount' htask hpop hflush hnotify with
    blocked := hblocked }

omit [DecidableEq ι] in
theorem setSubmits_inTask (h : Inv s) {q : QueueId} {l : List GpuTask} (hl : l ≠ [])
    (ht : s.processor.inTask = true) :
    { s with submits := update s.submits q l }.currQueue ≠ [] := by
  have hne := h.inTask ht
  unfold currQueue at hne ⊢
  cases hq : s.currQid
  case none =>
      rw [hq] at hne
      exact absurd rfl hne
  case some q' =>
      rw [hq] at hne
      simp only at hne ⊢
      by_cases hqq : q' = q
      · rw [hqq, update_self]
        exact hl
      · rw [update_of_ne hqq]
        exact hne

theorem pushing (h : Inv s) {q : QueueId} {task : GpuTask}
    (hpc : s.callers i = .pushing q task) :
    Inv { s.setCaller i (.counting q) with
      submits := update s.submits q (s.submits q ++ [task])
      submitted := update s.submitted q (s.submitted q ++ [task.id]) } :=
  { h with
    order := fun q' => by
      have := h.order q'
      simp only [Liverpool.setCaller]
      by_cases hq : q' = q
      · subst hq
        rw [update_self, update_self, ← this]
        simp
      · rw [update_of_ne hq, update_of_ne hq]
        exact this
    count := by
      have hcallers := tally_update CallerPc.uncounted s.callers i (.counting q)
      have hsubmits := tally_update List.length s.submits q (s.submits q ++ [task])
      have hcount := h.count
      rw [hpc] at hcallers
      simp only [CallerPc.uncounted, List.length_append, List.length_singleton] at hcallers hsubmits
      simp only [Liverpool.setCaller]
      omega
    inTask := fun ht => h.setSubmits_inTask (by simp) ht
    callerBlocked := forall_caller (P := fun _ pc => pc = .blocked false →
      s.numSubmits ≠ 0 ∨ s.processor = .notify) (by simp) h.callerBlocked
    acquiring := forall_caller (P := fun j pc => pc = .acquiring →
      s.sem j = true ∨ ∃ c ∈ s.processor.inHand ++ s.commandQueue, c.waiter = some j)
      (by simp) h.acquiring }

theorem counting (h : Inv s) {q : QueueId} {target : Option (Option ι)}
    (hpc : s.callers i = .counting q) (hmax : s.numSubmits ≠ 4294967295)
    (hs : { s.setCaller i .idle with
      numMappedQueues := max s.numMappedQueues (q.val + 1)
      numSubmits := incU32 s.numSubmits }.notifyOne target = some s') : Inv s' := by
  have hbound := h.bound
  rw [incU32_eq (by omega)] at hs
  refine Core.notifyOne hs ?_ fun hb => forall_caller (P := fun _ pc => pc ≠ .blocked false)
    (by simp) (h.quiet hb)
  exact { h with
    count := by
      have hcallers := tally_update CallerPc.uncounted s.callers i .idle
      have hcount := h.count
      rw [hpc] at hcallers
      simp only [CallerPc.uncounted] at hcallers
      simp only [Liverpool.setCaller]
      omega
    bound := by simp only; omega
    callerBlocked := fun _ _ => .inl (by simp)
    acquiring := forall_caller (P := fun j pc => pc = .acquiring →
      s.sem j = true ∨ ∃ c ∈ s.processor.inHand ++ s.commandQueue, c.waiter = some j)
      (by simp) h.acquiring }

theorem sendCommand (h : Inv s) {id : ℕ} {wait : Bool} {target : Option (Option ι)}
    (hpc : s.callers i = .idle) (hmax : s.numCommands ≠ 4294967295)
    (hs : { s.setCaller i (if wait then .acquiring else .idle) with
      commandQueue := s.commandQueue ++ [(⟨id, if wait then some i else none⟩ : Command ι)]
      sent := s.sent ++ [(⟨id, if wait then some i else none⟩ : Command ι)]
      numCommands := incU32 s.numCommands
      sem := if wait then update s.sem i false else s.sem }.notifyOne target = some s') :
    Inv s' := by
  have hbound := h.commandsBound
  rw [incU32_eq (by omega)] at hs
  refine Core.notifyOne hs ?_ fun hb => forall_caller (P := fun _ pc => pc ≠ .blocked false)
    (by split <;> simp) (h.quiet hb)
  exact { h with
    commands := by
      have := h.commands
      simp only [Liverpool.setCaller, ← List.append_assoc] at this ⊢
      rw [this]
    numCommands := by
      have := h.numCommands
      simp only [List.length_append, List.length_singleton]
      omega
    commandsBound := by simp only; omega
    count := by
      have hcallers := tally_update CallerPc.uncounted s.callers i
        (if wait then .acquiring else .idle)
      have hcount := h.count
      have hnew : (if wait then CallerPc.acquiring else .idle).uncounted = 0 := by
        split <;> rfl
      rw [hpc, hnew] at hcallers
      simp only [CallerPc.uncounted] at hcallers
      simp only [Liverpool.setCaller]
      omega
    popping := fun back _ => by simp
    callerBlocked := forall_caller (P := fun _ pc => pc = .blocked false →
      s.numSubmits ≠ 0 ∨ s.processor = .notify) (by split <;> simp) h.callerBlocked
    acquiring := by
      intro j hj
      simp only [Liverpool.setCaller] at hj ⊢
      by_cases hji : j = i
      · subst hji
        right
        rw [update_self] at hj
        cases wait
        case false => cases hj
        case true => exact ⟨⟨id, some j⟩, by simp, rfl⟩
      · rw [update_of_ne hji] at hj
        rcases h.acquiring j hj with hsem | ⟨c, hc, hwaiter⟩
        · left
          cases wait
          case false => exact hsem
          case true => simpa [update_of_ne hji] using hsem
        · refine .inr ⟨c, ?_, hwaiter⟩
          rw [← List.append_assoc]
          exact List.mem_append_left _ hc }

theorem submitDone (h : Inv s) {target : Option (Option ι)} (hflushing : s.processor ≠ .flushing)
    (hs : { s with submitDone := true, flushDue := true }.notifyOne target = some s') : Inv s' :=
  Core.notifyOne hs { h with
    flush := fun _ => rfl
    flushing := fun hf => absurd hf hflushing } fun hb => h.quiet hb

theorem stepCaller (h : Inv s) {target : Option (Option ι)} (hok : s.Careful (.caller i target))
    (hs : s.stepCaller i target = some s') : Inv s' := by
  unfold Liverpool.stepCaller at hs
  split at hs
  case h_1 => cases hs
  case h_2 q task hpc =>
      split at hs
      case isTrue => cases hs
      case isFalse =>
          obtain rfl := Option.some.inj hs
          exact h.pushing hpc
  case h_3 q hpc => exact h.counting hpc (hok (by rw [hpc]; rfl)) hs
  case h_4 hpc =>
      split at hs
      case isFalse => cases hs
      case isTrue =>
          obtain rfl := Option.some.inj hs
          exact h.setCaller (by rw [hpc]; rfl) (by simp) (by simp)
  case h_5 hpc =>
      obtain rfl := Option.some.inj hs
      refine h.setCaller (by rw [hpc]; split <;> rfl) ?_ (by split <;> simp)
      split
      case isTrue => simp
      case isFalse hnum => exact fun _ => hnum
  case h_6 woken hpc =>
      split at hs
      case isFalse => cases hs
      case isTrue =>
          obtain rfl := Option.some.inj hs
          exact h.setCaller (by rw [hpc]; rfl) (by simp) (by simp)

omit [DecidableEq ι] in
theorem popCommand (h : Inv s) {c : Command ι} {rest : List (Command ι)} {back : Back}
    (hpc : s.processor = .popCommand back) (hqueue : s.commandQueue = c :: rest) :
    Inv { s with
      processor := .callback c back
      commandQueue := rest
      numCommands := decU32 s.numCommands } := by
  have hnum := h.numCommands
  have hbound := h.commandsBound
  rw [hqueue, List.length_cons] at hnum
  rw [decU32_eq (by omega) hbound]
  exact { h with
    commands := by
      have := h.commands
      rw [hpc, hqueue] at this
      exact this
    numCommands := by simp only; omega
    commandsBound := by simp only; omega
    count := by
      have := h.count
      rw [hpc] at this
      exact this
    inTask := fun ht => h.inTask (by rw [hpc]; cases back <;> first | rfl | cases ht)
    popping := fun back' hp => by cases hp
    flushing := fun hf => by cases hf
    callerBlocked := fun j hj => .inl ((h.callerBlocked j hj).resolve_right (by simp [hpc]))
    acquiring := fun j hj => by
      have := h.acquiring j hj
      rw [hpc, hqueue] at this
      exact this
    blocked := fun hb => by cases hb }

theorem callback (h : Inv s) {c : Command ι} {back : Back}
    (hpc : s.processor = .callback c back) :
    Inv { s with
      processor := .commands back
      executed := s.executed ++ [c]
      sem := match c.waiter with
        | none => s.sem
        | some i => update s.sem i true } :=
  { h with
    commands := by
      have := h.commands
      rw [hpc] at this
      simpa [ProcessorPc.inHand] using this
    count := by
      have := h.count
      rw [hpc] at this
      exact this
    inTask := fun ht => h.inTask (by rw [hpc]; cases back <;> first | rfl | cases ht)
    popping := fun back' hp => by cases hp
    flushing := fun hf => by cases hf
    callerBlocked := fun j hj => .inl ((h.callerBlocked j hj).resolve_right (by simp [hpc]))
    acquiring := fun j hj => by
      have := h.acquiring j hj
      rw [hpc] at this
      simp only
      rcases this with hsem | ⟨d, hd, hwaiter⟩
      · left
        cases c.waiter
        case none => exact hsem
        case some k =>
            simp only
            by_cases hjk : j = k
            · rw [hjk, update_self]
            · rw [update_of_ne hjk]
              exact hsem
      · rcases List.mem_append.1 hd with hd | hd
        · left
          simp only [ProcessorPc.inHand, List.mem_singleton] at hd
          subst hd
          simp [hwaiter]
        · exact .inr ⟨d, hd, hwaiter⟩
    blocked := fun hb => by cases hb }

omit [DecidableEq ι] in
theorem advance (h : Inv s) {q : QueueId} {task : GpuTask} {rest : List GpuTask}
    {ops : List TaskOp} {pc : ProcessorPc ι} (hpc : s.processor = .resumed)
    (hqueue : s.submits q = task :: rest) (hnew : pc = .commands .task ∨ pc = .head) :
    Inv { s with
      processor := pc
      submits := update s.submits q ({ task with ops := ops } :: rest) } := by
  have hhand : pc.inHand = [] := by rcases hnew with rfl | rfl <;> rfl
  have hcounted : pc.uncounted = 0 := by rcases hnew with rfl | rfl <;> rfl
  exact { h with
    order := fun q' => by
      have := h.order q'
      simp only
      by_cases hq : q' = q
      · subst hq
        rw [hqueue] at this
        rw [update_self]
        exact this
      · rw [update_of_ne hq]
        exact this
    commands := by
      have := h.commands
      rw [hpc] at this
      simp only [hhand]
      exact this
    count := by
      have hsubmits := tally_update List.length s.submits q ({ task with ops := ops } :: rest)
      have hcount := h.count
      rw [hqueue] at hsubmits
      rw [hpc] at hcount
      simp only [List.length_cons, ProcessorPc.uncounted] at hsubmits hcount
      simp only [hcounted]
      omega
    inTask := fun _ => h.setSubmits_inTask (by simp) (by rw [hpc]; rfl)
    popping := fun back hp => by rcases hnew with rfl | rfl <;> cases hp
    flushing := fun hf => by rcases hnew with rfl | rfl <;> cases hf
    callerBlocked := fun j hj => .inl ((h.callerBlocked j hj).resolve_right (by simp [hpc]))
    acquiring := fun j hj => by
      have := h.acquiring j hj
      rw [hpc] at this
      simp only [hhand]
      exact this
    blocked := fun hb => by rcases hnew with rfl | rfl <;> cases hb }

omit [DecidableEq ι] in
theorem finish (h : Inv s) {q : QueueId} {task : GpuTask} {rest : List GpuTask}
    (hpc : s.processor = .resumed) (hqueue : s.submits q = task :: rest) :
    Inv { s with
      processor := .decrement
      submits := update s.submits q rest
      completed := update s.completed q (s.completed q ++ [task.id]) } :=
  { h with
    order := fun q' => by
      have := h.order q'
      simp only
      by_cases hq : q' = q
      · subst hq
        rw [hqueue] at this
        rw [update_self, update_self, ← this]
        simp
      · rw [update_of_ne hq, update_of_ne hq]
        exact this
    commands := by
      have := h.commands
      rw [hpc] at this
      exact this
    count := by
      have hsubmits := tally_update List.length s.submits q rest
      have hcount := h.count
      rw [hqueue] at hsubmits
      rw [hpc] at hcount
      simp only [List.length_cons, ProcessorPc.uncounted] at hsubmits hcount ⊢
      omega
    inTask := fun ht => by cases ht
    popping := fun back hp => by cases hp
    flushing := fun hf => by cases hf
    callerBlocked := fun j hj => .inl ((h.callerBlocked j hj).resolve_right (by simp [hpc]))
    acquiring := fun j hj => by
      have := h.acquiring j hj
      rw [hpc] at this
      exact this
    blocked := fun hb => by cases hb }

omit [DecidableEq ι] in
theorem decrement (h : Inv s) (hpc : s.processor = .decrement) (hnum : s.numSubmits ≠ 0) :
    Inv { s with processor := .notify, numSubmits := decU32 s.numSubmits } := by
  have hbound := h.bound
  rw [decU32_eq (by omega) hbound]
  exact { h with
    commands := by
      have := h.commands
      rw [hpc] at this
      exact this
    count := by
      have := h.count
      rw [hpc] at this
      simp only [ProcessorPc.uncounted] at this ⊢
      omega
    bound := by simp only; omega
    inTask := fun ht => by cases ht
    popping := fun back hp => by cases hp
    flushing := fun hf => by cases hf
    callerBlocked := fun j hj => .inr rfl
    acquiring := fun j hj => by
      have := h.acquiring j hj
      rw [hpc] at this
      exact this
    blocked := fun hb => by cases hb }

omit [DecidableEq ι] in
theorem notify (h : Inv s) (hpc : s.processor = .notify) :
    Inv { s with processor := .head, callers := fun i => (s.callers i).wake } :=
  { h with
    commands := by
      have := h.commands
      rw [hpc] at this
      exact this
    count := by
      have := h.count
      rw [hpc] at this
      simpa [tally, ProcessorPc.uncounted] using this
    inTask := fun ht => by cases ht
    popping := fun back hp => by cases hp
    flushing := fun hf => by cases hf
    callerBlocked := fun j hj => absurd hj (CallerPc.wake_ne_blocked _)
    acquiring := fun j hj => by
      have := h.acquiring j (CallerPc.wake_eq_acquiring.1 hj)
      rw [hpc] at this
      exact this
    blocked := fun hb => by cases hb }

omit [DecidableEq ι] in
theorem startFlush (h : Inv s) (hpc : s.processor = .afterLoop) :
    Inv { s with processor := .flushing, flushDue := false } :=
  { h with
    commands := by
      have := h.commands
      rw [hpc] at this
      exact this
    count := by
      have := h.count
      rw [hpc] at this
      exact this
    inTask := fun ht => by cases ht
    popping := fun back hp => by cases hp
    flush := fun hf => by cases hf
    flushing := fun _ => rfl
    callerBlocked := fun j hj => .inl ((h.callerBlocked j hj).resolve_right (by simp [hpc]))
    acquiring := fun j hj => by
      have := h.acquiring j hj
      rw [hpc] at this
      exact this
    blocked := fun hb => by cases hb }

omit [DecidableEq ι] in
theorem endFlush (h : Inv s) (hpc : s.processor = .flushing) :
    Inv { s with processor := .waiting, submitDone := false } :=
  { h with
    commands := by
      have := h.commands
      rw [hpc] at this
      exact this
    count := by
      have := h.count
      rw [hpc] at this
      exact this
    inTask := fun ht => by cases ht
    popping := fun back hp => by cases hp
    flush := fun hf => by
      have := h.flushing hpc
      simp only at hf
      rw [this] at hf
      cases hf
    flushing := fun hf => by cases hf
    callerBlocked := fun j hj => .inl ((h.callerBlocked j hj).resolve_right (by simp [hpc]))
    acquiring := fun j hj => by
      have := h.acquiring j hj
      rw [hpc] at this
      exact this
    blocked := fun hb => by cases hb }

theorem stepProcessor (h : Inv s) (hok : s.Careful .processor)
    (hs : s.stepProcessor = some s') : Inv s' := by
  unfold Liverpool.stepProcessor at hs
  split at hs
  case h_1 hpc =>
      split at hs
      case isTrue =>
          obtain rfl := Option.some.inj hs
          exact { h.setProcessor (by rw [hpc]; rfl) rfl (by rw [hpc]; rfl) rfl
            (by simp [ProcessorPc.inTask]) (by simp) (by simp) (by simp [hpc]) (by simp) with
            inTask := fun ht => by cases ht }
      case isFalse hidle =>
          obtain rfl := Option.some.inj hs
          refine h.setProcessor (by rw [hpc]; rfl) rfl (by rw [hpc]; rfl) rfl
            (by simp [ProcessorPc.inTask]) (by simp) (by simp) (by simp [hpc]) fun _ => ?_
          simp only [not_or, not_not, Bool.not_eq_true] at hidle
          exact ⟨hidle.2.1, hidle.1, hidle.2.2⟩
  case h_2 woken hpc =>
      split at hs
      case isFalse => cases hs
      case isTrue =>
          obtain rfl := Option.some.inj hs
          exact h.setProcessor (by rw [hpc]; rfl) rfl (by rw [hpc]; rfl) rfl
            (by simp [ProcessorPc.inTask]) (by simp) (by simp) (by simp [hpc]) (by simp)
  case h_3 hpc =>
      obtain rfl := Option.some.inj hs
      exact h.setProcessor (by rw [hpc]; rfl) (by split <;> rfl) (by rw [hpc]; rfl)
        (by split <;> rfl) (by split <;> simp [ProcessorPc.inTask]) (by split <;> simp)
        (by split <;> simp) (by simp [hpc]) (by split <;> simp)
  case h_4 hpc =>
      obtain rfl := Option.some.inj hs
      exact h.setProcessor (by rw [hpc]; rfl) (by split <;> rfl) (by rw [hpc]; rfl)
        (by split <;> rfl) (by split <;> simp [ProcessorPc.inTask]) (by split <;> simp)
        (by split <;> simp) (by simp [hpc]) (by split <;> simp)
  case h_5 back hpc =>
      obtain rfl := Option.some.inj hs
      have htask : (ProcessorPc.commands back : ProcessorPc ι).inTask = true → s.currQueue ≠ [] :=
        fun ht => h.inTask (by rw [hpc]; exact ht)
      by_cases hnum : s.numCommands ≠ 0
      · rw [if_pos hnum]
        refine h.setProcessor (by rw [hpc]; rfl) rfl (by rw [hpc]; rfl) rfl
          (fun ht => htask (by cases back <;> first | rfl | cases ht)) (fun _ _ => ?_) (by simp)
          (by simp [hpc]) (by simp)
        rintro hnil
        rw [h.numCommands, hnil] at hnum
        exact hnum rfl
      · rw [if_neg hnum]
        exact h.setProcessor (by rw [hpc]; rfl) (by simp) (by rw [hpc]; rfl) (by simp)
          (fun ht => htask (by rwa [Back.inTask_pc] at ht)) (by cases back <;> simp [Back.pc])
          (by cases back <;> simp [Back.pc]) (by simp [hpc]) (by cases back <;> simp [Back.pc])
  case h_6 back hpc =>
      split at hs
      case h_1 => cases hs
      case h_2 c rest hqueue =>
          obtain rfl := Option.some.inj hs
          exact h.popCommand hpc hqueue
  case h_7 c back hpc =>
      obtain rfl := Option.some.inj hs
      exact h.callback hpc
  case h_8 hpc =>
      obtain rfl := Option.some.inj hs
      exact { h.setProcessor (by rw [hpc]; rfl)
        (show (ProcessorPc.front : ProcessorPc ι).inHand = [] from rfl) (by rw [hpc]; rfl) rfl
        (by simp [ProcessorPc.inTask]) (by simp) (by simp) (by simp [hpc]) (by simp) with
        inTask := fun ht => by cases ht }
  case h_9 hpc =>
      obtain rfl := Option.some.inj hs
      refine h.setProcessor (by rw [hpc]; rfl) (by split <;> rfl) (by rw [hpc]; rfl)
        (by split <;> rfl) ?_ (by split <;> simp) (by split <;> simp) (by simp [hpc])
        (by split <;> simp)
      split
      case isTrue => simp [ProcessorPc.inTask]
      case isFalse hne => exact fun _ => hne
  case h_10 hpc =>
      split at hs
      case h_2 => cases hs
      case h_1 q task rest hq hqueue =>
          have hsubmits : s.submits q = task :: rest := by
            unfold currQueue at hqueue
            rw [hq] at hqueue
            exact hqueue
          split at hs
          case h_1 =>
              obtain rfl := Option.some.inj hs
              exact h.finish hpc hsubmits
          case h_2 ops _ =>
              obtain rfl := Option.some.inj hs
              exact h.advance hpc hsubmits (.inl rfl)
          case h_3 ops _ =>
              obtain rfl := Option.some.inj hs
              exact h.advance hpc hsubmits (.inr rfl)
  case h_11 hpc =>
      obtain rfl := Option.some.inj hs
      exact h.decrement hpc (hok hpc)
  case h_12 hpc =>
      obtain rfl := Option.some.inj hs
      exact h.notify hpc
  case h_13 hpc =>
      split at hs
      case isTrue =>
          obtain rfl := Option.some.inj hs
          exact h.startFlush hpc
      case isFalse =>
          obtain rfl := Option.some.inj hs
          exact h.setProcessor (by rw [hpc]; rfl) rfl (by rw [hpc]; rfl) rfl
            (by simp [ProcessorPc.inTask]) (by simp) (by simp) (by simp [hpc]) (by simp)
  case h_14 hpc =>
      obtain rfl := Option.some.inj hs
      exact h.endFlush hpc

/-- A careful step of a caller or of the processor keeps the invariant. -/
theorem step (h : Inv s) {a : GpuAction ι} (hok : s.Careful a)
    (hs : Liverpool.step s a = some s') : Inv s' := by
  cases a <;> simp only [Liverpool.step] at hs
  case submit i q task =>
      split at hs
      case isFalse => cases hs
      case isTrue hpc =>
          obtain rfl := Option.some.inj hs
          exact h.setCaller (by rw [hpc]; rfl) (by simp) (by simp)
  case sendCommand i id wait target =>
      split at hs
      case isFalse => cases hs
      case isTrue hpc => exact h.sendCommand hpc hok hs
  case submitDone i target =>
      split at hs
      case isFalse => cases hs
      case isTrue => exact h.submitDone hok hs
  case waitGpuIdle i =>
      split at hs
      case isFalse => cases hs
      case isTrue hpc =>
          obtain rfl := Option.some.inj hs
          exact h.setCaller (by rw [hpc]; rfl) (by simp) (by simp)
  case caller i target => exact h.stepCaller hok hs
  case processor => exact h.stepProcessor hok hs
  case spuriousProcessor =>
      split at hs
      case h_2 => cases hs
      case h_1 woken hpc =>
          obtain rfl := Option.some.inj hs
          exact h.setProcessor (by rw [hpc]; rfl) rfl (by rw [hpc]; rfl) rfl
            (by simp [ProcessorPc.inTask]) (by simp) (by simp) (by simp [hpc]) (by simp)
  case spuriousCaller i =>
      split at hs
      case h_2 => cases hs
      case h_1 woken hpc =>
          obtain rfl := Option.some.inj hs
          exact h.setCaller (by rw [hpc]; rfl) (by simp) (by simp)

end Inv

/-- By induction on the run. -/
theorem inv_of_reachable (h : Transition.Reachable step Careful (init : Liverpool ι) s) :
    Inv s :=
  h.invariant inv_init fun _ _ _ hinv hok hs => hinv.step hok hs

/-- The submissions that are not finished and counted down. -/
def unfinished (s : Liverpool ι) : ℕ := tally List.length s.submits + s.processor.uncounted

/-- Neither the processor nor a thread in a call can make a step. -/
def Stuck (s : Liverpool ι) : Prop :=
  s.stepProcessor = none ∧ ∀ i target, s.stepCaller i target = none

omit [DecidableEq ι] in
theorem exists_canNotify (s : Liverpool ι) : ∃ target, s.CanNotify target := by
  by_cases hprocessor : s.processor = .blocked false
  · exact ⟨some none, hprocessor⟩
  · by_cases hcallers : ∃ i, s.callers i = .blocked false
    · obtain ⟨i, hi⟩ := hcallers
      exact ⟨some (some i), hi⟩
    · exact ⟨none, hprocessor, fun i hi => hcallers ⟨i, hi⟩⟩

theorem blocked_of_stepProcessor (h : Inv s)
    (hs : s.stepProcessor = none) : s.processor = .blocked false := by
  unfold stepProcessor at hs
  split at hs
  case h_1 => split at hs <;> cases hs
  case h_2 woken hpc =>
      cases woken
      case false => exact hpc
      case true => cases hs
  case h_6 back hpc =>
      split at hs
      case h_1 hqueue => exact absurd hqueue (h.popping back hpc)
      case h_2 => cases hs
  case h_10 hpc =>
      have htask := h.inTask (by rw [hpc]; rfl)
      split at hs
      case h_1 => split at hs <;> cases hs
      case h_2 hno =>
          exfalso
          unfold currQueue at htask hno
          cases hq : s.currQid
          case none => exact htask (by rw [hq])
          case some q =>
              rw [hq] at htask
              obtain ⟨task, rest, hqueue⟩ := List.exists_cons_of_ne_nil htask
              exact hno q task rest hq (by rw [hq]; exact hqueue)
  case h_13 => split at hs <;> cases hs
  all_goals cases hs

theorem idle_of_stepCaller (h : Inv s) (hb : s.processor = .blocked false)
    (hs : ∀ target, s.stepCaller i target = none) : s.callers i = .idle := by
  obtain ⟨hsubmits, hcommands, -⟩ := h.blocked hb
  unfold stepCaller at hs
  cases hpc : s.callers i <;> simp only [hpc] at hs
  case idle => rfl
  case pushing q task =>
      have := hs none
      simp [accessHeld, hb] at this
  case counting q =>
      obtain ⟨target, htarget⟩ := exists_canNotify { s.setCaller i .idle with
        numMappedQueues := max s.numMappedQueues (q.val + 1)
        numSubmits := incU32 s.numSubmits }
      have := hs target
      unfold notifyOne at this
      rw [if_pos htarget] at this
      cases this
  case acquiring =>
      have hsem := hs none
      have hqueue : s.commandQueue = [] := by
        have := h.numCommands
        rw [hcommands] at this
        exact List.eq_nil_of_length_eq_zero this.symm
      rcases h.acquiring i hpc with ht | ⟨c, hc, -⟩
      · rw [if_pos ht] at hsem
        cases hsem
      · rw [hb, hqueue] at hc
        cases hc
  case waitIdle => cases hs none
  case blocked woken =>
      cases woken
      case false => exact absurd hpc (h.quiet hb i)
      case true => cases hs none

/-- Tasks end and commands run in the order they came in, each once; a flush is still to come
after every `SubmitDone` that none followed; no more is counted than is unfinished; and when
nobody can move, all work is done, every `SubmitDone` was followed by a flush, and no thread
is left in a call. -/
theorem processor_loses_nothing
    (h : Transition.Reachable step Careful (init : Liverpool ι) s) :
    (∀ q, s.completed q ++ (s.submits q).map GpuTask.id = s.submitted q) ∧
    s.executed ++ (s.processor.inHand ++ s.commandQueue) = s.sent ∧
    (s.flushDue = true → s.submitDone = true) ∧
    s.numSubmits ≤ s.unfinished ∧
    (s.Stuck → (∀ q, s.submits q = [] ∧ s.completed q = s.submitted q) ∧
      s.executed = s.sent ∧ s.flushDue = false ∧ ∀ i, s.callers i = .idle) := by
  have hinv := inv_of_reachable h
  have hcount := hinv.count
  refine ⟨hinv.order, hinv.commands, hinv.flush, ?_, fun hstuck => ?_⟩
  · unfold unfinished
    omega
  · have hb := blocked_of_stepProcessor hinv hstuck.1
    have hidle : ∀ i, s.callers i = .idle := fun i =>
      idle_of_stepCaller hinv hb (hstuck.2 i)
    obtain ⟨hsubmits, hcommands, hdone⟩ := hinv.blocked hb
    have hqueue : s.commandQueue = [] := by
      have := hinv.numCommands
      rw [hcommands] at this
      exact List.eq_nil_of_length_eq_zero this.symm
    have hcallers : tally CallerPc.uncounted s.callers = 0 :=
      tally_eq_zero.2 fun i => by rw [hidle i]; rfl
    have hempty : ∀ q, s.submits q = [] := fun q => by
      have htally : tally List.length s.submits = 0 := by omega
      exact List.eq_nil_of_length_eq_zero (tally_eq_zero.1 htally q)
    refine ⟨fun q => ⟨hempty q, ?_⟩, ?_, ?_, hidle⟩
    · have := hinv.order q
      rw [hempty q] at this
      simpa using this
    · have := hinv.commands
      rw [hb, hqueue] at this
      simpa [ProcessorPc.inHand] using this
    · by_contra hdue
      have := hinv.flush (by simpa using hdue)
      rw [hdone] at this
      cases this

theorem processor_loses_nothing_sample : ∃ s : Liverpool (Fin 2), s.submitted 3 = [7] ∧
    s.Stuck ∧ s.completed 3 = [7] ∧ s.executed = s.sent ∧ s.callers 1 = .idle := by
  have hrun : (Transition.runChecked step Careful (init : Liverpool (Fin 2))
      ([.processor, .submit 0 3 ⟨7, [.packet, .yield]⟩, .caller 0 none,
        .sendCommand 1 5 true (some none), .caller 0 none] ++
        List.replicate 47 .processor ++ [.caller 1 none])).map
        (fun s => (s.submitted 3, s.processor, s.callers 0, s.callers 1)) =
      some ([7], .blocked false, .idle, .idle) := by decide
  obtain ⟨s, hs, hfacts⟩ := Option.map_eq_some_iff.1 hrun
  simp only [Prod.mk.injEq] at hfacts
  obtain ⟨hsubmitted, hb, h0, h1⟩ := hfacts
  have hstuck : s.Stuck := by
    refine ⟨by unfold stepProcessor; rw [hb]; rfl, fun i target => ?_⟩
    unfold stepCaller
    rw [show s.callers i = .idle by match i with | 0 => exact h0 | 1 => exact h1]
  have hall := (processor_loses_nothing (Transition.reachable_of_runChecked hs)).2.2.2.2 hstuck
  exact ⟨s, hsubmitted, hstuck, (hall.1 3).2.trans hsubmitted, hall.2.1, hall.2.2.2 1⟩

/-- A task that is not counted ends, and `num_submits` is counted down from zero. `SubmitDone` is
called during a flush, and its flag is cleared at the end of it. -/
theorem processor_loses_flush :
    (∃ s : Liverpool (Fin 2), Transition.Reachable step (fun _ _ => True) init s ∧
      s.unfinished < s.numSubmits) ∧
    ∃ s : Liverpool (Fin 1), Transition.Reachable step (fun _ _ => True) init s ∧
      s.Stuck ∧ s.flushDue = true := by
  constructor
  · have hrun : (Transition.runChecked step (fun _ _ => True) (init : Liverpool (Fin 2))
        ([.submit 0 0 ⟨7, []⟩, .caller 0 none, .sendCommand 1 5 false none] ++
          List.replicate 11 .processor)).map (fun s => decide (s.unfinished < s.numSubmits)) =
        some true := by decide
    obtain ⟨s, hs, hfacts⟩ := Option.map_eq_some_iff.1 hrun
    exact ⟨s, Transition.reachable_of_runChecked hs, by simpa using hfacts⟩
  · have hrun : (Transition.runChecked step (fun _ _ => True) (init : Liverpool (Fin 1))
        ([.submitDone 0 none, .processor, .processor, .processor, .processor,
          .submitDone 0 none, .processor, .processor])).map
          (fun s => (s.processor, s.callers 0, s.flushDue)) =
        some (.blocked false, .idle, true) := by decide
    obtain ⟨s, hs, hfacts⟩ := Option.map_eq_some_iff.1 hrun
    simp only [Prod.mk.injEq] at hfacts
    obtain ⟨hb, h0, hdue⟩ := hfacts
    refine ⟨s, Transition.reachable_of_runChecked hs,
      ⟨by unfold stepProcessor; rw [hb]; rfl, fun i target => ?_⟩, hdue⟩
    unfold stepCaller
    rw [show s.callers i = .idle by match i with | 0 => exact h0]

end Liverpool

end OrbitConsole.VideoCore
