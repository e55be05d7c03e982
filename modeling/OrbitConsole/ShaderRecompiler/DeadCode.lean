import OrbitConsole.ShaderRecompiler.Program

/-!
# Removing dead instructions

Every run of a program is, up to the steps of removed instructions, a run of the
program without them, and the other way round: the same is seen from outside, and
the instructions that are left have the same results.
-/

namespace OrbitConsole.ShaderRecompiler

open Function (update_of_ne update_self)

variable {V World Vars Event : Type} {p p' : Program V} {removed : ℕ → Bool} {b id : ℕ}
  {i : Inst V}

/-! ### What the pass removes -/

/-- A program without some instructions, which have no side effects and which no other
instruction uses. -/
structure Pruned (p p' : Program V) (removed : ℕ → Bool) : Prop where
  entry : p'.entry = p.entry
  numBlocks : p'.numBlocks = p.numBlocks
  terminator : p'.terminator = p.terminator
  insts : ∀ b, p'.insts b = (p.insts b).filter fun i => !removed i.id
  closed : ∀ b, ∀ i ∈ p'.insts b, ∀ id, i.uses id = true → removed id = false
  pure : ∀ b, ∀ i ∈ p.insts b, removed i.id = true → i.op.mayHaveSideEffects = false

theorem Pruned.refl (p : Program V) : Pruned p p fun _ => false where
  entry := rfl
  numBlocks := rfl
  terminator := rfl
  insts _ := (List.filter_eq_self.2 fun _ _ => rfl).symm
  closed _ _ _ _ _ := rfl
  pure _ _ _ h := absurd h Bool.false_ne_true

theorem Pruned.mem (h : Pruned p p' removed) :
    i ∈ p'.insts b ↔ i ∈ p.insts b ∧ removed i.id = false := by
  rw [h.insts, List.mem_filter, Bool.not_eq_true']

theorem Pruned.not_uses (hwf : p.WellFormed) (h : Pruned p p' removed)
    (huses : p'.hasUses id = false) {j : Inst V} (hj : j ∈ p'.insts b) : j.uses id = false := by
  by_cases hb : b < p'.numBlocks
  · have hall := List.any_eq_false.1 huses b (List.mem_range.2 hb)
    rw [Bool.not_eq_true] at hall
    exact Bool.not_eq_true _ ▸ List.any_eq_false.1 hall j hj
  · have hempty := hwf.empty b (h.numBlocks ▸ Nat.not_lt.1 hb)
    have hmem := (h.mem.1 hj).1
    rw [hempty] at hmem
    exact absurd hmem List.not_mem_nil

theorem Pruned.erase (hwf : p.WellFormed) (h : Pruned p p' removed) (hi : i ∈ p.insts b)
    (huses : p'.hasUses i.id = false) (hpure : i.op.mayHaveSideEffects = false) :
    Pruned p (p'.erase b i.id) fun id => removed id || decide (id = i.id) := by
  have hinsts : ∀ b', (p'.erase b i.id).insts b' =
      (p.insts b').filter fun j => !(removed j.id || decide (j.id = i.id)) := by
    intro b'
    unfold Program.erase
    by_cases hb : b' = b
    · subst hb
      simp only [update_self]
      rw [h.insts, List.filter_filter]
      congr 1
      funext j
      simp only [ne_eq, decide_not, Bool.not_or, Bool.and_comm]
    · simp only [update_of_ne hb]
      rw [h.insts]
      apply List.filter_congr
      intro j hj
      have hne : ¬ j.id = i.id := fun heq => hb (hwf.unique b' b j i hj hi heq).1
      rw [decide_eq_false hne, Bool.or_false]
  refine ⟨h.entry, h.numBlocks, h.terminator, hinsts, ?_, ?_⟩
  · intro b' j hj id hid
    rw [hinsts, List.mem_filter, Bool.not_eq_true', Bool.or_eq_false_iff] at hj
    have hj' : j ∈ p'.insts b' := h.mem.2 ⟨hj.1, hj.2.1⟩
    rw [h.closed b' j hj' id hid, Bool.false_or, decide_eq_false_iff_not]
    rintro rfl
    rw [h.not_uses hwf huses hj'] at hid
    cases hid
  · intro b' j hj hremoved
    rcases Bool.or_eq_true_iff.1 hremoved with hold | hnew
    · exact h.pure b' j hj hold
    · rw [(hwf.unique b' b j i hj hi (of_decide_eq_true hnew)).2]
      exact hpure

theorem Pruned.removeIfDead (hwf : p.WellFormed) (h : Pruned p p' removed)
    (hi : i ∈ p.insts b) : ∃ removed', Pruned p (p'.removeIfDead b i) removed' := by
  unfold Program.removeIfDead
  split
  · next hdead => exact ⟨_, h.erase hwf hi hdead.1 hdead.2⟩
  · exact ⟨removed, h⟩

theorem Pruned.removeAll (hwf : p.WellFormed) {insts : List (Inst V)}
    (h : Pruned p p' removed) (hinsts : ∀ i ∈ insts, i ∈ p.insts b) :
    ∃ removed', Pruned p (insts.foldl (Program.removeIfDead b) p') removed' := by
  induction insts generalizing p' removed with
  | nil => exact ⟨removed, h⟩
  | cons i insts ih =>
      obtain ⟨removed₁, h₁⟩ := h.removeIfDead hwf (hinsts i List.mem_cons_self)
      exact ih h₁ fun j hj => hinsts j (List.mem_cons_of_mem i hj)

theorem Pruned.sweepAll (hwf : p.WellFormed) {blocks : List ℕ} (h : Pruned p p' removed) :
    ∃ removed', Pruned p (blocks.foldl Program.sweepBlock p') removed' := by
  induction blocks generalizing p' removed with
  | nil => exact ⟨removed, h⟩
  | cons b blocks ih =>
      obtain ⟨removed₁, h₁⟩ := h.removeAll hwf
        (show ∀ i ∈ (p'.insts b).reverse, i ∈ p.insts b from
          fun i hi => (h.mem.1 (List.mem_reverse.1 hi)).1)
      exact ih h₁

theorem pruned_deadCodeElimination (hwf : p.WellFormed) :
    ∃ removed, Pruned p p.deadCodeElimination removed :=
  (Pruned.refl p).sweepAll hwf

/-! ### Runs with and without the removed instructions -/

/-- The results of the instructions that are left. -/
def SameResults (removed : ℕ → Bool) (results results' : ℕ → V) : Prop :=
  ∀ id, removed id = false → results id = results' id

structure SameInvocation (p : Program V) (removed : ℕ → Bool) (t t' : Invocation V Vars) :
    Prop where
  block : t.block = t'.block
  previous : t.previous = t'.previous
  rest : t'.rest = t.rest.filter fun i => !removed i.id
  mem : ∀ i ∈ t.rest, ∃ b, i ∈ p.insts b
  results : SameResults removed t.results t'.results
  entered : SameResults removed t.entered t'.entered

structure SameRun (p : Program V) (removed : ℕ → Bool) (s s' : Run V World Vars) : Prop where
  invocation : ∀ n, SameInvocation p removed (s.invocations n) (s'.invocations n)
  world : s.world = s'.world

variable (sem : Semantics V World Vars Event) {s s' : Run V World Vars} {n : ℕ}
  {rest : List (Inst V)}

theorem eval_eq {value : Value V} {results results' : ℕ → V}
    (h : SameResults removed results results')
    (hclosed : ∀ id, value.uses id = true → removed id = false) :
    value.eval results = value.eval results' := by
  cases value with
  | imm v => rfl
  | inst id => exact h id (hclosed id (decide_eq_true rfl))

theorem args_eq {results results' : ℕ → V} (h : SameResults removed results results')
    (hclosed : ∀ id, i.uses id = true → removed id = false) :
    i.args.map (·.eval results) = i.args.map (·.eval results') := by
  apply List.map_congr_left
  intro value hvalue
  apply eval_eq h
  intro id hid
  apply hclosed
  unfold Inst.uses
  rw [Bool.or_eq_true]
  exact .inl (List.any_eq_true.2 ⟨value, hvalue, hid⟩)

theorem result_eq (hs : SameRun p removed s s')
    (hclosed : ∀ id, i.uses id = true → removed id = false)
    (hvars : i.op.readsVariable = false) : sem.result i n s = sem.result i n s' := by
  have hthread := hs.invocation n
  unfold Semantics.result
  simp only [hvars, Bool.false_eq_true, if_false]
  rw [hthread.previous, hs.world]
  have hargs : (fun k => i.args.map (·.eval (s.invocations k).results)) =
      fun k => i.args.map (·.eval (s'.invocations k).results) := by
    funext k
    exact args_eq (hs.invocation k).results hclosed
  rw [hargs]
  split
  · cases hfind : i.phiArgs.find? fun x => decide (x.1 = (s'.invocations n).previous) with
    | none => rfl
    | some operand =>
        apply eval_eq hthread.entered
        intro id hid
        apply hclosed
        unfold Inst.uses
        rw [Bool.or_eq_true]
        exact .inr (List.any_eq_true.2 ⟨operand, List.mem_of_find?_eq_some hfind, hid⟩)
  · rfl

theorem outcome_eq (hs : SameRun p removed s s')
    (hclosed : ∀ id, i.uses id = true → removed id = false) :
    sem.outcome i n s = sem.outcome i n s' := by
  have hargs : (fun k => i.args.map (·.eval (s.invocations k).results)) =
      fun k => i.args.map (·.eval (s'.invocations k).results) := by
    funext k
    exact args_eq (hs.invocation k).results hclosed
  unfold Semantics.outcome
  rw [hs.world, hargs]

/-! ### One step -/

theorem step_cons (h : (s.invocations n).rest = i :: rest) :
    sem.step p n s = sem.exec i rest n s := by
  unfold Semantics.step
  rw [h]

theorem outcome_removed (h : Pruned p p' removed) (hi : i ∈ p.insts b)
    (hremoved : removed i.id = true) : sem.outcome i n s = (s.world, []) := by
  unfold Semantics.outcome
  apply if_pos
  by_contra heffect
  have hmay := Opcode.mayHaveSideEffects_of_externalEffect heffect
  rw [h.pure b i hi hremoved] at hmay
  cases hmay

theorem step_removed (h : Pruned p p' removed) (hs : SameRun p removed s s')
    (hrest : (s.invocations n).rest = i :: rest) (hremoved : removed i.id = true) :
    (sem.step p n s).2 = [] ∧ SameRun p removed (sem.step p n s).1 s' ∧
      ((sem.step p n s).1.invocations n).rest = rest := by
  obtain ⟨b, hi⟩ := (hs.invocation n).mem i (hrest ▸ List.mem_cons_self)
  rw [step_cons sem hrest]
  unfold Semantics.exec
  simp only [outcome_removed sem h hi hremoved, update_self]
  refine ⟨trivial, ⟨fun k => ?_, hs.world⟩, trivial⟩
  by_cases hk : k = n
  · subst hk
    simp only [update_self]
    have hthread := hs.invocation k
    refine ⟨hthread.block, hthread.previous, ?_, ?_, ?_, hthread.entered⟩
    · rw [hthread.rest, hrest, List.filter_cons, hremoved]
      rfl
    · exact fun j hj => hthread.mem j (hrest ▸ List.mem_cons_of_mem i hj)
    · intro id hid
      have hne : id ≠ i.id := by
        rintro rfl
        rw [hremoved] at hid
        cases hid
      exact (update_of_ne hne _ _).trans (hthread.results id hid)
  · simp only [update_of_ne hk]
    exact hs.invocation k

theorem step_kept (h : Pruned p p' removed) (hvars : p.ReadsNoVariable)
    (hs : SameRun p removed s s') (hrest : (s.invocations n).rest = i :: rest)
    (hkept : removed i.id = false) :
    (sem.step p' n s').2 = (sem.step p n s).2 ∧
      SameRun p removed (sem.step p n s).1 (sem.step p' n s').1 := by
  obtain ⟨b, hi⟩ := (hs.invocation n).mem i (hrest ▸ List.mem_cons_self)
  have hclosed := h.closed b i (h.mem.2 ⟨hi, hkept⟩)
  have hrest' : (s'.invocations n).rest = i :: rest.filter fun i => !removed i.id := by
    rw [(hs.invocation n).rest, hrest, List.filter_cons, hkept]
    rfl
  have hresult := result_eq sem (n := n) hs hclosed (hvars b i hi)
  have houtcome := outcome_eq sem (n := n) hs hclosed
  have hworld : (sem.outcome i n s).1 = (sem.outcome i n s').1 := congrArg Prod.fst houtcome
  have htrace : (sem.outcome i n s').2 = (sem.outcome i n s).2 := congrArg Prod.snd houtcome.symm
  rw [step_cons sem hrest, step_cons sem hrest']
  unfold Semantics.exec
  refine ⟨htrace, ⟨fun k => ?_, hworld⟩⟩
  by_cases hk : k = n
  · subst hk
    simp only [update_self]
    have hthread := hs.invocation k
    refine ⟨hthread.block, hthread.previous, rfl, ?_, ?_, hthread.entered⟩
    · exact fun j hj => hthread.mem j (hrest ▸ List.mem_cons_of_mem i hj)
    · intro id hid
      simp only
      by_cases hne : id = i.id
      · subst hne
        rw [update_self, update_self, hresult]
      · rw [update_of_ne hne, update_of_ne hne]
        exact hthread.results id hid
  · simp only [update_of_ne hk]
    exact hs.invocation k

theorem enter_same (h : Pruned p p' removed) (hs : SameRun p removed s s') (block : ℕ) :
    SameRun p removed (Semantics.enter p block n s) (Semantics.enter p' block n s') := by
  unfold Semantics.enter
  refine ⟨fun k => ?_, hs.world⟩
  by_cases hk : k = n
  · subst hk
    simp only [update_self]
    have hthread := hs.invocation k
    exact ⟨rfl, hthread.block, h.insts block, fun i hi => ⟨block, hi⟩, hthread.results,
      hthread.results⟩
  · simp only [update_of_ne hk]
    exact hs.invocation k

theorem step_end (hwf : p.WellFormed) (h : Pruned p p' removed) (hs : SameRun p removed s s')
    (hrest : (s.invocations n).rest = []) :
    (sem.step p' n s').2 = (sem.step p n s).2 ∧
      SameRun p removed (sem.step p n s).1 (sem.step p' n s').1 := by
  have hthread := hs.invocation n
  have hrest' : (s'.invocations n).rest = [] := by
    rw [hthread.rest, hrest]
    rfl
  unfold Semantics.step
  rw [hrest, hrest', h.terminator, ← hthread.block]
  cases hterm : p.terminator (s.invocations n).block with
  | exit => exact ⟨rfl, hs⟩
  | jump target => exact ⟨rfl, enter_same h hs target⟩
  | branch cond target₁ target₂ =>
      have hcond : cond.eval (s.invocations n).results =
          cond.eval (s'.invocations n).results := by
        apply eval_eq hthread.results
        intro id hid
        cases cond with
        | imm v => cases hid
        | inst id' =>
            obtain rfl : id' = id := of_decide_eq_true hid
            obtain ⟨b, i, hi, rfl, hop⟩ := hwf.cond _ _ _ _ hterm
            by_contra hremoved
            have hpure := h.pure b i hi (Bool.not_eq_false _ ▸ hremoved)
            rw [hop] at hpure
            cases hpure
      simp only
      rw [hcond]
      exact ⟨trivial, enter_same h hs _⟩

/-! ### Whole runs -/

theorem run_cons (n : ℕ) (schedule : List ℕ) (s : Run V World Vars) :
    sem.run p (n :: schedule) s =
      ((sem.run p schedule (sem.step p n s).1).1,
        (sem.step p n s).2 ++ (sem.run p schedule (sem.step p n s).1).2) := rfl

theorem run_append (schedule schedule' : List ℕ) (s : Run V World Vars) :
    sem.run p (schedule ++ schedule') s =
      ((sem.run p schedule' (sem.run p schedule s).1).1,
        (sem.run p schedule s).2 ++ (sem.run p schedule' (sem.run p schedule s).1).2) := by
  induction schedule generalizing s with
  | nil => rfl
  | cons n schedule ih =>
      rw [List.cons_append, run_cons sem, run_cons sem, ih, List.append_assoc]

theorem run_pruned (hwf : p.WellFormed) (h : Pruned p p' removed) (hvars : p.ReadsNoVariable)
    (hs : SameRun p removed s s') (schedule : List ℕ) :
    ∃ schedule', (sem.run p' schedule' s').2 = (sem.run p schedule s).2 ∧
      SameRun p removed (sem.run p schedule s).1 (sem.run p' schedule' s').1 := by
  induction schedule generalizing s s' with
  | nil => exact ⟨[], rfl, hs⟩
  | cons n schedule ih =>
      cases hrest : (s.invocations n).rest with
      | nil =>
          obtain ⟨htrace, hnext⟩ := step_end sem hwf h hs hrest
          obtain ⟨schedule', htrace', hs'⟩ := ih hnext
          refine ⟨n :: schedule', ?_, hs'⟩
          rw [run_cons sem, run_cons sem, htrace, htrace']
      | cons i rest =>
          cases hremoved : removed i.id with
          | true =>
              obtain ⟨htrace, hnext, -⟩ := step_removed sem h hs hrest hremoved
              obtain ⟨schedule', htrace', hs'⟩ := ih hnext
              refine ⟨schedule', ?_, hs'⟩
              rw [htrace', run_cons sem, htrace, List.nil_append]
          | false =>
              obtain ⟨htrace, hnext⟩ := step_kept sem h hvars hs hrest hremoved
              obtain ⟨schedule', htrace', hs'⟩ := ih hnext
              refine ⟨n :: schedule', ?_, hs'⟩
              rw [run_cons sem, run_cons sem, htrace, htrace']

theorem run_removed (h : Pruned p p' removed) (hs : SameRun p removed s s') (n : ℕ) :
    ∃ schedule, (sem.run p schedule s).2 = [] ∧ SameRun p removed (sem.run p schedule s).1 s' ∧
      ∀ i rest, ((sem.run p schedule s).1.invocations n).rest = i :: rest →
        removed i.id = false := by
  cases hrest : (s.invocations n).rest with
  | nil =>
      refine ⟨[], rfl, hs, fun i rest hcons => ?_⟩
      rw [show (sem.run p [] s).1 = s from rfl, hrest] at hcons
      cases hcons
  | cons j rest =>
      induction rest generalizing s j with
      | nil =>
          cases hremoved : removed j.id with
          | false =>
              refine ⟨[], rfl, hs, fun i rest hcons => ?_⟩
              rw [show (sem.run p [] s).1 = s from rfl, hrest] at hcons
              cases hcons
              exact hremoved
          | true =>
              obtain ⟨htrace, hnext, hnil⟩ := step_removed sem h hs hrest hremoved
              refine ⟨[n], ?_, hnext, fun i rest hcons => ?_⟩
              · rw [run_cons sem, htrace]
                rfl
              · rw [show (sem.run p [n] s).1 = (sem.step p n s).1 from rfl, hnil] at hcons
                cases hcons
      | cons j' rest ih =>
          cases hremoved : removed j.id with
          | false =>
              refine ⟨[], rfl, hs, fun i rest hcons => ?_⟩
              rw [show (sem.run p [] s).1 = s from rfl, hrest] at hcons
              cases hcons
              exact hremoved
          | true =>
              obtain ⟨htrace, hnext, hrest'⟩ := step_removed sem h hs hrest hremoved
              obtain ⟨schedule, htrace', hs', hkept⟩ := ih hnext j' hrest'
              refine ⟨n :: schedule, ?_, hs', hkept⟩
              rw [run_cons sem, htrace, htrace']
              rfl

theorem run_unpruned (hwf : p.WellFormed) (h : Pruned p p' removed) (hvars : p.ReadsNoVariable)
    (hs : SameRun p removed s s') (schedule' : List ℕ) :
    ∃ schedule, (sem.run p' schedule' s').2 = (sem.run p schedule s).2 ∧
      SameRun p removed (sem.run p schedule s).1 (sem.run p' schedule' s').1 := by
  induction schedule' generalizing s s' with
  | nil => exact ⟨[], rfl, hs⟩
  | cons n schedule' ih =>
      obtain ⟨before, hbefore, hs₁, hkept⟩ := run_removed sem h hs n
      have hstep : (sem.step p' n s').2 = (sem.step p n (sem.run p before s).1).2 ∧
          SameRun p removed (sem.step p n (sem.run p before s).1).1 (sem.step p' n s').1 := by
        cases hrest : ((sem.run p before s).1.invocations n).rest with
        | nil => exact step_end sem hwf h hs₁ hrest
        | cons i rest => exact step_kept sem h hvars hs₁ hrest (hkept i rest hrest)
      obtain ⟨schedule, htrace, hs₂⟩ := ih hstep.2
      refine ⟨before ++ n :: schedule, ?_, ?_⟩
      · rw [run_append sem, hbefore, List.nil_append, run_cons sem, run_cons sem, hstep.1, htrace]
      · rw [run_append sem]
        exact hs₂

theorem sameRun_start (h : Pruned p p' removed) (results : ℕ → ℕ → V) (vars : ℕ → Vars)
    (world : World) :
    SameRun p removed (p.start results vars world) (p'.start results vars world) := by
  refine ⟨fun n => ?_, rfl⟩
  unfold Program.start
  rw [h.entry]
  exact ⟨rfl, rfl, h.insts _, fun i hi => ⟨_, hi⟩, fun _ _ => rfl, fun _ _ => rfl⟩

/-- The same is seen of two runs, they leave the same memory, and the instructions of a program
have the same results in both. -/
structure Agrees (p : Program V) (r r' : Run V World Vars × List (ℕ × Event)) : Prop where
  trace : r'.2 = r.2
  world : r.1.world = r'.1.world
  block : ∀ n, (r.1.invocations n).block = (r'.1.invocations n).block
  results : ∀ n b, ∀ i ∈ p.insts b,
    (r.1.invocations n).results i.id = (r'.1.invocations n).results i.id

theorem SameRun.agrees (h : Pruned p p' removed) {r r' : Run V World Vars × List (ℕ × Event)}
    (htrace : r'.2 = r.2) (hs : SameRun p removed r.1 r'.1) : Agrees p' r r' where
  trace := htrace
  world := hs.world
  block n := (hs.invocation n).block
  results n _ i hi := (hs.invocation n).results i.id (h.mem.1 hi).2

/-- Without variables, dead code elimination preserves every run of every number of invocations,
in every order of their steps; and no opcode with an external effect counts as free of side
effects. -/
theorem deadCodeElimination_preserves (sem : Semantics V World Vars Event) (p : Program V)
    (hwf : p.WellFormed) (hvars : p.ReadsNoVariable) (results : ℕ → ℕ → V) (vars : ℕ → Vars)
    (world : World) :
    (∀ op : Opcode, op.externalEffect ≠ none → op.mayHaveSideEffects = true) ∧
      (∀ schedule, ∃ schedule', Agrees p.deadCodeElimination
        (sem.run p schedule (p.start results vars world))
        (sem.run p.deadCodeElimination schedule'
          (p.deadCodeElimination.start results vars world))) ∧
      ∀ schedule', ∃ schedule, Agrees p.deadCodeElimination
        (sem.run p schedule (p.start results vars world))
        (sem.run p.deadCodeElimination schedule'
          (p.deadCodeElimination.start results vars world)) := by
  obtain ⟨removed, h⟩ := pruned_deadCodeElimination hwf
  have hstart := sameRun_start h results vars world
  refine ⟨fun _ => Opcode.mayHaveSideEffects_of_externalEffect, ?_, ?_⟩
  · intro schedule
    obtain ⟨schedule', htrace, hs⟩ := run_pruned sem hwf h hvars hstart schedule
    exact ⟨schedule', hs.agrees h htrace⟩
  · intro schedule'
    obtain ⟨schedule, htrace, hs⟩ := run_unpruned sem hwf h hvars hstart schedule'
    exact ⟨schedule, hs.agrees h htrace⟩

def numbers : Semantics ℕ Unit ℕ ℕ where
  undef := 0
  truth v := v ≠ 0
  value _ _ n args _ := (args n).foldl (· + ·) 0
  readVariable _ _ _ v := v
  writeVariable _ _ args _ := args.getD 1 0
  effect _ _ n args _ := ((), (args n).getD 0 0)

def oneBlock (insts : List (Inst ℕ)) : Program ℕ where
  entry := 0
  numBlocks := 1
  insts b := if b = 0 then insts else []
  terminator _ := .exit
  postOrderBlocks := [0]

def storeSum : Program ℕ :=
  oneBlock [{ id := 0, op := .iAdd32, args := [.imm 1, .imm 2] },
    { id := 1, op := .iAdd32, args := [.imm 3, .imm 4] },
    { id := 2, op := .storeBufferU32, args := [.inst 0] }]

theorem wellFormed_oneBlock {insts : List (Inst ℕ)}
    (h : ∀ i ∈ insts, ∀ i' ∈ insts, i.id = i'.id → i = i') : (oneBlock insts).WellFormed := by
  unfold oneBlock
  refine ⟨?_, fun b hb => if_neg (Nat.ne_of_gt hb), fun b id b₁ b₂ hterm => by cases hterm⟩
  intro b b' i i' hi hi' heq
  simp only at hi hi'
  split at hi
  · next hb =>
      split at hi'
      · next hb' => exact ⟨hb.trans hb'.symm, h i hi i' hi' heq⟩
      · exact absurd hi' List.not_mem_nil
  · exact absurd hi List.not_mem_nil

theorem deadCodeElimination_preserves_storeSum :
    ∃ schedule', Agrees storeSum.deadCodeElimination
      (numbers.run storeSum [0, 0, 0] (storeSum.start (fun _ _ => 0) (fun _ => 0) ()))
      (numbers.run storeSum.deadCodeElimination schedule'
        (storeSum.deadCodeElimination.start (fun _ _ => 0) (fun _ => 0) ())) := by
  refine (deadCodeElimination_preserves numbers storeSum (wellFormed_oneBlock ?_) ?_ _ _ _).2.1 _
  · simp
  · intro b i hi
    unfold storeSum oneBlock at hi
    simp only at hi
    split at hi
    · simp only [List.mem_cons, List.not_mem_nil, or_false] at hi
      rcases hi with rfl | rfl | rfl <;> rfl
    · exact absurd hi List.not_mem_nil

def storeVariable : Program ℕ :=
  oneBlock [{ id := 0, op := .setScalarRegister, args := [.imm 0, .imm 1] },
    { id := 1, op := .getScalarRegister, args := [.imm 0] },
    { id := 2, op := .storeBufferU32, args := [.inst 1] }]

/-- Setting the variable has no use, so it is removed, and another value is stored. -/
theorem deadCodeElimination_storeVariable :
    (numbers.run storeVariable [0, 0, 0]
        (storeVariable.start (fun _ _ => 0) (fun _ => 0) ())).2 = [(0, 1)] ∧
      (numbers.run storeVariable.deadCodeElimination [0, 0]
        (storeVariable.deadCodeElimination.start (fun _ _ => 0) (fun _ => 0) ())).2 =
          [(0, 0)] := by
  decide

end OrbitConsole.ShaderRecompiler
