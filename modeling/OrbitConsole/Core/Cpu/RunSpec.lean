import OrbitConsole.Core.Cpu.PreciseSpec
import OrbitConsole.Core.Cpu.Run

/-!
# How runs of the interpreter end

Every stop with `halt` sets `halted`, except a return to the address zero. Where a run meets no
such return, the flags say how it ended.
-/

namespace OrbitConsole.Cpu

variable {m m' : Machine} {s : Stop}

/-- The computation does not stop with `halt`. -/
def Runs {α : Type} (x : StepM α) : Prop := x ≠ .error .halt

section Runs

variable {α β : Type} {x : StepM α} {f : α → StepM β}

theorem Runs.pure (a : α) : Runs (pure a : StepM α) := nofun

theorem Runs.bind (hx : Runs x) (hf : ∀ a, Runs (f a)) : Runs (x >>= f) := by
  cases x with
  | ok a => exact hf a
  | error e =>
      intro h
      cases h
      exact hx rfl

theorem Runs.ite {c : Prop} [Decidable c] {x y : StepM α} (hx : Runs x) (hy : Runs y) :
    Runs (if c then x else y) := by
  split
  · exact hx
  · exact hy

theorem Runs.fault : Runs (throw .fault : StepM α) := nofun

end Runs

section Accesses

variable {modrm : ModRm} (address : U64) (size : ℕ)

theorem runs_fetch (m : Machine) : Runs (m.fetch address size) := .ite .fault (.pure _)

theorem runs_fetch8 (m : Machine) : Runs (m.fetch8 address) := .ite .fault (.pure _)

theorem runs_readMemory (m : Machine) : Runs (m.readMemory address size) := .ite .fault (.pure _)

theorem runs_writeMemory (m : Machine) (value : U64) : Runs (m.writeMemory address size value) :=
  .ite .fault (.pure _)

theorem runs_readRm (m : Machine) (width : ℕ) : Runs (m.readRm modrm width) :=
  .ite (runs_readMemory _ _ m) (.pure _)

theorem runs_writeRm (m : Machine) (width : ℕ) (value : U64) :
    Runs (m.writeRm modrm width value) :=
  .ite (runs_writeMemory _ _ m value) (.pure _)

theorem runs_readXmmOperand (m : Machine) : Runs (m.readXmmOperand modrm size) :=
  .ite (.ite .fault (.pure _)) (.ite .fault (.pure _))

theorem runs_writeXmmOperand (m : Machine) (value : ℕ → Byte) :
    Runs (m.writeXmmOperand modrm value size) :=
  .ite (.ite .fault (.pure _)) (.ite .fault (.pure _))

theorem runs_groupImmediate (m : Machine) (op : Byte) : Runs (m.groupImmediate op address) :=
  .ite ((runs_fetch _ _ m).bind fun _ => .pure _) ((runs_fetch8 _ m).bind fun _ => .pure _)

theorem runs_decodeModRm (m : Machine) (rex : RexPrefix) : Runs (decodeModRm m address rex) := by
  unfold decodeModRm
  refine (runs_fetch8 _ m).bind fun raw => .ite (.pure _) ?_
  extract_lets displaced
  have hdisplaced : ∀ a, Runs (displaced a) := by
    rintro ⟨base, index, disp, cursor⟩
    exact .ite ((runs_fetch8 _ m).bind fun _ => .pure _)
      (.ite ((runs_fetch _ _ m).bind fun _ => .pure _) (.pure _))
  have hfetch : ∀ {α : Type} (x : StepM U64) (f : U64 → α) (g : α → StepM ModRm), Runs x →
      (∀ a, Runs (g a)) → Runs (x >>= fun disp => pure (f disp) >>= g) := fun _ _ _ hx hg =>
    hx.bind fun _ => (Runs.pure _).bind hg
  refine .ite ((runs_fetch8 _ m).bind fun sib => ?_) (.ite ?_ ?_)
  · extract_lets
    exact .ite (hfetch _ _ _ (runs_fetch _ _ m) hdisplaced) ((Runs.pure _).bind hdisplaced)
  · exact hfetch _ _ _ (runs_fetch _ _ m) hdisplaced
  · exact (Runs.pure _).bind hdisplaced

end Accesses

def Stop.Flagged (s : Stop) : Prop :=
  (s.halted = true ↔ s.result = .halt) ∧ (s.suspended = true → s.result ≠ .halt)

abbrev Flagged {α : Type} (x : KeepM α) : Prop := AtStop Stop.Flagged x

section Flagged

variable {α β : Type} {f : α → KeepM β}

theorem Flagged.keep {x : StepM α} (h : Runs x) : Flagged (keep m x) := by
  intro s hs
  cases x with
  | ok a => cases hs
  | error e =>
      cases hs
      exact ⟨⟨nofun, fun he => absurd (congrArg Except.error he) h⟩, nofun⟩

theorem Flagged.stop {e : StepResult} (h : e ≠ .halt) : Flagged (stop m e : KeepM α) := by
  rintro s ⟨⟩
  exact ⟨⟨nofun, fun he => absurd he h⟩, nofun⟩

theorem Flagged.look {x : StepM α} (h : Runs x) (hf : ∀ a, Flagged (f a)) :
    Flagged (Cpu.keep m x >>= f) :=
  (Flagged.keep h).bind hf

theorem Flagged.last {x : StepM α} (h : Runs x) (f : α → β) :
    Flagged (Cpu.keep m x >>= fun a => pure (f a)) :=
  Flagged.look h fun _ => AtStop.ok _

end Flagged

section Decoders

variable {modrm : ModRm} {width : ℕ}

theorem flagged_push64 (value : U64) : Flagged (Kept.push64 m value) :=
  Flagged.keep (runs_writeMemory _ _ _ _)

theorem flagged_pop64 : Flagged (Kept.pop64 m) := Flagged.last (runs_readMemory _ _ _) _

theorem flagged_pop64Gpr (reg : ℕ) : Flagged (Kept.pop64Gpr m reg) :=
  Flagged.last (runs_readMemory _ _ _) _

theorem flagged_arithmetic (op : Byte) : Flagged (Kept.arithmetic m op modrm width) := by
  unfold Kept.arithmetic
  refine Flagged.look (runs_readRm m width) fun a => ?_
  refine .ite (fun _ => Flagged.last (runs_writeRm _ _ _) _) fun _ => .ite (fun _ => .ok _)
    fun _ => ?_
  refine .ite (fun _ => Flagged.last (runs_writeRm _ _ _) _) fun _ => .ite (fun _ => .ok _)
    fun _ => ?_
  refine .ite (fun _ => Flagged.last (runs_writeRm _ _ _) _) fun _ => .ite (fun _ => .ok _)
    fun _ => ?_
  refine .ite (fun _ => .ok _) fun _ => .ite (fun _ => .ok _) fun _ => ?_
  refine .ite (fun _ => Flagged.keep (runs_writeRm _ _ _)) fun _ => ?_
  exact .ite (fun _ => .ok _) fun _ => .ok _

theorem flagged_group1 (lhs rhs : U64) : Flagged (Kept.group1 m modrm lhs rhs width) := by
  unfold Kept.group1
  refine .ite (fun _ => Flagged.keep (runs_writeRm _ _ _)) fun _ => ?_
  refine .ite (fun _ => Flagged.keep (runs_writeRm _ _ _)) fun _ => ?_
  refine .ite (fun _ => Flagged.keep (runs_writeRm _ _ _)) fun _ => ?_
  refine .ite (fun _ => Flagged.keep (runs_writeRm _ _ _)) fun _ => ?_
  refine .ite (fun _ => Flagged.keep (runs_writeRm _ _ _)) fun _ => ?_
  exact .ite (fun _ => .ok _) fun _ => Flagged.stop nofun

theorem flagged_decodeGroup1 (rex : Option Byte) (op : Byte) :
    Flagged (Kept.decodeGroup1 m rex op) := by
  unfold Kept.decodeGroup1
  refine Flagged.look (runs_decodeModRm _ m _) fun _ =>
      Flagged.look (runs_groupImmediate _ m op) fun _ => ?_
  exact Flagged.look (runs_readRm m _) fun _ => (flagged_group1 _ _).bind fun _ => .ok _

theorem flagged_decodeJccNear (opcode_rip : U64) :
    Flagged (Kept.decodeJccNear m opcode_rip) := by
  unfold Kept.decodeJccNear
  exact Flagged.look (runs_fetch8 _ m) fun _ => .ite (fun _ => Flagged.stop nofun) fun _ =>
    Flagged.last (runs_fetch _ _ m) _

theorem flagged_xmmMove (op2 pre : Byte) (rip : U64) :
    Flagged (Kept.xmmMove m op2 pre modrm rip) := by
  unfold Kept.xmmMove
  refine .ite (fun _ => ?_) fun _ => .ite (fun _ => ?_) fun _ => ?_
  · exact .ite (fun _ => Flagged.stop nofun) fun _ => Flagged.last (runs_readXmmOperand _ m) _
  · exact .ite (fun _ => Flagged.stop nofun) fun _ => Flagged.last (runs_readXmmOperand _ m) _
  · exact .ite (fun _ => Flagged.stop nofun) fun _ => Flagged.last (runs_writeXmmOperand _ m _) _

theorem flagged_decodeTwoByte (opcode_rip : U64) (pre : Byte) (rex : Option Byte) :
    Flagged (Kept.decodeTwoByte m opcode_rip pre rex) := by
  unfold Kept.decodeTwoByte
  refine Flagged.look (runs_fetch8 _ m) fun op2 => .ite (fun _ => flagged_decodeJccNear _)
    fun _ => ?_
  refine .ite (fun _ => ?_) fun _ => ?_
  · rintro s ⟨⟩
    exact ⟨⟨nofun, nofun⟩, fun _ => nofun⟩
  refine .ite (fun _ => Flagged.last (runs_decodeModRm _ m _) _) fun _ => ?_
  exact .ite (fun _ => Flagged.look (runs_decodeModRm _ m _) fun _ => flagged_xmmMove _ _ _)
    fun _ => Flagged.stop nofun

theorem flagged_decodeOneByte {op : Byte} (hret : op ≠ 0xc3) (hret' : op ≠ 0xc2) :
    Flagged (Kept.decodeOneByte m op) := by
  have hmodrm : ∀ {f : ModRm → KeepM Machine}, (∀ modrm, Flagged (f modrm)) →
      Flagged (keep m (decodeModRm m (m.rip + 2) {}) >>= f) := Flagged.look (runs_decodeModRm _ m _)
  unfold Kept.decodeOneByte
  refine .ite (fun _ => flagged_decodeTwoByte _ _ _) fun _ => ?_
  refine .ite (fun _ => hmodrm fun _ => (flagged_arithmetic _).bind fun _ => .ok _) fun _ => ?_
  refine .ite (fun _ => (flagged_push64 _).bind fun _ => .ok _) fun _ => ?_
  refine .ite (fun _ => (flagged_pop64Gpr _).bind fun _ => .ok _) fun _ => ?_
  refine .ite (fun _ => Flagged.look (runs_fetch _ _ m) fun _ => (flagged_push64 _).bind
      fun _ => .ok _) fun _ => ?_
  refine .ite (fun _ => Flagged.look (runs_fetch8 _ m) fun _ => (flagged_push64 _).bind
      fun _ => .ok _) fun _ => ?_
  refine .ite (fun _ => hmodrm fun _ => Flagged.last (runs_writeRm _ _ _) _) fun _ => ?_
  refine .ite (fun _ => hmodrm fun _ => Flagged.last (runs_readRm _ _) _) fun _ => ?_
  refine .ite (fun _ => hmodrm fun _ => .ite (fun _ => Flagged.stop nofun) fun _ => .ok _)
    fun _ => ?_
  refine .ite (fun _ => .ok _) fun _ => .ite (fun _ => Flagged.last (runs_fetch _ _ m) _)
    fun _ => ?_
  refine .ite (fun h => absurd h hret) fun _ => ?_
  refine .ite (fun _ => hmodrm fun _ => .ite (fun _ => Flagged.stop nofun) fun _ =>
    Flagged.look (runs_fetch _ _ m) fun _ => Flagged.last (runs_writeRm _ _ _) _) fun _ => ?_
  refine .ite (fun h => absurd h hret') fun _ => ?_
  refine .ite (fun _ => flagged_pop64.bind fun _ => .ok _) fun _ => ?_
  refine .ite (fun _ => ?_) fun _ => ?_
  · rintro s ⟨⟩
    exact ⟨⟨fun _ => rfl, fun _ => rfl⟩, nofun⟩
  refine .ite (fun _ => Flagged.look (runs_fetch _ _ m) fun _ => (flagged_push64 _).bind
      fun _ => .ok _) fun _ => ?_
  refine .ite (fun _ => Flagged.last (runs_fetch _ _ m) _) fun _ => ?_
  refine .ite (fun _ => Flagged.last (runs_fetch8 _ m) _) fun _ => ?_
  refine .ite (fun _ => flagged_decodeGroup1 _ _) fun _ => ?_
  exact .ite (fun _ => hmodrm fun _ => (flagged_arithmetic _).bind fun _ => .ok _)
    fun _ => Flagged.stop nofun

theorem flagged_decodeRex (rex_byte : Byte) : Flagged (Kept.decodeRex m rex_byte) := by
  have hmodrm : ∀ {f : ModRm → KeepM Machine}, (∀ modrm, Flagged (f modrm)) →
      Flagged (keep m (decodeModRm m (m.rip + 3) (decodeRexPrefix rex_byte)) >>= f) :=
    Flagged.look (runs_decodeModRm _ m _)
  unfold Kept.decodeRex
  refine Flagged.look (runs_fetch8 _ m) fun op => .ite (fun _ =>
      flagged_decodeTwoByte _ _ _) fun _ => ?_
  refine .ite (fun _ => .ite (fun _ => Flagged.last (runs_fetch _ _ m) _) fun _ =>
    Flagged.last (runs_fetch _ _ m) _) fun _ => ?_
  refine .ite (fun _ => hmodrm fun _ => .ite (fun _ => Flagged.stop nofun) fun _ => .ok _)
    fun _ => ?_
  refine .ite (fun _ => hmodrm fun _ => (flagged_arithmetic _).bind fun _ => .ok _) fun _ => ?_
  refine .ite (fun _ => flagged_decodeGroup1 _ _) fun _ => ?_
  refine .ite (fun _ => (flagged_push64 _).bind fun _ => .ok _) fun _ => ?_
  exact .ite (fun _ => (flagged_pop64Gpr _).bind fun _ => .ok _) fun _ => Flagged.stop nofun

theorem flagged_decodePrefixed (pre : Byte) : Flagged (Kept.decodePrefixed m pre) := by
  unfold Kept.decodePrefixed
  refine Flagged.look (runs_fetch8 _ m) fun op => ?_
  have hrest : ∀ (rex : Option Byte) (op : Byte) (cursor : U64),
      Flagged (if op = 0x0f then Kept.decodeTwoByte m cursor pre rex
        else if pre = prefixF3 ∧ op = 0x90 then pure (m.setRip (cursor + 1))
        else stop m .unsupported) := fun rex op cursor =>
    .ite (fun _ => flagged_decodeTwoByte _ _ _) fun _ => .ite (fun _ => .ok _)
      fun _ => Flagged.stop nofun
  exact .ite (fun _ => Flagged.look (runs_fetch8 _ m) fun _ => hrest _ _ _) fun _ => hrest _ _ _

end Decoders

section Returns

/-- A return that pops an address: it stops if the address is zero, without a flag. -/
def popReturn (m : Machine) (adjust : Machine → Machine) : KeepM Machine := do
  let (target, m) ← Kept.pop64 m
  if target = 0 then stop ((adjust m).setRip target) .halt else return (adjust m).setRip target

theorem popReturn_flagged (adjust : Machine → Machine)
    (h : ¬(m.gpr rspIndex ≠ 0 ∧ load m.mem (m.gpr rspIndex) 8 = 0)) :
    Flagged (popReturn m adjust) := by
  unfold popReturn Kept.pop64 Machine.readMemory
  by_cases hrsp : m.gpr rspIndex = 0
  · rw [if_pos hrsp]
    rintro s ⟨⟩
    exact ⟨⟨nofun, nofun⟩, nofun⟩
  · rw [if_neg hrsp]
    have htarget : load m.mem (m.gpr rspIndex) 8 ≠ 0 := fun hz => h ⟨hrsp, hz⟩
    intro s hs
    simp only [keep, bind, Except.bind, pure, Except.pure, if_neg htarget] at hs
    cases hs

theorem popReturn_zero (adjust : Machine → Machine) (hrsp : m.gpr rspIndex ≠ 0)
    (hzero : load m.mem (m.gpr rspIndex) 8 = 0) :
    ∃ s, popReturn m adjust = .error s ∧ s.result = .halt ∧ s.halted = false ∧
      s.suspended = false := by
  unfold popReturn Kept.pop64 Machine.readMemory
  rw [if_neg hrsp]
  simp only [keep, bind, Except.bind, pure, Except.pure, if_pos hzero]
  exact ⟨_, rfl, rfl, rfl, rfl⟩

theorem flagged_step (h : ¬m.returnsToZero) : Flagged (Kept.step m) := by
  unfold Kept.step
  refine (Flagged.keep (runs_fetch8 _ _)).bind_ok fun op hop => ?_
  obtain ⟨hrip, rfl⟩ := fetch8_eq_ok.1 (keep_eq_ok.1 hop)
  refine .ite (fun _ => Flagged.last (runs_fetch8 _ _) _) fun _ => .ite (fun _ =>
      flagged_decodeRex _)
    fun _ => .ite (fun _ => flagged_decodePrefixed _) fun _ => ?_
  by_cases hret : m.mem m.rip = 0xc3
  · have hpop : ¬(m.gpr rspIndex ≠ 0 ∧ load m.mem (m.gpr rspIndex) 8 = 0) := fun hz =>
      h ⟨hrip, .inl hret, hz⟩
    have heq : Kept.decodeOneByte (resetAccesses m) 0xc3 = popReturn (resetAccesses m) id := rfl
    change Flagged (Kept.decodeOneByte (resetAccesses m) (m.mem m.rip))
    rw [hret, heq]
    exact popReturn_flagged id hpop
  by_cases hret' : m.mem m.rip = 0xc2
  · change Flagged (Kept.decodeOneByte (resetAccesses m) (m.mem m.rip))
    rw [hret']
    refine AtStop.bind_ok (Flagged.keep (runs_fetch (m.rip + 1) 2 _)) fun stack_pop hfetch => ?_
    have hnext := (fetch_eq_ok.1 (keep_eq_ok.1 hfetch)).1
    have hpop : ¬(m.gpr rspIndex ≠ 0 ∧ load m.mem (m.gpr rspIndex) 8 = 0) := fun hz =>
      h ⟨hrip, .inr ⟨hret', hnext⟩, hz⟩
    exact popReturn_flagged (m := resetAccesses m) (fun m => { m with
      gpr := Function.update m.gpr rspIndex (m.gpr rspIndex + stack_pop) }) hpop
  · exact flagged_decodeOneByte hret hret'

theorem step_returnsToZero (h : m.returnsToZero) : ∃ s, Kept.step m = .error s ∧
    s.result = .halt ∧ s.halted = false ∧ s.suspended = false := by
  obtain ⟨hrip, hop, hrsp, hzero⟩ := h
  have hfetch : (resetAccesses m).fetch8 (resetAccesses m).rip = .ok (m.mem m.rip) :=
    fetch8_eq_ok.2 ⟨hrip, rfl⟩
  obtain hop | ⟨hop, hnext⟩ := hop
  · obtain ⟨s, hs, hrest⟩ := popReturn_zero (m := resetAccesses m) id hrsp hzero
    refine ⟨s, ?_, hrest⟩
    rw [Kept.step, hfetch, hop]
    exact hs
  · obtain ⟨s, hs, hrest⟩ := popReturn_zero (m := resetAccesses m) (fun m' => { m' with
      gpr := Function.update m'.gpr rspIndex (m'.gpr rspIndex + load m.mem (m.rip + 1) 2) })
      hrsp hzero
    refine ⟨s, ?_, hrest⟩
    have hpop : (resetAccesses m).fetch (m.rip + 1) 2 = .ok (load m.mem (m.rip + 1) 2) :=
      fetch_eq_ok.2 ⟨hnext, rfl⟩
    have heq : Kept.decodeOneByte (resetAccesses m) 0xc2 =
        (keep (resetAccesses m) ((resetAccesses m).fetch (m.rip + 1) 2) >>= fun stack_pop =>
          popReturn (resetAccesses m) fun m' => { m' with
            gpr := Function.update m'.gpr rspIndex (m'.gpr rspIndex + stack_pop) }) := rfl
    rw [Kept.step, hfetch, hop]
    change Kept.decodeOneByte (resetAccesses m) 0xc2 = _
    rw [heq, hpop]
    exact hs

end Returns

section Loop

theorem afterSteps_ok {n k : ℕ} {m₁ m₂ : Machine} (h₁ : m.afterSteps n = some m₁)
    (h₂ : m.afterSteps (n + k + 1) = some m₂) : ∃ m', Kept.step m₁ = .ok m' := by
  induction n generalizing m with
  | zero =>
      cases h₁
      rw [Nat.zero_add, Machine.afterSteps] at h₂
      cases hstep : Kept.step m₁ with
      | ok m' => exact ⟨m', rfl⟩
      | error s =>
          rw [hstep] at h₂
          cases h₂
  | succ n ih =>
      rw [show n + 1 + k + 1 = n + k + 1 + 1 by omega, Machine.afterSteps] at h₂
      rw [Machine.afterSteps] at h₁
      cases hstep : Kept.step m with
      | ok m' =>
          rw [hstep] at h₁ h₂
          exact ih h₁ h₂
      | error s =>
          rw [hstep] at h₁
          cases h₁

theorem not_returnsToZero_of_later {n k : ℕ} {m₁ m₂ : Machine} (h₁ : m.afterSteps n = some m₁)
    (h₂ : m.afterSteps (n + k + 1) = some m₂) : ¬m₁.returnsToZero := fun hzero => by
  obtain ⟨m', hm'⟩ := afterSteps_ok h₁ h₂
  obtain ⟨s, hs, -⟩ := step_returnsToZero hzero
  rw [hs] at hm'
  cases hm'

theorem interpreterLoop_cases (c : Context) (hhalted : c.halted = false)
    (hsuspended : c.suspended = false) {left : ℕ}
    (hleft : c.instruction_counter + left = maxInterpreterSteps) :
    (∃ m, c.machine.afterSteps left = some m ∧ c.interpreterLoop =
      { context := { c with machine := m, instruction_counter := maxInterpreterSteps }
        steps := left }) ∨
    ∃ n m s, n < left ∧ c.machine.afterSteps n = some m ∧ Kept.step m = .error s ∧
      c.interpreterLoop =
        { context := Context.stopped
            { c with machine := m, instruction_counter := c.instruction_counter + n } s
          steps := n + 1
          last := some s.result } := by
  induction left generalizing c with
  | zero =>
      refine .inl ⟨c.machine, rfl, ?_⟩
      rw [Context.interpreterLoop, if_neg fun h => absurd h.1 (by omega)]
      rw [← hleft, Nat.add_zero]
  | succ left ih =>
      have henter : c.instruction_counter < maxInterpreterSteps ∧ c.halted = false ∧
          c.suspended = false := ⟨by omega, hhalted, hsuspended⟩
      rw [Context.interpreterLoop, if_pos henter]
      cases hstep : Kept.step c.machine with
      | error s => exact .inr ⟨0, c.machine, s, Nat.succ_pos _, rfl, hstep, rfl⟩
      | ok m =>
          dsimp only
          obtain ⟨m', hm', hrest⟩ | ⟨n, m', s, hn, hm', hs, hrest⟩ :=
            ih { c with machine := m, instruction_counter := c.instruction_counter + 1 } hhalted
              hsuspended (by dsimp only; omega)
          · refine .inl ⟨m', ?_, ?_⟩
            · rw [Machine.afterSteps, hstep]
              exact hm'
            · rw [hrest]
          · refine .inr ⟨n + 1, m', s, Nat.succ_lt_succ hn, ?_, hs, ?_⟩
            · rw [Machine.afterSteps, hstep]
              exact hm'
            · rw [hrest]
              dsimp only
              rw [Nat.add_assoc, Nat.add_comm 1 n]

end Loop

section Classified

/-- The loop has kept to its budget, exactly one flag is set, and `halted` is set exactly if the
last step has stopped with `halt`. -/
def Leaving.Classified (l : Leaving) : Prop :=
  l.steps ≤ maxInterpreterSteps ∧ l.context.halted ≠ l.context.suspended ∧
    (l.context.halted = true ↔ l.last = some .halt)

/-- No state of the run within the budget is at a return to zero. -/
def Machine.NeverReturnsToZero (m : Machine) : Prop :=
  ∀ n < maxInterpreterSteps, ∀ m', m.afterSteps n = some m' → ¬m'.returnsToZero

theorem maxInterpreterSteps_pos : 0 < maxInterpreterSteps := by decide

theorem executeRegistersContext_of_flag {c : Context} (hcounter : c.instruction_counter = 0)
    (h : ¬(c.halted = false ∧ c.suspended = false)) :
    c.executeRegistersContext = { context := c } := by
  have hloop : c.interpreterLoop = { context := c } := by
    rw [Context.interpreterLoop, if_neg fun henter => h henter.2]
  rw [Context.executeRegistersContext, hloop]
  dsimp only
  rw [if_neg (by rw [hcounter]; exact Nat.not_le.2 maxInterpreterSteps_pos)]

theorem executeRegistersContext_cases (m : Machine) :
    (∃ m', m.afterSteps maxInterpreterSteps = some m' ∧
      ({ machine := m } : Context).executeRegistersContext =
        { context :=
            { machine := m', instruction_counter := maxInterpreterSteps, suspended := true }
          steps := maxInterpreterSteps }) ∨
    ∃ n m' s, n < maxInterpreterSteps ∧ m.afterSteps n = some m' ∧ Kept.step m' = .error s ∧
      ({ machine := m } : Context).executeRegistersContext =
        { context := Context.stopped { machine := m', instruction_counter := n } s
          steps := n + 1
          last := some s.result } := by
  obtain ⟨m', hm', hrest⟩ | ⟨n, m', s, hn, hm', hs, hrest⟩ :=
    interpreterLoop_cases { machine := m } rfl rfl (Nat.zero_add maxInterpreterSteps)
  · refine .inl ⟨m', hm', ?_⟩
    rw [Context.executeRegistersContext, hrest]
    exact if_pos (Nat.le_refl _)
  · refine .inr ⟨n, m', s, hn, hm', hs, ?_⟩
    rw [Context.executeRegistersContext, hrest, Nat.zero_add]
    exact if_neg (Nat.not_le.2 hn)

theorem neverReturnsToZero_iff {n : ℕ} (hn : n < maxInterpreterSteps)
    (hm' : m.afterSteps n = some m') (hs : Kept.step m' = .error s) :
    m.NeverReturnsToZero ↔ ¬m'.returnsToZero := by
  refine ⟨fun h => h n hn m' hm', fun h k hk m₁ hm₁ => ?_⟩
  obtain hlt | rfl | hgt := Nat.lt_trichotomy k n
  · obtain ⟨d, rfl⟩ := Nat.exists_eq_add_of_lt hlt
    exact not_returnsToZero_of_later hm₁ hm'
  · rw [hm'] at hm₁
    cases hm₁
    exact h
  · obtain ⟨d, rfl⟩ := Nat.exists_eq_add_of_lt hgt
    obtain ⟨m₂, hm₂⟩ := afterSteps_ok hm' hm₁
    rw [hs] at hm₂
    cases hm₂

theorem halted_iff_last (m : Machine) :
    let l := ({ machine := m } : Context).executeRegistersContext
    (l.context.halted = true ↔ l.last = some .halt) ↔ m.NeverReturnsToZero := by
  dsimp only
  obtain ⟨m', hm', hrest⟩ | ⟨n, m', s, hn, hm', hs, hrest⟩ := executeRegistersContext_cases m
  · rw [hrest]
    refine iff_of_true ⟨nofun, nofun⟩ fun k hk m₁ hm₁ => ?_
    obtain ⟨d, hd⟩ := Nat.exists_eq_add_of_lt hk
    rw [hd] at hm'
    exact not_returnsToZero_of_later hm₁ hm'
  · rw [hrest, neverReturnsToZero_iff hn hm' hs]
    dsimp only [Context.stopped]
    rw [Bool.false_or, Option.some.injEq]
    refine ⟨fun h hzero => ?_, fun h => (flagged_step h s hs).1⟩
    obtain ⟨s', hs', hresult, hhalted, -⟩ := step_returnsToZero hzero
    rw [hs] at hs'
    cases hs'
    rw [hhalted, hresult] at h
    exact absurd (h.2 rfl) nofun

theorem classified_of_neverReturnsToZero (h : m.NeverReturnsToZero) :
    ({ machine := m } : Context).executeRegistersContext.Classified := by
  refine ⟨?_, ?_, (halted_iff_last m).2 h⟩
  all_goals
    obtain ⟨m', hm', hrest⟩ | ⟨n, m', s, hn, hm', hs, hrest⟩ := executeRegistersContext_cases m
  · exact Nat.le_of_eq (congrArg Leaving.steps hrest)
  · rw [hrest]
    exact hn
  · rw [hrest]
    exact nofun
  · have hflagged := flagged_step ((neverReturnsToZero_iff hn hm' hs).1 h) s hs
    rw [hrest]
    dsimp only [Context.stopped]
    rw [Bool.false_or, Bool.false_or]
    by_cases hresult : s.result = .halt
    · have hsuspended : s.suspended = false := by
        cases hsus : s.suspended with
        | false => rfl
        | true => exact absurd hresult (hflagged.2 hsus)
      rw [hflagged.1.2 hresult, hsuspended, hresult]
      decide
    · have hhalted : s.halted = false := by
        cases hhal : s.halted with
        | false => rfl
        | true => exact absurd (hflagged.1.1 hhal) hresult
      rw [hhalted, decide_eq_true hresult, Bool.or_true]
      decide

theorem step_of_rip (h : m.rip = 0) : ∃ s, Kept.step m = .error s ∧ s.result = .fault := by
  have hfetch : (resetAccesses m).fetch8 (resetAccesses m).rip = .error .fault := if_pos h
  rw [Kept.step, hfetch]
  exact ⟨_, rfl, rfl⟩

theorem faults_of_rip (h : m.rip = 0) : m.NeverReturnsToZero ∧
    ({ machine := m } : Context).executeRegistersContext.last = some .fault := by
  obtain ⟨s, hs, hfault⟩ := step_of_rip h
  have hnone : ∀ n, m.afterSteps (n + 1) = none := fun n => by rw [Machine.afterSteps, hs]
  obtain ⟨m', hm', hrest⟩ | ⟨n, m', s', hn, hm', hs', hrest⟩ := executeRegistersContext_cases m
  · rw [show maxInterpreterSteps = 499999 + 1 from rfl, hnone] at hm'
    cases hm'
  · cases n with
    | succ n =>
        rw [hnone] at hm'
        cases hm'
    | zero =>
        cases hm'
        rw [hs] at hs'
        cases hs'
        refine ⟨(neverReturnsToZero_iff hn rfl hs).2 fun hzero => hzero.1 h, ?_⟩
        rw [hrest]
        exact congrArg some hfault

/-- A run without a return to zero ends classified, so does one whose context is suspended, and
no other; and the result of `ExecuteEntry` says whether the guest ran to its end exactly if it
has no such return. -/
theorem run_classified_iff (m : Machine) :
    (∀ halted suspended : Bool,
      (Context.executeRegistersContext
        { machine := m, halted := halted, suspended := suspended }).Classified ↔
      halted = false ∧ (suspended = false → m.NeverReturnsToZero)) ∧
    ∀ entry_pc entry_params exit_func stack : U64,
      (executeEntry m.mem entry_pc entry_params exit_func stack = true ↔
        (entryContext m.mem entry_pc entry_params exit_func
          stack).executeRegistersContext.last = some .halt) ↔
      (entryContext m.mem entry_pc entry_params exit_func stack).machine.NeverReturnsToZero := by
  refine ⟨fun halted suspended => ?_, fun entry_pc entry_params exit_func stack => ?_⟩
  · cases halted with
    | true =>
        rw [executeRegistersContext_of_flag rfl fun h => Bool.false_ne_true h.1.symm]
        exact iff_of_false (fun h => absurd (h.2.2.1 rfl) nofun) fun h => nomatch h.1
    | false =>
        cases suspended with
        | true =>
            rw [executeRegistersContext_of_flag rfl fun h => Bool.false_ne_true h.2.symm]
            exact iff_of_true ⟨Nat.zero_le _, Bool.false_ne_true, nofun, nofun⟩ ⟨rfl, nofun⟩
        | false =>
            exact ⟨fun h => ⟨rfl, fun _ => (halted_iff_last m).1 h.2.2⟩,
              fun h => classified_of_neverReturnsToZero (h.2 rfl)⟩
  · have hlast := halted_iff_last
      (entryContext m.mem entry_pc entry_params exit_func stack).machine
    dsimp only at hlast
    by_cases hentry : entry_pc = 0
    · obtain ⟨hnever, hfault⟩ := faults_of_rip
        (m := (entryContext m.mem entry_pc entry_params exit_func stack).machine) hentry
      rw [executeEntry, if_pos hentry]
      refine iff_of_true ⟨nofun, fun h => ?_⟩ hnever
      cases hfault.symm.trans h
    · rw [executeEntry, if_neg hentry]
      exact hlast

/-- A guest whose first instruction is a return, with a cleared stack. -/
def returnAtEntry : Machine := (entryContext (codeAt [0xc3]).mem 0x1000 0 0 0x100000).machine

/-- The guest has run to its end, but neither flag is set. -/
theorem return_not_classified :
    let l := ({ machine := returnAtEntry } : Context).executeRegistersContext
    l.last = some .halt ∧ l.context.halted = false ∧ l.context.suspended = false ∧
      ¬l.Classified ∧ executeEntry (codeAt [0xc3]).mem 0x1000 0 0 0x100000 = false := by
  have hstep : ∃ s, Kept.step returnAtEntry = .error s ∧ s.result = .halt ∧
      s.halted = false ∧ s.suspended = false :=
    step_returnsToZero ⟨by decide, .inl rfl, by decide, by decide⟩
  obtain ⟨s, hs, hresult, hhalted, hsuspended⟩ := hstep
  have hrun : ({ machine := returnAtEntry } : Context).executeRegistersContext =
      { context := Context.stopped { machine := returnAtEntry } s
        steps := 1
        last := some s.result } := by
    have hloop : ({ machine := returnAtEntry } : Context).interpreterLoop =
        { context := Context.stopped { machine := returnAtEntry } s
          steps := 1
          last := some s.result } := by
      rw [Context.interpreterLoop, if_pos ⟨maxInterpreterSteps_pos, rfl, rfl⟩, hs]
    rw [Context.executeRegistersContext, hloop]
    exact if_neg (Nat.not_le.2 maxInterpreterSteps_pos)
  have hflag : (Context.stopped { machine := returnAtEntry } s).halted = false := by
    rw [Context.stopped, hhalted]
    rfl
  dsimp only
  refine ⟨?_, ?_, ?_, fun h => ?_, ?_⟩
  · rw [hrun, hresult]
  · rw [hrun]
    exact hflag
  · rw [hrun, Context.stopped, hsuspended, hresult]
    rfl
  · rw [hrun] at h
    have hhalted' := h.2.2.2 (congrArg some hresult)
    dsimp only at hhalted'
    rw [hflag] at hhalted'
    cases hhalted'
  · change (({ machine := returnAtEntry } : Context).executeRegistersContext).context.halted = false
    rw [hrun]
    exact hflag

end Classified

end OrbitConsole.Cpu
