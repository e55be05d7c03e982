import OrbitConsole.Core.Cpu.StackSpec

/-!
# Which steps that stop are precise

Every access that may fail stands before the first update, but for those of the stack: a push
moves the stack pointer before it writes, and LEAVE before it reads.
-/

namespace OrbitConsole.Cpu

variable {m m' m₁ : Machine}

theorem SameState.refl (m : Machine) : SameState m m := ⟨rfl, rfl⟩

/-- What holds of every stop of a computation. -/
def AtStop {α : Type} (P : Stop → Prop) (x : KeepM α) : Prop := ∀ s, x = .error s → P s

/-- A computation that stops with a fault or at an unsupported instruction leaves the state as
it is in `m`. -/
abbrev Keeps {α : Type} (m : Machine) (x : KeepM α) : Prop :=
  AtStop (fun s => s.result = .halt ∨ SameState m s.after) x

section Rules

variable {α β : Type} {P : Stop → Prop} {x : KeepM α} {f : α → KeepM β}

theorem AtStop.ok (a : α) : AtStop P (.ok a : KeepM α) := fun _ h => by cases h

theorem AtStop.bind_ok (hx : AtStop P x) (hf : ∀ a, x = .ok a → AtStop P (f a)) :
    AtStop P (x >>= f) := by
  intro s hs
  cases x with
  | ok a => exact hf a rfl s hs
  | error e =>
      cases hs
      exact hx _ rfl

theorem AtStop.bind (hx : AtStop P x) (hf : ∀ a, AtStop P (f a)) : AtStop P (x >>= f) :=
  hx.bind_ok fun a _ => hf a

theorem AtStop.ite {c : Prop} [Decidable c] {x y : KeepM α} (hx : c → AtStop P x)
    (hy : ¬c → AtStop P y) : AtStop P (if c then x else y) := by
  split
  · exact hx ‹_›
  · exact hy ‹_›

theorem Keeps.keep (h : SameState m m') (x : StepM α) : Keeps m (keep m' x) := by
  intro s hs
  cases x with
  | ok a => cases hs
  | error e =>
      cases hs
      exact .inr h

theorem Keeps.stop (h : SameState m m') (e : StepResult) : Keeps m (stop m' e : KeepM α) := by
  rintro s ⟨⟩
  exact .inr h

theorem keep_eq_ok {x : StepM α} {a : α} : keep m x = .ok a ↔ x = .ok a := by
  cases x with
  | ok b => exact ⟨fun h => congrArg _ (Except.ok.inj h), fun h => congrArg _ (Except.ok.inj h)⟩
  | error e => exact ⟨nofun, nofun⟩

theorem Keeps.look {x : StepM α} (hf : ∀ a, Keeps m (f a)) : Keeps m (Cpu.keep m x >>= f) :=
  AtStop.bind (Keeps.keep (.refl m) x) hf

end Rules

section Decoders

variable {modrm : ModRm} {width : ℕ} {value : U64}

theorem readRm_same (h : m.readRm modrm width = .ok (value, m')) :
    SameState m m' ∧ (modrm.has_memory = true → modrm.address ≠ 0) := by
  unfold Machine.readRm at h
  split at h
  · unfold Machine.readMemory at h
    split at h
    · cases h
    · rename_i hne
      cases h
      exact ⟨⟨rfl, rfl⟩, fun _ => hne⟩
  · rename_i hmem
    cases h
    exact ⟨.refl m, fun h => absurd h hmem⟩

theorem writeRm_ok (h : modrm.has_memory = true → modrm.address ≠ 0) :
    ∃ m', m.writeRm modrm width value = .ok m' := by
  unfold Machine.writeRm
  split
  · rename_i hmem
    unfold Machine.writeMemory
    rw [if_neg (h hmem)]
    exact ⟨_, rfl⟩
  · exact ⟨_, rfl⟩

theorem keeps_arithmetic (op : Byte) : Keeps m (Kept.arithmetic m op modrm width) := by
  unfold Kept.arithmetic
  refine (Keeps.keep (.refl m) _).bind_ok fun a ha => ?_
  have hsame := (readRm_same (keep_eq_ok.1 ha)).1
  have hwrite : ∀ (x : StepM Machine) (f : Machine → Machine),
      Keeps m (keep a.2 x >>= fun m => pure (f m)) := fun x f =>
    (Keeps.keep hsame x).bind fun _ => AtStop.ok _
  refine .ite (fun _ => hwrite _ _) fun _ => ?_
  refine .ite (fun _ => AtStop.ok _) fun _ => ?_
  refine .ite (fun _ => hwrite _ _) fun _ => ?_
  refine .ite (fun _ => AtStop.ok _) fun _ => ?_
  refine .ite (fun _ => hwrite _ _) fun _ => ?_
  refine .ite (fun _ => AtStop.ok _) fun _ => ?_
  refine .ite (fun _ => AtStop.ok _) fun _ => ?_
  refine .ite (fun _ => AtStop.ok _) fun _ => ?_
  refine .ite (fun _ => Keeps.keep hsame _) fun _ => ?_
  exact .ite (fun _ => AtStop.ok _) fun _ => AtStop.ok _

theorem keeps_group1 (hsame : SameState m m₁)
    (h : modrm.has_memory = true → modrm.address ≠ 0) (lhs rhs : U64) :
    Keeps m (Kept.group1 m₁ modrm lhs rhs width) := by
  have hwrite : ∀ (m₂ : Machine) (value : U64),
      Keeps m (keep m₂ (m₂.writeRm modrm width value)) := fun m₂ value => by
    obtain ⟨m₃, hm₃⟩ := @writeRm_ok m₂ modrm width value h
    rw [hm₃]
    exact AtStop.ok m₃
  unfold Kept.group1
  refine .ite (fun _ => hwrite _ _) fun _ => ?_
  refine .ite (fun _ => hwrite _ _) fun _ => ?_
  refine .ite (fun _ => hwrite _ _) fun _ => ?_
  refine .ite (fun _ => hwrite _ _) fun _ => ?_
  refine .ite (fun _ => hwrite _ _) fun _ => ?_
  exact .ite (fun _ => AtStop.ok _) fun _ => Keeps.stop hsame _

theorem keeps_decodeGroup1 (rex : Option Byte) (op : Byte) :
    Keeps m (Kept.decodeGroup1 m rex op) := by
  unfold Kept.decodeGroup1
  refine Keeps.look fun modrm => Keeps.look fun imm => ?_
  refine (Keeps.keep (.refl m) _).bind_ok fun a ha => ?_
  obtain ⟨hsame, hwritable⟩ := readRm_same (keep_eq_ok.1 ha)
  exact (keeps_group1 hsame hwritable _ _).bind fun _ => AtStop.ok _

theorem keeps_decodeJccShort (op : Byte) : Keeps m (Kept.decodeJccShort m op) :=
  Keeps.look fun _ => AtStop.ok _

theorem keeps_decodeJccNear (opcode_rip : U64) : Keeps m (Kept.decodeJccNear m opcode_rip) := by
  unfold Kept.decodeJccNear
  exact Keeps.look fun _ => .ite (fun _ => Keeps.stop (.refl m) _) fun _ =>
    Keeps.look fun _ => AtStop.ok _

theorem keeps_xmmMove (op2 pre : Byte) (rip : U64) :
    Keeps m (Kept.xmmMove m op2 pre modrm rip) := by
  unfold Kept.xmmMove
  refine .ite (fun _ => ?_) fun _ => .ite (fun _ => ?_) fun _ => ?_
  · exact .ite (fun _ => Keeps.stop (.refl m) _) fun _ => Keeps.look fun _ => AtStop.ok _
  · exact .ite (fun _ => Keeps.stop (.refl m) _) fun _ => Keeps.look fun _ => AtStop.ok _
  · exact .ite (fun _ => Keeps.stop (.refl m) _) fun _ => Keeps.look fun _ => AtStop.ok _

theorem keeps_decodeTwoByte (opcode_rip : U64) (pre : Byte) (rex : Option Byte) :
    Keeps m (Kept.decodeTwoByte m opcode_rip pre rex) := by
  unfold Kept.decodeTwoByte
  refine Keeps.look fun op2 => .ite (fun _ => keeps_decodeJccNear _) fun _ => ?_
  refine .ite (fun _ => ?_) fun _ => ?_
  · rintro s ⟨⟩
    exact .inr (.refl m)
  refine .ite (fun _ => Keeps.look fun _ => AtStop.ok _) fun _ => ?_
  exact .ite (fun _ => Keeps.look fun _ => keeps_xmmMove _ _ _) fun _ => Keeps.stop (.refl m) _

theorem not_register {op : Byte} {b : Bool} (h : registerInstruction op b = none) :
    ¬(0x50 ≤ op ∧ op ≤ 0x57) ∧ ¬(0x58 ≤ op ∧ op ≤ 0x5f) := by
  unfold registerInstruction at h
  refine ⟨fun hpush => ?_, fun hpop => ?_⟩
  · rw [if_pos hpush] at h
    cases h
  · split at h
    · cases h
    · cases h

theorem keeps_decodeOneByte {op : Byte} (hregister : registerInstruction op false = none)
    (hplain : plainInstruction op = none) : Keeps m (Kept.decodeOneByte m op) := by
  have hno : ∀ {op' : Byte}, plainInstruction op' ≠ none → op ≠ op' := by
    rintro op' hop' rfl
    exact hop' hplain
  obtain ⟨hpush, hpop⟩ := not_register hregister
  have hlook : ∀ {α : Type} (x : StepM α) (f : α → Machine),
      Keeps m (keep m x >>= fun a => pure (f a)) := fun x f => Keeps.look fun _ => AtStop.ok _
  unfold Kept.decodeOneByte
  refine .ite (fun _ => keeps_decodeTwoByte _ _ _) fun _ => ?_
  refine .ite (fun _ => Keeps.look fun _ => (keeps_arithmetic _).bind fun _ => AtStop.ok _)
    fun _ => ?_
  refine .ite (fun h => absurd h hpush) fun _ => .ite (fun h => absurd h hpop) fun _ => ?_
  refine .ite (fun h => absurd h (hno (by decide))) fun _ => ?_
  refine .ite (fun h => absurd h (hno (by decide))) fun _ => ?_
  refine .ite (fun _ => Keeps.look fun _ => hlook _ _) fun _ => ?_
  refine .ite (fun _ => Keeps.look fun _ => hlook _ _) fun _ => ?_
  refine .ite (fun _ => Keeps.look fun _ => .ite (fun _ => Keeps.stop (.refl m) _)
      fun _ => AtStop.ok _) fun _ => ?_
  refine .ite (fun _ => AtStop.ok _) fun _ => .ite (fun _ => hlook _ _) fun _ => ?_
  refine .ite (fun h => absurd h (hno (by decide))) fun _ => ?_
  refine .ite (fun _ => Keeps.look fun _ => .ite (fun _ => Keeps.stop (.refl m) _) fun _ =>
    Keeps.look fun _ => hlook _ _) fun _ => ?_
  refine .ite (fun h => absurd h (hno (by decide))) fun _ => ?_
  refine .ite (fun h => absurd h (hno (by decide))) fun _ => ?_
  refine .ite (fun _ => ?_) fun _ => ?_
  · rintro s ⟨⟩
    exact .inl rfl
  refine .ite (fun h => absurd h (hno (by decide))) fun _ => ?_
  refine .ite (fun _ => hlook _ _) fun _ => .ite (fun _ => hlook _ _) fun _ => ?_
  refine .ite (fun _ => keeps_decodeGroup1 _ _) fun _ => ?_
  exact .ite (fun _ => Keeps.look fun _ => (keeps_arithmetic _).bind fun _ => AtStop.ok _)
    fun _ => Keeps.stop (.refl m) _

theorem keeps_decodeRex {rex_byte : Byte}
    (h : m.rip + 1 = 0 ∨ ∀ b, registerInstruction (m.mem (m.rip + 1)) b = none) :
    Keeps m (Kept.decodeRex m rex_byte) := by
  unfold Kept.decodeRex
  refine (Keeps.keep (.refl m) _).bind_ok fun op hop => ?_
  obtain ⟨hne, rfl⟩ := fetch8_eq_ok.1 (keep_eq_ok.1 hop)
  obtain ⟨hpush, hpop⟩ := not_register (h.resolve_left hne false)
  have hlook : ∀ {α : Type} (x : StepM α) (f : α → Machine),
      Keeps m (keep m x >>= fun a => pure (f a)) := fun x f => Keeps.look fun _ => AtStop.ok _
  refine .ite (fun _ => keeps_decodeTwoByte _ _ _) fun _ => ?_
  refine .ite (fun _ => .ite (fun _ => hlook _ _) fun _ => hlook _ _) fun _ => ?_
  refine .ite (fun _ => Keeps.look fun _ => .ite (fun _ => Keeps.stop (.refl m) _)
      fun _ => AtStop.ok _) fun _ => ?_
  refine .ite (fun _ => Keeps.look fun _ => (keeps_arithmetic _).bind fun _ => AtStop.ok _)
    fun _ => ?_
  refine .ite (fun _ => keeps_decodeGroup1 _ _) fun _ => ?_
  exact .ite (fun h => absurd h hpush) fun _ => .ite (fun h => absurd h hpop) fun _ =>
    Keeps.stop (.refl m) _

theorem keeps_decodePrefixed (pre : Byte) : Keeps m (Kept.decodePrefixed m pre) := by
  unfold Kept.decodePrefixed
  refine Keeps.look fun op => ?_
  have hrest : ∀ (rex : Option Byte) (op : Byte) (cursor : U64),
      Keeps m (if op = 0x0f then Kept.decodeTwoByte m cursor pre rex
        else if pre = prefixF3 ∧ op = 0x90 then pure (m.setRip (cursor + 1))
        else stop m .unsupported) := fun rex op cursor =>
    .ite (fun _ => keeps_decodeTwoByte _ _ _) fun _ => .ite (fun _ => AtStop.ok _)
      fun _ => Keeps.stop (.refl m) _
  exact .ite (fun _ => Keeps.look fun _ => hrest _ _ _) fun _ => hrest _ _ _

end Decoders

section Precise

theorem readMemory_error {address : U64} {size : ℕ} {e : StepResult}
    (h : m.readMemory address size = .error e) : e = .fault := by
  unfold Machine.readMemory at h
  split at h
  · exact (Except.error.inj h).symm
  · cases h

theorem supported_push (m : Machine) (value next : U64) :
    (m.pushOutcome value next).result ≠ some .unsupported := by
  by_cases h : m.gpr rspIndex - 8 = 0
  · rw [pushOutcome_fault h]
    exact nofun
  · rw [pushOutcome_ok h]
    exact nofun

theorem supported_pop (m : Machine) (reg : ℕ) (next : U64) :
    (m.popOutcome reg next).result ≠ some .unsupported := by
  by_cases h : m.gpr rspIndex = 0
  · rw [popOutcome_fault h]
    exact nofun
  · rw [popOutcome_ok h]
    exact nofun

theorem supported_ret (m : Machine) (stack_pop : U64) :
    (m.retOutcome stack_pop).result ≠ some .unsupported := by
  unfold Machine.retOutcome Machine.pop64
  cases h : m.readMemory (m.gpr rspIndex) 8 with
  | error e =>
      obtain rfl := readMemory_error h
      exact nofun
  | ok r =>
      dsimp only [bind, Except.bind, pure, Except.pure]
      split <;> exact nofun

theorem supported_leave (m : Machine) : m.leaveOutcome.result ≠ some .unsupported := by
  unfold Machine.leaveOutcome Machine.pop64
  dsimp only
  cases h : Machine.readMemory { m with
    gpr := Function.update m.gpr rspIndex (m.gpr rbpIndex) }
      (Function.update m.gpr rspIndex (m.gpr rbpIndex) rspIndex) 8 with
  | error e =>
      obtain rfl := readMemory_error h
      exact nofun
  | ok r => exact nofun

theorem supported_fetch {α : Type} {part : StepM α} {rest : α → Outcome}
    (hpart : part ≠ .error .unsupported) (hrest : ∀ a, (rest a).result ≠ some .unsupported) :
    (m.fetchOutcome part rest).result ≠ some .unsupported := by
  cases part with
  | ok a => exact hrest a
  | error e =>
      rintro h
      cases h
      exact hpart rfl

theorem fetch_supported (m : Machine) (address : U64) (size : ℕ) :
    m.fetch address size ≠ .error .unsupported := by
  unfold Machine.fetch
  split <;> exact nofun

theorem fetch8_supported (m : Machine) (address : U64) :
    m.fetch8 address ≠ .error .unsupported := by
  unfold Machine.fetch8
  split <;> exact nofun

theorem supported_oneByte {op : Byte} {o : Outcome} (h : m.oneByteOutcome op = some o) :
    o.result ≠ some .unsupported := by
  obtain ⟨-, rfl⟩ | ⟨-, rfl⟩ | ⟨-, rfl⟩ | ⟨-, rfl⟩ | ⟨-, rfl⟩ | ⟨-, rfl⟩ | ⟨-, rfl⟩ |
    ⟨-, rfl⟩ := oneByteOutcome_eq_some h
  · exact supported_push _ _ _
  · exact supported_pop _ _ _
  · exact supported_fetch (fetch_supported _ _ _) fun _ => supported_push _ _ _
  · exact supported_fetch (fetch8_supported _ _) fun _ => supported_push _ _ _
  · exact supported_ret _ _
  · exact supported_fetch (fetch_supported _ _ _) fun _ => supported_ret _ _
  · exact supported_leave _
  · exact supported_fetch (fetch_supported _ _ _) fun _ => supported_push _ _ _

theorem supported_stackStep {o : Outcome} (h : m.stackStep = some o) :
    o.result ≠ some .unsupported := by
  simp only [Machine.stackStep] at h
  split at h
  · cases h
  split at h
  · split at h
    · cases h
    obtain ⟨-, rfl⟩ | ⟨-, rfl⟩ := rexOutcome_eq_some h
    · exact supported_push _ _ _
    · exact supported_pop _ _ _
  · exact supported_oneByte h

/-- Nothing but what stops the guest is different from before a step with a fault or at an
unsupported instruction. -/
def Precise (m : Machine) : Prop :=
  ∀ s, Kept.step m = .error s → s.result = .fault ∨ s.result = .unsupported →
    SameState s.after m

/-- The stack pointer has moved before the fault. -/
def StackInstruction.Slips (i : StackInstruction) (m : Machine) : Prop :=
  match i with
  | .push _ => m.gpr rspIndex = 8
  | .pushImmediate _ => m.rip + 1 ≠ 0 ∧ m.gpr rspIndex = 8
  | .call => m.rip + 1 ≠ 0 ∧ m.gpr rspIndex = 8
  | .leave => m.gpr rbpIndex = 0 ∧ m.gpr rspIndex ≠ 0
  | _ => False

theorem slips_iff {i : StackInstruction} {length : U64} :
    i.Slips m ↔ i.Misses m ∧ i.execute length m = none := by
  cases i <;> simp only [StackInstruction.Slips, StackInstruction.Misses,
    StackInstruction.execute, pushed, sub_eight_eq_zero, false_and]
  case push => simp
  case pushImmediate => simp +contextual
  case call => simp +contextual
  case leave => simp +contextual
  case pop => simp +contextual

theorem precise_of_not_stack (h : stackInstruction m = none) : Precise m := by
  have hkeeps : Keeps (resetAccesses m) (Kept.step m) := by
    unfold Kept.step
    refine (Keeps.keep (.refl _) _).bind_ok fun op hop => ?_
    obtain ⟨hrip, rfl⟩ := fetch8_eq_ok.1 (keep_eq_ok.1 hop)
    refine .ite (fun _ => keeps_decodeJccShort _) fun _ => ?_
    unfold stackInstruction at h
    rw [if_neg (show m.rip ≠ 0 from hrip)] at h
    refine .ite (fun hrex => ?_) fun hrex => ?_
    · have hrex' : isRexByte (m.mem m.rip) = true := (isRexByte_iff _).2 hrex
      rw [if_pos hrex'] at h
      refine keeps_decodeRex ?_
      by_cases hnext : m.rip + 1 = 0
      · exact .inl hnext
      rw [if_neg hnext, Option.map_eq_none_iff] at h
      refine .inr fun b => ?_
      obtain ⟨hpush, hpop⟩ := not_register h
      exact (if_neg hpush).trans (if_neg hpop)
    · have hrex' : ¬isRexByte (m.mem m.rip) = true := fun hb => hrex ((isRexByte_iff _).1 hb)
      rw [if_neg hrex', Option.map_eq_none_iff, Option.or_eq_none_iff] at h
      exact .ite (fun _ => keeps_decodePrefixed _) fun _ => keeps_decodeOneByte h.1 h.2
  intro s hs hresult
  obtain hhalt | ⟨hregs, hmem⟩ := hkeeps s hs
  · rw [hhalt] at hresult
    obtain hresult | hresult := hresult <;> cases hresult
  · exact ⟨hregs.symm, hmem.symm⟩

/-- A step that does not complete leaves the guest as it was exactly if it is not at a stack
instruction that faults with its stack pointer moved. -/
theorem step_precise_iff (m : Machine) :
    Precise m ↔ ∀ i length, stackInstruction m = some (i, length) → ¬i.Slips m := by
  cases hat : stackInstruction m with
  | none => exact iff_of_true (precise_of_not_stack hat) fun _ _ h => by cases h
  | some p =>
      obtain ⟨i, length⟩ := p
      obtain ⟨⟨result, after⟩, ho, hmatches, hfault⟩ := stackStep_exact hat
      have hstep := kept_stackStep ho
      refine ⟨fun h i' length' heq hslips => ?_, fun h s hs hresult => ?_⟩
      · cases heq
        obtain ⟨hmisses, hnone⟩ := slips_iff.1 hslips
        obtain rfl := hfault.2 hnone
        rw [hnone] at hmatches
        exact hmatches.1 ⟨rfl, h _ hstep (.inl rfl)⟩ hmisses
      · have hnot := h i length rfl
        rw [hstep] at hs
        cases result with
        | none => cases hs
        | some e =>
            cases hs
            obtain rfl | rfl := hresult
            · have hnone := hfault.1 rfl
              have hmatch := hmatches.2 fun hmisses => hnot (slips_iff.2 ⟨hmisses, hnone⟩)
              rw [hnone] at hmatch
              exact hmatch.2
            · exact absurd rfl (supported_stackStep ho)

def pushAtEight : Machine := { codeAt [0x50] with gpr := fun _ => 8 }

/-- The stack pointer is zero after the fault. -/
theorem push_not_precise : (∃ s, Kept.step pushAtEight = .error s ∧ s.result = .fault ∧
    s.after.gpr rspIndex = 0) ∧ ¬Precise pushAtEight := by
  have hstep : ∃ s, Kept.step pushAtEight = .error s ∧ s.result = .fault ∧
      s.after.gpr rspIndex = 0 := ⟨_, rfl, rfl, rfl⟩
  refine ⟨hstep, fun h => ?_⟩
  obtain ⟨s, hs, hresult, hzero⟩ := hstep
  have hsame : s.after.gpr rspIndex = pushAtEight.gpr rspIndex :=
    congrArg (fun r => r.gpr rspIndex) (h s hs (.inl hresult)).1
  rw [hzero] at hsame
  cases hsame

end Precise

end OrbitConsole.Cpu
