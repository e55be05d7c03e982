import OrbitConsole.Core.Cpu.Sse
import OrbitConsole.Core.Cpu.StackSpec

/-!
# Moves on xmm registers by the interpreter

They leave the registers and the memory as the processor does, except that a scalar load from
memory keeps the other bytes of its register.
-/

namespace OrbitConsole.Cpu

variable {m m' : Machine} {i : SseInstruction}

theorem SameState.trans {m₁ m₂ m₃ : Machine} (h₁ : SameState m₁ m₂) (h₂ : SameState m₂ m₃) :
    SameState m₁ m₃ := ⟨h₁.1.trans h₂.1, h₁.2.trans h₂.2⟩

theorem SameState.symm {m₁ m₂ : Machine} (h : SameState m₁ m₂) : SameState m₂ m₁ :=
  ⟨h.1.symm, h.2.symm⟩

namespace SseInstruction

/-- The operand as the interpreter reads it. -/
def operand (i : SseInstruction) (m : Machine) : ModRm := modrmAt m i.operand_at i.rex

theorem operand_address (h : i.inMemory m) : (i.operand m).address = i.address m := if_neg h

theorem operand_has_memory : (i.operand m).has_memory = true ↔ i.inMemory m := decide_eq_true_iff

theorem readXmmOperand_eq_ok {size : ℕ} {tmp : ℕ → Byte} {m₁ : Machine}
    (h : m.readXmmOperand (i.operand m) size = .ok (tmp, m₁)) :
    (∀ k < size, tmp k = i.source m k) ∧ (∀ k, ¬k < size → tmp k = 0) ∧
      ∃ accesses, m₁ = { m with accesses := accesses } := by
  unfold Machine.readXmmOperand at h
  by_cases hmem : i.inMemory m
  · rw [if_pos (operand_has_memory.2 hmem), operand_address hmem] at h
    split at h
    · cases h
    · cases h
      refine ⟨fun k hk => ?_, fun k hk => if_neg hk, _, rfl⟩
      rw [source, if_pos hmem]
      exact if_pos hk
  · rw [if_neg fun h => hmem (operand_has_memory.1 h)] at h
    split at h
    · cases h
    · cases h
      refine ⟨fun k hk => ?_, fun k hk => if_neg hk, m.accesses, rfl⟩
      rw [source, if_neg hmem]
      exact if_pos hk

theorem writeXmmOperand_eq_ok {size : ℕ}
    (h : m.writeXmmOperand (i.operand m) (m.xmm (i.operand m).reg) size = .ok m') :
    SameState (m'.setRip (i.next m)) (i.stored m size) := by
  unfold Machine.writeXmmOperand at h
  unfold stored
  by_cases hmem : i.inMemory m
  · rw [if_pos (operand_has_memory.2 hmem), operand_address hmem] at h
    rw [if_pos hmem]
    split at h
    · cases h
    · cases h
      exact ⟨rfl, rfl⟩
  · rw [if_neg fun h => hmem (operand_has_memory.1 h)] at h
    rw [if_neg hmem]
    split at h
    · cases h
    · cases h
      exact ⟨rfl, rfl⟩

theorem sameState_loaded {value value' : ℕ → Byte} (accesses : List U64)
    (h : ∀ k, value k = value' k) :
    SameState ((({ m with accesses := accesses } : Machine).setXmm (i.operand m).reg value).setRip
      (i.next m)) (i.loaded m value') := by
  obtain rfl := funext h
  exact ⟨rfl, rfl⟩

theorem xmmMove_load {op2 pre : Byte} (hop : op2 = 0x10 ∨ op2 = 0x28 ∨ op2 = 0x6f)
    (h : m.xmmMove op2 pre (i.operand m) (i.next m) = .ok m') :
    ¬(op2 = 0x6f ∧ pre ≠ prefix66) ∧ SameState m' (i.loaded m fun k =>
      if k < Machine.transferSize op2 pre then i.source m k else m.xmm (i.reg m) k) := by
  have hxor : ¬(op2 = 0x57 ∨ op2 = 0xef) := by
    obtain rfl | rfl | rfl := hop <;> decide
  unfold Machine.xmmMove at h
  rw [if_neg hxor, if_pos hop] at h
  split at h
  · cases h
  rename_i hsupported
  obtain ⟨⟨tmp, m₁⟩, hread, h⟩ := bind_eq_ok.1 h
  obtain ⟨hbytes, -, accesses, rfl⟩ := readXmmOperand_eq_ok hread
  cases h
  refine ⟨hsupported, sameState_loaded accesses fun k => ?_⟩
  split
  · exact hbytes k ‹_›
  · rfl

theorem xmmMove_store {op2 pre : Byte} (hop : op2 = 0x11 ∨ op2 = 0x29 ∨ op2 = 0x7f)
    (h : m.xmmMove op2 pre (i.operand m) (i.next m) = .ok m') :
    ¬(op2 = 0x7f ∧ pre ≠ prefix66) ∧
      SameState m' (i.stored m (Machine.transferSize op2 pre)) := by
  have hxor : ¬(op2 = 0x57 ∨ op2 = 0xef) ∧ ¬(op2 = 0x10 ∨ op2 = 0x28 ∨ op2 = 0x6f) := by
    obtain rfl | rfl | rfl := hop <;> decide
  unfold Machine.xmmMove at h
  rw [if_neg hxor.1, if_neg hxor.2] at h
  split at h
  · cases h
  rename_i hsupported
  obtain ⟨m₁, hwrite, h⟩ := bind_eq_ok.1 h
  cases h
  exact ⟨hsupported, writeXmmOperand_eq_ok hwrite⟩

theorem xmmMove_xor {op2 pre : Byte} (hop : op2 = 0x57 ∨ op2 = 0xef)
    (h : m.xmmMove op2 pre (i.operand m) (i.next m) = .ok m') :
    SameState m' (i.loaded m fun k =>
      if k < 16 then m.xmm (i.reg m) k ^^^ i.source m k else m.xmm (i.reg m) k) := by
  unfold Machine.xmmMove at h
  rw [if_pos hop] at h
  split at h
  · cases h
  obtain ⟨⟨tmp, m₁⟩, hread, h⟩ := bind_eq_ok.1 h
  obtain ⟨hbytes, hzero, accesses, rfl⟩ := readXmmOperand_eq_ok hread
  cases h
  refine sameState_loaded accesses fun k => ?_
  split
  · rw [hbytes k ‹_›]
    rfl
  · rw [hzero k ‹_›]
    exact BitVec.xor_zero

theorem sameState_loaded_iff {value value' : ℕ → Byte} :
    SameState (i.loaded m value) (i.loaded m value') ↔ value = value' := by
  refine ⟨fun h => ?_, fun h => by rw [h]; exact ⟨rfl, rfl⟩⟩
  have hregs := congrArg (fun r => r.xmm (i.reg m)) h.1
  simpa only [loaded, Function.update_self] using hregs

theorem scalarLoad_iff {size : ℕ} (hoperation : i.operation = .scalarLoad size) :
    ((fun k => if k < size then i.source m k else m.xmm (i.reg m) k) = fun k =>
      if k < size then i.source m k
      else if i.inMemory m ∧ k < 16 then 0 else m.xmm (i.reg m) k) ↔ ¬i.KeepsUpper m := by
  constructor
  · rintro h ⟨size', hsize', hmem, k, hk, hk16, hne⟩
    rw [hoperation] at hsize'
    cases hsize'
    have hbyte := congrFun h k
    rw [if_neg (by omega), if_neg (by omega), if_pos ⟨hmem, hk16⟩] at hbyte
    exact hne hbyte
  · intro h
    funext k
    split
    · rfl
    · split
      · rename_i hk hclear
        by_contra hne
        exact h ⟨size, hoperation, hclear.1, k, by omega, hclear.2, hne⟩
      · rfl

end SseInstruction

theorem sseOperation_eq_some {pre op2 : Byte} {o : SseOperation}
    (h : sseOperation pre op2 = some o) :
    (op2 = 0x10 ∧ o = .scalarLoad (Machine.transferSize op2 pre)) ∨
    (op2 = 0x11 ∧ o = .scalarStore (Machine.transferSize op2 pre)) ∨
    ((op2 = 0x10 ∨ op2 = 0x28 ∨ op2 = 0x6f) ∧ Machine.transferSize op2 pre = 16 ∧
      ∃ aligned, o = .load aligned) ∨
    ((op2 = 0x11 ∨ op2 = 0x29 ∨ op2 = 0x7f) ∧ Machine.transferSize op2 pre = 16 ∧
      ∃ aligned, o = .store aligned) ∨
    (op2 = 0x57 ∨ op2 = 0xef) ∧ o = .xor := by
  have hscalar : ∀ op2 : Byte, op2 = 0x10 ∨ op2 = 0x11 → Machine.transferSize op2 pre =
      if pre = prefixF3 then 4 else if pre = prefixF2 then 8 else 16 := by
    rintro op2 (rfl | rfl) <;> rw [Machine.transferSize, if_neg (by decide)]
  have hwhole : op2 = 0x28 ∨ op2 = 0x6f ∨ op2 = 0x29 ∨ op2 = 0x7f →
      Machine.transferSize op2 pre = 16 := fun hop => by rw [Machine.transferSize, if_pos hop]
  have hload : op2 = 0x28 ∨ op2 = 0x6f → (∃ aligned, o = .load aligned) → _ := fun hop ho =>
    (⟨.inr hop, hwhole (hop.imp_right .inl), ho⟩ : (op2 = 0x10 ∨ op2 = 0x28 ∨ op2 = 0x6f) ∧
      Machine.transferSize op2 pre = 16 ∧ ∃ aligned, o = .load aligned)
  have hstore : op2 = 0x29 ∨ op2 = 0x7f → (∃ aligned, o = .store aligned) → _ := fun hop ho =>
    (⟨.inr hop, hwhole (.inr (.inr hop)), ho⟩ : (op2 = 0x11 ∨ op2 = 0x29 ∨ op2 = 0x7f) ∧
      Machine.transferSize op2 pre = 16 ∧ ∃ aligned, o = .store aligned)
  unfold sseOperation at h
  by_cases h10 : op2 = 0x10
  · rw [if_pos h10] at h
    rw [hscalar op2 (.inl h10)]
    by_cases h3 : pre = prefixF3
    · rw [if_pos h3] at h ⊢
      exact .inl ⟨h10, (Option.some.inj h).symm⟩
    by_cases h2 : pre = prefixF2
    · rw [if_neg h3, if_pos h2] at h ⊢
      exact .inl ⟨h10, (Option.some.inj h).symm⟩
    · rw [if_neg h3, if_neg h2] at h ⊢
      exact .inr (.inr (.inl ⟨.inl h10, rfl, _, (Option.some.inj h).symm⟩))
  by_cases h11 : op2 = 0x11
  · rw [if_neg h10, if_pos h11] at h
    rw [hscalar op2 (.inr h11)]
    by_cases h3 : pre = prefixF3
    · rw [if_pos h3] at h ⊢
      exact .inr (.inl ⟨h11, (Option.some.inj h).symm⟩)
    by_cases h2 : pre = prefixF2
    · rw [if_neg h3, if_pos h2] at h ⊢
      exact .inr (.inl ⟨h11, (Option.some.inj h).symm⟩)
    · rw [if_neg h3, if_neg h2] at h ⊢
      exact .inr (.inr (.inr (.inl ⟨.inl h11, rfl, _, (Option.some.inj h).symm⟩)))
  rw [if_neg h10, if_neg h11] at h
  by_cases hop : op2 = 0x6f ∧ pre = prefixF3
  · rw [if_pos hop] at h
    exact .inr (.inr (.inl (hload (.inr hop.1) ⟨_, (Option.some.inj h).symm⟩)))
  rw [if_neg hop] at h
  by_cases hop : op2 = 0x7f ∧ pre = prefixF3
  · rw [if_pos hop] at h
    exact .inr (.inr (.inr (.inl (hstore (.inr hop.1) ⟨_, (Option.some.inj h).symm⟩))))
  rw [if_neg hop] at h
  by_cases hpre : pre = prefixF3 ∨ pre = prefixF2
  · rw [if_pos hpre] at h
    cases h
  rw [if_neg hpre] at h
  by_cases hop : op2 = 0x28
  · rw [if_pos hop] at h
    exact .inr (.inr (.inl (hload (.inl hop) ⟨_, (Option.some.inj h).symm⟩)))
  rw [if_neg hop] at h
  by_cases hop : op2 = 0x29
  · rw [if_pos hop] at h
    exact .inr (.inr (.inr (.inl (hstore (.inl hop) ⟨_, (Option.some.inj h).symm⟩))))
  rw [if_neg hop] at h
  by_cases hop : op2 = 0x57
  · rw [if_pos hop] at h
    exact .inr (.inr (.inr (.inr ⟨.inl hop, (Option.some.inj h).symm⟩)))
  rw [if_neg hop] at h
  by_cases hpre : pre ≠ prefix66
  · rw [if_pos hpre] at h
    cases h
  rw [if_neg hpre] at h
  by_cases hop : op2 = 0x6f
  · rw [if_pos hop] at h
    exact .inr (.inr (.inl (hload (.inr hop) ⟨_, (Option.some.inj h).symm⟩)))
  rw [if_neg hop] at h
  by_cases hop : op2 = 0x7f
  · rw [if_pos hop] at h
    exact .inr (.inr (.inr (.inl (hstore (.inr hop) ⟨_, (Option.some.inj h).symm⟩))))
  rw [if_neg hop] at h
  by_cases hop : op2 = 0xef
  · rw [if_pos hop] at h
    exact .inr (.inr (.inr (.inr ⟨.inr hop, (Option.some.inj h).symm⟩)))
  · rw [if_neg hop] at h
    cases h

namespace SseInstruction

theorem xmmMove_iff (hop : sseOperation i.pre i.op2 = some i.operation)
    (h : m.xmmMove i.op2 i.pre (i.operand m) (i.next m) = .ok m') :
    (∀ r, i.execute m = some r → SameState m' r) ↔ ¬i.KeepsUpper m := by
  have hother : (∀ size, i.operation ≠ .scalarLoad size) →
      (∀ r, i.execute m = some r → SameState m' r) →
      ((∀ r, i.execute m = some r → SameState m' r) ↔ ¬i.KeepsUpper m) := fun hne hall =>
    iff_of_true hall fun ⟨size, hsize, _⟩ => hne size hsize
  obtain ⟨hop2, ho⟩ | ⟨hop2, ho⟩ | ⟨hop2, hsize, aligned, ho⟩ | ⟨hop2, hsize, aligned, ho⟩ |
    ⟨hop2, ho⟩ := sseOperation_eq_some hop
  · have hsame := (xmmMove_load (.inl hop2) h).2
    rw [← scalarLoad_iff ho, ← sameState_loaded_iff]
    simp only [execute, ho, Option.some.injEq, forall_eq']
    exact ⟨hsame.symm.trans, hsame.trans⟩
  · have hsame := (xmmMove_store (.inl hop2) h).2
    refine hother (fun size hs => by rw [ho] at hs; cases hs) fun r hr => ?_
    rw [execute, ho] at hr
    cases hr
    exact hsame
  · have hsame := (xmmMove_load hop2 h).2
    refine hother (fun size hs => by rw [ho] at hs; cases hs) fun r hr => ?_
    rw [hsize] at hsame
    simp only [execute, ho] at hr
    split at hr
    · cases hr
    · cases hr
      exact hsame
  · have hsame := (xmmMove_store hop2 h).2
    refine hother (fun size hs => by rw [ho] at hs; cases hs) fun r hr => ?_
    rw [hsize] at hsame
    simp only [execute, ho] at hr
    split at hr
    · cases hr
    · cases hr
      exact hsame
  · have hsame := xmmMove_xor hop2 h
    refine hother (fun size hs => by rw [ho] at hs; cases hs) fun r hr => ?_
    simp only [execute, ho] at hr
    split at hr
    · cases hr
    · cases hr
      exact hsame

end SseInstruction

section Step

variable {pre : Byte} {opcode_at : U64}

theorem isXmmMove_of_sseOperation {op2 : Byte} {o : SseOperation}
    (h : sseOperation pre op2 = some o) : ¬(0x80 ≤ op2 ∧ op2 ≤ 0x8f) ∧
      ¬(op2 = 0x05 ∨ op2 = 0x0b) ∧ op2 ≠ 0x1f ∧ Machine.isXmmMove op2 = true := by
  obtain ⟨rfl, -⟩ | ⟨rfl, -⟩ | ⟨rfl | rfl | rfl, -⟩ | ⟨rfl | rfl | rfl, -⟩ | ⟨rfl | rfl, -⟩ :=
    sseOperation_eq_some h <;> decide

theorem decodeTwoByte_sse (rex : Option Byte)
    (hat : sseAtOpcode m pre ((rex.map decodeRexPrefix).getD {}) opcode_at = some i)
    (h : m.decodeTwoByte opcode_at pre rex = .ok m') :
    m.mem opcode_at = 0x0f ∧ sseOperation i.pre i.op2 = some i.operation ∧
      m.xmmMove i.op2 i.pre (i.operand m) (i.next m) = .ok m' := by
  unfold sseAtOpcode at hat
  split at hat
  · rename_i hescape
    obtain ⟨o, ho, rfl⟩ := Option.map_eq_some_iff.1 hat
    obtain ⟨hjcc, hsuspend, hnop, hmove⟩ := isXmmMove_of_sseOperation ho
    unfold Machine.decodeTwoByte at h
    obtain ⟨op2, hop2, h⟩ := bind_eq_ok.1 h
    obtain ⟨-, rfl⟩ := fetch8_eq_ok.1 hop2
    rw [if_neg hjcc, if_neg hsuspend, if_neg hnop, if_pos hmove] at h
    obtain ⟨modrm, hmodrm, h⟩ := bind_eq_ok.1 h
    rw [add_three] at hmodrm
    obtain rfl := decodeModRm_eq_ok hmodrm
    exact ⟨hescape, ho, h⟩
  · cases hat

theorem escape_of_sseAtOpcode {prefixes : RexPrefix}
    (hat : sseAtOpcode m pre prefixes opcode_at = some i) : m.mem opcode_at = 0x0f := by
  unfold sseAtOpcode at hat
  split at hat
  · assumption
  · cases hat

theorem step_sse (hat : sseInstruction m = some i) (h : m.step = .ok m') :
    sseOperation i.pre i.op2 = some i.operation ∧
      (resetAccesses m).xmmMove i.op2 i.pre (i.operand (resetAccesses m))
        (i.next (resetAccesses m)) = .ok m' := by
  replace hat : sseInstruction (resetAccesses m) = some i := hat
  replace h : (do
      let op ← (resetAccesses m).fetch8 (resetAccesses m).rip
      if 0x70 ≤ op ∧ op ≤ 0x7f then (resetAccesses m).decodeJccShort op
      else if 0x40 ≤ op ∧ op ≤ 0x4f then (resetAccesses m).decodeRex op
      else if op = prefix66 ∨ op = prefixF2 ∨ op = prefixF3 then
        (resetAccesses m).decodePrefixed op
      else (resetAccesses m).decodeOneByte op) = .ok m' := h
  generalize resetAccesses m = m at hat h ⊢
  obtain ⟨op, hop, h⟩ := bind_eq_ok.1 h
  obtain ⟨-, rfl⟩ := fetch8_eq_ok.1 hop
  unfold sseInstruction at hat
  by_cases hlegacy : isLegacyPrefix (m.mem m.rip) = true
  · rw [if_pos hlegacy] at hat
    have hprefix := (isLegacyPrefix_iff _).1 hlegacy
    have hnot : ¬(0x70 ≤ m.mem m.rip ∧ m.mem m.rip ≤ 0x7f) ∧
        ¬(0x40 ≤ m.mem m.rip ∧ m.mem m.rip ≤ 0x4f) := by
      obtain heq | heq | heq := hprefix <;> rw [heq] <;> decide
    rw [if_neg hnot.1, if_neg hnot.2, if_pos hprefix] at h
    unfold Machine.decodePrefixed at h
    obtain ⟨op, hop, h⟩ := bind_eq_ok.1 h
    obtain ⟨-, rfl⟩ := fetch8_eq_ok.1 hop
    unfold sseAfterPrefix at hat
    by_cases hrex : isRexByte (m.mem (m.rip + 1)) = true
    · rw [if_pos hrex, ← add_two] at hat
      rw [if_pos ((isRexByte_iff _).1 hrex)] at h
      obtain ⟨op, hop, h⟩ := bind_eq_ok.1 h
      obtain ⟨-, rfl⟩ := fetch8_eq_ok.1 hop
      dsimp only [bind, Except.bind, pure, Except.pure] at h
      rw [if_pos (escape_of_sseAtOpcode hat)] at h
      exact (decodeTwoByte_sse (some (m.mem (m.rip + 1))) hat h).2
    · rw [if_neg hrex] at hat
      rw [if_neg fun h => hrex ((isRexByte_iff _).2 h)] at h
      dsimp only [bind, Except.bind, pure, Except.pure] at h
      rw [if_pos (escape_of_sseAtOpcode hat)] at h
      exact (decodeTwoByte_sse none hat h).2
  · rw [if_neg hlegacy] at hat
    have hprefix : ¬(m.mem m.rip = prefix66 ∨ m.mem m.rip = prefixF2 ∨ m.mem m.rip = prefixF3) :=
      fun h => hlegacy ((isLegacyPrefix_iff _).2 h)
    unfold sseAfterPrefix at hat
    by_cases hrex : isRexByte (m.mem m.rip) = true
    · rw [if_pos hrex] at hat
      have hrange := (isRexByte_iff _).1 hrex
      have hjcc : ¬(0x70 ≤ m.mem m.rip ∧ m.mem m.rip ≤ 0x7f) := fun hj =>
        absurd (BitVec.le_trans hj.1 hrange.2) (by decide)
      rw [if_neg hjcc, if_pos hrange] at h
      unfold Machine.decodeRex at h
      obtain ⟨op, hop, h⟩ := bind_eq_ok.1 h
      obtain ⟨-, rfl⟩ := fetch8_eq_ok.1 hop
      rw [if_pos (escape_of_sseAtOpcode hat)] at h
      exact (decodeTwoByte_sse (some (m.mem m.rip)) hat h).2
    · rw [if_neg hrex] at hat
      have hescape := escape_of_sseAtOpcode hat
      have hjcc : ¬(0x70 ≤ m.mem m.rip ∧ m.mem m.rip ≤ 0x7f) := by
        rw [hescape]
        decide
      rw [if_neg hjcc, if_neg fun h => hrex ((isRexByte_iff _).2 h), if_neg hprefix, hescape] at h
      exact (decodeTwoByte_sse none hat h).2

theorem sse_execute_resetAccesses :
    i.execute (resetAccesses m) = (i.execute m).map resetAccesses := by
  have hstored : ∀ size, i.stored (resetAccesses m) size = resetAccesses (i.stored m size) := by
    intro size
    unfold SseInstruction.stored
    split <;> rename_i hmem
    · rw [if_pos (show i.inMemory m from hmem)]
      rfl
    · rw [if_neg (show ¬i.inMemory m from hmem)]
      rfl
  unfold SseInstruction.execute
  cases i.operation with
  | scalarLoad size => rfl
  | scalarStore size => exact congrArg some (hstored size)
  | load aligned =>
      dsimp only
      split <;> rename_i hfault
      · rw [if_pos (show aligned = true ∧ i.misaligned m from hfault)]
        rfl
      · rw [if_neg (show ¬(aligned = true ∧ i.misaligned m) from hfault)]
        rfl
  | store aligned =>
      dsimp only
      split <;> rename_i hfault
      · rw [if_pos (show aligned = true ∧ i.misaligned m from hfault)]
        rfl
      · rw [if_neg (show ¬(aligned = true ∧ i.misaligned m) from hfault)]
        exact congrArg some (hstored 16)
  | xor =>
      dsimp only
      split <;> rename_i hfault
      · rw [if_pos (show i.misaligned m from hfault)]
        rfl
      · rw [if_neg (show ¬i.misaligned m from hfault)]
        rfl

theorem execute_eq_none : i.execute m = none ↔ i.faults m := by
  unfold SseInstruction.execute SseInstruction.faults SseInstruction.needsAligned
  cases i.operation <;> simp

/-- A step at one of the instructions leaves the registers and the memory as the processor
does exactly if it is not a load of a scalar from memory into a register with other bytes that
are not zero, and the processor does not fault. -/
theorem sse_moves_iff (hat : sseInstruction m = some i) (h : m.step = .ok m') :
    (∃ r, i.execute m = some r ∧ SameState m' r) ↔ ¬i.KeepsUpper m ∧ ¬i.faults m := by
  obtain ⟨hop, hmove⟩ := step_sse hat h
  have hiff := SseInstruction.xmmMove_iff hop hmove
  rw [sse_execute_resetAccesses] at hiff
  have hiff : (∀ r, i.execute m = some r → SameState m' r) ↔ ¬i.KeepsUpper m := by
    refine Iff.trans ⟨fun hall r hr => ?_, fun hall r hr => ?_⟩ hiff
    · obtain ⟨r', hr', rfl⟩ := Option.map_eq_some_iff.1 hr
      exact hall r' hr'
    · exact hall (resetAccesses r) (Option.map_eq_some_iff.2 ⟨r, hr, rfl⟩)
  rw [← hiff, ← execute_eq_none]
  cases i.execute m <;> simp

def loadOverOnes : Machine := { codeAt [0xf3, 0x0f, 0x10, 0x00] with xmm := fun _ _ => 0xff }

/-- `movaps xmm1, xmm2`. -/
def registerMove : Machine := codeAt [0x0f, 0x28, 0xca]

theorem sse_moves_iff_movaps : ∃ i m', sseInstruction registerMove = some i ∧
    registerMove.step = .ok m' ∧ ∃ r, i.execute registerMove = some r ∧ SameState m' r := by
  refine ⟨_, _, rfl, rfl, (sse_moves_iff rfl rfl).2 ⟨?_, fun hfaults => hfaults.2.1 rfl⟩⟩
  rintro ⟨size, hsize, -⟩
  cases hsize

/-- The fifth byte is kept, and the processor clears it. -/
theorem movss_keeps_upper : ∃ i m' r, sseInstruction loadOverOnes = some i ∧
    loadOverOnes.step = .ok m' ∧ i.execute loadOverOnes = some r ∧ m'.xmm 0 4 = 0xff ∧
      r.xmm 0 4 = 0 ∧ ¬SameState m' r := by
  refine ⟨_, _, _, rfl, rfl, rfl, rfl, rfl, fun h => ?_⟩
  have hbyte := congrArg (fun r => r.xmm 0 4) h.1
  revert hbyte
  decide

end Step

end OrbitConsole.Cpu
