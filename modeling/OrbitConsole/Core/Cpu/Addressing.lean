import Mathlib.Algebra.Group.Nat.Defs
import OrbitConsole.Core.Cpu.Architecture

/-!
# The interpreter addresses memory like the processor

Every step that continues reads and writes the operand of its instruction and leaves `rip`
where the instruction goes, except that an operand relative to `rip` is addressed as if no
immediate followed it.
-/

namespace OrbitConsole.Cpu

/-! ### Computations that continue -/

section Except

variable {ε α β : Type}

theorem bind_eq_ok {x : Except ε α} {f : α → Except ε β} {b : β} :
    (x >>= f) = .ok b ↔ ∃ a, x = .ok a ∧ f a = .ok b := by
  cases x with
  | error e => simp [bind, Except.bind]
  | ok a => simp [bind, Except.bind]

@[simp]
theorem pure_eq_ok {a b : α} : (pure a : Except ε α) = .ok b ↔ a = b := by
  simp [pure, Except.pure]

@[simp]
theorem throw_ne_ok {e : ε} {b : α} : ¬ (throw e : Except ε α) = .ok b := by
  simp [throw, throwThe, MonadExceptOf.throw]

end Except

section Machine

variable {m m' : Machine} {address : U64} {size : ℕ}

theorem fetch_eq_ok {value : U64} :
    m.fetch address size = .ok value ↔ address ≠ 0 ∧ load m.mem address size = value := by
  simp only [Machine.fetch]
  split
  · simp_all
  · next hne => simp only [pure_eq_ok, ne_eq, hne, not_false_eq_true, true_and]

theorem fetch8_eq_ok {value : Byte} :
    m.fetch8 address = .ok value ↔ address ≠ 0 ∧ m.mem address = value := by
  simp only [Machine.fetch8]
  split
  · simp_all
  · next hne => simp only [pure_eq_ok, ne_eq, hne, not_false_eq_true, true_and]

/-! ### ModRM operands -/

theorem load_one (mem : Memory) (address : U64) :
    (load mem address 1).setWidth 8 = mem address := by
  ext i hi
  simp [load]

theorem signed_one (mem : Memory) (address : U64) :
    signed mem address 1 = (mem address).signExtend 64 := by
  simp [signed, load_one]

theorem signed_four (mem : Memory) (address : U64) :
    signed mem address 4 = ((load mem address 4).setWidth 32).signExtend 64 := rfl

/-- The operand of a ModRM byte of an instruction that ends behind the operand. -/
def modrmAt (m : Machine) (modrm_at : U64) (rex : RexPrefix) : ModRm where
  mod := modOf (m.mem modrm_at)
  reg := extend (lowReg (m.mem modrm_at)) rex.r
  rm := extend (lowRm (m.mem modrm_at)) rex.b
  length := modrmSize m.mem modrm_at
  has_memory := modOf (m.mem modrm_at) ≠ 3
  address :=
    if modOf (m.mem modrm_at) = 3 then 0
    else effectiveAddress m modrm_at rex (modrm_at + BitVec.ofNat 64 (modrmSize m.mem modrm_at))

theorem modOf_le (raw : Byte) : modOf raw ≤ 3 := by
  revert raw; decide

theorem decodeModRm_eq_ok {rex : RexPrefix} {modrm : ModRm}
    (h : decodeModRm m (address + 1) rex = .ok modrm) : modrm = modrmAt m address rex := by
  have hsub : address + 1 - 1 = address := BitVec.add_sub_cancel address 1
  have hmodOf (raw : Byte) : ((raw >>> 6) &&& 3).toNat = modOf raw := rfl
  have hlowReg (raw : Byte) : ((raw >>> 3) &&& 7).toNat = lowReg raw := rfl
  have hlowRm (raw : Byte) : (raw &&& 7).toNat = lowRm raw := rfl
  simp only [decodeModRm, hsub, bind_eq_ok, fetch8_eq_ok] at h
  obtain ⟨_, ⟨-, rfl⟩, h⟩ := h
  have hle := modOf_le (m.mem address)
  simp only [hmodOf, hlowReg, hlowRm] at h
  by_cases hmod : modOf (m.mem address) = 3
  · simp only [hmod, if_true, pure_eq_ok] at h
    simp [← h, modrmAt, modrmSize, hmod]
  rw [if_neg hmod] at h
  obtain hmod | hmod | hmod : modOf (m.mem address) = 0 ∨ modOf (m.mem address) = 1 ∨
      modOf (m.mem address) = 2 := by omega
  all_goals
    by_cases hsib : lowRm (m.mem address) = 4
    · simp only [hmod, hsib, if_true, bind_eq_ok, fetch8_eq_ok] at h
      obtain ⟨_, ⟨-, rfl⟩, h⟩ := h
      by_cases hbase : lowRm (m.mem (address + 1)) = 5
      all_goals
        simp only [hbase, and_true, and_false, and_self, reduceIte, Nat.reduceEqDiff, bind_eq_ok,
          pure_eq_ok, fetch_eq_ok, fetch8_eq_ok, exists_eq_left', and_assoc, exists_and_left] at h
        simp only [BitVec.ofNat_eq_ofNat] at hbase
        try replace h := h.2
        simp [← h, modrmAt, modrmSize, effectiveAddress, hmod, hsib, hbase, signed_one,
          signed_four, sibIndex]
        try omega
    · by_cases hbase : lowRm (m.mem address) = 5
      all_goals
        simp only [hmod, hsib, hbase, and_true, and_false, and_self, reduceIte, Nat.reduceEqDiff,
          bind_eq_ok, pure_eq_ok, fetch_eq_ok, fetch8_eq_ok, exists_eq_left', and_assoc,
          exists_and_left] at h
        try replace h := h.2
        simp [← h, modrmAt, modrmSize, effectiveAddress, hmod, hsib, hbase, signed_one, signed_four]
        all_goals first | omega | exact ⟨by omega, by bv_omega⟩

/-- A part of a step that touches no memory but the operand. -/
structure Uses (modrm : ModRm) (m m' : Machine) : Prop where
  rip : m'.rip = m.rip
  operand : ∀ a ∈ m'.accesses, a ∈ m.accesses ∨ modrm.has_memory = true ∧ a = modrm.address
  kept : ∀ a ∈ m.accesses, a ∈ m'.accesses

variable {modrm : ModRm} {m₁ m₂ : Machine} {width : ℕ} {value : U64}

theorem Uses.refl : Uses modrm m m := ⟨rfl, fun _ ha => .inl ha, fun _ ha => ha⟩

theorem Uses.trans (h₁ : Uses modrm m m₁) (h₂ : Uses modrm m₁ m₂) : Uses modrm m m₂ where
  rip := h₂.rip.trans h₁.rip
  operand a ha := (h₂.operand a ha).elim (h₁.operand a) .inr
  kept a ha := h₂.kept a (h₁.kept a ha)

theorem Uses.of_eq (hrip : m'.rip = m.rip) (hacc : m'.accesses = m.accesses) :
    Uses modrm m m' :=
  ⟨hrip, fun _ ha => .inl (hacc ▸ ha), fun _ ha => hacc ▸ ha⟩

theorem Uses.of_access (hmem : modrm.has_memory = true) (hrip : m'.rip = m.rip)
    (hacc : m'.accesses = modrm.address :: m.accesses) : Uses modrm m m' where
  rip := hrip
  operand a ha := by
    rw [hacc, List.mem_cons] at ha
    exact ha.elim (fun ha => .inr ⟨hmem, ha⟩) .inl
  kept a ha := by rw [hacc]; exact List.mem_cons_of_mem _ ha

theorem readMemory_eq_ok (h : m.readMemory address size = .ok (value, m')) :
    value = load m.mem address size ∧ m' = { m with accesses := address :: m.accesses } := by
  simp only [Machine.readMemory] at h
  split at h
  · simp at h
  · simp only [pure_eq_ok, Prod.mk.injEq] at h
    exact ⟨h.1.symm, h.2.symm⟩

theorem writeMemory_eq_ok (h : m.writeMemory address size value = .ok m') :
    m' = { m with mem := store m.mem address size value, accesses := address :: m.accesses } := by
  simp only [Machine.writeMemory] at h
  split at h
  · simp at h
  · exact (pure_eq_ok.1 h).symm

theorem readRm_uses (h : m.readRm modrm width = .ok (value, m')) :
    Uses modrm m m' ∧ (modrm.has_memory = true → modrm.address ∈ m'.accesses) := by
  simp only [Machine.readRm] at h
  split at h
  · next hmem =>
    obtain ⟨-, rfl⟩ := readMemory_eq_ok h
    exact ⟨.of_access hmem rfl rfl, fun _ => List.mem_cons_self ..⟩
  · next hmem =>
    simp only [pure_eq_ok, Prod.mk.injEq] at h
    obtain ⟨-, rfl⟩ := h
    exact ⟨.refl, fun h => absurd h hmem⟩

theorem writeGpr_rip (m : Machine) (reg width : ℕ) (value : U64) :
    (m.writeGpr reg width value).rip = m.rip := by
  simp only [Machine.writeGpr]
  split_ifs <;> rfl

theorem writeGpr_accesses (m : Machine) (reg width : ℕ) (value : U64) :
    (m.writeGpr reg width value).accesses = m.accesses := by
  simp only [Machine.writeGpr]
  split_ifs <;> rfl

theorem updateArithmeticFlags_eq (m : Machine) (lhs rhs result : U64) (width : ℕ)
    (subtract : Bool) :
    m.updateArithmeticFlags lhs rhs result width subtract =
      { m with rflags := (m.updateArithmeticFlags lhs rhs result width subtract).rflags } := by
  simp only [Machine.updateArithmeticFlags]
  split_ifs <;> rfl

theorem writeRm_uses (h : m.writeRm modrm width value = .ok m') :
    Uses modrm m m' ∧ (modrm.has_memory = true → modrm.address ∈ m'.accesses) := by
  simp only [Machine.writeRm] at h
  split at h
  · next hmem =>
    obtain rfl := writeMemory_eq_ok h
    exact ⟨.of_access hmem rfl rfl, fun _ => List.mem_cons_self ..⟩
  · next hmem =>
    rw [pure_eq_ok] at h
    subst h
    exact ⟨.of_eq (writeGpr_rip ..) (writeGpr_accesses ..), fun h => absurd h hmem⟩

theorem uses_updateArithmeticFlags (lhs rhs result : U64) (subtract : Bool) :
    Uses modrm m (m.updateArithmeticFlags lhs rhs result width subtract) := by
  rw [updateArithmeticFlags_eq]
  exact .of_eq rfl rfl

theorem uses_updateLogicFlags (result : U64) :
    Uses modrm m (m.updateLogicFlags result width) := .of_eq rfl rfl

theorem uses_writeGpr (reg : ℕ) : Uses modrm m (m.writeGpr reg width value) :=
  .of_eq (writeGpr_rip ..) (writeGpr_accesses ..)

theorem arithmetic_uses {op : Byte} (h : m.arithmetic op modrm width = .ok m') :
    Uses modrm m m' := by
  simp only [Machine.arithmetic, bind_eq_ok] at h
  obtain ⟨⟨rm, m₁⟩, hread, h⟩ := h
  have hu := (readRm_uses hread).1
  -- one branch of the opcode after another
  by_cases h01 : op = 0x01
  · rw [if_pos h01] at h
    simp only [bind_eq_ok, pure_eq_ok] at h
    obtain ⟨m₂, hwrite, rfl⟩ := h
    exact hu.trans ((writeRm_uses hwrite).1.trans (uses_updateArithmeticFlags ..))
  rw [if_neg h01] at h
  by_cases h03 : op = 0x03
  · rw [if_pos h03, pure_eq_ok] at h
    subst h
    exact hu.trans ((uses_writeGpr _).trans (uses_updateArithmeticFlags ..))
  rw [if_neg h03] at h
  by_cases h29 : op = 0x29
  · rw [if_pos h29] at h
    simp only [bind_eq_ok, pure_eq_ok] at h
    obtain ⟨m₂, hwrite, rfl⟩ := h
    exact hu.trans ((writeRm_uses hwrite).1.trans (uses_updateArithmeticFlags ..))
  rw [if_neg h29] at h
  by_cases h2b : op = 0x2b
  · rw [if_pos h2b, pure_eq_ok] at h
    subst h
    exact hu.trans ((uses_writeGpr _).trans (uses_updateArithmeticFlags ..))
  rw [if_neg h2b] at h
  by_cases h31 : op = 0x31
  · rw [if_pos h31] at h
    simp only [bind_eq_ok, pure_eq_ok] at h
    obtain ⟨m₂, hwrite, rfl⟩ := h
    exact hu.trans ((writeRm_uses hwrite).1.trans (uses_updateLogicFlags _))
  rw [if_neg h31] at h
  by_cases h39 : op = 0x39
  · rw [if_pos h39, pure_eq_ok] at h
    subst h
    exact hu.trans (uses_updateArithmeticFlags ..)
  rw [if_neg h39] at h
  by_cases h3b : op = 0x3b
  · rw [if_pos h3b, pure_eq_ok] at h
    subst h
    exact hu.trans (uses_updateArithmeticFlags ..)
  rw [if_neg h3b] at h
  by_cases htest : op = 0x84 ∨ op = 0x85
  · rw [if_pos htest, pure_eq_ok] at h
    subst h
    exact hu.trans (uses_updateLogicFlags _)
  rw [if_neg htest] at h
  by_cases h89 : op = 0x89
  · rw [if_pos h89] at h
    exact hu.trans (writeRm_uses h).1
  rw [if_neg h89] at h
  by_cases h8b : op = 0x8b
  · rw [if_pos h8b, pure_eq_ok] at h
    subst h
    exact hu.trans (uses_writeGpr _)
  rw [if_neg h8b, pure_eq_ok] at h
  subst h
  exact hu

/-! ### The operand of an instruction -/

theorem effectiveAddress_of_not_ripRelative {modrm_at : U64} {rex : RexPrefix}
    (h : ¬ RipRelative m.mem modrm_at) (next next' : U64) :
    effectiveAddress m modrm_at rex next = effectiveAddress m modrm_at rex next' := by
  have h : ¬ (lowRm (m.mem modrm_at) = 5 ∧ modOf (m.mem modrm_at) = 0) := fun hr => h hr.symm
  simp only [effectiveAddress, if_neg h]

theorem effectiveAddress_of_ripRelative {modrm_at : U64} {rex : RexPrefix}
    (h : RipRelative m.mem modrm_at) (next : U64) :
    effectiveAddress m modrm_at rex next = next + signed m.mem (modrm_at + 1) 4 := by
  simp [effectiveAddress, h.1, h.2]

/-- The interpreter addresses the operand as the architecture says unless its displacement
counts from behind an immediate. -/
def Instruction.Correct (i : Instruction) (m m' : Machine) : Prop :=
  i.Addresses m m' ↔ ¬ i.RipRelativeBeforeImmediate m

variable {i : Instruction} {n : ℕ} {rip : U64}

theorem correct_of_addresses (hi : i.encoding.modrm = false ∨ i.encoding.immediate = 0)
    (h : i.Addresses m m') : i.Correct m m' :=
  iff_of_true h fun hr => hi.elim (by simp [hr.1]) hr.2.1

theorem correct_of_next (hflow : i.encoding.flow = .next)
    (hi : i.encoding.modrm = false ∨ i.encoding.immediate = 0) (hrip : m'.rip = i.next m)
    (hop : ∀ a ∈ m'.accesses, i.operandAddress m = some a) : i.Correct m m' :=
  correct_of_addresses hi
    { rip := by rw [hrip, Instruction.target, hflow]
      operands := hop
      return_address := by simp [hflow] }

theorem modrm_correct (he : i.encoding = ⟨true, n, .modrm, .next⟩) (hn : n < 2 ^ 64)
    (h₀ : m.accesses = []) (hu : Uses (modrmAt m i.operand_at i.rex) m m₁)
    (hread : n ≠ 0 → (modrmAt m i.operand_at i.rex).has_memory = true →
      (modrmAt m i.operand_at i.rex).address ∈ m₁.accesses)
    (hrip : rip = i.next m) : i.Correct m (m₁.setRip rip) := by
  have hnext : i.next m =
      i.operand_at + BitVec.ofNat 64 (modrmSize m.mem i.operand_at) + BitVec.ofNat 64 n := by
    simp [Instruction.next, Instruction.immediateAt, he]
  by_cases hr : i.RipRelativeBeforeImmediate m
  · obtain ⟨hmodrm, hne, hrel⟩ := hr
    refine iff_of_false (fun ha => ?_) (not_not.2 ⟨hmodrm, hne, hrel⟩)
    rw [he] at hne
    have hmod : modOf (m.mem i.operand_at) ≠ 3 := by rw [hrel.1]; decide
    have hacc := ha.operands _ (hread hne (by simpa [modrmAt] using hmod))
    simp only [Instruction.operandAddress, he, modrmAt, if_neg hmod, Option.some.injEq,
      effectiveAddress_of_ripRelative hrel, hnext, BitVec.add_left_inj, BitVec.add_right_eq_self]
      at hacc
    have hzero : (BitVec.ofNat 64 n).toNat = 0 := by
      rw [hacc]
      rfl
    rw [BitVec.toNat_ofNat, Nat.mod_eq_of_lt hn] at hzero
    exact hne hzero
  · refine iff_of_true ⟨?_, fun a ha => ?_, by simp [he]⟩ hr
    · simp [Instruction.target, he, Machine.setRip, hrip]
    · obtain ha | ⟨hmem, rfl⟩ := hu.operand a ha
      · simp [h₀] at ha
      · have hmod : modOf (m.mem i.operand_at) ≠ 3 := by simpa [modrmAt] using hmem
        simp only [Instruction.operandAddress, he, modrmAt, if_neg hmod, Option.some.injEq]
        by_cases hrel : RipRelative m.mem i.operand_at
        · have hzero : n = 0 := by
            by_contra hne
            exact hr ⟨by rw [he], by rwa [he], hrel⟩
          rw [hnext, hzero]
          simp
        · exact effectiveAddress_of_not_ripRelative hrel _ _

theorem push_correct (he : i.encoding = ⟨false, n, .push, .next⟩) (h₀ : m.accesses = [])
    (h : m.push64 value = .ok m₁) (hrip : rip = i.next m) : i.Correct m (m₁.setRip rip) := by
  obtain rfl := writeMemory_eq_ok h
  refine correct_of_next (by rw [he]) (.inl (by rw [he])) hrip fun a ha => ?_
  simpa [Machine.setRip, h₀, Instruction.operandAddress, he, eq_comm] using ha

theorem pop64Gpr_eq_ok {reg : ℕ} (h : m.pop64Gpr reg = .ok m₁) :
    m₁.accesses = m.gpr rspIndex :: m.accesses := by
  simp only [Machine.pop64Gpr, bind_eq_ok, pure_eq_ok] at h
  obtain ⟨⟨v, m₂⟩, hread, rfl⟩ := h
  obtain ⟨-, rfl⟩ := readMemory_eq_ok hread
  rfl

theorem pop_correct {reg : ℕ} (he : i.encoding = ⟨false, n, .pop, .next⟩) (h₀ : m.accesses = [])
    (h : m.pop64Gpr reg = .ok m₁) (hrip : rip = i.next m) : i.Correct m (m₁.setRip rip) := by
  refine correct_of_next (by rw [he]) (.inl (by rw [he])) hrip fun a ha => ?_
  have ha : a ∈ m₁.accesses := ha
  rw [pop64Gpr_eq_ok h, h₀, List.mem_singleton] at ha
  simp [Instruction.operandAddress, he, ha]

theorem silent_correct (hflow : i.encoding.flow = .next)
    (hi : i.encoding.modrm = false ∨ i.encoding.immediate = 0) (h₀ : m.accesses = [])
    (hacc : m₁.accesses = m.accesses) (hrip : rip = i.next m) : i.Correct m (m₁.setRip rip) :=
  correct_of_next hflow hi hrip fun a ha => by
    have ha : a ∈ m₁.accesses := ha
    simp [hacc, h₀] at ha

theorem groupImmediate_eq_ok {op : Byte} {imm : U64} {imm_size : ℕ}
    (h : m.groupImmediate op address = .ok (imm, imm_size)) :
    imm = signed m.mem address imm_size ∧ imm_size = if op = 0x81 then 4 else 1 := by
  simp only [Machine.groupImmediate] at h
  split_ifs at h ⊢
  · simp only [bind_eq_ok, fetch_eq_ok, pure_eq_ok, Prod.mk.injEq] at h
    obtain ⟨_, ⟨-, rfl⟩, rfl, rfl⟩ := h
    exact ⟨rfl, rfl⟩
  · simp only [bind_eq_ok, fetch8_eq_ok, pure_eq_ok, Prod.mk.injEq] at h
    obtain ⟨_, ⟨-, rfl⟩, rfl, rfl⟩ := h
    exact ⟨(signed_one _ _).symm, rfl⟩

theorem group1_uses {lhs rhs : U64} (h : m.group1 modrm lhs rhs width = .ok m') :
    Uses modrm m m' := by
  simp only [Machine.group1] at h
  split_ifs at h
  · exact (uses_updateArithmeticFlags ..).trans (writeRm_uses h).1
  · exact (uses_updateLogicFlags _).trans (writeRm_uses h).1
  · exact (uses_updateLogicFlags _).trans (writeRm_uses h).1
  · exact (uses_updateArithmeticFlags ..).trans (writeRm_uses h).1
  · exact (uses_updateLogicFlags _).trans (writeRm_uses h).1
  · rw [pure_eq_ok] at h
    exact h ▸ uses_updateArithmeticFlags ..

theorem add_two (a : U64) : a + 2 = a + 1 + 1 := by simp [BitVec.add_assoc]

theorem add_three (a : U64) : a + 3 = a + 2 + 1 := by simp [BitVec.add_assoc]

theorem decodeGroup1_correct (rex : Option Byte) {op : Byte} {opcode_at : U64}
    (hat : opcode_at = m.rip + (if rex.isSome then 1 else 0)) (h₀ : m.accesses = [])
    (h : m.decodeGroup1 rex op = .ok m') :
    Instruction.Correct ⟨⟨true, if op = 0x81 then 4 else 1, .modrm, .next⟩,
      (rex.map decodeRexPrefix).getD {}, opcode_at + 1⟩ m m' := by
  simp only [Machine.decodeGroup1, bind_eq_ok, pure_eq_ok] at h
  obtain ⟨modrm, hmodrm, ⟨imm, imm_size⟩, himm, ⟨lhs, m₁⟩, hread, m₂, hgroup, rfl⟩ := h
  rw [← hat, add_two] at hmodrm
  obtain rfl := decodeModRm_eq_ok hmodrm
  obtain ⟨hu, haddr⟩ := readRm_uses hread
  have hu₂ := group1_uses hgroup
  refine modrm_correct rfl ?_ h₀ (hu.trans hu₂) (fun _ hmem => hu₂.kept _ (haddr hmem)) ?_
  · split_ifs <;> decide
  · simp [Instruction.next, Instruction.immediateAt, (groupImmediate_eq_ok himm).2, hat, modrmAt]

/-! ### Two-byte opcodes -/

theorem readXmmOperand_uses {tmp : ℕ → Byte} (h : m.readXmmOperand modrm size = .ok (tmp, m')) :
    Uses modrm m m' := by
  simp only [Machine.readXmmOperand] at h
  split_ifs at h with hmem hnull
  · simp only [pure_eq_ok, Prod.mk.injEq] at h
    exact h.2 ▸ .of_access hmem rfl rfl
  · simp only [pure_eq_ok, Prod.mk.injEq] at h
    exact h.2 ▸ .refl

theorem writeXmmOperand_uses {bytes : ℕ → Byte}
    (h : m.writeXmmOperand modrm bytes size = .ok m') : Uses modrm m m' := by
  simp only [Machine.writeXmmOperand] at h
  split_ifs at h with hmem hnull
  · rw [pure_eq_ok] at h
    exact h ▸ .of_access hmem rfl rfl
  · rw [pure_eq_ok] at h
    exact h ▸ .of_eq rfl rfl

theorem xmmMove_uses {op2 pre : Byte} (h : m.xmmMove op2 pre modrm rip = .ok m') :
    ∃ m₁, Uses modrm m m₁ ∧ m' = m₁.setRip rip := by
  simp only [Machine.xmmMove] at h
  split_ifs at h
  all_goals simp only [bind_eq_ok, pure_eq_ok] at h
  · obtain ⟨⟨tmp, m₁⟩, hread, rfl⟩ := h
    refine ⟨_, ?_, rfl⟩
    exact (readXmmOperand_uses hread).trans (.of_eq rfl rfl)
  · obtain ⟨⟨tmp, m₁⟩, hread, rfl⟩ := h
    refine ⟨_, ?_, rfl⟩
    exact (readXmmOperand_uses hread).trans (.of_eq rfl rfl)
  · obtain ⟨m₁, hwrite, rfl⟩ := h
    exact ⟨m₁, writeXmmOperand_uses hwrite, rfl⟩

theorem branch_correct {c : ℕ} {next imm : U64} (hflow : i.encoding.flow = .conditional)
    (hi : i.encoding.modrm = false) (h₀ : m.accesses = []) (hcond : i.condition m = c)
    (hnext : i.next m = next) (himm : i.immediate m = imm) :
    i.Correct m (m.setRip (if m.checkCondition c then next + imm else next)) :=
  correct_of_addresses (.inl hi)
    { rip := by simp [Machine.setRip, Instruction.target, hflow, hcond, hnext, himm]
      operands := fun a ha => by simp [Machine.setRip, h₀] at ha
      return_address := by simp [hflow] }

theorem decodeJccNear_correct {rex : RexPrefix} {opcode_at : U64} (h₀ : m.accesses = [])
    (h : m.decodeJccNear opcode_at = .ok m') :
    Instruction.Correct ⟨⟨false, 4, .none, .conditional⟩, rex, opcode_at + 2⟩ m m' := by
  simp only [Machine.decodeJccNear, bind_eq_ok, fetch8_eq_ok] at h
  obtain ⟨_, ⟨-, rfl⟩, h⟩ := h
  split at h
  · simp at h
  · simp only [bind_eq_ok, fetch_eq_ok, pure_eq_ok] at h
    obtain ⟨_, ⟨-, rfl⟩, rfl⟩ := h
    refine branch_correct rfl rfl h₀ ?_ ?_ ?_
    · rw [Instruction.condition, add_two, BitVec.add_sub_cancel]
    · simp [Instruction.next, Instruction.immediateAt, BitVec.add_assoc]
    · simp [Instruction.immediate, Instruction.immediateAt, signed_four]

theorem twoByteEncoding_modrm {op2 : Byte} (h₁ : ¬ (0x80 ≤ op2 ∧ op2 ≤ 0x8f)) (h₂ : op2 ≠ 0x1f) :
    twoByteEncoding op2 = ⟨true, 0, .modrm, .next⟩ := by
  rw [twoByteEncoding, if_neg h₁, if_neg h₂]

theorem decodeTwoByte_correct {pre : Byte} {rex : Option Byte} {opcode_at : U64}
    (h₀ : m.accesses = []) (h : m.decodeTwoByte opcode_at pre rex = .ok m') :
    Instruction.Correct ⟨twoByteEncoding (m.mem (opcode_at + 1)),
      (rex.map decodeRexPrefix).getD {}, opcode_at + 2⟩ m m' := by
  simp only [Machine.decodeTwoByte, bind_eq_ok, fetch8_eq_ok] at h
  obtain ⟨_, ⟨-, rfl⟩, h⟩ := h
  split_ifs at h with hjcc hsuspend hnop hmove
  · rw [twoByteEncoding, if_pos hjcc]
    exact decodeJccNear_correct h₀ h
  · simp only [bind_eq_ok, pure_eq_ok] at h
    obtain ⟨modrm, hmodrm, rfl⟩ := h
    rw [add_three] at hmodrm
    obtain rfl := decodeModRm_eq_ok hmodrm
    rw [hnop]
    refine silent_correct rfl (.inr rfl) h₀ rfl ?_
    simp [Instruction.next, Instruction.immediateAt, modrmAt, twoByteEncoding]
  · simp only [bind_eq_ok] at h
    obtain ⟨modrm, hmodrm, h⟩ := h
    rw [add_three] at hmodrm
    obtain rfl := decodeModRm_eq_ok hmodrm
    obtain ⟨m₁, hu, rfl⟩ := xmmMove_uses h
    rw [twoByteEncoding_modrm hjcc hnop]
    refine modrm_correct rfl (by decide) h₀ hu (absurd rfl) ?_
    simp [Instruction.next, Instruction.immediateAt, modrmAt]

/-! ### One-byte opcodes -/

theorem oneByteEncoding_rows (op : Byte) (w : Bool) :
    (0x58 ≤ op ∧ op ≤ 0x5f → oneByteEncoding op w = ⟨false, 0, .pop, .next⟩) ∧
      (0x70 ≤ op ∧ op ≤ 0x7f → oneByteEncoding op w = ⟨false, 1, .none, .conditional⟩) ∧
      (0xb8 ≤ op ∧ op ≤ 0xbf →
        oneByteEncoding op w = ⟨false, if w then 8 else 4, .none, .next⟩) ∧
      (op = 0x81 ∨ op = 0x83 →
        oneByteEncoding op w = ⟨true, if op = 0x81 then 4 else 1, .modrm, .next⟩) ∧
      (Machine.isRexArithmetic op = true ∨ op = 0x84 →
        oneByteEncoding op w = ⟨true, 0, .modrm, .next⟩) := by
  revert op w; decide

theorem oneByteEncoding_pop (op : Byte) (w : Bool) (h : 0x58 ≤ op ∧ op ≤ 0x5f) :
    oneByteEncoding op w = ⟨false, 0, .pop, .next⟩ :=
  (oneByteEncoding_rows op w).1 h

theorem oneByteEncoding_jcc (op : Byte) (w : Bool) (h : 0x70 ≤ op ∧ op ≤ 0x7f) :
    oneByteEncoding op w = ⟨false, 1, .none, .conditional⟩ :=
  (oneByteEncoding_rows op w).2.1 h

theorem oneByteEncoding_movImmediate (op : Byte) (w : Bool) (h : 0xb8 ≤ op ∧ op ≤ 0xbf) :
    oneByteEncoding op w = ⟨false, if w then 8 else 4, .none, .next⟩ :=
  (oneByteEncoding_rows op w).2.2.1 h

theorem oneByteEncoding_group1 (op : Byte) (w : Bool) (h : op = 0x81 ∨ op = 0x83) :
    oneByteEncoding op w = ⟨true, if op = 0x81 then 4 else 1, .modrm, .next⟩ :=
  (oneByteEncoding_rows op w).2.2.2.1 h

theorem oneByteEncoding_arithmetic (op : Byte) (w : Bool)
    (h : Machine.isRexArithmetic op = true ∨ op = 0x84) :
    oneByteEncoding op w = ⟨true, 0, .modrm, .next⟩ :=
  (oneByteEncoding_rows op w).2.2.2.2 h

theorem pop64_eq_ok (h : m.pop64 = .ok (value, m')) :
    value = load m.mem (m.gpr rspIndex) 8 ∧
      m'.accesses = m.gpr rspIndex :: m.accesses := by
  simp only [Machine.pop64, bind_eq_ok, pure_eq_ok, Prod.mk.injEq] at h
  obtain ⟨⟨v, m₂⟩, hread, rfl, rfl⟩ := h
  obtain ⟨hv, rfl⟩ := readMemory_eq_ok hread
  exact ⟨hv, rfl⟩

theorem ret_correct (he : i.encoding = ⟨false, n, .pop, .ret⟩) (h₀ : m.accesses = [])
    (h : m.pop64 = .ok (value, m₁)) (hacc : m₂.accesses = m₁.accesses) :
    i.Correct m (m₂.setRip value) := by
  obtain ⟨hv, hacc₁⟩ := pop64_eq_ok h
  refine correct_of_addresses (.inl (by rw [he]))
    ⟨by simp [Machine.setRip, Instruction.target, he, hv], fun a ha => ?_, by simp [he]⟩
  have ha : a ∈ m₂.accesses := ha
  rw [hacc, hacc₁, h₀, List.mem_singleton] at ha
  simp [Instruction.operandAddress, he, ha]

theorem jump_correct {o : Operand} {next imm : U64} (he : i.encoding = ⟨false, n, o, .jump⟩)
    (h₀ : m.accesses = []) (hnext : i.next m = next) (himm : i.immediate m = imm) :
    i.Correct m (m.setRip (next + imm)) :=
  correct_of_addresses (.inl (by rw [he]))
    { rip := by simp [Machine.setRip, Instruction.target, he, hnext, himm]
      operands := fun a ha => by simp [Machine.setRip, h₀] at ha
      return_address := by simp [he] }

theorem call_correct {next imm : U64} (he : i.encoding = ⟨false, n, .push, .call⟩)
    (h₀ : m.accesses = []) (h : m.push64 next = .ok m₁) (hnext : i.next m = next)
    (himm : i.immediate m = imm) : i.Correct m (m₁.setRip (next + imm)) := by
  obtain rfl := writeMemory_eq_ok h
  refine correct_of_addresses (.inl (by rw [he])) ⟨?_, fun a ha => ?_, fun _ => ?_⟩
  · simp [Machine.setRip, Instruction.target, he, hnext, himm]
  · simpa [Machine.setRip, h₀, Instruction.operandAddress, he, eq_comm] using ha
  · rw [hnext]
    rfl

theorem operand_correct {rex : RexPrefix} {opcode_at : U64} (h₀ : m.accesses = [])
    (hmodrm : decodeModRm m (opcode_at + 2) rex = .ok modrm) (hu : Uses modrm m m₁) :
    Instruction.Correct ⟨⟨true, 0, .modrm, .next⟩, rex, opcode_at + 1⟩ m
      (m₁.setRip (opcode_at + 1 + BitVec.ofNat 64 modrm.length)) := by
  rw [add_two] at hmodrm
  obtain rfl := decodeModRm_eq_ok hmodrm
  refine modrm_correct rfl (by decide) h₀ hu (absurd rfl) ?_
  simp [Instruction.next, Instruction.immediateAt, modrmAt]

theorem lea_correct {rex : RexPrefix} {opcode_at : U64} {reg : ℕ} (h₀ : m.accesses = [])
    (hmodrm : decodeModRm m (opcode_at + 2) rex = .ok modrm) :
    Instruction.Correct ⟨⟨true, 0, .none, .next⟩, rex, opcode_at + 1⟩ m
      ((m.writeGpr reg width value).setRip
        (opcode_at + 1 + BitVec.ofNat 64 modrm.length)) := by
  rw [add_two] at hmodrm
  obtain rfl := decodeModRm_eq_ok hmodrm
  refine silent_correct rfl (.inr rfl) h₀ (writeGpr_accesses ..) ?_
  simp [Instruction.next, Instruction.immediateAt, modrmAt]

theorem storeImmediate_correct (h₀ : m.accesses = [])
    (hmodrm : decodeModRm m (m.rip + 2) {} = .ok modrm)
    (hwrite : m.writeRm modrm 32 value = .ok m₁) :
    Instruction.Correct ⟨⟨true, 4, .modrm, .next⟩, {}, m.rip + 1⟩ m
      (m₁.setRip (m.rip + (5 + BitVec.ofNat 64 modrm.length))) := by
  rw [add_two] at hmodrm
  obtain rfl := decodeModRm_eq_ok hmodrm
  obtain ⟨hu, haddr⟩ := writeRm_uses hwrite
  refine modrm_correct rfl (by decide) h₀ hu (fun _ hmem => haddr hmem) ?_
  simp only [Instruction.next, Instruction.immediateAt, modrmAt, if_true]
  bv_omega

theorem leave_correct (h₀ : m.accesses = [])
    (h : ({ m with gpr := Function.update m.gpr rspIndex (m.gpr rbpIndex) } : Machine).pop64 =
      .ok (value, m₁)) :
    Instruction.Correct ⟨⟨false, 0, .frame, .next⟩, {}, m.rip + 1⟩ m
      (({ m₁ with gpr := Function.update m₁.gpr rbpIndex value } : Machine).setRip
        (m.rip + 1)) := by
  have hacc := (pop64_eq_ok h).2
  refine correct_of_next rfl (.inl rfl)
    (by simp [Machine.setRip, Instruction.next, Instruction.immediateAt]) fun a ha => ?_
  have ha : a ∈ m₁.accesses := ha
  simp only [hacc, h₀, Function.update_self, List.mem_singleton] at ha
  simp [Instruction.operandAddress, ha]

theorem decodeOneByte_correct {op : Byte} (hop : op ≠ 0x0f) (h₀ : m.accesses = [])
    (h : m.decodeOneByte op = .ok m') :
    Instruction.Correct ⟨oneByteEncoding op false, {}, m.rip + 1⟩ m m' := by
  unfold Machine.decodeOneByte at h
  rw [if_neg hop] at h
  by_cases harith : Machine.isArithmetic op = true
  · rw [if_pos harith] at h
    simp only [bind_eq_ok, pure_eq_ok] at h
    obtain ⟨modrm, hmodrm, m₁, hwork, rfl⟩ := h
    rw [oneByteEncoding_arithmetic op false (.inl (by simp [Machine.isRexArithmetic, harith]))]
    exact operand_correct h₀ hmodrm (arithmetic_uses hwork)
  rw [if_neg harith] at h
  by_cases hpush : 0x50 ≤ op ∧ op ≤ 0x57
  · rw [if_pos hpush] at h
    simp only [bind_eq_ok, pure_eq_ok] at h
    obtain ⟨m₁, hwork, rfl⟩ := h
    rw [oneByteEncoding, if_pos hpush]
    exact push_correct rfl h₀ hwork (by simp [Instruction.next, Instruction.immediateAt])
  rw [if_neg hpush] at h
  by_cases hpop : 0x58 ≤ op ∧ op ≤ 0x5f
  · rw [if_pos hpop] at h
    simp only [bind_eq_ok, pure_eq_ok] at h
    obtain ⟨m₁, hwork, rfl⟩ := h
    rw [oneByteEncoding_pop op false hpop]
    exact pop_correct rfl h₀ hwork (by simp [Instruction.next, Instruction.immediateAt])
  rw [if_neg hpop] at h
  by_cases hpush4 : op = 0x68
  · rw [if_pos hpush4] at h
    simp only [bind_eq_ok, pure_eq_ok] at h
    obtain ⟨_, -, m₁, hwork, rfl⟩ := h
    subst hpush4
    exact push_correct rfl h₀ hwork
      (by simp [Instruction.next, Instruction.immediateAt, oneByteEncoding, BitVec.add_assoc])
  rw [if_neg hpush4] at h
  by_cases hpush1 : op = 0x6a
  · rw [if_pos hpush1] at h
    simp only [bind_eq_ok, pure_eq_ok] at h
    obtain ⟨_, -, m₁, hwork, rfl⟩ := h
    subst hpush1
    exact push_correct rfl h₀ hwork
      (by simp [Instruction.next, Instruction.immediateAt, oneByteEncoding, BitVec.add_assoc])
  rw [if_neg hpush1] at h
  by_cases hmov : op = 0x89
  · rw [if_pos hmov] at h
    simp only [bind_eq_ok, pure_eq_ok] at h
    obtain ⟨modrm, hmodrm, m₁, hwrite, rfl⟩ := h
    subst hmov
    exact operand_correct h₀ hmodrm (writeRm_uses hwrite).1
  rw [if_neg hmov] at h
  by_cases hload : op = 0x8b
  · rw [if_pos hload] at h
    simp only [bind_eq_ok, pure_eq_ok] at h
    obtain ⟨modrm, hmodrm, ⟨v, m₁⟩, hread, rfl⟩ := h
    subst hload
    exact operand_correct h₀ hmodrm ((readRm_uses hread).1.trans (uses_writeGpr _))
  rw [if_neg hload] at h
  by_cases hlea : op = 0x8d
  · rw [if_pos hlea] at h
    simp only [bind_eq_ok] at h
    obtain ⟨modrm, hmodrm, h⟩ := h
    split at h
    · simp at h
    · subst hlea
      obtain rfl := pure_eq_ok.1 h
      exact lea_correct h₀ hmodrm
  rw [if_neg hlea] at h
  by_cases hnop : op = 0x90
  · rw [if_pos hnop, pure_eq_ok] at h
    subst h hnop
    exact silent_correct rfl (.inl rfl) h₀ rfl
      (by simp [Instruction.next, Instruction.immediateAt, oneByteEncoding])
  rw [if_neg hnop] at h
  by_cases himm : 0xb8 ≤ op ∧ op ≤ 0xbf
  · rw [if_pos himm] at h
    simp only [bind_eq_ok, pure_eq_ok] at h
    obtain ⟨_, -, rfl⟩ := h
    rw [oneByteEncoding_movImmediate op false himm]
    exact silent_correct rfl (.inl rfl) h₀ (writeGpr_accesses ..)
      (by simp [Instruction.next, Instruction.immediateAt, BitVec.add_assoc])
  rw [if_neg himm] at h
  by_cases hret : op = 0xc3
  · rw [if_pos hret] at h
    simp only [bind_eq_ok] at h
    obtain ⟨⟨target, m₁⟩, hstack, h⟩ := h
    split at h
    · simp at h
    · subst hret
      obtain rfl := pure_eq_ok.1 h
      exact ret_correct rfl h₀ hstack rfl
  rw [if_neg hret] at h
  by_cases hstore : op = 0xc7
  · rw [if_pos hstore] at h
    simp only [bind_eq_ok] at h
    obtain ⟨modrm, hmodrm, h⟩ := h
    split at h
    · simp at h
    · simp only [bind_eq_ok, pure_eq_ok] at h
      obtain ⟨_, -, m₁, hwrite, rfl⟩ := h
      subst hstore
      exact storeImmediate_correct h₀ hmodrm hwrite
  rw [if_neg hstore] at h
  by_cases hretn : op = 0xc2
  · rw [if_pos hretn] at h
    simp only [bind_eq_ok] at h
    obtain ⟨_, -, ⟨target, m₁⟩, hstack, h⟩ := h
    split at h
    · simp at h
    · subst hretn
      obtain rfl := pure_eq_ok.1 h
      exact ret_correct rfl h₀ hstack rfl
  rw [if_neg hretn] at h
  by_cases hleave : op = 0xc9
  · rw [if_pos hleave] at h
    simp only [bind_eq_ok, pure_eq_ok] at h
    obtain ⟨⟨rbp, m₁⟩, hstack, rfl⟩ := h
    subst hleave
    exact leave_correct h₀ hstack
  rw [if_neg hleave] at h
  by_cases hhalt : op = 0xcc ∨ op = 0xf4
  · rw [if_pos hhalt] at h
    simp at h
  rw [if_neg hhalt] at h
  by_cases hcall : op = 0xe8
  · rw [if_pos hcall] at h
    simp only [bind_eq_ok, fetch_eq_ok, pure_eq_ok] at h
    obtain ⟨_, ⟨-, rfl⟩, m₁, hstack, rfl⟩ := h
    subst hcall
    refine call_correct rfl h₀ hstack ?_ ?_
    · simp [Instruction.next, Instruction.immediateAt, oneByteEncoding, BitVec.add_assoc]
    · simp [Instruction.immediate, Instruction.immediateAt, oneByteEncoding, signed_four]
  rw [if_neg hcall] at h
  by_cases hjmp : op = 0xe9
  · rw [if_pos hjmp] at h
    simp only [bind_eq_ok, fetch_eq_ok, pure_eq_ok] at h
    obtain ⟨_, ⟨-, rfl⟩, rfl⟩ := h
    subst hjmp
    refine jump_correct rfl h₀ ?_ ?_
    · simp [Instruction.next, Instruction.immediateAt, oneByteEncoding, BitVec.add_assoc]
    · simp [Instruction.immediate, Instruction.immediateAt, oneByteEncoding, signed_four]
  rw [if_neg hjmp] at h
  by_cases hjmps : op = 0xeb
  · rw [if_pos hjmps] at h
    simp only [bind_eq_ok, fetch8_eq_ok, pure_eq_ok] at h
    obtain ⟨_, ⟨-, rfl⟩, rfl⟩ := h
    subst hjmps
    refine jump_correct rfl h₀ ?_ ?_
    · simp [Instruction.next, Instruction.immediateAt, oneByteEncoding, BitVec.add_assoc]
    · simp [Instruction.immediate, Instruction.immediateAt, oneByteEncoding, signed_one]
  rw [if_neg hjmps] at h
  by_cases hgroup : op = 0x81 ∨ op = 0x83
  · rw [if_pos hgroup] at h
    rw [oneByteEncoding_group1 op false hgroup]
    exact decodeGroup1_correct none (by simp) h₀ h
  rw [if_neg hgroup] at h
  by_cases htest : op = 0x84 ∨ op = 0x85
  · rw [if_pos htest] at h
    simp only [bind_eq_ok, pure_eq_ok] at h
    obtain ⟨modrm, hmodrm, m₁, hwork, rfl⟩ := h
    rw [oneByteEncoding_arithmetic op false (by rcases htest with rfl | rfl <;> decide)]
    exact operand_correct h₀ hmodrm (arithmetic_uses hwork)
  rw [if_neg htest] at h
  simp at h

/-! ### Prefixes -/

theorem instructionAt_twoByte {opcode_at : U64} (rex : RexPrefix)
    (h : m.mem opcode_at = 0x0f) : instructionAt m opcode_at rex =
      ⟨twoByteEncoding (m.mem (opcode_at + 1)), rex, opcode_at + 2⟩ := by
  rw [instructionAt, if_pos h]

theorem instructionAt_oneByte {opcode_at : U64} (rex : RexPrefix)
    (h : m.mem opcode_at ≠ 0x0f) : instructionAt m opcode_at rex =
      ⟨oneByteEncoding (m.mem opcode_at) rex.w, rex, opcode_at + 1⟩ := by
  rw [instructionAt, if_neg h]

theorem add_one_two (a : U64) : a + 3 = a + 1 + 2 := by simp [BitVec.add_assoc]

theorem decodeRex_correct {rex : Byte} (h₀ : m.accesses = []) (h : m.decodeRex rex = .ok m') :
    (instructionAt m (m.rip + 1) (decodeRexPrefix rex)).Correct m m' := by
  unfold Machine.decodeRex at h
  simp only [bind_eq_ok, fetch8_eq_ok] at h
  obtain ⟨op, ⟨-, hmem⟩, h⟩ := h
  by_cases htwo : op = 0x0f
  · rw [if_pos htwo] at h
    have hcorrect := decodeTwoByte_correct h₀ h
    rwa [instructionAt_twoByte _ (hmem.trans htwo)]
  rw [if_neg htwo] at h
  rw [instructionAt_oneByte _ (hmem ▸ htwo), hmem, ← add_two]
  by_cases himm : 0xb8 ≤ op ∧ op ≤ 0xbf
  · rw [if_pos himm] at h
    rw [oneByteEncoding_movImmediate op _ himm]
    split at h
    all_goals
      next hw =>
      simp only [bind_eq_ok, pure_eq_ok] at h
      obtain ⟨_, -, rfl⟩ := h
      exact silent_correct rfl (.inl rfl) h₀ (writeGpr_accesses ..)
        (by simp [Instruction.next, Instruction.immediateAt, BitVec.add_assoc, hw])
  rw [if_neg himm] at h
  by_cases hlea : op = 0x8d
  · rw [if_pos hlea] at h
    simp only [bind_eq_ok] at h
    obtain ⟨modrm, hmodrm, h⟩ := h
    split at h
    · simp at h
    · subst hlea
      obtain rfl := pure_eq_ok.1 h
      rw [add_two]
      rw [add_one_two] at hmodrm
      exact lea_correct h₀ hmodrm
  rw [if_neg hlea] at h
  by_cases harith : Machine.isRexArithmetic op = true
  · rw [if_pos harith] at h
    simp only [bind_eq_ok, pure_eq_ok] at h
    obtain ⟨modrm, hmodrm, m₁, hwork, rfl⟩ := h
    rw [oneByteEncoding_arithmetic op _ (.inl harith), add_two]
    rw [add_one_two] at hmodrm
    exact operand_correct h₀ hmodrm (arithmetic_uses hwork)
  rw [if_neg harith] at h
  by_cases hgroup : op = 0x81 ∨ op = 0x83
  · rw [if_pos hgroup] at h
    rw [oneByteEncoding_group1 op _ hgroup, add_two]
    exact decodeGroup1_correct (some rex) (by simp) h₀ h
  rw [if_neg hgroup] at h
  by_cases hpush : 0x50 ≤ op ∧ op ≤ 0x57
  · rw [if_pos hpush] at h
    simp only [bind_eq_ok, pure_eq_ok] at h
    obtain ⟨m₁, hwork, rfl⟩ := h
    rw [oneByteEncoding, if_pos hpush]
    exact push_correct rfl h₀ hwork (by simp [Instruction.next, Instruction.immediateAt])
  rw [if_neg hpush] at h
  by_cases hpop : 0x58 ≤ op ∧ op ≤ 0x5f
  · rw [if_pos hpop] at h
    simp only [bind_eq_ok, pure_eq_ok] at h
    obtain ⟨m₁, hwork, rfl⟩ := h
    rw [oneByteEncoding_pop op _ hpop]
    exact pop_correct rfl h₀ hwork (by simp [Instruction.next, Instruction.immediateAt])
  rw [if_neg hpop] at h
  simp at h

theorem decodeJccShort_correct {op : Byte} (hop : m.mem m.rip = op) (hjcc : 0x70 ≤ op ∧ op ≤ 0x7f)
    (h₀ : m.accesses = []) (h : m.decodeJccShort op = .ok m') :
    Instruction.Correct ⟨oneByteEncoding op false, {}, m.rip + 1⟩ m m' := by
  simp only [Machine.decodeJccShort, bind_eq_ok, fetch8_eq_ok, pure_eq_ok] at h
  obtain ⟨_, ⟨-, rfl⟩, rfl⟩ := h
  rw [oneByteEncoding_jcc op _ hjcc]
  refine branch_correct rfl rfl h₀ ?_ ?_ ?_
  · rw [Instruction.condition, BitVec.add_sub_cancel, hop]
  · simp [Instruction.next, Instruction.immediateAt, BitVec.add_assoc]
  · simp [Instruction.immediate, Instruction.immediateAt, signed_one]

theorem isRexByte_iff (b : Byte) : isRexByte b = true ↔ 0x40 ≤ b ∧ b ≤ 0x4f := by
  simp [isRexByte]

theorem prefixed_correct {pre : Byte} (rex : Option Byte) (cursor : U64) (h₀ : m.accesses = [])
    (h : (if m.mem cursor = 0x0f then m.decodeTwoByte cursor pre rex
      else if pre = prefixF3 ∧ m.mem cursor = 0x90 then pure (m.setRip (cursor + 1))
      else throw .unsupported) = .ok m') :
    (instructionAt m cursor ((rex.map decodeRexPrefix).getD {})).Correct m m' := by
  by_cases htwo : m.mem cursor = 0x0f
  · rw [if_pos htwo] at h
    rw [instructionAt_twoByte _ htwo]
    exact decodeTwoByte_correct h₀ h
  rw [if_neg htwo] at h
  split at h
  · next hpause =>
    obtain rfl := pure_eq_ok.1 h
    rw [instructionAt_oneByte _ htwo, hpause.2]
    exact silent_correct rfl (.inl rfl) h₀ rfl
      (by simp [Instruction.next, Instruction.immediateAt, oneByteEncoding])
  · simp at h

theorem decodePrefixed_correct {pre : Byte} (h₀ : m.accesses = [])
    (h : m.decodePrefixed pre = .ok m') :
    (instructionAfterPrefix m (m.rip + 1)).Correct m m' := by
  unfold Machine.decodePrefixed at h
  simp only [bind_eq_ok, fetch8_eq_ok] at h
  obtain ⟨_, ⟨-, rfl⟩, h⟩ := h
  by_cases hrex : 0x40 ≤ m.mem (m.rip + 1) ∧ m.mem (m.rip + 1) ≤ 0x4f
  · rw [if_pos hrex] at h
    simp only [bind_eq_ok, fetch8_eq_ok, pure_eq_ok, exists_eq_left'] at h
    obtain ⟨_, ⟨-, rfl⟩, h⟩ := h
    rw [instructionAfterPrefix, if_pos ((isRexByte_iff _).2 hrex), ← add_two]
    exact prefixed_correct (some (m.mem (m.rip + 1))) (m.rip + 2) h₀ h
  · rw [if_neg hrex] at h
    simp only [bind_eq_ok, pure_eq_ok, exists_eq_left'] at h
    rw [instructionAfterPrefix, if_neg fun h => hrex ((isRexByte_iff _).1 h)]
    exact prefixed_correct none (m.rip + 1) h₀ h

theorem isLegacyPrefix_iff (b : Byte) :
    isLegacyPrefix b = true ↔ b = prefix66 ∨ b = prefixF2 ∨ b = prefixF3 := by
  simp [isLegacyPrefix, or_assoc]

theorem not_prefix_of_le (b : Byte) :
    (b ≤ 0x5f ∨ 0x70 ≤ b ∧ b ≤ 0x7f → isLegacyPrefix b = false) ∧
      (0x70 ≤ b → isRexByte b = false) := by
  revert b; decide

theorem not_isLegacyPrefix_of_le (b : Byte) (h : b ≤ 0x5f ∨ 0x70 ≤ b ∧ b ≤ 0x7f) :
    isLegacyPrefix b = false :=
  (not_prefix_of_le b).1 h

theorem not_isRexByte_of_le (b : Byte) (h : 0x70 ≤ b) : isRexByte b = false :=
  (not_prefix_of_le b).2 h

theorem decode_eq_instructionAt {op : Byte} (hop : m.mem m.rip = op)
    (hlegacyByte : isLegacyPrefix op = false) (hrex : isRexByte op = false) (htwo : op ≠ 0x0f) :
    decode m = ⟨oneByteEncoding op false, {}, m.rip + 1⟩ := by
  subst hop
  rw [decode, if_neg (by simp [hlegacyByte]), instructionAfterPrefix, if_neg (by simp [hrex]),
    instructionAt_oneByte _ htwo]

theorem dispatch_correct (h₀ : m.accesses = []) (h : (if 0x70 ≤ m.mem m.rip ∧ m.mem m.rip ≤ 0x7f
      then m.decodeJccShort (m.mem m.rip)
      else if 0x40 ≤ m.mem m.rip ∧ m.mem m.rip ≤ 0x4f then m.decodeRex (m.mem m.rip)
      else if m.mem m.rip = prefix66 ∨ m.mem m.rip = prefixF2 ∨ m.mem m.rip = prefixF3 then
        m.decodePrefixed (m.mem m.rip)
      else m.decodeOneByte (m.mem m.rip)) = .ok m') : (decode m).Correct m m' := by
  split_ifs at h with hjcc hrex hlegacyByte
  · rw [decode_eq_instructionAt rfl (not_isLegacyPrefix_of_le _ (.inr hjcc))
      (not_isRexByte_of_le _ hjcc.1) (by rintro h; simp [h] at hjcc)]
    exact decodeJccShort_correct rfl hjcc h₀ h
  · have hle : m.mem m.rip ≤ 0x5f := BitVec.le_trans hrex.2 (by decide)
    rw [decode, if_neg (by simp [not_isLegacyPrefix_of_le _ (.inl hle)]), instructionAfterPrefix,
      if_pos ((isRexByte_iff _).2 hrex)]
    exact decodeRex_correct h₀ h
  · rw [decode, if_pos ((isLegacyPrefix_iff _).2 hlegacyByte)]
    exact decodePrefixed_correct h₀ h
  · have hlegacyByte : isLegacyPrefix (m.mem m.rip) = false :=
      Bool.eq_false_iff.2 fun h => hlegacyByte ((isLegacyPrefix_iff _).1 h)
    have hrex : isRexByte (m.mem m.rip) = false :=
      Bool.eq_false_iff.2 fun h => hrex ((isRexByte_iff _).1 h)
    by_cases htwo : m.mem m.rip = 0x0f
    · rw [decode, if_neg (by simp [hlegacyByte]), instructionAfterPrefix, if_neg (by simp [hrex]),
        instructionAt_twoByte _ htwo]
      rw [htwo, Machine.decodeOneByte, if_pos rfl] at h
      exact decodeTwoByte_correct h₀ h
    · rw [decode_eq_instructionAt rfl hlegacyByte hrex htwo]
      exact decodeOneByte_correct htwo h₀ h

/-! ### Whole steps -/

/-- The guest at the start of a step. -/
def resetAccesses (m : Machine) : Machine := { m with accesses := [] }

theorem next_resetAccesses : i.next (resetAccesses m) = i.next m := rfl

theorem immediate_resetAccesses : i.immediate (resetAccesses m) = i.immediate m := rfl

theorem effectiveAddress_resetAccesses (modrm_at : U64) (rex : RexPrefix) (next : U64) :
    effectiveAddress (resetAccesses m) modrm_at rex next = effectiveAddress m modrm_at rex next :=
  rfl

theorem target_resetAccesses : i.target (resetAccesses m) = i.target m := by
  simp only [Instruction.target, next_resetAccesses, immediate_resetAccesses]
  rfl

theorem operandAddress_resetAccesses :
    i.operandAddress (resetAccesses m) = i.operandAddress m := by
  simp only [Instruction.operandAddress, next_resetAccesses, effectiveAddress_resetAccesses]
  rfl

theorem addresses_resetAccesses : i.Addresses (resetAccesses m) m' ↔ i.Addresses m m' := by
  constructor
  · rintro ⟨hrip, hop, hret⟩
    rw [target_resetAccesses] at hrip
    simp only [operandAddress_resetAccesses] at hop
    exact ⟨hrip, hop, hret⟩
  · rintro ⟨hrip, hop, hret⟩
    refine ⟨?_, ?_, hret⟩
    · rwa [target_resetAccesses]
    · simpa only [operandAddress_resetAccesses] using hop

theorem step_eq_ok (h : m.step = .ok m') : (decode m).Correct (resetAccesses m) m' := by
  simp only [Machine.step, bind_eq_ok, fetch8_eq_ok] at h
  obtain ⟨_, ⟨-, rfl⟩, h⟩ := h
  exact @dispatch_correct (resetAccesses m) m' rfl h

end Machine

/-- A step that continues leaves `rip` where the instruction goes, accesses the operand of the
instruction and pushes its end as the return address of a call, if and only if the operand is
not relative to `rip` with an immediate behind it. -/
theorem step_addresses (m m' : Machine) (h : m.step = .ok m') :
    (decode m).Addresses m m' ↔ ¬ (decode m).RipRelativeBeforeImmediate m :=
  addresses_resetAccesses.symm.trans (step_eq_ok h)

def codeAt (bytes : List Byte) : Machine where
  gpr := fun _ => 0x2000
  rip := 0x1000
  rflags := 0
  xmm := fun _ _ => 0
  mem := fun a => bytes.getD (a - 0x1000).toNat 0
  accesses := []

/-- `mov [rip + 0x10], eax` stores behind its end. -/
theorem step_addresses_store :
    ∃ m', (codeAt [0x89, 0x05, 0x10, 0, 0, 0]).step = .ok m' ∧
      (decode (codeAt [0x89, 0x05, 0x10, 0, 0, 0])).Addresses
        (codeAt [0x89, 0x05, 0x10, 0, 0, 0]) m' := by
  cases h : (codeAt [0x89, 0x05, 0x10, 0, 0, 0]).step with
  | error e =>
    have hok : (codeAt [0x89, 0x05, 0x10, 0, 0, 0]).step.isOk = true := by decide
    rw [h] at hok
    cases hok
  | ok m' => exact ⟨m', rfl, (step_addresses _ m' h).2 (by decide)⟩

/-- `add dword [rip + 0x10], 1` ends at `0x1007` and adds to `0x1016`. -/
theorem step_addresses_add :
    ¬ ∀ m m' : Machine, m.step = .ok m' → (decode m).Addresses m m' := by
  intro hall
  cases h : (codeAt [0x83, 0x05, 0x10, 0, 0, 0, 1]).step with
  | error e =>
    have hok : (codeAt [0x83, 0x05, 0x10, 0, 0, 0, 1]).step.isOk = true := by decide
    rw [h] at hok
    cases hok
  | ok m' =>
    have hacc : (codeAt [0x83, 0x05, 0x10, 0, 0, 0, 1]).step.map (fun m => m.accesses) =
        .ok [0x1016, 0x1016] := by decide
    have hmem : (0x1016 : U64) ∈ m'.accesses := by
      rw [h] at hacc
      have hacc : m'.accesses = [0x1016, 0x1016] := Except.ok.inj hacc
      simp [hacc]
    have haddr := (hall _ _ h).operands _ hmem
    exact absurd haddr (by decide)

end OrbitConsole.Cpu
