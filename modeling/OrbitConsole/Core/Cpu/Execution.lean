import OrbitConsole.Core.Cpu.Semantics
import Mathlib.Tactic.IntervalCases

/-!
# The interpreter computes like the processor

The operations, their flags and the branches on them are those of the architecture, except for
the two conditions on the parity flag, for tests of the second bytes of the first four registers
and for operands relative to `rip` with an immediate behind them.
-/

namespace OrbitConsole.Cpu

/-! ### Conditions -/

section Conditions

variable {w : ℕ} (a b : BitVec w)

theorem bmod_neg_iff (n : ℕ) (d : ℤ) (h₁ : -(2 * n) < d) (h₂ : d < 2 * n) :
    d.bmod (2 * n) < 0 ↔ ¬ (d < 0 ↔ (n ≤ d ∨ d < -n)) := by
  have hself (x : ℤ) (h₁ : -n ≤ x) (h₂ : x < n) : x.bmod (2 * n) = x :=
    Int.bmod_eq_of_le (by omega) (by omega)
  by_cases hlow : d < -n
  · have hwrap : d.bmod (2 * n) = d + 2 * n := by
      rw [← hself (d + 2 * n) (by omega) (by omega)]
      exact (Int.add_bmod_right d (2 * n)).symm
    omega
  by_cases hhigh : (n : ℤ) ≤ d
  · have hwrap : d.bmod (2 * n) = d - 2 * n := by
      rw [← hself (d - 2 * n) (by omega) (by omega)]
      exact (Int.sub_bmod_right d (2 * n)).symm
    omega
  · rw [hself d (by omega) (by omega)]
    omega

theorem slt_eq_msb_sub (hw : 0 < w) : a.slt b = ((a - b).msb != BitVec.ssubOverflow a b) := by
  obtain ⟨k, rfl⟩ : ∃ k, w = k + 1 := ⟨w - 1, by omega⟩
  have ha₁ := BitVec.le_two_mul_toInt (x := a)
  have ha₂ := BitVec.two_mul_toInt_lt (x := a)
  have hb₁ := BitVec.le_two_mul_toInt (x := b)
  have hb₂ := BitVec.two_mul_toInt_lt (x := b)
  have hpow : (2 : ℕ) ^ (k + 1) = 2 * 2 ^ k := by rw [pow_succ, mul_comm]
  have hpow' : (2 : ℤ) ^ (k + 1) = 2 * (2 ^ k : ℕ) := by push_cast; rw [pow_succ, mul_comm]
  have hneg := bmod_neg_iff (2 ^ k) (a.toInt - b.toInt) (by omega) (by omega)
  have hcast : ((2 ^ k : ℕ) : ℤ) = 2 ^ k := by push_cast; rfl
  rw [hcast] at hneg
  have hlt : a.toInt < b.toInt ↔ a.toInt - b.toInt < 0 := by omega
  rw [BitVec.slt_eq_decide, BitVec.msb_eq_toInt, BitVec.toInt_sub, hpow]
  simp only [BitVec.ssubOverflow, Nat.add_sub_cancel, hneg, hlt, ge_iff_le]
  by_cases h₁ : a.toInt - b.toInt < 0 <;> by_cases h₂ : 2 ^ k ≤ a.toInt - b.toInt <;>
    by_cases h₃ : a.toInt - b.toInt < -2 ^ k <;> simp [h₁, h₂, h₃]

theorem sub_eq_zero_iff : a - b = 0 ↔ a = b := by
  constructor
  · intro h
    simpa [h] using (BitVec.sub_add_cancel a b).symm
  · rintro rfl
    exact BitVec.sub_self a

theorem holds_cmp (hw : 0 < w) (condition : ℕ) (old : Flags) :
    (Operation.cmp.flags a b old).holds condition = relation condition a b := by
  have hslt := slt_eq_msb_sub a b hw
  have hzero := sub_eq_zero_iff a b
  have hsle : a.sle b = (decide (a = b) || a.slt b) := by
    rw [BitVec.sle_eq_slt_or_eq, Bool.or_comm, ← Bool.beq_eq_decide_eq]
  have hnle : b.sle a = !a.slt b := BitVec.sle_eq_not_slt
  have hnlt : b.slt a = !a.sle b := by rw [BitVec.sle_eq_not_slt, Bool.not_not]
  have hule : a.ule b = (a.ult b || decide (a = b)) := by
    rw [Bool.eq_iff_iff, BitVec.ule_iff_toNat_le, Bool.or_eq_true, BitVec.ult_iff_toNat_lt,
      decide_eq_true_eq, ← BitVec.toNat_inj]
    omega
  have hnule : b.ule a = !a.ult b := BitVec.ule_eq_not_ult ..
  have hnult : b.ult a = !a.ule b := by rw [BitVec.ule_eq_not_ult, Bool.not_not]
  have hult : BitVec.usubOverflow a b = a.ult b := rfl
  simp only [Flags.holds, Operation.flags, Operation.flagsOfResult, relation, hzero]
  split <;> simp [*]

end Conditions

/-! ### Flags -/

section Flags

variable {w : ℕ}

theorem getLsbD_setFlag (flag rflags : U64) (cond : Bool) (i : ℕ) :
    (Machine.setFlag flag cond rflags).getLsbD i =
      (rflags.getLsbD i || (cond && flag.getLsbD i)) := by
  unfold Machine.setFlag
  cases cond <;> simp

def IsWidth (w : ℕ) : Prop := w = 8 ∨ w = 32 ∨ w = 64

theorem IsWidth.pos (hw : IsWidth w) : 0 < w := by
  obtain rfl | rfl | rfl := hw <;> decide

theorem IsWidth.le (hw : IsWidth w) : w ≤ 64 := by
  obtain rfl | rfl | rfl := hw <;> decide

theorem getLsbD_ones (hw : w ≤ 64) (i : ℕ) :
    (BitVec.ofNat 64 (2 ^ w - 1)).getLsbD i = decide (i < w) := by
  rw [BitVec.getLsbD_ofNat, Nat.testBit_two_pow_sub_one, ← Bool.decide_and]
  exact decide_eq_decide.2 (by omega)

theorem widthMask_eq (hw : IsWidth w) : widthMask w = BitVec.ofNat 64 (2 ^ w - 1) := by
  obtain rfl | rfl | rfl := hw <;> decide

theorem widthMask_and (hw : IsWidth w) (x : U64) :
    x &&& widthMask w = (x.setWidth w).setWidth 64 := by
  ext i hi
  rw [← BitVec.getLsbD_eq_getElem, ← BitVec.getLsbD_eq_getElem, BitVec.getLsbD_and,
    widthMask_eq hw, getLsbD_ones hw.le, BitVec.getLsbD_setWidth, BitVec.getLsbD_setWidth,
    Bool.and_comm]
  simp [hi]

theorem and_signBit (hw : w ≤ 64) (h₀ : 0 < w) (x : U64) :
    (x &&& signBit w ≠ 0) ↔ x.getLsbD (w - 1) = true := by
  have hbit (i : ℕ) : (signBit w).getLsbD i = decide (i = w - 1) := by
    have hone (i : ℕ) : (1 : U64).getLsbD i = decide (i = 0) := by
      simp
    rw [signBit, BitVec.getLsbD_shiftLeft, hone, ← decide_not, ← Bool.decide_and,
      ← Bool.decide_and]
    exact decide_eq_decide.2 (by omega)
  constructor
  · intro h
    by_contra hx
    apply h
    ext i hi
    rw [← BitVec.getLsbD_eq_getElem, BitVec.getLsbD_and, hbit]
    by_cases hiw : i = w - 1
    · subst hiw
      simp [Bool.eq_false_iff.2 hx]
    · simp [hiw]
  · intro h hzero
    have := congrArg (BitVec.getLsbD · (w - 1)) hzero
    simp [hbit, h] at this

theorem popcount_low (x : U64) :
    popcount (x &&& 0xff) = (List.range 8).countP fun i => x.getLsbD i := by
  have hsplit : List.range 64 = List.range 8 ++ (List.range 56).map (8 + ·) := by decide
  have hff (i : ℕ) : (0xff : U64).getLsbD i = decide (i < 8) := @getLsbD_ones 8 (by decide) i
  have hhigh : ((List.range 56).map (8 + ·)).countP (fun i => (x &&& 0xff).getLsbD i) = 0 := by
    rw [List.countP_eq_zero]
    intro i hi
    obtain ⟨j, -, rfl⟩ := List.mem_map.1 hi
    rw [BitVec.getLsbD_and, hff]
    simp
  rw [popcount, hsplit, List.countP_append, hhigh, Nat.add_zero]
  refine List.countP_congr fun i hi => ?_
  rw [BitVec.getLsbD_and, hff]
  simp [List.mem_range.1 hi]

theorem flags_setFlag (r : U64) (z p s c o : Bool) (m : Machine) :
    ({ m with rflags := Machine.setFlag flagOf o (Machine.setFlag flagCf c
        (Machine.setFlag flagSf s (Machine.setFlag flagPf p (Machine.setFlag flagZf z
          (r &&& ~~~(flagCf ||| flagPf ||| flagZf ||| flagSf ||| flagOf)))))) } : Machine).flags =
      ⟨c, p, z, s, o⟩ := by
  simp only [Machine.flags, getLsbD_setFlag, BitVec.getLsbD_and]
  simp [flagCf, flagPf, flagZf, flagSf, flagOf]

theorem setFlag_false (flag r : U64) : Machine.setFlag flag false r = r := rfl

theorem setWidth_and_widthMask (hw : IsWidth w) (a : BitVec w) :
    a.setWidth 64 &&& widthMask w = a.setWidth 64 := by
  rw [widthMask_and hw, BitVec.setWidth_setWidth_of_le _ hw.le, BitVec.setWidth_eq]

theorem setWidth_eq_zero (hw : IsWidth w) (r : BitVec w) : r.setWidth 64 = 0 ↔ r = 0 := by
  have hle := hw.le
  have hlt : r.toNat < 2 ^ 64 := lt_of_lt_of_le r.isLt (Nat.pow_le_pow_right (by decide) hle)
  rw [← BitVec.toNat_inj, ← BitVec.toNat_inj, BitVec.toNat_setWidth, Nat.mod_eq_of_lt hlt]
  simp

theorem toNat_setWidth (hw : IsWidth w) (r : BitVec w) : (r.setWidth 64).toNat = r.toNat := by
  rw [BitVec.toNat_setWidth]
  exact Nat.mod_eq_of_lt (lt_of_lt_of_le r.isLt (Nat.pow_le_pow_right (by decide) hw.le))

theorem getLsbD_setWidth (hw : IsWidth w) (r : BitVec w) (i : ℕ) :
    (r.setWidth 64).getLsbD i = r.getLsbD i := by
  rw [← BitVec.testBit_toNat, toNat_setWidth hw, BitVec.testBit_toNat]

theorem popcount_setWidth (hw : IsWidth w) (r : BitVec w) :
    decide (popcount (r.setWidth 64 &&& 0xff) % 2 = 0) = evenParity r := by
  simp only [popcount_low, getLsbD_setWidth hw, evenParity]

theorem signBit_setWidth (hw : IsWidth w) (r : BitVec w) :
    decide (r.setWidth 64 &&& signBit w ≠ 0) = r.msb := by
  rw [BitVec.msb_eq_getLsbD_last, ← getLsbD_setWidth hw, Bool.eq_iff_iff, decide_eq_true_eq]
  exact and_signBit hw.le hw.pos _

theorem updateLogicFlags_flags (hw : IsWidth w) (m : Machine) (r : BitVec w) :
    (m.updateLogicFlags (r.setWidth 64) w).flags = Operation.flagsOfResult r false false := by
  have hflags := flags_setFlag m.rflags (r = 0) (evenParity r) r.msb false false m
  rw [setFlag_false, setFlag_false] at hflags
  simp only [Machine.updateLogicFlags, setWidth_and_widthMask hw, popcount_setWidth hw,
    signBit_setWidth hw, setWidth_eq_zero hw]
  exact hflags

theorem updateArithmeticFlags_sub (hw : IsWidth w) (m : Machine) (a b : BitVec w) :
    (m.updateArithmeticFlags (a.setWidth 64) (b.setWidth 64) ((a - b).setWidth 64) w true).flags =
      Operation.flagsOfResult (a - b) (BitVec.usubOverflow a b) (BitVec.ssubOverflow a b) := by
  have hcf : decide (a.setWidth 64 < b.setWidth 64) = BitVec.usubOverflow a b := by
    rw [BitVec.usubOverflow]
    exact decide_eq_decide.2 (by rw [BitVec.lt_def, toNat_setWidth hw, toNat_setWidth hw])
  have hof : decide ((a.setWidth 64 ^^^ b.setWidth 64) &&& (a.setWidth 64 ^^^
      (a - b).setWidth 64) &&& signBit w ≠ 0) = BitVec.ssubOverflow a b := by
    rw [BitVec.ssubOverflow_eq, Bool.eq_iff_iff, decide_eq_true_eq,
      and_signBit hw.le hw.pos]
    simp only [BitVec.getLsbD_and, BitVec.getLsbD_xor, getLsbD_setWidth hw,
      ← BitVec.msb_eq_getLsbD_last]
    cases a.msb <;> cases b.msb <;> cases (a - b).msb <;> decide
  simp only [Machine.updateArithmeticFlags, setWidth_and_widthMask hw, popcount_setWidth hw,
    signBit_setWidth hw, setWidth_eq_zero hw, if_true, hcf, hof]
  exact flags_setFlag m.rflags (a - b = 0) _ _ _ _ m

theorem updateArithmeticFlags_add (hw : IsWidth w) (m : Machine) (a b : BitVec w) :
    (m.updateArithmeticFlags (a.setWidth 64) (b.setWidth 64) ((a + b).setWidth 64) w false).flags =
      Operation.flagsOfResult (a + b) (BitVec.uaddOverflow a b) (BitVec.saddOverflow a b) := by
  have hcf : decide ((a + b).setWidth 64 < a.setWidth 64) = BitVec.uaddOverflow a b := by
    refine decide_eq_decide.2 ?_
    rw [BitVec.lt_def, toNat_setWidth hw, toNat_setWidth hw, BitVec.toNat_add]
    have ha := a.isLt
    have hb := b.isLt
    by_cases hover : a.toNat + b.toNat < 2 ^ w
    · rw [Nat.mod_eq_of_lt hover]
      omega
    · rw [Nat.mod_eq_sub_mod (by omega), Nat.mod_eq_of_lt (by omega)]
      omega
  have hof : decide (~~~(a.setWidth 64 ^^^ b.setWidth 64) &&& (a.setWidth 64 ^^^
      (a + b).setWidth 64) &&& signBit w ≠ 0) = BitVec.saddOverflow a b := by
    have hlt : w - 1 < 64 := by have := hw.le; have := hw.pos; omega
    rw [BitVec.saddOverflow_eq, Bool.eq_iff_iff, decide_eq_true_eq, and_signBit hw.le hw.pos]
    simp only [BitVec.getLsbD_and, BitVec.getLsbD_not, BitVec.getLsbD_xor, getLsbD_setWidth hw,
      ← BitVec.msb_eq_getLsbD_last, hlt]
    cases a.msb <;> cases b.msb <;> cases (a + b).msb <;> decide
  simp only [Machine.updateArithmeticFlags, setWidth_and_widthMask hw, popcount_setWidth hw,
    signBit_setWidth hw, setWidth_eq_zero hw, Bool.false_eq_true, if_false, hcf, hof]
  exact flags_setFlag m.rflags (a + b = 0) _ _ _ _ m

end Flags

/-! ### Operands -/

section Operands

variable {w : ℕ} {m m₁ m' : Machine} {modrm_at : U64} {rex : RexPrefix} {value : U64}

/-- Only `rip`, the xmm registers and the accesses may differ. -/
structure Agrees (m m' : Machine) : Prop where
  gpr : m'.gpr = m.gpr
  mem : m'.mem = m.mem
  rflags : m'.rflags = m.rflags

theorem flags_congr (h : m'.rflags = m.rflags) : m'.flags = m.flags := by
  simp only [Machine.flags, h]

theorem load_getLsbD (mem : Memory) (address : U64) (n i : ℕ) (h : 8 * n ≤ i) :
    (load mem address n).getLsbD i = false := by
  induction n generalizing address i with
  | zero => simp [load]
  | succ n ih =>
    rw [load, BitVec.getLsbD_or, BitVec.getLsbD_shiftLeft, ih _ _ (by omega),
      BitVec.getLsbD_setWidth, BitVec.getLsbD_of_ge _ _ (by omega)]
    simp

theorem load_setWidth (hw : IsWidth w) (mem : Memory) (address : U64) :
    ((load mem address (w / 8)).setWidth w).setWidth 64 = load mem address (w / 8) := by
  have hdvd : 8 * (w / 8) = w := by obtain rfl | rfl | rfl := hw <;> rfl
  ext i hi
  rw [← BitVec.getLsbD_eq_getElem, ← BitVec.getLsbD_eq_getElem, BitVec.getLsbD_setWidth,
    BitVec.getLsbD_setWidth]
  by_cases hiw : i < w
  · simp [hi, hiw]
  · simp [hiw, load_getLsbD mem address (w / 8) i (by omega)]

theorem extend_low (raw : Byte) (e : Bool) :
    (extend (lowReg raw) e < 16 ∧ extend (lowRm raw) e < 16) ∧
      extend (lowReg raw) e % 8 = lowReg raw := by
  revert raw e; decide

theorem extend_lt (raw : Byte) (e : Bool) :
    extend (lowReg raw) e < 16 ∧ extend (lowRm raw) e < 16 :=
  (extend_low raw e).1

theorem readGpr_eq (hw : IsWidth w) {n : ℕ} (hn : n < 16) (m : Machine) :
    m.readGpr n w = ((m.gpr n).setWidth w).setWidth 64 := by
  rw [Machine.readGpr, if_neg (by omega), widthMask_and hw]

theorem writeGpr_eq (hw : w = 32 ∨ w = 64) {n : ℕ} (hn : n < 16) (m : Machine) (r : BitVec w) :
    m.writeGpr n w (r.setWidth 64) = { m with gpr := Function.update m.gpr n (r.setWidth 64) } := by
  rw [Machine.writeGpr, if_neg (by omega)]
  obtain rfl | rfl := hw
  · rw [if_pos rfl, BitVec.setWidth_setWidth_of_le r (by decide), BitVec.setWidth_eq]
  · rw [if_neg (by decide), setWidth_and_widthMask (.inr (.inr rfl))]

/-- The `r/m` operand as the interpreter decodes it. -/
def ownPlace (m : Machine) (modrm_at : U64) (rex : RexPrefix) : Place :=
  rmPlace m modrm_at rex (modrm_at + BitVec.ofNat 64 (modrmSize m.mem modrm_at))

theorem readRm_eq_ok (hw : IsWidth w)
    (h : m.readRm (modrmAt m modrm_at rex) w = .ok (value, m₁)) :
    value = ((ownPlace m modrm_at rex).read m true w).setWidth 64 ∧ Agrees m m₁ := by
  simp only [Machine.readRm] at h
  by_cases hmod : modOf (m.mem modrm_at) = 3
  · simp only [modrmAt, hmod, ne_eq, not_true_eq_false, decide_false, Bool.false_eq_true, if_false,
      pure_eq_ok, Prod.mk.injEq] at h
    obtain ⟨rfl, rfl⟩ := h
    rw [readGpr_eq hw (extend_lt _ _).2]
    exact ⟨by simp [ownPlace, rmPlace, hmod, Place.read], rfl, rfl, rfl⟩
  · simp only [modrmAt, hmod, ne_eq, not_false_eq_true, decide_true, if_true, if_false] at h
    obtain ⟨rfl, rfl⟩ := readMemory_eq_ok h
    refine ⟨?_, rfl, rfl, rfl⟩
    simp [ownPlace, rmPlace, hmod, Place.read, load_setWidth hw]

theorem writeRm_eq_ok (hw : w = 32 ∨ w = 64) {r : BitVec w} (hgpr : m₁.gpr = m.gpr)
    (hmem : m₁.mem = m.mem)
    (h : m₁.writeRm (modrmAt m modrm_at rex) w (r.setWidth 64) = .ok m') :
    (m'.gpr, m'.mem) = (ownPlace m modrm_at rex).write m r ∧ m'.rflags = m₁.rflags := by
  simp only [Machine.writeRm] at h
  by_cases hmod : modOf (m.mem modrm_at) = 3
  · simp only [modrmAt, hmod, ne_eq, not_true_eq_false, decide_false, Bool.false_eq_true, if_false,
      pure_eq_ok] at h
    subst h
    rw [writeGpr_eq hw (extend_lt _ _).2]
    simp [ownPlace, rmPlace, hmod, Place.write, hgpr, hmem]
  · simp only [modrmAt, hmod, ne_eq, not_false_eq_true, decide_true, if_true, if_false] at h
    obtain rfl := writeMemory_eq_ok h
    simp [ownPlace, rmPlace, hmod, Place.write, hgpr, hmem]

/-! ### Operations -/

theorem and_widthMask (hw : IsWidth w) (x : U64) (r : BitVec w) (h : x.setWidth w = r) :
    x &&& widthMask w = r.setWidth 64 := by
  rw [widthMask_and hw, h]

theorem setWidth_setWidth (hw : IsWidth w) (a : BitVec w) : (a.setWidth 64).setWidth w = a := by
  rw [BitVec.setWidth_setWidth_of_le _ hw.le, BitVec.setWidth_eq]

theorem add_and_widthMask (hw : IsWidth w) (a b : BitVec w) :
    (a.setWidth 64 + b.setWidth 64) &&& widthMask w = (a + b).setWidth 64 := by
  refine and_widthMask hw _ _ ?_
  rw [BitVec.setWidth_add _ _ hw.le, setWidth_setWidth hw, setWidth_setWidth hw]

theorem sub_and_widthMask (hw : IsWidth w) (a b : BitVec w) :
    (a.setWidth 64 - b.setWidth 64) &&& widthMask w = (a - b).setWidth 64 := by
  refine and_widthMask hw _ _ ?_
  have hadd : (a.setWidth 64 - b.setWidth 64).setWidth w + b = a := by
    rw [← setWidth_setWidth hw b, ← BitVec.setWidth_add _ _ hw.le, setWidth_setWidth hw,
      BitVec.sub_add_cancel, setWidth_setWidth hw]
  rw [← BitVec.sub_eq_iff_eq_add.2 hadd.symm]

theorem xor_and_widthMask (hw : IsWidth w) (a b : BitVec w) :
    (a.setWidth 64 ^^^ b.setWidth 64) &&& widthMask w = (a ^^^ b).setWidth 64 := by
  refine and_widthMask hw _ _ ?_
  rw [BitVec.setWidth_xor, setWidth_setWidth hw, setWidth_setWidth hw]

theorem and_and_widthMask (hw : IsWidth w) (a b : BitVec w) :
    (a.setWidth 64 &&& b.setWidth 64) &&& widthMask w = (a &&& b).setWidth 64 := by
  refine and_widthMask hw _ _ ?_
  rw [BitVec.setWidth_and, setWidth_setWidth hw, setWidth_setWidth hw]

theorem or_and_widthMask (hw : IsWidth w) (a b : BitVec w) :
    (a.setWidth 64 ||| b.setWidth 64) &&& widthMask w = (a ||| b).setWidth 64 := by
  refine and_widthMask hw _ _ ?_
  rw [BitVec.setWidth_or, setWidth_setWidth hw, setWidth_setWidth hw]

theorem agrees_updateArithmeticFlags (lhs rhs result : U64) (subtract : Bool) :
    (m.updateArithmeticFlags lhs rhs result w subtract).gpr = m.gpr ∧
      (m.updateArithmeticFlags lhs rhs result w subtract).mem = m.mem := by
  rw [updateArithmeticFlags_eq]
  exact ⟨rfl, rfl⟩

structure Computes (o : Operation) (a b : BitVec w) (place : Place) (m m' : Machine) : Prop where
  destination : (m'.gpr, m'.mem) =
    if o.writes then place.write m (o.result a b) else (m.gpr, m.mem)
  flags : m'.flags = o.flags a b m.flags

variable {o : Operation} {a b r : BitVec w} {m₂ : Machine}

theorem write_register {n : ℕ} (hw : w = 32 ∨ w = 64) (hn : n < 16) (hm : Agrees m m₁) :
    ((m₁.writeGpr n w (r.setWidth 64)).gpr, (m₁.writeGpr n w (r.setWidth 64)).mem) =
      (Place.register n).write m r ∧
    (m₁.writeGpr n w (r.setWidth 64)).rflags = m₁.rflags := by
  rw [writeGpr_eq hw hn]
  simp [Place.write, hm.gpr, hm.mem]

theorem computes_sub (hw : IsWidth w) (ho : o = .sub ∨ o = .cmp) {place : Place}
    (hdest : (m₁.gpr, m₁.mem) =
      if o.writes then place.write m (a - b) else (m.gpr, m.mem)) :
    Computes o a b place m (m₁.updateArithmeticFlags (a.setWidth 64) (b.setWidth 64)
      ((a.setWidth 64 - b.setWidth 64) &&& widthMask w) w true) := by
  obtain ⟨hgpr, hmem⟩ := agrees_updateArithmeticFlags (m := m₁) (w := w) (a.setWidth 64)
    (b.setWidth 64) ((a.setWidth 64 - b.setWidth 64) &&& widthMask w) true
  refine ⟨?_, ?_⟩
  · rw [hgpr, hmem, hdest]
    obtain rfl | rfl := ho <;> rfl
  · rw [sub_and_widthMask hw, updateArithmeticFlags_sub hw]
    obtain rfl | rfl := ho <;> rfl

theorem computes_add (hw : IsWidth w) {place : Place}
    (hdest : (m₁.gpr, m₁.mem) = place.write m (a + b)) :
    Computes .add a b place m (m₁.updateArithmeticFlags (a.setWidth 64) (b.setWidth 64)
      ((a.setWidth 64 + b.setWidth 64) &&& widthMask w) w false) := by
  obtain ⟨hgpr, hmem⟩ := agrees_updateArithmeticFlags (m := m₁) (w := w) (a.setWidth 64)
    (b.setWidth 64) ((a.setWidth 64 + b.setWidth 64) &&& widthMask w) false
  refine ⟨?_, ?_⟩
  · rw [hgpr, hmem, hdest]
    rfl
  · rw [add_and_widthMask hw, updateArithmeticFlags_add hw]
    rfl

theorem computes_logic (hw : IsWidth w) (ho : o = .xor ∨ o = .and ∨ o = .or ∨ o = .test)
    {place : Place} (hdest : (m₁.gpr, m₁.mem) =
      if o.writes then place.write m (o.result a b) else (m.gpr, m.mem)) :
    Computes o a b place m (m₁.updateLogicFlags ((o.result a b).setWidth 64) w) := by
  refine ⟨?_, ?_⟩
  · rw [← hdest]
    rfl
  · rw [updateLogicFlags_flags hw]
    obtain rfl | rfl | rfl | rfl := ho <;> rfl

theorem registerOperation_eq {op : Byte} {to_rm : Bool}
    (h : registerOperation op = some (o, to_rm)) :
    op = 0x01 ∧ o = .add ∧ to_rm = true ∨ op = 0x03 ∧ o = .add ∧ to_rm = false ∨
    op = 0x29 ∧ o = .sub ∧ to_rm = true ∨ op = 0x2b ∧ o = .sub ∧ to_rm = false ∨
    op = 0x31 ∧ o = .xor ∧ to_rm = true ∨ op = 0x39 ∧ o = .cmp ∧ to_rm = true ∨
    op = 0x3b ∧ o = .cmp ∧ to_rm = false ∨ (op = 0x84 ∨ op = 0x85) ∧ o = .test ∧ to_rm = true ∨
    op = 0x89 ∧ o = .mov ∧ to_rm = true ∨ op = 0x8b ∧ o = .mov ∧ to_rm = false := by
  have hsome : ∀ {o' : Operation} {b : Bool}, some (o', b) = some (o, to_rm) →
      o = o' ∧ to_rm = b := by
    intro o' b h
    cases h
    exact ⟨rfl, rfl⟩
  unfold registerOperation at h
  obtain ⟨hop, h⟩ | ⟨-, h⟩ := ite_eq_iff.1 h
  · exact .inl ⟨hop, hsome h⟩
  refine .inr ?_
  obtain ⟨hop, h⟩ | ⟨-, h⟩ := ite_eq_iff.1 h
  · exact .inl ⟨hop, hsome h⟩
  refine .inr ?_
  obtain ⟨hop, h⟩ | ⟨-, h⟩ := ite_eq_iff.1 h
  · exact .inl ⟨hop, hsome h⟩
  refine .inr ?_
  obtain ⟨hop, h⟩ | ⟨-, h⟩ := ite_eq_iff.1 h
  · exact .inl ⟨hop, hsome h⟩
  refine .inr ?_
  obtain ⟨hop, h⟩ | ⟨-, h⟩ := ite_eq_iff.1 h
  · exact .inl ⟨hop, hsome h⟩
  refine .inr ?_
  obtain ⟨hop, h⟩ | ⟨-, h⟩ := ite_eq_iff.1 h
  · exact .inl ⟨hop, hsome h⟩
  refine .inr ?_
  obtain ⟨hop, h⟩ | ⟨-, h⟩ := ite_eq_iff.1 h
  · exact .inl ⟨hop, hsome h⟩
  refine .inr ?_
  obtain ⟨hop, h⟩ | ⟨-, h⟩ := ite_eq_iff.1 h
  · exact .inl ⟨hop, hsome h⟩
  refine .inr ?_
  obtain ⟨hop, h⟩ | ⟨-, h⟩ := ite_eq_iff.1 h
  · exact .inl ⟨hop, hsome h⟩
  refine .inr ?_
  obtain ⟨hop, h⟩ | ⟨-, h⟩ := ite_eq_iff.1 h
  · exact ⟨hop, hsome h⟩
  · cases h

theorem arithmetic_computes {op : Byte} {to_rm : Bool} (hw : IsWidth w)
    (hop : registerOperation op = some (o, to_rm)) (hwide : op = 0x84 ∨ w = 32 ∨ w = 64)
    (h : m.arithmetic op (modrmAt m modrm_at rex) w = .ok m') :
    let rm := ownPlace m modrm_at rex
    let reg := regPlace m modrm_at rex
    Computes o ((if to_rm then rm else reg).read m true w)
      ((if to_rm then reg else rm).read m true w) (if to_rm then rm else reg) m m' := by
  intro rm reg
  simp only [Machine.arithmetic, bind_eq_ok] at h
  obtain ⟨⟨v, m₁⟩, hread, h⟩ := h
  obtain ⟨rfl, hm⟩ := readRm_eq_ok hw hread
  have hreg : m₁.readGpr (modrmAt m modrm_at rex).reg w = (reg.read m true w).setWidth 64 := by
    have hn : (modrmAt m modrm_at rex).reg < 16 := (extend_lt _ _).1
    rw [readGpr_eq hw hn, hm.gpr]
    simp [reg, regPlace, Place.read, modrmAt]
  have hregw (r : BitVec w) (hw : w = 32 ∨ w = 64) :=
    write_register (r := r) hw (extend_lt (m.mem modrm_at) rex.r).1 hm
  rw [hreg] at h
  dsimp only at h
  obtain ⟨rfl, rfl, rfl⟩ | ⟨rfl, rfl, rfl⟩ | ⟨rfl, rfl, rfl⟩ | ⟨rfl, rfl, rfl⟩ | ⟨rfl, rfl, rfl⟩ |
    ⟨rfl, rfl, rfl⟩ | ⟨rfl, rfl, rfl⟩ | ⟨htest, rfl, rfl⟩ | ⟨rfl, rfl, rfl⟩ | ⟨rfl, rfl, rfl⟩ :=
    registerOperation_eq hop
  · have hw' : w = 32 ∨ w = 64 := hwide.resolve_left (by decide)
    simp only [reduceIte, BitVec.reduceEq, bind_eq_ok, pure_eq_ok] at h
    obtain ⟨m₂, hwrite, rfl⟩ := h
    rw [add_and_widthMask hw] at hwrite
    exact computes_add hw (writeRm_eq_ok hw' hm.gpr hm.mem hwrite).1
  · have hw' : w = 32 ∨ w = 64 := hwide.resolve_left (by decide)
    simp only [reduceIte, BitVec.reduceEq, pure_eq_ok] at h
    subst h
    have hdest := (hregw (reg.read m true w + rm.read m true w) hw').1
    rw [← add_and_widthMask hw] at hdest
    exact computes_add hw hdest
  · have hw' : w = 32 ∨ w = 64 := hwide.resolve_left (by decide)
    simp only [reduceIte, BitVec.reduceEq, bind_eq_ok, pure_eq_ok] at h
    obtain ⟨m₂, hwrite, rfl⟩ := h
    rw [sub_and_widthMask hw] at hwrite
    exact computes_sub hw (.inl rfl) (writeRm_eq_ok hw' hm.gpr hm.mem hwrite).1
  · have hw' : w = 32 ∨ w = 64 := hwide.resolve_left (by decide)
    simp only [reduceIte, BitVec.reduceEq, pure_eq_ok] at h
    subst h
    have hdest := (hregw (reg.read m true w - rm.read m true w) hw').1
    rw [← sub_and_widthMask hw] at hdest
    exact computes_sub hw (.inl rfl) hdest
  · have hw' : w = 32 ∨ w = 64 := hwide.resolve_left (by decide)
    simp only [reduceIte, BitVec.reduceEq, bind_eq_ok, pure_eq_ok] at h
    obtain ⟨m₂, hwrite, rfl⟩ := h
    rw [xor_and_widthMask hw] at hwrite ⊢
    exact computes_logic hw (.inl rfl) (writeRm_eq_ok hw' hm.gpr hm.mem hwrite).1
  · simp only [reduceIte, BitVec.reduceEq, pure_eq_ok] at h
    subst h
    exact computes_sub hw (.inr rfl) (by rw [hm.gpr, hm.mem]; rfl)
  · simp only [reduceIte, BitVec.reduceEq, pure_eq_ok] at h
    subst h
    exact computes_sub hw (.inr rfl) (by rw [hm.gpr, hm.mem]; rfl)
  · have h : pure (m₁.updateLogicFlags ((rm.read m true w).setWidth 64 &&&
        (reg.read m true w).setWidth 64) w) = (.ok m' : StepM Machine) := by
      obtain rfl | rfl := htest <;> exact h
    rw [pure_eq_ok, ← BitVec.setWidth_and] at h
    subst h
    exact computes_logic hw (.inr (.inr (.inr rfl))) (by rw [hm.gpr, hm.mem]; rfl)
  · have hw' : w = 32 ∨ w = 64 := hwide.resolve_left (by decide)
    simp only [reduceIte, BitVec.reduceEq, or_self] at h
    obtain ⟨hdest, hflags⟩ := writeRm_eq_ok hw' hm.gpr hm.mem h
    exact ⟨hdest, flags_congr (hflags.trans hm.rflags)⟩
  · have hw' : w = 32 ∨ w = 64 := hwide.resolve_left (by decide)
    simp only [reduceIte, BitVec.reduceEq, or_self, pure_eq_ok] at h
    subst h
    obtain ⟨hdest, hflags⟩ := hregw (rm.read m true w) hw'
    exact ⟨hdest, flags_congr (hflags.trans hm.rflags)⟩

theorem lowReg_eq_mod (raw : Byte) (e : Bool) : extend (lowReg raw) e % 8 = lowReg raw :=
  (extend_low raw e).2

theorem groupOperation_eq {n : ℕ} (h : groupOperation n = some o) :
    n = 0 ∧ o = .add ∨ n = 1 ∧ o = .or ∨ n = 4 ∧ o = .and ∨ n = 5 ∧ o = .sub ∨
      n = 6 ∧ o = .xor ∨ n = 7 ∧ o = .cmp := by
  unfold groupOperation at h
  split at h <;> simp_all

theorem group1_computes (hw' : w = 32 ∨ w = 64) (hm : Agrees m m₁)
    (ho : groupOperation (lowReg (m.mem modrm_at)) = some o)
    (h : m₁.group1 (modrmAt m modrm_at rex) (a.setWidth 64) (b.setWidth 64) w = .ok m') :
    Computes o a b (ownPlace m modrm_at rex) m m' := by
  have hw : IsWidth w := .inr hw'
  have hlogic (r : U64) {r' : BitVec w}
      (h : (m₁.updateLogicFlags r w).writeRm (modrmAt m modrm_at rex) w (r'.setWidth 64) =
        .ok m') :=
    have hgpr : (m₁.updateLogicFlags r w).gpr = m.gpr := hm.gpr
    writeRm_eq_ok hw' hgpr hm.mem h
  have harith (lhs rhs r : U64) (subtract : Bool) {r' : BitVec w}
      (h : (m₁.updateArithmeticFlags lhs rhs r w subtract).writeRm (modrmAt m modrm_at rex) w
        (r'.setWidth 64) = .ok m') :=
    have hag := agrees_updateArithmeticFlags (m := m₁) (w := w) lhs rhs r subtract
    writeRm_eq_ok hw' (hag.1.trans hm.gpr) (hag.2.trans hm.mem) h
  have hgroup : (modrmAt m modrm_at rex).reg % 8 = lowReg (m.mem modrm_at) := lowReg_eq_mod _ _
  unfold Machine.group1 at h
  dsimp only at h
  rw [hgroup, add_and_widthMask hw, or_and_widthMask hw, and_and_widthMask hw,
    sub_and_widthMask hw, xor_and_widthMask hw] at h
  obtain ⟨hn, rfl⟩ | ⟨hn, rfl⟩ | ⟨hn, rfl⟩ | ⟨hn, rfl⟩ | ⟨hn, rfl⟩ | ⟨hn, rfl⟩ :=
    groupOperation_eq ho
  all_goals simp only [hn, reduceIte, Nat.reduceEqDiff] at h
  · obtain ⟨hdest, hflags⟩ := harith _ _ _ _ h
    exact ⟨hdest, (flags_congr hflags).trans (updateArithmeticFlags_add hw ..)⟩
  · obtain ⟨hdest, hflags⟩ := hlogic _ h
    exact ⟨hdest, (flags_congr hflags).trans (updateLogicFlags_flags hw ..)⟩
  · obtain ⟨hdest, hflags⟩ := hlogic _ h
    exact ⟨hdest, (flags_congr hflags).trans (updateLogicFlags_flags hw ..)⟩
  · obtain ⟨hdest, hflags⟩ := harith _ _ _ _ h
    exact ⟨hdest, (flags_congr hflags).trans (updateArithmeticFlags_sub hw ..)⟩
  · obtain ⟨hdest, hflags⟩ := hlogic _ h
    exact ⟨hdest, (flags_congr hflags).trans (updateLogicFlags_flags hw ..)⟩
  · rw [pure_eq_ok] at h
    subst h
    have hag := agrees_updateArithmeticFlags (m := m₁) (w := w) (a.setWidth 64) (b.setWidth 64)
      ((a - b).setWidth 64) true
    exact ⟨by rw [hag.1, hag.2, hm.gpr, hm.mem]; rfl, updateArithmeticFlags_sub hw ..⟩

theorem Computes.setRip {place : Place} {rip : U64} (h : Computes o a b place m m₁) :
    Computes o a b place m (m₁.setRip rip) :=
  ⟨h.destination, h.flags⟩

/-! ### Moves -/

theorem Agrees.refl : Agrees m m := ⟨rfl, rfl, rfl⟩

theorem writeRm_computes (hw : w = 32 ∨ w = 64)
    (h : m.writeRm (modrmAt m modrm_at rex) w (b.setWidth 64) = .ok m') :
    Computes .mov a b (ownPlace m modrm_at rex) m m' := by
  obtain ⟨hdest, hflags⟩ := writeRm_eq_ok hw rfl rfl h
  exact ⟨hdest, flags_congr hflags⟩

theorem writeGpr_computes {n : ℕ} (hw : w = 32 ∨ w = 64) (hn : n < 16) (hm : Agrees m m₁) :
    Computes .mov a b (.register n) m (m₁.writeGpr n w (b.setWidth 64)) := by
  obtain ⟨hdest, hflags⟩ := write_register (r := b) hw hn hm
  exact ⟨hdest, flags_congr (hflags.trans hm.rflags)⟩

theorem signed_four_setWidth (mem : Memory) (address : U64) :
    ((signed mem address 4).setWidth 32).setWidth 64 = load mem address 4 := by
  have htrunc : (signed mem address 4).setWidth 32 = (load mem address 4).setWidth 32 := by
    ext i hi
    have hi' : i < 64 := by omega
    rw [signed_four, ← BitVec.getLsbD_eq_getElem, ← BitVec.getLsbD_eq_getElem,
      BitVec.getLsbD_setWidth, BitVec.getLsbD_signExtend, BitVec.getLsbD_setWidth]
    simp [hi, hi']
  rw [htrunc]
  exact load_setWidth (.inr (.inl rfl)) mem address

theorem signed_eight (mem : Memory) (address : U64) :
    signed mem address 8 = load mem address 8 := by
  rw [signed]
  exact (BitVec.signExtend_eq _).trans (BitVec.setWidth_eq _)

/-! ### Forms -/

theorem read_of_not_high {place : Place} {has_rex : Bool}
    (h : ¬ (w = 8 ∧ has_rex = false ∧ place.isHighByte = true)) :
    place.read m has_rex w = place.read m true w := by
  cases place with
  | register n =>
    have hn : ¬ (w = 8 ∧ has_rex = false ∧ 4 ≤ n ∧ n < 8) := fun hn =>
      h ⟨hn.1, hn.2.1, by simp [Place.isHighByte, hn.2.2]⟩
    rw [Place.read, if_neg hn, Place.read, if_neg (by simp)]
  | memory address => rfl
  | immediate value => rfl

theorem executes_of_computes {place source : Place} {has_rex : Bool}
    (hhigh : (⟨o, w, has_rex, place, source⟩ : Form).namesHighByte = false)
    (h : Computes o (place.read m true w) (source.read m true w) place m m') :
    (⟨o, w, has_rex, place, source⟩ : Form).Executes m m' := by
  have hplace : place.read m has_rex w = place.read m true w := by
    refine read_of_not_high fun hp => ?_
    simp [Form.namesHighByte, hp.1, hp.2.1, hp.2.2] at hhigh
  have hsource : source.read m has_rex w = source.read m true w := by
    refine read_of_not_high fun hp => ?_
    simp [Form.namesHighByte, hp.1, hp.2.1, hp.2.2] at hhigh
  refine ⟨?_, ?_⟩
  · simp only [Form.left, Form.right, hplace, hsource]
    exact h.destination
  · simp only [Form.left, Form.right, hplace, hsource]
    exact h.flags

theorem rmPlace_eq_ownPlace {i : Instruction} (rex : RexPrefix) (hmodrm : i.encoding.modrm = true)
    (h : ¬ i.RipRelativeBeforeImmediate m) :
    rmPlace m i.operand_at rex (i.next m) = ownPlace m i.operand_at rex := by
  unfold ownPlace rmPlace
  split
  · rfl
  · congr 1
    by_cases hr : RipRelative m.mem i.operand_at
    · have hzero : i.encoding.immediate = 0 := by
        by_contra hne
        exact h ⟨hmodrm, hne, hr⟩
      simp [Instruction.next, Instruction.immediateAt, hmodrm, hzero]
    · exact effectiveAddress_of_not_ripRelative hr _ _

theorem operandWidth_of_ne {op : Byte} (h : op ≠ 0x84) (rex : RexPrefix) :
    operandWidth op rex = if rex.w then 64 else 32 := by
  rw [operandWidth, if_neg h]

theorem instructionAt_register {op : Byte} {to_rm : Bool} {opcode_at : U64} (rex : RexPrefix)
    (hop : m.mem opcode_at = op) (ho : registerOperation op = some (o, to_rm)) :
    instructionAt m opcode_at rex = ⟨⟨true, 0, .modrm, .next⟩, rex, opcode_at + 1⟩ := by
  have hne : op ≠ 0x0f := by rintro rfl; cases ho
  rw [instructionAt_oneByte _ (hop ▸ hne), hop]
  rcases registerOperation_eq ho with ⟨rfl, -⟩ | ⟨rfl, -⟩ | ⟨rfl, -⟩ | ⟨rfl, -⟩ | ⟨rfl, -⟩ |
    ⟨rfl, -⟩ | ⟨rfl, -⟩ | ⟨rfl | rfl, -⟩ | ⟨rfl, -⟩ | ⟨rfl, -⟩ <;> rfl

theorem decodeOneByte_store (m : Machine) : m.decodeOneByte 0x89 = (do
    let modrm ← decodeModRm m (m.rip + 2) {}
    let m₁ ← m.writeRm modrm 32 (m.readGpr modrm.reg 32)
    return m₁.setRip (m.rip + 1 + BitVec.ofNat 64 modrm.length)) := rfl

theorem decodeOneByte_load (m : Machine) : m.decodeOneByte 0x8b = (do
    let modrm ← decodeModRm m (m.rip + 2) {}
    let (value, m₁) ← m.readRm modrm 32
    return (m₁.writeGpr modrm.reg 32 value).setRip (m.rip + 1 + BitVec.ofNat 64 modrm.length)) :=
  rfl

theorem decodeOneByte_arithmetic {op : Byte} (h : Machine.isArithmetic op = true) (m : Machine) :
    m.decodeOneByte op = (do
      let modrm ← decodeModRm m (m.rip + 2) {}
      let m₁ ← m.arithmetic op modrm 32
      return m₁.setRip (m.rip + 1 + BitVec.ofNat 64 modrm.length)) := by
  have hne : op ≠ 0x0f := by rintro rfl; cases h
  unfold Machine.decodeOneByte
  rw [if_neg hne, if_pos h]

theorem decodeOneByte_test {op : Byte} (h : op = 0x84 ∨ op = 0x85) (m : Machine) :
    m.decodeOneByte op = (do
      let modrm ← decodeModRm m (m.rip + 2) {}
      let m₁ ← m.arithmetic op modrm (operandWidth op {})
      return m₁.setRip (m.rip + 1 + BitVec.ofNat 64 modrm.length)) := by
  obtain rfl | rfl := h <;> rfl

theorem decodeOneByte_register {op : Byte} {to_rm : Bool}
    (ho : registerOperation op = some (o, to_rm)) (h : m.decodeOneByte op = .ok m') :
    let rm := ownPlace m (m.rip + 1) {}
    let reg := regPlace m (m.rip + 1) {}
    Computes o ((if to_rm then rm else reg).read m true (operandWidth op {}))
      ((if to_rm then reg else rm).read m true (operandWidth op {}))
      (if to_rm then rm else reg) m m' := by
  intro rm reg
  have h32 : IsWidth 32 := .inr (.inl rfl)
  have hwidth : IsWidth (operandWidth op {}) := by
    by_cases hop : op = 0x84
    · exact .inl (by rw [operandWidth, if_pos hop])
    · exact .inr (.inl (by rw [operandWidth_of_ne hop]; rfl))
  have hwide : op = 0x84 ∨ operandWidth op {} = 32 ∨ operandWidth op {} = 64 := by
    by_cases hop : op = 0x84
    · exact .inl hop
    · exact .inr (.inl (by rw [operandWidth_of_ne hop]; rfl))
  have hcases := registerOperation_eq ho
  have hn : extend (lowReg (m.mem (m.rip + 1))) false < 16 := (extend_lt _ _).1
  by_cases hstore : op = 0x89
  · subst hstore
    obtain ⟨rfl, rfl⟩ : o = .mov ∧ to_rm = true := by simpa using hcases
    rw [decodeOneByte_store] at h
    simp only [bind_eq_ok, pure_eq_ok, add_two] at h
    obtain ⟨modrm, hmodrm, m₁, hwrite, rfl⟩ := h
    obtain rfl := decodeModRm_eq_ok hmodrm
    have hreg : m.readGpr (modrmAt m (m.rip + 1) {}).reg 32 =
        (reg.read m true 32).setWidth 64 := by
      refine (readGpr_eq h32 hn m).trans ?_
      simp [reg, regPlace, Place.read]
    rw [hreg] at hwrite
    exact (writeRm_computes (.inl rfl) hwrite).setRip
  by_cases hload : op = 0x8b
  · subst hload
    obtain ⟨rfl, rfl⟩ : o = .mov ∧ to_rm = false := by simpa using hcases
    rw [decodeOneByte_load] at h
    simp only [bind_eq_ok, pure_eq_ok, add_two] at h
    obtain ⟨modrm, hmodrm, ⟨v, m₁⟩, hread, rfl⟩ := h
    obtain rfl := decodeModRm_eq_ok hmodrm
    obtain ⟨rfl, hm⟩ := readRm_eq_ok h32 hread
    exact (writeGpr_computes (.inl rfl) hn hm).setRip
  by_cases htest : op = 0x84 ∨ op = 0x85
  · rw [decodeOneByte_test htest] at h
    simp only [bind_eq_ok, pure_eq_ok, add_two] at h
    obtain ⟨modrm, hmodrm, m₁, hwork, rfl⟩ := h
    obtain rfl := decodeModRm_eq_ok hmodrm
    exact (arithmetic_computes hwidth ho hwide hwork).setRip
  · have harith : Machine.isArithmetic op = true := by
      rcases hcases with ⟨rfl, -⟩ | ⟨rfl, -⟩ | ⟨rfl, -⟩ | ⟨rfl, -⟩ | ⟨rfl, -⟩ | ⟨rfl, -⟩ |
        ⟨rfl, -⟩ | ⟨ht, -⟩ | ⟨rfl, -⟩ | ⟨rfl, -⟩ <;> first | rfl | contradiction
    rw [decodeOneByte_arithmetic harith] at h
    simp only [bind_eq_ok, pure_eq_ok, add_two] at h
    obtain ⟨modrm, hmodrm, m₁, hwork, rfl⟩ := h
    obtain rfl := decodeModRm_eq_ok hmodrm
    have h84 : op ≠ 0x84 := fun h => htest (.inl h)
    rw [operandWidth_of_ne h84] at hwidth hwide ⊢
    exact (arithmetic_computes hwidth ho hwide hwork).setRip

theorem decodeRex_register {rex : Byte} {to_rm : Bool}
    (ho : registerOperation (m.mem (m.rip + 1)) = some (o, to_rm))
    (h : m.decodeRex rex = .ok m') :
    let width := operandWidth (m.mem (m.rip + 1)) (decodeRexPrefix rex)
    let rm := ownPlace m (m.rip + 1 + 1) (decodeRexPrefix rex)
    let reg := regPlace m (m.rip + 1 + 1) (decodeRexPrefix rex)
    Computes o ((if to_rm then rm else reg).read m true width)
      ((if to_rm then reg else rm).read m true width) (if to_rm then rm else reg) m m' := by
  intro width rm reg
  unfold Machine.decodeRex at h
  simp only [bind_eq_ok, fetch8_eq_ok] at h
  obtain ⟨_, ⟨-, rfl⟩, h⟩ := h
  generalize hop : m.mem (m.rip + 1) = op at h ho
  have h84 : op ≠ 0x84 := by
    rintro rfl
    have h : (throw .unsupported : StepM Machine) = .ok m' := h
    simp at h
  have harith : Machine.isRexArithmetic op = true := by
    rcases registerOperation_eq ho with ⟨rfl, -⟩ | ⟨rfl, -⟩ | ⟨rfl, -⟩ | ⟨rfl, -⟩ | ⟨rfl, -⟩ |
      ⟨rfl, -⟩ | ⟨rfl, -⟩ | ⟨rfl | rfl, -⟩ | ⟨rfl, -⟩ | ⟨rfl, -⟩ <;> first | rfl | contradiction
  have hwidth : width = if (decodeRexPrefix rex).w then 64 else 32 := by
    simp only [width, hop]
    exact operandWidth_of_ne h84 _
  have hwide : width = 32 ∨ width = 64 := by
    rw [hwidth]
    split
    · exact .inr rfl
    · exact .inl rfl
  have hne : op ≠ 0x0f ∧ ¬ (0xb8 ≤ op ∧ op ≤ 0xbf) ∧ op ≠ 0x8d := by
    clear * - harith
    revert op
    decide
  rw [if_neg hne.1, if_neg hne.2.1, if_neg hne.2.2, if_pos harith, ← hwidth] at h
  simp only [bind_eq_ok, pure_eq_ok, add_one_two, add_two] at h
  obtain ⟨modrm, hmodrm, m₁, hwork, rfl⟩ := h
  obtain rfl := decodeModRm_eq_ok hmodrm
  exact (arithmetic_computes (.inr hwide) ho (.inr hwide) hwork).setRip

theorem decodeGroup1_computes (rex : Option Byte) {op : Byte} {opcode_at : U64}
    (hat : opcode_at = m.rip + (if rex.isSome then 1 else 0))
    (ho : groupOperation (lowReg (m.mem (opcode_at + 1))) = some o)
    (h : m.decodeGroup1 rex op = .ok m') :
    let prefixes := (rex.map decodeRexPrefix).getD {}
    let width := if prefixes.w then 64 else 32
    let rm := ownPlace m (opcode_at + 1) prefixes
    let i : Instruction :=
      ⟨⟨true, if op = 0x81 then 4 else 1, .modrm, .next⟩, prefixes, opcode_at + 1⟩
    Computes o (rm.read m true width) ((i.immediate m).setWidth width) rm m m' := by
  intro prefixes width rm i
  have hw' : width = 32 ∨ width = 64 := by
    simp only [width]
    split
    · exact .inr rfl
    · exact .inl rfl
  have hw : IsWidth width := .inr hw'
  simp only [Machine.decodeGroup1, bind_eq_ok, pure_eq_ok] at h
  obtain ⟨modrm, hmodrm, ⟨imm, imm_size⟩, himm, ⟨lhs, m₁⟩, hread, m₂, hgroup, rfl⟩ := h
  rw [← hat, add_two] at hmodrm
  obtain rfl := decodeModRm_eq_ok hmodrm
  obtain ⟨rfl, hsize⟩ := groupImmediate_eq_ok himm
  obtain ⟨rfl, hm⟩ := readRm_eq_ok hw hread
  have himm : i.immediate m = signed m.mem (opcode_at + 1 +
      BitVec.ofNat 64 (modrmAt m (opcode_at + 1) prefixes).length) imm_size := by
    simp [i, Instruction.immediate, Instruction.immediateAt, hsize, modrmAt]
  rw [himm]
  dsimp only at hgroup
  rw [← hat, widthMask_and hw] at hgroup
  exact (group1_computes hw' hm ho hgroup).setRip

theorem decodeOneByte_storeImmediate (m : Machine) : m.decodeOneByte 0xc7 = (do
    let modrm ← decodeModRm m (m.rip + 2) {}
    if modrm.reg ≠ 0 then throw .fault
    else do
      let imm ← m.fetch (m.rip + 1 + BitVec.ofNat 64 modrm.length) 4
      let m₁ ← m.writeRm modrm 32 imm
      return m₁.setRip (m.rip + (5 + BitVec.ofNat 64 modrm.length))) := rfl

theorem storeImmediate_computes (h : m.decodeOneByte 0xc7 = .ok m') :
    let rm := ownPlace m (m.rip + 1) {}
    let i : Instruction := ⟨⟨true, 4, .modrm, .next⟩, {}, m.rip + 1⟩
    Computes .mov (rm.read m true 32) ((i.immediate m).setWidth 32) rm m m' := by
  intro rm i
  rw [decodeOneByte_storeImmediate] at h
  simp only [bind_eq_ok, add_two] at h
  obtain ⟨modrm, hmodrm, h⟩ := h
  obtain rfl := decodeModRm_eq_ok hmodrm
  split at h
  · simp at h
  · simp only [bind_eq_ok, fetch_eq_ok, pure_eq_ok] at h
    obtain ⟨_, ⟨-, rfl⟩, m₁, hwrite, rfl⟩ := h
    have himm : i.immediate m = signed m.mem (m.rip + 1 +
        BitVec.ofNat 64 (modrmAt m (m.rip + 1) {}).length) 4 := by
      simp [i, Instruction.immediate, Instruction.immediateAt, modrmAt]
    rw [← signed_four_setWidth, ← himm] at hwrite
    exact (writeRm_computes (.inl rfl) hwrite).setRip

theorem decodeOneByte_movImmediate {op : Byte} (h : 0xb8 ≤ op ∧ op ≤ 0xbf) (m : Machine) :
    m.decodeOneByte op = (do
      let imm ← m.fetch (m.rip + 1) 4
      return (m.writeGpr (op - 0xb8).toNat 32 imm).setRip (m.rip + 5)) := by
  have hop : op = 0xb8 ∨ op = 0xb9 ∨ op = 0xba ∨ op = 0xbb ∨ op = 0xbc ∨ op = 0xbd ∨ op = 0xbe ∨
      op = 0xbf := by
    revert op
    decide
  obtain rfl | rfl | rfl | rfl | rfl | rfl | rfl | rfl := hop <;> rfl

theorem extend_movImmediate {op : Byte} (h : 0xb8 ≤ op ∧ op ≤ 0xbf) (e : Bool) :
    extend (op - 0xb8).toNat e < 16 := by
  revert op e
  decide

theorem movImmediate_computes {op : Byte} {a : BitVec 32} (hop : 0xb8 ≤ op ∧ op ≤ 0xbf)
    (h : m.decodeOneByte op = .ok m') :
    let i : Instruction := ⟨⟨false, 4, .none, .next⟩, {}, m.rip + 1⟩
    Computes .mov a ((i.immediate m).setWidth 32)
      (.register (extend (op - 0xb8).toNat false)) m m' := by
  intro i
  rw [decodeOneByte_movImmediate hop] at h
  simp only [bind_eq_ok, fetch_eq_ok, pure_eq_ok] at h
  obtain ⟨_, ⟨-, rfl⟩, rfl⟩ := h
  have himm : i.immediate m = signed m.mem (m.rip + 1) 4 := by
    simp [i, Instruction.immediate, Instruction.immediateAt]
  rw [himm, ← signed_four_setWidth]
  exact (writeGpr_computes (.inl rfl) (extend_movImmediate hop false) .refl).setRip

theorem rexMovImmediate_computes {rex : Byte} {width : ℕ} {a : BitVec width}
    (hop : 0xb8 ≤ m.mem (m.rip + 1) ∧ m.mem (m.rip + 1) ≤ 0xbf)
    (hwidth : width = if (decodeRexPrefix rex).w then 64 else 32)
    (h : m.decodeRex rex = .ok m') :
    let i : Instruction := ⟨⟨false, if (decodeRexPrefix rex).w then 8 else 4, .none, .next⟩,
      decodeRexPrefix rex, m.rip + 1 + 1⟩
    Computes .mov a ((i.immediate m).setWidth width)
      (.register (extend (m.mem (m.rip + 1) - 0xb8).toNat (decodeRexPrefix rex).b)) m m' := by
  intro i
  unfold Machine.decodeRex at h
  simp only [bind_eq_ok, fetch8_eq_ok] at h
  obtain ⟨_, ⟨-, rfl⟩, h⟩ := h
  have hne : m.mem (m.rip + 1) ≠ 0x0f := by
    intro hop'
    rw [hop'] at hop
    exact absurd hop (by decide)
  have hreg := extend_movImmediate hop (decodeRexPrefix rex).b
  rw [if_neg hne, if_pos hop] at h
  have himm : i.immediate m = signed m.mem (m.rip + 1 + 1)
      (if (decodeRexPrefix rex).w then 8 else 4) := by
    simp [i, Instruction.immediate, Instruction.immediateAt]
  split at h
  · next hw =>
    rw [if_pos hw] at hwidth himm
    subst hwidth
    simp only [bind_eq_ok, fetch_eq_ok, pure_eq_ok, add_two] at h
    obtain ⟨_, ⟨-, rfl⟩, rfl⟩ := h
    rw [himm, ← signed_eight, ← BitVec.setWidth_eq (signed m.mem (m.rip + 1 + 1) 8)]
    exact (writeGpr_computes (.inr rfl) hreg .refl).setRip
  · next hw =>
    rw [if_neg hw] at hwidth himm
    subst hwidth
    simp only [bind_eq_ok, fetch_eq_ok, pure_eq_ok, add_two] at h
    obtain ⟨_, ⟨-, rfl⟩, rfl⟩ := h
    rw [himm, ← signed_four_setWidth]
    exact (writeGpr_computes (.inl rfl) hreg .refl).setRip

theorem formAt_eq {f : Form} {opcode_at : U64} {has_rex : Bool}
    (h : formAt m opcode_at rex has_rex = some f) :
    let op := m.mem opcode_at
    let i := instructionAt m opcode_at rex
    let width := operandWidth op rex
    let reg := regPlace m (opcode_at + 1) rex
    let rm := rmPlace m (opcode_at + 1) rex (i.next m)
    (∃ o to_rm, registerOperation op = some (o, to_rm) ∧
      f = ⟨o, width, has_rex, if to_rm then rm else reg, if to_rm then reg else rm⟩) ∨
    ((op = 0x81 ∨ op = 0x83) ∧ ∃ o, groupOperation (lowReg (m.mem (opcode_at + 1))) = some o ∧
      f = ⟨o, width, has_rex, rm, .immediate (i.immediate m)⟩) ∨
    (op = 0xc7 ∧ f = ⟨.mov, width, has_rex, rm, .immediate (i.immediate m)⟩) ∨
    ((0xb8 ≤ op ∧ op ≤ 0xbf) ∧ f = ⟨.mov, width, has_rex,
      .register (extend (op - 0xb8).toNat rex.b), .immediate (i.immediate m)⟩) := by
  intro op i width reg rm
  simp only [formAt] at h
  split at h
  · next o ho => exact .inl ⟨o, true, ho, (Option.some.inj h).symm⟩
  · next o ho => exact .inl ⟨o, false, ho, (Option.some.inj h).symm⟩
  · split_ifs at h with hgroup hstore himm
    · obtain ⟨o, ho, rfl⟩ := Option.map_eq_some_iff.1 h
      exact .inr (.inl ⟨hgroup, o, ho, rfl⟩)
    · exact .inr (.inr (.inl ⟨hstore, (Option.some.inj h).symm⟩))
    · exact .inr (.inr (.inr ⟨himm, (Option.some.inj h).symm⟩))

theorem instructionAt_group1 {opcode_at : U64} (rex : RexPrefix)
    (h : m.mem opcode_at = 0x81 ∨ m.mem opcode_at = 0x83) : instructionAt m opcode_at rex =
      ⟨⟨true, if m.mem opcode_at = 0x81 then 4 else 1, .modrm, .next⟩, rex, opcode_at + 1⟩ := by
  have hne : m.mem opcode_at ≠ 0x0f := by rcases h with h | h <;> rw [h] <;> decide
  rw [instructionAt_oneByte _ hne, oneByteEncoding_group1 _ _ h]

theorem instructionAt_movImmediate {opcode_at : U64} (rex : RexPrefix)
    (h : 0xb8 ≤ m.mem opcode_at ∧ m.mem opcode_at ≤ 0xbf) : instructionAt m opcode_at rex =
      ⟨⟨false, if rex.w then 8 else 4, .none, .next⟩, rex, opcode_at + 1⟩ := by
  have hne : m.mem opcode_at ≠ 0x0f := by
    intro hop
    rw [hop] at h
    exact absurd h (by decide)
  rw [instructionAt_oneByte _ hne, oneByteEncoding_movImmediate _ _ h]

theorem instructionAt_storeImmediate {opcode_at : U64} (rex : RexPrefix)
    (h : m.mem opcode_at = 0xc7) :
    instructionAt m opcode_at rex = ⟨⟨true, 4, .modrm, .next⟩, rex, opcode_at + 1⟩ := by
  have hne : m.mem opcode_at ≠ 0x0f := by rw [h]; decide
  rw [instructionAt_oneByte _ hne, h]
  rfl

theorem decodeOneByte_executes {f : Form} (hf : formAt m m.rip {} false = some f)
    (hhigh : f.namesHighByte = false)
    (hr : ¬ (instructionAt m m.rip {}).RipRelativeBeforeImmediate m)
    (h : m.decodeOneByte (m.mem m.rip) = .ok m') : f.Executes m m' := by
  obtain ⟨o, to_rm, ho, rfl⟩ | ⟨hop, o, ho, rfl⟩ | ⟨hop, rfl⟩ | ⟨hop, rfl⟩ := formAt_eq hf
  · have hi := instructionAt_register {} rfl ho
    rw [hi] at hr
    have hrm := rmPlace_eq_ownPlace {} rfl hr
    apply executes_of_computes hhigh
    simp only [hi, hrm]
    exact decodeOneByte_register ho h
  · have hi := instructionAt_group1 {} hop
    rw [hi] at hr
    have hrm := rmPlace_eq_ownPlace {} rfl hr
    have h84 : m.mem m.rip ≠ 0x84 := by rcases hop with h | h <;> rw [h] <;> decide
    have hgroup : m.decodeGroup1 none (m.mem m.rip) = .ok m' := by
      rcases hop with hop | hop <;> rw [hop] at h ⊢ <;> exact h
    apply executes_of_computes hhigh
    simp only [hi, hrm]
    rw [operandWidth_of_ne h84]
    exact decodeGroup1_computes none (by simp) ho hgroup
  · have hi := instructionAt_storeImmediate {} hop
    rw [hi] at hr
    have hrm := rmPlace_eq_ownPlace {} rfl hr
    have h84 : m.mem m.rip ≠ 0x84 := by rw [hop]; decide
    rw [hop] at h
    apply executes_of_computes hhigh
    simp only [hi, hrm]
    rw [operandWidth_of_ne h84]
    exact storeImmediate_computes h
  · have hi := instructionAt_movImmediate {} hop
    have h84 : m.mem m.rip ≠ 0x84 := by
      intro h84
      rw [h84] at hop
      exact absurd hop (by decide)
    apply executes_of_computes hhigh
    simp only [hi]
    rw [operandWidth_of_ne h84]
    exact movImmediate_computes hop h

theorem decodeRex_executes {f : Form} {rexByte : Byte}
    (hf : formAt m (m.rip + 1) (decodeRexPrefix rexByte) true = some f)
    (hr : ¬ (instructionAt m (m.rip + 1) (decodeRexPrefix rexByte)).RipRelativeBeforeImmediate m)
    (h : m.decodeRex rexByte = .ok m') : f.Executes m m' := by
  have hhigh : f.namesHighByte = false := by
    obtain ⟨o, to_rm, ho, rfl⟩ | ⟨hop, o, ho, rfl⟩ | ⟨hop, rfl⟩ | ⟨hop, rfl⟩ := formAt_eq hf <;>
      simp [Form.namesHighByte]
  obtain ⟨o, to_rm, ho, rfl⟩ | ⟨hop, o, ho, rfl⟩ | ⟨hop, rfl⟩ | ⟨hop, rfl⟩ := formAt_eq hf
  · have hi := instructionAt_register (decodeRexPrefix rexByte) rfl ho
    rw [hi] at hr
    have hrm := rmPlace_eq_ownPlace (decodeRexPrefix rexByte) rfl hr
    apply executes_of_computes hhigh
    simp only [hi, hrm]
    exact decodeRex_register ho h
  · have hi := instructionAt_group1 (decodeRexPrefix rexByte) hop
    rw [hi] at hr
    have hrm := rmPlace_eq_ownPlace (decodeRexPrefix rexByte) rfl hr
    have h84 : m.mem (m.rip + 1) ≠ 0x84 := by rcases hop with h | h <;> rw [h] <;> decide
    have hgroup : m.decodeGroup1 (some rexByte) (m.mem (m.rip + 1)) = .ok m' := by
      unfold Machine.decodeRex at h
      simp only [bind_eq_ok, fetch8_eq_ok] at h
      obtain ⟨_, ⟨-, rfl⟩, h⟩ := h
      rcases hop with hop | hop <;> rw [hop] at h ⊢ <;> exact h
    apply executes_of_computes hhigh
    simp only [hi, hrm]
    rw [operandWidth_of_ne h84]
    exact decodeGroup1_computes (some rexByte) (by simp) ho hgroup
  · -- `DecodeRex` has no moves of an immediate to an operand
    unfold Machine.decodeRex at h
    simp only [bind_eq_ok, fetch8_eq_ok] at h
    obtain ⟨_, ⟨-, rfl⟩, h⟩ := h
    rw [hop] at h
    have h : (throw .unsupported : StepM Machine) = .ok m' := h
    simp at h
  · have hi := instructionAt_movImmediate (decodeRexPrefix rexByte) hop
    have h84 : m.mem (m.rip + 1) ≠ 0x84 := by
      intro h84
      rw [h84] at hop
      exact absurd hop (by decide)
    apply executes_of_computes hhigh
    simp only [hi]
    exact rexMovImmediate_computes hop (operandWidth_of_ne h84 _) h

/-! ### Branches -/

theorem and_flag_ne_zero (x : U64) {k : ℕ} (hk : k < 64) :
    decide (x &&& ((1 : U64) <<< k) ≠ 0) = x.getLsbD k := by
  rw [Bool.eq_iff_iff, decide_eq_true_eq]
  exact and_signBit (w := k + 1) hk (Nat.succ_pos k) x

theorem checkCondition_eq (m : Machine) {c : ℕ} (hc : c ≤ 0xf) :
    m.checkCondition c = (m.flags.holds c && decide (c ≠ 0xa ∧ c ≠ 0xb)) := by
  have hcf : decide (m.rflags &&& flagCf ≠ 0) = m.flags.cf := and_flag_ne_zero _ (by decide)
  have hzf : decide (m.rflags &&& flagZf ≠ 0) = m.flags.zf := and_flag_ne_zero _ (by decide)
  have hsf : decide (m.rflags &&& flagSf ≠ 0) = m.flags.sf := and_flag_ne_zero _ (by decide)
  have hof : decide (m.rflags &&& flagOf ≠ 0) = m.flags.of := and_flag_ne_zero _ (by decide)
  simp only [Machine.checkCondition, hcf, hzf, hsf, hof, Flags.holds]
  cases m.flags.sf <;> cases m.flags.of <;> interval_cases c <;> simp

theorem condition_le (i : Instruction) (m : Machine) : i.condition m ≤ 0xf := by
  rw [Instruction.condition, BitVec.toNat_and]
  exact Nat.and_le_right

theorem encoding_conditional (op : Byte) (w : Bool) :
    ((oneByteEncoding op w).flow = .conditional → (oneByteEncoding op w).modrm = false) ∧
      ((twoByteEncoding op).flow = .conditional → (twoByteEncoding op).modrm = false) := by
  revert op w; decide

theorem oneByteEncoding_conditional (op : Byte) (w : Bool)
    (h : (oneByteEncoding op w).flow = .conditional) : (oneByteEncoding op w).modrm = false :=
  (encoding_conditional op w).1 h

theorem twoByteEncoding_conditional (op2 : Byte)
    (h : (twoByteEncoding op2).flow = .conditional) : (twoByteEncoding op2).modrm = false :=
  (encoding_conditional op2 false).2 h

theorem modrm_of_conditional (h : (decode m).encoding.flow = .conditional) :
    (decode m).encoding.modrm = false := by
  unfold decode instructionAfterPrefix instructionAt at h ⊢
  split_ifs at h ⊢
  all_goals first
    | exact oneByteEncoding_conditional _ _ h
    | exact twoByteEncoding_conditional _ h

theorem step_branch (hflow : (decode m).encoding.flow = .conditional) (h : m.step = .ok m') :
    m'.rip = branchTarget m (m.checkCondition ((decode m).condition m)) := by
  have hr : ¬ (decode m).RipRelativeBeforeImmediate (resetAccesses m) := fun hr =>
    absurd hr.1 (by simp [modrm_of_conditional hflow])
  have hrip := (addresses_resetAccesses.1 ((step_eq_ok h).2 hr)).rip
  rwa [Instruction.target, hflow] at hrip

theorem holds_of_regular (hflow : (decode m).encoding.flow = .conditional)
    (hr : ¬ TakesParityBranch m) : m.checkCondition ((decode m).condition m) =
      m.flags.holds ((decode m).condition m) := by
  rw [checkCondition_eq m (condition_le _ _)]
  by_cases hc : (decode m).condition m ≠ 0xa ∧ (decode m).condition m ≠ 0xb
  · simp [hc]
  · have hholds : m.flags.holds ((decode m).condition m) = false := by
      by_contra hholds
      rw [Bool.not_eq_false] at hholds
      refine hr ⟨hflow, ?_⟩
      by_cases ha : (decode m).condition m = 0xa
      · rw [ha] at hholds
        exact .inl ⟨ha, hholds⟩
      · have hb : (decode m).condition m = 0xb := by
          by_contra hb
          exact hc ⟨ha, hb⟩
        rw [hb] at hholds
        exact .inr ⟨hb, by simpa [Flags.holds] using hholds⟩
    simp [hholds]

/-! ### Whole steps -/

theorem not_dispatched_of_form (op : Byte) (h : (registerOperation op).isSome = true ∨
    (op = 0x81 ∨ op = 0x83) ∨ op = 0xc7 ∨ 0xb8 ≤ op ∧ op ≤ 0xbf) :
    isLegacyPrefix op = false ∧ isRexByte op = false ∧ op ≠ 0x0f ∧ ¬ (0x70 ≤ op ∧ op ≤ 0x7f) := by
  revert op; decide

theorem opcode_of_form {f : Form} {opcode_at : U64} {has_rex : Bool}
    (h : formAt m opcode_at rex has_rex = some f) :
    (registerOperation (m.mem opcode_at)).isSome = true ∨
      (m.mem opcode_at = 0x81 ∨ m.mem opcode_at = 0x83) ∨ m.mem opcode_at = 0xc7 ∨
      0xb8 ≤ m.mem opcode_at ∧ m.mem opcode_at ≤ 0xbf := by
  obtain ⟨o, to_rm, ho, -⟩ | ⟨hop, -⟩ | ⟨hop, -⟩ | ⟨hop, -⟩ := formAt_eq h
  · exact .inl (by rw [ho]; rfl)
  · exact .inr (.inl hop)
  · exact .inr (.inr (.inl hop))
  · exact .inr (.inr (.inr hop))

theorem width_pos_of_formAt {f : Form} {opcode_at : U64} {has_rex : Bool}
    (h : formAt m opcode_at rex has_rex = some f) : 0 < f.width := by
  have hwidth : 0 < operandWidth (m.mem opcode_at) rex := by
    unfold operandWidth
    split_ifs <;> decide
  obtain ⟨o, to_rm, -, rfl⟩ | ⟨-, o, -, rfl⟩ | ⟨-, rfl⟩ | ⟨-, rfl⟩ := formAt_eq h <;> exact hwidth

theorem width_pos {f : Form} (h : form m = some f) : 0 < f.width := by
  unfold form at h
  split at h <;> exact width_pos_of_formAt h

theorem dispatch_executes {f : Form} (hf : form m = some f) (hhigh : f.namesHighByte = false)
    (hr : ¬ (decode m).RipRelativeBeforeImmediate m)
    (h : (if 0x70 ≤ m.mem m.rip ∧ m.mem m.rip ≤ 0x7f then m.decodeJccShort (m.mem m.rip)
      else if 0x40 ≤ m.mem m.rip ∧ m.mem m.rip ≤ 0x4f then m.decodeRex (m.mem m.rip)
      else if m.mem m.rip = prefix66 ∨ m.mem m.rip = prefixF2 ∨ m.mem m.rip = prefixF3 then
        m.decodePrefixed (m.mem m.rip)
      else m.decodeOneByte (m.mem m.rip)) = .ok m') : f.Executes m m' := by
  unfold form at hf
  split at hf
  · next hrex =>
    have hrange := (isRexByte_iff _).1 hrex
    have hle : m.mem m.rip ≤ 0x5f := BitVec.le_trans hrange.2 (by decide)
    have hjcc : ¬ (0x70 ≤ m.mem m.rip ∧ m.mem m.rip ≤ 0x7f) := fun hjcc =>
      absurd (BitVec.le_trans hjcc.1 hrange.2) (by decide)
    rw [if_neg hjcc, if_pos hrange] at h
    rw [decode, if_neg (by simp [not_isLegacyPrefix_of_le _ (.inl hle)]), instructionAfterPrefix,
      if_pos hrex] at hr
    exact decodeRex_executes hf hr h
  · next hrex =>
    obtain ⟨hlegacyByte, hrex', htwo, hjcc⟩ := not_dispatched_of_form _ (opcode_of_form hf)
    have hrange : ¬ (0x40 ≤ m.mem m.rip ∧ m.mem m.rip ≤ 0x4f) := fun hrange =>
      hrex ((isRexByte_iff _).2 hrange)
    have hlegacy : ¬ (m.mem m.rip = prefix66 ∨ m.mem m.rip = prefixF2 ∨ m.mem m.rip = prefixF3) :=
      fun hlegacy => by simp [(isLegacyPrefix_iff _).2 hlegacy] at hlegacyByte
    rw [if_neg hjcc, if_neg hrange, if_neg hlegacy] at h
    rw [decode, if_neg (by simp [hlegacyByte]), instructionAfterPrefix, if_neg hrex] at hr
    exact decodeOneByte_executes hf hhigh hr h

theorem read_resetAccesses (place : Place) (has_rex : Bool) (w : ℕ) :
    place.read (resetAccesses m) has_rex w = place.read m has_rex w := by
  cases place <;> rfl

theorem write_resetAccesses (place : Place) (r : BitVec w) :
    place.write (resetAccesses m) r = place.write m r := by
  cases place <;> rfl

theorem executes_resetAccesses {f : Form} (h : f.Executes (resetAccesses m) m') :
    f.Executes m m' := by
  obtain ⟨hdest, hflags⟩ := h
  simp only [Form.left, Form.right, read_resetAccesses, write_resetAccesses] at hdest hflags
  exact ⟨hdest, hflags⟩

theorem follows_of_step (h : m.step = .ok m') (hr : Regular m) : Follows m m' where
  executes f hf := by
    have hhigh : f.namesHighByte = false := by
      have hany := hr.high_byte
      rw [hf] at hany
      exact hany
    simp only [Machine.step, bind_eq_ok, fetch8_eq_ok] at h
    obtain ⟨_, ⟨-, rfl⟩, h⟩ := h
    exact executes_resetAccesses (@dispatch_executes (resetAccesses m) m' f hf hhigh hr.operand h)
  branches hflow := by
    rw [step_branch hflow h, holds_of_regular hflow hr.parity]

end Operands

/-- A step that continues computes and branches as the processor does, unless it tests the second
byte of a register, addresses an operand relative to `rip` before an immediate or should take a
branch on the parity flag. A branch after a comparison then decides the relation of the operands
its condition is named for. -/
theorem step_follows (m m' : Machine) (h : m.step = .ok m') (hr : Regular m) :
    Follows m m' ∧ ∀ f m'', form m = some f → f.operation = .cmp → m'.step = .ok m'' →
      Regular m' → (decode m').encoding.flow = .conditional →
        m''.rip = branchTarget m' (relation ((decode m').condition m') (f.left m) (f.right m)) := by
  refine ⟨follows_of_step h hr, fun f m'' hf hcmp h' hr' hflow => ?_⟩
  have hflags := ((follows_of_step h hr).executes f hf).flags
  rw [(follows_of_step h' hr').branches hflow, hflags, hcmp, holds_cmp _ _ (width_pos hf)]

/-- `cmp eax, ebx` and `jb` behind it. -/
theorem step_follows_jb : ∃ m' m'' : Machine, (codeAt [0x39, 0xd8, 0x72, 0x05]).step = .ok m' ∧
    Follows (codeAt [0x39, 0xd8, 0x72, 0x05]) m' ∧ m'.step = .ok m'' ∧
    ∀ f, form (codeAt [0x39, 0xd8, 0x72, 0x05]) = some f → f.operation = .cmp →
      m''.rip = branchTarget m' (relation ((decode m').condition m')
        (f.left (codeAt [0x39, 0xd8, 0x72, 0x05]))
        (f.right (codeAt [0x39, 0xd8, 0x72, 0x05]))) := by
  have hregular : Regular (codeAt [0x39, 0xd8, 0x72, 0x05]) :=
    ⟨by decide, by decide, by decide⟩
  have hok : ((codeAt [0x39, 0xd8, 0x72, 0x05]).step >>= Machine.step).isOk = true := by
    decide
  have hnext : (codeAt [0x39, 0xd8, 0x72, 0x05]).step.map (fun m =>
      decide (¬ (decode m).RipRelativeBeforeImmediate m) && !(form m).any Form.namesHighByte &&
        decide (¬ TakesParityBranch m) && decide ((decode m).encoding.flow = .conditional)) =
      .ok true := by decide
  cases h : (codeAt [0x39, 0xd8, 0x72, 0x05]).step >>= Machine.step with
  | error e =>
    rw [h] at hok
    cases hok
  | ok m'' =>
    obtain ⟨m', h₁, h₂⟩ := bind_eq_ok.1 h
    rw [h₁] at hnext
    have hnext := Except.ok.inj hnext
    simp only [Bool.and_eq_true, decide_eq_true_eq, Bool.not_eq_true'] at hnext
    obtain ⟨⟨⟨hoperand, hhigh⟩, hparity⟩, hflow⟩ := hnext
    obtain ⟨hfollows, hcmp⟩ := step_follows _ m' h₁ hregular
    exact ⟨m', m'', h₁, hfollows, h₂, fun f hf hop =>
      hcmp f m'' hf hop h₂ ⟨hoperand, hhigh, hparity⟩ hflow⟩

/-- `jnp` with a clear parity flag falls through. -/
theorem step_follows_jnp : ¬ ∀ m m' : Machine, m.step = .ok m' → Follows m m' := by
  intro hall
  cases h : (codeAt [0x7b, 0x05]).step with
  | error e =>
    have hok : (codeAt [0x7b, 0x05]).step.isOk = true := by decide
    rw [h] at hok
    cases hok
  | ok m' =>
    have hrip : (codeAt [0x7b, 0x05]).step.map (fun m => m.rip) = .ok 0x1002 := by decide
    rw [h] at hrip
    have hrip : m'.rip = 0x1002 := Except.ok.inj hrip
    have htaken := (hall _ _ h).branches (by decide)
    rw [hrip] at htaken
    exact absurd htaken (by decide)

end OrbitConsole.Cpu
