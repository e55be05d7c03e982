import OrbitConsole.Library.Transition
import OrbitConsole.ShaderRecompiler.SharedMemorySimplify

/-!
# What the accesses of 32 bits come to

For a single invocation the instructions that replace an access do the same. A
store of 16 bits writes both halves of its dword, so with other invocations it
does the same as long as the other half is still what was loaded.
-/

namespace OrbitConsole.ShaderRecompiler

/-! ### Offsets and fields -/

theorem and_not_three (offset : BitVec 32) :
    (offset &&& ~~~(3 : BitVec 32)).toNat = offset.toNat / 4 * 4 := by
  have hshift : offset &&& ~~~(3 : BitVec 32) = (offset >>> 2) <<< 2 := by
    apply BitVec.eq_of_getLsbD_eq
    intro i hi
    have hmask : ∀ i < 32, (~~~(3 : BitVec 32)).getLsbD i = decide (2 ≤ i) := by decide
    rw [BitVec.getLsbD_and, hmask i hi, BitVec.getLsbD_shiftLeft, BitVec.getLsbD_ushiftRight]
    by_cases h : 2 ≤ i
    · have hsub : 2 + (i - 2) = i := by omega
      simp [h, hi, hsub, Nat.not_lt.2 h]
    · simp [h, Nat.not_le.1 h]
  have hlt := offset.isLt
  rw [hshift, BitVec.toNat_shiftLeft, BitVec.toNat_ushiftRight, Nat.shiftLeft_eq,
    Nat.shiftRight_eq_div_pow]
  omega

theorem halfAt_dword (offset : BitVec 32) :
    halfAt (offset &&& ~~~(3 : BitVec 32)) = halfAt offset / 2 * 2 := by
  unfold halfAt
  rw [and_not_three]
  omega

theorem bit_offset (offset : BitVec 32) :
    ((offset &&& 2) * 8).toNat = halfAt offset % 2 * 16 := by
  have hbit : offset &&& 2 = if offset.getLsbD 1 then 2 else 0 := by
    apply BitVec.eq_of_getLsbD_eq
    intro i hi
    have hmask : ∀ i < 32, (2 : BitVec 32).getLsbD i = decide (i = 1) := by decide
    rw [BitVec.getLsbD_and, hmask i hi]
    by_cases h : i = 1
    · subst h
      cases hb : offset.getLsbD 1
      · simp
      · simp
    · split
      · rw [hmask i hi]
        simp [h]
      · simp [h]
  have hodd : offset.getLsbD 1 = decide (halfAt offset % 2 = 1) := by
    unfold BitVec.getLsbD halfAt
    rw [Nat.testBit_eq_decide_div_mod_eq]
  rw [hbit, hodd]
  rcases Nat.mod_two_eq_zero_or_one (halfAt offset) with h | h <;> simp [h]

variable (a b x : BitVec 16)

theorem extractLsb'_low : (a ++ b : BitVec 32).extractLsb' 0 16 = b := by
  apply BitVec.eq_of_getLsbD_eq
  intro i hi
  simp only [BitVec.getLsbD_extractLsb', BitVec.getLsbD_append, hi, Nat.zero_add, decide_true,
    Bool.true_and, if_true]

theorem extractLsb'_high : (a ++ b : BitVec 32).extractLsb' 16 16 = a := by
  apply BitVec.eq_of_getLsbD_eq
  intro i hi
  have h : ¬ 16 + i < 16 := by omega
  simp only [BitVec.getLsbD_extractLsb', BitVec.getLsbD_append, hi, h, decide_true,
    Bool.true_and, if_false, Nat.add_sub_cancel_left]

theorem uextract_low : (BitField.uextract (a ++ b : BitVec 32) 0 16).setWidth 16 = b := by
  apply BitVec.eq_of_getLsbD_eq
  intro i hi
  rw [BitVec.getLsbD_setWidth, BitField.getLsbD_uextract (by omega)]
  simp only [BitVec.getLsbD_append, hi, Nat.zero_add, decide_true, Bool.true_and, if_true]

theorem uextract_high : (BitField.uextract (a ++ b : BitVec 32) 16 16).setWidth 16 = a := by
  apply BitVec.eq_of_getLsbD_eq
  intro i hi
  have h : ¬ 16 + i < 16 := by omega
  rw [BitVec.getLsbD_setWidth, BitField.getLsbD_uextract (by omega)]
  simp only [BitVec.getLsbD_append, hi, h, decide_true, Bool.true_and, if_false,
    Nat.add_sub_cancel_left]

theorem insert_low : BitField.insert (a ++ b : BitVec 32) (x.setWidth 32) 0 16 = a ++ x := by
  apply BitVec.eq_of_getLsbD_eq
  intro i hi
  rw [BitField.getLsbD_insert hi]
  simp only [BitVec.getLsbD_append, BitVec.getLsbD_setWidth]
  by_cases h : i < 16
  · simp [h, hi]
  · simp [h]

theorem insert_high : BitField.insert (a ++ b : BitVec 32) (x.setWidth 32) 16 16 = x ++ b := by
  apply BitVec.eq_of_getLsbD_eq
  intro i hi
  rw [BitField.getLsbD_insert hi]
  simp only [BitVec.getLsbD_append, BitVec.getLsbD_setWidth]
  by_cases h : i < 16
  · have h' : ¬ 16 ≤ i := by omega
    simp [h, h']
  · have h' : 16 ≤ i := by omega
    have h₂ : i - 16 < 32 := by omega
    simp [h, h', hi, h₂]

/-! ### Cells -/

/-- The memories are the same in the cells of an invocation. -/
def Agree (own : ℕ → Prop) (mem mem' : SharedMemory) : Prop := ∀ h, own h → mem h = mem' h

/-- A naturally aligned access to cells of the invocation. -/
inductive Aligned (own : ℕ → Prop) : Inst SharedValue → Prop
  | load16 {inst : Inst SharedValue} {offset : BitVec 32} (hop : inst.op = .loadSharedU16)
      (hargs : inst.args = [.imm (.u32 offset)]) (haligned : 2 ∣ offset.toNat)
      (hown : own (halfAt offset)) : Aligned own inst
  | load32 {inst : Inst SharedValue} {offset : BitVec 32} (hop : inst.op = .loadSharedU32)
      (hargs : inst.args = [.imm (.u32 offset)]) (haligned : 4 ∣ offset.toNat)
      (hown : ∀ i < 2, own (halfAt offset + i)) : Aligned own inst
  | load64 {inst : Inst SharedValue} {offset : BitVec 32} (hop : inst.op = .loadSharedU64)
      (hargs : inst.args = [.imm (.u32 offset)]) (haligned : 8 ∣ offset.toNat)
      (hown : ∀ i < 4, own (halfAt offset + i)) : Aligned own inst
  | write16 {inst : Inst SharedValue} {offset : BitVec 32} {x : BitVec 16}
      (hop : inst.op = .writeSharedU16) (hargs : inst.args = [.imm (.u32 offset), .imm (.u16 x)])
      (haligned : 2 ∣ offset.toNat) (hown : own (halfAt offset)) : Aligned own inst
  | write32 {inst : Inst SharedValue} {offset : BitVec 32} {x : BitVec 32}
      (hop : inst.op = .writeSharedU32) (hargs : inst.args = [.imm (.u32 offset), .imm (.u32 x)])
      (haligned : 4 ∣ offset.toNat) (hown : ∀ i < 2, own (halfAt offset + i)) : Aligned own inst
  | write64 {inst : Inst SharedValue} {offset : BitVec 32} {x : BitVec 64}
      (hop : inst.op = .writeSharedU64) (hargs : inst.args = [.imm (.u32 offset), .imm (.u64 x)])
      (haligned : 8 ∣ offset.toNat) (hown : ∀ i < 4, own (halfAt offset + i)) : Aligned own inst

variable {own : ℕ → Prop} {mem mem' : SharedMemory} {inst : Inst SharedValue}
  {offset : BitVec 32}

theorem Agree.read32 (h : Agree own mem mem') (hown : ∀ i < 2, own (halfAt offset + i)) :
    mem.read32 offset = mem'.read32 offset := by
  unfold SharedMemory.read32
  rw [h _ (hown 1 (by omega)), h (halfAt offset) (hown 0 (by omega))]

theorem Agree.read64 (h : Agree own mem mem') (hown : ∀ i < 4, own (halfAt offset + i)) :
    mem.read64 offset = mem'.read64 offset := by
  unfold SharedMemory.read64
  rw [h _ (hown 1 (by omega)), h _ (hown 2 (by omega)), h _ (hown 3 (by omega)),
    h (halfAt offset) (hown 0 (by omega))]

theorem Agree.write32 (h : Agree own mem mem') (offset x : BitVec 32) :
    Agree own (mem.write32 offset x) (mem'.write32 offset x) := by
  intro a ha
  unfold SharedMemory.write32
  simp only [Function.update_apply]
  split
  · rfl
  · split
    · rfl
    · exact h a ha

theorem Aligned.perform (hfits : Aligned own inst) (h : Agree own mem mem') :
    ∃ v r r', perform inst mem = some (v, r) ∧ perform inst mem' = some (v, r') ∧
      Agree own r r' ∧ ∀ a, ¬ own a → r a = mem a := by
  cases hfits with
  | @load16 offset hop hargs haligned hown =>
      refine ⟨some (.u16 (mem (halfAt offset))), mem, mem', ?_, ?_, h, fun _ _ => rfl⟩
      · simp [ShaderRecompiler.perform, hop, hargs]
      · simp [ShaderRecompiler.perform, hop, hargs, h _ hown]
  | @load32 offset hop hargs haligned hown =>
      refine ⟨some (.u32 (mem.read32 offset)), mem, mem', ?_, ?_, h, fun _ _ => rfl⟩
      · simp [ShaderRecompiler.perform, hop, hargs]
      · simp [ShaderRecompiler.perform, hop, hargs, h.read32 hown]
  | @load64 offset hop hargs haligned hown =>
      refine ⟨some (.u64 (mem.read64 offset)), mem, mem', ?_, ?_, h, fun _ _ => rfl⟩
      · simp [ShaderRecompiler.perform, hop, hargs]
      · simp [ShaderRecompiler.perform, hop, hargs, h.read64 hown]
  | @write16 offset x hop hargs haligned hown =>
      refine ⟨none, mem.write16 offset x, mem'.write16 offset x, ?_, ?_, ?_, ?_⟩
      · simp [ShaderRecompiler.perform, hop, hargs]
      · simp [ShaderRecompiler.perform, hop, hargs]
      · intro a ha
        simp only [SharedMemory.write16, Function.update_apply, h a ha]
      · intro a ha
        have hne : a ≠ halfAt offset := fun heq => ha (heq ▸ hown)
        simp only [SharedMemory.write16, Function.update_of_ne hne]
  | @write32 offset x hop hargs haligned hown =>
      refine ⟨none, mem.write32 offset x, mem'.write32 offset x, ?_, ?_, h.write32 offset x, ?_⟩
      · simp [ShaderRecompiler.perform, hop, hargs]
      · simp [ShaderRecompiler.perform, hop, hargs]
      · intro a ha
        have h₀ : a ≠ halfAt offset := fun heq => ha (heq ▸ hown 0 (by omega))
        have h₁ : a ≠ halfAt offset + 1 := fun heq => ha (heq ▸ hown 1 (by omega))
        simp only [SharedMemory.write32, Function.update_of_ne h₀, Function.update_of_ne h₁]
  | @write64 offset x hop hargs haligned hown =>
      refine ⟨none, mem.write64 offset x, mem'.write64 offset x, ?_, ?_, ?_, ?_⟩
      · simp [ShaderRecompiler.perform, hop, hargs]
      · simp [ShaderRecompiler.perform, hop, hargs]
      · intro a ha
        simp only [SharedMemory.write64, h a ha]
      · intro a ha
        have hne : ∀ i < 4, a ≠ halfAt offset + i := fun i hi heq => ha (heq ▸ hown i hi)
        have h₀ : a ≠ halfAt offset := hne 0 (by omega)
        simp only [SharedMemory.write64, h₀, hne 1 (by omega), hne 2 (by omega),
          hne 3 (by omega), if_false]

/-! ### Memory operations of one invocation -/

namespace Micro

variable {σ : Type}

/-- The operations with no other invocation in between. -/
def finish : Micro σ → SharedMemory → Option (σ × SharedMemory)
  | .ret s, mem => some (s, mem)
  | .load offset rest, mem => (rest (mem.read32 offset)).finish mem
  | .store offset x rest, mem => rest.finish (mem.write32 offset x)
  | .stuck, _ => none

/-- What the operations come to depends on the cells of the invocation only. -/
def Local (own : ℕ → Prop) (m : Micro σ) : Prop :=
  ∀ mem mem', Agree own mem mem' → ∃ s r r', m.finish mem = some (s, r) ∧
    m.finish mem' = some (s, r') ∧ Agree own r r'

/-- So it is after any part of the operations, whatever was loaded. -/
def Safe (own : ℕ → Prop) : Micro σ → Prop
  | .ret s => Local own (.ret s)
  | .load offset rest => Local own (.load offset rest) ∧ ∀ x, (rest x).Safe own
  | .store offset x rest => Local own (.store offset x rest) ∧ rest.Safe own
  | .stuck => False

theorem Safe.isLocal {m : Micro σ} (h : m.Safe own) : m.Local own := by
  cases m with
  | ret s => exact h
  | load offset rest => exact h.1
  | store offset x rest => exact h.1
  | stuck => exact h.elim

theorem local_ret (s : σ) : Local own (.ret s) :=
  fun mem mem' h => ⟨s, mem, mem', rfl, rfl, h⟩

theorem Local.store {m : Micro σ} (h : m.Local own) (offset x : BitVec 32) :
    Local own (.store offset x m) :=
  fun _ _ hagree => h _ _ (hagree.write32 offset x)

theorem Local.load {rest : BitVec 32 → Micro σ} (h : ∀ x, (rest x).Local own)
    (hown : ∀ i < 2, own (halfAt offset + i)) : Local own (.load offset rest) := by
  intro mem mem' hagree
  unfold finish
  rw [← hagree.read32 hown]
  exact h _ mem mem' hagree

end Micro

/-! ### What replaces an access -/

theorem halfAt_add_four (h : 8 ∣ offset.toNat) : halfAt (offset + 4) = halfAt offset + 2 := by
  have hlt := offset.isLt
  unfold halfAt
  rw [BitVec.toNat_add]
  have h4 : (4 : BitVec 32).toNat = 4 := rfl
  rw [h4]
  omega

theorem write32_dword (mem : SharedMemory) (x : BitVec 16) :
    mem.write32 (offset &&& ~~~(3 : BitVec 32))
      (BitField.insert (mem.read32 (offset &&& ~~~(3 : BitVec 32))) (x.setWidth 32)
        ((offset &&& 2) * 8).toNat 16) = mem.write16 offset x := by
  unfold SharedMemory.write32 SharedMemory.write16 SharedMemory.read32
  rw [halfAt_dword, bit_offset]
  funext a
  rcases Nat.mod_two_eq_zero_or_one (halfAt offset) with h | h
  · have hhalf : halfAt offset / 2 * 2 = halfAt offset := by omega
    rw [h, hhalf, Nat.zero_mul, insert_low, extractLsb'_low, extractLsb'_high]
    simp only [Function.update_apply]
    grind
  · have hhalf : halfAt offset / 2 * 2 + 1 = halfAt offset := by omega
    rw [h, hhalf, Nat.one_mul, insert_high, extractLsb'_low, extractLsb'_high]
    simp only [Function.update_apply]
    grind

theorem uextract_dword (mem : SharedMemory) :
    (BitField.uextract (mem.read32 (offset &&& ~~~(3 : BitVec 32)))
      ((offset &&& 2) * 8).toNat 16).setWidth 16 = mem (halfAt offset) := by
  unfold SharedMemory.read32
  rw [halfAt_dword, bit_offset]
  rcases Nat.mod_two_eq_zero_or_one (halfAt offset) with h | h
  · have hhalf : halfAt offset / 2 * 2 = halfAt offset := by omega
    rw [h, hhalf, Nat.zero_mul, uextract_low]
  · have hhalf : halfAt offset / 2 * 2 + 1 = halfAt offset := by omega
    rw [h, hhalf, Nat.one_mul, uextract_high]

theorem extractLsb'_extractLsb' (x : BitVec 64) (a b : ℕ) (h : b + 16 ≤ 32) :
    (x.extractLsb' a 32).extractLsb' b 16 = x.extractLsb' (a + b) 16 := by
  apply BitVec.eq_of_getLsbD_eq
  intro i hi
  have hlt : b + i < 32 := by omega
  simp only [BitVec.getLsbD_extractLsb', hlt, decide_true, Bool.true_and, Nat.add_assoc]

theorem write32_twice (mem : SharedMemory) (haligned : 8 ∣ offset.toNat) (x : BitVec 64) :
    (mem.write32 offset (x.extractLsb' 0 32)).write32 (offset + 4) (x.extractLsb' 32 32) =
      mem.write64 offset x := by
  unfold SharedMemory.write32 SharedMemory.write64
  rw [halfAt_add_four haligned]
  funext a
  simp only [Function.update_apply, extractLsb'_extractLsb' x _ _ (by omega : 0 + 16 ≤ 32),
    extractLsb'_extractLsb' x _ _ (by omega : 16 + 16 ≤ 32)]
  grind

theorem read32_twice (mem : SharedMemory) (haligned : 8 ∣ offset.toNat) :
    (mem.read32 (offset + 4) ++ mem.read32 offset : BitVec 64) = mem.read64 offset := by
  unfold SharedMemory.read32 SharedMemory.read64
  rw [halfAt_add_four haligned]

end OrbitConsole.ShaderRecompiler
