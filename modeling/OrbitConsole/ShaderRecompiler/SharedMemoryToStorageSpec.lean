import Mathlib.Tactic.Ring
import OrbitConsole.ShaderRecompiler.SharedMemoryToStorage

/-!
# Where the accesses to the storage buffer go

The pass adds up a byte address, and the accesses to the buffer take it for an index of their
elements. So they go to the right bytes at the beginning of the buffer only.
-/

namespace OrbitConsole.ShaderRecompiler

namespace SharedStorage

variable {inst : SharedInst} {size w : BitVec 32} {program : List SharedInst}

def hasCounterpart : Opcode → Bool
  | .sharedAtomicInc64 | .sharedAtomicDec64 | .sharedAtomicISub64 | .sharedAtomicAnd64
  | .sharedAtomicOr64 | .sharedAtomicXor64 => false
  | _ => true

/-- The instruction is replaced by one that does the same operation on the bytes of the workgroup
in the storage buffer. -/
def Moved (used_types : Width → Bool) (size w : BitVec 32) (inst : SharedInst) : Prop :=
  ∃ original moved access, emitShared inst = some original ∧ moveInst size w inst = .ok moved ∧
    emitBuffer used_types moved = some access ∧ access.operation = original.operation ∧
    access.width = original.width ∧
    access.start = w.toNat * size.toNat + inst.address.toNat

theorem calculateSharedMemoryTypes_of_mem {width : Width} (hmem : inst ∈ program)
    (htype : sharedType inst.op = some width) :
    calculateSharedMemoryTypes program width = true :=
  List.any_eq_true.2 ⟨inst, hmem, decide_eq_true htype⟩

theorem exists_replacement {op : Opcode} {width : Width} (htype : sharedType op = some width)
    (h : hasCounterpart op = true) :
    ∃ operation op', sharedOperation op = some operation ∧ replacement op = .ok op' ∧
      bufferOperation op' = some (operation, width) := by
  unfold sharedType at htype
  split at htype <;> first
    | (cases htype; done)
    | (cases h; done)
    | (cases htype; exact ⟨_, _, rfl, rfl, rfl⟩)

/-- The others stop the pass or lose half of their width. -/
theorem replacement_width_ne {op op' : Opcode} {width : Width} {operation : Operation}
    (htype : sharedType op = some width) (h : hasCounterpart op = false)
    (hop : replacement op = .ok op') : bufferOperation op' ≠ some (operation, width) := by
  unfold hasCounterpart at h
  split at h <;> first
    | (cases h; done)
    | (cases hop; done)
    | (cases hop; cases htype; simp [bufferOperation])

/-- The replacement lacks two of the accesses that `isSharedAccess` accepts. -/
theorem replacement_returns_iff {op : Opcode} (h : isSharedAccess op = true) :
    (∃ op', replacement op = .ok op') ↔ op ≠ .sharedAtomicInc64 ∧ op ≠ .sharedAtomicDec64 := by
  obtain ⟨width, htype⟩ := Option.isSome_iff_exists.1 h
  unfold sharedType at htype
  split at htype <;> first
    | (cases htype; done)
    | simp [replacement, bufferAtomicIAdd, bufferAtomicIMin, bufferAtomicIMax]

theorem moveInst_returns_iff :
    (∃ moved, moveInst size w inst = .ok moved) ↔
      inst.op ≠ .sharedAtomicInc64 ∧ inst.op ≠ .sharedAtomicDec64 := by
  by_cases hshared : isSharedAccess inst.op = true
  · rw [moveInst, if_pos hshared, ← replacement_returns_iff hshared]
    constructor
    · rintro ⟨moved, hmoved⟩
      obtain ⟨op', hop, -⟩ := Exec.bind_eq_ok.1 hmoved
      exact ⟨op', hop⟩
    · rintro ⟨op', hop⟩
      exact ⟨_, by rw [hop]; rfl⟩
  · refine ⟨fun _ => ⟨?_, ?_⟩, fun _ => ⟨inst, by rw [moveInst, if_neg hshared]⟩⟩
    all_goals
      intro hop
      exact hshared (by rw [hop]; rfl)

/-- Where the pass moves the accesses of a program, it returns iff none of the two is among them.
The induction is on the instructions that are still to be moved. -/
theorem mapM_moveInst_returns_iff :
    (∃ moved, program.mapM (moveInst size w) = .ok moved) ↔
      ∀ inst ∈ program, inst.op ≠ .sharedAtomicInc64 ∧ inst.op ≠ .sharedAtomicDec64 := by
  induction program with
  | nil => simp
  | cons inst rest ih =>
      have hfirst : (∃ moved, moveInst size w inst = .ok moved) ↔
          inst.op ≠ .sharedAtomicInc64 ∧ inst.op ≠ .sharedAtomicDec64 := moveInst_returns_iff
      rw [List.forall_mem_cons, ← hfirst, ← ih, List.mapM_cons]
      constructor
      · rintro ⟨moved, hmoved⟩
        obtain ⟨first, hfirst, hmoved⟩ := Exec.bind_eq_ok.1 hmoved
        obtain ⟨others, hothers, -⟩ := Exec.bind_eq_ok.1 hmoved
        exact ⟨⟨first, hfirst⟩, others, hothers⟩
      · rintro ⟨⟨first, hfirst⟩, others, hothers⟩
        exact ⟨first :: others, by rw [hfirst, hothers]; rfl⟩

/-- A program that is left alone is returned as it is. -/
theorem sharedMemoryToStoragePass_returns {profile : Profile} {isCompute : Bool}
    (h : ∀ inst ∈ program, inst.op ≠ .sharedAtomicInc64 ∧ inst.op ≠ .sharedAtomicDec64) :
    ∃ moved, sharedMemoryToStoragePass profile isCompute size w program = .ok moved := by
  dsimp only [sharedMemoryToStoragePass]
  split
  · exact ⟨program, rfl⟩
  · exact mapM_moveInst_returns_iff.2 h

theorem index_eq_byte {x : ℕ} (width : Width) : x % 2 ^ 32 * 2 ^ width.shift = x ↔ x = 0 := by
  refine ⟨fun h => ?_, fun h => by rw [h, Nat.zero_mod, Nat.zero_mul]⟩
  obtain ⟨t, ht, hcoprime⟩ : ∃ t, 2 ^ width.shift = t + 1 ∧ Nat.Coprime 2 t := by
    cases width
    · exact ⟨1, rfl, by decide⟩
    · exact ⟨3, rfl, by decide⟩
    · exact ⟨7, rfl, by decide⟩
  have hsplit : 2 ^ 32 * (x / 2 ^ 32) + x % 2 ^ 32 = x := Nat.div_add_mod x (2 ^ 32)
  have hlt : x % 2 ^ 32 < 2 ^ 32 := Nat.mod_lt x (Nat.two_pow_pos 32)
  rw [ht, Nat.mul_succ] at h
  have hmul : x % 2 ^ 32 * t = 2 ^ 32 * (x / 2 ^ 32) := Nat.add_right_cancel (h.trans hsplit.symm)
  have hdvd : 2 ^ 32 ∣ x % 2 ^ 32 :=
    (Nat.Coprime.pow_left 32 hcoprime).dvd_of_dvd_mul_right ⟨_, hmul⟩
  have hzero := Nat.eq_zero_of_dvd_of_lt hdvd hlt
  rw [hzero, Nat.zero_mul] at h
  exact h.symm

theorem toNat_movedAddress (a : BitVec 32) :
    (a + w * size).toNat = (w.toNat * size.toNat + a.toNat) % 2 ^ 32 := by
  rw [BitVec.toNat_add, BitVec.toNat_mul, Nat.add_mod_mod, Nat.add_comm a.toNat]

/-- A shared access of a program is moved to the bytes of its workgroup iff its opcode has a
counterpart and the bytes are the first of the buffer. -/
theorem moved_iff (hmem : inst ∈ program) (hshared : isSharedAccess inst.op = true) :
    Moved (calculateSharedMemoryTypes program) size w inst ↔
      hasCounterpart inst.op = true ∧ w.toNat * size.toNat + inst.address.toNat = 0 := by
  obtain ⟨width, htype⟩ := Option.isSome_iff_exists.1 hshared
  have hused := calculateSharedMemoryTypes_of_mem hmem htype
  have hmove (op' : Opcode) (hop : replacement inst.op = .ok op') :
      moveInst size w inst = .ok { op := op', address := inst.address + w * size } := by
    rw [moveInst, if_pos hshared, hop]
    rfl
  constructor
  · rintro ⟨original, moved, access, horiginal, hmoved, haccess, hoperation, hwidth, hstart⟩
    rw [moveInst, if_pos hshared] at hmoved
    obtain ⟨op', hop, hmoved⟩ := Exec.bind_eq_ok.1 hmoved
    obtain rfl := Exec.pure_eq_ok.1 hmoved
    have horiginalWidth : original.width = width := by
      unfold emitShared at horiginal
      rw [htype] at horiginal
      split at horiginal
      · next heq =>
          cases heq
          cases horiginal
          rfl
      · cases horiginal
    unfold emitBuffer at haccess
    split at haccess
    · next operation width' hbuffer =>
        split at haccess
        · cases haccess
          obtain rfl : width' = width := hwidth.trans horiginalWidth
          cases hcounter : hasCounterpart inst.op with
          | false => exact absurd hbuffer (replacement_width_ne htype hcounter hop)
          | true =>
              dsimp only at hstart
              rw [toNat_movedAddress, index_eq_byte] at hstart
              exact ⟨rfl, hstart⟩
        · cases haccess
    · cases haccess
  · rintro ⟨hcounter, hzero⟩
    obtain ⟨operation, op', hoperation, hop, hbuffer⟩ := exists_replacement htype hcounter
    have horiginal : emitShared inst = some
        ⟨operation, width, (inst.address >>> width.shift).toNat * 2 ^ width.shift⟩ := by
      rw [emitShared, hoperation, htype]
    refine ⟨_, _, ⟨operation, width, (inst.address + w * size).toNat * 2 ^ width.shift⟩,
      horiginal, hmove op' hop, ?_, rfl, rfl, ?_⟩
    · rw [emitBuffer, hbuffer]
      exact if_pos hused
    · rw [toNat_movedAddress, index_eq_byte]
      exact hzero

theorem moved_iff_first :
    Moved (calculateSharedMemoryTypes [⟨.loadSharedU32, 0⟩]) 65536 0 ⟨.loadSharedU32, 0⟩ ↔
      hasCounterpart .loadSharedU32 = true ∧
        (0 : BitVec 32).toNat * (65536 : BitVec 32).toNat + (0 : BitVec 32).toNat = 0 :=
  moved_iff (.head _) rfl

/-- The word at byte 4 is loaded from byte 16. -/
theorem second_word_not_moved :
    ¬ ∀ (program : List SharedInst) (size w : BitVec 32), ∀ inst ∈ program,
      isSharedAccess inst.op = true → inst.address.toNat % 4 = 0 →
      inst.address.toNat + 8 ≤ size.toNat →
      Moved (calculateSharedMemoryTypes program) size w inst := by
  intro h
  have hmoved := h [⟨.loadSharedU32, 4⟩] 65536 0 ⟨.loadSharedU32, 4⟩ (.head _) rfl rfl (by decide)
  obtain ⟨_, _, _, _, hmove, haccess, _, _, hstart⟩ := hmoved
  cases hmove
  cases haccess
  exact absurd hstart (by decide)

end SharedStorage

end OrbitConsole.ShaderRecompiler
