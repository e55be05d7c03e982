import OrbitConsole.Core.Cpu.Precise
import OrbitConsole.Core.Cpu.Stack

/-!
# Stack instructions of the interpreter

They leave the registers and the stack as the processor does, except that a pop into the
stack pointer adds to the value it popped, and that a fault of a push or of LEAVE comes
after the stack pointer has moved.
-/

namespace OrbitConsole.Cpu

open Function (update update_comm update_eq_self update_idem update_of_ne update_self)

variable {m m' m₁ m₂ : Machine} {i : StackInstruction} {length value next : U64} {reg : ℕ}

/-! ### Stored values -/

theorem sub_add_one_toNat {a p : U64} (h : p ≠ a) : (p - a).toNat = (p - (a + 1)).toNat + 1 := by
  bv_omega

theorem store_apply (mem : Memory) (a : U64) (v : U64) (p : U64) {n : ℕ} (hn : n ≤ 8) :
    store mem a n v p =
      if (p - a).toNat < n then (v >>> (8 * (p - a).toNat)).setWidth 8 else mem p := by
  induction n generalizing mem a v with
  | zero => simp [store]
  | succ n ih =>
      rw [store, ih _ _ _ (by omega)]
      rcases eq_or_ne p a with rfl | hne
      · have hone : (p - (p + 1)).toNat = 18446744073709551615 := by
          have hsub : p - (p + 1) = -1 := by bv_omega
          rw [hsub]
          rfl
        rw [if_neg (by omega), if_pos (by simp), update_self]
        simp
      · have hsucc := sub_add_one_toNat hne
        rw [update_of_ne hne]
        by_cases hlt : (p - (a + 1)).toNat < n
        · rw [if_pos hlt, if_pos (by omega), hsucc, ← BitVec.shiftRight_add]
          congr 2
          omega
        · rw [if_neg hlt, if_neg (by omega)]

theorem getLsbD_load (mem : Memory) (a : U64) (n k : ℕ) :
    (load mem a n).getLsbD k =
      (decide (k < 8 * n ∧ k < 64) && (mem (a + BitVec.ofNat 64 (k / 8))).getLsbD (k % 8)) := by
  induction n generalizing a k with
  | zero => simp [load]
  | succ n ih =>
      rw [load, BitVec.getLsbD_or, BitVec.getLsbD_shiftLeft, BitVec.getLsbD_setWidth, ih]
      by_cases hk : k < 8
      · have hdiv : k / 8 = 0 := by omega
        have hmod : k % 8 = k := by omega
        have hlt : k < 8 * (n + 1) ∧ k < 64 := by omega
        simp [hk, hdiv, hmod, hlt.1, hlt.2]
      · have hdiv : a + 1 + BitVec.ofNat 64 ((k - 8) / 8) = a + BitVec.ofNat 64 (k / 8) := by
          have hsub : k / 8 = (k - 8) / 8 + 1 := by omega
          rw [hsub, BitVec.ofNat_add]
          bv_omega
        have hmod : (k - 8) % 8 = k % 8 := by omega
        have hhigh : (mem a).getLsbD k = false := BitVec.getLsbD_of_ge _ _ (by omega)
        rw [hdiv, hmod, hhigh]
        by_cases hk64 : k < 64
        · have hiff : (k - 8 < 8 * n ∧ k - 8 < 64) ↔ (k < 8 * (n + 1) ∧ k < 64) := by omega
          simp [hk, hk64, hiff]
        · simp [hk64]

theorem load_store (mem : Memory) (a v : U64) : load (store mem a 8 v) a 8 = v := by
  apply BitVec.eq_of_getLsbD_eq
  intro k hk
  have hat : (a + BitVec.ofNat 64 (k / 8) - a).toNat = k / 8 := by
    have hsub : a + BitVec.ofNat 64 (k / 8) - a = BitVec.ofNat 64 (k / 8) := by bv_omega
    rw [hsub, BitVec.toNat_ofNat]
    omega
  have hlt : k / 8 < 8 := by omega
  have hbit : 8 * (k / 8) + k % 8 = k := by omega
  have hmod : k % 8 < 8 := by omega
  rw [getLsbD_load, store_apply _ _ _ _ (Nat.le_refl 8), hat, if_pos hlt, BitVec.getLsbD_setWidth,
    BitVec.getLsbD_ushiftRight, hbit]
  simp [hk, hmod]

/-! ### Matching the architecture -/

/-- Equal registers, flags and memory. -/
def SameState (m m' : Machine) : Prop :=
  m.toGuestRegisterContext = m'.toGuestRegisterContext ∧ m.mem = m'.mem

/-- The step ends in the state of the architecture, where a fault changes nothing. -/
def Outcome.Matches (o : Outcome) (m : Machine) : Option Machine → Prop
  | some m' => o.result ≠ some .fault ∧ SameState o.after m'
  | none => o.result = some .fault ∧ SameState o.after m

/-- A pop that reads into the stack pointer, or a fault after the stack pointer has moved. -/
def StackInstruction.Misses (i : StackInstruction) (m : Machine) : Prop :=
  match i with
  | .pop reg => reg = rspIndex ∧ m.gpr rspIndex ≠ 0
  | .push _ => m.gpr rspIndex = 8
  | .pushImmediate _ => m.rip + 1 ≠ 0 ∧ m.gpr rspIndex = 8
  | .call => m.rip + 1 ≠ 0 ∧ m.gpr rspIndex = 8
  | .leave => m.gpr rbpIndex = 0 ∧ m.gpr rspIndex ≠ 0
  | _ => False

theorem sub_eight_eq_zero (a : U64) : a - 8 = 0 ↔ a = 8 := by
  constructor <;> intro h <;> bv_omega

theorem pushOutcome_fault (h : m.gpr rspIndex - 8 = 0) : m.pushOutcome value next =
    ⟨some .fault, { m with gpr := update m.gpr rspIndex (m.gpr rspIndex - 8) }⟩ := by
  rw [Machine.pushOutcome, Machine.push64, Machine.writeMemory, if_pos h]
  rfl

theorem pushOutcome_ok (h : m.gpr rspIndex - 8 ≠ 0) : m.pushOutcome value next =
    ⟨none, { m with
      gpr := update m.gpr rspIndex (m.gpr rspIndex - 8)
      mem := store m.mem (m.gpr rspIndex - 8) 8 value
      rip := next
      accesses := (m.gpr rspIndex - 8) :: m.accesses }⟩ := by
  rw [Machine.pushOutcome, Machine.push64, Machine.writeMemory, if_neg h]
  rfl

theorem pushOutcome_matches (m : Machine) (value next : U64) :
    (m.pushOutcome value next).Matches m (pushed m value next) ↔ m.gpr rspIndex ≠ 8 := by
  rw [ne_eq, ← sub_eight_eq_zero, pushed]
  by_cases hzero : m.gpr rspIndex - 8 = 0
  · rw [pushOutcome_fault hzero, if_pos hzero]
    refine iff_of_false ?_ (not_not_intro hzero)
    rintro ⟨-, hsame, -⟩
    have hgpr := congrFun (congrArg GuestRegisterContext.gpr hsame) rspIndex
    change update m.gpr rspIndex (m.gpr rspIndex - 8) rspIndex = m.gpr rspIndex at hgpr
    rw [update_self] at hgpr
    bv_omega
  · rw [pushOutcome_ok hzero, if_neg hzero]
    exact iff_of_true ⟨nofun, rfl, rfl⟩ hzero

theorem fetchOutcome_of_ok {α : Type} {rest : α → Outcome} {part : StepM α} {a : α}
    (h : part = .ok a) : m.fetchOutcome part rest = rest a := by
  rw [h]
  rfl

theorem fetchOutcome_of_fault {α : Type} {rest : α → Outcome} {part : StepM α}
    (h : part = .error .fault) : (m.fetchOutcome part rest).Matches m none := by
  rw [h]
  exact ⟨rfl, rfl, rfl⟩

theorem popOutcome_ok (h : m.gpr rspIndex ≠ 0) : m.popOutcome reg next =
    ⟨none, { m with
      gpr := update (update m.gpr reg (load m.mem (m.gpr rspIndex) 8)) rspIndex
        (update m.gpr reg (load m.mem (m.gpr rspIndex) 8) rspIndex + 8)
      rip := next
      accesses := m.gpr rspIndex :: m.accesses }⟩ := by
  rw [Machine.popOutcome, Machine.pop64Gpr, Machine.readMemory, if_neg h]
  rfl

theorem popOutcome_fault (h : m.gpr rspIndex = 0) :
    m.popOutcome reg next = ⟨some .fault, m⟩ := by
  rw [Machine.popOutcome, Machine.pop64Gpr, Machine.readMemory, if_pos h]
  rfl

theorem popOutcome_matches (m : Machine) (reg : ℕ) (length : U64) :
    (m.popOutcome reg (m.rip + length)).Matches m
      ((StackInstruction.pop reg).execute length m) ↔ ¬ (StackInstruction.pop reg).Misses m := by
  simp only [StackInstruction.execute, StackInstruction.Misses]
  by_cases hzero : m.gpr rspIndex = 0
  · rw [popOutcome_fault hzero, if_pos hzero]
    exact iff_of_true ⟨rfl, rfl, rfl⟩ fun h => h.2 hzero
  · rw [popOutcome_ok hzero, if_neg hzero]
    rcases eq_or_ne reg rspIndex with rfl | hne
    · refine iff_of_false ?_ (not_not_intro ⟨rfl, hzero⟩)
      rintro ⟨-, hsame, -⟩
      have hgpr := congrFun (congrArg GuestRegisterContext.gpr hsame) rspIndex
      simp only [update_self] at hgpr
      bv_omega
    · refine iff_of_true ⟨nofun, ?_, rfl⟩ fun h => hne h.1
      simp only [update_of_ne hne.symm]
      rw [update_comm hne]

theorem retOutcome_matches (m : Machine) (stack_pop : U64) :
    (m.retOutcome stack_pop).Matches m
      (if m.gpr rspIndex = 0 then none
        else some { m with
          gpr := update m.gpr rspIndex (m.gpr rspIndex + 8 + stack_pop)
          rip := load m.mem (m.gpr rspIndex) 8 }) := by
  rw [Machine.retOutcome, Machine.pop64, Machine.readMemory]
  by_cases hzero : m.gpr rspIndex = 0
  · rw [if_pos hzero, if_pos hzero]
    exact ⟨rfl, rfl, rfl⟩
  · rw [if_neg hzero, if_neg hzero]
    simp only [pure_bind]
    refine ⟨?_, ?_, rfl⟩
    · change (if _ then some StepResult.halt else none) ≠ _
      split <;> simp
    · change GuestRegisterContext.mk (update (update m.gpr rspIndex
        (m.gpr rspIndex + 8)) rspIndex (update m.gpr rspIndex (m.gpr rspIndex + 8)
        rspIndex + stack_pop)) _ _ _ = _
      rw [update_self, update_idem]

theorem leaveOutcome_matches (m : Machine) :
    m.leaveOutcome.Matches m (StackInstruction.leave.execute 1 m) ↔
      ¬ StackInstruction.leave.Misses m := by
  simp only [Machine.leaveOutcome, StackInstruction.execute, StackInstruction.Misses,
    Machine.pop64, Machine.readMemory, update_self]
  by_cases hzero : m.gpr rbpIndex = 0
  · rw [if_pos hzero, if_pos hzero]
    simp only [hzero, ne_eq, true_and, not_not]
    constructor
    · rintro ⟨-, hsame, -⟩
      have hgpr := congrFun (congrArg GuestRegisterContext.gpr hsame) rspIndex
      change update m.gpr rspIndex 0 rspIndex = m.gpr rspIndex at hgpr
      rw [update_self] at hgpr
      exact hgpr.symm
    · intro hrsp
      refine ⟨rfl, ?_, rfl⟩
      change GuestRegisterContext.mk (update m.gpr rspIndex 0) _ _ _ = _
      rw [← hrsp, update_eq_self]
  · rw [if_neg hzero, if_neg hzero]
    refine iff_of_true ⟨fun h => (by cases h), ?_, rfl⟩ fun h => hzero h.1
    change GuestRegisterContext.mk (update (update (update m.gpr
      rspIndex (m.gpr rbpIndex)) rspIndex _) rbpIndex _) _ _ _ = _
    rw [update_idem]
    simp only [update_self]

/-! ### Decoding -/

theorem byte_push (op : Byte) (h : 0x50 ≤ op ∧ op ≤ 0x57) : op = 0x50 ∨ op = 0x51 ∨ op = 0x52 ∨
    op = 0x53 ∨ op = 0x54 ∨ op = 0x55 ∨ op = 0x56 ∨ op = 0x57 := by
  revert op
  decide

theorem byte_pop (op : Byte) (h : 0x58 ≤ op ∧ op ≤ 0x5f) : op = 0x58 ∨ op = 0x59 ∨ op = 0x5a ∨
    op = 0x5b ∨ op = 0x5c ∨ op = 0x5d ∨ op = 0x5e ∨ op = 0x5f := by
  revert op
  decide

theorem oneByteOutcome_eq_some {op : Byte} {o : Outcome} (h : m.oneByteOutcome op = some o) :
    ((0x50 ≤ op ∧ op ≤ 0x57) ∧
      o = m.pushOutcome (m.gpr (op - 0x50).toNat) (m.rip + 1)) ∨
    ((0x58 ≤ op ∧ op ≤ 0x5f) ∧ o = m.popOutcome (op - 0x58).toNat (m.rip + 1)) ∨
    (op = 0x68 ∧ o = m.fetchOutcome (m.fetch (m.rip + 1) 4) fun imm =>
      m.pushOutcome ((imm.setWidth 32).signExtend 64) (m.rip + 5)) ∨
    (op = 0x6a ∧ o = m.fetchOutcome (m.fetch8 (m.rip + 1)) fun imm =>
      m.pushOutcome (imm.signExtend 64) (m.rip + 2)) ∨
    (op = 0xc3 ∧ o = m.retOutcome 0) ∨
    (op = 0xc2 ∧ o = m.fetchOutcome (m.fetch (m.rip + 1) 2) m.retOutcome) ∨
    (op = 0xc9 ∧ o = m.leaveOutcome) ∨
    op = 0xe8 ∧ o = m.fetchOutcome (m.fetch (m.rip + 1) 4) fun rel =>
      m.pushOutcome (m.rip + 5) (m.rip + 5 + (rel.setWidth 32).signExtend 64) := by
  unfold Machine.oneByteOutcome at h
  by_cases hpush : 0x50 ≤ op ∧ op ≤ 0x57
  · rw [if_pos hpush] at h
    exact .inl ⟨hpush, (Option.some.inj h).symm⟩
  rw [if_neg hpush] at h
  refine .inr ?_
  by_cases hpop : 0x58 ≤ op ∧ op ≤ 0x5f
  · rw [if_pos hpop] at h
    exact .inl ⟨hpop, (Option.some.inj h).symm⟩
  rw [if_neg hpop] at h
  refine .inr ?_
  by_cases hop : op = 0x68
  · rw [if_pos hop] at h
    exact .inl ⟨hop, (Option.some.inj h).symm⟩
  rw [if_neg hop] at h
  refine .inr ?_
  by_cases hop : op = 0x6a
  · rw [if_pos hop] at h
    exact .inl ⟨hop, (Option.some.inj h).symm⟩
  rw [if_neg hop] at h
  refine .inr ?_
  by_cases hop : op = 0xc3
  · rw [if_pos hop] at h
    exact .inl ⟨hop, (Option.some.inj h).symm⟩
  rw [if_neg hop] at h
  refine .inr ?_
  by_cases hop : op = 0xc2
  · rw [if_pos hop] at h
    exact .inl ⟨hop, (Option.some.inj h).symm⟩
  rw [if_neg hop] at h
  refine .inr ?_
  by_cases hop : op = 0xc9
  · rw [if_pos hop] at h
    exact .inl ⟨hop, (Option.some.inj h).symm⟩
  rw [if_neg hop] at h
  refine .inr ?_
  by_cases hop : op = 0xe8
  · rw [if_pos hop] at h
    exact ⟨hop, (Option.some.inj h).symm⟩
  · rw [if_neg hop] at h
    cases h

theorem rexOutcome_eq_some {rex_byte : Byte} {o : Outcome}
    (h : m.rexOutcome rex_byte = some o) :
    let op := m.mem (m.rip + 1)
    let reg := extend (op &&& 7).toNat (decodeRexPrefix rex_byte).b
    ((0x50 ≤ op ∧ op ≤ 0x57) ∧ o = m.pushOutcome (m.gpr reg) (m.rip + 2)) ∨
    (0x58 ≤ op ∧ op ≤ 0x5f) ∧ o = m.popOutcome reg (m.rip + 2) := by
  unfold Machine.rexOutcome at h
  dsimp only at h ⊢
  by_cases hpush : 0x50 ≤ m.mem (m.rip + 1) ∧ m.mem (m.rip + 1) ≤ 0x57
  · rw [if_pos hpush] at h
    exact .inl ⟨hpush, (Option.some.inj h).symm⟩
  rw [if_neg hpush] at h
  by_cases hpop : 0x58 ≤ m.mem (m.rip + 1) ∧ m.mem (m.rip + 1) ≤ 0x5f
  · rw [if_pos hpop] at h
    exact .inr ⟨hpop, (Option.some.inj h).symm⟩
  · rw [if_neg hpop] at h
    cases h

/-- The computation that ends in an outcome. -/
def Outcome.toKeep (o : Outcome) : KeepM Machine :=
  match o.result with
  | none => .ok o.after
  | some e => .error { result := e, after := o.after }

theorem toKeep_pushOutcome (m : Machine) (value next : U64) :
    (m.pushOutcome value next).toKeep = (do
      let m' ← Kept.push64 m value
      return m'.setRip next) := by
  unfold Machine.pushOutcome Machine.push64 Kept.push64
  dsimp only
  cases Machine.writeMemory { m with
    gpr := update m.gpr rspIndex (m.gpr rspIndex - 8) } (m.gpr rspIndex - 8) 8 value <;>
    rfl

theorem toKeep_popOutcome (m : Machine) (reg : ℕ) (next : U64) :
    (m.popOutcome reg next).toKeep = (do
      let m' ← Kept.pop64Gpr m reg
      return m'.setRip next) := by
  unfold Machine.popOutcome Machine.pop64Gpr Kept.pop64Gpr
  cases m.readMemory (m.gpr rspIndex) 8 <;> rfl

theorem toKeep_retOutcome (m : Machine) (stack_pop : U64) :
    (m.retOutcome stack_pop).toKeep = (do
      let (target, m') ← Kept.pop64 m
      let m' := { m' with gpr := update m'.gpr rspIndex (m'.gpr rspIndex + stack_pop) }
      if target = 0 then stop (m'.setRip target) .halt else return m'.setRip target) := by
  unfold Machine.retOutcome Machine.pop64 Kept.pop64
  cases m.readMemory (m.gpr rspIndex) 8 with
  | error e => rfl
  | ok r =>
      by_cases h : r.1 = 0
      · simp only [Outcome.toKeep, bind, Except.bind, pure, Except.pure, keep, h, if_true]
        rfl
      · simp only [Outcome.toKeep, bind, Except.bind, pure, Except.pure, keep, h, if_false]

theorem toKeep_leaveOutcome (m : Machine) : m.leaveOutcome.toKeep = (do
    let (rbp, m') ← Kept.pop64 { m with gpr := update m.gpr rspIndex (m.gpr rbpIndex) }
    return { m' with gpr := update m'.gpr rbpIndex rbp, rip := m.rip + 1 }) := by
  unfold Machine.leaveOutcome Machine.pop64 Kept.pop64
  dsimp only
  cases Machine.readMemory { m with
    gpr := update m.gpr rspIndex (m.gpr rbpIndex) } _ 8 <;> rfl

theorem toKeep_fetchOutcome {α : Type} (m : Machine) (part : StepM α) (rest : α → Outcome) :
    (m.fetchOutcome part rest).toKeep = (do
      let a ← keep m part
      (rest a).toKeep) := by
  cases part <;> rfl

theorem kept_oneByteOutcome {op : Byte} {o : Outcome} (h : m.oneByteOutcome op = some o) :
    Kept.decodeOneByte m op = o.toKeep := by
  obtain ⟨hop, rfl⟩ | ⟨hop, rfl⟩ | ⟨rfl, rfl⟩ | ⟨rfl, rfl⟩ | ⟨rfl, rfl⟩ | ⟨rfl, rfl⟩ |
    ⟨rfl, rfl⟩ | ⟨rfl, rfl⟩ := oneByteOutcome_eq_some h
  · rw [toKeep_pushOutcome]
    obtain rfl | rfl | rfl | rfl | rfl | rfl | rfl | rfl := byte_push op hop <;> rfl
  · rw [toKeep_popOutcome]
    obtain rfl | rfl | rfl | rfl | rfl | rfl | rfl | rfl := byte_pop op hop <;> rfl
  · simp only [toKeep_fetchOutcome, toKeep_pushOutcome]
    rfl
  · simp only [toKeep_fetchOutcome, toKeep_pushOutcome]
    rfl
  · simp only [toKeep_retOutcome, BitVec.ofNat_eq_ofNat, BitVec.add_zero,
      update_eq_self]
    rfl
  · simp only [toKeep_fetchOutcome, toKeep_retOutcome]
    rfl
  · rw [toKeep_leaveOutcome]
    rfl
  · simp only [toKeep_fetchOutcome, toKeep_pushOutcome]
    rfl

theorem kept_rexOutcome {rex_byte : Byte} {o : Outcome} (hrip : m.rip + 1 ≠ 0)
    (h : m.rexOutcome rex_byte = some o) : Kept.decodeRex m rex_byte = o.toKeep := by
  have hfetch : m.fetch8 (m.rip + 1) = .ok (m.mem (m.rip + 1)) := fetch8_eq_ok.2 ⟨hrip, rfl⟩
  have hcases := rexOutcome_eq_some h
  dsimp only at hcases
  generalize m.mem (m.rip + 1) = op at hcases hfetch
  simp only [Kept.decodeRex, hfetch, keep, bind, Except.bind]
  obtain ⟨hop, rfl⟩ | ⟨hop, rfl⟩ := hcases
  · rw [toKeep_pushOutcome]
    obtain rfl | rfl | rfl | rfl | rfl | rfl | rfl | rfl := byte_push op hop <;> rfl
  · rw [toKeep_popOutcome]
    obtain rfl | rfl | rfl | rfl | rfl | rfl | rfl | rfl := byte_pop op hop <;> rfl

theorem not_dispatched (op : Byte) : ((0x50 ≤ op ∧ op ≤ 0x57) ∨ (0x58 ≤ op ∧ op ≤ 0x5f) ∨
    op = 0x68 ∨ op = 0x6a ∨ op = 0xc3 ∨ op = 0xc2 ∨ op = 0xc9 ∨ op = 0xe8) →
    ¬(0x70 ≤ op ∧ op ≤ 0x7f) ∧ ¬(op = prefix66 ∨ op = prefixF2 ∨ op = prefixF3) := by
  revert op
  decide

theorem kept_stackStep {o : Outcome} (h : m.stackStep = some o) : Kept.step m = o.toKeep := by
  simp only [Machine.stackStep] at h
  split at h
  · cases h
  rename_i hrip
  have hfetch : (resetAccesses m).fetch8 (resetAccesses m).rip = .ok (m.mem m.rip) :=
    fetch8_eq_ok.2 ⟨hrip, rfl⟩
  simp only [Kept.step, hfetch, keep, bind, Except.bind]
  split at h
  · rename_i hrex
    have hjcc : ¬(0x70 ≤ m.mem m.rip ∧ m.mem m.rip ≤ 0x7f) := fun hj =>
      absurd (BitVec.le_trans hj.1 hrex.2) (by decide)
    rw [if_neg hjcc, if_pos hrex]
    split at h
    · cases h
    · rename_i hnext
      exact kept_rexOutcome hnext h
  · rename_i hrex
    obtain ⟨hjcc, hpre⟩ := not_dispatched (m.mem m.rip)
      ((oneByteOutcome_eq_some h).imp And.left (.imp And.left (.imp And.left (.imp And.left
        (.imp And.left (.imp And.left (.imp And.left And.left)))))))
    rw [if_neg hjcc, if_neg hrex, if_neg hpre]
    exact kept_oneByteOutcome h

theorem step_eq_toStepM {o : Outcome} (h : m.stackStep = some o) : m.step = o.toStepM := by
  rw [← Kept.forget_step, kept_stackStep h]
  obtain ⟨result, after⟩ := o
  cases result <;> rfl

/-! ### Every stack instruction -/

theorem sub_push_eq (op : Byte) (h : 0x50 ≤ op ∧ op ≤ 0x57) :
    (op - 0x50).toNat = extend (op &&& 7).toNat false := by
  revert op
  decide

theorem sub_pop_eq (op : Byte) (h : 0x58 ≤ op ∧ op ≤ 0x5f) :
    (op - 0x58).toNat = extend (op &&& 7).toNat false := by
  revert op
  decide

/-- The outcome is that of the architecture if and only if the instruction does not miss, and
a fault if and only if the architecture has one. -/
structure Exact (m : Machine) (i : StackInstruction) (length : U64) (o : Outcome) : Prop where
  matches_iff : o.Matches m (i.execute length m) ↔ ¬ i.Misses m
  fault_iff : o.result = some .fault ↔ i.execute length m = none

theorem fault_iff_of_matches {o : Outcome} {a : Option Machine} (h : o.Matches m a) :
    o.result = some .fault ↔ a = none := by
  cases a with
  | none => exact iff_of_true h.1 rfl
  | some m' => exact iff_of_false h.1 nofun

theorem pushOutcome_fault_iff (m : Machine) (value next : U64) :
    (m.pushOutcome value next).result = some .fault ↔ pushed m value next = none := by
  rw [pushed]
  by_cases h : m.gpr rspIndex - 8 = 0
  · rw [pushOutcome_fault h, if_pos h]
    exact iff_of_true rfl rfl
  · rw [pushOutcome_ok h, if_neg h]
    exact iff_of_false nofun nofun

theorem exact_push (m : Machine) (reg : ℕ) (length : U64) :
    Exact m (.push reg) length (m.pushOutcome (m.gpr reg) (m.rip + length)) :=
  ⟨pushOutcome_matches m (m.gpr reg) (m.rip + length), pushOutcome_fault_iff m _ _⟩

theorem exact_pop (m : Machine) (reg : ℕ) (length : U64) :
    Exact m (.pop reg) length (m.popOutcome reg (m.rip + length)) := by
  refine ⟨popOutcome_matches m reg length, ?_⟩
  simp only [StackInstruction.execute]
  by_cases h : m.gpr rspIndex = 0
  · rw [popOutcome_fault h, if_pos h]
    exact iff_of_true rfl rfl
  · rw [popOutcome_ok h, if_neg h]
    exact iff_of_false nofun nofun

theorem exact_leave (m : Machine) : Exact m .leave 1 m.leaveOutcome := by
  refine ⟨leaveOutcome_matches m, ?_⟩
  simp only [Machine.leaveOutcome, StackInstruction.execute, Machine.pop64, Machine.readMemory,
    update_self]
  by_cases h : m.gpr rbpIndex = 0
  · rw [if_pos h, if_pos h]
    exact iff_of_true rfl rfl
  · rw [if_neg h, if_neg h]
    exact iff_of_false (fun h => by cases h) fun h => by cases h

theorem exact_fetch {α : Type} {part : StepM α} {a : α} {rest : α → Outcome}
    (hfault : m.rip + 1 = 0 → part = .error .fault) (hok : m.rip + 1 ≠ 0 → part = .ok a)
    (hrest : rest a = m.pushOutcome value next)
    (hexecute : i.execute length m = if m.rip + 1 = 0 then none else pushed m value next)
    (hmisses : i.Misses m ↔ m.rip + 1 ≠ 0 ∧ m.gpr rspIndex = 8) :
    Exact m i length (m.fetchOutcome part rest) := by
  by_cases hrip : m.rip + 1 = 0
  · have hnone : i.execute length m = none := by rw [hexecute, if_pos hrip]
    have hmatches : (m.fetchOutcome part rest).Matches m none :=
      fetchOutcome_of_fault (hfault hrip)
    refine ⟨?_, ?_⟩
    · rw [hnone, hmisses]
      exact iff_of_true hmatches fun h => h.1 hrip
    · rw [hnone]
      exact fault_iff_of_matches hmatches
  · have hpushed : i.execute length m = pushed m value next := by rw [hexecute, if_neg hrip]
    rw [fetchOutcome_of_ok (hok hrip), hrest]
    refine ⟨?_, ?_⟩
    · rw [hpushed, hmisses, pushOutcome_matches]
      exact ⟨fun h h' => h h'.2, fun h h' => h ⟨hrip, h'⟩⟩
    · rw [hpushed]
      exact pushOutcome_fault_iff m value next

theorem fetch_fault {address : U64} {n : ℕ} (h : address = 0) :
    m.fetch address n = .error .fault := by
  rw [Machine.fetch, if_pos h]
  rfl

theorem fetch8_fault {address : U64} (h : address = 0) : m.fetch8 address = .error .fault := by
  rw [Machine.fetch8, if_pos h]
  rfl

theorem exact_of_matches {o : Outcome} (h : o.Matches m (i.execute length m))
    (hmisses : ¬ i.Misses m) : Exact m i length o :=
  ⟨iff_of_true h hmisses, fault_iff_of_matches h⟩

theorem exact_retImmediate (m : Machine) : Exact m .retImmediate 3
    (m.fetchOutcome (m.fetch (m.rip + 1) 2) m.retOutcome) := by
  refine exact_of_matches ?_ not_false
  simp only [StackInstruction.execute]
  by_cases hrip : m.rip + 1 = 0
  · rw [if_pos (.inl hrip)]
    exact fetchOutcome_of_fault (fetch_fault hrip)
  · rw [fetchOutcome_of_ok (fetch_eq_ok.2 ⟨hrip, rfl⟩)]
    simp only [hrip, false_or]
    exact retOutcome_matches m _

theorem exact_ret (m : Machine) : Exact m .ret 1 (m.retOutcome 0) := by
  refine exact_of_matches ?_ not_false
  have h := retOutcome_matches m 0
  simp only [BitVec.ofNat_eq_ofNat, BitVec.add_zero] at h
  exact h

theorem exact_plain {op : Byte} (h : plainInstruction op = some i)
    (hregister : registerInstruction op false = none) :
    ∃ o, m.oneByteOutcome op = some o ∧ Exact m i (1 + i.immediate) o := by
  have hpush : ¬ (0x50 ≤ op ∧ op ≤ 0x57) := fun hop => by
    rw [registerInstruction, if_pos hop] at hregister
    cases hregister
  have hpop : ¬ (0x58 ≤ op ∧ op ≤ 0x5f) := fun hop => by
    rw [registerInstruction, if_neg hpush, if_pos hop] at hregister
    cases hregister
  rw [Machine.oneByteOutcome, if_neg hpush, if_neg hpop]
  unfold plainInstruction at h
  split at h
  · cases h
    rw [if_pos ‹_›]
    exact ⟨_, rfl, exact_fetch fetch_fault (fun hrip => fetch_eq_ok.2 ⟨hrip, rfl⟩) rfl rfl
      Iff.rfl⟩
  rw [if_neg ‹_›]
  split at h
  · cases h
    rw [if_pos ‹_›]
    refine ⟨_, rfl, exact_fetch fetch8_fault (fun hrip => fetch8_eq_ok.2 ⟨hrip, rfl⟩) rfl ?_
      Iff.rfl⟩
    simp only [StackInstruction.execute, signed_one]
    rfl
  rw [if_neg ‹_›]
  split at h
  · cases h
    rw [if_pos ‹_›]
    exact ⟨_, rfl, exact_ret m⟩
  rw [if_neg ‹_›]
  split at h
  · cases h
    rw [if_pos ‹_›]
    exact ⟨_, rfl, exact_retImmediate m⟩
  rw [if_neg ‹_›]
  split at h
  · cases h
    rw [if_pos ‹_›]
    exact ⟨_, rfl, exact_leave m⟩
  rw [if_neg ‹_›]
  split at h
  · cases h
    rw [if_pos ‹_›]
    exact ⟨_, rfl, exact_fetch fetch_fault (fun hrip => fetch_eq_ok.2 ⟨hrip, rfl⟩) rfl rfl
      Iff.rfl⟩
  · cases h

theorem exact_register {op : Byte} (h : registerInstruction op false = some i) :
    ∃ o, m.oneByteOutcome op = some o ∧ Exact m i (1 + i.immediate) o := by
  unfold registerInstruction at h
  unfold Machine.oneByteOutcome
  split at h
  · rename_i hop
    cases h
    rw [if_pos hop, sub_push_eq op hop]
    exact ⟨_, rfl, exact_push m _ 1⟩
  split at h
  · rename_i hpush hop
    cases h
    rw [if_neg hpush, if_pos hop, sub_pop_eq op hop]
    exact ⟨_, rfl, exact_pop m _ 1⟩
  · cases h

theorem exact_rex {rex_byte : Byte}
    (h : registerInstruction (m.mem (m.rip + 1)) (rex_byte &&& 0x01 ≠ 0) = some i) :
    ∃ o, m.rexOutcome rex_byte = some o ∧ Exact m i 2 o := by
  unfold registerInstruction at h
  unfold Machine.rexOutcome
  dsimp only
  split at h
  · rename_i hop
    cases h
    rw [if_pos hop]
    exact ⟨_, rfl, exact_push m _ 2⟩
  split at h
  · rename_i hpush hop
    cases h
    rw [if_neg hpush, if_pos hop]
    exact ⟨_, rfl, exact_pop m _ 2⟩
  · cases h

theorem pushed_resetAccesses :
    pushed (resetAccesses m) value next = (pushed m value next).map resetAccesses := by
  have hgpr : (resetAccesses m).gpr = m.gpr := rfl
  rw [pushed, pushed, hgpr]
  split <;> rfl

theorem execute_resetAccesses :
    i.execute length (resetAccesses m) = (i.execute length m).map resetAccesses := by
  cases i with
  | push reg => exact pushed_resetAccesses
  | pushImmediate size =>
      simp only [StackInstruction.execute]
      by_cases h : m.rip + 1 = 0
      · rw [if_pos h]
        exact if_pos h
      · rw [if_neg h]
        exact (if_neg h).trans pushed_resetAccesses
  | call =>
      simp only [StackInstruction.execute]
      by_cases h : m.rip + 1 = 0
      · rw [if_pos h]
        exact if_pos h
      · rw [if_neg h]
        exact (if_neg h).trans pushed_resetAccesses
  | pop reg =>
      simp only [StackInstruction.execute]
      by_cases h : m.gpr rspIndex = 0
      · rw [if_pos h]
        exact if_pos h
      · rw [if_neg h]
        exact if_neg h
  | ret =>
      simp only [StackInstruction.execute]
      by_cases h : m.gpr rspIndex = 0
      · rw [if_pos h]
        exact if_pos h
      · rw [if_neg h]
        exact if_neg h
  | retImmediate =>
      simp only [StackInstruction.execute]
      by_cases h : m.rip + 1 = 0 ∨ m.gpr rspIndex = 0
      · rw [if_pos h]
        exact if_pos h
      · rw [if_neg h]
        exact if_neg h
  | leave =>
      simp only [StackInstruction.execute]
      by_cases h : m.gpr rbpIndex = 0
      · rw [if_pos h]
        exact if_pos h
      · rw [if_neg h]
        exact if_neg h

theorem matches_resetAccesses {o : Outcome} :
    o.Matches (resetAccesses m) (i.execute length (resetAccesses m)) ↔
      o.Matches m (i.execute length m) := by
  rw [execute_resetAccesses]
  cases i.execute length m <;> exact Iff.rfl

theorem misses_resetAccesses : i.Misses (resetAccesses m) ↔ i.Misses m := by
  cases i <;> exact Iff.rfl

theorem stackStep_exact (h : stackInstruction m = some (i, length)) :
    ∃ o, m.stackStep = some o ∧ Exact m i length o := by
  have hreset : ∀ o, Exact (resetAccesses m) i length o → Exact m i length o := fun o ho => by
    refine ⟨?_, ?_⟩
    · rw [← matches_resetAccesses, ← misses_resetAccesses]
      exact ho.matches_iff
    · rw [ho.fault_iff, execute_resetAccesses, Option.map_eq_none_iff]
  have hstep : m.stackStep = if m.rip = 0 then none
      else if 0x40 ≤ m.mem m.rip ∧ m.mem m.rip ≤ 0x4f then
        if m.rip + 1 = 0 then none else (resetAccesses m).rexOutcome (m.mem m.rip)
      else (resetAccesses m).oneByteOutcome (m.mem m.rip) := rfl
  unfold stackInstruction at h
  split at h
  · cases h
  rename_i hrip
  rw [hstep, if_neg hrip]
  split at h
  · rename_i hrex
    rw [if_pos ((isRexByte_iff _).1 hrex)]
    split at h
    · cases h
    rename_i hnext
    rw [if_neg hnext]
    obtain ⟨j, hj, hpair⟩ := Option.map_eq_some_iff.1 h
    cases hpair
    obtain ⟨o, ho, hexact⟩ := exact_rex (m := resetAccesses m) hj
    exact ⟨o, ho, hreset o hexact⟩
  · rename_i hrex
    rw [if_neg fun h => hrex ((isRexByte_iff _).2 h)]
    obtain ⟨j, hj, hpair⟩ := Option.map_eq_some_iff.1 h
    cases hpair
    cases hregister : registerInstruction (m.mem m.rip) false with
    | some k =>
        rw [hregister, Option.some_or] at hj
        cases hj
        obtain ⟨o, ho, hexact⟩ := exact_register (m := resetAccesses m) hregister
        exact ⟨o, ho, hreset o hexact⟩
    | none =>
        rw [hregister, Option.none_or] at hj
        obtain ⟨o, ho, hexact⟩ := exact_plain (m := resetAccesses m) hj hregister
        exact ⟨o, ho, hreset o hexact⟩

/-! ### Pushing and popping -/

theorem execute_of_step (h : stackInstruction m = some (i, length)) (hstep : m.step = .ok m')
    (hmisses : i.Misses m → i.execute length m = none) :
    ∃ m₁, i.execute length m = some m₁ ∧ SameState m' m₁ := by
  obtain ⟨⟨result, after⟩, ho, hexact⟩ := stackStep_exact h
  rw [step_eq_toStepM ho] at hstep
  cases result with
  | some e => cases hstep
  | none =>
      cases hstep
      cases hexecute : i.execute length m with
      | none => cases hexact.fault_iff.2 hexecute
      | some m₁ =>
          have hmatches := hexact.matches_iff.2 fun hmiss => by
            rw [hmisses hmiss] at hexecute
            cases hexecute
          rw [hexecute] at hmatches
          exact ⟨m₁, rfl, hmatches.2⟩

theorem push_pop {x y : ℕ} {length₁ length₂ : U64}
    (hpush : stackInstruction m = some (.push x, length₁)) (hstep₁ : m.step = .ok m₁)
    (hpop : stackInstruction m₁ = some (.pop y, length₂)) (hstep₂ : m₁.step = .ok m₂)
    (hy : y ≠ rspIndex) : m₂.gpr y = m.gpr x ∧ m₂.gpr rspIndex = m.gpr rspIndex := by
  obtain ⟨a, ha, hsame, hmem⟩ := execute_of_step hpush hstep₁ fun hmiss => by
    simp only [StackInstruction.Misses] at hmiss
    simp only [StackInstruction.execute, pushed, hmiss]
    rfl
  obtain ⟨b, hb, hsame', -⟩ := execute_of_step hpop hstep₂ fun hmiss => absurd hmiss.1 hy
  simp only [StackInstruction.execute, pushed, Option.ite_none_left_eq_some,
    Option.some.injEq] at ha hb
  obtain ⟨-, rfl⟩ := ha
  obtain ⟨-, rfl⟩ := hb
  have hgpr : m₁.gpr = update m.gpr rspIndex (m.gpr rspIndex - 8) :=
    congrArg GuestRegisterContext.gpr hsame
  have hrsp : m₁.gpr rspIndex = m.gpr rspIndex - 8 := by rw [hgpr, update_self]
  have hmem₁ : m₁.mem = store m.mem (m.gpr rspIndex - 8) 8 (m.gpr x) := hmem
  have hgpr' : m₂.gpr = update (update m₁.gpr rspIndex (m₁.gpr rspIndex + 8)) y
      (load m₁.mem (m₁.gpr rspIndex) 8) := congrArg GuestRegisterContext.gpr hsame'
  constructor
  · rw [hgpr', update_self, hrsp, hmem₁, load_store]
  · rw [hgpr', update_of_ne hy.symm, update_self, hrsp]
    bv_omega

/-- A stack instruction leaves the state of the architecture if and only if it does not pop into
the stack pointer, nor faults after moving it; and what is pushed is popped. -/
theorem stackInstructions_match (m : Machine) :
    (∀ (i : StackInstruction) (length : U64),
      stackInstruction m = some (i, length) → ∃ o, m.stackStep = some o ∧ m.step = o.toStepM ∧
        (o.Matches m (i.execute length m) ↔ ¬ i.Misses m)) ∧
      ∀ (m₁ m₂ : Machine) (x y : ℕ) (length₁ length₂ : U64),
        stackInstruction m = some (.push x, length₁) → m.step = .ok m₁ →
        stackInstruction m₁ = some (.pop y, length₂) → m₁.step = .ok m₂ → y ≠ rspIndex →
        m₂.gpr y = m.gpr x ∧ m₂.gpr rspIndex = m.gpr rspIndex := by
  refine ⟨fun i length h => ?_, fun m₁ m₂ x y length₁ length₂ h₁ h₂ h₃ h₄ hy =>
    push_pop h₁ h₂ h₃ h₄ hy⟩
  obtain ⟨o, ho, hexact⟩ := stackStep_exact h
  exact ⟨o, ho, step_eq_toStepM ho, hexact.matches_iff⟩

/-- `push rax` at `0x1000`. -/
theorem stackInstructions_match_push : ∃ o, (codeAt [0x50]).stackStep = some o ∧
    o.Matches (codeAt [0x50]) ((StackInstruction.push 0).execute 1 (codeAt [0x50])) := by
  obtain ⟨o, ho, -, hiff⟩ :=
    (stackInstructions_match (codeAt [0x50])).1 (.push 0) 1 (by decide)
  refine ⟨o, ho, hiff.2 ?_⟩
  change ¬ (0x2000 : U64) = 8
  decide

/-- `pop rsp` at `0x1000`, which pops a zero and leaves an eight. -/
theorem stackStep_pop_rsp : ∃ o, (codeAt [0x5c]).stackStep = some o ∧
    ¬ o.Matches (codeAt [0x5c]) ((StackInstruction.pop rspIndex).execute 1 (codeAt [0x5c])) := by
  have hat : stackInstruction (codeAt [0x5c]) = some (.pop rspIndex, 1) := by decide
  obtain ⟨o, ho, hexact⟩ := stackStep_exact hat
  refine ⟨o, ho, fun hmatches => hexact.matches_iff.1 hmatches ⟨rfl, ?_⟩⟩
  change (0x2000 : U64) ≠ 0
  decide

end OrbitConsole.Cpu
