import OrbitConsole.ShaderRecompiler.FoldingSpec

/-!
# Operations on immediates

What the foldings compute from immediates is what the opcodes mean, but for the three bit field
operations at the corners: an insert whose operand is wider than the field, and counts or offsets
that the shifts of the language do not take.
-/

namespace OrbitConsole.ShaderRecompiler

variable {F : Floats} {σ : ℕ → Datum} {rank : ℕ → ℕ} {fuel bound : ℕ} {p : Program Datum}
  {i j : Inst Datum} {value v : Value Datum} {ds : List Datum} {d : Datum} {op : Opcode}

/-- The operands that the bit field operations are folded correctly on. -/
def FieldFits : Opcode → List Datum → Prop
  | .bitFieldUExtract, [_, .u32 offset, .u32 count] => offset.toNat < 32 ∧ count.toNat < 32
  | .bitFieldSExtract, [_, _, .u32 count] => 0 < count.toNat
  | .bitFieldInsert, [.u32 base, .u32 x, .u32 offset, .u32 count] =>
      offset.toNat < 32 ∧ count.toNat < 32 ∧
        ∀ k, count.toNat ≤ k → offset.toNat + k < 32 → x.getLsbD k = true →
          base.getLsbD (offset.toNat + k) = true
  | _, _ => True

def Computes (f : List Datum → Exec Datum) (m : List Datum → Option Datum) : Prop :=
  ∀ ds d, m ds = some d → f ds = .ok d

theorem computes32 {f : BitVec 32 → Exec Datum} {g : BitVec 32 → Option Datum}
    (h : ∀ a d, g a = some d → f a = .ok d) : Computes (evalU32 f) (on32 g) := by
  intro ds d hd
  obtain ⟨a, rfl, ha⟩ := on32_eq hd
  exact h a d ha

theorem computes64 {f : BitVec 64 → Exec Datum} {g : BitVec 64 → Option Datum}
    (h : ∀ a d, g a = some d → f a = .ok d) : Computes (evalU64 f) (on64 g) := by
  intro ds d hd
  obtain ⟨a, rfl, ha⟩ := on64_eq hd
  exact h a d ha

theorem computesF32 {f : BitVec 32 → Exec Datum} {g : BitVec 32 → Option Datum}
    (h : ∀ a d, g a = some d → f a = .ok d) : Computes (evalF32 f) (onF32 g) := by
  intro ds d hd
  obtain ⟨a, rfl, ha⟩ := onF32_eq hd
  exact h a d ha

theorem computes32x2 {f : BitVec 32 → BitVec 32 → Exec Datum}
    {g : BitVec 32 → BitVec 32 → Option Datum}
    (h : ∀ a b d, g a b = some d → f a b = .ok d) : Computes (evalU32U32 f) (on32x2 g) := by
  intro ds d hd
  obtain ⟨a, b, rfl, hab⟩ := on32x2_eq hd
  exact h a b d hab

theorem computes64x2 {f : BitVec 64 → BitVec 64 → Exec Datum}
    {g : BitVec 64 → BitVec 64 → Option Datum}
    (h : ∀ a b d, g a b = some d → f a b = .ok d) : Computes (evalU64U64 f) (on64x2 g) := by
  intro ds d hd
  obtain ⟨a, b, rfl, hab⟩ := on64x2_eq hd
  exact h a b d hab

theorem computes_shift (f : BitVec 32 → ℕ → BitVec 32) :
    Computes (evalU32U32 (shiftBy f)) (on32x2 (shifted f)) := by
  refine computes32x2 fun a b d hd => ?_
  unfold shifted at hd
  split at hd
  · next hlt =>
      obtain rfl := Option.some.inj hd
      simp [shiftBy, hlt, pure, Except.pure]
  · cases hd

theorem computes_division (f g : BitVec 32 → BitVec 32 → BitVec 32) (msg : String)
    (hfg : ∀ a b, f a b = g a b) :
    Computes (evalU32U32 fun a b => do
        assertMsg (b ≠ 0) msg
        return .u32 (f a b))
      (on32x2 fun a b => if b = 0 then none else some (.u32 (g a b))) := by
  refine computes32x2 fun a b d hd => ?_
  split at hd
  · cases hd
  · next hne =>
      obtain rfl := Option.some.inj hd
      rw [assertMsg, if_pos hne, hfg]
      rfl

theorem getLsbD_bitReverse (n : ℕ) (res a : BitVec 32) {k : ℕ} (hk : k < 32) :
    (bitReverse n res a).getLsbD k =
      if k < n then a.getLsbD (n - 1 - k) else res.getLsbD (k - n) := by
  induction n generalizing res a with
  | zero => rw [bitReverse, if_neg (Nat.not_lt_zero _), Nat.sub_zero]
  | succ n ih =>
      rw [bitReverse, ih]
      by_cases hlt : k < n
      · rw [if_pos hlt, if_pos (by omega), BitVec.getLsbD_ushiftRight]
        congr 1
        omega
      · rw [if_neg hlt, BitVec.getLsbD_or, BitVec.getLsbD_shiftLeft, BitVec.getLsbD_and]
        by_cases heq : k = n
        · subst heq
          rw [if_pos (by omega), Nat.sub_self]
          simp
        · have hone : (1 : BitVec 32).getLsbD (k - n) = false := by
            have h : (1#32).getLsbD (k - n) = false := by
              rw [BitVec.getLsbD_one]
              simp
              omega
            exact h
          rw [if_neg (by omega), hone, Bool.and_false, Bool.or_false,
            decide_eq_true (by omega : k - n < 32), decide_eq_false (by omega : ¬ k - n < 1),
            Nat.sub_sub]
          rfl

theorem bitReverse_eq (a : BitVec 32) :
    bitReverse 32 0 a = BitField.ofBits 32 fun k => a.getLsbD (31 - k) := by
  refine BitVec.eq_of_getLsbD_eq fun k hk => ?_
  rw [getLsbD_bitReverse 32 0 a hk, if_pos hk, BitField.getLsbD_ofBits _ hk]

/-! ### Bit fields -/

theorem lowMask_eq {count : ℕ} (h : count < 32) :
    ((1 : BitVec 32) <<< count) - 1 = BitField.lowMask 32 count := by
  have hall : ∀ count : Fin 32,
      ((1 : BitVec 32) <<< count.val) - 1 = BitField.lowMask 32 count.val := by decide
  exact hall ⟨count, h⟩

theorem lowMask_eq_not {count : ℕ} :
    ~~~(BitVec.allOnes 32 <<< count) = BitField.lowMask 32 count := by
  refine BitVec.eq_of_getLsbD_eq fun k hk => ?_
  rw [BitVec.getLsbD_not, BitVec.getLsbD_shiftLeft, BitField.getLsbD_lowMask hk,
    BitVec.getLsbD_allOnes]
  by_cases hlt : k < count
  · simp [hk, hlt]
  · simp [hk, hlt, (by omega : k - count < 32)]

theorem fieldOf_eq {f : BitVec 32 → ℕ → ℕ → BitVec 32} (h : fieldOf f ds = some d) :
    ∃ base offset count, ds = [.u32 base, .u32 offset, .u32 count] ∧
      offset.toNat + count.toNat ≤ 32 ∧ d = .u32 (f base offset.toNat count.toNat) := by
  unfold fieldOf at h
  split at h
  · split at h
    · next hle => exact ⟨_, _, _, rfl, hle, (Option.some.inj h).symm⟩
    · cases h
  · cases h

theorem fieldInsert_eq (h : fieldInsert ds = some d) :
    ∃ base x offset count, ds = [.u32 base, .u32 x, .u32 offset, .u32 count] ∧
      offset.toNat + count.toNat ≤ 32 ∧
      d = .u32 (BitField.insert base x offset.toNat count.toNat) := by
  unfold fieldInsert at h
  split at h
  · split at h
    · next hle => exact ⟨_, _, _, _, rfl, hle, (Option.some.inj h).symm⟩
    · cases h
  · cases h

theorem evalBitFieldUExtract_iff (h : fieldOf BitField.uextract ds = some d) :
    evalBitFieldUExtract ds = .ok d ↔ FieldFits .bitFieldUExtract ds := by
  obtain ⟨base, offset, count, rfl, hle, rfl⟩ := fieldOf_eq h
  constructor
  · intro heq
    by_contra hbad
    have hout : 32 ≤ offset.toNat ∨ 32 ≤ count.toNat := by
      simp only [FieldFits] at hbad
      omega
    simp [evalBitFieldUExtract, Datum.toU32, assertMsg, hle, hout, bind, Except.bind, pure,
      Except.pure, throw, throwThe, MonadExceptOf.throw] at heq
  · rintro ⟨hoffset, hcount⟩
    have hin : ¬ (32 ≤ offset.toNat ∨ 32 ≤ count.toNat) := by omega
    rw [← BitField.ushiftRight_and_lowMask, ← lowMask_eq hcount]
    simp [evalBitFieldUExtract, Datum.toU32, assertMsg, hle, hin, bind, Except.bind, pure,
      Except.pure]

theorem evalBitFieldSExtract_iff (h : fieldOf BitField.sextract ds = some d) :
    evalBitFieldSExtract ds = .ok d ↔ FieldFits .bitFieldSExtract ds := by
  obtain ⟨base, offset, count, rfl, hle, rfl⟩ := fieldOf_eq h
  have hleft : sub64 32 (offset.toNat + count.toNat) = 32 - (offset.toNat + count.toNat) :=
    sub64_eq hle (by omega)
  constructor
  · intro heq
    by_contra hbad
    have hzero : count.toNat = 0 := by
      simp only [FieldFits] at hbad
      omega
    simp [evalBitFieldSExtract, Datum.toU32, assertMsg, hzero, bind, Except.bind, pure,
      Except.pure] at heq
  · intro hpos
    have hpos : 0 < count.toNat := hpos
    have hright : (2 ^ 32 + 32 - count.toNat) % 2 ^ 32 = 32 - count.toNat := by omega
    have hin : ¬ (32 < offset.toNat + count.toNat ∨
        32 ≤ 32 - (offset.toNat + count.toNat) ∨ 32 ≤ 32 - count.toNat) := by omega
    rw [← BitField.sshiftRight_shiftLeft hpos hle]
    simp only [evalBitFieldSExtract, Datum.toU32, assertMsg, hleft, hright, if_pos hin, bind,
      Except.bind, pure, Except.pure]

theorem evalBitFieldInsert_iff (h : fieldInsert ds = some d) :
    evalBitFieldInsert ds = .ok d ↔ FieldFits .bitFieldInsert ds := by
  obtain ⟨base, x, offset, count, rfl, hle, rfl⟩ := fieldInsert_eq h
  by_cases hin : 32 ≤ count.toNat ∨ 32 ≤ offset.toNat
  · refine iff_of_false (fun heq => ?_) fun hfits => ?_
    · simp [evalBitFieldInsert, Datum.toU32, assertMsg, hin, bind, Except.bind, pure,
        Except.pure] at heq
    · have hlt := hfits.1
      have hlt' := hfits.2.1
      omega
  · have heval : evalBitFieldInsert [.u32 base, .u32 x, .u32 offset, .u32 count] =
        .ok (.u32 ((base &&& ~~~(BitField.lowMask 32 count.toNat <<< offset.toNat)) |||
          (x <<< offset.toNat))) := by
      simp only [evalBitFieldInsert, Datum.toU32, assertMsg, if_pos hin, lowMask_eq_not, bind,
        Except.bind, pure, Except.pure]
    rw [heval]
    constructor
    · intro heq
      have hbits := BitField.clear_or_shiftLeft_iff.1 (Datum.u32.inj (Except.ok.inj heq))
      exact ⟨by omega, by omega, hbits⟩
    · rintro ⟨-, -, hbits⟩
      rw [BitField.clear_or_shiftLeft_iff.2 hbits]

/-! ### All operations -/

theorem fieldFits_of_ne (h₁ : op ≠ .bitFieldUExtract) (h₂ : op ≠ .bitFieldSExtract)
    (h₃ : op ≠ .bitFieldInsert) : FieldFits op ds := by
  unfold FieldFits
  split <;> trivial

theorem evalImmediates_spec {f : List Datum → Exec Datum} (hf : evalImmediates F op = some f) :
    ∃ m, meaning F op = some m ∧
      ∀ ds d, m ds = some d → (f ds = .ok d ↔ FieldFits op ds) := by
  have hof : ∀ {f m}, Computes f m → op ≠ .bitFieldUExtract → op ≠ .bitFieldSExtract →
      op ≠ .bitFieldInsert → ∀ ds d, m ds = some d → (f ds = .ok d ↔ FieldFits op ds) :=
    fun hc h₁ h₂ h₃ ds d hd => iff_of_true (hc ds d hd) (fieldFits_of_ne h₁ h₂ h₃)
  have h32 : ∀ {f : BitVec 32 → Datum}, Computes (evalU32 fun a => pure (f a))
      (on32 fun a => some (f a)) := computes32 fun _ _ hd => congrArg Except.ok (Option.some.inj hd)
  have hreverse : Computes (evalU32 fun a => pure (.u32 (bitReverse 32 0 a)))
      (on32 fun a => some (.u32 (BitField.ofBits 32 fun k => a.getLsbD (31 - k)))) := by
    simp only [bitReverse_eq]
    exact h32
  have h64 : ∀ {f : BitVec 64 → Datum}, Computes (evalU64 fun a => pure (f a))
      (on64 fun a => some (f a)) := computes64 fun _ _ hd => congrArg Except.ok (Option.some.inj hd)
  have hF32 : ∀ {f : BitVec 32 → Datum}, Computes (evalF32 fun a => pure (f a))
      (onF32 fun a => some (f a)) :=
    computesF32 fun _ _ hd => congrArg Except.ok (Option.some.inj hd)
  have h32x2 : ∀ {f g : BitVec 32 → BitVec 32 → Datum}, (∀ a b, f a b = g a b) →
      Computes (evalU32U32 fun a b => pure (f a b)) (on32x2 fun a b => some (g a b)) :=
    fun hfg => computes32x2 fun a b _ hd =>
      congrArg Except.ok ((hfg a b).trans (Option.some.inj hd))
  have h64x2 : ∀ {f g : BitVec 64 → BitVec 64 → Datum}, (∀ a b, f a b = g a b) →
      Computes (evalU64U64 fun a b => pure (f a b)) (on64x2 fun a b => some (g a b)) :=
    fun hfg => computes64x2 fun a b _ hd =>
      congrArg Except.ok ((hfg a b).trans (Option.some.inj hd))
  have hne : ∀ {w} (a b : BitVec w), decide (a ≠ b) = (a != b) := fun a b => by
    by_cases heq : a = b <;> simp [heq]
  by_cases hop : op = .bitReverse32
  · subst hop
    obtain rfl := Option.some.inj hf
    exact ⟨_, rfl, hof hreverse nofun nofun nofun⟩
  unfold evalImmediates at hf
  split at hf
  all_goals first
    | cases hf; done
    | exact absurd rfl hop
    | obtain rfl := Option.some.inj hf
      refine ⟨_, rfl, ?_⟩
      first
        | with_reducible exact fun _ _ => evalBitFieldUExtract_iff
        | with_reducible exact fun _ _ => evalBitFieldSExtract_iff
        | with_reducible exact fun _ _ => evalBitFieldInsert_iff
        | (with_reducible refine hof h32 ?_ ?_ ?_) <;> nofun
        | (with_reducible refine hof h64 ?_ ?_ ?_) <;> nofun
        | (with_reducible refine hof hF32 ?_ ?_ ?_) <;> nofun
        | (with_reducible refine hof (computes_shift _) ?_ ?_ ?_) <;> nofun
        | (with_reducible refine hof (h32x2 ?_) ?_ ?_ ?_) <;>
            first | exact fun _ _ => rfl | exact fun a b => congrArg Datum.u1 (hne a b) | nofun
        | (with_reducible refine hof (h64x2 ?_) ?_ ?_ ?_) <;>
            first | exact fun _ _ => rfl | exact fun a b => congrArg Datum.u1 (hne a b) | nofun
        | exact hof (computes_division _ _ _ fun _ _ => rfl) nofun nofun nofun

/-! ### The folding -/

theorem Assigned.immediates (h : Assigned F σ rank fuel p) {vs : List (Value Datum)}
    (hvs : ∀ v ∈ vs, v.Before p rank fuel) :
    ShaderRecompiler.immediates fuel p vs = .ok none ∨
      ShaderRecompiler.immediates fuel p vs = .ok (some (vs.map (·.eval σ))) := by
  induction vs with
  | nil => exact .inr rfl
  | cons v vs ih =>
      unfold ShaderRecompiler.immediates
      rcases h.producer (hvs v List.mem_cons_self) (Nat.le_refl _) with ⟨d, hd, hdv⟩ | ⟨j, -, hj, -⟩
      · rcases ih fun v hv => hvs v (List.mem_cons_of_mem _ hv) with hnone | hsome
        · left
          simp [hd, hnone, bind, Except.bind, pure, Except.pure]
        · right
          simp [hd, hsome, hdv, bind, Except.bind, pure, Except.pure]
      · left
        simp [hj, bind, Except.bind, pure, Except.pure]

/-- When an instruction with a bit field operation is folded, the operands allow it. -/
def FoldsInField (fuel : ℕ) (p : Program Datum) (i : Inst Datum) : Prop :=
  ∀ ds, immediates fuel p i.args = .ok (some ds) → FieldFits i.op ds

theorem foldWhenAllImmediates_sound (h : Assigned F σ rank fuel p) (hi : i ∈ p.all)
    {f : List Datum → Exec Datum} (hf : evalImmediates F i.op = some f)
    (hfield : FoldsInField fuel p i) :
    SoundFolding F σ rank p i (foldWhenAllImmediates fuel p i f) := by
  obtain ⟨m, hm, hspec⟩ := evalImmediates_spec hf
  have hbefore : ∀ v ∈ i.args, v.Before p rank fuel := fun v hv =>
    (h.before i hi v hv).mono (Nat.le_of_lt (h.bound i hi))
  unfold foldWhenAllImmediates
  rcases h.immediates hbefore with hnone | hsome
  · refine ⟨.keep, ?_, trivial⟩
    simp [hnone, bind, Except.bind, pure, Except.pure]
  · have hval := (hspec _ _ (h.value i hi m hm)).2 (hfield _ hsome)
    refine ⟨.replace (.imm (σ i.id)), ?_, by rw [hm]; nofun, rfl, Value.before_imm _⟩
    simp [hsome, hval, bind, Except.bind, pure, Except.pure]

theorem folding_immediates {f : List Datum → Exec Datum} {op' : Opcode} (hop : i.op = op')
    (hf : evalImmediates F op' = some f) :
    folding F fuel p i = foldWhenAllImmediates fuel p i f := by
  unfold folding
  rw [hop]
  unfold evalImmediates at hf
  split at hf
  all_goals first
    | cases hf; done
    | obtain rfl := Option.some.inj hf; rfl

end OrbitConsole.ShaderRecompiler
