import OrbitConsole.Library.BinaryFloat
import OrbitConsole.ShaderRecompiler.LowerFp64

/-!
# What the lowering of doubles computes

Both sequences bias the exponent in the wrong direction. The excess bit sets the sign, so a
packed number is always negative, and an unpacked one is another number.
-/

namespace OrbitConsole.ShaderRecompiler

namespace Emitter

variable {F : Floats} {results : Results} {s s' : ℕ × List (Inst Datum)}

/-- The results after what has been emitted. -/
def resultsOf (F : Floats) (results : Results) (s : ℕ × List (Inst Datum)) : Results :=
  s.2.foldl (Inst.compute F) results

/-- A value that has been computed. -/
structure Holds (F : Floats) (results : Results) (s : ℕ × List (Inst Datum)) (v : Value Datum)
    (d : Datum) : Prop where
  bound : v.bound ≤ s.1
  eval : v.eval? (resultsOf F results s) = some d

/-- What has been computed stays. -/
def Later (F : Floats) (results : Results) (s s' : ℕ × List (Inst Datum)) : Prop :=
  ∀ {v d}, Holds F results s v d → Holds F results s' v d

structure Emits (F : Floats) (results : Results) (s : ℕ × List (Inst Datum))
    (m : Emitter (Value Datum)) (d : Datum) : Prop where
  holds : Holds F results (m s).2 (m s).1 d
  later : Later F results s (m s).2

theorem holds_imm (d : Datum) : Holds F results s (.imm d) d := ⟨Nat.zero_le _, rfl⟩

theorem eval_args {args : List (Value Datum)} {ds : List Datum}
    (h : List.Forall₂ (Holds F results s) args ds) :
    args.mapM (Value.eval? (resultsOf F results s)) = some ds := by
  induction h with
  | nil => rfl
  | cons hd _ ih =>
      rw [List.mapM_cons, hd.eval, ih]
      rfl

theorem inst_emits {op : Opcode} {args : List (Value Datum)} {ds : List Datum}
    {f : List Datum → Option Datum} {d : Datum}
    (hargs : List.Forall₂ (Holds F results s) args ds) (hmeaning : meaning F op = some f)
    (hd : f ds = some d) : Emits F results s (inst op args) d := by
  have hresults : resultsOf F results (inst op args s).2 =
      Function.update (resultsOf F results s) s.1 (some d) := by
    unfold resultsOf inst
    rw [List.foldl_append, List.foldl_cons, List.foldl_nil]
    change Function.update (resultsOf F results s) s.1
      ((args.mapM (Value.eval? (resultsOf F results s))).bind fun args =>
        (meaning F op).bind fun f => f args) = _
    rw [eval_args hargs, Option.bind_some, hmeaning, Option.bind_some, hd]
    rfl
  refine ⟨⟨Nat.le_refl _, ?_⟩, fun {v d'} hv => ⟨Nat.le_succ_of_le hv.bound, ?_⟩⟩
  · rw [hresults]
    exact Function.update_self _ _ _
  · rw [hresults]
    cases v with
    | imm _ => exact hv.eval
    | inst id =>
        have hne : id ≠ s.1 := Nat.ne_of_lt hv.bound
        exact (Function.update_of_ne hne _ _).trans hv.eval

theorem Emits.bind {m : Emitter (Value Datum)} {d e : Datum}
    {k : Value Datum → Emitter (Value Datum)} (hm : Emits F results s m d)
    (hk : ∀ v s', Later F results s s' → Holds F results s' v d →
      Emits F results s' (k v) e) : Emits F results s (m >>= k) e := by
  have h := hk (m s).1 (m s).2 hm.later hm.holds
  exact ⟨h.holds, fun hv => h.later (hm.later hv)⟩

theorem Emits.result_eq {m : Emitter (Value Datum)} {d : Datum} {n : ℕ}
    (h : Emits F results (n, []) m d) : m.result F n results = some d := h.holds.eval

section Steps

variable {a b c : Value Datum} {x y : BitVec 32} {t : Bool} {lanes : List (BitVec 32)}

theorem bitwiseOr_emits (ha : Holds F results s a (.u32 x)) (hb : Holds F results s b (.u32 y)) :
    Emits F results s (bitwiseOr a b) (.u32 (x ||| y)) :=
  inst_emits (.cons ha (.cons hb .nil)) rfl rfl

theorem iAdd_emits (ha : Holds F results s a (.u32 x)) (hb : Holds F results s b (.u32 y)) :
    Emits F results s (iAdd a b) (.u32 (x + y)) :=
  inst_emits (.cons ha (.cons hb .nil)) rfl rfl

theorem iEqual_emits (ha : Holds F results s a (.u32 x)) (hb : Holds F results s b (.u32 y)) :
    Emits F results s (iEqual a b) (.u1 (x == y)) :=
  inst_emits (.cons ha (.cons hb .nil)) rfl rfl

theorem select_emits (hc : Holds F results s c (.u1 t)) (ha : Holds F results s a (.u32 x))
    (hb : Holds F results s b (.u32 y)) :
    Emits F results s (select c a b) (.u32 (if t then x else y)) :=
  inst_emits (.cons hc (.cons ha (.cons hb .nil))) rfl (by cases t <;> rfl)

theorem shiftLeftLogical_emits {n : ℕ} (h : n < 32) (ha : Holds F results s a (.u32 x)) :
    Emits F results s (shiftLeftLogical a n) (.u32 (x <<< n)) := by
  have hn : ((n : BitVec 32)).toNat = n := Nat.mod_eq_of_lt (by omega)
  refine inst_emits (.cons ha (.cons (holds_imm _) .nil)) rfl ?_
  change (if ((n : BitVec 32)).toNat < 32 then some (Datum.u32 (x <<< ((n : BitVec 32)).toNat))
    else none) = _
  rw [hn, if_pos h]

theorem bitFieldExtract_emits {offset count : ℕ} (h : offset + count ≤ 32)
    (ha : Holds F results s a (.u32 x)) : Emits F results s (bitFieldExtract a offset count)
      (.u32 (BitField.uextract x offset count)) := by
  have hoffset : ((offset : BitVec 32)).toNat = offset := Nat.mod_eq_of_lt (by omega)
  have hcount : ((count : BitVec 32)).toNat = count := Nat.mod_eq_of_lt (by omega)
  refine inst_emits (.cons ha (.cons (holds_imm _) (.cons (holds_imm _) .nil))) rfl ?_
  change (if ((offset : BitVec 32)).toNat + ((count : BitVec 32)).toNat ≤ 32 then
    some (Datum.u32 (BitField.uextract x ((offset : BitVec 32)).toNat
      ((count : BitVec 32)).toNat)) else none) = _
  rw [hoffset, hcount, if_pos h]

theorem compositeExtract_emits (ha : Holds F results s a (.u32s [x, y])) :
    Emits F results s (compositeExtract a 0) (.u32 x) ∧
      Emits F results s (compositeExtract a 1) (.u32 y) :=
  ⟨inst_emits (.cons ha (.cons (holds_imm _) .nil)) rfl rfl,
    inst_emits (.cons ha (.cons (holds_imm _) .nil)) rfl rfl⟩

theorem compositeConstruct_emits (ha : Holds F results s a (.u32 x))
    (hb : Holds F results s b (.u32 y)) :
    Emits F results s (compositeConstruct a b) (.u32s [x, y]) :=
  inst_emits (.cons ha (.cons hb .nil)) rfl rfl

end Steps

end Emitter

namespace LowerFp64

open Emitter

variable {F : Floats} {results : Results} {s : ℕ × List (Inst Datum)}

/-- An exponent after the two selections. -/
def rebias (top top' bias exp : BitVec 32) : BitVec 32 :=
  if exp == top then top' else if exp == 0 then 0 else exp + bias

/-- The word that `packedF64ToF32` computes. -/
def narrow (lo hi : BitVec 32) : BitVec 32 :=
  BitField.uextract hi 31 1 <<< 31 |||
    (rebias 0x7ff 0xff f64ToF32Exp (BitField.uextract hi 20 11) <<< 23 |||
      (BitField.uextract hi 0 20 <<< 3 ||| BitField.uextract lo 29 3))

/-- The words that `f32ToPackedF64` computes. -/
def widenLo (x : BitVec 32) : BitVec 32 :=
  BitField.uextract (BitField.uextract x 0 23) 0 3 <<< 29

def widenHi (x : BitVec 32) : BitVec 32 :=
  BitField.uextract x 31 1 <<< 31 |||
    (rebias 0xff 0x7ff f32ToF64Exp (BitField.uextract x 23 8) <<< 20 |||
      BitField.uextract (BitField.uextract x 0 23) 3 20)

theorem packedF64ToF32_emits {packed : Value Datum} {lo hi : BitVec 32}
    (h : Holds F results s packed (.u32s [lo, hi])) :
    Emits F results s (packedF64ToF32 packed) (.f32 (narrow lo hi)) := by
  refine (compositeExtract_emits h).1.bind fun _ _ l hlo => ?_
  refine (compositeExtract_emits (l h)).2.bind fun _ _ l hhi => ?_
  refine (bitFieldExtract_emits (by decide) hhi).bind fun _ _ l₁ hsign => ?_
  refine (bitFieldExtract_emits (by decide) (l₁ hhi)).bind fun _ _ l₂ hexp => ?_
  refine (bitFieldExtract_emits (by decide) (l₂ (l₁ hhi))).bind fun _ _ l₃ hmhi => ?_
  refine (bitFieldExtract_emits (by decide) (l₃ (l₂ (l₁ (l hlo))))).bind
    fun _ _ l₄ hmlo => ?_
  refine (shiftLeftLogical_emits (by decide) (l₄ hmhi)).bind fun _ _ l₅ hmhi => ?_
  refine (bitwiseOr_emits hmhi (l₅ hmlo)).bind fun _ _ l₆ hmantissa => ?_
  have hexp := l₆ (l₅ (l₄ (l₃ hexp)))
  refine (iEqual_emits hexp (holds_imm _)).bind fun _ _ l₇ hzero => ?_
  refine (iAdd_emits (l₇ hexp) (holds_imm _)).bind fun _ _ l₈ hsum => ?_
  refine (select_emits (l₈ hzero) (holds_imm _) hsum).bind fun _ _ l₉ hsub => ?_
  refine (iEqual_emits (l₉ (l₈ (l₇ hexp))) (holds_imm _)).bind fun _ _ l₁₀ hmax => ?_
  refine (select_emits hmax (holds_imm _) (l₁₀ hsub)).bind fun _ _ l₁₁ hnew => ?_
  have hsign := l₁₁ (l₁₀ (l₉ (l₈ (l₇ (l₆ (l₅ (l₄ (l₃ (l₂ hsign)))))))))
  have hmantissa := l₁₁ (l₁₀ (l₉ (l₈ (l₇ hmantissa))))
  refine (shiftLeftLogical_emits (by decide) hsign).bind fun _ _ l₁₂ hsign => ?_
  refine (shiftLeftLogical_emits (by decide) (l₁₂ hnew)).bind fun _ _ l₁₃ hnew => ?_
  refine (bitwiseOr_emits hnew (l₁₃ (l₁₂ hmantissa))).bind fun _ _ l₁₄ hlow => ?_
  refine (bitwiseOr_emits (l₁₄ (l₁₃ hsign)) hlow).bind fun _ _ _ hword => ?_
  exact inst_emits (.cons hword .nil) rfl rfl

theorem f32ToPackedF64_emits {raw : Value Datum} {x : BitVec 32}
    (h : Holds F results s raw (.f32 x)) :
    Emits F results s (f32ToPackedF64 raw) (.u32s [widenLo x, widenHi x]) := by
  have hvalue : Emits F results s (inst .bitCastU32F32 [raw]) (.u32 x) :=
    inst_emits (.cons h .nil) rfl rfl
  refine hvalue.bind fun _ _ _ hvalue => ?_
  refine (bitFieldExtract_emits (by decide) hvalue).bind fun _ _ l₁ hsign => ?_
  refine (bitFieldExtract_emits (by decide) (l₁ hvalue)).bind fun _ _ l₂ hexp => ?_
  refine (bitFieldExtract_emits (by decide) (l₂ (l₁ hvalue))).bind fun _ _ l₃ hmant => ?_
  refine (bitFieldExtract_emits (by decide) hmant).bind fun _ _ l₄ hmhi => ?_
  refine (bitFieldExtract_emits (by decide) (l₄ hmant)).bind fun _ _ l₅ hmlo => ?_
  have hexp := l₅ (l₄ (l₃ hexp))
  refine (iEqual_emits hexp (holds_imm _)).bind fun _ _ l₆ hzero => ?_
  refine (iAdd_emits (l₆ hexp) (holds_imm _)).bind fun _ _ l₇ hsum => ?_
  refine (select_emits (l₇ hzero) (holds_imm _) hsum).bind fun _ _ l₈ hsub => ?_
  refine (iEqual_emits (l₈ (l₇ (l₆ hexp))) (holds_imm _)).bind fun _ _ l₉ hmax => ?_
  refine (select_emits hmax (holds_imm _) (l₉ hsub)).bind fun _ _ l₁₀ hnew => ?_
  have hmlo := l₁₀ (l₉ (l₈ (l₇ (l₆ hmlo))))
  refine (shiftLeftLogical_emits (by decide) hmlo).bind fun _ _ l₁₁ hlo => ?_
  have hsign := l₁₁ (l₁₀ (l₉ (l₈ (l₇ (l₆ (l₅ (l₄ (l₃ (l₂ hsign)))))))))
  have hmhi := l₁₁ (l₁₀ (l₉ (l₈ (l₇ (l₆ (l₅ hmhi))))))
  refine (shiftLeftLogical_emits (by decide) hsign).bind fun _ _ l₁₂ hsign => ?_
  refine (shiftLeftLogical_emits (by decide) (l₁₂ (l₁₁ hnew))).bind fun _ _ l₁₃ hnew => ?_
  refine (bitwiseOr_emits hnew (l₁₃ (l₁₂ hmhi))).bind fun _ _ l₁₄ hlow => ?_
  refine (bitwiseOr_emits (l₁₄ (l₁₃ hsign)) hlow).bind fun _ _ l₁₅ hhi => ?_
  exact compositeConstruct_emits (l₁₅ (l₁₄ (l₁₃ (l₁₂ hlo)))) hhi

/-! ### The words as numbers -/

theorem or_top_eq {a y : ℕ} (ha : a < 2) (hy : y < 2 ^ 31) :
    a * 2 ^ 31 ||| y = a * 2 ^ 31 + y ∧ a * 2 ^ 31 ||| (2 ^ 31 + y) = 2 ^ 31 + y := by
  have hone : 2 ^ 31 + y = 2 ^ 31 * 1 ||| y := Nat.two_pow_add_eq_or_of_lt hy 1
  rw [Nat.mul_comm a, ← Nat.two_pow_add_eq_or_of_lt hy]
  refine ⟨rfl, ?_⟩
  obtain rfl | rfl : a = 0 ∨ a = 1 := by omega
  · rw [Nat.mul_zero, Nat.zero_or]
  · rw [hone, ← Nat.or_assoc, Nat.or_self]

theorem toNat_assemble {a e m : BitVec 32} {k r : ℕ} (ha : a.toNat < 2) (hm : m.toNat < 2 ^ k)
    (hk : k ≤ 31) (hr : r < 2 ^ (31 - k)) :
    (e.toNat % 2 ^ (32 - k) = r → (a <<< 31 ||| (e <<< k ||| m)).toNat =
      a.toNat * 2 ^ 31 + (r * 2 ^ k + m.toNat)) ∧
    (e.toNat % 2 ^ (32 - k) = 2 ^ (31 - k) + r → (a <<< 31 ||| (e <<< k ||| m)).toNat =
      2 ^ 31 + (r * 2 ^ k + m.toNat)) := by
  have hsplit : (2 : ℕ) ^ 32 = 2 ^ (32 - k) * 2 ^ k := by
    rw [← pow_add]
    congr 1
    omega
  have hhalf : (2 : ℕ) ^ 31 = 2 ^ (31 - k) * 2 ^ k := by
    rw [← pow_add]
    congr 1
    omega
  have hsign : a.toNat * 2 ^ 31 % 2 ^ 32 = a.toNat * 2 ^ 31 := Nat.mod_eq_of_lt (by omega)
  have hexp : e.toNat * 2 ^ k % 2 ^ 32 = e.toNat % 2 ^ (32 - k) * 2 ^ k := by
    rw [hsplit, Nat.mul_mod_mul_right]
  have hlow : ∀ x, x * 2 ^ k ||| m.toNat = x * 2 ^ k + m.toNat := fun x => by
    rw [Nat.mul_comm x, ← Nat.two_pow_add_eq_or_of_lt hm]
  have hlt : r * 2 ^ k + m.toNat < 2 ^ 31 := by
    rw [hhalf]
    calc r * 2 ^ k + m.toNat < r * 2 ^ k + 2 ^ k := Nat.add_lt_add_left hm _
      _ = (r + 1) * 2 ^ k := (Nat.succ_mul r _).symm
      _ ≤ 2 ^ (31 - k) * 2 ^ k := Nat.mul_le_mul_right _ hr
  rw [BitVec.toNat_or, BitVec.toNat_or, BitVec.toNat_shiftLeft, BitVec.toNat_shiftLeft,
    Nat.shiftLeft_eq, Nat.shiftLeft_eq, hsign, hexp, hlow]
  refine ⟨fun h => ?_, fun h => ?_⟩
  · rw [h]
    exact (or_top_eq ha hlt).1
  · rw [h, Nat.add_mul, ← hhalf, Nat.add_assoc]
    exact (or_top_eq ha hlt).2

theorem toNat_rebias {top top' bias exp : BitVec 32} :
    (rebias top top' bias exp).toNat = if exp.toNat = top.toNat then top'.toNat
      else if exp.toNat = 0 then 0 else (exp.toNat + bias.toNat) % 2 ^ 32 := by
  have hzero : (exp == 0) = decide (exp.toNat = 0) := by
    rw [beq_eq_decide]
    exact decide_eq_decide.2 BitVec.toNat_inj.symm
  have htop : (exp == top) = decide (exp.toNat = top.toNat) := by
    rw [beq_eq_decide]
    exact decide_eq_decide.2 BitVec.toNat_inj.symm
  unfold rebias
  rw [hzero, htop]
  by_cases hmax : exp.toNat = top.toNat
  · rw [decide_eq_true hmax, if_pos rfl, if_pos hmax]
  · rw [decide_eq_false hmax, if_neg Bool.false_ne_true, if_neg hmax]
    by_cases hnone : exp.toNat = 0
    · rw [decide_eq_true hnone, if_pos rfl, if_pos hnone]
      rfl
    · rw [decide_eq_false hnone, if_neg Bool.false_ne_true, if_neg hnone]
      exact BitVec.toNat_add _ _

variable {lo hi x : BitVec 32} {r : ℕ}

theorem toNat_narrow (hr : r < 2 ^ 8) :
    let e := (rebias 0x7ff 0xff f64ToF32Exp (BitField.uextract hi 20 11)).toNat % 2 ^ 9
    let m := hi.toNat % 2 ^ 20 * 8 + lo.toNat / 2 ^ 29
    (e = r → (narrow lo hi).toNat = hi.toNat / 2 ^ 31 * 2 ^ 31 + (r * 2 ^ 23 + m)) ∧
      (e = 2 ^ 8 + r → (narrow lo hi).toNat = 2 ^ 31 + (r * 2 ^ 23 + m)) := by
  have hlo := lo.isLt
  have hhi := hi.isLt
  have hm : (BitField.uextract hi 0 20 <<< 3 ||| BitField.uextract lo 29 3).toNat =
      hi.toNat % 2 ^ 20 * 8 + lo.toNat / 2 ^ 29 := by
    rw [BitVec.toNat_or, BitVec.toNat_shiftLeft, BitField.toNat_uextract, BitField.toNat_uextract,
      Nat.shiftLeft_eq, Nat.mod_eq_of_lt (by omega), Nat.mul_comm,
      ← Nat.two_pow_add_eq_or_of_lt (by omega)]
    omega
  have hs : (BitField.uextract hi 31 1).toNat = hi.toNat / 2 ^ 31 := by
    rw [BitField.toNat_uextract]
    omega
  have h := toNat_assemble (a := BitField.uextract hi 31 1)
    (e := rebias 0x7ff 0xff f64ToF32Exp (BitField.uextract hi 20 11))
    (m := BitField.uextract hi 0 20 <<< 3 ||| BitField.uextract lo 29 3) (k := 23) (r := r)
    (by omega) (by omega) (by decide) hr
  rw [hs, hm] at h
  exact h

theorem toNat_widenLo : (widenLo x).toNat = x.toNat % 8 * 2 ^ 29 := by
  unfold widenLo
  rw [BitVec.toNat_shiftLeft, BitField.toNat_uextract, BitField.toNat_uextract, Nat.shiftLeft_eq,
    Nat.mod_eq_of_lt (by omega)]
  omega

theorem toNat_widenHi (hr : r < 2 ^ 11) :
    let e := (rebias 0xff 0x7ff f32ToF64Exp (BitField.uextract x 23 8)).toNat % 2 ^ 12
    let m := x.toNat % 2 ^ 23 / 8
    (e = r → (widenHi x).toNat = x.toNat / 2 ^ 31 * 2 ^ 31 + (r * 2 ^ 20 + m)) ∧
      (e = 2 ^ 11 + r → (widenHi x).toNat = 2 ^ 31 + (r * 2 ^ 20 + m)) := by
  have hx := x.isLt
  have hm : (BitField.uextract (BitField.uextract x 0 23) 3 20).toNat =
      x.toNat % 2 ^ 23 / 8 := by
    rw [BitField.toNat_uextract, BitField.toNat_uextract]
    omega
  have hs : (BitField.uextract x 31 1).toNat = x.toNat / 2 ^ 31 := by
    rw [BitField.toNat_uextract]
    omega
  have h := toNat_assemble (a := BitField.uextract x 31 1)
    (e := rebias 0xff 0x7ff f32ToF64Exp (BitField.uextract x 23 8))
    (m := BitField.uextract (BitField.uextract x 0 23) 3 20) (k := 20) (r := r)
    (by omega) (by omega) (by decide) hr
  rw [hs, hm] at h
  exact h

/-! ### Doubles and singles of equal value -/

open BinaryFloat

def single : FloatFormat := { expBits := 8, fracBits := 23 }

def double : FloatFormat := { expBits := 11, fracBits := 52 }

/-- The double with the given words. -/
def ofWords (lo hi : BitVec 32) : ℕ := lo.toNat + hi.toNat * 2 ^ 32

def Ordinary (x : BitVec 32) : Prop :=
  single.Normal x.toNat ∨ single.Zero x.toNat ∨ single.Infinite x.toNat

/-- The words of a double from the fields of the single with the same value. -/
def wordsOf (x : BitVec 32) (exp : ℕ) : ℕ × ℕ :=
  (x.toNat % 8 * 2 ^ 29, x.toNat / 2 ^ 31 * 2 ^ 31 + (exp * 2 ^ 20 + x.toNat % 2 ^ 23 / 8))

theorem words_eq {exp : ℕ} (hsign : double.sign (ofWords lo hi) = single.sign x.toNat)
    (hexp : double.exp (ofWords lo hi) = exp)
    (hfrac : double.frac (ofWords lo hi) = single.frac x.toNat * 2 ^ 29) :
    (lo.toNat, hi.toNat) = wordsOf x exp := by
  have hlo := lo.isLt
  have hhi := hi.isLt
  have hx := x.isLt
  have hsign := decide_eq_decide.1 hsign
  unfold FloatFormat.exp FloatFormat.frac double single ofWords at *
  dsimp only at *
  rw [wordsOf, Prod.mk.injEq]
  omega

theorem words_of_value (h : double.value (ofWords lo hi) = single.value x.toNat)
    (hx : Ordinary x) : (lo.toNat, hi.toNat) = wordsOf x
      (if single.exp x.toNat = 0 then 0 else if single.exp x.toNat = single.maxExp then 2047
        else single.exp x.toNat + 896) := by
  obtain hnormal | hzero | hinf := hx
  · obtain ⟨hsign, hexp, hfrac⟩ := FloatFormat.value_eq_normal (f := single) (g := double) 29 896
      rfl rfl (by decide) hnormal h
    rw [if_neg hnormal.1, if_neg hnormal.2]
    exact words_eq hsign hexp hfrac
  · rw [FloatFormat.value_zero (by decide) hzero] at h
    obtain ⟨⟨hexp, hfrac⟩, hsign⟩ := FloatFormat.value_eq_zero h
    rw [if_pos hzero.1]
    exact words_eq hsign hexp (by rw [hfrac, hzero.2, Nat.zero_mul])
  · rw [FloatFormat.value_infinite hinf] at h
    obtain ⟨⟨hexp, hfrac⟩, hsign⟩ := FloatFormat.value_eq_infinite h
    rw [if_neg (by rw [hinf.1]; decide), if_pos hinf.1]
    exact words_eq hsign hexp (by rw [hfrac, hinf.2, Nat.zero_mul])

/-! ### Both sequences -/

theorem narrow_cases (lo hi : BitVec 32) :
    let exp := hi.toNat / 2 ^ 20 % 2 ^ 11
    let m := hi.toNat % 2 ^ 20 * 8 + lo.toNat / 2 ^ 29
    (exp = 0 → (narrow lo hi).toNat = hi.toNat / 2 ^ 31 * 2 ^ 31 + m) ∧
    (exp = 2047 → (narrow lo hi).toNat = hi.toNat / 2 ^ 31 * 2 ^ 31 + (255 * 2 ^ 23 + m)) ∧
    ∀ e, 0 < e → e < 255 →
      (exp = e + 896 → (narrow lo hi).toNat = 2 ^ 31 + (e * 2 ^ 23 + m)) ∧
      (exp = e + 1152 → (narrow lo hi).toNat = hi.toNat / 2 ^ 31 * 2 ^ 31 + (e * 2 ^ 23 + m)) := by
  have hrebias : (rebias 0x7ff 0xff f64ToF32Exp (BitField.uextract hi 20 11)).toNat =
      if hi.toNat / 2 ^ 20 % 2 ^ 11 = 2047 then 255 else if hi.toNat / 2 ^ 20 % 2 ^ 11 = 0 then 0
        else (hi.toNat / 2 ^ 20 % 2 ^ 11 + 896) % 2 ^ 32 := by
    rw [toNat_rebias, BitField.toNat_uextract]
    rfl
  refine ⟨fun h => ?_, fun h => ?_, fun e hpos he => ⟨fun h => ?_, fun h => ?_⟩⟩
  · rw [h, if_neg (by decide), if_pos rfl] at hrebias
    rw [(toNat_narrow (r := 0) (by decide)).1 (by rw [hrebias]; rfl), Nat.zero_mul, Nat.zero_add]
  · rw [h, if_pos rfl] at hrebias
    exact (toNat_narrow (r := 255) (by decide)).1 (by rw [hrebias]; rfl)
  · rw [h, if_neg (by omega), if_neg (by omega)] at hrebias
    exact (toNat_narrow (r := e) (by omega)).2 (by rw [hrebias]; omega)
  · rw [h, if_neg (by omega), if_neg (by omega)] at hrebias
    exact (toNat_narrow (r := e) (by omega)).1 (by rw [hrebias]; omega)

theorem widenHi_cases (x : BitVec 32) :
    let e := x.toNat / 2 ^ 23 % 2 ^ 8
    let m := x.toNat % 2 ^ 23 / 8
    (e = 0 → (widenHi x).toNat = x.toNat / 2 ^ 31 * 2 ^ 31 + m) ∧
    (e = 255 → (widenHi x).toNat = x.toNat / 2 ^ 31 * 2 ^ 31 + (2047 * 2 ^ 20 + m)) ∧
    (e ≠ 0 → e ≠ 255 → (widenHi x).toNat = 2 ^ 31 + ((e + 1152) * 2 ^ 20 + m)) := by
  have hrebias : (rebias 0xff 0x7ff f32ToF64Exp (BitField.uextract x 23 8)).toNat =
      if x.toNat / 2 ^ 23 % 2 ^ 8 = 255 then 2047 else if x.toNat / 2 ^ 23 % 2 ^ 8 = 0 then 0
        else (x.toNat / 2 ^ 23 % 2 ^ 8 + 4294966400) % 2 ^ 32 := by
    rw [toNat_rebias, BitField.toNat_uextract]
    rfl
  refine ⟨fun h => ?_, fun h => ?_, fun h h' => ?_⟩
  · rw [h, if_neg (by decide), if_pos rfl] at hrebias
    rw [(toNat_widenHi (r := 0) (by decide)).1 (by rw [hrebias]; rfl), Nat.zero_mul, Nat.zero_add]
  · rw [h, if_pos rfl] at hrebias
    exact (toNat_widenHi (r := 2047) (by decide)).1 (by rw [hrebias]; rfl)
  · rw [if_neg h', if_neg h] at hrebias
    exact (toNat_widenHi (by omega)).2 (by rw [hrebias]; omega)

def Yields (sequence : Value Datum → Emitter (Value Datum)) (operand result : Datum) : Prop :=
  ∀ (F : Floats) (results : Results) (n : ℕ) (value : Value Datum), value.bound ≤ n →
    value.eval? results = some operand → (sequence value).result F n results = some result

theorem yields_iff {sequence : Value Datum → Emitter (Value Datum)} {operand d : Datum}
    (h : ∀ {F results s value}, Holds F results s value operand →
      Emits F results s (sequence value) d) (result : Datum) :
    Yields sequence operand result ↔ result = d := by
  constructor
  · intro hyields
    let F : Floats := ⟨id, fun _ => 0, fun _ => 0, fun _ _ => 0, fun _ _ => []⟩
    have heq := hyields F (fun _ => none) 0 (.imm operand) (Nat.le_refl 0) rfl
    rw [(h (holds_imm operand)).result_eq] at heq
    exact (Option.some.inj heq).symm
  · rintro rfl F results n value hbound heval
    have hholds : Holds F results (n, []) value operand := ⟨hbound, heval⟩
    exact (h hholds).result_eq

theorem converted_of_not_normal (hwords : (lo.toNat, hi.toNat) = wordsOf x
      (if single.exp x.toNat = 0 then 0 else if single.exp x.toNat = single.maxExp then 2047
        else single.exp x.toNat + 896)) (hx : ¬single.Normal x.toNat) :
    narrow lo hi = x ∧ widenLo x = lo ∧ widenHi x = hi := by
  have hlt := x.isLt
  have hexp : x.toNat / 2 ^ 23 % 2 ^ 8 = 0 ∨ x.toNat / 2 ^ 23 % 2 ^ 8 = 255 :=
    (Decidable.or_iff_not_not_and_not).2 hx
  have hlo := toNat_widenLo (x := x)
  change (lo.toNat, hi.toNat) = wordsOf x (if x.toNat / 2 ^ 23 % 2 ^ 8 = 0 then 0 else
    if x.toNat / 2 ^ 23 % 2 ^ 8 = 255 then 2047 else x.toNat / 2 ^ 23 % 2 ^ 8 + 896) at hwords
  simp only [BitVec.toNat_inj.symm]
  obtain hexp | hexp := hexp
  · rw [hexp, if_pos rfl, wordsOf, Prod.mk.injEq] at hwords
    have hnarrow := (narrow_cases lo hi).1 (by omega)
    have hwiden := (widenHi_cases x).1 hexp
    exact ⟨by omega, by omega, by omega⟩
  · rw [hexp, if_neg (by decide), if_pos rfl, wordsOf, Prod.mk.injEq] at hwords
    have hnarrow := (narrow_cases lo hi).2.1 (by omega)
    have hwiden := (widenHi_cases x).2.1 hexp
    exact ⟨by omega, by omega, by omega⟩

section Fields

variable {sign e m : ℕ}

theorem narrow_of_fields (he : 0 < e ∧ e < 255) (hm : m < 2 ^ 23) (hlo : lo.toNat = m % 8 * 2 ^ 29)
    (hhi : hi.toNat = sign * 2 ^ 31 + ((e + 896) * 2 ^ 20 + m / 8)) :
    (narrow lo hi).toNat = 2 ^ 31 + (e * 2 ^ 23 + m) := by
  have hlt := hi.isLt
  have hexp : hi.toNat / 2 ^ 20 % 2 ^ 11 = e + 896 := by omega
  have hfrac : hi.toNat % 2 ^ 20 * 8 + lo.toNat / 2 ^ 29 = m := by omega
  rw [((narrow_cases lo hi).2.2 e he.1 he.2).1 hexp, hfrac]

theorem narrow_of_widened (he : 0 < e ∧ e < 255) (hm : m < 2 ^ 23)
    (hlo : lo.toNat = m % 8 * 2 ^ 29)
    (hhi : hi.toNat = 2 ^ 31 + ((e + 1152) * 2 ^ 20 + m / 8)) :
    (narrow lo hi).toNat = 2 ^ 31 + (e * 2 ^ 23 + m) := by
  have hexp : hi.toNat / 2 ^ 20 % 2 ^ 11 = e + 1152 := by omega
  have hsign : hi.toNat / 2 ^ 31 = 1 := by omega
  have hfrac : hi.toNat % 2 ^ 20 * 8 + lo.toNat / 2 ^ 29 = m := by omega
  rw [((narrow_cases lo hi).2.2 e he.1 he.2).2 hexp, hsign, hfrac, Nat.one_mul]

theorem widen_of_fields (he : 0 < e ∧ e < 255) (hm : m < 2 ^ 23)
    (hx : x.toNat = sign * 2 ^ 31 + (e * 2 ^ 23 + m)) :
    (widenLo x).toNat = m % 8 * 2 ^ 29 ∧
      (widenHi x).toNat = 2 ^ 31 + ((e + 1152) * 2 ^ 20 + m / 8) := by
  have hexp : x.toNat / 2 ^ 23 % 2 ^ 8 = e := by omega
  have hfrac : x.toNat % 2 ^ 23 = m := by omega
  have hlow : x.toNat % 8 = m % 8 := by omega
  have hhi := (widenHi_cases x).2.2 (by omega) (by omega)
  rw [hexp, hfrac] at hhi
  exact ⟨by rw [toNat_widenLo, hlow], hhi⟩

end Fields

theorem converted_of_normal (hwords : (lo.toNat, hi.toNat) =
      wordsOf x (single.exp x.toNat + 896)) (hx : single.Normal x.toNat) :
    (narrow lo hi).toNat = 2 ^ 31 + x.toNat % 2 ^ 31 ∧
      (narrow (widenLo x) (widenHi x)).toNat = 2 ^ 31 + x.toNat % 2 ^ 31 ∧
      (widenHi x).toNat ≠ hi.toNat ∧ (widenHi (narrow lo hi)).toNat ≠ hi.toNat := by
  have hlt := x.isLt
  obtain ⟨sign, e, m, he, hm, hfields⟩ : ∃ sign e m, (0 < e ∧ e < 255) ∧ m < 2 ^ 23 ∧
      x.toNat = sign * 2 ^ 31 + (e * 2 ^ 23 + m) := by
    have hne : x.toNat / 2 ^ 23 % 2 ^ 8 ≠ 0 ∧ x.toNat / 2 ^ 23 % 2 ^ 8 ≠ 255 := hx
    exact ⟨x.toNat / 2 ^ 31, x.toNat / 2 ^ 23 % 2 ^ 8, x.toNat % 2 ^ 23, by omega, by omega,
      by omega⟩
  have hexp : single.exp x.toNat = e := by
    change x.toNat / 2 ^ 23 % 2 ^ 8 = e
    omega
  have hlow : x.toNat % 8 = m % 8 := by omega
  have hsign : x.toNat / 2 ^ 31 = sign := by omega
  have hfrac : x.toNat % 2 ^ 23 = m := by omega
  have htop : x.toNat % 2 ^ 31 = e * 2 ^ 23 + m := by omega
  rw [hexp, wordsOf, Prod.mk.injEq, hlow, hsign, hfrac] at hwords
  have hnarrow := narrow_of_fields he hm hwords.1 hwords.2
  obtain ⟨hlo, hhi⟩ := widen_of_fields he hm hfields
  have hone : (narrow lo hi).toNat = 1 * 2 ^ 31 + (e * 2 ^ 23 + m) := by rw [hnarrow, Nat.one_mul]
  have hforth := (widen_of_fields he hm hone).2
  rw [htop, hnarrow, narrow_of_widened he hm hlo hhi, hhi, hforth, hwords.2]
  exact ⟨rfl, rfl, by omega, by omega⟩

/-- What the conversion of a double whose value is an ordinary single yields, and that of the
single: only zeros and infinities are converted right, except that a negative number is packed
right. -/
theorem double_lowering_iff (h : double.value (ofWords lo hi) = single.value x.toNat)
    (hx : Ordinary x) :
    (Yields packedF64ToF32 (.u32s [lo, hi]) (.f32 x) ↔
      ¬single.Normal x.toNat ∨ single.sign x.toNat = true) ∧
    (Yields f32ToPackedF64 (.f32 x) (.u32s [lo, hi]) ↔ ¬single.Normal x.toNat) ∧
    (Yields (fun value => packedF64ToF32 value >>= f32ToPackedF64) (.u32s [lo, hi])
      (.u32s [lo, hi]) ↔ ¬single.Normal x.toNat) ∧
    (Yields (fun value => f32ToPackedF64 value >>= packedF64ToF32) (.f32 x) (.f32 x) ↔
      ¬single.Normal x.toNat ∨ single.sign x.toNat = true) := by
  have hwords := words_of_value h hx
  rw [yields_iff packedF64ToF32_emits, yields_iff f32ToPackedF64_emits,
    yields_iff fun hv => (packedF64ToF32_emits hv).bind fun _ _ _ => f32ToPackedF64_emits,
    yields_iff fun hv => (f32ToPackedF64_emits hv).bind fun _ _ _ => packedF64ToF32_emits]
  simp only [Datum.f32.injEq, Datum.u32s.injEq, List.cons.injEq, and_true]
  by_cases hnormal : single.Normal x.toNat
  · rw [if_neg hnormal.1, if_neg hnormal.2] at hwords
    obtain ⟨hnarrow, hback, hwiden, hforth⟩ := converted_of_normal hwords hnormal
    have htop : x.toNat = 2 ^ 31 + x.toNat % 2 ^ 31 ↔ single.sign x.toNat = true := by
      have hlt := x.isLt
      have hsign : single.sign x.toNat = decide (x.toNat / 2 ^ 31 % 2 = 1) := rfl
      rw [hsign, decide_eq_true_iff]
      omega
    simp only [not_true_eq_false, false_or, hnormal, iff_false, not_and, ← htop, ← hnarrow]
    refine ⟨BitVec.toNat_inj.symm, fun _ heq => hwiden (congrArg BitVec.toNat heq).symm,
      fun _ heq => hforth (congrArg BitVec.toNat heq).symm, ?_⟩
    rw [hnarrow, ← hback]
    exact BitVec.toNat_inj.symm
  · obtain ⟨hnarrow, hlo, hhi⟩ := converted_of_not_normal hwords hnormal
    rw [hnarrow, hlo, hhi, hnarrow]
    exact ⟨iff_of_true rfl (.inl hnormal), iff_of_true ⟨rfl, rfl⟩ hnormal,
      iff_of_true ⟨rfl, rfl⟩ hnormal, iff_of_true rfl (.inl hnormal)⟩

theorem value_one : double.value (ofWords 0 0x3ff00000) =
    single.value (0x3f800000 : BitVec 32).toNat := by
  have hdouble : double.Normal (ofWords 0 0x3ff00000) := by decide
  have hsingle : single.Normal (0x3f800000 : BitVec 32).toNat := by decide
  rw [FloatFormat.value_normal hdouble, FloatFormat.value_normal hsingle]
  have hfields : double.sign (ofWords 0 0x3ff00000) = false ∧
      double.exp (ofWords 0 0x3ff00000) = 1023 ∧ double.frac (ofWords 0 0x3ff00000) = 0 := by
    decide
  have hfields' : single.sign (0x3f800000 : BitVec 32).toNat = false ∧
      single.exp (0x3f800000 : BitVec 32).toNat = 127 ∧
      single.frac (0x3f800000 : BitVec 32).toNat = 0 := by decide
  have hbias : double.bias = 1023 ∧ single.bias = 127 := by decide
  rw [hfields.1, hfields.2.1, hfields.2.2, hfields'.1, hfields'.2.1, hfields'.2.2, hbias.1, hbias.2]
  norm_num [double, single]

/-- The conversions of one, of which none is right. -/
theorem double_lowering_iff_one :
    ¬Yields f32ToPackedF64 (.f32 0x3f800000) (.u32s [0, 0x3ff00000]) :=
  fun h => (double_lowering_iff value_one (.inl (by decide))).2.1.1 h (by decide)

/-- One is packed as minus one. -/
theorem one_packed_negative : double.value (ofWords 0 0x3ff00000) =
      single.value (0x3f800000 : BitVec 32).toNat ∧ Ordinary 0x3f800000 ∧
    Yields packedF64ToF32 (.u32s [0, 0x3ff00000]) (.f32 0xbf800000) ∧
    ¬Yields packedF64ToF32 (.u32s [0, 0x3ff00000]) (.f32 0x3f800000) := by
  have hnarrow : narrow 0 0x3ff00000 = 0xbf800000 :=
    BitVec.eq_of_toNat_eq (((narrow_cases 0 0x3ff00000).2.2 127 (by decide) (by decide)).1 rfl)
  refine ⟨value_one, .inl (by decide), ?_, ?_⟩
  · rw [yields_iff packedF64ToF32_emits, hnarrow]
  · rw [yields_iff packedF64ToF32_emits, hnarrow]
    decide

end LowerFp64

end OrbitConsole.ShaderRecompiler
