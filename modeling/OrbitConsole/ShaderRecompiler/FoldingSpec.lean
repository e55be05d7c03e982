import OrbitConsole.ShaderRecompiler.ConstantPropagationSpec

/-!
# Foldings are sound edits

Each case of the switch returns on an instruction whose operands have values, and the edit that
it makes keeps the value of the instruction.
-/

namespace OrbitConsole.ShaderRecompiler

variable {F : Floats} {σ : ℕ → Datum} {rank : ℕ → ℕ} {fuel bound : ℕ} {p : Program Datum}
  {i j : Inst Datum} {value v : Value Datum} {ds : List Datum} {d : Datum}

/-! ### What operands an opcode with a result has -/

theorem on32_eq {f : BitVec 32 → Option Datum} (h : on32 f ds = some d) :
    ∃ a, ds = [.u32 a] ∧ f a = some d := by
  unfold on32 at h
  split at h
  · exact ⟨_, rfl, h⟩
  · cases h

theorem on64_eq {f : BitVec 64 → Option Datum} (h : on64 f ds = some d) :
    ∃ a, ds = [.u64 a] ∧ f a = some d := by
  unfold on64 at h
  split at h
  · exact ⟨_, rfl, h⟩
  · cases h

theorem onF32_eq {f : BitVec 32 → Option Datum} (h : onF32 f ds = some d) :
    ∃ a, ds = [.f32 a] ∧ f a = some d := by
  unfold onF32 at h
  split at h
  · exact ⟨_, rfl, h⟩
  · cases h

theorem on32x2_eq {f : BitVec 32 → BitVec 32 → Option Datum} (h : on32x2 f ds = some d) :
    ∃ a b, ds = [.u32 a, .u32 b] ∧ f a b = some d := by
  unfold on32x2 at h
  split at h
  · exact ⟨_, _, rfl, h⟩
  · cases h

theorem on64x2_eq {f : BitVec 64 → BitVec 64 → Option Datum} (h : on64x2 f ds = some d) :
    ∃ a b, ds = [.u64 a, .u64 b] ∧ f a b = some d := by
  unfold on64x2 at h
  split at h
  · exact ⟨_, _, rfl, h⟩
  · cases h

theorem logical2_eq {f : Bool → Bool → Bool} (h : logical2 f ds = some d) :
    ∃ a b, ds = [.u1 a, .u1 b] ∧ d = .u1 (f a b) := by
  unfold logical2 at h
  split at h
  · exact ⟨_, _, rfl, (Option.some.inj h).symm⟩
  · cases h

theorem selected_eq (h : selected ds = some d) :
    ∃ c a b, ds = [.u1 c, a, b] ∧ d = if c then a else b := by
  unfold selected at h
  split at h
  · exact ⟨_, _, _, rfl, (Option.some.inj h).symm⟩
  · cases h

theorem args_one {vs : List (Value Datum)} {x : Datum} (h : vs.map (·.eval σ) = [x]) :
    ∃ u, vs = [u] ∧ u.eval σ = x := by
  obtain ⟨u, rfl, rfl⟩ := List.map_eq_singleton_iff.1 h
  exact ⟨u, rfl, rfl⟩

theorem args_two {vs : List (Value Datum)} {x y : Datum} (h : vs.map (·.eval σ) = [x, y]) :
    ∃ u v, vs = [u, v] ∧ u.eval σ = x ∧ v.eval σ = y := by
  obtain ⟨u, us, rfl, rfl, hus⟩ := List.map_eq_cons_iff.1 h
  obtain ⟨v, rfl, rfl⟩ := args_one hus
  exact ⟨u, v, rfl, rfl, rfl⟩

theorem args_three {vs : List (Value Datum)} {x y z : Datum}
    (h : vs.map (·.eval σ) = [x, y, z]) :
    ∃ u v w, vs = [u, v, w] ∧ u.eval σ = x ∧ v.eval σ = y ∧ w.eval σ = z := by
  obtain ⟨u, us, rfl, rfl, hus⟩ := List.map_eq_cons_iff.1 h
  obtain ⟨v, w, rfl, rfl, rfl⟩ := args_two hus
  exact ⟨u, v, w, rfl, rfl, rfl, rfl⟩

/-! ### Producers -/

namespace Assigned

theorem resolve (h : Assigned F σ rank fuel p) (n : ℕ) (hn : v.Before p rank n) :
    ∃ v', p.resolve n v = .ok v' ∧ v'.eval σ = v.eval σ ∧
      (∀ id, v' = .inst id → ∃ j ∈ p.all, p.find? id = some j ∧ j.op ≠ .identity) ∧
      ∀ bound, v.Before p rank bound → v'.Before p rank bound := by
  induction n generalizing v with
  | zero =>
      cases v with
      | imm d => exact ⟨.imm d, rfl, rfl, nofun, fun _ hb => hb⟩
      | inst id => exact absurd (hn id rfl).1 (Nat.not_lt_zero _)
  | succ n ih =>
      cases v with
      | imm d => exact ⟨.imm d, rfl, rfl, nofun, fun _ hb => hb⟩
      | inst id =>
          obtain ⟨hrank, hdef⟩ := hn id rfl
          obtain ⟨j, hfind⟩ := hdef.find?
          obtain ⟨hj, rfl⟩ := Program.mem_of_find? hfind
          by_cases hop : j.op = .identity
          · -- an identity has the value of its operand, which is of lower rank
            have hval := h.value j hj _ (by rw [hop]; rfl)
            split at hval
            · next x hx =>
                obtain ⟨u, hu, hux⟩ := args_one hx
                have hub := h.before j hj u (by simp [hu])
                obtain ⟨v', hres, heval, hend, hbelow⟩ := ih (hub.mono (Nat.lt_succ_iff.1 hrank))
                refine ⟨v', ?_, ?_, hend, fun bound hb => ?_⟩
                · simp only [Program.resolve, hfind, if_pos hop, hu]
                  exact hres
                · rw [heval, hux]
                  exact Option.some.inj hval
                · exact hbelow bound (hub.mono (Nat.le_of_lt (hb j.id rfl).1))
            · cases hval
          · refine ⟨.inst j.id, ?_, rfl, ?_, fun _ hb => hb⟩
            · simp [Program.resolve, hfind, hop, pure, Except.pure]
            · intro id hid
              obtain rfl := Value.inst.inj hid
              exact ⟨j, hj, hfind, hop⟩

theorem producer (h : Assigned F σ rank fuel p) (hv : v.Before p rank bound) (hb : bound ≤ fuel) :
    (∃ d, p.producer fuel v = .ok (.inl d) ∧ v.eval σ = d) ∨
      ∃ j ∈ p.all, p.producer fuel v = .ok (.inr j) ∧ v.eval σ = σ j.id ∧ rank j.id < bound := by
  obtain ⟨v', hres, heval, hend, hbelow⟩ := h.resolve fuel (hv.mono hb)
  cases v' with
  | imm d =>
      refine .inl ⟨d, ?_, heval.symm⟩
      simp [Program.producer, hres, bind, Except.bind, pure, Except.pure]
  | inst id =>
      obtain ⟨j, hj, hfind, -⟩ := hend id rfl
      obtain ⟨-, rfl⟩ := Program.mem_of_find? hfind
      refine .inr ⟨j, hj, ?_, heval.symm, (hbelow bound hv j.id rfl).1⟩
      simp [Program.producer, hres, hfind, bind, Except.bind, pure, Except.pure]

theorem producer_arg (h : Assigned F σ rank fuel p) (hi : i ∈ p.all) (hv : v ∈ i.args) :
    (∃ d, p.producer fuel v = .ok (.inl d) ∧ v.eval σ = d) ∨
      ∃ j ∈ p.all, p.producer fuel v = .ok (.inr j) ∧ v.eval σ = σ j.id ∧
        rank j.id < rank i.id :=
  h.producer (h.before i hi v hv) (Nat.le_of_lt (h.bound i hi))

end Assigned

/-! ### Commutative operations -/

section Commutative

variable {T : Type} {read : Datum → Exec T} {make : T → Datum} {f : T → T → T}
  {m : List Datum → Option Datum}

theorem withImmediate_spec (h : Assigned F σ rank fuel p) (hj : j ∈ p.all)
    (hm : meaning F i.op = some m)
    (hf : ∀ ds d, m ds = some d → ∃ x y, ds = [make x, make y] ∧ d = make (f x y)) :
    withImmediate fuel p i.op j = .ok none ∨
      ∃ inner x y, withImmediate fuel p i.op j = .ok (some (inner, make y)) ∧
        inner.eval σ = make x ∧ σ j.id = make (f x y) ∧ inner.Before p rank (rank j.id) := by
  unfold withImmediate
  by_cases hop : j.op = i.op
  · rw [if_pos hop]
    obtain ⟨x, y, hargs, hval⟩ := hf _ _ (h.value j hj m (hop ▸ hm))
    obtain ⟨inner, outer, hj', hx, hy⟩ := args_two hargs
    rw [hj']
    rcases h.producer_arg hj (by simp [hj'] : outer ∈ j.args) with ⟨c, hc, hcy⟩ | ⟨k, -, hk, -⟩
    · obtain rfl : make y = c := hy.symm.trans hcy
      refine .inr ⟨inner, x, y, ?_, hx, hval, h.before j hj inner (by simp [hj'])⟩
      simp [hc, bind, Except.bind, pure, Except.pure]
    · left
      simp [hk, bind, Except.bind, pure, Except.pure]
  · left
    rw [if_neg hop]
    rfl

theorem foldCommutative_spec (h : Assigned F σ rank fuel p) (hi : i ∈ p.all)
    (hm : meaning F i.op = some m) (hread : ∀ x, read (make x) = .ok x)
    (hf : ∀ ds d, m ds = some d → ∃ x y, ds = [make x, make y] ∧ d = make (f x y))
    (hcomm : ∀ x y, f x y = f y x) (hassoc : ∀ x y z, f (f x y) z = f x (f y z)) :
    (∃ d, foldCommutative fuel p i read make f = .ok (.inl (.imm d)) ∧ d = σ i.id) ∨
      ∃ lhs rhs x y, foldCommutative fuel p i read make f = .ok (.inr (lhs, rhs)) ∧
        lhs.eval σ = make x ∧ rhs.eval σ = make y ∧ σ i.id = make (f x y) ∧
        lhs.Before p rank (rank i.id) ∧ rhs.Before p rank (rank i.id) := by
  have hinj : ∀ a b, make a = make b → a = b := fun a b hab =>
    Except.ok.inj ((hread a).symm.trans (hab ▸ hread b))
  obtain ⟨x, y, hargs, hval⟩ := hf _ _ (h.value i hi m hm)
  obtain ⟨lhs, rhs, hi', hx, hy⟩ := args_two hargs
  have hlb := h.before i hi lhs (by simp [hi'])
  have hrb := h.before i hi rhs (by simp [hi'])
  unfold foldCommutative
  rw [hi']
  rcases h.producer_arg hi (by simp [hi'] : lhs ∈ i.args) with
    ⟨a, ha, hax⟩ | ⟨j, hj, hja, hjx, hjr⟩ <;>
  rcases h.producer_arg hi (by simp [hi'] : rhs ∈ i.args) with
    ⟨b, hb, hby⟩ | ⟨k, hk, hkb, hky, hkr⟩
  · obtain rfl : make x = a := hx.symm.trans hax
    obtain rfl : make y = b := hy.symm.trans hby
    refine .inl ⟨make (f x y), ?_, hval.symm⟩
    simp [ha, hb, hread, bind, Except.bind, pure, Except.pure]
  · obtain rfl : make x = a := hx.symm.trans hax
    right
    rcases withImmediate_spec h hk hm hf with hnone | ⟨inner, u, w, hsome, hu, hkw, hib⟩
    · refine ⟨rhs, lhs, y, x, ?_, hy, hx, by rw [hval, hcomm], hrb, hlb⟩
      simp [ha, hkb, hnone, bind, Except.bind, pure, Except.pure]
    · refine ⟨inner, .imm (make (f x w)), u, f x w, ?_, hu, rfl, ?_,
        hib.mono (Nat.le_of_lt hkr), Value.before_imm _⟩
      · simp [ha, hkb, hsome, hread, bind, Except.bind, pure, Except.pure]
      · obtain rfl := hinj _ _ (hy.symm.trans (hky.trans hkw))
        rw [hval, ← hassoc, hcomm x u, hassoc]
  · obtain rfl : make y = b := hy.symm.trans hby
    right
    rcases withImmediate_spec h hj hm hf with hnone | ⟨inner, u, w, hsome, hu, hjw, hib⟩
    · refine ⟨lhs, rhs, x, y, ?_, hx, hy, hval, hlb, hrb⟩
      simp [hja, hb, hnone, bind, Except.bind, pure, Except.pure]
    · refine ⟨inner, .imm (make (f y w)), u, f y w, ?_, hu, rfl, ?_,
        hib.mono (Nat.le_of_lt hjr), Value.before_imm _⟩
      · simp [hja, hb, hsome, hread, bind, Except.bind, pure, Except.pure]
      · obtain rfl := hinj _ _ (hx.symm.trans (hjx.trans hjw))
        rw [hval, hassoc, hcomm w y]
  · right
    refine ⟨lhs, rhs, x, y, ?_, hx, hy, hval, hlb, hrb⟩
    simp [hja, hkb, bind, Except.bind, pure, Except.pure]

def SoundFolding (F : Floats) (σ : ℕ → Datum) (rank : ℕ → ℕ) (p : Program Datum) (i : Inst Datum)
    (x : Exec Edit) : Prop := ∃ e, x = .ok e ∧ e.Sound F σ rank p i

variable (read) (make) (f) in
theorem foldCommutativeThen_sound (h : Assigned F σ rank fuel p) (hi : i ∈ p.all)
    (hm : meaning F i.op = some m) (hread : ∀ x, read (make x) = .ok x)
    (hf : ∀ ds d, m ds = some d ↔ ∃ x y, ds = [make x, make y] ∧ d = make (f x y))
    (hcomm : ∀ x y, f x y = f y x) (hassoc : ∀ x y z, f (f x y) z = f x (f y z))
    {withImm : Value Datum → Value Datum → T → Exec Edit}
    (himm : ∀ lhs rhs x y, lhs.eval σ = make x → σ i.id = make (f x y) →
      lhs.Before p rank (rank i.id) → (Edit.setArgs [lhs, rhs]).Sound F σ rank p i →
      SoundFolding F σ rank p i (withImm lhs rhs y)) :
    SoundFolding F σ rank p i (foldCommutativeThen fuel p i read make f withImm) := by
  unfold foldCommutativeThen
  rcases foldCommutative_spec h hi hm hread (fun ds d => (hf ds d).1) hcomm hassoc with
    ⟨d, hfold, hd⟩ | ⟨lhs, rhs, x, y, hfold, hx, hy, hval, hlb, hrb⟩
  · refine ⟨.replace (.imm d), ?_, by rw [hm]; nofun, hd, Value.before_imm d⟩
    simp [hfold, bind, Except.bind, pure, Except.pure]
  · have hset : (Edit.setArgs [lhs, rhs]).Sound F σ rank p i := by
      refine ⟨m, hm, (hf _ _).2 ⟨x, y, by simp [hx, hy], hval⟩, fun v hv => ?_⟩
      rcases List.mem_cons.1 hv with rfl | hv
      · exact hlb
      · exact List.mem_singleton.1 hv ▸ hrb
    rcases h.producer hrb (Nat.le_of_lt (h.bound i hi)) with ⟨b, hb, hby⟩ | ⟨k, -, hk, -⟩
    · obtain rfl : make y = b := hy.symm.trans hby
      obtain ⟨e, he, hsound⟩ := himm lhs rhs x y hx hval hlb hset
      refine ⟨e, ?_, hsound⟩
      simp [hfold, hb, hread, he, bind, Except.bind]
    · refine ⟨.setArgs [lhs, rhs], ?_, hset⟩
      simp [hfold, hk, bind, Except.bind, pure, Except.pure]

end Commutative

theorem on32x2_iff {f : BitVec 32 → BitVec 32 → BitVec 32} :
    on32x2 (fun a b => some (.u32 (f a b))) ds = some d ↔
      ∃ a b, ds = [.u32 a, .u32 b] ∧ d = .u32 (f a b) := by
  constructor
  · intro h
    obtain ⟨a, b, rfl, hab⟩ := on32x2_eq h
    exact ⟨a, b, rfl, (Option.some.inj hab).symm⟩
  · rintro ⟨a, b, rfl, rfl⟩
    rfl

theorem logical2_iff {f : Bool → Bool → Bool} :
    logical2 f ds = some d ↔ ∃ a b, ds = [.u1 a, .u1 b] ∧ d = .u1 (f a b) := by
  constructor
  · exact logical2_eq
  · rintro ⟨a, b, rfl, rfl⟩
    rfl

section Cases

variable (h : Assigned F σ rank fuel p) (hi : i ∈ p.all)
include h hi

theorem foldAdd_sound (hop : i.op = .iAdd32) :
    SoundFolding F σ rank p i (foldAdd fuel p i) := by
  have hm : meaning F i.op = some (on32x2 fun a b => some (.u32 (a + b))) := by rw [hop]; rfl
  refine foldCommutativeThen_sound Datum.toU32 .u32 (· + ·) h hi hm (fun _ => rfl)
    (fun _ _ => on32x2_iff) BitVec.add_comm BitVec.add_assoc
    fun lhs rhs x y hx hval hlb hset => ?_
  by_cases hzero : y = 0
  · refine ⟨.replace lhs, by rw [if_pos hzero]; rfl, by rw [hm]; nofun, ?_, hlb⟩
    rw [hx, hval, hzero]
    exact congrArg Datum.u32 (BitVec.add_zero x).symm
  · exact ⟨.setArgs [lhs, rhs], by rw [if_neg hzero]; rfl, hset⟩

theorem foldMul_sound (hop : i.op = .iMul32) :
    SoundFolding F σ rank p i (foldMul fuel p i) := by
  have hm : meaning F i.op = some (on32x2 fun a b => some (.u32 (a * b))) := by rw [hop]; rfl
  refine foldCommutativeThen_sound Datum.toU32 .u32 (· * ·) h hi hm (fun _ => rfl)
    (fun _ _ => on32x2_iff) BitVec.mul_comm BitVec.mul_assoc
    fun lhs rhs x y hx hval hlb hset => ?_
  by_cases hzero : y = 0
  · refine ⟨.replace (.imm (.u32 0)), by rw [if_pos hzero]; rfl, by rw [hm]; nofun, ?_,
      Value.before_imm _⟩
    rw [hval, hzero]
    exact congrArg Datum.u32 BitVec.mul_zero.symm
  by_cases hone : y = 1
  · refine ⟨.replace lhs, by rw [if_neg hzero, if_pos hone]; rfl, by rw [hm]; nofun, ?_, hlb⟩
    rw [hx, hval, hone]
    exact congrArg Datum.u32 (BitVec.mul_one x).symm
  · exact ⟨.setArgs [lhs, rhs], by rw [if_neg hzero, if_neg hone]; rfl, hset⟩

theorem foldLogicalAnd_sound (hop : i.op = .logicalAnd) :
    SoundFolding F σ rank p i (foldLogicalAnd fuel p i) := by
  have hm : meaning F i.op = some (logical2 (· && ·)) := by rw [hop]; rfl
  refine foldCommutativeThen_sound Datum.toU1 .u1 (· && ·) h hi hm (fun _ => rfl)
    (fun _ _ => logical2_iff) Bool.and_comm Bool.and_assoc fun lhs rhs x y hx hval hlb _ => ?_
  cases y with
  | true =>
      refine ⟨.replace lhs, rfl, by rw [hm]; nofun, ?_, hlb⟩
      rw [hx, hval, Bool.and_true]
  | false =>
      refine ⟨.replace (.imm (.u1 false)), rfl, by rw [hm]; nofun, ?_, Value.before_imm _⟩
      rw [hval, Bool.and_false]
      rfl

theorem foldLogicalOr_sound (hop : i.op = .logicalOr) :
    SoundFolding F σ rank p i (foldLogicalOr fuel p i) := by
  have hm : meaning F i.op = some (logical2 (· || ·)) := by rw [hop]; rfl
  refine foldCommutativeThen_sound Datum.toU1 .u1 (· || ·) h hi hm (fun _ => rfl)
    (fun _ _ => logical2_iff) Bool.or_comm Bool.or_assoc fun lhs rhs x y hx hval hlb _ => ?_
  cases y with
  | true =>
      refine ⟨.replace (.imm (.u1 true)), rfl, by rw [hm]; nofun, ?_, Value.before_imm _⟩
      rw [hval, Bool.or_true]
      rfl
  | false =>
      refine ⟨.replace lhs, rfl, by rw [hm]; nofun, ?_, hlb⟩
      rw [hx, hval, Bool.or_false]

theorem foldSelect_sound (hm : meaning F i.op = some selected) :
    SoundFolding F σ rank p i (foldSelect fuel p i) := by
  obtain ⟨c, a, b, hargs, hval⟩ := selected_eq (h.value i hi _ hm)
  obtain ⟨cond, u, v, hi', hc, hu, hv⟩ := args_three hargs
  unfold foldSelect
  rw [hi']
  rcases h.producer_arg hi (by simp [hi'] : cond ∈ i.args) with ⟨d, hd, hdc⟩ | ⟨k, -, hk, -⟩
  · obtain rfl : .u1 c = d := hc.symm.trans hdc
    refine ⟨.replace (if c then u else v), ?_, by rw [hm]; nofun, ?_, ?_⟩
    · simp [hd, Datum.toU1, bind, Except.bind, pure, Except.pure]
    · cases c
      · exact hv.trans hval.symm
      · exact hu.trans hval.symm
    · cases c
      · exact h.before i hi v (by simp [hi'])
      · exact h.before i hi u (by simp [hi'])
  · refine ⟨.keep, ?_, trivial⟩
    simp [hk, bind, Except.bind, pure, Except.pure]

theorem foldDiscardCond_sound (hop : i.op = .discardCond) :
    SoundFolding F σ rank p i (foldDiscardCond fuel p i) := by
  obtain ⟨c, hargs⟩ := h.discards i hi hop
  obtain ⟨cond, hi', hc⟩ := args_one hargs
  unfold foldDiscardCond
  rw [hi']
  rcases h.producer_arg hi (by simp [hi'] : cond ∈ i.args) with ⟨d, hd, hdc⟩ | ⟨k, -, hk, -⟩
  · obtain rfl : .u1 c = d := hc.symm.trans hdc
    cases c with
    | true =>
        refine ⟨.replaceOpcode .discard, ?_, rfl, hop, hargs⟩
        simp [hd, Datum.toU1, bind, Except.bind, pure, Except.pure]
    | false =>
        refine ⟨.invalidate, ?_, hop, hargs⟩
        simp [hd, Datum.toU1, bind, Except.bind, pure, Except.pure]
  · refine ⟨.keep, ?_, trivial⟩
    simp [hk, bind, Except.bind, pure, Except.pure]

end Cases

end OrbitConsole.ShaderRecompiler
