import OrbitConsole.ShaderRecompiler.OpcodeMeaning

/-!
# Edits keep the values of a program

A program together with a value for each of its instructions, such that every opcode with a
meaning has the value that its operands give. An edit is sound when what it puts in place of an
instruction has the value of the instruction, and sound edits keep all values.
-/

namespace OrbitConsole.ShaderRecompiler

open Function (update update_of_ne update_self)

variable {F : Floats} {σ σ' σ'' : ℕ → Datum} {rank : ℕ → ℕ} {fuel bound id : ℕ}
  {p p' p'' : Program Datum} {i i' i'' j : Inst Datum} {value v : Value Datum}

def Opcode.HasResult (op : Opcode) : Prop := op ≠ .void ∧ op ≠ .discardCond

/-- The number is that of an instruction with a result. -/
def Program.Defines (p : Program Datum) (id : ℕ) : Prop :=
  ∃ i ∈ p.all, i.id = id ∧ i.op.HasResult

/-- The value is an immediate, or an instruction of lower rank results in it. -/
def Value.Before (p : Program Datum) (rank : ℕ → ℕ) (bound : ℕ) (value : Value Datum) : Prop :=
  ∀ id, value = .inst id → rank id < bound ∧ p.Defines id

/-- `σ` gives each instruction of the program a value that fits its operands. But for the operands
of phis, the instructions depend on each other in the order of their ranks. -/
structure Assigned (F : Floats) (σ : ℕ → Datum) (rank : ℕ → ℕ) (fuel : ℕ) (p : Program Datum) :
    Prop where
  unique : ∀ i ∈ p.all, ∀ j ∈ p.all, i.id = j.id → i = j
  value : ∀ i ∈ p.all, ∀ m, meaning F i.op = some m → m (i.args.map (·.eval σ)) = some (σ i.id)
  discards : ∀ i ∈ p.all, i.op = .discardCond → ∃ c, i.args.map (·.eval σ) = [.u1 c]
  before : ∀ i ∈ p.all, ∀ v ∈ i.args, v.Before p rank (rank i.id)
  phi : ∀ i ∈ p.all, ∀ a ∈ i.phiArgs, ∀ id, a.2 = .inst id → p.Defines id
  bound : ∀ i ∈ p.all, rank i.id < fuel

/-- What became of an instruction. Its value is the same. If its opcode has a meaning, it is still
there or removed; otherwise it has the same operands, but a conditional discard may have been
decided. -/
structure Follows (F : Floats) (σ σ' : ℕ → Datum) (i i' : Inst Datum) : Prop where
  id : i'.id = i.id
  value : σ' i.id = σ i.id
  pure : meaning F i.op ≠ none → i'.op = i.op ∨ i'.op = .void
  effect : meaning F i.op = none →
    (i'.op = i.op ∧ i'.flags = i.flags ∧ i'.args.map (·.eval σ') = i.args.map (·.eval σ) ∧
      i'.phiArgs.map (fun a => (a.1, a.2.eval σ')) = i.phiArgs.map fun a => (a.1, a.2.eval σ)) ∨
    i.op = .discardCond ∧ (i.args.map (·.eval σ) = [.u1 true] ∧ i'.op = .discard ∨
      i.args.map (·.eval σ) = [.u1 false] ∧ i'.op = .void)

def Refines (F : Floats) (σ σ' : ℕ → Datum) (p p' : Program Datum) : Prop :=
  p'.numBlocks = p.numBlocks ∧
    ∀ b < p.numBlocks, ∀ i ∈ p.insts b, ∃ i' ∈ p'.insts b, Follows F σ σ' i i'

namespace Follows

theorem refl (i : Inst Datum) : Follows F σ σ i i where
  id := rfl
  value := rfl
  pure _ := .inl rfl
  effect _ := .inl ⟨rfl, rfl, rfl, rfl⟩

theorem op_eq (h : Follows F σ σ' i i') (hm : meaning F i.op = none) (hop : i.op ≠ .discardCond) :
    i'.op = i.op := by
  rcases h.effect hm with hsame | ⟨hd, -⟩
  · exact hsame.1
  · exact absurd hd hop

theorem trans (h : Follows F σ σ' i i') (h' : Follows F σ' σ'' i' i'') : Follows F σ σ'' i i'' where
  id := h'.id.trans h.id
  value := by rw [← h.id, h'.value, h.id, h.value]
  pure hm := by
    rcases h.pure hm with hop | hop
    · rw [← hop] at hm ⊢
      exact h'.pure hm
    · have hvoid := h'.op_eq (by rw [hop]; rfl) (by rw [hop]; nofun)
      exact .inr (hvoid.trans hop)
  effect hm := by
    rcases h.effect hm with ⟨hop, hflags, hargs, hphi⟩ | ⟨hd, hcases⟩
    · rcases h'.effect (by rw [hop]; exact hm) with ⟨hop', hflags', hargs', hphi'⟩ | ⟨hd', hcases⟩
      · exact .inl ⟨hop'.trans hop, hflags'.trans hflags, hargs'.trans hargs, hphi'.trans hphi⟩
      · rw [hargs] at hcases
        exact .inr ⟨hop.symm.trans hd', hcases⟩
    · refine .inr ⟨hd, ?_⟩
      rcases hcases with ⟨hc, hop⟩ | ⟨hc, hop⟩
      · have hop' := h'.op_eq (by rw [hop]; rfl) (by rw [hop]; nofun)
        exact .inl ⟨hc, hop'.trans hop⟩
      · have hop' := h'.op_eq (by rw [hop]; rfl) (by rw [hop]; nofun)
        exact .inr ⟨hc, hop'.trans hop⟩

end Follows

namespace Refines

theorem refl (p : Program Datum) : Refines F σ σ p p :=
  ⟨rfl, fun _ _ i hi => ⟨i, hi, .refl i⟩⟩

theorem trans (h : Refines F σ σ' p p') (h' : Refines F σ' σ'' p' p'') :
    Refines F σ σ'' p p'' := by
  refine ⟨h'.1.trans h.1, fun b hb i hi => ?_⟩
  obtain ⟨i', hi', hf⟩ := h.2 b hb i hi
  obtain ⟨i'', hi'', hf'⟩ := h'.2 b (h.1 ▸ hb) i' hi'
  exact ⟨i'', hi'', hf.trans hf'⟩

end Refines

/-! ### Programs after a change -/

theorem le_foldr_max {ns : List ℕ} {n : ℕ} (h : n ∈ ns) : n ≤ ns.foldr max 0 := by
  induction ns with
  | nil => cases h
  | cons m ms ih =>
      rcases List.mem_cons.1 h with rfl | h
      · exact Nat.le_max_left _ _
      · exact Nat.le_trans (ih h) (Nat.le_max_right _ _)

namespace Program

theorem mem_all : i ∈ p.all ↔ ∃ b < p.numBlocks, i ∈ p.insts b := by
  simp [all]

theorem mem_all_mapInsts {f : Inst Datum → Inst Datum} :
    i ∈ (p.mapInsts f).all ↔ ∃ j ∈ p.all, f j = i := by
  simp only [mem_all, mapInsts, List.mem_map]
  constructor
  · rintro ⟨b, hb, j, hj, rfl⟩
    exact ⟨j, ⟨b, hb, hj⟩, rfl⟩
  · rintro ⟨j, ⟨b, hb, hj⟩, rfl⟩
    exact ⟨b, hb, j, hj, rfl⟩

theorem mem_all_insertBefore {new : List (Inst Datum)} : j ∈ (p.insertBefore id new).all ↔
    j ∈ p.all ∨ j ∈ new ∧ ∃ i ∈ p.all, i.id = id := by
  simp only [mem_all, insertBefore, List.mem_flatMap]
  constructor
  · rintro ⟨b, hb, i, hi, hj⟩
    split at hj
    · next hid =>
        rcases List.mem_append.1 hj with hj | hj
        · exact .inr ⟨hj, i, ⟨b, hb, hi⟩, hid⟩
        · obtain rfl := List.mem_singleton.1 hj
          exact .inl ⟨b, hb, hi⟩
    · obtain rfl := List.mem_singleton.1 hj
      exact .inl ⟨b, hb, hi⟩
  · rintro (⟨b, hb, hj⟩ | ⟨hj, i, ⟨b, hb, hi⟩, hid⟩)
    · exact ⟨b, hb, j, hj, by split <;> simp⟩
    · exact ⟨b, hb, i, hi, by rw [if_pos hid]; exact List.mem_append_left _ hj⟩

theorem mem_of_find? (h : p.find? id = some i) : i ∈ p.all ∧ i.id = id :=
  ⟨List.mem_of_find?_eq_some h, by simpa using List.find?_some h⟩

theorem Defines.find? (h : p.Defines id) : ∃ i, p.find? id = some i := by
  obtain ⟨i, hi, hid, -⟩ := h
  exact Option.isSome_iff_exists.1 (List.find?_isSome.2 ⟨i, hi, by simpa using hid⟩)

theorem Defines.mapInsts {f : Inst Datum → Inst Datum} (h : p.Defines id)
    (hf : ∀ j ∈ p.all, j.id = id → j.op.HasResult → (f j).id = id ∧ (f j).op.HasResult) :
    (p.mapInsts f).Defines id := by
  obtain ⟨j, hj, hid, hop⟩ := h
  exact ⟨f j, mem_all_mapInsts.2 ⟨j, hj, rfl⟩, hf j hj hid hop⟩

theorem bound_le_fresh (hi : i ∈ p.all) : i.bound ≤ p.fresh :=
  le_foldr_max (List.mem_map_of_mem hi)

end Program

theorem Inst.id_lt_bound (i : Inst Datum) : i.id < i.bound := by
  unfold Inst.bound
  omega

theorem Inst.bound_arg_le (hv : v ∈ i.args) : v.bound ≤ i.bound := by
  have h := le_foldr_max (List.mem_map_of_mem (f := Value.bound) hv)
  unfold Inst.bound
  omega

theorem Inst.bound_phiArg_le {a : ℕ × Value Datum} (ha : a ∈ i.phiArgs) : a.2.bound ≤ i.bound := by
  have h := le_foldr_max (List.mem_map_of_mem (f := fun a : ℕ × Value Datum => a.2.bound) ha)
  unfold Inst.bound
  omega

namespace Value

@[simp] theorem eval_imm (d : Datum) : (imm d).eval σ = d := rfl

@[simp] theorem eval_inst (id : ℕ) : (inst id).eval σ = σ id := rfl

theorem before_imm (d : Datum) : (imm d).Before p rank bound := nofun

theorem Before.mono {bound' : ℕ} (h : v.Before p rank bound) (hle : bound ≤ bound') :
    v.Before p rank bound' :=
  fun id hid => ⟨Nat.lt_of_lt_of_le (h id hid).1 hle, (h id hid).2⟩

theorem eval_substitute (h : value.eval σ = σ id) : (v.substitute id value).eval σ = v.eval σ := by
  cases v with
  | imm d => rfl
  | inst id' =>
      by_cases heq : id' = id
      · subst heq
        simpa [substitute] using h
      · simp [substitute, heq]

theorem eval_update {n : ℕ} {d : Datum} (h : v.bound ≤ n) :
    v.eval (update σ n d) = v.eval σ := by
  cases v with
  | imm d => rfl
  | inst id =>
      have hlt : id < n := h
      exact update_of_ne (Nat.ne_of_lt hlt) _ _

end Value

namespace Assigned

theorem mapInsts (h : Assigned F σ rank fuel p) {f : Inst Datum → Inst Datum}
    (hid : ∀ j, (f j).id = j.id)
    (hvalue : ∀ j ∈ p.all, ∀ m, meaning F (f j).op = some m →
      m ((f j).args.map (·.eval σ)) = some (σ j.id))
    (hdiscards : ∀ j ∈ p.all, (f j).op = .discardCond →
      ∃ c, (f j).args.map (·.eval σ) = [.u1 c])
    (hbefore : ∀ j ∈ p.all, ∀ v ∈ (f j).args, v.Before (p.mapInsts f) rank (rank j.id))
    (hphi : ∀ j ∈ p.all, ∀ a ∈ (f j).phiArgs, ∀ id, a.2 = .inst id →
      (p.mapInsts f).Defines id) : Assigned F σ rank fuel (p.mapInsts f) where
  unique i hi j hj heq := by
    obtain ⟨i₀, hi₀, rfl⟩ := Program.mem_all_mapInsts.1 hi
    obtain ⟨j₀, hj₀, rfl⟩ := Program.mem_all_mapInsts.1 hj
    rw [hid, hid] at heq
    rw [h.unique i₀ hi₀ j₀ hj₀ heq]
  value i hi m hm := by
    obtain ⟨j, hj, rfl⟩ := Program.mem_all_mapInsts.1 hi
    rw [hid]
    exact hvalue j hj m hm
  discards i hi hop := by
    obtain ⟨j, hj, rfl⟩ := Program.mem_all_mapInsts.1 hi
    exact hdiscards j hj hop
  before i hi v hv := by
    obtain ⟨j, hj, rfl⟩ := Program.mem_all_mapInsts.1 hi
    rw [hid]
    exact hbefore j hj v hv
  phi i hi a ha := by
    obtain ⟨j, hj, rfl⟩ := Program.mem_all_mapInsts.1 hi
    exact hphi j hj a ha
  bound i hi := by
    obtain ⟨j, hj, rfl⟩ := Program.mem_all_mapInsts.1 hi
    rw [hid]
    exact h.bound j hj

end Assigned

theorem Refines.mapInsts {f : Inst Datum → Inst Datum}
    (hf : ∀ j ∈ p.all, Follows F σ σ j (f j)) : Refines F σ σ p (p.mapInsts f) := by
  refine ⟨rfl, fun b hb i hi => ?_⟩
  exact ⟨f i, List.mem_map_of_mem hi, hf i (Program.mem_all.2 ⟨b, hb, hi⟩)⟩

/-! ### Sound edits -/

/-- The instruction is one that may be edited, and what the edit puts in its place has its
value. -/
def Edit.Sound (F : Floats) (σ : ℕ → Datum) (rank : ℕ → ℕ) (p : Program Datum) (i : Inst Datum) :
    Edit → Prop
  | .keep => True
  | .setArgs args => ∃ m, meaning F i.op = some m ∧ m (args.map (·.eval σ)) = some (σ i.id) ∧
      ∀ v ∈ args, v.Before p rank (rank i.id)
  | .replace value => meaning F i.op ≠ none ∧ value.eval σ = σ i.id ∧
      value.Before p rank (rank i.id)
  | .emit op args => meaning F i.op ≠ none ∧
      ∃ m, meaning F op = some m ∧ m (args.map (·.eval σ)) = some (σ i.id) ∧
        ∀ v ∈ args, v.Before p rank (rank i.id)
  | .replaceOpcode op => op = .discard ∧ i.op = .discardCond ∧
      i.args.map (·.eval σ) = [.u1 true]
  | .invalidate => i.op = .discardCond ∧ i.args.map (·.eval σ) = [.u1 false]

namespace Assigned

theorem hasResult_of_meaning {op : Opcode} (h : meaning F op ≠ none) : op.HasResult :=
  ⟨fun hop => h (by rw [hop]; rfl), fun hop => h (by rw [hop]; rfl)⟩

theorem replace (h : Assigned F σ rank fuel p) (hi : i ∈ p.all) (hm : meaning F i.op ≠ none)
    (heval : value.eval σ = σ i.id) (hbefore : value.Before p rank (rank i.id + 1))
    (hself : value ≠ .inst i.id) :
    Assigned F σ rank fuel (p.replaceUsesWithAndRemove i.id value) ∧
      Refines F σ σ p (p.replaceUsesWithAndRemove i.id value) := by
  have hargs (j : Inst Datum) :
      (j.substitute i.id value).args.map (·.eval σ) = j.args.map (·.eval σ) := by
    simp [Inst.substitute, Function.comp_def, Value.eval_substitute heval]
  have hdef : ∀ id, p.Defines id → id ≠ i.id →
      (p.replaceUsesWithAndRemove i.id value).Defines id := by
    intro id hid hne
    refine hid.mapInsts fun j _ hj hop => ?_
    rw [if_neg (hj ▸ hne)]
    exact ⟨hj, hop⟩
  -- an operand is no use of the removed instruction any more
  have hoperand : ∀ v : Value Datum, (∀ id, v = .inst id → p.Defines id) → ∀ id,
      v.substitute i.id value = .inst id →
        (p.replaceUsesWithAndRemove i.id value).Defines id ∧
          (v = .inst id ∨ v = .inst i.id ∧ value = .inst id) := by
    intro v hv id hid
    cases v with
    | imm d => cases hid
    | inst id' =>
        by_cases heq : id' = i.id
        · have hval : value = .inst id := by simpa [Value.substitute, heq] using hid
          refine ⟨hdef id (hbefore id hval).2 fun hid => hself (hid ▸ hval), .inr ⟨?_, hval⟩⟩
          rw [heq]
        · have hval : id' = id := by simpa [Value.substitute, heq] using hid
          subst hval
          exact ⟨hdef id' (hv id' rfl) heq, .inl rfl⟩
  constructor
  · refine h.mapInsts ?_ ?_ ?_ ?_ ?_
    · intro j
      split <;> rfl
    · intro j hj m hmj
      split at hmj
      · cases hmj
      · next hne =>
          rw [if_neg hne, hargs]
          exact h.value j hj m hmj
    · intro j hj hop
      split at hop
      · cases hop
      · next hne =>
          rw [if_neg hne, hargs]
          exact h.discards j hj hop
    · intro j hj v hv id hid
      split at hv
      · cases hv
      · obtain ⟨v, hmem, rfl⟩ := List.mem_map.1 hv
        have hbv := h.before j hj v hmem
        obtain ⟨hdefines, rfl | ⟨rfl, hval⟩⟩ := hoperand v (fun id hid => (hbv id hid).2) id hid
        · exact ⟨(hbv id rfl).1, hdefines⟩
        · have h₁ := (hbefore id hval).1
          have h₂ := (hbv i.id rfl).1
          exact ⟨by omega, hdefines⟩
    · intro j hj a ha id hid
      split at ha
      · cases ha
      · obtain ⟨a, hmem, rfl⟩ := List.mem_map.1 ha
        exact (hoperand a.2 (h.phi j hj a hmem) id hid).1
  · refine Refines.mapInsts fun j hj => ?_
    by_cases hid : j.id = i.id
    · rw [if_pos hid]
      obtain rfl := h.unique j hj i hi hid
      exact ⟨rfl, rfl, fun _ => .inr rfl, fun hnone => absurd hnone hm⟩
    · rw [if_neg hid]
      refine ⟨rfl, rfl, fun _ => .inl rfl, fun _ => .inl ⟨rfl, rfl, hargs j, ?_⟩⟩
      simp [Inst.substitute, Function.comp_def, Value.eval_substitute heval]

theorem setArgs (h : Assigned F σ rank fuel p) (hi : i ∈ p.all) {args : List (Value Datum)}
    (he : (Edit.setArgs args).Sound F σ rank p i) :
    Assigned F σ rank fuel (p.setArgs i.id args) ∧ Refines F σ σ p (p.setArgs i.id args) := by
  obtain ⟨m, hm, hval, hbefore⟩ := he
  have hdef : ∀ id, p.Defines id → (p.setArgs i.id args).Defines id := by
    intro id hid
    refine hid.mapInsts fun j _ hj hop => ?_
    split <;> exact ⟨hj, hop⟩
  constructor
  · refine h.mapInsts ?_ ?_ ?_ ?_ ?_
    · intro j
      split <;> rfl
    · intro j hj m' hm'
      split at hm'
      · next hid =>
          obtain rfl := h.unique j hj i hi hid
          rw [if_pos rfl]
          obtain rfl : m = m' := Option.some.inj (hm.symm.trans hm')
          exact hval
      · next hid =>
          rw [if_neg hid]
          exact h.value j hj m' hm'
    · intro j hj hop
      split at hop
      · next hid =>
          obtain rfl := h.unique j hj i hi hid
          exact absurd hop (hasResult_of_meaning (by rw [hm]; nofun)).2
      · next hid =>
          rw [if_neg hid]
          exact h.discards j hj hop
    · intro j hj v hv id hid
      split at hv
      · next heq =>
          rw [heq]
          exact ⟨(hbefore v hv id hid).1, hdef id (hbefore v hv id hid).2⟩
      · have hb := h.before j hj v hv id hid
        exact ⟨hb.1, hdef id hb.2⟩
    · intro j hj a ha id hid
      split at ha <;> exact hdef id (h.phi j hj a ha id hid)
  · refine Refines.mapInsts fun j hj => ?_
    split
    · next hid =>
        obtain rfl := h.unique j hj i hi hid
        exact ⟨rfl, rfl, fun _ => .inl rfl, fun hnone => absurd hnone (by rw [hm]; nofun)⟩
    · exact .refl j

theorem decide_discard (h : Assigned F σ rank fuel p) (hi : i ∈ p.all) (hop : i.op = .discardCond)
    {g : Inst Datum → Inst Datum} (hid : ∀ j, (g j).id = j.id)
    (hargs : ∀ j, (g j).args ⊆ j.args ∧ (g j).phiArgs ⊆ j.phiArgs)
    (hcases : i.args.map (·.eval σ) = [.u1 true] ∧ (g i).op = .discard ∨
      i.args.map (·.eval σ) = [.u1 false] ∧ (g i).op = .void) :
    Assigned F σ rank fuel (p.mapInsts fun j => if j.id = i.id then g j else j) ∧
      Refines F σ σ p (p.mapInsts fun j => if j.id = i.id then g j else j) := by
  have hplain : meaning F (g i).op = none ∧ (g i).op ≠ .discardCond := by
    rcases hcases with ⟨-, hop⟩ | ⟨-, hop⟩ <;> rw [hop] <;> exact ⟨rfl, nofun⟩
  have hdef : ∀ id, p.Defines id →
      (p.mapInsts fun j => if j.id = i.id then g j else j).Defines id := by
    intro id hid'
    refine hid'.mapInsts fun j hj hj' hres => ?_
    by_cases heq : j.id = i.id
    · obtain rfl := h.unique j hj i hi heq
      exact absurd hop hres.2
    · rw [if_neg heq]
      exact ⟨hj', hres⟩
  constructor
  · refine h.mapInsts ?_ ?_ ?_ ?_ ?_
    · intro j
      split
      · exact hid j
      · rfl
    · intro j hj m hm
      split at hm
      · next heq =>
          obtain rfl := h.unique j hj i hi heq
          rw [hplain.1] at hm
          cases hm
      · next heq =>
          rw [if_neg heq]
          exact h.value j hj m hm
    · intro j hj hop'
      split at hop'
      · next heq =>
          obtain rfl := h.unique j hj i hi heq
          exact absurd hop' hplain.2
      · next heq =>
          rw [if_neg heq]
          exact h.discards j hj hop'
    · intro j hj v hv id hv'
      have hmem : v ∈ j.args := by
        split at hv
        · exact (hargs j).1 hv
        · exact hv
      have hb := h.before j hj v hmem id hv'
      exact ⟨hb.1, hdef id hb.2⟩
    · intro j hj a ha id ha'
      have hmem : a ∈ j.phiArgs := by
        split at ha
        · exact (hargs j).2 ha
        · exact ha
      exact hdef id (h.phi j hj a hmem id ha')
  · refine Refines.mapInsts fun j hj => ?_
    split
    · next heq =>
        obtain rfl := h.unique j hj i hi heq
        exact ⟨hid j, rfl, fun hne => absurd (by rw [hop]; rfl) hne, fun _ => .inr ⟨hop, hcases⟩⟩
    · exact .refl j

theorem insertBefore (h : Assigned F σ rank fuel p) (hi : i ∈ p.all) {op : Opcode}
    {args : List (Value Datum)} {m : List Datum → Option Datum} (hm : meaning F op = some m)
    (hval : m (args.map (·.eval σ)) = some (σ i.id))
    (hbefore : ∀ v ∈ args, v.Before p rank (rank i.id)) :
    Assigned F (update σ p.fresh (σ i.id)) (update rank p.fresh (rank i.id)) fuel
        (p.insertBefore i.id [{ id := p.fresh, op := op, args := args }]) ∧
      Refines F σ (update σ p.fresh (σ i.id)) p
        (p.insertBefore i.id [{ id := p.fresh, op := op, args := args }]) := by
  set new : Inst Datum := { id := p.fresh, op := op, args := args } with hnew
  set σ' := update σ p.fresh (σ i.id)
  set rank' := update rank p.fresh (rank i.id)
  have hmem : ∀ j, j ∈ (p.insertBefore i.id [new]).all ↔ j ∈ p.all ∨ j = new := by
    intro j
    simp only [Program.mem_all, Program.insertBefore, List.mem_flatMap]
    constructor
    · rintro ⟨b, hb, k, hk, hj⟩
      split at hj
      · simp only [List.cons_append, List.nil_append, List.mem_cons, List.not_mem_nil,
          or_false] at hj
        rcases hj with rfl | rfl
        · exact .inr rfl
        · exact .inl ⟨b, hb, hk⟩
      · obtain rfl := List.mem_singleton.1 hj
        exact .inl ⟨b, hb, hk⟩
    · rintro (⟨b, hb, hj⟩ | rfl)
      · refine ⟨b, hb, j, hj, ?_⟩
        split <;> simp
      · obtain ⟨b, hb, hib⟩ := Program.mem_all.1 hi
        exact ⟨b, hb, i, hib, by simp⟩
  have hlt : ∀ j ∈ p.all, j.id < p.fresh := fun j hj =>
    Nat.lt_of_lt_of_le j.id_lt_bound (Program.bound_le_fresh hj)
  have hσ : ∀ j ∈ p.all, σ' j.id = σ j.id := fun j hj =>
    update_of_ne (Nat.ne_of_lt (hlt j hj)) _ _
  have hrank : ∀ j ∈ p.all, rank' j.id = rank j.id := fun j hj =>
    update_of_ne (Nat.ne_of_lt (hlt j hj)) _ _
  have heval : ∀ j ∈ p.all, j.args.map (·.eval σ') = j.args.map (·.eval σ) := fun j hj =>
    List.map_congr_left fun v hv =>
      Value.eval_update (Nat.le_trans (Inst.bound_arg_le hv) (Program.bound_le_fresh hj))
  have hdef : ∀ id, p.Defines id → (p.insertBefore i.id [new]).Defines id := by
    rintro id ⟨j, hj, hid, hop⟩
    exact ⟨j, (hmem j).2 (.inl hj), hid, hop⟩
  have hbefore' : ∀ (v : Value Datum) (n : ℕ), v.Before p rank n →
      v.Before (p.insertBefore i.id [new]) rank' n := by
    intro v n hv id hid
    obtain ⟨hr, hd⟩ := hv id hid
    have hne : id < p.fresh := by
      obtain ⟨j, hj, hjid, -⟩ := hd
      exact hjid ▸ hlt j hj
    have hrid : rank' id = rank id := update_of_ne (Nat.ne_of_lt hne) _ _
    exact ⟨hrid.symm ▸ hr, hdef id hd⟩
  have hnewargs : args.map (·.eval σ') = args.map (·.eval σ) := by
    refine List.map_congr_left fun v hv => Value.eval_update ?_
    cases v with
    | imm d => exact Nat.zero_le _
    | inst id =>
        obtain ⟨j, hj, hjid, -⟩ := (hbefore _ hv id rfl).2
        exact hjid ▸ hlt j hj
  refine ⟨⟨?_, ?_, ?_, ?_, ?_, ?_⟩, rfl, ?_⟩
  · intro j hj k hk heq
    rcases (hmem j).1 hj with hj | rfl <;> rcases (hmem k).1 hk with hk | rfl
    · exact h.unique j hj k hk heq
    · exact absurd heq (Nat.ne_of_lt (hlt j hj))
    · exact absurd heq.symm (Nat.ne_of_lt (hlt k hk))
    · rfl
  · intro j hj m' hm'
    rcases (hmem j).1 hj with hj | rfl
    · rw [heval j hj, hσ j hj]
      exact h.value j hj m' hm'
    · obtain rfl : m = m' := Option.some.inj (hm.symm.trans hm')
      have hnewvalue : σ' p.fresh = σ i.id := update_self _ _ _
      rw [hnewargs, hval, hnewvalue]
  · intro j hj hop
    rcases (hmem j).1 hj with hj | rfl
    · rw [heval j hj]
      exact h.discards j hj hop
    · exact absurd hop (hasResult_of_meaning (by rw [hm]; nofun)).2
  · intro j hj v hv
    rcases (hmem j).1 hj with hj | rfl
    · rw [hrank j hj]
      exact hbefore' v _ (h.before j hj v hv)
    · have hnewrank : rank' p.fresh = rank i.id := update_self _ _ _
      rw [hnewrank]
      exact hbefore' v _ (hbefore v hv)
  · intro j hj a ha id hid
    rcases (hmem j).1 hj with hj | rfl
    · exact hdef id (h.phi j hj a ha id hid)
    · cases ha
  · intro j hj
    rcases (hmem j).1 hj with hj | rfl
    · rw [hrank j hj]
      exact h.bound j hj
    · have hnewrank : rank' p.fresh = rank i.id := update_self _ _ _
      rw [hnewrank]
      exact h.bound i hi
  · intro b hb j hj
    have hjall := Program.mem_all.2 ⟨b, hb, hj⟩
    refine ⟨j, ?_, rfl, hσ j hjall, fun _ => .inl rfl,
      fun _ => .inl ⟨rfl, rfl, heval j hjall, ?_⟩⟩
    · refine List.mem_flatMap.2 ⟨j, hj, ?_⟩
      split <;> simp
    · refine List.map_congr_left fun a ha => ?_
      rw [Value.eval_update (Nat.le_trans (Inst.bound_phiArg_le ha) (Program.bound_le_fresh hjall))]

theorem apply (h : Assigned F σ rank fuel p) (hi : i ∈ p.all) {e : Edit}
    (he : e.Sound F σ rank p i) : ∃ σ' rank', Assigned F σ' rank' fuel (e.apply p i.id) ∧
      Refines F σ σ' p (e.apply p i.id) := by
  cases e with
  | keep => exact ⟨σ, rank, h, .refl p⟩
  | setArgs args => exact ⟨σ, rank, h.setArgs hi he⟩
  | replace value =>
      obtain ⟨hm, heval, hbefore⟩ := he
      refine ⟨σ, rank, h.replace hi hm heval (hbefore.mono (Nat.le_succ _)) ?_⟩
      exact fun hself => absurd (hbefore i.id hself).1 (Nat.lt_irrefl _)
  | emit op args =>
      obtain ⟨hm, m, hop, hval, hbefore⟩ := he
      obtain ⟨h', href⟩ := h.insertBefore hi hop hval hbefore
      obtain ⟨b, hb, hib⟩ := Program.mem_all.1 hi
      have hlt : i.id < p.fresh :=
        Nat.lt_of_lt_of_le i.id_lt_bound (Program.bound_le_fresh hi)
      have hi' : i ∈ (p.insertBefore i.id [{ id := p.fresh, op := op, args := args }]).all :=
        Program.mem_all.2 ⟨b, hb, List.mem_flatMap.2 ⟨i, hib, by simp⟩⟩
      have hnew : (p.insertBefore i.id [{ id := p.fresh, op := op, args := args }]).Defines
          p.fresh :=
        ⟨_, Program.mem_all.2 ⟨b, hb, List.mem_flatMap.2 ⟨i, hib, by
          rw [if_pos rfl]
          exact List.mem_cons_self⟩⟩, rfl, hasResult_of_meaning (by rw [hop]; nofun)⟩
      have heval : (Value.inst p.fresh : Value Datum).eval (update σ p.fresh (σ i.id)) =
          update σ p.fresh (σ i.id) i.id := by
        simp [update_of_ne (Nat.ne_of_lt hlt)]
      have hself : (Value.inst p.fresh : Value Datum) ≠ .inst i.id := fun heq =>
        Nat.ne_of_lt hlt (Value.inst.inj heq).symm
      obtain ⟨h'', href'⟩ := h'.replace hi' hm heval (fun id hid => by
        obtain rfl := Value.inst.inj hid
        simp [update_of_ne (Nat.ne_of_lt hlt), hnew]) hself
      exact ⟨_, _, h'', href.trans href'⟩
  | replaceOpcode op =>
      obtain ⟨rfl, hop, hcond⟩ := he
      exact ⟨σ, rank, h.decide_discard hi hop (g := fun j => { j with op := .discard })
        (fun _ => rfl) (fun _ => ⟨fun _ h => h, fun _ h => h⟩) (.inl ⟨hcond, rfl⟩)⟩
  | invalidate =>
      obtain ⟨hop, hcond⟩ := he
      exact ⟨σ, rank, h.decide_discard hi hop (g := Inst.invalidate)
        (fun _ => rfl) (fun _ => ⟨nofun, nofun⟩) (.inr ⟨hcond, rfl⟩)⟩

end Assigned

end OrbitConsole.ShaderRecompiler
