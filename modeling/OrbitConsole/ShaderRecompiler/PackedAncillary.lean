import OrbitConsole.ShaderRecompiler.ConstantPropagationRun

/-!
# Extracts from the packed attribute

The first extract from a read of `PackedAncillary` that the pass visits gets its bits from the
attribute of its field, and the read becomes zero. So an extract keeps its bits as long as none
from the same read was visited before it.
-/

namespace OrbitConsole.ShaderRecompiler

variable {A : Attributes} {F : Floats} {fuel id n k : ℕ} {p p' p₁ p₂ : Program Datum}
  {i j : Inst Datum} {value v w base : Value Datum} {ids : List ℕ}

/-! ### What a step does -/

/-- No two instructions share a number. -/
def Program.Unique (p : Program Datum) : Prop := ∀ i ∈ p.all, ∀ j ∈ p.all, i.id = j.id → i = j

/-- New instructions, by their numbers. -/
structure Program.Created (p : Program Datum) (new : List (Inst Datum)) : Prop where
  fresh : ∀ j ∈ new, p.fresh ≤ j.id
  unique : ∀ i ∈ new, ∀ j ∈ new, i.id = j.id → i = j

def Program.rewrite (p : Program Datum) (id : ℕ) (new : List (Inst Datum)) (value : Value Datum) :
    Program Datum :=
  (p.insertBefore id new).replaceUsesWithAndRemove id value

/-- The visit of an instruction takes the branch of `FoldPackedAncillary` that replaces the read
with number `n`. -/
def Replaces (A : Attributes) (fuel : ℕ) (p : Program Datum) (id n : ℕ) : Prop :=
  ∃ i j, p.find? id = some i ∧ i.op = .bitFieldUExtract ∧ j.id = n ∧
    (∃ value rest, i.args = value :: rest ∧ p.producer fuel value = .ok (.inr j)) ∧
    ∃ p', foldPackedAncillary A fuel p i = .ok (some p')

namespace Program

theorem find?_of_mem (hu : p.Unique) (hi : i ∈ p.all) : p.find? i.id = some i := by
  obtain ⟨j, hj⟩ := Option.isSome_iff_exists.1
    (List.find?_isSome.2 ⟨i, hi, by simp⟩ : (p.find? i.id).isSome)
  obtain ⟨hmem, hid⟩ := mem_of_find? hj
  rw [find?, hj, hu j hmem i hi hid]

theorem id_lt_fresh (hi : i ∈ p.all) : i.id < p.fresh :=
  Nat.lt_of_lt_of_le i.id_lt_bound (bound_le_fresh hi)

@[simp] theorem mapInsts_id : p.mapInsts (fun j => j) = p := by
  simp [mapInsts]

@[simp] theorem insertBefore_nil : p.insertBefore id [] = p := by
  simp [insertBefore]

end Program

/-- The visited instruction is edited, or its result replaced. -/
def Edits (p p' : Program Datum) (id : ℕ) : Prop :=
  (∃ f : Inst Datum → Inst Datum, (∀ j, (f j).id = j.id) ∧
      p' = p.mapInsts fun j => if j.id = id then f j else j) ∨
    ∃ new value, p.Created new ∧ p' = p.rewrite id new value

theorem edits_apply (e : Edit) (p : Program Datum) (id : ℕ) : Edits p (e.apply p id) id := by
  cases e with
  | keep => exact .inl ⟨fun j => j, fun _ => rfl, by simp [Edit.apply]⟩
  | setArgs args => exact .inl ⟨fun j => { j with args := args }, fun _ => rfl, rfl⟩
  | replace value =>
      exact .inr ⟨[], value, ⟨nofun, nofun⟩, by simp [Edit.apply, Program.rewrite]⟩
  | emit op args =>
      refine .inr ⟨_, _, ⟨?_, ?_⟩, rfl⟩
      · simp
      · simp
  | replaceOpcode op => exact .inl ⟨fun j => { j with op := op }, fun _ => rfl, rfl⟩
  | invalidate => exact .inl ⟨Inst.invalidate, fun _ => rfl, rfl⟩

theorem edits_foldCmpClass (h : foldCmpClass fuel p i = .ok p') : Edits p p' i.id := by
  unfold foldCmpClass at h
  split at h
  · simp only [Exec.bind_eq_ok] at h
    obtain ⟨x, -, h⟩ := h
    split at h
    · cases h
    · simp only [Exec.bind_eq_ok] at h
      obtain ⟨mask, -, h⟩ := h
      split at h
      · cases h
        exact edits_apply (.replaceOpcode .fpIsNan32) p i.id
      · split at h
        · cases h
          exact edits_apply (.replaceOpcode .fpIsInf32) p i.id
        · split at h
          · cases h
            refine .inr ⟨_, _, ⟨?_, ?_⟩, rfl⟩
            · simp
            · simp
          · cases h
  · cases h

theorem foldPackedAncillary_cases (h : foldPackedAncillary A fuel p i = .ok (some p')) :
    ∃ new value j, p.Created new ∧ j.readsAttribute A.packedAncillary = true ∧
      (∃ value rest, i.args = value :: rest ∧ p.producer fuel value = .ok (.inr j)) ∧
      p' = (p.rewrite i.id new value).replaceUsesWithAndRemove j.id (.imm (.u32 0)) := by
  have hby : ∀ (j : Inst Datum) attr width offset bits, ∃ new value, p.Created new ∧
      replaceByAttribute p i j.id attr width offset bits =
        (p.rewrite i.id new value).replaceUsesWithAndRemove j.id (.imm (.u32 0)) := by
    intro j attr width offset bits
    unfold replaceByAttribute
    simp only
    split
    · refine ⟨_, _, ⟨?_, ?_⟩, rfl⟩
      · simp
      · simp
    · refine ⟨_, _, ⟨?_, ?_⟩, rfl⟩
      · simp
      · simp
  unfold foldPackedAncillary at h
  split at h
  · next value offset bits hargs =>
    simp only [Exec.bind_eq_ok] at h
    obtain ⟨x, hx, y, -, z, -, h⟩ := h
    split at h
    · next j offset bits =>
      split at h
      · next hreads =>
        simp only [Exec.bind_eq_ok] at h
        obtain ⟨offset, -, bits, -, h⟩ := h
        split at h
        · cases h
          obtain ⟨new, v, hnew, heq⟩ := hby j A.sampleIndex 4 (offset - 8) bits
          exact ⟨new, v, j, hnew, hreads, ⟨value, _, hargs, hx⟩, heq⟩
        · split at h
          · cases h
            obtain ⟨new, v, hnew, heq⟩ := hby j A.renderTargetIndex 11 (offset - 16) bits
            exact ⟨new, v, j, hnew, hreads, ⟨value, _, hargs, hx⟩, heq⟩
          · cases h
      · cases h
    · cases h
  · cases h

theorem mem_of_producer (h : p.producer fuel value = .ok (.inr j)) : j ∈ p.all := by
  unfold Program.producer at h
  simp only [Exec.bind_eq_ok] at h
  obtain ⟨x, -, h⟩ := h
  split at h
  · cases h
  · split at h
    · cases h
    · next hfind =>
      cases h
      exact (Program.mem_of_find? hfind).1

theorem Replaces.unique {m : ℕ} (h : Replaces A fuel p id n) (h' : Replaces A fuel p id m) :
    n = m := by
  obtain ⟨i, j, hi, -, rfl, ⟨value, rest, hargs, hj⟩, -⟩ := h
  obtain ⟨i', j', hi', -, rfl, ⟨value', rest', hargs', hj'⟩, -⟩ := h'
  obtain rfl := Option.some.inj (hi.symm.trans hi')
  obtain rfl := (List.cons.inj (hargs.symm.trans hargs')).1
  cases hj.symm.trans hj'
  rfl

theorem constantPropagation_cases (h : constantPropagation A F fuel p id = .ok p') :
    (∀ n, ¬Replaces A fuel p id n) ∧ Edits p p' id ∨
      ∃ new value j, p.Created new ∧ Replaces A fuel p id j.id ∧ j ∈ p.all ∧
        j.readsAttribute A.packedAncillary = true ∧
        p' = (p.rewrite id new value).replaceUsesWithAndRemove j.id (.imm (.u32 0)) := by
  unfold constantPropagation at h
  split at h
  · cases h
  · next i hfind =>
    obtain rfl := (Program.mem_of_find? hfind).2
    have hno : i.op ≠ .bitFieldUExtract ∨ foldPackedAncillary A fuel p i = .ok none →
        ∀ n, ¬Replaces A fuel p i.id n := by
      rintro hor n ⟨i', j, hi', hop, -, -, q, hq⟩
      obtain rfl := Option.some.inj (hfind.symm.trans hi')
      rcases hor with hne | hnone
      · exact hne hop
      · rw [hnone] at hq
        cases hq
    split at h
    · next hop => exact .inl ⟨hno (.inl (by rw [hop]; nofun)), edits_foldCmpClass h⟩
    · next hop =>
      simp only [Exec.bind_eq_ok] at h
      obtain ⟨x, hx, h⟩ := h
      cases x with
      | some q =>
          cases h
          obtain ⟨new, value, j, hnew, hreads, hbase, heq⟩ := foldPackedAncillary_cases hx
          obtain ⟨v, rest, hargs, hj⟩ := hbase
          exact .inr ⟨new, value, j, hnew, ⟨i, j, hfind, hop, rfl, ⟨v, rest, hargs, hj⟩, _, hx⟩,
            mem_of_producer hj, hreads, heq⟩
      | none =>
          simp only [Exec.bind_eq_ok] at h
          obtain ⟨e, -, h⟩ := h
          cases h
          exact .inl ⟨hno (.inr hx), edits_apply e p i.id⟩
    · next hop =>
      simp only [Exec.bind_eq_ok] at h
      obtain ⟨e, -, h⟩ := h
      cases h
      exact .inl ⟨hno (.inl hop), edits_apply e p i.id⟩

/-! ### What becomes of the other instructions -/

def Inst.operands (i : Inst Datum) : List (Value Datum) := i.args ++ i.phiArgs.map (·.2)

def Inst.mapOperands (g : Value Datum → Value Datum) (i : Inst Datum) : Inst Datum :=
  { i with args := i.args.map g, phiArgs := i.phiArgs.map fun a => (a.1, g a.2) }

@[simp] theorem Inst.mapOperands_id (g : Value Datum → Value Datum) (i : Inst Datum) :
    (i.mapOperands g).id = i.id := rfl

@[simp] theorem Inst.mapOperands_op (g : Value Datum → Value Datum) (i : Inst Datum) :
    (i.mapOperands g).op = i.op := rfl

theorem Inst.operands_mapOperands (g : Value Datum → Value Datum) (i : Inst Datum) :
    (i.mapOperands g).operands = i.operands.map g := by
  simp [operands, mapOperands, Function.comp_def]

theorem Inst.mapOperands_eq_self {g : Value Datum → Value Datum}
    (h : ∀ v ∈ i.operands, g v = v) : i.mapOperands g = i := by
  have hargs : i.args.map g = i.args := by
    conv_rhs => rw [← List.map_id i.args]
    exact List.map_congr_left fun v hv => h v (List.mem_append_left _ hv)
  have hphi : i.phiArgs.map (fun a => (a.1, g a.2)) = i.phiArgs := by
    conv_rhs => rw [← List.map_id i.phiArgs]
    refine List.map_congr_left fun a ha => ?_
    rw [h a.2 (List.mem_append_right _ (List.mem_map_of_mem ha))]
    rfl
  simp only [mapOperands, hargs, hphi]

theorem Value.substitute_of_ne (h : v ≠ .inst id) : v.substitute id value = v := by
  cases v with
  | imm d => rfl
  | inst n => simp_all [substitute]

/-- The pass does nothing to instructions of the opcode. -/
def Opcode.LeftAlone (F : Floats) (op : Opcode) : Prop :=
  op ≠ .fpCmpClass32 ∧ op ≠ .bitFieldUExtract ∧
    ∀ fuel p (i : Inst Datum), i.op = op → folding F fuel p i = .ok .keep

theorem leftAlone_getAttributeU32 : Opcode.LeftAlone F .getAttributeU32 := by
  refine ⟨nofun, nofun, fun fuel p i hop => ?_⟩
  unfold folding
  rw [hop]
  rfl

theorem Inst.op_of_readsAttribute {a : ℕ} (h : i.readsAttribute a = true) :
    i.op = .getAttributeU32 := by
  unfold readsAttribute at h
  split at h
  · assumption
  · cases h

theorem Inst.readsAttribute_mapOperands {a : ℕ} {g : Value Datum → Value Datum}
    (hg : ∀ d, g (.imm d) = .imm d) (h : i.readsAttribute a = true) :
    (i.mapOperands g).readsAttribute a = true := by
  unfold readsAttribute at h
  split at h
  · next b rest hop hargs =>
    simp only [readsAttribute, mapOperands, hop, hargs, List.map_cons, hg]
    exact h
  · cases h

section Steps

variable (hu : p.Unique) (h : constantPropagation A F fuel p id = .ok p')
include hu h

theorem step_leftAlone (hi : i ∈ p.all) (hop : i.op.LeftAlone F) (hid : id = i.id) : p' = p := by
  subst hid
  unfold constantPropagation at h
  rw [Program.find?_of_mem hu hi] at h
  dsimp only at h
  split at h
  · next heq => exact absurd heq hop.1
  · next heq => exact absurd heq hop.2.1
  · rw [hop.2.2 fuel p i rfl] at h
    exact (Except.ok.inj h).symm

omit hu in
theorem step_keeps (hj : j ∈ p.all) (hne : j.id ≠ id) :
    (∀ n, ¬Replaces A fuel p id n) ∧
        (∃ g, (∀ v, v ≠ .inst id → g v = v) ∧ j.mapOperands g ∈ p'.all) ∨
      ∃ r ∈ p.all, r.readsAttribute A.packedAncillary = true ∧ Replaces A fuel p id r.id ∧
        (j.id = r.id ∨ ∃ g, (∀ v, v ≠ .inst id → g v = v.substitute r.id (.imm (.u32 0))) ∧
          j.mapOperands g ∈ p'.all) := by
  have hrewrite : ∀ new value, j.substitute id value ∈ (p.rewrite id new value).all := by
    intro new value
    refine Program.mem_all_mapInsts.2 ⟨j, Program.mem_all_insertBefore.2 (.inl hj), ?_⟩
    rw [if_neg hne]
  rcases constantPropagation_cases h with ⟨hno, ⟨f, -, rfl⟩ | ⟨new, value, -, rfl⟩⟩ |
    ⟨new, value, r, -, hreplaces, hr, hreads, rfl⟩
  · refine .inl ⟨hno, fun v => v, fun _ _ => rfl, ?_⟩
    rw [Inst.mapOperands_eq_self fun _ _ => rfl]
    exact Program.mem_all_mapInsts.2 ⟨j, hj, if_neg hne⟩
  · exact .inl ⟨hno, _, fun v hv => Value.substitute_of_ne hv, hrewrite new value⟩
  · refine .inr ⟨r, hr, hreads, hreplaces, ?_⟩
    by_cases hjr : j.id = r.id
    · exact .inl hjr
    · refine .inr ⟨fun v => (v.substitute id value).substitute r.id (.imm (.u32 0)), ?_, ?_⟩
      · intro v hv
        simp only [Value.substitute_of_ne hv]
      · refine Program.mem_all_mapInsts.2 ⟨_, hrewrite new value, ?_⟩
        have hjr' : (j.substitute id value).id ≠ r.id := hjr
        rw [if_neg hjr']
        simp [Inst.substitute, Inst.mapOperands, Function.comp_def]

omit hu in
theorem step_ids (hj : j ∈ p.all) : ∃ j' ∈ p'.all, j'.id = j.id := by
  have hmap : ∀ (q : Program Datum) (f : Inst Datum → Inst Datum), (∀ j, (f j).id = j.id) →
      ∀ j ∈ q.all, ∃ j' ∈ (q.mapInsts f).all, j'.id = j.id :=
    fun q f hf j hj => ⟨f j, Program.mem_all_mapInsts.2 ⟨j, hj, rfl⟩, hf j⟩
  have hrewrite : ∀ new value, ∃ j' ∈ (p.rewrite id new value).all, j'.id = j.id := by
    intro new value
    refine hmap _ _ (fun j => ?_) j (Program.mem_all_insertBefore.2 (.inl hj))
    split <;> rfl
  rcases constantPropagation_cases h with ⟨-, ⟨f, hf, rfl⟩ | ⟨new, value, -, rfl⟩⟩ |
    ⟨new, value, r, -, -, -, -, rfl⟩
  · refine hmap _ _ (fun j => ?_) j hj
    split
    · exact hf j
    · rfl
  · exact hrewrite new value
  · obtain ⟨j', hj', hid⟩ := hrewrite new value
    obtain ⟨j'', hj'', hid'⟩ := hmap _ (fun j => if j.id = r.id then j.invalidate else
      j.substitute r.id (.imm (.u32 0))) (fun j => by split <;> rfl) j' hj'
    exact ⟨j'', hj'', hid'.trans hid⟩

theorem step_unique : p'.Unique := by
  have hmap : ∀ (q : Program Datum) (f : Inst Datum → Inst Datum), (∀ j, (f j).id = j.id) →
      q.Unique → (q.mapInsts f).Unique := by
    intro q f hf hq i hi j hj hid
    obtain ⟨i', hi', rfl⟩ := Program.mem_all_mapInsts.1 hi
    obtain ⟨j', hj', rfl⟩ := Program.mem_all_mapInsts.1 hj
    rw [hf, hf] at hid
    rw [hq i' hi' j' hj' hid]
  have hrewrite : ∀ new value, p.Created new → (p.rewrite id new value).Unique := by
    intro new value hnew
    refine hmap _ _ (fun j => by split <;> rfl) fun i hi j hj hid => ?_
    rcases Program.mem_all_insertBefore.1 hi with hi | ⟨hi, -⟩ <;>
      rcases Program.mem_all_insertBefore.1 hj with hj | ⟨hj, -⟩
    · exact hu i hi j hj hid
    · have h₁ := Program.id_lt_fresh hi
      have h₂ := hnew.fresh j hj
      omega
    · have h₁ := Program.id_lt_fresh hj
      have h₂ := hnew.fresh i hi
      omega
    · exact hnew.unique i hi j hj hid
  rcases constantPropagation_cases h with ⟨-, ⟨f, hf, rfl⟩ | ⟨new, value, hnew, rfl⟩⟩ |
    ⟨new, value, r, hnew, -, -, -, rfl⟩
  · refine hmap _ _ (fun j => ?_) hu
    split
    · exact hf j
    · rfl
  · exact hrewrite new value hnew
  · exact hmap _ _ (fun j => by split <;> rfl) (hrewrite new value hnew)

end Steps

/-! ### Before the extract is visited -/

def Observes (F : Floats) (p : Program Datum) (u k : ℕ) (value : Value Datum) : Prop :=
  ∃ i ∈ p.all, i.id = u ∧ i.op.LeftAlone F ∧ i.op ≠ .getAttributeU32 ∧
    i.operands[k]? = some value

/-- An extract that is still to be visited, the read that it was made from, and an instruction
that has its result as an operand. -/
structure Pending (A : Attributes) (F : Floats) (p : Program Datum) (e l u k : ℕ)
    (base : Value Datum) (offset bits : BitVec 32) : Prop where
  unique : p.Unique
  extract : ∃ i ∈ p.all, i.id = e ∧ i.op = .bitFieldUExtract ∧
    i.args = [base, .imm (.u32 offset), .imm (.u32 bits)]
  observer : Observes F p u k (.inst e)
  read : base = .inst l → ∃ i ∈ p.all, i.id = l ∧ i.readsAttribute A.packedAncillary = true

theorem Observes.step {u : ℕ} (ho : Observes F p u k value) (hu : p.Unique)
    (h : constantPropagation A F fuel p id = .ok p') (hvalue : value ≠ .inst id)
    (hr : ∀ r ∈ p.all, r.readsAttribute A.packedAncillary = true → value ≠ .inst r.id) :
    Observes F p' u k value := by
  obtain ⟨i, hi, hid, halone, hget, hk⟩ := ho
  by_cases hne : i.id = id
  · rw [step_leftAlone hu h hi halone hne.symm]
    exact ⟨i, hi, hid, halone, hget, hk⟩
  · rcases step_keeps h hi hne with ⟨-, g, hg, hmem⟩ | ⟨r, hrmem, hreads, -, heq | ⟨g, hg, hmem⟩⟩
    · refine ⟨_, hmem, hid, halone, hget, ?_⟩
      rw [Inst.operands_mapOperands, List.getElem?_map, hk, Option.map_some, hg _ hvalue]
    · obtain rfl := hu i hi r hrmem heq
      exact absurd (Inst.op_of_readsAttribute hreads) hget
    · refine ⟨_, hmem, hid, halone, hget, ?_⟩
      rw [Inst.operands_mapOperands, List.getElem?_map, hk, Option.map_some, hg _ hvalue,
        Value.substitute_of_ne (hr r hrmem hreads)]

namespace Pending

variable {e l : ℕ} {u k : ℕ} {offset bits : BitVec 32}

theorem step (hp : Pending A F p e l u k base offset bits) (hne : id ≠ e)
    (hbase : base = .inst l ∨ base = .imm (.u32 0))
    (h : constantPropagation A F fuel p id = .ok p') :
    Pending A F p' e l u k base offset bits ∧ ¬(base = .inst l ∧ Replaces A fuel p id l) ∨
      base = .inst l ∧ Replaces A fuel p id l ∧
        Pending A F p' e l u k (.imm (.u32 0)) offset bits := by
  obtain ⟨i, hi, rfl, hop, hargs⟩ := hp.extract
  have hunique := step_unique hp.unique h
  have hother : ∀ r ∈ p.all, r.readsAttribute A.packedAncillary = true → i.id ≠ r.id := by
    intro r hr hreads heq
    obtain rfl := hp.unique i hi r hr heq
    rw [Inst.op_of_readsAttribute hreads] at hop
    cases hop
  have hobs : Observes F p' u k (.inst i.id) := hp.observer.step hp.unique h
    (by simpa using hne.symm) fun r hr hreads => by simpa using hother r hr hreads
  by_cases hread : base = .inst id
  · have hl : id = l := by
      rcases hbase with rfl | rfl
      · exact (Value.inst.inj hread).symm
      · cases hread
    subst hl
    obtain ⟨r, hr, rfl, hreads⟩ := hp.read hread
    have hget := Inst.op_of_readsAttribute hreads
    rw [step_leftAlone hp.unique h hr (by rw [hget]; exact leftAlone_getAttributeU32) rfl]
    refine .inl ⟨hp, ?_⟩
    rintro ⟨-, i', -, hfind, hop', -⟩
    rw [Program.find?_of_mem hp.unique hr] at hfind
    cases hfind
    rw [hget] at hop'
    cases hop'
  · have himm : ∀ {g : Value Datum → Value Datum} {base'},
        (∀ d, g (.imm d) = .imm d) → g base = base' →
        (i.mapOperands g).args = [base', .imm (.u32 offset), .imm (.u32 bits)] := by
      intro g base' hg hb
      simp only [Inst.mapOperands, hargs, List.map_cons, List.map_nil, hg, hb]
    rcases step_keeps h hi hne.symm with ⟨hno, g, hg, hmem⟩ |
      ⟨r, hr, hreads, hreplaces, heq | ⟨g, hg, hmem⟩⟩
    · refine .inl ⟨⟨hunique, ⟨_, hmem, rfl, hop, himm (fun d => hg _ nofun) (hg _ hread)⟩, hobs,
        fun hb => ?_⟩, fun hl => hno l hl.2⟩
      obtain ⟨r, hr, rfl, hreads⟩ := hp.read hb
      have hrne : r.id ≠ id := fun heq => hread (heq ▸ hb)
      rcases step_keeps h hr hrne with ⟨-, g, hg, hmem⟩ | ⟨_, -, -, hreplaces, -⟩
      · exact ⟨_, hmem, rfl, Inst.readsAttribute_mapOperands (fun d => hg _ nofun) hreads⟩
      · exact absurd hreplaces (hno _)
    · exact absurd heq (hother r hr hreads)
    · by_cases hb : base = .inst r.id
      · have hl : l = r.id := by
          rcases hbase with rfl | rfl
          · exact Value.inst.inj hb
          · cases hb
        subst hl
        refine .inr ⟨hb, hreplaces, hunique, ⟨_, hmem, rfl, hop, himm (fun d => hg _ nofun) ?_⟩,
          hobs, nofun⟩
        rw [hg _ hread, hb]
        simp [Value.substitute]
      · refine .inl ⟨⟨hunique, ⟨_, hmem, rfl, hop, himm (fun d => hg _ nofun) ?_⟩, hobs,
          fun hbl => ?_⟩, fun hl => hb ?_⟩
        · rw [hg _ hread, Value.substitute_of_ne hb]
        · obtain ⟨q, hq, rfl, hreads'⟩ := hp.read hbl
          have hqne : q.id ≠ id := fun heq => hread (heq ▸ hbl)
          have hqr : q.id ≠ r.id := fun heq => hb (heq ▸ hbl)
          rcases step_keeps h hq hqne with ⟨hno, -⟩ | ⟨r', -, -, hreplaces', heq | ⟨g, hg, hmem⟩⟩
          · exact absurd hreplaces (hno _)
          · exact absurd (heq.trans (hreplaces'.unique hreplaces)) hqr
          · exact ⟨_, hmem, rfl, Inst.readsAttribute_mapOperands (fun d => hg _ nofun) hreads'⟩
        · rw [hl.1, hl.2.unique hreplaces]

end Pending

/-! ### After the extract was visited -/

structure Settled (A : Attributes) (F : Floats) (p : Program Datum) (new : List (Inst Datum))
    (u k : ℕ) (value : Value Datum) : Prop where
  unique : p.Unique
  mem : ∀ j ∈ new, j ∈ p.all
  notRead : ∀ j ∈ new, j.readsAttribute A.packedAncillary = false
  closed : ∀ j ∈ new, ∀ v ∈ j.operands, ∀ n, v = .inst n → ∃ j' ∈ new, j'.id = n
  result : ∀ n, value = .inst n → ∃ j ∈ new, j.id = n
  observer : Observes F p u k value

/-- Visits of other instructions leave the emitted ones alone. -/
theorem Settled.step {new : List (Inst Datum)} {u : ℕ} (hs : Settled A F p new u k value)
    (hid : ∀ j ∈ new, j.id ≠ id) (h : constantPropagation A F fuel p id = .ok p') :
    Settled A F p' new u k value := by
  have hread : ∀ r ∈ p.all, r.readsAttribute A.packedAncillary = true → ∀ j ∈ new,
      j.id ≠ r.id := by
    intro r hr hreads j hj heq
    obtain rfl := hs.unique j (hs.mem j hj) r hr heq
    rw [hs.notRead j hj] at hreads
    cases hreads
  refine ⟨step_unique hs.unique h, fun j hj => ?_, hs.notRead, hs.closed, hs.result,
    hs.observer.step hs.unique h ?_ ?_⟩
  · have hops : ∀ v ∈ j.operands, v ≠ .inst id := by
      rintro v hv rfl
      obtain ⟨j', hj', heq⟩ := hs.closed j hj _ hv id rfl
      exact hid j' hj' heq
    rcases step_keeps h (hs.mem j hj) (hid j hj) with
      ⟨-, g, hg, hmem⟩ | ⟨r, hr, hreads, -, heq | ⟨g, hg, hmem⟩⟩
    · rwa [Inst.mapOperands_eq_self fun v hv => hg v (hops v hv)] at hmem
    · exact absurd heq (hread r hr hreads j hj)
    · rwa [Inst.mapOperands_eq_self fun v hv => ?_] at hmem
      rw [hg v (hops v hv), Value.substitute_of_ne]
      rintro rfl
      obtain ⟨j', hj', heq⟩ := hs.closed j hj _ hv r.id rfl
      exact hread r hr hreads j' hj' heq
  · rintro rfl
    obtain ⟨j, hj, heq⟩ := hs.result id rfl
    exact hid j hj heq
  · rintro r hr hreads rfl
    obtain ⟨j, hj, heq⟩ := hs.result r.id rfl
    exact hread r hr hreads j hj heq

/-- By induction on the instructions that are visited. -/
theorem Settled.run {new : List (Inst Datum)} {u : ℕ} (hs : Settled A F p new u k value)
    (hids : ∀ j ∈ new, j.id ∉ ids) (h : ids.foldlM (constantPropagation A F fuel) p = .ok p') :
    Settled A F p' new u k value := by
  induction ids generalizing p with
  | nil =>
      cases h
      exact hs
  | cons id ids ih =>
      rw [List.foldlM_cons] at h
      obtain ⟨q, hq, h⟩ := Exec.bind_eq_ok.1 h
      refine ih (hs.step (fun j hj heq => ?_) hq) (fun j hj hmem => ?_) h
      · exact hids j hj (heq ▸ List.mem_cons_self)
      · exact hids j hj (List.mem_cons_of_mem _ hmem)

/-! ### The visit of the extract -/

/-- The field of a sample index, or that of a render target index. -/
def InField (offset bits : BitVec 32) : Prop :=
  0 < bits.toNat ∧ (8 ≤ offset.toNat ∧ offset.toNat + bits.toNat ≤ 12 ∨
    16 ≤ offset.toNat ∧ offset.toNat + bits.toNat ≤ 27)

/-- The attributes have their fields' widths. -/
def Fits (A : Attributes) (attr : ℕ → BitVec 32) : Prop :=
  (attr A.sampleIndex).toNat < 2 ^ 4 ∧ (attr A.renderTargetIndex).toNat < 2 ^ 11

def fieldBits (A : Attributes) (attr : ℕ → BitVec 32) (offset bits : BitVec 32) : BitVec 32 :=
  if offset.toNat < 16 then
    BitField.uextract (attr A.sampleIndex) (offset.toNat - 8) bits.toNat
  else BitField.uextract (attr A.renderTargetIndex) (offset.toNat - 16) bits.toNat

inductive ComputesBits (attr : ℕ → BitVec 32) (p : Program Datum) : Value Datum → BitVec 32 → Prop
  | imm (x : BitVec 32) : ComputesBits attr p (.imm (.u32 x)) x
  | attribute {j : Inst Datum} {a : ℕ} {rest : List (Value Datum)} (hj : j ∈ p.all)
      (hop : j.op = .getAttributeU32) (hargs : j.args = .imm (.attribute a) :: rest) :
      ComputesBits attr p (.inst j.id) (attr a)
  | extract {j : Inst Datum} {base : Value Datum} {x offset bits : BitVec 32} (hj : j ∈ p.all)
      (hop : j.op = .bitFieldUExtract)
      (hargs : j.args = [base, .imm (.u32 offset), .imm (.u32 bits)])
      (hbase : ComputesBits attr p base x) :
      ComputesBits attr p (.inst j.id) (BitField.uextract x offset.toNat bits.toNat)

theorem uextract_zero_of_lt {x : BitVec 32} {n : ℕ} (h : x.toNat < 2 ^ n) :
    BitField.uextract x 0 n = x := by
  refine BitVec.eq_of_getLsbD_eq fun i hi => ?_
  rw [BitField.getLsbD_uextract hi, Nat.zero_add]
  by_cases hn : i < n
  · simp [hn]
  · have hx : x.getLsbD i = false := by
      rw [BitVec.getLsbD, Nat.testBit_lt_two_pow]
      exact Nat.lt_of_lt_of_le h (Nat.pow_le_pow_right (by omega) (by omega))
    simp [hn, hx]

structure Attributes.Distinct (A : Attributes) : Prop where
  sample : A.sampleIndex ≠ A.packedAncillary
  target : A.renderTargetIndex ≠ A.packedAncillary
  both : A.sampleIndex ≠ A.renderTargetIndex

theorem exists_fieldBits_ne {offset bits : BitVec 32} (hA : A.Distinct)
    (hfield : InField offset bits) : ∃ attr, Fits A attr ∧ fieldBits A attr offset bits ≠ 0 := by
  refine ⟨fun a => if a = A.renderTargetIndex then 2047 else 15, ⟨?_, by simp⟩, fun hzero => ?_⟩
  · simp [hA.both]
  · have hbit := congrArg (fun x => x.getLsbD 0) hzero
    unfold fieldBits at hbit
    obtain ⟨hpos, hcase⟩ := hfield
    have hsample : ∀ n : Fin 4, (15 : BitVec 32).getLsbD n = true := by decide
    have htarget : ∀ n : Fin 11, (2047 : BitVec 32).getLsbD n = true := by decide
    split at hbit
    · next hlt =>
      have h := hsample ⟨offset.toNat - 8, by omega⟩
      simp only [hA.both, if_false, BitField.getLsbD_uextract (Nat.zero_lt_succ 31), hpos,
        Nat.add_zero, decide_true, Bool.true_and] at hbit
      rw [h] at hbit
      simp at hbit
    · have h := htarget ⟨offset.toNat - 16, by omega⟩
      simp only [if_true, BitField.getLsbD_uextract (Nat.zero_lt_succ 31), hpos,
        Nat.add_zero, decide_true, Bool.true_and] at hbit
      rw [h] at hbit
      simp at hbit

section Visit

variable {e l u : ℕ} {offset bits : BitVec 32}

theorem Inst.substitute_eq_self (h : ∀ v ∈ j.operands, v ≠ .inst id) : j.substitute id value = j :=
  Inst.mapOperands_eq_self fun v hv => Value.substitute_of_ne (h v hv)

theorem settled_rewrite {new : List (Inst Datum)} (hu : p.Unique) (hi : i ∈ p.all)
    (hnew : p.Created new) (hnot : ∀ j ∈ new, j.readsAttribute A.packedAncillary = false)
    (hclosed : ∀ j ∈ new, ∀ v ∈ j.operands, ∀ n, v = .inst n → ∃ j' ∈ new, j'.id = n)
    (hn : ∃ j ∈ new, j.id = n) (hop : i.op = .bitFieldUExtract)
    (hread : ∃ r ∈ p.all, r.id = l ∧ r.op = .getAttributeU32)
    (hobs : Observes F p u k (.inst i.id))
    (hunique : ((p.rewrite i.id new (.inst n)).replaceUsesWithAndRemove l
      (.imm (.u32 0))).Unique) :
    Settled A F ((p.rewrite i.id new (.inst n)).replaceUsesWithAndRemove l (.imm (.u32 0))) new u k
      (.inst n) := by
  have hold : ∀ j ∈ new, ∀ r ∈ p.all, j.id ≠ r.id := by
    intro j hj r hr
    have h₁ := hnew.fresh j hj
    have h₂ := Program.id_lt_fresh hr
    omega
  obtain ⟨r, hr, rfl, hrop⟩ := hread
  have hopnd : ∀ q ∈ p.all, ∀ j ∈ new, ∀ v ∈ j.operands, v ≠ .inst q.id := by
    rintro q hq j hj v hv rfl
    obtain ⟨j', hj', heq⟩ := hclosed j hj _ hv q.id rfl
    exact hold j' hj' q hq heq
  have hstep : ∀ j ∈ (p.insertBefore i.id new).all, j.id ≠ i.id → j.id ≠ r.id →
      (j.substitute i.id (.inst n)).substitute r.id (.imm (.u32 0)) ∈
        ((p.rewrite i.id new (.inst n)).replaceUsesWithAndRemove r.id (.imm (.u32 0))).all := by
    intro j hj hji hjr
    refine Program.mem_all_mapInsts.2 ⟨j.substitute i.id (.inst n),
      Program.mem_all_mapInsts.2 ⟨j, hj, if_neg hji⟩, if_neg hjr⟩
  refine ⟨hunique, fun j hj => ?_, hnot, hclosed, fun m hm => ?_, ?_⟩
  · have h := hstep j (Program.mem_all_insertBefore.2 (.inr ⟨hj, i, hi, rfl⟩)) (hold j hj i hi)
      (hold j hj r hr)
    rwa [Inst.substitute_eq_self (hopnd i hi j hj), Inst.substitute_eq_self (hopnd r hr j hj)] at h
  · obtain rfl := Value.inst.inj hm
    exact hn
  · obtain ⟨o, ho, hid, halone, hget, hk⟩ := hobs
    have hoi : o.id ≠ i.id := fun heq => halone.2.1 (hu o ho i hi heq ▸ hop)
    have hor : o.id ≠ r.id := fun heq => hget (hu o ho r hr heq ▸ hrop)
    have hnr : n ≠ r.id := by
      obtain ⟨j, hj, rfl⟩ := hn
      exact hold j hj r hr
    refine ⟨_, hstep o (Program.mem_all_insertBefore.2 (.inl ho)) hoi hor, hid, halone, hget, ?_⟩
    change ((o.mapOperands _).mapOperands _).operands[k]? = _
    rw [Inst.operands_mapOperands, Inst.operands_mapOperands]
    simp [hk, Value.substitute, hnr]

theorem settled_replaceByAttribute {a width : ℕ} {off : BitVec 32} (hu : p.Unique) (hi : i ∈ p.all)
    (hread : ∃ r ∈ p.all, r.id = l ∧ r.op = .getAttributeU32) (ha : a ≠ A.packedAncillary)
    (hop : i.op = .bitFieldUExtract) (hobs : Observes F p u k (.inst i.id))
    (hunique : (replaceByAttribute p i l a width off bits).Unique) :
    ∃ new w, Settled A F (replaceByAttribute p i l a width off bits) new u k w ∧
      (∀ j ∈ new, p.fresh ≤ j.id) ∧ ∀ q attr, (∀ j ∈ new, j ∈ Program.all q) →
        (attr a).toNat < 2 ^ width →
        ComputesBits attr q w (BitField.uextract (attr a) off.toNat bits.toNat) := by
  set get : Inst Datum :=
    { id := p.fresh, op := .getAttributeU32, args := [.imm (.attribute a), .imm (.u32 0)] }
    with hget
  set extract : Inst Datum :=
    { id := p.fresh + 1, op := .bitFieldUExtract
      args := [.inst p.fresh, .imm (.u32 off), .imm (.u32 bits)] } with hextract
  have hgetnot : get.readsAttribute A.packedAncillary = false := by
    simp [hget, Inst.readsAttribute, ha]
  by_cases hwhole : off = 0 ∧ bits.toNat = width
  · have heq : replaceByAttribute p i l a width off bits =
        (p.rewrite i.id [get] (.inst p.fresh)).replaceUsesWithAndRemove l (.imm (.u32 0)) := by
      simp only [replaceByAttribute, hwhole, and_self, if_true]
      rfl
    rw [heq] at hunique ⊢
    refine ⟨[get], .inst p.fresh, settled_rewrite hu hi ⟨by simp [hget], by simp⟩
      (by simpa using hgetnot) ?_ ⟨get, by simp, rfl⟩ hop hread hobs hunique, by simp [hget], ?_⟩
    · simp [hget, Inst.operands]
    · intro q attr hq hlt
      have hoff : off.toNat = 0 := by simp [hwhole.1]
      rw [hoff, hwhole.2, uextract_zero_of_lt hlt]
      exact .attribute (hq get (by simp)) rfl rfl
  · have heq : replaceByAttribute p i l a width off bits =
        (p.rewrite i.id [get, extract] (.inst (p.fresh + 1))).replaceUsesWithAndRemove l
          (.imm (.u32 0)) := by
      simp only [replaceByAttribute, hwhole, if_false]
      rfl
    rw [heq] at hunique ⊢
    refine ⟨[get, extract], .inst (p.fresh + 1), settled_rewrite hu hi ⟨?_, ?_⟩ ?_ ?_
      ⟨extract, by simp, rfl⟩ hop hread hobs hunique, by simp [hget, hextract], ?_⟩
    · simp [hget, hextract]
    · simp [hget, hextract]
    · intro j hj
      rcases List.mem_cons.1 hj with rfl | hj
      · exact hgetnot
      · obtain rfl := List.mem_singleton.1 hj
        rfl
    · simp [hget, hextract, Inst.operands]
    · intro q attr hq hlt
      exact .extract (hq extract (by simp)) rfl rfl
        (.attribute (hq get (by simp)) rfl rfl)

theorem producer_read {r : Inst Datum} (hu : p.Unique) (hr : r ∈ p.all)
    (hop : r.op = .getAttributeU32) (hfuel : 0 < fuel) :
    p.producer fuel (.inst r.id) = .ok (.inr r) := by
  obtain ⟨n, rfl⟩ : ∃ n, fuel = n + 1 := ⟨fuel - 1, by omega⟩
  have hfind := Program.find?_of_mem hu hr
  simp [Program.producer, Program.resolve, hfind, hop, bind, Except.bind, pure, Except.pure]

theorem producer_imm (d : Datum) : p.producer fuel (.imm d) = .ok (.inl d) := by
  cases fuel <;> rfl

theorem foldPackedAncillary_inField {r : Inst Datum} (hu : p.Unique) (hr : r ∈ p.all)
    (hreads : r.readsAttribute A.packedAncillary = true) (hfuel : 0 < fuel)
    (hargs : i.args = [.inst r.id, .imm (.u32 offset), .imm (.u32 bits)])
    (hfield : InField offset bits) :
    (∃ a width off, (a = A.sampleIndex ∧ width = 4 ∨ a = A.renderTargetIndex ∧ width = 11) ∧
      foldPackedAncillary A fuel p i =
        .ok (some (replaceByAttribute p i r.id a width off bits)) ∧
      ∀ attr, fieldBits A attr offset bits =
        BitField.uextract (attr a) off.toNat bits.toNat) := by
  have hx := producer_read hu hr (Inst.op_of_readsAttribute hreads) hfuel
  have hfold : foldPackedAncillary A fuel p i =
      if 8 ≤ offset ∧ offset + bits ≤ 12 then
        .ok (some (replaceByAttribute p i r.id A.sampleIndex 4 (offset - 8) bits))
      else if 16 ≤ offset ∧ offset + bits ≤ 27 then
        .ok (some (replaceByAttribute p i r.id A.renderTargetIndex 11 (offset - 16) bits))
      else throw (.assertion "Unhandled bitfield extract from ancillary VGPR") := by
    simp [foldPackedAncillary, hargs, hx, producer_imm, hreads, Datum.toU32, bind, Except.bind,
      pure, Except.pure]
  obtain ⟨hpos, hcase⟩ := hfield
  have hadd : (offset + bits).toNat = offset.toNat + bits.toNat := by
    rw [BitVec.toNat_add]
    omega
  have h8 : (8 : BitVec 32).toNat = 8 := rfl
  have h12 : (12 : BitVec 32).toNat = 12 := rfl
  have h16 : (16 : BitVec 32).toNat = 16 := rfl
  have h27 : (27 : BitVec 32).toNat = 27 := rfl
  simp only [BitVec.le_def, hadd, h8, h12, h16, h27] at hfold
  rcases hcase with ⟨h₁, h₂⟩ | ⟨h₁, h₂⟩
  · rw [if_pos ⟨h₁, h₂⟩] at hfold
    refine ⟨_, _, _, .inl ⟨rfl, rfl⟩, hfold, fun attr => ?_⟩
    have hoff : (offset - 8).toNat = offset.toNat - 8 := by
      rw [BitVec.toNat_sub_of_le (by rwa [BitVec.le_def]), h8]
    rw [fieldBits, if_pos (by omega), hoff]
  · rw [if_neg (by omega), if_pos ⟨h₁, h₂⟩] at hfold
    refine ⟨_, _, _, .inr ⟨rfl, rfl⟩, hfold, fun attr => ?_⟩
    have hoff : (offset - 16).toNat = offset.toNat - 16 := by
      rw [BitVec.toNat_sub_of_le (by rwa [BitVec.le_def]), h16]
    rw [fieldBits, if_neg (by omega), hoff]

theorem Pending.visit (hA : A.Distinct) (hfuel : 0 < fuel) (hfield : InField offset bits)
    (hp : Pending A F p e l u k (.inst l) offset bits) :
    ∃ p' new w, constantPropagation A F fuel p e = .ok p' ∧ Settled A F p' new u k w ∧
      (∀ j ∈ new, p.fresh ≤ j.id) ∧ ∀ q attr, (∀ j ∈ new, j ∈ Program.all q) → Fits A attr →
        ComputesBits attr q w (fieldBits A attr offset bits) := by
  obtain ⟨i, hi, rfl, hop, hargs⟩ := hp.extract
  obtain ⟨r, hr, rfl, hreads⟩ := hp.read rfl
  have hget := Inst.op_of_readsAttribute hreads
  obtain ⟨a, width, off, hcase, hfold, hbits⟩ :=
    foldPackedAncillary_inField hp.unique hr hreads hfuel hargs hfield
  have hstep : constantPropagation A F fuel p i.id =
      .ok (replaceByAttribute p i r.id a width off bits) := by
    unfold constantPropagation
    rw [Program.find?_of_mem hp.unique hi]
    dsimp only
    split
    · next heq =>
      rw [hop] at heq
      cases heq
    · rw [hfold]
      rfl
    · next hne => exact absurd hop hne
  have ha : a ≠ A.packedAncillary := by
    rcases hcase with ⟨rfl, -⟩ | ⟨rfl, -⟩
    exacts [hA.sample, hA.target]
  obtain ⟨new, w, hs, hfresh, hcomp⟩ := settled_replaceByAttribute hp.unique hi ⟨r, hr, rfl, hget⟩
    ha hop hp.observer (step_unique hp.unique hstep)
  refine ⟨_, new, w, hstep, hs, hfresh, fun q attr hq hfits => ?_⟩
  rw [hbits]
  refine hcomp q attr hq ?_
  rcases hcase with ⟨rfl, rfl⟩ | ⟨rfl, rfl⟩
  exacts [hfits.1, hfits.2]

theorem Pending.visit_zero (hfield : InField offset bits)
    (hp : Pending A F p e l u k (.imm (.u32 0)) offset bits) :
    ∃ p', constantPropagation A F fuel p e = .ok p' ∧
      Settled A F p' [] u k (.imm (.u32 0)) := by
  obtain ⟨i, hi, rfl, hop, hargs⟩ := hp.extract
  obtain ⟨hpos, hcase⟩ := hfield
  have hnone : foldPackedAncillary A fuel p i = .ok none := by
    simp [foldPackedAncillary, hargs, producer_imm, bind, Except.bind, pure, Except.pure]
  have hsome : immediates fuel p i.args = .ok (some [.u32 0, .u32 offset, .u32 bits]) := by
    simp [hargs, immediates, producer_imm, bind, Except.bind, pure, Except.pure]
  have heval : evalBitFieldUExtract [.u32 0, .u32 offset, .u32 bits] = .ok (.u32 0) := by
    have h₁ : offset.toNat + bits.toNat ≤ 32 := by omega
    have h₂ : ¬(32 ≤ offset.toNat ∨ 32 ≤ bits.toNat) := by omega
    simp [evalBitFieldUExtract, Datum.toU32, assertMsg, h₁, h₂, bind, Except.bind, pure,
      Except.pure]
  have hfold : folding F fuel p i = .ok (.replace (.imm (.u32 0))) := by
    rw [folding_immediates hop rfl, foldWhenAllImmediates, hsome]
    simp only [bind, Except.bind]
    rw [heval]
    rfl
  have hstep : constantPropagation A F fuel p i.id =
      .ok (p.replaceUsesWithAndRemove i.id (.imm (.u32 0))) := by
    unfold constantPropagation
    rw [Program.find?_of_mem hp.unique hi]
    dsimp only
    split
    · next heq =>
      rw [hop] at heq
      cases heq
    · rw [hnone, hfold]
      rfl
    · next hne => exact absurd hop hne
  have hnew {P : Inst Datum → Prop} : ∀ j ∈ ([] : List (Inst Datum)), P j := fun _ h =>
    absurd h List.not_mem_nil
  refine ⟨_, hstep, step_unique hp.unique hstep, hnew, hnew, hnew, fun _ h => (by cases h), ?_⟩
  obtain ⟨o, ho, hid, halone, hget, hk⟩ := hp.observer
  have hoi : o.id ≠ i.id := fun heq => halone.2.1 (hp.unique o ho i hi heq ▸ hop)
  refine ⟨_, Program.mem_all_mapInsts.2 ⟨o, ho, if_neg hoi⟩, hid, halone, hget, ?_⟩
  change (o.mapOperands _).operands[k]? = _
  rw [Inst.operands_mapOperands]
  simp [hk, Value.substitute]

end Visit

/-! ### Runs -/

/-- No instruction that is visited before the extract `e` takes the branch that replaces the read
`l`. -/
def Undisturbed (A : Attributes) (F : Floats) (fuel e l : ℕ) : List ℕ → Program Datum → Prop
  | [], _ => True
  | id :: ids, p => id = e ∨ ¬Replaces A fuel p id l ∧
      ∀ p', constantPropagation A F fuel p id = .ok p' → Undisturbed A F fuel e l ids p'

namespace Pending

variable {e l u : ℕ} {offset bits : BitVec 32}

theorem run_before (hp : Pending A F p e l u k base offset bits)
    (hbase : base = .inst l ∨ base = .imm (.u32 0)) (he : e ∉ ids)
    (h : ids.foldlM (constantPropagation A F fuel) p = .ok p') :
    Pending A F p' e l u k (.inst l) offset bits ∨
      Pending A F p' e l u k (.imm (.u32 0)) offset bits := by
  induction ids generalizing p base with
  | nil =>
      cases h
      rcases hbase with rfl | rfl
      exacts [.inl hp, .inr hp]
  | cons id ids ih =>
      rw [List.foldlM_cons] at h
      obtain ⟨q, hq, h⟩ := Exec.bind_eq_ok.1 h
      rw [List.mem_cons, not_or] at he
      rcases hp.step (Ne.symm he.1) hbase hq with ⟨hp', -⟩ | ⟨-, -, hp'⟩
      · exact ih hp' hbase he.2 h
      · exact ih hp' (.inr rfl) he.2 h

theorem run_zero (hfield : InField offset bits)
    (hp : Pending A F p e l u k (.imm (.u32 0)) offset bits) (he : e ∈ ids)
    (h : ids.foldlM (constantPropagation A F fuel) p = .ok p') :
    Settled A F p' [] u k (.imm (.u32 0)) := by
  induction ids generalizing p with
  | nil => cases he
  | cons id ids ih =>
      rw [List.foldlM_cons] at h
      obtain ⟨q, hq, h⟩ := Exec.bind_eq_ok.1 h
      by_cases hid : id = e
      · subst hid
        obtain ⟨q', hq', hs⟩ := hp.visit_zero hfield
        cases hq.symm.trans hq'
        exact hs.run nofun h
      · rcases hp.step hid (.inr rfl) hq with ⟨hp', -⟩ | ⟨hb, -⟩
        · exact ih hp' ((List.mem_cons.1 he).resolve_left (Ne.symm hid)) h
        · cases hb

theorem run (hA : A.Distinct) (hfuel : 0 < fuel) (hfield : InField offset bits)
    (hp : Pending A F p e l u k (.inst l) offset bits) (he : e ∈ ids)
    (hids : ∀ id ∈ ids, ∃ j ∈ p.all, j.id = id)
    (h : ids.foldlM (constantPropagation A F fuel) p = .ok p') :
    (Undisturbed A F fuel e l ids p → ∃ new w, Settled A F p' new u k w ∧
      ∀ attr, Fits A attr → ComputesBits attr p' w (fieldBits A attr offset bits)) ∧
    (¬Undisturbed A F fuel e l ids p → Settled A F p' [] u k (.imm (.u32 0))) := by
  induction ids generalizing p with
  | nil => cases he
  | cons id ids ih =>
      rw [List.foldlM_cons] at h
      obtain ⟨q, hq, h⟩ := Exec.bind_eq_ok.1 h
      by_cases hid : id = e
      · subst hid
        refine ⟨fun _ => ?_, fun hno => absurd (.inl rfl) hno⟩
        obtain ⟨q', new, w, hq', hs, hfresh, hcomp⟩ := hp.visit hA hfuel hfield
        cases hq.symm.trans hq'
        have hs' := hs.run (fun j hj hmem => ?_) h
        · exact ⟨new, w, hs', fun attr hfits => hcomp _ attr hs'.mem hfits⟩
        · obtain ⟨j', hj', heq⟩ := hids j.id (List.mem_cons_of_mem _ hmem)
          have h₁ := Program.id_lt_fresh hj'
          have h₂ := hfresh j hj
          omega
      · have he' := (List.mem_cons.1 he).resolve_left (Ne.symm hid)
        rcases hp.step hid (.inl rfl) hq with ⟨hp', hno⟩ | ⟨-, hreplaces, hp'⟩
        · have hiff : Undisturbed A F fuel e l (id :: ids) p ↔ Undisturbed A F fuel e l ids q := by
            constructor
            · rintro (heq | ⟨-, hall⟩)
              · exact absurd heq hid
              · exact hall q hq
            · intro hu
              refine .inr ⟨fun hr => hno ⟨rfl, hr⟩, fun q' hq' => ?_⟩
              cases hq.symm.trans hq'
              exact hu
          rw [hiff]
          refine ih hp' he' (fun n hn => ?_) h
          obtain ⟨j, hj, rfl⟩ := hids n (List.mem_cons_of_mem _ hn)
          exact step_ids hq hj
        · refine ⟨?_, fun _ => hp'.run_zero hfield he' h⟩
          rintro (heq | ⟨hno, -⟩)
          · exact absurd heq hid
          · exact absurd hreplaces hno

end Pending

theorem ComputesBits.eq_of_imm {attr : ℕ → BitVec 32} {x y : BitVec 32}
    (h : ComputesBits attr p (.imm (.u32 x)) y) : y = x := by
  cases h
  rfl

/-- For any extract of a field of the packed attribute and any instruction that keeps it as an
operand: the visit of the extract returns, and after the pass the operand has the bits of the
field just if no instruction that was visited before replaced the read. -/
theorem constantPropagationPass_extract_iff {e l u : Inst Datum} {offset bits : BitVec 32}
    (hA : A.Distinct) (hfuel : 0 < fuel) (hunique : p.Unique)
    (hblocks : ∀ b ∈ p.postOrderBlocks, b < p.numBlocks)
    (he : e ∈ p.all) (hop : e.op = .bitFieldUExtract)
    (hargs : e.args = [.inst l.id, .imm (.u32 offset), .imm (.u32 bits)])
    (hfield : InField offset bits) (hl : l ∈ p.all)
    (hreads : l.readsAttribute A.packedAncillary = true) (hu : u ∈ p.all)
    (halone : u.op.LeftAlone F) (hget : u.op ≠ .getAttributeU32)
    (hk : u.operands[k]? = some (.inst e.id)) (hvisit : e.id ∈ p.visits) :
    (∀ before after q, p.visits = before ++ e.id :: after → e.id ∉ before →
        before.foldlM (constantPropagation A F fuel) p = .ok q →
        ∃ q', constantPropagation A F fuel q e.id = .ok q') ∧
      ∀ p', constantPropagationPass A F fuel p = .ok p' →
        ((∃ u' ∈ p'.all, u'.id = u.id ∧ ∃ w, u'.operands[k]? = some w ∧
            ∀ attr, Fits A attr → ComputesBits attr p' w (fieldBits A attr offset bits)) ↔
          Undisturbed A F fuel e.id l.id p.visits p) := by
  have hp : Pending A F p e.id l.id u.id k (.inst l.id) offset bits :=
    ⟨hunique, ⟨e, he, rfl, hop, hargs⟩, ⟨u, hu, rfl, halone, hget, hk⟩,
      fun _ => ⟨l, hl, rfl, hreads⟩⟩
  constructor
  · intro before after q _ hnot hq
    rcases hp.run_before (.inl rfl) hnot hq with hp' | hp'
    · obtain ⟨q', -, -, hq', -⟩ := hp'.visit hA hfuel hfield
      exact ⟨q', hq'⟩
    · obtain ⟨q', hq', -⟩ := hp'.visit_zero hfield
      exact ⟨q', hq'⟩
  · intro p' hpass
    have hids : ∀ id ∈ p.visits, ∃ j ∈ p.all, j.id = id := by
      intro id hid
      obtain ⟨b, hb, hmem⟩ := List.mem_flatMap.1 hid
      obtain ⟨i, hi, rfl⟩ := List.mem_map.1 hmem
      exact ⟨i, Program.mem_all.2 ⟨b, hblocks b (List.mem_reverse.1 hb), hi⟩, rfl⟩
    obtain ⟨hgood, hbad⟩ := hp.run hA hfuel hfield hvisit hids hpass
    constructor
    · rintro ⟨u', hu', hid', w, hw, hcomp⟩
      by_contra hno
      have hs := hbad hno
      obtain ⟨o, ho, hid, -, -, hko⟩ := hs.observer
      obtain rfl := hs.unique o ho u' hu' (hid.trans hid'.symm)
      obtain rfl := Option.some.inj (hko.symm.trans hw)
      obtain ⟨attr, hfits, hne⟩ := exists_fieldBits_ne hA hfield
      exact hne (hcomp attr hfits).eq_of_imm
    · intro hund
      obtain ⟨new, w, hs, hcomp⟩ := hgood hund
      obtain ⟨o, ho, hid, -, -, hko⟩ := hs.observer
      exact ⟨o, ho, hid, w, hko, hcomp⟩

/-! ### Two extracts from one read -/

/-- A read of the packed attribute, extracts of both fields in the order of the list, and a store
for each. -/
def ancillaryProgram (fields : List (BitVec 32 × BitVec 32)) : Program Datum where
  entry := 0
  numBlocks := 1
  insts b := if b = 0 then
      { id := 0, op := .getAttributeU32, args := [.imm (.attribute 96), .imm (.u32 0)] } ::
        (fields.zipIdx.flatMap fun x =>
          [{ id := 2 * x.2 + 1, op := .bitFieldUExtract
             args := [.inst 0, .imm (.u32 x.1.1), .imm (.u32 x.1.2)] },
            { id := 2 * x.2 + 2, op := .writeSharedU32
              args := [.imm (.u32 0), .inst (2 * x.2 + 1)] }])
    else []
  terminator _ := .exit
  postOrderBlocks := [0]

/-- The enumerators. -/
def attributes : Attributes := ⟨96, 72, 66⟩

theorem attributes_distinct : attributes.Distinct := ⟨by decide, by decide, by decide⟩

/-- The store of the second extract gets zero, whatever the render target index is. -/
theorem constantPropagationPass_extract_fails : ∃ p',
    constantPropagationPass attributes noFloats 1 (ancillaryProgram [(8, 4), (16, 11)]) = .ok p' ∧
      ¬∃ u' ∈ p'.all, u'.id = 4 ∧ ∃ w, u'.operands[1]? = some w ∧ ∀ attr, Fits attributes attr →
        ComputesBits attr p' w (fieldBits attributes attr 16 11) := by
  obtain ⟨p', hpass, hstore⟩ : ∃ p',
      constantPropagationPass attributes noFloats 1 (ancillaryProgram [(8, 4), (16, 11)]) =
        .ok p' ∧ ((p'.all.filter (·.id = 4)).map Inst.operands) =
          [[.imm (.u32 0), .imm (.u32 0)]] :=
    ⟨_, rfl, rfl⟩
  refine ⟨p', hpass, ?_⟩
  rintro ⟨u', hu', hid, w, hw, hcomp⟩
  have hmem : u'.operands ∈ (p'.all.filter (·.id = 4)).map Inst.operands :=
    List.mem_map_of_mem (List.mem_filter.2 ⟨hu', by simpa using hid⟩)
  rw [hstore, List.mem_singleton] at hmem
  rw [hmem] at hw
  cases hw
  obtain ⟨attr, hfits, hne⟩ := exists_fieldBits_ne attributes_distinct
    (show InField 16 11 from ⟨by decide, by decide⟩)
  exact hne (hcomp attr hfits).eq_of_imm

/-- A single extract. -/
theorem constantPropagationPass_extract_iff_single :
    ∃ p', constantPropagationPass attributes noFloats 1 (ancillaryProgram [(9, 2)]) = .ok p' ∧
      ((∃ u' ∈ p'.all, u'.id = 2 ∧ ∃ w, u'.operands[1]? = some w ∧
          ∀ attr, Fits attributes attr →
            ComputesBits attr p' w (fieldBits attributes attr 9 2)) ↔
        Undisturbed attributes noFloats 1 1 0 (ancillaryProgram [(9, 2)]).visits
          (ancillaryProgram [(9, 2)])) := by
  have hall : (ancillaryProgram [(9, 2)]).all =
      [{ id := 0, op := .getAttributeU32, args := [.imm (.attribute 96), .imm (.u32 0)] },
        { id := 1, op := .bitFieldUExtract
          args := [.inst 0, .imm (.u32 9), .imm (.u32 2)] },
        { id := 2, op := .writeSharedU32, args := [.imm (.u32 0), .inst 1] }] := rfl
  obtain ⟨p', hpass⟩ : ∃ p',
      constantPropagationPass attributes noFloats 1 (ancillaryProgram [(9, 2)]) = .ok p' :=
    ⟨_, rfl⟩
  refine ⟨p', hpass, (constantPropagationPass_extract_iff
    (e := { id := 1, op := .bitFieldUExtract, args := [.inst 0, .imm (.u32 9), .imm (.u32 2)] })
    (l := { id := 0, op := .getAttributeU32, args := [.imm (.attribute 96), .imm (.u32 0)] })
    (u := { id := 2, op := .writeSharedU32, args := [.imm (.u32 0), .inst 1] })
    attributes_distinct Nat.one_pos ?_ (by decide) (by rw [hall]; simp) rfl rfl
    ⟨by decide, by decide⟩ (by rw [hall]; simp) rfl (by rw [hall]; simp)
    ⟨nofun, nofun, fun fuel p i hop => ?_⟩ nofun rfl (by decide)).2 p' hpass⟩
  · rw [Program.Unique, hall]
    simp
  · unfold folding
    rw [hop]
    rfl

end OrbitConsole.ShaderRecompiler
