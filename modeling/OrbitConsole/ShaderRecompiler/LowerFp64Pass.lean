import OrbitConsole.ShaderRecompiler.ConstantPropagationSpec
import OrbitConsole.ShaderRecompiler.LowerFp64

/-!
# What the lowering of doubles leaves

After the pass no instruction computes with doubles, packs one or unpacks one, whatever the
program was before.
-/

namespace OrbitConsole.ShaderRecompiler

namespace LowerFp64

open Emitter Program

variable {p : Program Datum} {id : ℕ} {ids : List ℕ} {op : Opcode}

/-- The pass has nothing more to do at the opcode. -/
def Lowered (op : Opcode) : Prop :=
  replace op = op ∧ op ≠ .packDouble2x32 ∧ op ≠ .unpackDouble2x32

instance : DecidablePred Lowered := fun _ => inferInstanceAs (Decidable (_ ∧ _ ∧ _))

theorem lowered_replace (hpack : op ≠ .packDouble2x32) (hunpack : op ≠ .unpackDouble2x32) :
    Lowered (replace op) := by
  cases op <;> first
    | decide
    | exact absurd rfl hpack
    | exact absurd rfl hunpack

/-! ### The sequences -/

/-- To what has been emitted only such instructions are added. -/
def EmitsLowered (m : Emitter (Value Datum)) : Prop :=
  ∀ s, (∀ j ∈ s.2, Lowered j.op) → ∀ j ∈ (m s).2.2, Lowered j.op

theorem emitsLowered_inst {args : List (Value Datum)} (h : Lowered op) :
    EmitsLowered (inst op args) := by
  intro s hs j hj
  rcases List.mem_append.1 hj with hj | hj
  · exact hs j hj
  · obtain rfl := List.mem_singleton.1 hj
    exact h

theorem EmitsLowered.bind {m : Emitter (Value Datum)} {f : Value Datum → Emitter (Value Datum)}
    (hm : EmitsLowered m) (hf : ∀ v, EmitsLowered (f v)) : EmitsLowered (m >>= f) :=
  fun s hs => hf (m s).1 (m s).2 (hm s hs)

theorem packedF64ToF32_emitsLowered (packed : Value Datum) :
    EmitsLowered (packedF64ToF32 packed) := by
  unfold packedF64ToF32
  repeat' first
    | with_reducible refine EmitsLowered.bind ?_ fun _ => ?_
    | exact emitsLowered_inst (by decide)

theorem f32ToPackedF64_emitsLowered (raw : Value Datum) : EmitsLowered (f32ToPackedF64 raw) := by
  unfold f32ToPackedF64
  repeat' first
    | with_reducible refine EmitsLowered.bind ?_ fun _ => ?_
    | exact emitsLowered_inst (by decide)

/-! ### The pass -/

/-- What is left to do is at the listed instructions, and those that pack or unpack a double have
an operand. -/
structure Remaining (p : Program Datum) (ids : List ℕ) : Prop where
  lowered : ∀ j ∈ p.all, Lowered j.op ∨ j.id ∈ ids
  operand : ∀ j ∈ p.all, j.op = .packDouble2x32 ∨ j.op = .unpackDouble2x32 → j.args ≠ []

theorem Remaining.replaceBy {sequence : Emitter (Value Datum)} (h : Remaining p (id :: ids))
    (hseq : EmitsLowered sequence) : Remaining (replaceBy p id sequence) ids := by
  have hnew : ∀ j ∈ (sequence (p.fresh, [])).2.2, Lowered j.op :=
    hseq _ fun _ hj => nomatch hj
  constructor
  · intro j hj
    obtain ⟨i, hi, rfl⟩ := mem_all_mapInsts.1 hj
    split
    · exact .inl (by decide : Lowered .identity)
    · next hne =>
        rcases mem_all_insertBefore.1 hi with hi | ⟨hi, -⟩
        · rcases h.lowered i hi with hlow | hmem
          · exact .inl hlow
          · exact .inr ((List.mem_cons.1 hmem).resolve_left hne)
        · exact .inl (hnew i hi)
  · intro j hj hop
    obtain ⟨i, hi, rfl⟩ := mem_all_mapInsts.1 hj
    split
    · exact List.cons_ne_nil _ _
    · next hne =>
        rw [if_neg hne] at hop
        have hargs : i.args ≠ [] := by
          rcases mem_all_insertBefore.1 hi with hi | ⟨hi, -⟩
          · exact h.operand i hi hop
          · exact absurd hop (not_or.2 (hnew i hi).2)
        exact fun hnil => hargs (List.map_eq_nil_iff.1 hnil)

theorem Remaining.replaceOpcode (h : Remaining p (id :: ids)) (hop : Lowered op) :
    Remaining (p.replaceOpcode id op) ids := by
  constructor
  · intro j hj
    obtain ⟨i, hi, rfl⟩ := mem_all_mapInsts.1 hj
    split
    · exact .inl hop
    · next hne =>
        exact (h.lowered i hi).imp_right fun hmem => (List.mem_cons.1 hmem).resolve_left hne
  · intro j hj hpack
    obtain ⟨i, hi, rfl⟩ := mem_all_mapInsts.1 hj
    split
    · next heq =>
        rw [if_pos heq] at hpack
        exact absurd hpack (not_or.2 hop.2)
    · next hne =>
        rw [if_neg hne] at hpack
        exact h.operand i hi hpack

/-- A visit does what is to be done at the instruction, and leaves what is to be done later. -/
theorem Remaining.lower (h : Remaining p (id :: ids)) : Remaining (lower p id) ids := by
  unfold LowerFp64.lower
  split
  · exact h.replaceBy (packedF64ToF32_emitsLowered _)
  · exact h.replaceBy (f32ToPackedF64_emitsLowered _)
  · next i hpack hunpack hfind =>
      obtain ⟨hi, -⟩ := mem_of_find? hfind
      refine h.replaceOpcode (lowered_replace (fun hop => ?_) fun hop => ?_)
      · obtain ⟨a, rest, hargs⟩ := List.exists_cons_of_ne_nil (h.operand i hi (.inl hop))
        exact hpack i.id i.flags a rest i.phiArgs (by rw [← hop, ← hargs])
      · obtain ⟨a, rest, hargs⟩ := List.exists_cons_of_ne_nil (h.operand i hi (.inr hop))
        exact hunpack i.id i.flags a rest i.phiArgs (by rw [← hop, ← hargs])
  · next hfind =>
      refine ⟨fun j hj => (h.lowered j hj).imp_right fun hmem => ?_, h.operand⟩
      refine (List.mem_cons.1 hmem).resolve_left fun heq => ?_
      exact absurd (List.find?_eq_none.1 hfind j hj) (by simp [heq])

/-- The induction is on the instructions that are still to be visited. -/
theorem Remaining.foldl (h : Remaining p ids) : Remaining (ids.foldl LowerFp64.lower p) [] := by
  induction ids generalizing p with
  | nil => exact h
  | cons id ids ih => exact ih h.lower

/-- No instruction of the program that the pass returns has anything left to lower. -/
theorem lowerFp64ToFp32_lowered
    (h : ∀ i ∈ p.all, i.op = .packDouble2x32 ∨ i.op = .unpackDouble2x32 → i.args ≠ []) :
    ∀ j ∈ (lowerFp64ToFp32 p).all, Lowered j.op := by
  have hstart : Remaining p (p.all.map (·.id)) :=
    ⟨fun j hj => .inr (List.mem_map_of_mem hj), h⟩
  exact fun j hj => (hstart.foldl.lowered j hj).resolve_right List.not_mem_nil

end LowerFp64

end OrbitConsole.ShaderRecompiler
