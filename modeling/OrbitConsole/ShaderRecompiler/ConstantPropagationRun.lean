import OrbitConsole.ShaderRecompiler.ImmediatesSpec
import OrbitConsole.ShaderRecompiler.InverseSpec

/-!
# The pass keeps the values of a program

Every step of a run of constant propagation returns and keeps all values, when the folding of the
visited instruction is one that is right: bit field operations on immediates that stay in their
fields, inverse operations that lose nothing.
-/

namespace OrbitConsole.ShaderRecompiler

variable {A : Attributes} {F : Floats} {σ σ' : ℕ → Datum} {rank : ℕ → ℕ} {fuel bound : ℕ}
  {p p' p₀ : Program Datum} {i j : Inst Datum} {op : Opcode}

/-- The folding of an instruction is right: bit field operations on immediates stay in their
fields, nothing is lost to an inverse operation, and the instruction is neither a classification
of a float nor an extraction from the packed attribute. -/
structure FoldsCleanly (A : Attributes) (F : Floats) (σ : ℕ → Datum) (fuel : ℕ)
    (p : Program Datum) (i : Inst Datum) : Prop where
  inField : FoldsInField fuel p i
  lossless : Lossless F σ fuel p i
  noClass : i.op ≠ .fpCmpClass32
  noAncillary : i.op = .bitFieldUExtract → ∀ value rest j, i.args = value :: rest →
    p.producer fuel value = .ok (.inr j) → j.readsAttribute A.packedAncillary = false

theorem folding_sound (h : Assigned F σ rank fuel p) (hi : i ∈ p.all)
    (hfield : FoldsInField fuel p i) (hlossless : Lossless F σ fuel p i) :
    SoundFolding F σ rank p i (folding F fuel p i) := by
  cases hrev : inverseFunc i.op with
  | some reverse =>
      rw [folding_inverse rfl hrev]
      obtain ⟨e, he, hiff, hsound⟩ := foldInverseFunc_spec h hi hrev
      exact ⟨e, he, hsound (hiff.2 hlossless)⟩
  | none =>
  cases hops : compositeOps i.op with
  | some ops =>
      rw [folding_composite rfl hops]
      exact foldCompositeExtract_sound h hi hops
  | none =>
  cases hf : evalImmediates F i.op with
  | some f =>
      rw [folding_immediates rfl hf]
      exact foldWhenAllImmediates_sound h hi hf hfield
  | none =>
      unfold folding
      split
      · next hop => exact foldAdd_sound h hi hop
      · next hop => exact foldMul_sound h hi hop
      · next hop =>
          have hs := bitCastF32U32_sound h hi hop
          rwa [folding, hop] at hs
      · next hop =>
          have hs := bitCastU32F32_sound h hi hop
          rwa [folding, hop] at hs
      · next hop =>
          have hs := unpackUint2x32_sound h hi hop
          rwa [folding, hop] at hs
      · next hop =>
          have hs := unpackDouble2x32_sound h hi hop
          rwa [folding, hop] at hs
      · next hop => exact foldSelect_sound h hi (by rw [hop]; rfl)
      · next hop => exact foldSelect_sound h hi (by rw [hop]; rfl)
      · next hop => exact foldSelect_sound h hi (by rw [hop]; rfl)
      · next hop => exact foldLogicalAnd_sound h hi hop
      · next hop => exact foldLogicalOr_sound h hi hop
      · next hop => exact foldLogicalNot_sound h hi hop
      · next hop => exact foldDiscardCond_sound h hi hop
      · rw [hrev, hops, hf]
        exact ⟨.keep, rfl, trivial⟩

theorem foldPackedAncillary_eq (h : Assigned F σ rank fuel p) (hi : i ∈ p.all)
    (hop : i.op = .bitFieldUExtract) (hclean : FoldsCleanly A F σ fuel p i) :
    foldPackedAncillary A fuel p i = .ok none := by
  obtain ⟨base, offset, count, hargs, -, -⟩ :=
    fieldOf_eq (h.value i hi (fieldOf BitField.uextract) (by rw [hop]; rfl))
  obtain ⟨u, v, w, hi', -, -, -⟩ := args_three hargs
  have hmem : u ∈ i.args ∧ v ∈ i.args ∧ w ∈ i.args := by simp [hi']
  unfold foldPackedAncillary
  rw [hi']
  obtain ⟨x, hx⟩ : ∃ x, p.producer fuel u = .ok x := by
    rcases h.producer_arg hi hmem.1 with ⟨d, hd, -⟩ | ⟨j, -, hj, -⟩
    exacts [⟨_, hd⟩, ⟨_, hj⟩]
  obtain ⟨y, hy⟩ : ∃ y, p.producer fuel v = .ok y := by
    rcases h.producer_arg hi hmem.2.1 with ⟨d, hd, -⟩ | ⟨j, -, hj, -⟩
    exacts [⟨_, hd⟩, ⟨_, hj⟩]
  obtain ⟨z, hz⟩ : ∃ z, p.producer fuel w = .ok z := by
    rcases h.producer_arg hi hmem.2.2 with ⟨d, hd, -⟩ | ⟨j, -, hj, -⟩
    exacts [⟨_, hd⟩, ⟨_, hj⟩]
  cases x with
  | inl d => simp [hx, hy, hz, bind, Except.bind, pure, Except.pure]
  | inr j =>
      have hno := hclean.noAncillary hop u [v, w] j hi' hx
      cases y <;> cases z <;> simp [hx, hy, hz, hno, bind, Except.bind, pure, Except.pure]

theorem constantPropagation_spec (h : Assigned F σ rank fuel p) (hfind : p.find? i.id = some i)
    (hclean : FoldsCleanly A F σ fuel p i) :
    ∃ p' σ' rank', constantPropagation A F fuel p i.id = .ok p' ∧ Assigned F σ' rank' fuel p' ∧
      Refines F σ σ' p p' := by
  have hi := (Program.mem_of_find? hfind).1
  obtain ⟨e, he, hsound⟩ := folding_sound h hi hclean.inField hclean.lossless
  obtain ⟨σ', rank', h', href⟩ := h.apply hi hsound
  refine ⟨e.apply p i.id, σ', rank', ?_, h', href⟩
  unfold constantPropagation
  rw [hfind]
  dsimp only
  split
  · next hop => exact absurd hop hclean.noClass
  · next hop =>
      rw [foldPackedAncillary_eq h hi hop hclean, he]
      rfl
  · rw [he]
    rfl

/-- Every step of a run folds cleanly, with the values that the instructions have then. -/
def RunsCleanly (A : Attributes) (F : Floats) (fuel : ℕ) (σ : ℕ → Datum) (p₀ : Program Datum) :
    List ℕ → Program Datum → Prop
  | [], _ => True
  | id :: ids, p =>
      (∀ i σ' rank', p.find? id = some i → Assigned F σ' rank' fuel p → Refines F σ σ' p₀ p →
        FoldsCleanly A F σ' fuel p i) ∧
      ∀ p', constantPropagation A F fuel p id = .ok p' → RunsCleanly A F fuel σ p₀ ids p'

theorem Refines.find? (href : Refines F σ σ' p p') {id : ℕ} (hid : ∃ i ∈ p.all, i.id = id) :
    ∃ i, p'.find? id = some i := by
  obtain ⟨i, hi, rfl⟩ := hid
  obtain ⟨b, hb, hib⟩ := Program.mem_all.1 hi
  obtain ⟨i', hi', hf⟩ := href.2 b hb i hib
  have hmem : i' ∈ p'.all := Program.mem_all.2 ⟨b, href.1 ▸ hb, hi'⟩
  exact Option.isSome_iff_exists.1 (List.find?_isSome.2 ⟨i', hmem, by simpa using hf.id⟩)

theorem foldlM_constantPropagation_spec (h : Assigned F σ' rank fuel p)
    (href : Refines F σ σ' p₀ p) (ids : List ℕ) (hids : ∀ id ∈ ids, ∃ i ∈ p₀.all, i.id = id)
    (hclean : RunsCleanly A F fuel σ p₀ ids p) :
    ∃ p' σ'' rank', ids.foldlM (constantPropagation A F fuel) p = .ok p' ∧
      Assigned F σ'' rank' fuel p' ∧ Refines F σ σ'' p₀ p' := by
  induction ids generalizing p σ' rank with
  | nil => exact ⟨p, σ', rank, rfl, h, href⟩
  | cons id ids ih =>
      obtain ⟨i, hfind⟩ := href.find? (hids id List.mem_cons_self)
      obtain rfl := (Program.mem_of_find? hfind).2
      obtain ⟨p₁, σ₁, rank₁, hstep, h₁, href₁⟩ :=
        constantPropagation_spec h hfind (hclean.1 i σ' rank hfind h href)
      obtain ⟨p', σ'', rank', hrun, h', href'⟩ := ih h₁ (href.trans href₁)
        (fun id hid => hids id (List.mem_cons_of_mem _ hid)) (hclean.2 p₁ hstep)
      refine ⟨p', σ'', rank', ?_, h', href'⟩
      rw [List.foldlM_cons, hstep]
      exact hrun

/-- In a run whose steps fold cleanly the pass returns a program in which every instruction has the
value that it had, and those that are not folded have the operands that they had. -/
theorem constantPropagationPass_keepsValues (h : Assigned F σ rank fuel p)
    (hblocks : ∀ b ∈ p.postOrderBlocks, b < p.numBlocks)
    (hclean : RunsCleanly A F fuel σ p p.visits p) :
    ∃ p' σ' rank', constantPropagationPass A F fuel p = .ok p' ∧ Assigned F σ' rank' fuel p' ∧
      Refines F σ σ' p p' := by
  refine foldlM_constantPropagation_spec h (.refl p) p.visits (fun id hid => ?_) hclean
  obtain ⟨b, hb, hmem⟩ := List.mem_flatMap.1 hid
  obtain ⟨i, hi, rfl⟩ := List.mem_map.1 hmem
  exact ⟨i, Program.mem_all.2 ⟨b, hblocks b (List.mem_reverse.1 hb), hi⟩, rfl⟩

/-! ### Inserted bit fields -/

def insertion (x : BitVec 32) : Inst Datum :=
  { id := 0, op := .bitFieldInsert
    args := [.imm (.u32 0), .imm (.u32 x), .imm (.u32 0), .imm (.u32 4)] }

def storedInsertion : Inst Datum :=
  { id := 1, op := .writeSharedU32, args := [.imm (.u32 0), .inst 0] }

def insertionProgram (x : BitVec 32) : Program Datum where
  entry := 0
  numBlocks := 1
  insts b := if b = 0 then [insertion x, storedInsertion] else []
  terminator _ := .exit
  postOrderBlocks := [0]

def insertionValues (x : BitVec 32) (_ : ℕ) : Datum := .u32 (BitField.insert 0 x 0 4)

theorem insertionProgram_assigned (x : BitVec 32) :
    Assigned noFloats (insertionValues x) id 2 (insertionProgram x) := by
  have hall : (insertionProgram x).all = [insertion x, storedInsertion] := rfl
  constructor <;> simp only [hall, List.forall_mem_cons, List.not_mem_nil, false_imp_iff,
    implies_true, and_true]
  · simp [insertion, storedInsertion]
  · refine ⟨?_, nofun⟩
    rintro m ⟨⟩
    rfl
  · exact ⟨nofun, nofun⟩
  · constructor
    · intro v hv id hid
      simp only [insertion, List.mem_cons, List.not_mem_nil, or_false] at hv
      rcases hv with rfl | rfl | rfl | rfl <;> cases hid
    · intro v hv id hid
      simp only [storedInsertion, List.mem_cons, List.not_mem_nil, or_false] at hv
      rcases hv with rfl | rfl <;> cases hid
      exact ⟨by decide, insertion x, by simp [hall], rfl, nofun, nofun⟩
  · exact ⟨nofun, nofun⟩
  · exact ⟨Nat.zero_lt_two, Nat.one_lt_two⟩

def foldedInsertion (x : BitVec 32) : BitVec 32 :=
  (0 &&& ~~~(~~~(BitVec.allOnes 32 <<< 4) <<< 0)) ||| (x <<< 0)

theorem insertionProgram_step (x : BitVec 32) :
    constantPropagation ⟨0, 1, 2⟩ noFloats 2 (insertionProgram x) 0 =
      .ok ((insertionProgram x).replaceUsesWithAndRemove 0 (.imm (.u32 (foldedInsertion x)))) :=
  rfl

theorem insertionProgram_immediates (x : BitVec 32) :
    immediates 2 (insertionProgram x) (insertion x).args =
      .ok (some [.u32 0, .u32 x, .u32 0, .u32 4]) :=
  rfl

theorem insertionProgram_find? (x : BitVec 32) :
    (insertionProgram x).find? 0 = some (insertion x) :=
  rfl

theorem insertionProgram_pass (x : BitVec 32) :
    constantPropagationPass ⟨0, 1, 2⟩ noFloats 2 (insertionProgram x) =
      .ok ((insertionProgram x).replaceUsesWithAndRemove 0 (.imm (.u32 (foldedInsertion x)))) :=
  rfl

/-- An operand that is wider than its field gets through to the store. -/
theorem constantPropagationPass_keepsValues_fails : ∃ A F σ rank fuel p,
    Assigned F σ rank fuel p ∧ (∀ b ∈ p.postOrderBlocks, b < p.numBlocks) ∧
      ¬ ∃ p' σ' rank', constantPropagationPass A F fuel p = .ok p' ∧
        Assigned F σ' rank' fuel p' ∧ Refines F σ σ' p p' := by
  refine ⟨⟨0, 1, 2⟩, noFloats, insertionValues 0xFF, id, 2, insertionProgram 0xFF,
    insertionProgram_assigned 0xFF, by decide, ?_⟩
  rintro ⟨p', σ', rank', hpass, -, href⟩
  rw [insertionProgram_pass] at hpass
  obtain rfl := Except.ok.inj hpass
  obtain ⟨i', hi', hf⟩ := href.2 0 (by decide) storedInsertion
    (List.mem_of_getElem? (i := 1) rfl)
  have hmem : i' ∈ [(insertion 0xFF).invalidate, storedInsertion.substitute 0
      (.imm (.u32 (foldedInsertion 0xFF)))] := hi'
  rcases List.mem_cons.1 hmem with rfl | hmem
  · exact absurd hf.id (by decide)
  obtain rfl := List.mem_singleton.1 hmem
  rcases hf.effect rfl with ⟨-, -, hargs, -⟩ | ⟨hop, -⟩
  · have hstored := (List.cons.inj (List.cons.inj hargs).2).1
    exact absurd (Datum.u32.inj hstored) (by decide)
  · cases hop

theorem constantPropagationPass_keepsValues_sample :
    Assigned noFloats (insertionValues 0xF) id 2 (insertionProgram 0xF) ∧
      (∀ b ∈ (insertionProgram 0xF).postOrderBlocks, b < (insertionProgram 0xF).numBlocks) ∧
      RunsCleanly ⟨0, 1, 2⟩ noFloats 2 (insertionValues 0xF) (insertionProgram 0xF)
        (insertionProgram 0xF).visits (insertionProgram 0xF) ∧
      ∃ p' σ' rank', constantPropagationPass ⟨0, 1, 2⟩ noFloats 2 (insertionProgram 0xF) = .ok p' ∧
        Assigned noFloats σ' rank' 2 p' ∧
        Refines noFloats (insertionValues 0xF) σ' (insertionProgram 0xF) p' := by
  have hassigned := insertionProgram_assigned 0xF
  have hblocks : ∀ b ∈ (insertionProgram 0xF).postOrderBlocks,
      b < (insertionProgram 0xF).numBlocks := by decide
  have hclean : RunsCleanly ⟨0, 1, 2⟩ noFloats 2 (insertionValues 0xF) (insertionProgram 0xF)
      (insertionProgram 0xF).visits (insertionProgram 0xF) := by
    rw [(rfl : (insertionProgram 0xF).visits = [0, 1])]
    refine ⟨fun i σ' rank' hfind _ _ => ?_, fun p' hp' => ⟨fun i σ' rank' hfind _ _ => ?_,
      fun _ _ => trivial⟩⟩
    · obtain rfl := Option.some.inj ((insertionProgram_find? 0xF).symm.trans hfind)
      refine ⟨fun ds hds => ?_, fun _ _ _ _ hrev => ?_, nofun, fun hop => ?_⟩
      rotate_left
      · cases hrev
      · cases hop
      obtain rfl := Option.some.inj
        (Except.ok.inj ((insertionProgram_immediates 0xF).symm.trans hds))
      refine ⟨Nat.zero_lt_succ _, by decide, fun k hk hk' hbit => ?_⟩
      have hlow : ∀ k : Fin 32, 4 ≤ k.val → (0xF : BitVec 32).getLsbD k = false := by decide
      rw [hlow ⟨k, by simpa using hk'⟩ hk] at hbit
      cases hbit
    · obtain rfl := Except.ok.inj ((insertionProgram_step 0xF).symm.trans hp')
      obtain rfl : storedInsertion.substitute 0
          (.imm (.u32 (foldedInsertion 0xF))) = i := Option.some.inj hfind
      refine ⟨fun _ _ => fieldFits_of_ne nofun nofun nofun, fun _ _ _ _ hrev => ?_, nofun,
        fun hop => ?_⟩
      · cases hrev
      · cases hop
  exact ⟨hassigned, hblocks, hclean,
    constantPropagationPass_keepsValues hassigned hblocks hclean⟩

end OrbitConsole.ShaderRecompiler
