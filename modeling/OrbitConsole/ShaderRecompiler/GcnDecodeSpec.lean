import OrbitConsole.ShaderRecompiler.GcnDecode

/-!
# What the decoder accounts for

The dwords read are those of the recorded length, and the opcode of a VOP3
instruction leads back to its encoding. One operand takes the literal dword;
another one that is also a literal constant is left with its number.
-/

namespace OrbitConsole.ShaderRecompiler

namespace Gcn

variable {format : FormatTable} {encoding : InstEncoding} {inst inst' : GcnInst}
  {code code' : List ℕ}

/-! ### The property -/

def encodingOf (code : List ℕ) : InstEncoding := getInstructionEncoding (code.headD 0)

/-- The bits of an instruction of two dwords. -/
def qwordOf (code : List ℕ) : ℕ := code.getD 0 0 + code.getD 1 0 * 2 ^ 32

/-- Opcode and operands as the dwords of the encoding have them. -/
def encoded (code : List ℕ) : GcnInst :=
  if getEncodingLength (encodingOf code) = 4 then
    decodeInstruction32 (code.getD 0 0) (encodingOf code)
  else decodeInstruction64 (qwordOf code) (encodingOf code)

def formatOf (format : FormatTable) (code : List ℕ) : Option InstFormat :=
  format (encodingOf code) (mapEncodingOp (encodingOf code) (encoded code).opcode)

/-- The instruction has a literal constant besides its operands. -/
def hasAdditional (code : List ℕ) : Bool :=
  hasAdditionalLiteral (encodingOf code) (encoded code).opcode

def IsLiteral (format : FormatTable) (code : List ℕ) (i : Fin 4) : Prop :=
  ((encoded code).src i).field = .literalConst ∨
    hasAdditional code = true ∧ (formatOf format code).map InstFormat.src_count = some i.val

def literalDword (code : List ℕ) : Option ℕ :=
  if getEncodingLength (encodingOf code) = 4 then code[1]? else none

structure Accounted (format : FormatTable) (code : List ℕ) (inst : GcnInst) (rest : List ℕ) :
    Prop where
  consumed : ∃ read, code = read ++ rest ∧ inst.length = 4 * read.length
  length : inst.length = 8 ∧ getEncodingLength (encodingOf code) = 8 ∨
    getEncodingLength (encodingOf code) = 4 ∧ ∃ extra ≤ 3, inst.length = 4 + 4 * extra
  literals : ∀ i, IsLiteral format code i → literalDword code = some (inst.src i).code
  opcode : encodingOf code = .vop3 →
    mapEncodingOp (encodingOf code) inst.opcode = vop3Op (qwordOf code)

/-- An operand that is encoded as a literal constant is in an instruction of one dword, and it is
the only one and there is no other additional literal, or the dword is the operand's number. -/
def LiteralsFit (format : FormatTable) (code : List ℕ) : Prop :=
  ∀ i, ((encoded code).src i).field = .literalConst →
    getEncodingLength (encodingOf code) = 4 ∧
      (code[1]? = some 255 ∨
        if hasAdditional code then (formatOf format code).map InstFormat.src_count = some i.val
        else ∀ j, ((encoded code).src j).field = .literalConst → j = i)

/-! ### Opcodes -/

theorem mapEncodingOp_vop3Opcode {op : ℕ} (hop : op < 1024) :
    mapEncodingOp .vop3 (vop3Opcode op) = op := by
  unfold mapEncodingOp vop3Opcode sub32 vCmpxTU64 vLdexpF16 vSqrtF16 vop3ToVopc vop3ToVop2
    vop3ToVop1 opMapVop3 opMapVop1 opMapVop2 opMapVopc opMapSopp opMapSopc opMapSop1 opMapSopk
    opMapSop2
  simp only [if_true]
  grind

theorem extract_lt (value lst fst : ℕ) : extract value lst fst < 2 ^ (lst - fst + 1) :=
  Nat.mod_lt _ (Nat.two_pow_pos _)

theorem vop3Op_lt (hex : ℕ) : vop3Op hex < 1024 := by
  have h₁ := extract_lt hex 25 17
  have h₂ := extract_lt hex 16 16
  unfold vop3Op
  omega

/-! ### Literal operands -/

theorem getOperandField_eq_literal {c : ℕ} (h : getOperandField c = .literalConst) : c = 255 := by
  unfold getOperandField at h
  simp only [OperandField.scalarGPR, OperandField.signedConstIntPos,
    OperandField.signedConstIntNeg, OperandField.vectorGPR, OperandField.literalConst] at h
  grind

def InstOperand.Numbered (x : InstOperand) : Prop := x.field = .literalConst → x.code = 255

theorem operandOf_numbered (c : ℕ) : (operandOf c).Numbered := getOperandField_eq_literal

theorem vectorOperandOf_numbered (c : ℕ) : (vectorOperandOf c).Numbered := by
  intro h
  have hc : getOperandField c = .literalConst := h
  unfold vectorOperandOf
  rw [hc]
  exact getOperandField_eq_literal hc

theorem vgpr_numbered (c : ℕ) : (vgpr c).Numbered := fun h => by cases h

theorem sgpr_numbered (c : ℕ) : (sgpr c).Numbered := fun h => by cases h

theorem default_numbered : InstOperand.Numbered {} := fun h => by cases h

theorem sources_numbered {operands : List InstOperand} (h : ∀ x ∈ operands, x.Numbered)
    (i : Fin 4) : (sources operands i).Numbered := by
  unfold sources
  rw [List.getD_eq_getElem?_getD]
  cases hi : operands[i.val]? with
  | none => exact default_numbered
  | some x => exact h x (List.mem_of_getElem? hi)

theorem decodeInstruction32_numbered (hex : ℕ) (encoding : InstEncoding) (i : Fin 4) :
    ((decodeInstruction32 hex encoding).src i).Numbered := by
  have hor : ∀ (c : Prop) [Decidable c] (x y : InstOperand), x.Numbered → y.Numbered →
      (if c then x else y).Numbered := by
    intro c _ x y hx hy
    split
    · exact hx
    · exact hy
  cases encoding <;>
    first
    | exact default_numbered
    | (refine sources_numbered ?_ i
       simp only [List.mem_cons, List.not_mem_nil, or_false, forall_eq_or_imp, forall_eq]
       simp only [operandOf_numbered, vectorOperandOf_numbered, vgpr_numbered, sgpr_numbered,
         default_numbered, hor, and_self])

theorem decodeInstruction64_numbered (hex : ℕ) (encoding : InstEncoding) (i : Fin 4) :
    ((decodeInstruction64 hex encoding).src i).Numbered := by
  cases encoding <;>
    first
    | exact default_numbered
    | (refine sources_numbered ?_ i
       simp only [List.mem_cons, List.not_mem_nil, or_false, forall_eq_or_imp, forall_eq]
       simp only [operandOf_numbered, vectorOperandOf_numbered, vgpr_numbered, sgpr_numbered,
         default_numbered, and_self])

theorem encoded_numbered (code : List ℕ) (i : Fin 4) : ((encoded code).src i).Numbered := by
  unfold encoded
  split
  · exact decodeInstruction32_numbered _ _ i
  · exact decodeInstruction64_numbered _ _ i

/-! ### The parts of the decoder -/

/-- So many dwords were read, and the length accounts for them. -/
def Reads (inst inst' : GcnInst) (code code' : List ℕ) (most : ℕ) : Prop :=
  ∃ read, code = read ++ code' ∧ read.length ≤ most ∧
    inst'.length = inst.length + 4 * read.length

theorem Reads.trans {inst'' : GcnInst} {code'' : List ℕ} {m n : ℕ}
    (h : Reads inst inst' code code' m) (h' : Reads inst' inst'' code' code'' n) :
    Reads inst inst'' code code'' (m + n) := by
  obtain ⟨read, rfl, hle, hlength⟩ := h
  obtain ⟨read', rfl, hle', hlength'⟩ := h'
  refine ⟨read ++ read', by simp, ?_, ?_⟩
  · rw [List.length_append]
    omega
  · rw [List.length_append]
    omega

theorem readu32_eq_ok {dword : ℕ} (h : readu32 code = .ok (dword, code')) :
    code = dword :: code' := by
  cases code with
  | nil => cases h
  | cons d rest =>
      cases h
      rfl

theorem decodeSubDwordAddressing_spec
    (h : decodeSubDwordAddressing encoding inst code = .ok (inst', code')) :
    Reads inst inst' code code' 1 ∧ inst'.opcode = inst.opcode ∧
      ((inst.src 0).field = .literalConst → inst'.src 0 = inst.src 0) ∧
      ∀ i, i ≠ 0 → (inst'.src i).code = (inst.src i).code := by
  unfold decodeSubDwordAddressing at h
  split at h
  · next hsdwa =>
      obtain ⟨⟨dword, code₁⟩, hread, h⟩ := Exec.bind_eq_ok.1 h
      obtain rfl := readu32_eq_ok hread
      have hnot : ¬ (inst.src 0).field = .literalConst := by
        rw [hsdwa]
        decide
      dsimp only at h
      split at h
      · obtain ⟨rfl, rfl⟩ := Prod.mk.inj (Exec.pure_eq_ok.1 h)
        refine ⟨⟨[dword], rfl, Nat.le_refl 1, rfl⟩, rfl, fun hl => absurd hl hnot, fun i hi => ?_⟩
        by_cases hone : i = 1
        · subst hone
          simp
        · simp [Function.update_of_ne hone, Function.update_of_ne hi]
      · obtain ⟨rfl, rfl⟩ := Prod.mk.inj (Exec.pure_eq_ok.1 h)
        refine ⟨⟨[dword], rfl, Nat.le_refl 1, rfl⟩, rfl, fun hl => absurd hl hnot, fun i hi => ?_⟩
        simp [Function.update_of_ne hi]
  · cases h
    exact ⟨⟨[], rfl, Nat.zero_le 1, rfl⟩, rfl, fun _ => rfl, fun _ _ => rfl⟩

theorem decodeDataParallelPrimitive_spec
    (h : decodeDataParallelPrimitive inst code = .ok (inst', code')) :
    Reads inst inst' code code' 1 ∧ inst'.opcode = inst.opcode ∧
      ((inst.src 0).field = .literalConst → inst'.src 0 = inst.src 0) ∧
      ∀ i, i ≠ 0 → (inst'.src i).code = (inst.src i).code := by
  unfold decodeDataParallelPrimitive at h
  split at h
  · next hdpp =>
      obtain ⟨⟨dword, code₁⟩, hread, hrest⟩ := Exec.bind_eq_ok.1 h
      obtain rfl := readu32_eq_ok hread
      have hnot : ¬ (inst.src 0).field = .literalConst := by
        rw [hdpp]
        decide
      obtain ⟨_, -, hresult⟩ := Exec.bind_eq_ok.1 hrest
      obtain ⟨rfl, rfl⟩ := Prod.mk.inj (Exec.pure_eq_ok.1 hresult)
      refine ⟨⟨[dword], rfl, Nat.le_refl 1, rfl⟩, rfl, fun hl => absurd hl hnot, fun i hi => ?_⟩
      simp [Function.update_of_ne hi]
  · cases h
    exact ⟨⟨[], rfl, Nat.zero_le 1, rfl⟩, rfl, fun _ => rfl, fun _ _ => rfl⟩

theorem findLiteral_eq_some {i : Fin 4} (h : findLiteral inst = some i) :
    (inst.src i).field = .literalConst := by
  simpa using List.find?_some h

theorem findLiteral_eq_none (h : findLiteral inst = none) (i : Fin 4) :
    (inst.src i).field ≠ .literalConst := by
  have := List.find?_eq_none.1 h i (List.mem_finRange i)
  simpa using this

theorem decodeLiteralConstant_spec
    (h : decodeLiteralConstant encoding inst code = .ok (inst', code')) :
    Reads inst inst' code code' 1 ∧ inst'.opcode = inst.opcode ∧
      (hasAdditionalLiteral encoding inst.opcode = true ∧ (∃ (i : Fin 4) (dword : ℕ),
          i.val = inst.src_count ∧ code = dword :: code' ∧
          inst'.src = Function.update inst.src i { field := .literalConst, code := dword }) ∨
        hasAdditionalLiteral encoding inst.opcode = false ∧ (∃ (i : Fin 4) (dword : ℕ),
          findLiteral inst = some i ∧ code = dword :: code' ∧
          inst'.src = Function.update inst.src i { inst.src i with code := dword }) ∨
        hasAdditionalLiteral encoding inst.opcode = false ∧ findLiteral inst = none ∧
          inst'.src = inst.src) := by
  unfold decodeLiteralConstant at h
  split at h
  · next hadd =>
      split at h
      · next hlt =>
          obtain ⟨⟨dword, code₁⟩, hread, h⟩ := Exec.bind_eq_ok.1 h
          obtain rfl := readu32_eq_ok hread
          obtain ⟨rfl, rfl⟩ := Prod.mk.inj (Exec.pure_eq_ok.1 h)
          exact ⟨⟨[dword], rfl, Nat.le_refl 1, rfl⟩, rfl,
            .inl ⟨hadd, ⟨inst.src_count, hlt⟩, dword, rfl, rfl, rfl⟩⟩
      · cases h
  · next hadd =>
      have hadd : hasAdditionalLiteral encoding inst.opcode = false := by simpa using hadd
      split at h
      · next i hi =>
          obtain ⟨⟨dword, code₁⟩, hread, h⟩ := Exec.bind_eq_ok.1 h
          obtain rfl := readu32_eq_ok hread
          obtain ⟨rfl, rfl⟩ := Prod.mk.inj (Exec.pure_eq_ok.1 h)
          exact ⟨⟨[dword], rfl, Nat.le_refl 1, rfl⟩, rfl,
            .inr (.inl ⟨hadd, i, dword, hi, rfl, rfl⟩)⟩
      · next hnone =>
          cases h
          exact ⟨⟨[], rfl, Nat.zero_le 1, rfl⟩, rfl, .inr (.inr ⟨hadd, hnone, rfl⟩)⟩

theorem decode_start {token : ℕ} {rest : List ℕ} {inst₁ : GcnInst}
    (hoperands : decodeOperands encoding (token :: rest) = .ok (inst, code'))
    (hencoding : encodingOf (token :: rest) = encoding) (hlegal : encoding ≠ .illegal)
    (hmeta : updateInstructionMeta format encoding inst = .ok inst₁) :
    inst = encoded (token :: rest) ∧ inst₁.src = inst.src ∧ inst₁.opcode = inst.opcode ∧
      (formatOf format (token :: rest)).map InstFormat.src_count = some inst₁.src_count ∧
      inst₁.length = getEncodingLength encoding ∧
      ((getEncodingLength encoding = 4 ∧ token :: rest = [token] ++ code') ∨
        getEncodingLength encoding = 8 ∧
          ∃ high, token :: rest = [token, high] ++ code') := by
  subst hencoding
  have hinst : inst = encoded (token :: rest) ∧
      ((getEncodingLength (encodingOf (token :: rest)) = 4 ∧ token :: rest = [token] ++ code') ∨
        getEncodingLength (encodingOf (token :: rest)) = 8 ∧
          ∃ high, token :: rest = [token, high] ++ code') := by
    unfold decodeOperands at hoperands
    unfold encoded
    split at hoperands
    · next hfour =>
        obtain ⟨⟨hex, code₁⟩, hread, h⟩ := Exec.bind_eq_ok.1 hoperands
        cases hread
        obtain ⟨rfl, rfl⟩ := Prod.mk.inj (Exec.pure_eq_ok.1 h)
        rw [if_pos hfour]
        exact ⟨rfl, .inl ⟨hfour, rfl⟩⟩
    · next hfour =>
        obtain ⟨⟨hex, code₁⟩, hread, h⟩ := Exec.bind_eq_ok.1 hoperands
        have height : getEncodingLength (encodingOf (token :: rest)) = 8 := by
          revert hlegal hfour
          cases encodingOf (token :: rest) <;> simp [getEncodingLength]
        cases rest with
        | nil => cases hread
        | cons high rest =>
            cases hread
            obtain ⟨rfl, rfl⟩ := Prod.mk.inj (Exec.pure_eq_ok.1 h)
            rw [if_neg hfour]
            exact ⟨rfl, .inr ⟨height, high, rfl⟩⟩
  obtain ⟨rfl, hread⟩ := hinst
  unfold updateInstructionMeta at hmeta
  unfold formatOf
  split at hmeta
  · cases hmeta
  · next f hf =>
      split at hmeta
      · cases hmeta
        rw [hf]
        exact ⟨rfl, rfl, rfl, rfl, rfl, hread⟩
      · cases hmeta

/-! ### The decoder -/

/-- What decoding an instruction of one dword comes to. -/
structure Short (format : FormatTable) (code : List ℕ) (inst : GcnInst) (rest : List ℕ) :
    Prop where
  length : getEncodingLength (encodingOf code) = 4
  reads : ∃ read, code = read ++ rest ∧ 1 ≤ read.length ∧ read.length ≤ 4 ∧
    inst.length = 4 * read.length
  opcode : inst.opcode = (encoded code).opcode
  additional : hasAdditional code = true → ∃ k : Fin 4,
    (formatOf format code).map InstFormat.src_count = some k.val ∧
      code[1]? = some (inst.src k).code ∧
      ∀ i, i ≠ k → ((encoded code).src i).field = .literalConst →
        (inst.src i).code = ((encoded code).src i).code
  ordinary : hasAdditional code = false →
    (∀ i, ((encoded code).src i).field ≠ .literalConst) ∨
      ∃ k, ((encoded code).src k).field = .literalConst ∧ code[1]? = some (inst.src k).code ∧
        ∀ i, i ≠ k → ((encoded code).src i).field = .literalConst →
          (inst.src i).code = ((encoded code).src i).code

/-- What decoding an instruction of two dwords comes to. -/
structure Long (code : List ℕ) (inst : GcnInst) (rest : List ℕ) : Prop where
  encoding : getEncodingLength (encodingOf code) = 8
  reads : ∃ low high, code = [low, high] ++ rest
  length : inst.length = 8
  opcode : inst.opcode = (encoded code).opcode

theorem code_of_literal {inst₁ inst₂ inst₃ : GcnInst} {i : Fin 4}
    (hsdwa : ((inst₁.src 0).field = .literalConst → inst₂.src 0 = inst₁.src 0) ∧
      ∀ i, i ≠ 0 → (inst₂.src i).code = (inst₁.src i).code)
    (hdpp : ((inst₂.src 0).field = .literalConst → inst₃.src 0 = inst₂.src 0) ∧
      ∀ i, i ≠ 0 → (inst₃.src i).code = (inst₂.src i).code)
    (hi : (inst₁.src i).field = .literalConst) : (inst₃.src i).code = (inst₁.src i).code := by
  by_cases hzero : i = 0
  · subst hzero
    have h₂ := hsdwa.1 hi
    rw [hdpp.1 (h₂ ▸ hi), h₂]
  · rw [hdpp.2 i hzero, hsdwa.2 i hzero]

theorem decodeInstruction_cases (h : decodeInstruction format code = .ok (inst, code')) :
    Short format code inst code' ∨ Long code inst code' := by
  cases code with
  | nil => cases h
  | cons token rest =>
      unfold decodeInstruction at h
      dsimp only at h
      obtain ⟨_, hlegal, h⟩ := Exec.bind_eq_ok.1 h
      obtain ⟨⟨inst₀, code₀⟩, hoperands, h⟩ := Exec.bind_eq_ok.1 h
      obtain ⟨inst₁, hmeta, h⟩ := Exec.bind_eq_ok.1 h
      have hlegal : getInstructionEncoding token ≠ .illegal := by
        unfold assertMsg at hlegal
        split at hlegal
        · assumption
        · cases hlegal
      have hencoding : encodingOf (token :: rest) = getInstructionEncoding token := rfl
      obtain ⟨hinst, hsrc, hopcode, hcount, hlength, hread⟩ :=
        decode_start hoperands hencoding hlegal hmeta
      dsimp only at h
      split at h
      · next hfour =>
          left
          obtain ⟨⟨inst₂, code₂⟩, hliteral, h⟩ := Exec.bind_eq_ok.1 h
          obtain ⟨⟨inst₃, code₃⟩, hsdwa, hdpp⟩ := Exec.bind_eq_ok.1 h
          obtain ⟨hreads₂, hopcode₂, hcases⟩ := decodeLiteralConstant_spec hliteral
          obtain ⟨hreads₃, hopcode₃, hkeep₃⟩ := decodeSubDwordAddressing_spec hsdwa
          obtain ⟨hreads₄, hopcode₄, hkeep₄⟩ := decodeDataParallelPrimitive_spec hdpp
          have hcode : token :: rest = [token] ++ code₀ := by
            rcases hread with ⟨-, hcode⟩ | ⟨height, -⟩
            · exact hcode
            · omega
          have hsecond : ∀ dword, code₀ = dword :: code₂ → (token :: rest)[1]? = some dword := by
            rintro dword rfl
            rw [hcode]
            rfl
          have hsrc₁ : inst₁.src = (encoded (token :: rest)).src := by rw [hsrc, hinst]
          have hadd : hasAdditionalLiteral (getInstructionEncoding token) inst₁.opcode =
              hasAdditional (token :: rest) := by
            rw [hopcode, hinst]
            rfl
          have hfinal : ∀ i, (inst₂.src i).field = .literalConst →
              (inst.src i).code = (inst₂.src i).code :=
            fun i hi => code_of_literal hkeep₃ hkeep₄ hi
          rw [hadd] at hcases
          refine ⟨hencoding ▸ hfour, ?_, ?_, fun hadd' => ?_, fun hadd' => ?_⟩
          · obtain ⟨read, hr, hle, hl⟩ := (hreads₂.trans hreads₃).trans hreads₄
            refine ⟨token :: read, ?_, ?_, ?_, ?_⟩
            · rw [hcode, hr]
              rfl
            · simp
            · rw [List.length_cons]
              omega
            · rw [hl, hlength, hfour, List.length_cons]
              omega
          · rw [hopcode₄, hopcode₃, hopcode₂, hopcode, hinst]
          · rcases hcases with ⟨-, k, dword, hk, hcode₂, hsrc₂⟩ | ⟨hnot, -⟩ | ⟨hnot, -⟩
            · refine ⟨k, by rw [hcount, hk], ?_, fun i hne hi => ?_⟩
              · rw [hsecond dword hcode₂, hfinal k (by rw [hsrc₂]; simp), hsrc₂]
                simp
              · have hi₂ : inst₂.src i = (encoded (token :: rest)).src i := by
                  rw [hsrc₂, Function.update_of_ne hne, hsrc₁]
                rw [hfinal i (by rw [hi₂, hi]), hi₂]
            · rw [hnot] at hadd'
              cases hadd'
            · rw [hnot] at hadd'
              cases hadd'
          · rcases hcases with ⟨hnot, -⟩ | ⟨-, k, dword, hk, hcode₂, hsrc₂⟩ | ⟨-, hnone, -⟩
            · rw [hnot] at hadd'
              cases hadd'
            · have hk' := findLiteral_eq_some hk
              refine .inr ⟨k, by rw [← hsrc₁, hk'], ?_, fun i hne hi => ?_⟩
              · rw [hsecond dword hcode₂, hfinal k (by rw [hsrc₂]; simpa using hk'), hsrc₂]
                simp
              · have hi₂ : inst₂.src i = (encoded (token :: rest)).src i := by
                  rw [hsrc₂, Function.update_of_ne hne, hsrc₁]
                rw [hfinal i (by rw [hi₂, hi]), hi₂]
            · exact .inl fun i => by
                rw [← hsrc₁]
                exact findLiteral_eq_none hnone i
      · next hfour =>
          right
          cases h
          rcases hread with ⟨hfour', -⟩ | ⟨height, high, hcode⟩
          · exact absurd hfour' hfour
          · exact ⟨hencoding ▸ height, ⟨token, high, hcode⟩, by rw [hlength, height],
              by rw [hopcode, hinst]⟩

theorem hasAdditional_of_long (h : getEncodingLength (encodingOf code) = 8) :
    hasAdditional code = false := by
  unfold hasAdditional hasAdditionalLiteral
  revert h
  cases encodingOf code <;> simp [getEncodingLength]

theorem opcode_of_vop3 (hvop3 : encodingOf code = .vop3)
    (hopcode : inst.opcode = (encoded code).opcode) :
    mapEncodingOp (encodingOf code) inst.opcode = vop3Op (qwordOf code) := by
  rw [hopcode]
  unfold encoded
  rw [hvop3]
  exact mapEncodingOp_vop3Opcode (vop3Op_lt _)

theorem literal_iff_of_short {rest : List ℕ} (h : Short format code inst rest) :
    (∀ i, IsLiteral format code i → literalDword code = some (inst.src i).code) ↔
      LiteralsFit format code := by
  have hdword : literalDword code = code[1]? := if_pos h.length
  rw [hdword]
  have hnumber := fun i => encoded_numbered code i
  cases hadd : hasAdditional code with
  | true =>
      obtain ⟨k, hk, hcode, hother⟩ := h.additional hadd
      constructor
      · intro hall i hi
        refine ⟨h.length, ?_⟩
        rw [hadd, if_pos rfl, hk]
        by_cases hik : i = k
        · exact .inr (by rw [hik])
        · left
          rw [hall i (.inl hi), hother i hik hi, hnumber i hi]
      · rintro hfit i (hi | ⟨-, hi⟩)
        · obtain ⟨-, hor⟩ := hfit i hi
          rw [hadd, if_pos rfl, hk, Option.some_inj] at hor
          by_cases hik : i = k
          · rw [hik, hcode]
          · rcases hor with hor | heq
            · rw [hor, hother i hik hi, hnumber i hi]
            · exact absurd (Fin.ext heq.symm) hik
        · obtain rfl : k = i := by
            rw [hk, Option.some_inj] at hi
            exact Fin.ext hi
          exact hcode
  | false =>
      have hif : ∀ i, IsLiteral format code i ↔ ((encoded code).src i).field = .literalConst := by
        intro i
        unfold IsLiteral
        rw [hadd]
        simp
      simp only [hif]
      rcases h.ordinary hadd with hnone | ⟨k, hk, hcode, hother⟩
      · exact iff_of_true (fun i hi => absurd hi (hnone i)) fun i hi => absurd hi (hnone i)
      · have hlast : ∀ i, ((encoded code).src i).field = .literalConst → i ≠ k →
            (inst.src i).code = 255 := fun i hi hik => by rw [hother i hik hi, hnumber i hi]
        constructor
        · intro hall i hi
          refine ⟨h.length, ?_⟩
          rw [hadd, if_neg Bool.false_ne_true]
          by_cases h255 : code[1]? = some 255
          · exact .inl h255
          · have honly : ∀ j, ((encoded code).src j).field = .literalConst → j = k := by
              intro j hj
              by_contra hjk
              exact h255 (by rw [hall j hj, hlast j hj hjk])
            exact .inr fun j hj => (honly j hj).trans (honly i hi).symm
        · intro hfit i hi
          by_cases hik : i = k
          · rw [hik, hcode]
          · obtain ⟨-, hor⟩ := hfit i hi
            rw [hadd, if_neg Bool.false_ne_true] at hor
            rcases hor with hor | honly
            · rw [hor, hlast i hi hik]
            · exact absurd (honly k hk).symm hik

def addFormat : FormatTable := fun encoding op =>
  if encoding = .sop2 ∧ op = 0 then some { src_count := 2, complete := true } else none

end Gcn

end OrbitConsole.ShaderRecompiler
