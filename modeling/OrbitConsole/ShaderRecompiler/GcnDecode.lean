import Mathlib.Algebra.Group.Nat.Defs
import Mathlib.Logic.Function.Basic
import OrbitConsole.Common.Machine

/-!
# Decoding GCN instructions

An instruction is one or two dwords, and one more for each of a literal constant,
sub-dword addressing and data parallel primitives. Opcodes of all encodings are
numbered in one range; a VOP3 instruction that is also a VOP1, VOP2 or VOPC one
has the number of that.
-/

namespace OrbitConsole.ShaderRecompiler

namespace Gcn

inductive InstEncoding
  | sop1 | sopp | sopc | vop1 | vopc | vop3 | exp | vop3p | vintrp | ds | mubuf | mtbuf | mimg
  | smrd | sopk | sop2 | vop2 | illegal
  deriving DecidableEq

def getInstructionEncoding (token : ℕ) : InstEncoding :=
  match token >>> 23 with
  | 0x17D => .sop1
  | 0x17F => .sopp
  | 0x17E => .sopc
  | _ =>
  match token >>> 25 with
  | 0x3F => .vop1
  | 0x3E => .vopc
  | _ =>
  match token >>> 26 with
  | 0x34 => .vop3
  | 0x33 => .vop3p
  | 0x3E => .exp
  | 0x32 => .vintrp
  | 0x36 => .ds
  | 0x38 => .mubuf
  | 0x3A => .mtbuf
  | 0x3C => .mimg
  | _ =>
  if token >>> 27 = 0x18 then .smrd
  else if token >>> 28 = 0xB then .sopk
  else if token >>> 30 = 0x2 then .sop2
  else if token >>> 31 = 0x0 then .vop2
  else .illegal

/-! ### Opcodes -/

def opMapSop2 : ℕ := 0
def opMapSopk : ℕ := opMapSop2 + 45
def opMapSop1 : ℕ := opMapSopk + 22
def opMapSopc : ℕ := opMapSop1 + 54
def opMapSopp : ℕ := opMapSopc + 17
def opMapVopc : ℕ := opMapSopp + 27
def opMapVop2 : ℕ := opMapVopc + 248
def opMapVop1 : ℕ := opMapVop2 + 60
def opMapVop3 : ℕ := opMapVop1 + 86
def opMapVintrp : ℕ := opMapVop3 + 1024
def opMapSmrd : ℕ := opMapVintrp + 3
def opMapDs : ℕ := opMapSmrd + 32
def opMapMubuf : ℕ := opMapDs + 256
def opMapMtbuf : ℕ := opMapMubuf + 114
def opMapMimg : ℕ := opMapMtbuf + 8
def opMapExp : ℕ := opMapMimg + 112
def opMapVop3p : ℕ := opMapExp + 1

def getOpMapOffset : InstEncoding → ℕ
  | .sop1 => opMapSop1
  | .sopp => opMapSopp
  | .sopc => opMapSopc
  | .vop1 => opMapVop1
  | .vopc => opMapVopc
  | .vop3 => opMapVop3
  | .vop3p => opMapVop3p
  | .exp => opMapExp
  | .vintrp => opMapVintrp
  | .ds => opMapDs
  | .mubuf => opMapMubuf
  | .mtbuf => opMapMtbuf
  | .mimg => opMapMimg
  | .smrd => opMapSmrd
  | .sopk => opMapSopk
  | .sop2 => opMapSop2
  | .vop2 => opMapVop2
  | .illegal => 0

/-- `OpMapVOP3VOPX`. -/
def vop3ToVopc : ℕ := 0
def vop3ToVop2 : ℕ := 256
def vop3ToVop1 : ℕ := 384

/-- `Opcode::V_CMPX_T_U64`, `V_LDEXP_F16` and `V_SQRT_F16`, the last ones of their encodings. -/
def vCmpxTU64 : ℕ := opMapVopc + 247
def vLdexpF16 : ℕ := opMapVop2 + 59
def vSqrtF16 : ℕ := opMapVop1 + 85

def vReadlaneB32 : ℕ := 1
def vWritelaneB32 : ℕ := 2
def vMadmkF32 : ℕ := opMapVop2 + 32
def vMadakF32 : ℕ := opMapVop2 + 33
def sSetregImm32B32 : ℕ := opMapSopk + 21

def sub32 (a b : ℕ) : ℕ := (a + (4294967296 - b % 4294967296)) % 4294967296

def mapEncodingOp (encoding : InstEncoding) (opcode : ℕ) : ℕ :=
  if encoding = .vop3 then
    if opMapVopc ≤ opcode ∧ opcode ≤ vCmpxTU64 then
      let op := opcode - opMapVopc
      op + vop3ToVopc
    else if opMapVop2 ≤ opcode ∧ opcode ≤ vLdexpF16 then
      let op := opcode - opMapVop2
      op + vop3ToVop2
    else if opMapVop1 ≤ opcode ∧ opcode ≤ vSqrtF16 then
      let op := opcode - opMapVop1
      op + vop3ToVop1
    else sub32 opcode opMapVop3
  else sub32 opcode (getOpMapOffset encoding)

/-! ### Operands -/

abbrev OperandField := ℕ

namespace OperandField

def scalarGPR : OperandField := 0
def signedConstIntPos : OperandField := 129
def signedConstIntNeg : OperandField := 193
def sdwa : OperandField := 249
def dpp : OperandField := 250
def literalConst : OperandField := 255
def vectorGPR : OperandField := 256
def undefined : OperandField := 0xFFFFFFFF

end OperandField

def getOperandField (code : ℕ) : OperandField :=
  if code ≤ 103 then .scalarGPR
  else if 129 ≤ code ∧ code ≤ 192 then .signedConstIntPos
  else if 193 ≤ code ∧ code ≤ 208 then .signedConstIntNeg
  else if 256 ≤ code ∧ code ≤ 511 then .vectorGPR
  else code

structure InstOperand where
  field : OperandField := .undefined
  code : ℕ := 0xFFFFFFFF
  deriving DecidableEq

/-- `GcnInst`; the sources are `GcnMaxSrcCount` many. -/
structure GcnInst where
  opcode : ℕ := 0
  encoding : InstEncoding := .illegal
  length : ℕ := 0
  src_count : ℕ := 0
  src : Fin 4 → InstOperand := fun _ => {}

def extract (value lst fst : ℕ) : ℕ := (value >>> fst) % 2 ^ (lst - fst + 1)

def operandOf (code : ℕ) : InstOperand := { field := getOperandField code, code := code }

/-- An operand of nine bits. -/
def vectorOperandOf (src : ℕ) : InstOperand :=
  { field := getOperandField src
    code := if getOperandField src = .vectorGPR then src - 256 else src }

def vgpr (code : ℕ) : InstOperand := { field := .vectorGPR, code := code }

def sgpr (code : ℕ) : InstOperand := { field := .scalarGPR, code := code }

def sources (operands : List InstOperand) : Fin 4 → InstOperand := fun i => operands.getD i {}

/-! ### Instructions of one dword -/

section Dword

variable (hex : ℕ)

def decodeInstructionSOP1 : GcnInst where
  opcode := extract hex 15 8 + opMapSop1
  src := sources [operandOf (extract hex 7 0)]

def decodeInstructionSOPP : GcnInst where
  opcode := extract hex 22 16 + opMapSopp

def decodeInstructionSOPC : GcnInst where
  opcode := extract hex 22 16 + opMapSopc
  src := sources [operandOf (extract hex 7 0), operandOf (extract hex 15 8)]

def decodeInstructionSOPK : GcnInst where
  opcode := extract hex 27 23 + opMapSopk

def decodeInstructionSOP2 : GcnInst where
  opcode := extract hex 29 23 + opMapSop2
  src := sources [operandOf (extract hex 7 0), operandOf (extract hex 15 8)]

def decodeInstructionVOP1 : GcnInst where
  opcode := extract hex 16 9 + opMapVop1
  src := sources [vectorOperandOf (extract hex 8 0)]

def decodeInstructionVOPC : GcnInst where
  opcode := extract hex 24 17 + opMapVopc
  src := sources [vectorOperandOf (extract hex 8 0), vgpr (extract hex 16 9)]

/-- The second source of a lane instruction is scalar. -/
def decodeInstructionVOP2 : GcnInst where
  opcode := extract hex 30 25 + opMapVop2
  src := sources [vectorOperandOf (extract hex 8 0),
    if extract hex 30 25 = vReadlaneB32 ∨ extract hex 30 25 = vWritelaneB32 then
      operandOf (extract hex 16 9) else vgpr (extract hex 16 9)]

/-- The offset is a source if it is not an immediate. -/
def decodeInstructionSMRD : GcnInst where
  opcode := extract hex 26 22 + opMapSmrd
  src := sources [sgpr (extract hex 14 9),
    if extract hex 8 8 = 0 then operandOf (extract hex 7 0) else {}]

def decodeInstructionVINTRP : GcnInst where
  opcode := extract hex 17 16 + opMapVintrp
  src := sources [vgpr (extract hex 7 0)]

def decodeInstruction32 : InstEncoding → GcnInst
  | .sop1 => decodeInstructionSOP1 hex
  | .sopp => decodeInstructionSOPP hex
  | .sopc => decodeInstructionSOPC hex
  | .sopk => decodeInstructionSOPK hex
  | .sop2 => decodeInstructionSOP2 hex
  | .vop1 => decodeInstructionVOP1 hex
  | .vopc => decodeInstructionVOPC hex
  | .vop2 => decodeInstructionVOP2 hex
  | .smrd => decodeInstructionSMRD hex
  | .vintrp => decodeInstructionVINTRP hex
  | _ => {}

end Dword

/-! ### Instructions of two dwords -/

section Qword

variable (hex : ℕ)

/-- The opcode of a VOP3 instruction with its additional bit. -/
def vop3Op : ℕ := extract hex 25 17 + extract hex 16 16 * 2 ^ 9

def vop3Opcode (op : ℕ) : ℕ :=
  if 0 ≤ op ∧ op ≤ 247 then
    let vopcOp := op - vop3ToVopc
    vopcOp + opMapVopc
  else if 256 ≤ op ∧ op ≤ 315 then
    let vop2Op := op - vop3ToVop2
    vop2Op + opMapVop2
  else if 384 ≤ op ∧ op ≤ 469 then
    let vop1Op := op - vop3ToVop1
    vop1Op + opMapVop1
  else op + opMapVop3

def decodeInstructionVOP3 : GcnInst where
  opcode := vop3Opcode (vop3Op hex)
  src := sources [vectorOperandOf (extract hex 40 32), vectorOperandOf (extract hex 49 41),
    vectorOperandOf (extract hex 58 50)]

def decodeInstructionVOP3P : GcnInst where
  opcode := extract hex 22 16 + opMapVop3p
  src := sources [vectorOperandOf (extract hex 40 32), vectorOperandOf (extract hex 49 41),
    vectorOperandOf (extract hex 58 50)]

def decodeInstructionMUBUF : GcnInst where
  opcode := extract hex 24 18 + opMapMubuf
  src := sources [vgpr (extract hex 39 32), vgpr (extract hex 47 40), sgpr (extract hex 52 48),
    operandOf (extract hex 63 56)]

def decodeInstructionMTBUF : GcnInst where
  opcode := extract hex 18 16 + opMapMtbuf
  src := sources [vgpr (extract hex 39 32), vgpr (extract hex 47 40), sgpr (extract hex 52 48),
    operandOf (extract hex 63 56)]

def decodeInstructionMIMG : GcnInst where
  opcode := extract hex 24 18 + opMapMimg
  src := sources [vgpr (extract hex 39 32), {}, sgpr (extract hex 52 48), sgpr (extract hex 57 53)]

def decodeInstructionDS : GcnInst where
  opcode := extract hex 25 18 + opMapDs
  src := sources [vgpr (extract hex 39 32), vgpr (extract hex 47 40), vgpr (extract hex 55 48)]

def decodeInstructionEXP : GcnInst where
  opcode := opMapExp
  src := sources [vgpr (extract hex 39 32), vgpr (extract hex 47 40), vgpr (extract hex 55 48),
    vgpr (extract hex 63 56)]

def decodeInstruction64 : InstEncoding → GcnInst
  | .vop3 => decodeInstructionVOP3 hex
  | .vop3p => decodeInstructionVOP3P hex
  | .mubuf => decodeInstructionMUBUF hex
  | .mtbuf => decodeInstructionMTBUF hex
  | .mimg => decodeInstructionMIMG hex
  | .ds => decodeInstructionDS hex
  | .exp => decodeInstructionEXP hex
  | _ => {}

end Qword

/-! ### The decoder -/

structure InstFormat where
  src_count : ℕ
  /-- neither type is `Undefined` -/
  complete : Bool

/-- `InstructionFormat`; its tables end behind the last opcode of an encoding. -/
abbrev FormatTable := InstEncoding → ℕ → Option InstFormat

def readu32 : List ℕ → Exec (ℕ × List ℕ)
  | dword :: code => .ok (dword, code)
  | [] => .error .undefined

def readu64 : List ℕ → Exec (ℕ × List ℕ)
  | low :: high :: code => .ok (low + high * 2 ^ 32, code)
  | _ => .error .undefined

def getEncodingLength : InstEncoding → ℕ
  | .sop1 | .sopp | .sopc | .sopk | .sop2 | .vop1 | .vopc | .vop2 | .smrd | .vintrp => 4
  | .vop3 | .vop3p | .mubuf | .mtbuf | .mimg | .ds | .exp => 8
  | .illegal => 0

def hasAdditionalLiteral (encoding : InstEncoding) (opcode : ℕ) : Bool :=
  match encoding with
  | .sopk => opcode = sSetregImm32B32
  | .vop2 => opcode = vMadmkF32 || opcode = vMadakF32
  | _ => false

def updateInstructionMeta (format : FormatTable) (encoding : InstEncoding) (inst : GcnInst) :
    Exec GcnInst :=
  match format encoding (mapEncodingOp encoding inst.opcode) with
  | none => .error .undefined
  | some instFormat =>
      if instFormat.complete then
        .ok { inst with
          encoding := encoding
          src_count := instFormat.src_count
          length := getEncodingLength encoding }
      else .error (.assertion "Instruction format table incomplete for opcode")

def findLiteral (inst : GcnInst) : Option (Fin 4) :=
  (List.finRange 4).find? fun i => (inst.src i).field = .literalConst

def decodeLiteralConstant (encoding : InstEncoding) (inst : GcnInst) (code : List ℕ) :
    Exec (GcnInst × List ℕ) :=
  if hasAdditionalLiteral encoding inst.opcode then
    if h : inst.src_count < 4 then do
      let (dword, code) ← readu32 code
      return ({ inst with
        src := Function.update inst.src ⟨inst.src_count, h⟩
          { field := .literalConst, code := dword }
        src_count := inst.src_count + 1
        length := inst.length + 4 }, code)
    else .error .undefined
  else
    match findLiteral inst with
    | some i => do
        let (dword, code) ← readu32 code
        return ({ inst with
          src := Function.update inst.src i { inst.src i with code := dword }
          length := inst.length + 4 }, code)
    | none => .ok (inst, code)

/-- `decodeSubDwordAddressing`; for both layouts the first source has its number in the low bits
and its kind in bit 23, and the second source its kind in bit 31. -/
def decodeSubDwordAddressing (encoding : InstEncoding) (inst : GcnInst) (code : List ℕ) :
    Exec (GcnInst × List ℕ) :=
  if (inst.src 0).field = .sdwa then do
    let (dword, code) ← readu32 code
    let length := inst.length + 4
    if encoding = .vopc ∨ encoding = .vop1 ∨ encoding = .vop2 then
      let src0 := extract dword 7 0
      let s0 := extract dword 23 23
      let s1 := extract dword 31 31
      let first : InstOperand :=
        { field := if s0 = 0 then .vectorGPR else getOperandField src0, code := src0 }
      let second : InstOperand :=
        { inst.src 1 with
          field := if s1 = 0 then .vectorGPR else getOperandField (inst.src 1).code }
      return ({ inst with
        src := Function.update (Function.update inst.src 0 first) 1 second
        length := length }, code)
    else
      return ({ inst with
        src := Function.update inst.src 0 { inst.src 0 with code := dword }
        length := length }, code)
  else .ok (inst, code)

/-- `Dpp::GetOperation` has an operation for the value. -/
def hasDppOperation (dpp_ctrl : ℕ) : Bool :=
  decide (dpp_ctrl < 0x100) || decide (0x101 ≤ dpp_ctrl ∧ dpp_ctrl < 0x110) ||
    decide (0x111 ≤ dpp_ctrl ∧ dpp_ctrl < 0x120) || decide (0x121 ≤ dpp_ctrl ∧ dpp_ctrl < 0x130) ||
    decide (dpp_ctrl = 0x140) || decide (dpp_ctrl = 0x141)

def decodeDataParallelPrimitive (inst : GcnInst) (code : List ℕ) : Exec (GcnInst × List ℕ) :=
  if (inst.src 0).field = .dpp then do
    let (dword, code) ← readu32 code
    assertMsg (hasDppOperation (extract dword 16 8)) "malformed dpp_ctrl"
    return ({ inst with
      src := Function.update inst.src 0 { field := .vectorGPR, code := extract dword 7 0 }
      length := inst.length + 4 }, code)
  else .ok (inst, code)

def decodeOperands (encoding : InstEncoding) (code : List ℕ) : Exec (GcnInst × List ℕ) :=
  if getEncodingLength encoding = 4 then do
    let (hex, code) ← readu32 code
    return (decodeInstruction32 hex encoding, code)
  else do
    let (hex, code) ← readu64 code
    return (decodeInstruction64 hex encoding, code)

def decodeInstruction (format : FormatTable) (code : List ℕ) : Exec (GcnInst × List ℕ) :=
  match code with
  | [] => .error .undefined
  | token :: _ => do
      let encoding := getInstructionEncoding token
      assertMsg (encoding ≠ .illegal) "illegal encoding"
      let encodingLen := getEncodingLength encoding
      let (inst, code) ← decodeOperands encoding code
      let inst ← updateInstructionMeta format encoding inst
      -- only instructions of one dword may have a literal constant
      if encodingLen = 4 then do
        let (inst, code) ← decodeLiteralConstant encoding inst code
        let (inst, code) ← decodeSubDwordAddressing encoding inst code
        decodeDataParallelPrimitive inst code
      else return (inst, code)

end Gcn

end OrbitConsole.ShaderRecompiler
