import Mathlib.Data.Nat.Notation

/-!
# The opcodes of the shader IR

Which of them may have side effects is a list of the code. What an opcode does
outside of its invocation is stated apart from that list, by what it is.
-/

namespace OrbitConsole.ShaderRecompiler

inductive Opcode
  | phi | identity | void | conditionRef | reference | phiMove | prologue | epilogue | discard
  | discardCond | debugPrint | readConst | readConstBuffer | barrier | workgroupMemoryBarrier
  | deviceMemoryBarrier | emitVertex | emitPrimitive | loadSharedU16 | loadSharedU32
  | loadSharedU64 | writeSharedU16 | writeSharedU32 | writeSharedU64 | sharedAtomicIAdd32
  | sharedAtomicIAdd64 | sharedAtomicISub32 | sharedAtomicISub64 | sharedAtomicSMin32
  | sharedAtomicSMin64 | sharedAtomicUMin32 | sharedAtomicUMin64 | sharedAtomicSMax32
  | sharedAtomicSMax64 | sharedAtomicUMax32 | sharedAtomicUMax64 | sharedAtomicInc32
  | sharedAtomicInc64 | sharedAtomicDec32 | sharedAtomicDec64 | sharedAtomicAnd32
  | sharedAtomicAnd64 | sharedAtomicOr32 | sharedAtomicOr64 | sharedAtomicXor32
  | sharedAtomicXor64 | getUserData | getThreadBitScalarReg | setThreadBitScalarReg
  | getScalarRegister | setScalarRegister | getVectorRegister | setVectorRegister
  | getGotoVariable | setGotoVariable | getAttribute | getAttributeU32 | setAttribute | getPatch
  | setPatch | getTessGenericAttribute | setTcsGenericAttribute | readTcsGenericOuputAttribute
  | getScc | getExec | getVcc | getVccLo | getVccHi | getM0 | setScc | setExec | setVcc
  | setSccLo | setVccLo | setVccHi | setM0 | undefU1 | undefU8 | undefU16 | undefU32 | undefU64
  | loadBufferU8 | loadBufferU16 | loadBufferU32 | loadBufferU32x2 | loadBufferU32x3
  | loadBufferU32x4 | loadBufferU64 | loadBufferF32 | loadBufferF32x2 | loadBufferF32x3
  | loadBufferF32x4 | loadBufferFormatF32 | storeBufferU8 | storeBufferU16 | storeBufferU32
  | storeBufferU32x2 | storeBufferU32x3 | storeBufferU32x4 | storeBufferU64 | storeBufferF32
  | storeBufferF32x2 | storeBufferF32x3 | storeBufferF32x4 | storeBufferFormatF32
  | bufferAtomicIAdd32 | bufferAtomicIAdd64 | bufferAtomicISub32 | bufferAtomicSMin32
  | bufferAtomicSMin64 | bufferAtomicUMin32 | bufferAtomicUMin64 | bufferAtomicFMin32
  | bufferAtomicSMax32 | bufferAtomicSMax64 | bufferAtomicUMax32 | bufferAtomicUMax64
  | bufferAtomicFMax32 | bufferAtomicInc32 | bufferAtomicDec32 | bufferAtomicAnd32
  | bufferAtomicOr32 | bufferAtomicXor32 | bufferAtomicSwap32 | bufferAtomicCmpSwap32
  | bufferAtomicFCmpSwap32 | compositeConstructU32x2 | compositeConstructU32x3
  | compositeConstructU32x4 | compositeConstructU32x2x2 | compositeExtractU32x2
  | compositeExtractU32x3 | compositeExtractU32x4 | compositeInsertU32x2 | compositeInsertU32x3
  | compositeInsertU32x4 | compositeShuffleU32x2 | compositeShuffleU32x3 | compositeShuffleU32x4
  | compositeConstructF32x2 | compositeConstructF32x3 | compositeConstructF32x4
  | compositeConstructF32x2x2 | compositeExtractF32x2 | compositeExtractF32x3
  | compositeExtractF32x4 | compositeInsertF32x2 | compositeInsertF32x3 | compositeInsertF32x4
  | compositeShuffleF32x2 | compositeShuffleF32x3 | compositeShuffleF32x4 | selectU1 | selectU32
  | selectF32 | bitCastU16F16 | bitCastU32F32 | bitCastF16U16 | bitCastF32U32 | packUint2x32
  | unpackUint2x32 | packDouble2x32 | unpackDouble2x32 | packUnorm2x16 | unpackUnorm2x16
  | packSnorm2x16 | unpackSnorm2x16 | packUint2x16 | unpackUint2x16 | packSint2x16
  | unpackSint2x16 | packHalf2x16 | unpackHalf2x16 | packUnorm4x8 | unpackUnorm4x8 | packSnorm4x8
  | unpackSnorm4x8 | packUint4x8 | unpackUint4x8 | packSint4x8 | unpackSint4x8
  | packUfloat10_11_11 | unpackUfloat10_11_11 | packUnorm2_10_10_10 | unpackUnorm2_10_10_10
  | packSnorm2_10_10_10 | unpackSnorm2_10_10_10 | packUint2_10_10_10 | unpackUint2_10_10_10
  | packSint2_10_10_10 | unpackSint2_10_10_10 | fpAbs32 | fpAbs64 | fpAdd32 | fpAdd64 | fpSub32
  | fpFma32 | fpFma64 | fpMax32 | fpMax64 | fpMin32 | fpMin64 | fpMinTri32 | fpMaxTri32
  | fpMedTri32 | fpMul32 | fpMul64 | fpDiv32 | fpDiv64 | fpNeg32 | fpNeg64 | fpRecip32
  | fpRecip64 | fpRecipSqrt32 | fpRecipSqrt64 | fpSqrt | fpSin | fpExp2 | fpPow | fpLdexp | fpCos
  | fpLog2 | fpSaturate32 | fpSaturate64 | fpClamp32 | fpClamp64 | fpRoundEven32 | fpRoundEven64
  | fpFloor32 | fpFloor64 | fpCeil32 | fpCeil64 | fpTrunc32 | fpTrunc64 | fpFract32 | fpFract64
  | fpFrexpSig32 | fpFrexpSig64 | fpFrexpExp32 | fpFrexpExp64 | fpOrdEqual32 | fpOrdEqual64
  | fpUnordEqual32 | fpUnordEqual64 | fpOrdNotEqual32 | fpOrdNotEqual64 | fpUnordNotEqual32
  | fpUnordNotEqual64 | fpOrdLessThan32 | fpOrdLessThan64 | fpUnordLessThan32 | fpUnordLessThan64
  | fpOrdGreaterThan32 | fpOrdGreaterThan64 | fpUnordGreaterThan32 | fpUnordGreaterThan64
  | fpOrdLessThanEqual32 | fpOrdLessThanEqual64 | fpUnordLessThanEqual32 | fpUnordLessThanEqual64
  | fpOrdGreaterThanEqual32 | fpOrdGreaterThanEqual64 | fpUnordGreaterThanEqual32
  | fpUnordGreaterThanEqual64 | fpIsNan32 | fpIsNan64 | fpIsInf32 | fpIsInf64 | fpCmpClass32
  | iAdd32 | iAdd64 | iAddCarry32 | iSub32 | iSub64 | iMul32 | iMul64 | sMulHi | uMulHi | sDiv32
  | uDiv32 | sMod32 | uMod32 | iNeg32 | iNeg64 | iAbs32 | shiftLeftLogical32 | shiftLeftLogical64
  | shiftRightLogical32 | shiftRightLogical64 | shiftRightArithmetic32 | shiftRightArithmetic64
  | bitwiseAnd32 | bitwiseAnd64 | bitwiseOr32 | bitwiseOr64 | bitwiseXor32 | bitFieldInsert
  | bitFieldSExtract | bitFieldUExtract | bitReverse32 | bitCount32 | bitCount64 | bitwiseNot32
  | findSMsb32 | findUMsb32 | findUMsb64 | findILsb32 | findILsb64 | sMin32 | uMin32 | sMax32
  | uMax32 | sMinTri32 | uMinTri32 | sMaxTri32 | uMaxTri32 | sMedTri32 | uMedTri32 | sClamp32
  | uClamp32 | sLessThan32 | sLessThan64 | uLessThan32 | uLessThan64 | iEqual32 | iEqual64
  | sLessThanEqual32 | sLessThanEqual64 | uLessThanEqual32 | uLessThanEqual64 | sGreaterThan32
  | sGreaterThan64 | uGreaterThan32 | uGreaterThan64 | iNotEqual32 | iNotEqual64
  | sGreaterThanEqual32 | sGreaterThanEqual64 | uGreaterThanEqual32 | uGreaterThanEqual64
  | logicalOr | logicalAnd | logicalXor | logicalNot | convertS32F32 | convertS32F64
  | convertU32F32 | convertF16F32 | convertF32F16 | convertF32F64 | convertF64F32 | convertF32S32
  | convertF32U32 | convertF64S32 | convertF64U32 | convertF32U16 | convertU16U32 | convertU32U16
  | convertU64U32 | convertU8U32 | convertU32U8 | convertS32S8 | convertS32S16 | imageSampleRaw
  | imageSampleImplicitLod | imageSampleExplicitLod | imageSampleDrefImplicitLod
  | imageSampleDrefExplicitLod | imageGather | imageGatherDref | imageQueryDimensions
  | imageQueryLod | imageGradient | imageRead | imageWrite | imageAtomicIAdd32
  | imageAtomicSMin32 | imageAtomicUMin32 | imageAtomicSMax32 | imageAtomicUMax32
  | imageAtomicFMax32 | imageAtomicFMin32 | imageAtomicInc32 | imageAtomicDec32
  | imageAtomicAnd32 | imageAtomicOr32 | imageAtomicXor32 | imageAtomicExchange32
  | imageAtomicCmpSwap32 | cubeFaceIndex | laneId | warpId | quadShuffle | readFirstLane
  | readLane | writeLane | ballot | ballotFindLsb | dataAppend | dataConsume | groupAny
  deriving DecidableEq

namespace Opcode

def mayHaveSideEffects : Opcode → Bool
  | .barrier | .workgroupMemoryBarrier | .deviceMemoryBarrier | .conditionRef | .reference
  | .phiMove | .prologue | .epilogue | .discard | .discardCond | .setAttribute
  | .setTcsGenericAttribute | .setPatch | .storeBufferU8 | .storeBufferU16 | .storeBufferU32
  | .storeBufferU32x2 | .storeBufferU32x3 | .storeBufferU32x4 | .storeBufferU64 | .storeBufferF32
  | .storeBufferF32x2 | .storeBufferF32x3 | .storeBufferF32x4 | .storeBufferFormatF32
  | .bufferAtomicIAdd32 | .bufferAtomicIAdd64 | .bufferAtomicISub32 | .bufferAtomicSMin32
  | .bufferAtomicSMin64 | .bufferAtomicUMin32 | .bufferAtomicUMin64 | .bufferAtomicFMin32
  | .bufferAtomicSMax32 | .bufferAtomicSMax64 | .bufferAtomicUMax32 | .bufferAtomicUMax64
  | .bufferAtomicFMax32 | .bufferAtomicInc32 | .bufferAtomicDec32 | .bufferAtomicAnd32
  | .bufferAtomicOr32 | .bufferAtomicXor32 | .bufferAtomicSwap32 | .bufferAtomicCmpSwap32
  | .bufferAtomicFCmpSwap32 | .dataAppend | .dataConsume | .writeSharedU16 | .writeSharedU32
  | .writeSharedU64 | .sharedAtomicIAdd32 | .sharedAtomicISub32 | .sharedAtomicSMin32
  | .sharedAtomicUMin32 | .sharedAtomicSMax32 | .sharedAtomicUMax32 | .sharedAtomicInc32
  | .sharedAtomicDec32 | .sharedAtomicAnd32 | .sharedAtomicOr32 | .sharedAtomicXor32
  | .sharedAtomicIAdd64 | .sharedAtomicISub64 | .sharedAtomicSMin64 | .sharedAtomicUMin64
  | .sharedAtomicSMax64 | .sharedAtomicUMax64 | .sharedAtomicInc64 | .sharedAtomicDec64
  | .sharedAtomicAnd64 | .sharedAtomicOr64 | .sharedAtomicXor64 | .imageWrite
  | .imageAtomicIAdd32 | .imageAtomicSMin32 | .imageAtomicUMin32 | .imageAtomicSMax32
  | .imageAtomicUMax32 | .imageAtomicFMax32 | .imageAtomicFMin32 | .imageAtomicInc32
  | .imageAtomicDec32 | .imageAtomicAnd32 | .imageAtomicOr32 | .imageAtomicXor32
  | .imageAtomicExchange32 | .imageAtomicCmpSwap32 | .debugPrint | .emitVertex
  | .emitPrimitive => true
  | _ => false

/-- What other invocations or the host can see. -/
inductive Effect
  | bufferWrite | imageWrite | sharedWrite | attributeWrite | counter | barrier | discard | emit
  | print
  deriving DecidableEq

/-- The stores and the atomic operations of each kind of memory write it; the others that are
seen from outside are the outputs of a stage, the append counters, the barriers, discards,
emits and prints. -/
def externalEffect : Opcode → Option Effect
  | .storeBufferU8 | .storeBufferU16 | .storeBufferU32 | .storeBufferU32x2 | .storeBufferU32x3
  | .storeBufferU32x4 | .storeBufferU64 | .storeBufferF32 | .storeBufferF32x2 | .storeBufferF32x3
  | .storeBufferF32x4 | .storeBufferFormatF32 | .bufferAtomicIAdd32 | .bufferAtomicIAdd64
  | .bufferAtomicISub32 | .bufferAtomicSMin32 | .bufferAtomicSMin64 | .bufferAtomicUMin32
  | .bufferAtomicUMin64 | .bufferAtomicFMin32 | .bufferAtomicSMax32 | .bufferAtomicSMax64
  | .bufferAtomicUMax32 | .bufferAtomicUMax64 | .bufferAtomicFMax32 | .bufferAtomicInc32
  | .bufferAtomicDec32 | .bufferAtomicAnd32 | .bufferAtomicOr32 | .bufferAtomicXor32
  | .bufferAtomicSwap32 | .bufferAtomicCmpSwap32 | .bufferAtomicFCmpSwap32 =>
      some .bufferWrite
  | .imageWrite | .imageAtomicIAdd32 | .imageAtomicSMin32 | .imageAtomicUMin32
  | .imageAtomicSMax32 | .imageAtomicUMax32 | .imageAtomicFMax32 | .imageAtomicFMin32
  | .imageAtomicInc32 | .imageAtomicDec32 | .imageAtomicAnd32 | .imageAtomicOr32
  | .imageAtomicXor32 | .imageAtomicExchange32 | .imageAtomicCmpSwap32 =>
      some .imageWrite
  | .writeSharedU16 | .writeSharedU32 | .writeSharedU64 | .sharedAtomicIAdd32
  | .sharedAtomicIAdd64 | .sharedAtomicISub32 | .sharedAtomicISub64 | .sharedAtomicSMin32
  | .sharedAtomicSMin64 | .sharedAtomicUMin32 | .sharedAtomicUMin64 | .sharedAtomicSMax32
  | .sharedAtomicSMax64 | .sharedAtomicUMax32 | .sharedAtomicUMax64 | .sharedAtomicInc32
  | .sharedAtomicInc64 | .sharedAtomicDec32 | .sharedAtomicDec64 | .sharedAtomicAnd32
  | .sharedAtomicAnd64 | .sharedAtomicOr32 | .sharedAtomicOr64 | .sharedAtomicXor32
  | .sharedAtomicXor64 =>
      some .sharedWrite
  | .setAttribute | .setPatch | .setTcsGenericAttribute =>
      some .attributeWrite
  | .dataAppend | .dataConsume =>
      some .counter
  | .barrier | .workgroupMemoryBarrier | .deviceMemoryBarrier =>
      some .barrier
  | .discard | .discardCond =>
      some .discard
  | .emitVertex | .emitPrimitive =>
      some .emit
  | .debugPrint =>
      some .print
  | _ => none

def readsVariable : Opcode → Bool
  | .getThreadBitScalarReg | .getScalarRegister | .getVectorRegister | .getGotoVariable | .getScc
  | .getExec | .getVcc | .getVccLo | .getVccHi | .getM0 => true
  | _ => false

def writesVariable : Opcode → Bool
  | .setThreadBitScalarReg | .setScalarRegister | .setVectorRegister | .setGotoVariable | .setScc
  | .setExec | .setVcc | .setSccLo | .setVccLo | .setVccHi | .setM0 => true
  | _ => false

theorem mayHaveSideEffects_of_externalEffect {op : Opcode} (h : op.externalEffect ≠ none) :
    op.mayHaveSideEffects = true := by
  cases op <;> first | rfl | exact absurd rfl h

end Opcode

end OrbitConsole.ShaderRecompiler
