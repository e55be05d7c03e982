import OrbitConsole.Library.BitFields
import OrbitConsole.ShaderRecompiler.ConstantPropagation

/-!
# The meaning of the folded opcodes

What the opcodes that constant propagation folds compute, as SPIR-V defines it, with the packed
formats as the emitter writes them. An operation without a defined result has none here.
-/

namespace OrbitConsole.ShaderRecompiler

def on32 (f : BitVec 32 → Option Datum) : List Datum → Option Datum
  | [.u32 a] => f a
  | _ => none

def on64 (f : BitVec 64 → Option Datum) : List Datum → Option Datum
  | [.u64 a] => f a
  | _ => none

def onF32 (f : BitVec 32 → Option Datum) : List Datum → Option Datum
  | [.f32 a] => f a
  | _ => none

def on32x2 (f : BitVec 32 → BitVec 32 → Option Datum) : List Datum → Option Datum
  | [.u32 a, .u32 b] => f a b
  | _ => none

def on64x2 (f : BitVec 64 → BitVec 64 → Option Datum) : List Datum → Option Datum
  | [.u64 a, .u64 b] => f a b
  | _ => none

/-- A shift, which has a result for amounts below the width. -/
def shifted (f : BitVec 32 → ℕ → BitVec 32) (a b : BitVec 32) : Option Datum :=
  if b.toNat < 32 then some (.u32 (f a b.toNat)) else none

structure LaneType where
  one : BitVec 32 → Datum
  many : List (BitVec 32) → Datum
  one? : Datum → Option (BitVec 32)
  many? : Datum → Option (List (BitVec 32))
  one_eq : ∀ d x, one? d = some x → d = one x
  many_eq : ∀ d l, many? d = some l → d = many l
  many?_many : ∀ l, many? (many l) = some l

def u32Lanes : LaneType where
  one := .u32
  many := .u32s
  one? | .u32 x => some x | _ => none
  many? | .u32s l => some l | _ => none
  one_eq d x h := by cases d <;> simp_all
  many_eq d l h := by cases d <;> simp_all
  many?_many _ := rfl

def f32Lanes : LaneType where
  one := .f32
  many := .f32s
  one? | .f32 x => some x | _ => none
  many? | .f32s l => some l | _ => none
  one_eq d x h := by cases d <;> simp_all
  many_eq d l h := by cases d <;> simp_all
  many?_many _ := rfl

def laneIndex : Datum → Option ℕ
  | .u32 k => some k.toNat
  | _ => none

/-- `OpCompositeConstruct`. -/
def constructLanes (T : LaneType) (n : ℕ) (ds : List Datum) : Option Datum := do
  let lanes ← ds.mapM T.one?
  if lanes.length = n then some (T.many lanes) else none

def extractLane (T : LaneType) (n : ℕ) : List Datum → Option Datum
  | [composite, index] => do
      let lanes ← T.many? composite
      let k ← laneIndex index
      if lanes.length = n then (lanes[k]?).map T.one else none
  | _ => none

def insertLane (T : LaneType) (n : ℕ) : List Datum → Option Datum
  | [composite, object, index] => do
      let lanes ← T.many? composite
      let x ← T.one? object
      let k ← laneIndex index
      if lanes.length = n ∧ k < n then some (T.many (lanes.set k x)) else none
  | _ => none

/-- The formats of packed vectors: integers in fields of the given sizes, which are read with or
without a sign, or floats. -/
inductive Format
  | uint (sizes : List ℕ)
  | sint (sizes : List ℕ)
  | float

/-- The bits of the lanes from the vector, and the other way round. -/
def Format.unpack (F : Floats) (op : Opcode) : Format → BitVec 32 → List (BitVec 32)
  | .uint sizes, x => BitField.unpack BitField.uextract x 0 sizes
  | .sint sizes, x => BitField.unpack BitField.sextract x 0 sizes
  | .float, x => F.unpack op x

def Format.pack (F : Floats) (op : Opcode) : Format → List (BitVec 32) → BitVec 32
  | .uint sizes, lanes => BitField.pack 0 sizes lanes 0
  | .sint sizes, lanes => BitField.pack 0 sizes lanes 0
  | .float, lanes => F.pack op lanes

def packFormat : Opcode → Option (Format × ℕ)
  | .packUint2x16 => some (.uint [16, 16], 2)
  | .packSint2x16 => some (.sint [16, 16], 2)
  | .packUint4x8 => some (.uint [8, 8, 8, 8], 4)
  | .packSint4x8 => some (.sint [8, 8, 8, 8], 4)
  | .packUint2_10_10_10 => some (.uint [10, 10, 10, 2], 4)
  | .packSint2_10_10_10 => some (.sint [10, 10, 10, 2], 4)
  | .packUnorm2x16 | .packSnorm2x16 | .packHalf2x16 => some (.float, 2)
  | .packUnorm4x8 | .packSnorm4x8 | .packUnorm2_10_10_10 | .packSnorm2_10_10_10 =>
      some (.float, 4)
  | .packUfloat10_11_11 => some (.float, 3)
  | _ => none

def unpackFormat : Opcode → Option Format
  | .unpackUint2x16 => some (.uint [16, 16])
  | .unpackSint2x16 => some (.sint [16, 16])
  | .unpackUint4x8 => some (.uint [8, 8, 8, 8])
  | .unpackSint4x8 => some (.sint [8, 8, 8, 8])
  | .unpackUint2_10_10_10 => some (.uint [10, 10, 10, 2])
  | .unpackSint2_10_10_10 => some (.sint [10, 10, 10, 2])
  | .unpackUnorm2x16 | .unpackSnorm2x16 | .unpackHalf2x16 | .unpackUnorm4x8 | .unpackSnorm4x8
  | .unpackUnorm2_10_10_10 | .unpackSnorm2_10_10_10 | .unpackUfloat10_11_11 => some .float
  | _ => none

def packed (f : List (BitVec 32) → BitVec 32) (n : ℕ) : List Datum → Option Datum
  | [.f32s lanes] => if lanes.length = n then some (.u32 (f lanes)) else none
  | _ => none

/-- Two words as one, the first one being the low half. -/
def joined (make : BitVec 64 → Datum) : List Datum → Option Datum
  | [.u32s [lo, hi]] => some (make (lo.setWidth 64 ||| (hi.setWidth 64 <<< 32)))
  | _ => none

/-- The halves of a double word. -/
def halves (x : BitVec 64) : Datum := .u32s [x.setWidth 32, (x >>> 32).setWidth 32]

def selected : List Datum → Option Datum
  | [.u1 c, a, b] => some (if c then a else b)
  | _ => none

def logical2 (f : Bool → Bool → Bool) : List Datum → Option Datum
  | [.u1 a, .u1 b] => some (.u1 (f a b))
  | _ => none

def fieldOf (f : BitVec 32 → ℕ → ℕ → BitVec 32) : List Datum → Option Datum
  | [.u32 base, .u32 offset, .u32 count] =>
      if offset.toNat + count.toNat ≤ 32 then some (.u32 (f base offset.toNat count.toNat))
      else none
  | _ => none

def fieldInsert : List Datum → Option Datum
  | [.u32 base, .u32 x, .u32 offset, .u32 count] =>
      if offset.toNat + count.toNat ≤ 32 then
        some (.u32 (BitField.insert base x offset.toNat count.toNat))
      else none
  | _ => none

/-- What an opcode computes. There is nothing for the opcodes that read or change anything else
than their operands. -/
def meaning (F : Floats) (op : Opcode) : Option (List Datum → Option Datum) :=
  match op with
  | .identity => some fun | [x] => some x | _ => none
  | .iAdd32 => some (on32x2 fun a b => some (.u32 (a + b)))
  | .iSub32 => some (on32x2 fun a b => some (.u32 (a - b)))
  | .iMul32 => some (on32x2 fun a b => some (.u32 (a * b)))
  | .uDiv32 => some (on32x2 fun a b => if b = 0 then none else some (.u32 (a.udiv b)))
  | .uMod32 => some (on32x2 fun a b => if b = 0 then none else some (.u32 (a.umod b)))
  | .convertF32U32 => some (on32 fun a => some (.f32 (F.ofU32 a)))
  | .shiftLeftLogical32 => some (on32x2 (shifted fun a n => a <<< n))
  | .shiftRightLogical32 => some (on32x2 (shifted fun a n => a >>> n))
  | .shiftRightArithmetic32 => some (on32x2 (shifted fun a n => a.sshiftRight n))
  | .fpNeg32 => some (onF32 fun a => some (.f32 (a ^^^ 0x80000000)))
  | .sLessThan32 => some (on32x2 fun a b => some (.u1 (a.slt b)))
  | .sLessThan64 => some (on64x2 fun a b => some (.u1 (a.slt b)))
  | .uLessThan32 => some (on32x2 fun a b => some (.u1 (a.ult b)))
  | .uLessThan64 => some (on64x2 fun a b => some (.u1 (a.ult b)))
  | .sLessThanEqual32 => some (on32x2 fun a b => some (.u1 (a.sle b)))
  | .sLessThanEqual64 => some (on64x2 fun a b => some (.u1 (a.sle b)))
  | .uLessThanEqual32 => some (on32x2 fun a b => some (.u1 (a.ule b)))
  | .uLessThanEqual64 => some (on64x2 fun a b => some (.u1 (a.ule b)))
  | .sGreaterThan32 => some (on32x2 fun a b => some (.u1 (b.slt a)))
  | .sGreaterThan64 => some (on64x2 fun a b => some (.u1 (b.slt a)))
  | .uGreaterThan32 => some (on32x2 fun a b => some (.u1 (b.ult a)))
  | .uGreaterThan64 => some (on64x2 fun a b => some (.u1 (b.ult a)))
  | .sGreaterThanEqual32 => some (on32x2 fun a b => some (.u1 (b.sle a)))
  | .sGreaterThanEqual64 => some (on64x2 fun a b => some (.u1 (b.sle a)))
  | .uGreaterThanEqual32 => some (on32x2 fun a b => some (.u1 (b.ule a)))
  | .uGreaterThanEqual64 => some (on64x2 fun a b => some (.u1 (b.ule a)))
  | .iEqual32 => some (on32x2 fun a b => some (.u1 (a == b)))
  | .iEqual64 => some (on64x2 fun a b => some (.u1 (a == b)))
  | .iNotEqual32 => some (on32x2 fun a b => some (.u1 (a != b)))
  | .iNotEqual64 => some (on64x2 fun a b => some (.u1 (a != b)))
  | .bitwiseAnd32 => some (on32x2 fun a b => some (.u32 (a &&& b)))
  | .bitwiseAnd64 => some (on64x2 fun a b => some (.u64 (a &&& b)))
  | .bitwiseOr32 => some (on32x2 fun a b => some (.u32 (a ||| b)))
  | .bitwiseOr64 => some (on64x2 fun a b => some (.u64 (a ||| b)))
  | .bitwiseXor32 => some (on32x2 fun a b => some (.u32 (a ^^^ b)))
  | .bitwiseNot32 => some (on32 fun a => some (.u32 (~~~a)))
  | .bitReverse32 => some (on32 fun a =>
      some (.u32 (BitField.ofBits 32 fun k => a.getLsbD (31 - k))))
  | .bitCount32 => some (on32 fun a => some (.u32 (popcount a)))
  | .bitCount64 => some (on64 fun a => some (.u32 (popcount a)))
  | .bitFieldUExtract => some (fieldOf BitField.uextract)
  | .bitFieldSExtract => some (fieldOf BitField.sextract)
  | .bitFieldInsert => some fieldInsert
  | .logicalAnd => some (logical2 (· && ·))
  | .logicalOr => some (logical2 (· || ·))
  | .logicalNot => some fun | [.u1 a] => some (.u1 !a) | _ => none
  | .selectU1 | .selectU32 | .selectF32 => some selected
  | .bitCastF32U32 => some (on32 fun a => some (.f32 a))
  | .bitCastU32F32 => some (onF32 fun a => some (.u32 a))
  | .packUint2x32 => some (joined .u64)
  | .packDouble2x32 => some (joined .f64)
  | .unpackUint2x32 => some fun | [.u64 x] => some (halves x) | _ => none
  | .unpackDouble2x32 => some fun | [.f64 x] => some (halves x) | _ => none
  | .convertF16F32 => some fun | [.f32 x] => some (.f16 (F.toHalf x)) | _ => none
  | .convertF32F16 => some fun | [.f16 x] => some (.f32 (F.ofHalf x)) | _ => none
  | .compositeConstructU32x2 => some (constructLanes u32Lanes 2)
  | .compositeConstructU32x3 => some (constructLanes u32Lanes 3)
  | .compositeConstructU32x4 => some (constructLanes u32Lanes 4)
  | .compositeExtractU32x2 => some (extractLane u32Lanes 2)
  | .compositeExtractU32x3 => some (extractLane u32Lanes 3)
  | .compositeExtractU32x4 => some (extractLane u32Lanes 4)
  | .compositeInsertU32x2 => some (insertLane u32Lanes 2)
  | .compositeInsertU32x3 => some (insertLane u32Lanes 3)
  | .compositeInsertU32x4 => some (insertLane u32Lanes 4)
  | .compositeConstructF32x2 => some (constructLanes f32Lanes 2)
  | .compositeConstructF32x3 => some (constructLanes f32Lanes 3)
  | .compositeConstructF32x4 => some (constructLanes f32Lanes 4)
  | .compositeExtractF32x2 => some (extractLane f32Lanes 2)
  | .compositeExtractF32x3 => some (extractLane f32Lanes 3)
  | .compositeExtractF32x4 => some (extractLane f32Lanes 4)
  | .compositeInsertF32x2 => some (insertLane f32Lanes 2)
  | .compositeInsertF32x3 => some (insertLane f32Lanes 3)
  | .compositeInsertF32x4 => some (insertLane f32Lanes 4)
  | op =>
      match packFormat op, unpackFormat op with
      | some (format, n), _ => some (packed (format.pack F op) n)
      | none, some format => some (on32 fun x => some (.f32s (format.unpack F op x)))
      | none, none => none

end OrbitConsole.ShaderRecompiler
