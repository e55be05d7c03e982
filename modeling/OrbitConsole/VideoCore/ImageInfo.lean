import Mathlib.Algebra.Group.Nat.Defs
import Mathlib.Data.Int.Notation
import Mathlib.Data.Nat.Log
import OrbitConsole.Common.Machine

/-!
# Descriptions of images

`ImageInfo` of the texture cache: the layout that `UpdateSize` computes, and where one image
lies in another by `MipOf` and `SliceOf`. Fields of 32 and 64 bits are natural numbers, and the
operations on them wrap around.
-/

namespace OrbitConsole.VideoCore

inductive ArrayMode where
  | arrayLinearGeneral
  | arrayLinearAligned
  | array1DTiledThin1
  | array1DTiledThick
  | array2DTiledThin1
  | arrayPrtTiledThin1
  | arrayPrt2DTiledThin1
  | array2DTiledThick
  | array2DTiledXThick
  | arrayPrtTiledThick
  | arrayPrt2DTiledThick
  | arrayPrt3DTiledThin1
  | array3DTiledThin1
  | array3DTiledThick
  | array3DTiledXThick
  | arrayPrt3DTiledThick
  deriving DecidableEq

inductive ImageType where
  | invalid
  | color1D
  | color2D
  | color3D
  | cube
  | color1DArray
  | color2DArray
  | color2DMsaa
  | color2DMsaaArray
  deriving DecidableEq

structure MipInfo where
  size : ℕ := 0
  pitch : ℕ := 0
  height : ℕ := 0
  offset : ℕ := 0

structure SubresourceExtent where
  levels : ℕ := 1
  layers : ℕ := 1
  deriving DecidableEq

structure Extent3D where
  width : ℕ := 1
  height : ℕ := 1
  depth : ℕ := 1
  deriving DecidableEq

structure ImageInfo where
  is_pow2 : Bool := false
  is_block : Bool := false
  pixel_format : ℕ := 0
  type : ImageType
  resources : SubresourceExtent := {}
  size : Extent3D := {}
  num_bits : ℕ := 0
  num_samples : ℕ := 1
  pitch : ℕ := 0
  tile_mode : ℕ := 8
  array_mode : ArrayMode := .arrayLinearAligned
  mips_layout : ℕ → MipInfo := fun _ => {}
  guest_address : ℕ := 0
  guest_size : ℕ := 0
  alt_tile : Bool := false

/-- `GetMacroTileExtents`: the tables of pitch and height by tile mode, bits, samples and the
alternative tiling. Nothing depends on what is in them. -/
abbrev MacroTileExtents := ℕ → ℕ → ℕ → Bool → Exec (ℕ × ℕ)

namespace ImageInfo

def u32 (n : ℕ) : ℕ := n % 4294967296

def s32 (n : ℕ) : ℤ := if u32 n < 2147483648 then u32 n else (u32 n : ℤ) - 4294967296

def alignMask (n align : ℕ) : ℕ :=
  u32 (n + align + 4294967295) &&& (4294967295 - (align - 1))

/-- The pitch of a row is raised until the size is aligned. A pitch that has taken every value
is not going to be. -/
def raisePitch (pitch_align : ℕ) (aligned : ℕ → Bool) : ℕ → ℕ → Exec ℕ
  | 0, _ => .error .diverges
  | fuel + 1, pitch =>
      if aligned pitch then .ok pitch
      else raisePitch pitch_align aligned fuel (u32 (pitch + pitch_align))

def imageSizeLinearAligned (pitch height bpp num_samples : ℕ) : Exec MipInfo := do
  let bytes := u32 (bpp + 7) / 8
  if bytes = 0 then .error .undefined
  else
    let pitch_align := max 8 (64 / bytes)
    let log_sz := fun pitch => u32 (u32 (pitch * height) * num_samples)
    let slice_align := max 64 (256 / bytes)
    let pitch_aligned ← raisePitch pitch_align (fun pitch => log_sz pitch % slice_align = 0)
      4294967296 (alignMask pitch pitch_align)
    return { pitch := pitch_aligned, height := height
             size := u32 (add64 (log_sz pitch_aligned * bpp) 7 / 8) }

def imageSizeMicroTiled (pitch height thickness bpp num_samples : ℕ) : Exec MipInfo := do
  let height_aligned := alignMask height 8
  let log_sz := fun pitch =>
    u32 (u32 (u32 (u32 (pitch * height_aligned) * bpp) * num_samples) + 7) / 8
  let pitch_aligned ← raisePitch 8 (fun pitch => log_sz pitch * thickness % 256 = 0)
    4294967296 (alignMask pitch 8)
  return { pitch := pitch_aligned, height := height_aligned, size := log_sz pitch_aligned }

def imageSizeMacroTiled (extents : MacroTileExtents)
    (pitch height thickness bpp num_samples tile_mode mip_n : ℕ) (alt : Bool) : Exec MipInfo := do
  let (pitch_align, height_align) ← extents tile_mode bpp num_samples alt
  assertMsg (pitch_align ≠ 0 ∧ height_align ≠ 0) "pitch_align != 0 && height_align != 0"
  if 0 < mip_n ∧ (pitch < pitch_align ∨ height < height_align) then
    imageSizeMicroTiled pitch height thickness bpp num_samples
  else
    let pitch_aligned := alignMask pitch pitch_align
    let height_aligned := alignMask height height_align
    let log_sz := u32 (u32 (pitch_aligned * height_aligned) * num_samples)
    return { pitch := pitch_aligned, height := height_aligned
             size := u32 (u32 (log_sz * bpp) + 7) / 8 }

def bitCeil (n : ℕ) : Exec ℕ :=
  if 2147483648 < n then .error .undefined else .ok (2 ^ Nat.clog 2 n)

def padded (is_pow2 : Bool) (n : ℕ) : Exec ℕ := if is_pow2 then bitCeil n else .ok n

def mipExtent (is_block : Bool) (n mip : ℕ) : ℕ :=
  let n := n >>> mip
  max (if is_block then u32 (n + 3) / 4 else n) 1

def thickDepth (mip_d : ℕ) : ℕ := u32 (mip_d + (u32 (4294967296 - u32 mip_d) &&& 3))

def mipSize (extents : MacroTileExtents) (info : ImageInfo) (mip mip_w mip_h mip_d : ℕ) :
    Exec (MipInfo × ℕ) :=
  match info.array_mode with
  | .arrayLinearAligned => do
      return (← imageSizeLinearAligned mip_w mip_h info.num_bits info.num_samples, mip_d)
  | .array1DTiledThick => do
      return (← imageSizeMicroTiled mip_w mip_h 4 info.num_bits info.num_samples,
        thickDepth mip_d)
  | .array1DTiledThin1 => do
      return (← imageSizeMicroTiled mip_w mip_h 1 info.num_bits info.num_samples, mip_d)
  | .array2DTiledThick => do
      assertMsg (info.is_block = false) "!props.is_block"
      return (← imageSizeMacroTiled extents mip_w mip_h 4 info.num_bits info.num_samples
        info.tile_mode mip info.alt_tile, thickDepth mip_d)
  | .array2DTiledThin1 => do
      assertMsg (info.is_block = false) "!props.is_block"
      return (← imageSizeMacroTiled extents mip_w mip_h 1 info.num_bits info.num_samples
        info.tile_mode mip info.alt_tile, mip_d)
  | _ => .error (.assertion "Unknown array mode")

def updateMip (extents : MacroTileExtents) (info : ImageInfo) (mip : ℕ) : Exec ImageInfo := do
  if 16 ≤ mip then .error .undefined
  else
    let mip_w ← padded info.is_pow2 (mipExtent info.is_block info.pitch mip)
    let mip_h ← padded info.is_pow2 (mipExtent info.is_block info.size.height mip)
    let mip_d ← padded info.is_pow2 (mipExtent false info.size.depth mip)
    let (mip_info, mip_d) ← info.mipSize extents mip mip_w mip_h mip_d
    let size := u32 (mip_info.size * u32 (mip_d * info.resources.layers))
    let mip_info : MipInfo :=
      { pitch := if info.is_block then max (u32 (mip_info.pitch * 4)) 32 else mip_info.pitch
        height := if info.is_block then max (u32 (mip_info.height * 4)) 32 else mip_info.height
        size := size
        offset := info.guest_size }
    return { info with
      mips_layout := Function.update info.mips_layout mip mip_info
      guest_size := u32 (info.guest_size + size) }

def updateSize (extents : MacroTileExtents) (info : ImageInfo) : Exec ImageInfo :=
  (List.range info.resources.levels).foldlM (updateMip extents) { info with guest_size := 0 }

def isCompatible (a b : ImageInfo) : Prop :=
  a.pixel_format = b.pixel_format ∧ a.num_samples = b.num_samples ∧ a.num_bits = b.num_bits

instance (a b : ImageInfo) : Decidable (a.isCompatible b) := by
  unfold isCompatible
  infer_instance

def sliceSize (info : ImageInfo) (mip : ℕ) : ℕ :=
  (info.mips_layout mip).size / info.resources.layers

def mipBase (info : ImageInfo) (mip : ℕ) : ℕ :=
  add64 info.guest_address (info.mips_layout mip).offset

def findMip (info : ImageInfo) (address : ℕ) : ℕ → ℕ → Exec (Option ℕ)
  | 0, _ => .ok none
  | left + 1, mip =>
      if 16 ≤ mip ∨ info.resources.layers = 0 then .error .undefined
      else
        let mip_base := info.mipBase mip
        let mip_end := add64 mip_base (info.mips_layout mip).size
        if mip_base ≤ address ∧ address < mip_end then
          if info.sliceSize mip = 0 then .error .undefined
          else if (sub64 address mip_base) % info.sliceSize mip = 0 then .ok (some mip)
          else findMip info address left (mip + 1)
        else findMip info address left (mip + 1)

def mipOf (a info : ImageInfo) : Exec ℤ :=
  if ¬a.isCompatible info then .ok (-1)
  else if info.array_mode ≠ a.array_mode then .ok (-1)
  else if a.resources.levels ≠ 1 then .ok (-1)
  else do
    match ← info.findMip a.guest_address info.resources.levels 0 with
    | none => .ok (-1)
    | some mip =>
        let mip_w := max (info.size.width >>> mip) 1
        let mip_h := max (info.size.height >>> mip) 1
        if a.size.width ≠ mip_w ∨ a.size.height ≠ mip_h then .ok (-1)
        else
          let mip_d := max (info.size.depth >>> mip) 1
          if info.type = .color3D ∧ a.type = .color2D then
            if a.resources.layers ≠ mip_d then .ok (-1) else .ok mip
          else if a.type ≠ info.type then .ok (-1)
          else .ok mip

def sliceOf (a info : ImageInfo) (mip : ℕ) : Exec ℤ :=
  if ¬a.isCompatible info then .ok (-1)
  else if a.type ≠ info.type then .ok (-1)
  else
    let mip_w := max (info.size.width >>> mip) 1
    let mip_h := max (info.size.height >>> mip) 1
    if a.size.width ≠ mip_w ∨ a.size.height ≠ mip_h then .ok (-1)
    else if 16 ≤ mip ∨ info.resources.layers = 0 ∨ info.sliceSize mip = 0 then .error .undefined
    else if a.guest_size % info.sliceSize mip ≠ 0 then .ok (-1)
    else
      let addr_diff := sub64 a.guest_address (info.mipBase mip)
      if a.guest_size = 0 then .error .undefined
      else if addr_diff % a.guest_size ≠ 0 then .ok (-1)
      else .ok (s32 (addr_diff / a.guest_size))

end ImageInfo

end OrbitConsole.VideoCore
