import Mathlib.Data.BitVec
import Mathlib.Logic.Function.Basic

/-!
# Dynamic state

State of the graphics pipelines that is set by commands. `DynamicState` tracks its values and which
of them are not yet in the command buffer, and `Commit` records these before a draw.
-/

namespace OrbitConsole.VideoCore

namespace Dynamic

/-! ### The values -/

abbrev F32 := BitVec 32

namespace F32

def isNan (x : F32) : Bool := 0x7F800000 < x.toNat % 2 ^ 31

def isZero (x : F32) : Bool := x.toNat % 2 ^ 31 = 0

/-- `operator==` of `float`. -/
def same (x y : F32) : Bool := !isNan x && !isNan y && (x == y || (isZero x && isZero y))

end F32

structure Viewport where
  x : F32
  y : F32
  width : F32
  height : F32
  minDepth : F32
  maxDepth : F32

def Viewport.same (a b : Viewport) : Bool :=
  F32.same a.x b.x && F32.same a.y b.y && F32.same a.width b.width &&
    F32.same a.height b.height && F32.same a.minDepth b.minDepth && F32.same a.maxDepth b.maxDepth

structure Rect2D where
  x : BitVec 32
  y : BitVec 32
  width : BitVec 32
  height : BitVec 32
  deriving DecidableEq

inductive CompareOp
  | eNever | eLess | eEqual | eLessOrEqual | eGreater | eNotEqual | eGreaterOrEqual | eAlways
  deriving DecidableEq

inductive StencilOp
  | eKeep | eZero | eReplace | eIncrementAndClamp | eDecrementAndClamp | eInvert
  | eIncrementAndWrap | eDecrementAndWrap
  deriving DecidableEq

inductive FrontFace
  | eCounterClockwise | eClockwise
  deriving DecidableEq

structure StencilOps where
  fail_op : StencilOp := .eKeep
  pass_op : StencilOp := .eKeep
  depth_fail_op : StencilOp := .eKeep
  compare_op : CompareOp := .eNever
  deriving DecidableEq

/-! ### The states -/

/-- What is tracked for the front and for the back faces. -/
inductive StencilPart
  | ops | reference | write_mask | compare_mask
  deriving DecidableEq

/-- The bits of `dirty_state`. -/
inductive StateName
  | viewports | scissors
  | depth_test_enabled | depth_write_enabled | depth_compare_op
  | depth_bounds_test_enabled | depth_bounds
  | depth_bias_enabled | depth_bias
  | stencil_test_enabled | stencil_front (part : StencilPart) | stencil_back (part : StencilPart)
  | primitive_restart_enable | rasterizer_discard_enable | cull_mode | front_face
  | blend_constants | color_write_masks | line_width | feedback_loop_enabled
  deriving DecidableEq

abbrev StencilPart.Value : StencilPart → Type
  | .ops => StencilOps
  | _ => BitVec 32

instance StencilPart.decidableEqValue : (part : StencilPart) → DecidableEq part.Value
  | .ops => inferInstanceAs (DecidableEq StencilOps)
  | .reference => inferInstanceAs (DecidableEq (BitVec 32))
  | .write_mask => inferInstanceAs (DecidableEq (BitVec 32))
  | .compare_mask => inferInstanceAs (DecidableEq (BitVec 32))

def StencilPart.initial : (part : StencilPart) → part.Value
  | .ops => {}
  | .reference => 0
  | .write_mask => 0
  | .compare_mask => 0

abbrev StateName.Value : StateName → Type
  | .viewports => List Viewport
  | .scissors => List Rect2D
  | .depth_test_enabled => Bool
  | .depth_write_enabled => Bool
  | .depth_compare_op => CompareOp
  | .depth_bounds_test_enabled => Bool
  | .depth_bounds => F32 × F32
  | .depth_bias_enabled => Bool
  | .depth_bias => F32 × F32 × F32
  | .stencil_test_enabled => Bool
  | .stencil_front part => part.Value
  | .stencil_back part => part.Value
  | .primitive_restart_enable => Bool
  | .rasterizer_discard_enable => Bool
  | .cull_mode => BitVec 32
  | .front_face => FrontFace
  | .blend_constants => Vector F32 4
  | .color_write_masks => Vector (BitVec 32) 8
  | .line_width => F32
  | .feedback_loop_enabled => Bool

def StateName.initial : (s : StateName) → s.Value
  | .viewports => []
  | .scissors => []
  | .depth_test_enabled => false
  | .depth_write_enabled => false
  | .depth_compare_op => .eNever
  | .depth_bounds_test_enabled => false
  | .depth_bounds => (0, 0)
  | .depth_bias_enabled => false
  | .depth_bias => (0, 0, 0)
  | .stencil_test_enabled => false
  | .stencil_front part => part.initial
  | .stencil_back part => part.initial
  | .primitive_restart_enable => false
  | .rasterizer_discard_enable => false
  | .cull_mode => 0
  | .front_face => .eCounterClockwise
  | .blend_constants => Vector.replicate 4 0
  | .color_write_masks => Vector.replicate 8 0
  | .line_width => 0
  | .feedback_loop_enabled => false

def rangesEqual {α : Type} (same : α → α → Bool) : List α → List α → Bool
  | [], [] => true
  | a :: as, b :: bs => same a b && rangesEqual same as bs
  | _, _ => false

/-- The comparison of the setters. Values with a `float` in them may be equal and differ. -/
def StateName.differs : (s : StateName) → s.Value → s.Value → Bool
  | .viewports, a, b => !rangesEqual Viewport.same a b
  | .scissors, a, b => !rangesEqual (fun a b => decide (a = b)) a b
  | .depth_test_enabled, a, b => a != b
  | .depth_write_enabled, a, b => a != b
  | .depth_compare_op, a, b => decide (a ≠ b)
  | .depth_bounds_test_enabled, a, b => a != b
  | .depth_bounds, a, b => !F32.same a.1 b.1 || !F32.same a.2 b.2
  | .depth_bias_enabled, a, b => a != b
  | .depth_bias, a, b =>
      !F32.same a.1 b.1 || !F32.same a.2.1 b.2.1 || !F32.same a.2.2 b.2.2
  | .stencil_test_enabled, a, b => a != b
  | .stencil_front _, a, b => decide (a ≠ b)
  | .stencil_back _, a, b => decide (a ≠ b)
  | .primitive_restart_enable, a, b => a != b
  | .rasterizer_discard_enable, a, b => a != b
  | .cull_mode, a, b => a != b
  | .front_face, a, b => decide (a ≠ b)
  | .blend_constants, a, b => !rangesEqual F32.same a.toList b.toList
  | .color_write_masks, a, b => !rangesEqual (fun a b => decide (a = b)) a.toList b.toList
  | .line_width, a, b => !F32.same a b
  | .feedback_loop_enabled, a, b => a != b

structure DynamicState where
  dirty_state : StateName → Bool := fun _ => false
  tracked : (s : StateName) → s.Value := StateName.initial

namespace DynamicState

def depth_test_enabled (d : DynamicState) : Bool := d.tracked .depth_test_enabled

def depth_bounds_test_enabled (d : DynamicState) : Bool := d.tracked .depth_bounds_test_enabled

def depth_bias_enabled (d : DynamicState) : Bool := d.tracked .depth_bias_enabled

def stencil_test_enabled (d : DynamicState) : Bool := d.tracked .stencil_test_enabled

end DynamicState

/-- What the device supports. -/
structure Instance where
  depthBounds : Bool
  dynamicColorWriteMask : Bool
  attachmentFeedbackLoopLayout : Bool

/-! ### Commands -/

/-- A command buffer begins, a setter finds another value, or a command is recorded. -/
inductive Event
  | began
  | invalidated
  | changed (s : StateName)
  | set (s : StateName) (v : s.Value)
  | setFrontAndBack (part : StencilPart) (v : part.Value)

structure Session where
  state : DynamicState := {}
  log : List Event := []

namespace Session

/-! ### The setters -/

def set (s : StateName) (v : s.Value) (w : Session) : Session :=
  if s.differs (w.state.tracked s) v then
    { state :=
        { dirty_state := Function.update w.state.dirty_state s true
          tracked := Function.update w.state.tracked s v }
      log := .changed s :: w.log }
  else w

def setViewports (viewports : List Viewport) : Session → Session := set .viewports viewports

def setScissors (scissors : List Rect2D) : Session → Session := set .scissors scissors

def setDepthTestEnabled (enabled : Bool) : Session → Session := set .depth_test_enabled enabled

def setDepthWriteEnabled (enabled : Bool) : Session → Session := set .depth_write_enabled enabled

def setDepthCompareOp (compare_op : CompareOp) : Session → Session :=
  set .depth_compare_op compare_op

def setDepthBoundsTestEnabled (enabled : Bool) : Session → Session :=
  set .depth_bounds_test_enabled enabled

def setDepthBounds (min max : F32) : Session → Session := set .depth_bounds (min, max)

def setDepthBiasEnabled (enabled : Bool) : Session → Session := set .depth_bias_enabled enabled

def setDepthBias (constant clamp slope : F32) : Session → Session :=
  set .depth_bias (constant, clamp, slope)

def setStencilTestEnabled (enabled : Bool) : Session → Session :=
  set .stencil_test_enabled enabled

def setStencil (part : StencilPart) (front back : part.Value) (w : Session) : Session :=
  set (.stencil_back part) back (set (.stencil_front part) front w)

def setStencilOps (front_ops back_ops : StencilOps) : Session → Session :=
  setStencil .ops front_ops back_ops

def setStencilReferences (front_reference back_reference : BitVec 32) : Session → Session :=
  setStencil .reference front_reference back_reference

def setStencilWriteMasks (front_write_mask back_write_mask : BitVec 32) : Session → Session :=
  setStencil .write_mask front_write_mask back_write_mask

def setStencilCompareMasks (front_compare_mask back_compare_mask : BitVec 32) :
    Session → Session :=
  setStencil .compare_mask front_compare_mask back_compare_mask

def setPrimitiveRestartEnabled (enabled : Bool) : Session → Session :=
  set .primitive_restart_enable enabled

def setCullMode (cull_mode : BitVec 32) : Session → Session := set .cull_mode cull_mode

def setFrontFace (front_face : FrontFace) : Session → Session := set .front_face front_face

def setBlendConstants (blend_constants : Vector F32 4) : Session → Session :=
  set .blend_constants blend_constants

def setRasterizerDiscardEnabled (enabled : Bool) : Session → Session :=
  set .rasterizer_discard_enable enabled

def setColorWriteMasks (color_write_masks : Vector (BitVec 32) 8) : Session → Session :=
  set .color_write_masks color_write_masks

def setLineWidth (width : F32) : Session → Session := set .line_width width

def setAttachmentFeedbackLoopEnabled (enabled : Bool) : Session → Session :=
  set .feedback_loop_enabled enabled

/-! ### Recording -/

def invalidate (w : Session) : Session :=
  { state := { w.state with dirty_state := fun _ => true }, log := .invalidated :: w.log }

def allocateWorkerCommandBuffers (w : Session) : Session :=
  invalidate { w with log := .began :: w.log }

def clear (s : StateName) (w : Session) : Session :=
  { w with state :=
    { w.state with dirty_state := Function.update w.state.dirty_state s false } }

def record (e : Event) (w : Session) : Session := { w with log := e :: w.log }

def flushSupported (supported : Bool) (s : StateName) (w : Session) : Session :=
  if w.state.dirty_state s then
    if supported then record (.set s (w.state.tracked s)) (clear s w) else clear s w
  else w

def flush (s : StateName) : Session → Session := flushSupported true s

/-- One command if both faces are dirty with the same value. -/
def flushStencil (part : StencilPart) (w : Session) : Session :=
  if (w.state.dirty_state (.stencil_front part) && w.state.dirty_state (.stencil_back part)) = true
      ∧ w.state.tracked (.stencil_front part) = w.state.tracked (.stencil_back part) then
    record (.setFrontAndBack part (w.state.tracked (.stencil_front part)))
      (clear (.stencil_back part) (clear (.stencil_front part) w))
  else flush (.stencil_back part) (flush (.stencil_front part) w)

def when (cond : DynamicState → Bool) (part : Session → Session) (w : Session) : Session :=
  if cond w.state then part w else w

def commitParts (inst : Instance) : List (Session → Session) :=
  [flush .viewports,
   flush .scissors,
   flush .depth_test_enabled,
   flush .depth_write_enabled,
   when (·.depth_test_enabled) (flush .depth_compare_op),
   flushSupported inst.depthBounds .depth_bounds_test_enabled,
   when (·.depth_bounds_test_enabled) (flushSupported inst.depthBounds .depth_bounds),
   flush .depth_bias_enabled,
   when (·.depth_bias_enabled) (flush .depth_bias),
   flush .stencil_test_enabled,
   when (·.stencil_test_enabled) fun w =>
     flushStencil .compare_mask (flushStencil .write_mask
       (flushStencil .reference (flushStencil .ops w))),
   flush .primitive_restart_enable,
   flush .rasterizer_discard_enable,
   flush .cull_mode,
   flush .front_face,
   flush .blend_constants,
   flushSupported inst.dynamicColorWriteMask .color_write_masks,
   flush .line_width,
   when (fun _ => inst.attachmentFeedbackLoopLayout) (flush .feedback_loop_enabled)]

def commit (inst : Instance) (w : Session) : Session :=
  (commitParts inst).foldl (fun w part => part w) w

/-! ### Runs -/

/-- The calls from outside. -/
inductive Op
  | setViewports (viewports : List Viewport)
  | setScissors (scissors : List Rect2D)
  | setDepthTestEnabled (enabled : Bool)
  | setDepthWriteEnabled (enabled : Bool)
  | setDepthCompareOp (compare_op : CompareOp)
  | setDepthBoundsTestEnabled (enabled : Bool)
  | setDepthBounds (min max : F32)
  | setDepthBiasEnabled (enabled : Bool)
  | setDepthBias (constant clamp slope : F32)
  | setStencilTestEnabled (enabled : Bool)
  | setStencilOps (front_ops back_ops : StencilOps)
  | setStencilReferences (front_reference back_reference : BitVec 32)
  | setStencilWriteMasks (front_write_mask back_write_mask : BitVec 32)
  | setStencilCompareMasks (front_compare_mask back_compare_mask : BitVec 32)
  | setPrimitiveRestartEnabled (enabled : Bool)
  | setCullMode (cull_mode : BitVec 32)
  | setFrontFace (front_face : FrontFace)
  | setBlendConstants (blend_constants : Vector F32 4)
  | setRasterizerDiscardEnabled (enabled : Bool)
  | setColorWriteMasks (color_write_masks : Vector (BitVec 32) 8)
  | setLineWidth (width : F32)
  | setAttachmentFeedbackLoopEnabled (enabled : Bool)
  | invalidate
  | allocateWorkerCommandBuffers
  | commit

def step (inst : Instance) (w : Session) : Op → Session
  | .setViewports viewports => w.setViewports viewports
  | .setScissors scissors => w.setScissors scissors
  | .setDepthTestEnabled enabled => w.setDepthTestEnabled enabled
  | .setDepthWriteEnabled enabled => w.setDepthWriteEnabled enabled
  | .setDepthCompareOp compare_op => w.setDepthCompareOp compare_op
  | .setDepthBoundsTestEnabled enabled => w.setDepthBoundsTestEnabled enabled
  | .setDepthBounds min max => w.setDepthBounds min max
  | .setDepthBiasEnabled enabled => w.setDepthBiasEnabled enabled
  | .setDepthBias constant clamp slope => w.setDepthBias constant clamp slope
  | .setStencilTestEnabled enabled => w.setStencilTestEnabled enabled
  | .setStencilOps front back => w.setStencilOps front back
  | .setStencilReferences front back => w.setStencilReferences front back
  | .setStencilWriteMasks front back => w.setStencilWriteMasks front back
  | .setStencilCompareMasks front back => w.setStencilCompareMasks front back
  | .setPrimitiveRestartEnabled enabled => w.setPrimitiveRestartEnabled enabled
  | .setCullMode cull_mode => w.setCullMode cull_mode
  | .setFrontFace front_face => w.setFrontFace front_face
  | .setBlendConstants blend_constants => w.setBlendConstants blend_constants
  | .setRasterizerDiscardEnabled enabled => w.setRasterizerDiscardEnabled enabled
  | .setColorWriteMasks color_write_masks => w.setColorWriteMasks color_write_masks
  | .setLineWidth width => w.setLineWidth width
  | .setAttachmentFeedbackLoopEnabled enabled => w.setAttachmentFeedbackLoopEnabled enabled
  | .invalidate => w.invalidate
  | .allocateWorkerCommandBuffers => w.allocateWorkerCommandBuffers
  | .commit => w.commit inst

def run (inst : Instance) (ops : List Op) : Session :=
  ops.foldl (step inst) (allocateWorkerCommandBuffers {})

end Session

end Dynamic

end OrbitConsole.VideoCore
