import Mathlib.Data.Nat.Bitwise
import Mathlib.Data.Nat.Notation
import Mathlib.Tactic.Common

/-!
# The numbers of descriptors

Three walks over the resources of a shader: `AddBindings`, which `GetProgram` uses
when it finds a module in the cache, the declarations of `EmitSPIRV`, and the
descriptor set layout of the pipeline. A resource stands here with the sharp that
`GetSharp` gives for it. The variables that a buffer gets for the types it is used
with all have the number of the buffer; FMASKs are no descriptors in any of the
walks.
-/

namespace OrbitConsole.ShaderRecompiler

structure Bindings where
  unified : UInt32 := 0
  buffer : UInt32 := 0
  userData : UInt32 := 0
  deriving DecidableEq

structure BufferSharp where
  size : ℕ := 0

structure BufferResource where
  sharp : BufferSharp := {}
  isWritten : Bool := false

/-- `IsStorage`, which does not look at its argument. -/
def BufferResource.isStorage (_desc : BufferResource) (_buffer : BufferSharp) : Bool := true

inductive MipStorageFallbackMode where
  | none
  | dynamicIndex
  | constantIndex
  deriving DecidableEq

/-- The levels of `AmdGpu::Image`, fields of four bits. -/
structure ImageSharp where
  baseLevel : Fin 16 := 0
  lastLevel : Fin 16 := 0

structure ImageResource where
  sharp : ImageSharp := {}
  isWritten : Bool := false
  mipFallbackMode : MipStorageFallbackMode := .none

def ImageResource.numBindings (desc : ImageResource) : UInt32 :=
  if desc.mipFallbackMode = .dynamicIndex then
    UInt32.ofNat desc.sharp.lastLevel.val - UInt32.ofNat desc.sharp.baseLevel.val + 1
  else 1

structure SamplerResource where
  sharpIdx : ℕ := 0

structure UserDataMask where
  mask : ℕ := 0

/-- `std::popcount` of the 32 bits. -/
def UserDataMask.numRegs (m : UserDataMask) : UInt32 :=
  UInt32.ofNat ((List.range 32).countP m.mask.testBit)

structure Info where
  buffers : List BufferResource := []
  images : List ImageResource := []
  samplers : List SamplerResource := []
  udMask : UserDataMask := {}

def Info.addBindings (info : Info) (bnd : Bindings) : Bindings :=
  { buffer := bnd.buffer + UInt32.ofNat info.buffers.length
    unified := bnd.unified +
      UInt32.ofNat (info.buffers.length + info.images.length + info.samplers.length)
    userData := bnd.userData + info.udMask.numRegs }

inductive DescriptorType where
  | storageBuffer
  | uniformBuffer
  | storageImage
  | sampledImage
  | sampler
  deriving DecidableEq

/-- A descriptor, with the length of its array. -/
structure Descriptor where
  binding : UInt32
  type : DescriptorType
  count : UInt32
  deriving DecidableEq

/-! ## `EmitSPIRV` -/

def defineBuffers : List BufferResource → Bindings → List Descriptor × Bindings
  | [], binding => ([], binding)
  | desc :: rest, binding =>
      let isStorage := desc.isStorage desc.sharp
      let next := { binding with buffer := binding.buffer + 1, unified := binding.unified + 1 }
      let (l, last) := defineBuffers rest next
      (⟨binding.unified, if isStorage then .storageBuffer else .uniformBuffer, 1⟩ :: l, last)

def defineImages : List ImageResource → Bindings → List Descriptor × Bindings
  | [], binding => ([], binding)
  | desc :: rest, binding =>
      let numBindings := desc.numBindings
      let next := { binding with unified := binding.unified + numBindings }
      let (l, last) := defineImages rest next
      (⟨binding.unified, if desc.isWritten then .storageImage else .sampledImage,
        numBindings⟩ :: l, last)

def defineSamplers : List SamplerResource → Bindings → List Descriptor × Bindings
  | [], binding => ([], binding)
  | _ :: rest, binding =>
      let next := { binding with unified := binding.unified + 1 }
      let (l, last) := defineSamplers rest next
      (⟨binding.unified, .sampler, 1⟩ :: l, last)

/-- The descriptors that the SPIR-V declares, and the counters afterwards. -/
def emitSPIRV (info : Info) (binding : Bindings) : List Descriptor × Bindings :=
  let (buffers, binding) := defineBuffers info.buffers binding
  let (images, binding) := defineImages info.images binding
  let (samplers, binding) := defineSamplers info.samplers binding
  (buffers ++ images ++ samplers,
    { binding with userData := binding.userData + info.udMask.numRegs })

/-! ## `BuildDescSetLayout` -/

def layoutBuffers (preloading : Bool) : List BufferResource → UInt32 → List Descriptor × UInt32
  | [], binding => ([], binding)
  | buffer :: rest, binding =>
      let sharp := if preloading then {} else buffer.sharp
      let (l, last) := layoutBuffers preloading rest (binding + 1)
      (⟨binding, if buffer.isStorage sharp then .storageBuffer else .uniformBuffer, 1⟩ :: l, last)

def layoutImages : List ImageResource → UInt32 → List Descriptor × UInt32
  | [], binding => ([], binding)
  | image :: rest, binding =>
      let numBindings := image.numBindings
      let (l, last) := layoutImages rest (binding + numBindings)
      (⟨binding, if image.isWritten then .storageImage else .sampledImage, numBindings⟩ :: l, last)

def layoutSamplers : List SamplerResource → UInt32 → List Descriptor × UInt32
  | [], binding => ([], binding)
  | _ :: rest, binding =>
      let (l, last) := layoutSamplers rest (binding + 1)
      (⟨binding, .sampler, 1⟩ :: l, last)

def layoutStage (preloading : Bool) (info : Info) (binding : UInt32) :
    List Descriptor × UInt32 :=
  let (buffers, binding) := layoutBuffers preloading info.buffers binding
  let (images, binding) := layoutImages info.images binding
  let (samplers, binding) := layoutSamplers info.samplers binding
  (buffers ++ images ++ samplers, binding)

def buildDescSetLayout (preloading : Bool) : List Info → UInt32 → List (List Descriptor)
  | [], _ => []
  | info :: rest, binding =>
      let (l, binding) := layoutStage preloading info binding
      l :: buildDescSetLayout preloading rest binding

/-! ## `GetProgram` -/

/-- A compiled module: the counters it was emitted from, and the resources. -/
structure ShaderModule where
  start : Bindings
  info : Info

def ShaderModule.declared (m : ShaderModule) : List Descriptor := (emitSPIRV m.info m.start).1

/-- Whether a stage is compiled, with the resources that the translation finds, or its module
is found in the cache. -/
inductive Origin where
  | compiled (newInfo : Info)
  | found (m : ShaderModule)

structure StageRun where
  info : Info
  origin : Origin

def getProgram (st : StageRun) (binding : Bindings) : ShaderModule × Bindings :=
  match st.origin with
  | .compiled newInfo => (⟨binding, newInfo⟩, (emitSPIRV newInfo binding).2)
  | .found m => (m, st.info.addBindings binding)

def refreshStages : List StageRun → Bindings → List ShaderModule
  | [], _ => []
  | st :: rest, binding =>
      let (m, binding) := getProgram st binding
      m :: refreshStages rest binding

end OrbitConsole.ShaderRecompiler
