import OrbitConsole.Common.Machine

/-!
# Pipelines from the cache

At start the pipelines that were stored are loaded again, each from its key, the description of
its stages and their binaries. A load gathers the stages in arrays of the cache.
-/

namespace OrbitConsole.VideoCore

namespace Warmup

/-- What the loaded data consists of, and what the renderer makes of it. -/
structure Data where
  FetchShader : Type
  /-- a specialization without its fetch shader -/
  Layout : Type
  Info : Type
  Module : Type
  GraphicsKey : Type
  ComputeKey : Type
  /-- the serialization support of a graphics pipeline -/
  Support : Type

variable {D : Data}

structure Specialization (D : Data) where
  fetch_shader_data : Option D.FetchShader
  layout : D.Layout

/-- The stored description of a stage. -/
structure ShaderMeta (D : Data) where
  meta_version : ℕ
  binary_version : ℕ
  perm_idx : ℕ
  spec : Specialization D
  pgm_hash : ℕ
  info : D.Info

def shaderMetaVersion : ℕ := 1

def shaderBinaryVersion : ℕ := 1

/-- The stored data, and the functions of the renderer: blobs that are not there are empty. -/
structure Env (D : Data) where
  shaderMeta : ℕ → Option (ShaderMeta D)
  shaderBinary : ℕ → ℕ → List ℕ
  compileSPV : List ℕ → D.Module
  /-- `operator==` of specializations -/
  sameSpec : Specialization D → Specialization D → Bool
  stage_hashes : D.GraphicsKey → ℕ → ℕ
  computeHash : D.ComputeKey → ℕ

/-- A program, with its permutations by their index. A place that was only made room for has
none. -/
structure Program (D : Data) where
  info : D.Info
  modules : List (Option (D.Module × Specialization D)) := []

/-- A graphics pipeline as it is constructed. The information of a stage is that of the program
in the cache it points to. -/
structure GraphicsPipeline (D : Data) where
  infos : ℕ → Option ℕ
  modules : ℕ → Option D.Module
  fetch_shader : Option D.FetchShader
  sdata : D.Support

structure ComputePipeline (D : Data) where
  info : Option ℕ
  module : Option D.Module

structure PipelineCache (D : Data) where
  program_cache : ℕ → Option (Program D) := fun _ => none
  infos : ℕ → Option ℕ := fun _ => none
  modules : ℕ → Option D.Module := fun _ => none
  fetch_shader : Option D.FetchShader := none
  graphics_pipelines : D.GraphicsKey → Option (GraphicsPipeline D) := fun _ => none
  compute_pipelines : D.ComputeKey → Option (ComputePipeline D) := fun _ => none

def maxShaderStages : ℕ := 6

def Program.insertPermut (p : Program D) (module : D.Module) (spec : Specialization D)
    (perm_idx : ℕ) : Program D :=
  { p with
    modules := (p.modules ++ List.replicate (perm_idx + 1 - p.modules.length) none).set perm_idx
      (some (module, spec)) }

def Program.findPermut (env : Env D) (p : Program D) (spec : Specialization D) :
    Option (ℕ × D.Module) :=
  let same := fun m : Option (D.Module × Specialization D) => m.any fun m => env.sameSpec m.2 spec
  match p.modules[p.modules.findIdx same]? with
  | some (some (module, _)) => some (p.modules.findIdx same, module)
  | _ => none

namespace PipelineCache

variable (env : Env D)

/-- `LoadShaderMeta`: nothing is left of data of another version. -/
def loadShaderMeta (m : ShaderMeta D) : Option (ShaderMeta D) :=
  if m.meta_version ≠ shaderMetaVersion then none
  else if m.binary_version ≠ shaderBinaryVersion then none
  else some m

def stageModule (c : PipelineCache D) (m : ShaderMeta D) (spv : List ℕ) : Exec D.Module :=
  match c.program_cache m.pgm_hash with
  | none => .ok (env.compileSPV spv)
  | some program =>
      match program.findPermut env m.spec with
      | some (idx, module) => do
          assertMsg (m.perm_idx = idx) "Permutation is already inserted"
          return module
      | none => .ok (env.compileSPV spv)

def loadPipelineStage (c : PipelineCache D) (m : ShaderMeta D) (stage : ℕ) :
    Exec (Bool × PipelineCache D) := do
  match loadShaderMeta m with
  | none => return (false, c)
  | some m =>
      let c := { c with fetch_shader := m.spec.fetch_shader_data }
      let spv := env.shaderBinary m.pgm_hash m.perm_idx
      if spv = [] then return (false, c)
      else
        let program := (c.program_cache m.pgm_hash).getD { info := m.info }
        let module ← stageModule env c m spv
        return (true, { c with
          program_cache := Function.update c.program_cache m.pgm_hash
            (some (program.insertPermut module m.spec m.perm_idx))
          infos := Function.update c.infos stage (some m.pgm_hash)
          modules := Function.update c.modules stage (some module) })

def loadStages (key : D.GraphicsKey) : List ℕ → PipelineCache D → Exec (Bool × PipelineCache D)
  | [], c => .ok (true, c)
  | stage :: rest, c =>
      let hash := env.stage_hashes key stage
      if hash = 0 then loadStages key rest c
      else
        match env.shaderMeta hash with
        | none => .ok (false, c)
        | some m => do
            let (loaded, c) ← loadPipelineStage env c m stage
            if loaded then loadStages key rest c else return (false, c)

def loadGraphicsPipeline [DecidableEq D.GraphicsKey] (c : PipelineCache D) (key : D.GraphicsKey)
    (sdata : D.Support) : Exec (Bool × PipelineCache D) := do
  let (loaded, c) ← loadStages env key (List.range maxShaderStages) c
  if loaded then
    assertMsg ((c.graphics_pipelines key).isNone = true) "is_new"
    let pipeline : GraphicsPipeline D :=
      { infos := c.infos, modules := c.modules, fetch_shader := c.fetch_shader, sdata := sdata }
    return (true, { c with
      graphics_pipelines := Function.update c.graphics_pipelines key (some pipeline)
      infos := fun _ => none
      modules := fun _ => none
      fetch_shader := none })
  else return (false, c)

def loadComputePipeline [DecidableEq D.ComputeKey] (c : PipelineCache D) (key : D.ComputeKey) :
    Exec (Bool × PipelineCache D) := do
  match env.shaderMeta (env.computeHash key) with
  | none => return (false, c)
  | some m =>
      let (loaded, c) ← loadPipelineStage env c m 0
      if loaded then
        assertMsg ((c.compute_pipelines key).isNone = true) "is_new"
        let pipeline : ComputePipeline D := { info := c.infos 0, module := c.modules 0 }
        return (true, { c with
          compute_pipelines := Function.update c.compute_pipelines key (some pipeline)
          infos := fun _ => none
          modules := fun _ => none })
      else return (false, c)

/-- A stored key, which may have another version. -/
inductive Blob (D : Data)
  | outdated
  | compute (key : D.ComputeKey)
  | graphics (key : D.GraphicsKey) (sdata : D.Support)

/-- What `WarmUp` does with one key. -/
def loadBlob [DecidableEq D.GraphicsKey] [DecidableEq D.ComputeKey] (c : PipelineCache D) :
    Blob D → Exec (Bool × PipelineCache D)
  | .outdated => .ok (false, c)
  | .compute key => loadComputePipeline env c key
  | .graphics key sdata => loadGraphicsPipeline env c key sdata

def warmUp [DecidableEq D.GraphicsKey] [DecidableEq D.ComputeKey] (c : PipelineCache D)
    (blobs : List (Blob D)) : Exec (PipelineCache D) :=
  blobs.foldlM (fun c blob => Prod.snd <$> loadBlob env c blob) c

end PipelineCache

end Warmup

end OrbitConsole.VideoCore
