import Mathlib.Data.List.Basic
import OrbitConsole.VideoCore.PipelineWarmUp

/-!
# What loaded pipelines are made of

A load that fails leaves the stages that it had loaded in the arrays, where a later pipeline
without these stages finds them. The fetch shader of a pipeline is that of the last stage.
-/

namespace OrbitConsole.VideoCore

namespace Warmup

namespace PipelineCache

variable {D : Data} {env : Env D} {c c' : PipelineCache D} {m : ShaderMeta D}
  {key : D.GraphicsKey} {sdata : D.Support} {stage h i : ℕ} {loaded : Bool} {l : List ℕ}

/-! ### Permutations -/

def Wellstored (env : Env D) (c : PipelineCache D) : Prop :=
  ∀ h p i module spec, c.program_cache h = some p → p.modules[i]? = some (some (module, spec)) →
    module = env.compileSPV (env.shaderBinary h i)

def Usable (env : Env D) (c : PipelineCache D) (h i : ℕ) : Prop :=
  ∃ p spec, c.program_cache h = some p ∧
    p.modules[i]? = some (some (env.compileSPV (env.shaderBinary h i), spec))

/-- What does not change where a stage is loaded. -/
structure Keeps (env : Env D) (c c' : PipelineCache D) : Prop where
  wellstored : Wellstored env c'
  usable : ∀ h i, Usable env c h i → Usable env c' h i
  graphics_pipelines : c'.graphics_pipelines = c.graphics_pipelines
  compute_pipelines : c'.compute_pipelines = c.compute_pipelines

theorem Keeps.refl (h : Wellstored env c) : Keeps env c c := ⟨h, fun _ _ h => h, rfl, rfl⟩

theorem Keeps.trans {c'' : PipelineCache D} (h : Keeps env c c') (h' : Keeps env c' c'') :
    Keeps env c c'' :=
  ⟨h'.wellstored, fun i j hi => h'.usable i j (h.usable i j hi),
    h'.graphics_pipelines.trans h.graphics_pipelines,
    h'.compute_pipelines.trans h.compute_pipelines⟩

theorem insertPermut_get {p : Program D} {module : D.Module} {spec : Specialization D}
    {perm_idx : ℕ} {x : D.Module × Specialization D}
    (hx : (p.insertPermut module spec perm_idx).modules[i]? = some (some x)) :
    (i = perm_idx ∧ x = (module, spec)) ∨ p.modules[i]? = some (some x) := by
  unfold Program.insertPermut at hx
  dsimp only at hx
  rw [List.getElem?_set] at hx
  split at hx
  · next heq =>
      split at hx
      · exact .inl ⟨heq.symm, (Option.some.inj (Option.some.inj hx)).symm⟩
      · cases hx
  · rw [List.getElem?_append] at hx
    split at hx
    · exact .inr hx
    · rw [List.getElem?_replicate] at hx
      split at hx <;> cases hx

theorem insertPermut_self {p : Program D} {module : D.Module} {spec : Specialization D}
    {perm_idx : ℕ} :
    (p.insertPermut module spec perm_idx).modules[perm_idx]? = some (some (module, spec)) := by
  unfold Program.insertPermut
  dsimp only
  rw [List.getElem?_set_self]
  rw [List.length_append, List.length_replicate]
  omega

theorem insertPermut_of_ne {p : Program D} {module : D.Module} {spec : Specialization D}
    {perm_idx : ℕ} {x : D.Module × Specialization D} (hi : i ≠ perm_idx)
    (hx : p.modules[i]? = some (some x)) :
    (p.insertPermut module spec perm_idx).modules[i]? = some (some x) := by
  unfold Program.insertPermut
  dsimp only
  obtain ⟨hlt, -⟩ := List.getElem?_eq_some_iff.1 hx
  rw [List.getElem?_set_ne hi.symm, List.getElem?_append_left hlt, hx]

theorem keeps_insertPermut (hc : Wellstored env c) {infos : ℕ → Option ℕ}
    {modules : ℕ → Option D.Module} {fetch_shader : Option D.FetchShader}
    {spec : Specialization D} {perm_idx : ℕ} {info : D.Info} :
    Keeps env c { c with
      program_cache := Function.update c.program_cache h
        (some (((c.program_cache h).getD { info := info }).insertPermut
          (env.compileSPV (env.shaderBinary h perm_idx)) spec perm_idx))
      infos := infos, modules := modules, fetch_shader := fetch_shader } := by
  refine ⟨fun h' p i module spec' hp hx => ?_, fun h' i ⟨p, spec', hp, hx⟩ => ?_, rfl, rfl⟩
  · dsimp only at hp
    by_cases hh : h' = h
    · subst hh
      rw [Function.update_self] at hp
      cases hp
      obtain ⟨rfl, hx⟩ | hx := insertPermut_get hx
      · exact (Prod.mk.inj hx).1
      · cases hcache : c.program_cache h' with
        | none =>
            rw [hcache] at hx
            cases hx
        | some p =>
            rw [hcache] at hx
            exact hc h' p i module spec' hcache hx
    · rw [Function.update_of_ne hh] at hp
      exact hc h' p i module spec' hp hx
  · unfold Usable
    dsimp only
    by_cases hh : h' = h
    · subst hh
      rw [Function.update_self, hp]
      by_cases hi : i = perm_idx
      · subst hi
        exact ⟨_, spec, rfl, insertPermut_self⟩
      · exact ⟨_, spec', rfl, insertPermut_of_ne hi hx⟩
    · rw [Function.update_of_ne hh]
      exact ⟨p, spec', hp, hx⟩

theorem findPermut_eq {p : Program D} {spec : Specialization D} {module : D.Module}
    (hfind : p.findPermut env spec = some (i, module)) :
    ∃ spec', p.modules[i]? = some (some (module, spec')) := by
  unfold Program.findPermut at hfind
  dsimp only at hfind
  split at hfind
  · next module' spec' hget =>
      obtain ⟨rfl, rfl⟩ := Prod.mk.inj (Option.some.inj hfind)
      exact ⟨spec', hget⟩
  · cases hfind

/-! ### A stage -/

structure LoadedStage (env : Env D) (m : ShaderMeta D) (stage : ℕ) (c c' : PipelineCache D) :
    Prop where
  infos : c'.infos = Function.update c.infos stage (some m.pgm_hash)
  modules : c'.modules = Function.update c.modules stage
    (some (env.compileSPV (env.shaderBinary m.pgm_hash m.perm_idx)))
  fetch_shader : c'.fetch_shader = m.spec.fetch_shader_data
  usable : Usable env c' m.pgm_hash m.perm_idx

theorem usable_insertPermut {infos : ℕ → Option ℕ} {modules : ℕ → Option D.Module}
    {fetch_shader : Option D.FetchShader} {spec : Specialization D} {perm_idx : ℕ}
    {p : Program D} :
    Usable env { c with
      program_cache := Function.update c.program_cache h
        (some (p.insertPermut (env.compileSPV (env.shaderBinary h perm_idx)) spec perm_idx))
      infos := infos, modules := modules, fetch_shader := fetch_shader } h perm_idx :=
  ⟨_, spec, Function.update_self .., insertPermut_self⟩

theorem stageModule_eq (hc : Wellstored env c) {module : D.Module}
    (hrun : stageModule env c m (env.shaderBinary m.pgm_hash m.perm_idx) = .ok module) :
    module = env.compileSPV (env.shaderBinary m.pgm_hash m.perm_idx) := by
  unfold stageModule at hrun
  split at hrun
  · exact (Except.ok.inj hrun).symm
  · next program hcache =>
      split at hrun
      · next idx module' hfind =>
          obtain ⟨_, hassert, hrun⟩ := Exec.bind_eq_ok.1 hrun
          obtain rfl := Exec.pure_eq_ok.1 hrun
          have hidx : m.perm_idx = idx := assertMsg_eq_ok.1 hassert
          obtain ⟨spec', hget⟩ := findPermut_eq hfind
          rw [hidx]
          exact hc m.pgm_hash program idx module' spec' hcache hget
      · exact (Except.ok.inj hrun).symm

theorem loadPipelineStage_spec (hc : Wellstored env c)
    (hrun : loadPipelineStage env c m stage = .ok (loaded, c')) :
    Keeps env c c' ∧ (loaded = true → LoadedStage env m stage c c') := by
  unfold loadPipelineStage at hrun
  split at hrun
  · obtain ⟨rfl, rfl⟩ := Prod.mk.inj (Exec.pure_eq_ok.1 hrun)
    exact ⟨.refl hc, fun h => nomatch h⟩
  · next m' hm =>
      obtain rfl : m = m' := by
        unfold loadShaderMeta at hm
        split at hm
        · cases hm
        · split at hm
          · cases hm
          · exact Option.some.inj hm
      dsimp only at hrun
      split at hrun
      · obtain ⟨rfl, rfl⟩ := Prod.mk.inj (Exec.pure_eq_ok.1 hrun)
        exact ⟨⟨hc, fun _ _ h => h, rfl, rfl⟩, fun h => nomatch h⟩
      · obtain ⟨module, hmodule, hrun⟩ := Exec.bind_eq_ok.1 hrun
        obtain ⟨rfl, rfl⟩ := Prod.mk.inj (Exec.pure_eq_ok.1 hrun)
        obtain rfl := stageModule_eq hc hmodule
        exact ⟨keeps_insertPermut hc, fun _ => ⟨rfl, rfl, rfl, usable_insertPermut⟩⟩

/-! ### The stages of a pipeline -/

def ownMeta (env : Env D) (key : D.GraphicsKey) (stage : ℕ) : Option (ShaderMeta D) :=
  if env.stage_hashes key stage = 0 then none else env.shaderMeta (env.stage_hashes key stage)

def ownInfo (env : Env D) (key : D.GraphicsKey) (stage : ℕ) : Option ℕ :=
  (ownMeta env key stage).map fun m => m.pgm_hash

def ownModule (env : Env D) (key : D.GraphicsKey) (stage : ℕ) : Option D.Module :=
  (ownMeta env key stage).map fun m =>
    env.compileSPV (env.shaderBinary m.pgm_hash m.perm_idx)

def ownFetches (env : Env D) (key : D.GraphicsKey) (l : List ℕ) : List (Option D.FetchShader) :=
  l.filterMap fun stage => (ownMeta env key stage).map fun m => m.spec.fetch_shader_data

structure LoadedStages (env : Env D) (key : D.GraphicsKey) (l : List ℕ)
    (c c' : PipelineCache D) : Prop where
  infos : ∀ i, c'.infos i =
    if i ∈ l ∧ env.stage_hashes key i ≠ 0 then ownInfo env key i else c.infos i
  modules : ∀ i, c'.modules i =
    if i ∈ l ∧ env.stage_hashes key i ≠ 0 then ownModule env key i else c.modules i
  fetch_shader : c'.fetch_shader = (ownFetches env key l).getLast?.getD c.fetch_shader
  usable : ∀ i ∈ l, ∀ m, ownMeta env key i = some m → Usable env c' m.pgm_hash m.perm_idx

theorem LoadedStages.nil : LoadedStages env key [] c c where
  infos _ := (if_neg fun h => List.not_mem_nil h.1).symm
  modules _ := (if_neg fun h => List.not_mem_nil h.1).symm
  fetch_shader := rfl
  usable _ h := absurd h List.not_mem_nil

theorem LoadedStages.skip (hhash : env.stage_hashes key stage = 0)
    (h : LoadedStages env key l c c') : LoadedStages env key (stage :: l) c c' := by
  have hown : ownMeta env key stage = none := if_pos hhash
  have hmem (i : ℕ) : (i ∈ stage :: l ∧ env.stage_hashes key i ≠ 0) ↔
      (i ∈ l ∧ env.stage_hashes key i ≠ 0) := by
    refine ⟨fun ⟨hi, hne⟩ => ⟨?_, hne⟩, fun ⟨hi, hne⟩ => ⟨.tail _ hi, hne⟩⟩
    obtain rfl | hi := List.mem_cons.1 hi
    · exact absurd hhash hne
    · exact hi
  refine ⟨fun i => ?_, fun i => ?_, ?_, fun i hi m hm => ?_⟩
  · simp only [hmem, h.infos]
  · simp only [hmem, h.modules]
  · rw [h.fetch_shader, ownFetches, ownFetches, List.filterMap_cons_none]
    rw [hown]
    rfl
  · obtain rfl | hi := List.mem_cons.1 hi
    · rw [hown] at hm
      cases hm
    · exact h.usable i hi m hm

theorem LoadedStages.cons {c₁ : PipelineCache D} (hown : ownMeta env key stage = some m)
    (h₁ : LoadedStage env m stage c c₁) (hkeep : Keeps env c₁ c')
    (h : LoadedStages env key l c₁ c') : LoadedStages env key (stage :: l) c c' := by
  have hhash : env.stage_hashes key stage ≠ 0 := by
    intro h0
    rw [ownMeta, if_pos h0] at hown
    cases hown
  refine ⟨fun i => ?_, fun i => ?_, ?_, fun i hi m' hm => ?_⟩
  · rw [h.infos, h₁.infos]
    by_cases hi : i = stage
    · subst hi
      simp [hhash, ownInfo, hown]
    · simp [hi]
  · rw [h.modules, h₁.modules]
    by_cases hi : i = stage
    · subst hi
      simp [hhash, ownModule, hown]
    · simp [hi]
  · rw [h.fetch_shader, h₁.fetch_shader, ownFetches, ownFetches,
      List.filterMap_cons_some (b := m.spec.fetch_shader_data)]
    · rw [List.getLast?_cons]
      rfl
    · rw [hown]
      rfl
  · obtain rfl | hi := List.mem_cons.1 hi
    · rw [hown] at hm
      cases hm
      exact hkeep.usable _ _ h₁.usable
    · exact h.usable i hi m' hm

theorem loadStages_spec (hc : Wellstored env c)
    (hrun : loadStages env key l c = .ok (loaded, c')) :
    Keeps env c c' ∧ (loaded = true → LoadedStages env key l c c') := by
  induction l generalizing c with
  | nil =>
      obtain ⟨rfl, rfl⟩ := Prod.mk.inj (Except.ok.inj hrun)
      exact ⟨.refl hc, fun _ => .nil⟩
  | cons stage rest ih =>
      unfold loadStages at hrun
      dsimp only at hrun
      split at hrun
      · next hhash => exact ⟨(ih hc hrun).1, fun h => .skip hhash ((ih hc hrun).2 h)⟩
      · next hhash =>
          split at hrun
          · obtain ⟨rfl, rfl⟩ := Prod.mk.inj (Except.ok.inj hrun)
            exact ⟨.refl hc, fun h => nomatch h⟩
          · next m hm =>
              obtain ⟨⟨loaded₁, c₁⟩, hstage, hrun⟩ := Exec.bind_eq_ok.1 hrun
              obtain ⟨hkeep, hloaded⟩ := loadPipelineStage_spec hc hstage
              dsimp only at hrun
              split at hrun
              · next htrue =>
                  obtain ⟨hkeep', hrest⟩ := ih hkeep.wellstored hrun
                  have hown : ownMeta env key stage = some m := by
                    rw [ownMeta, if_neg hhash, hm]
                  exact ⟨hkeep.trans hkeep', fun h => .cons hown (hloaded htrue) hkeep' (hrest h)⟩
              · obtain ⟨rfl, rfl⟩ := Prod.mk.inj (Exec.pure_eq_ok.1 hrun)
                exact ⟨hkeep, fun h => nomatch h⟩

/-! ### Pipelines -/

def ownFetch (env : Env D) (key : D.GraphicsKey) : Option D.FetchShader :=
  ((ownFetches env key (List.range maxShaderStages)).filterMap id).getLast?

def Constructed (env : Env D) (c : PipelineCache D) : Blob D → Prop
  | .outdated => True
  | .compute key => ∃ p, c.compute_pipelines key = some p ∧
      p.info = (env.shaderMeta (env.computeHash key)).map (fun m => m.pgm_hash) ∧
      p.module = (env.shaderMeta (env.computeHash key)).map fun m =>
        env.compileSPV (env.shaderBinary m.pgm_hash m.perm_idx)
  | .graphics key sdata => ∃ p, c.graphics_pipelines key = some p ∧
      (∀ i < maxShaderStages, p.infos i = ownInfo env key i ∧ p.modules i = ownModule env key i) ∧
      p.fetch_shader = ownFetch env key ∧ p.sdata = sdata

/-- The last of the stages has a fetch shader or none of them has. Without stages there is none
from before. -/
def FetchUnaffected (fetches : List (Option D.FetchShader)) (before : Option D.FetchShader) :
    Prop :=
  match fetches.getLast? with
  | none => before = none
  | some last => last = none → ∀ f ∈ fetches, f = none

def Unaffected (env : Env D) (c : PipelineCache D) : Blob D → Prop
  | .graphics key _ =>
      (∀ i < maxShaderStages, env.stage_hashes key i = 0 →
        c.infos i = none ∧ c.modules i = none) ∧
      FetchUnaffected (ownFetches env key (List.range maxShaderStages)) c.fetch_shader
  | _ => True

theorem fetch_iff {fetches : List (Option D.FetchShader)} {before : Option D.FetchShader} :
    fetches.getLast?.getD before = (fetches.filterMap id).getLast? ↔
      FetchUnaffected fetches before := by
  unfold FetchUnaffected
  obtain rfl | ⟨rest, last, rfl⟩ := List.eq_nil_or_concat fetches
  · exact Iff.rfl
  · rw [List.concat_eq_append, List.getLast?_concat, List.filterMap_append]
    cases last with
    | some f => simp
    | none =>
        have hempty : (rest.filterMap id).getLast? = none ↔ ∀ f ∈ rest, f = none := by
          rw [List.getLast?_eq_none_iff, List.filterMap_eq_nil_iff]
          exact Iff.rfl
        have hall : (∀ f ∈ rest, f = none) ↔
            ((none : Option D.FetchShader) = none → ∀ f ∈ rest ++ [none], f = none) := by
          simp [or_imp]
        rw [List.filterMap_cons_none rfl, List.filterMap_nil, List.append_nil]
        exact eq_comm.trans (hempty.trans hall)

theorem ownInfo_of_absent (h : env.stage_hashes key i = 0) : ownInfo env key i = none := by
  rw [ownInfo, ownMeta, if_pos h]
  rfl

theorem ownModule_of_absent (h : env.stage_hashes key i = 0) : ownModule env key i = none := by
  rw [ownModule, ownMeta, if_pos h]
  rfl

theorem LoadedStages.arrays_iff {n : ℕ} (h : LoadedStages env key (List.range n) c c') :
    (∀ i < n, c'.infos i = ownInfo env key i ∧ c'.modules i = ownModule env key i) ↔
      ∀ i < n, env.stage_hashes key i = 0 → c.infos i = none ∧ c.modules i = none := by
  refine forall₂_congr fun i hi => ?_
  rw [h.infos, h.modules]
  by_cases hhash : env.stage_hashes key i = 0
  · simp [hhash, ownInfo_of_absent hhash, ownModule_of_absent hhash]
  · simp [hhash, hi]

/-- What stays in the cache at every load. -/
structure Preserves (env : Env D) (c c' : PipelineCache D) : Prop where
  wellstored : Wellstored env c'
  usable : ∀ h i, Usable env c h i → Usable env c' h i

theorem loadGraphicsPipeline_spec [DecidableEq D.GraphicsKey] (hc : Wellstored env c)
    (hrun : loadGraphicsPipeline env c key sdata = .ok (loaded, c')) :
    Preserves env c c' ∧ (loaded = true →
      (Constructed env c' (.graphics key sdata) ↔ Unaffected env c (.graphics key sdata))) := by
  unfold loadGraphicsPipeline at hrun
  obtain ⟨⟨loaded₁, c₁⟩, hstages, hrun⟩ := Exec.bind_eq_ok.1 hrun
  obtain ⟨hkeep, hloaded⟩ := loadStages_spec hc hstages
  dsimp only at hrun
  split at hrun
  · next htrue =>
      obtain ⟨_, -, hrun⟩ := Exec.bind_eq_ok.1 hrun
      obtain ⟨rfl, rfl⟩ := Prod.mk.inj (Exec.pure_eq_ok.1 hrun)
      refine ⟨⟨hkeep.wellstored, hkeep.usable⟩, fun _ => ?_⟩
      have hstages := hloaded htrue
      unfold Constructed Unaffected
      dsimp only
      rw [Function.update_self, ← hstages.arrays_iff, ← fetch_iff, ← hstages.fetch_shader]
      constructor
      · rintro ⟨p, hp, hi, hf, -⟩
        cases hp
        exact ⟨hi, hf⟩
      · rintro ⟨hi, hf⟩
        exact ⟨_, rfl, hi, hf, rfl⟩
  · obtain ⟨rfl, rfl⟩ := Prod.mk.inj (Exec.pure_eq_ok.1 hrun)
    exact ⟨⟨hkeep.wellstored, hkeep.usable⟩, fun h => nomatch h⟩

theorem loadComputePipeline_spec [DecidableEq D.ComputeKey] {key : D.ComputeKey}
    (hc : Wellstored env c)
    (hrun : loadComputePipeline env c key = .ok (loaded, c')) :
    Preserves env c c' ∧ (loaded = true → Constructed env c' (.compute key)) := by
  unfold loadComputePipeline at hrun
  split at hrun
  · obtain ⟨rfl, rfl⟩ := Prod.mk.inj (Exec.pure_eq_ok.1 hrun)
    exact ⟨⟨hc, fun _ _ h => h⟩, fun h => nomatch h⟩
  · next m hm =>
      obtain ⟨⟨loaded₁, c₁⟩, hstage, hrun⟩ := Exec.bind_eq_ok.1 hrun
      obtain ⟨hkeep, hloaded⟩ := loadPipelineStage_spec hc hstage
      dsimp only at hrun
      split at hrun
      · next htrue =>
          obtain ⟨_, -, hrun⟩ := Exec.bind_eq_ok.1 hrun
          obtain ⟨rfl, rfl⟩ := Prod.mk.inj (Exec.pure_eq_ok.1 hrun)
          refine ⟨⟨hkeep.wellstored, hkeep.usable⟩, fun _ => ?_⟩
          refine ⟨_, Function.update_self .., ?_, ?_⟩
          · rw [hm, (hloaded htrue).infos, Function.update_self]
            rfl
          · rw [hm, (hloaded htrue).modules, Function.update_self]
            rfl
      · obtain ⟨rfl, rfl⟩ := Prod.mk.inj (Exec.pure_eq_ok.1 hrun)
        exact ⟨⟨hkeep.wellstored, hkeep.usable⟩, fun h => nomatch h⟩

theorem wellstored_empty : Wellstored env {} := fun _ _ _ _ _ hp => nomatch hp

variable [DecidableEq D.GraphicsKey] [DecidableEq D.ComputeKey]

theorem loadBlob_spec {blob : Blob D} (hc : Wellstored env c)
    (hrun : loadBlob env c blob = .ok (loaded, c')) :
    Preserves env c c' ∧
      (loaded = true → (Constructed env c' blob ↔ Unaffected env c blob)) := by
  cases blob with
  | outdated =>
      obtain ⟨rfl, rfl⟩ := Prod.mk.inj (Except.ok.inj hrun)
      exact ⟨⟨hc, fun _ _ h => h⟩, fun h => nomatch h⟩
  | compute key =>
      obtain ⟨hpres, hload⟩ := loadComputePipeline_spec hc hrun
      exact ⟨hpres, fun h => iff_of_true (hload h) trivial⟩
  | graphics key sdata => exact loadGraphicsPipeline_spec hc hrun

theorem warmUp_wellstored {blobs : List (Blob D)} (hc : Wellstored env c)
    (hrun : warmUp env c blobs = .ok c') : Wellstored env c' := by
  induction blobs generalizing c with
  | nil =>
      obtain rfl := Exec.pure_eq_ok.1 hrun
      exact hc
  | cons blob rest ih =>
      unfold warmUp at hrun
      rw [List.foldlM_cons] at hrun
      obtain ⟨c₁, hload, hrun⟩ := Exec.bind_eq_ok.1 hrun
      obtain ⟨⟨loaded, c₂⟩, hblob, rfl⟩ := Exec.map_eq_ok.1 hload
      exact ih (loadBlob_spec hc hblob).1.wellstored hrun

/-- After every sequence of loads: a load that succeeds makes its pipeline of its own stages iff
nothing was left for it from before. The permutations in the cache stay usable, whether it
succeeds or not. -/
theorem warmUp_constructed_iff {before : List (Blob D)} {blob : Blob D}
    (hbefore : warmUp env {} before = .ok c) (hload : loadBlob env c blob = .ok (loaded, c')) :
    (loaded = true → (Constructed env c' blob ↔ Unaffected env c blob)) ∧
      ∀ h p i x, c.program_cache h = some p → p.modules[i]? = some (some x) →
        Usable env c' h i := by
  have hc := warmUp_wellstored wellstored_empty hbefore
  obtain ⟨hpres, hconstructed⟩ := loadBlob_spec hc hload
  refine ⟨hconstructed, fun h p i ⟨module, spec⟩ hp hx => hpres.usable h i ⟨p, spec, hp, ?_⟩⟩
  rw [hx, hc h p i module spec hp hx]

/-! ### A stage that is left from a pipeline that failed -/

abbrev numbers : Data where
  FetchShader := ℕ
  Layout := ℕ
  Info := ℕ
  Module := List ℕ
  GraphicsKey := Bool
  ComputeKey := ℕ
  Support := ℕ

/-- One pipeline has a fragment shader and a vertex shader that is not stored, the other a vertex
shader only. -/
def storedPipelines : Env numbers where
  shaderMeta hash := if hash = 7 then none else
    some { meta_version := 1, binary_version := 1, perm_idx := 0, spec := ⟨none, hash⟩,
           pgm_hash := hash, info := hash }
  shaderBinary hash _ := [hash]
  compileSPV := id
  sameSpec a b := Nat.beq a.layout b.layout
  stage_hashes key stage :=
    if key = true then (if stage = 0 then 5 else if stage = 3 then 7 else 0)
    else (if stage = 3 then 6 else 0)
  computeHash key := key

/-- The load of the first pipeline fails at its vertex stage, and the one behind it succeeds with
the fragment shader left: it is not constructed from its own stages. -/
theorem warmUp_constructed_iff_failed : ∃ c c',
    loadBlob storedPipelines {} (.graphics true 0) = .ok (false, c) ∧
    warmUp storedPipelines {} [.graphics true 0] = .ok c ∧
    loadBlob storedPipelines c (.graphics false 1) = .ok (true, c') ∧
    (Constructed storedPipelines c' (.graphics false 1) ↔
      Unaffected storedPipelines c (.graphics false 1)) ∧ Usable storedPipelines c' 5 0 := by
  obtain ⟨c, hfails, hbefore, c', hload, p, x, hp, hx⟩ : ∃ c,
      loadBlob storedPipelines {} (.graphics true 0) = .ok (false, c) ∧
      warmUp storedPipelines {} [.graphics true 0] = .ok c ∧
      ∃ c', loadBlob storedPipelines c (.graphics false 1) = .ok (true, c') ∧
        ∃ p x, c.program_cache 5 = some p ∧ p.modules[0]? = some (some x) :=
    ⟨_, rfl, rfl, _, rfl, _, _, rfl, rfl⟩
  have hiff := warmUp_constructed_iff hbefore hload
  exact ⟨c, c', hfails, hbefore, hload, hiff.1 rfl, hiff.2 5 p 0 x hp hx⟩

/-- The pipeline without a fragment shader gets that of the pipeline that failed. -/
theorem fragment_left :
    ¬ ∀ (before : List (Blob numbers)) (blob : Blob numbers) (c c' : PipelineCache numbers),
      warmUp storedPipelines {} before = .ok c →
      loadBlob storedPipelines c blob = .ok (true, c') → Constructed storedPipelines c' blob := by
  intro h
  obtain ⟨p, hp, hi, -⟩ := h [.graphics true 0] (.graphics false 1) _ _ rfl rfl
  cases hp
  exact absurd (hi 0 (by decide)).1 (by decide)

end PipelineCache

end Warmup

end OrbitConsole.VideoCore
