import OrbitConsole.ShaderRecompiler.Bindings

/-!
# When the numbers of descriptors agree

All walks place the slots of a shader one after the other. They agree on a
pipeline exactly when the images of each stage need as many bindings as they are,
each module was emitted for the resources its stage has now and from the place
they have in the layout, and no run of resources takes up no number.
-/

namespace OrbitConsole.ShaderRecompiler

/-- A resource, without its number. -/
structure Slot where
  type : DescriptorType
  count : UInt32
  deriving DecidableEq

/-- The numbers that slots take up. -/
def total : List Slot → UInt32
  | [] => 0
  | slot :: rest => slot.count + total rest

/-- The slots, one after the other from a number on. -/
def place : List Slot → UInt32 → List Descriptor
  | [], _ => []
  | slot :: rest, binding => ⟨binding, slot.type, slot.count⟩ :: place rest (binding + slot.count)

theorem total_append (l l' : List Slot) : total (l ++ l') = total l + total l' := by
  induction l with
  | nil => simp [total]
  | cons slot rest ih => simp only [List.cons_append, total, ih, UInt32.add_assoc]

theorem place_append (l l' : List Slot) (binding : UInt32) :
    place (l ++ l') binding = place l binding ++ place l' (binding + total l) := by
  induction l generalizing binding with
  | nil => simp [place, total]
  | cons slot rest ih => simp only [List.cons_append, place, total, ih, UInt32.add_assoc]

theorem slots_place (l : List Slot) (binding : UInt32) :
    (place l binding).map (fun d => Slot.mk d.type d.count) = l := by
  induction l generalizing binding with
  | nil => rfl
  | cons slot rest ih => simp only [place, List.map_cons, ih]

theorem place_eq_iff {l l' : List Slot} {binding binding' : UInt32} :
    place l binding = place l' binding' ↔ l = l' ∧ (l' ≠ [] → binding = binding') := by
  constructor
  · intro h
    have hl : l = l' := by rw [← slots_place l binding, h, slots_place]
    refine ⟨hl, fun hne => ?_⟩
    subst hl
    cases l with
    | nil => exact absurd rfl hne
    | cons slot rest =>
        simp only [place, List.cons.injEq, Descriptor.mk.injEq] at h
        exact h.1.1
  · rintro ⟨rfl, hstart⟩
    by_cases hne : l = []
    · rw [hne]
      rfl
    · rw [hstart hne]

theorem binding_notMem_place {l : List Slot} {binding number : UInt32} :
    number ∉ (place l binding).map Descriptor.binding ↔
      ∀ l₁ l₂, l = l₁ ++ l₂ → l₂ ≠ [] → binding + total l₁ ≠ number := by
  induction l generalizing binding with
  | nil =>
      refine iff_of_true (by simp [place]) fun l₁ l₂ h hne => ?_
      exact absurd (List.append_eq_nil_iff.1 h.symm).2 hne
  | cons slot rest ih =>
      simp only [place, List.map_cons, List.mem_cons, not_or]
      rw [ih]
      constructor
      · rintro ⟨hfirst, hrest⟩ l₁ l₂ h hne
        cases l₁ with
        | nil =>
            rw [total, UInt32.add_zero]
            exact Ne.symm hfirst
        | cons slot' l₁ =>
            obtain ⟨rfl, hl⟩ := List.cons.inj h
            rw [total, ← UInt32.add_assoc]
            exact hrest l₁ l₂ hl hne
      · intro h
        refine ⟨?_, fun l₁ l₂ hrest hne => ?_⟩
        · have := h [] (slot :: rest) rfl (by simp)
          rw [total, UInt32.add_zero] at this
          exact Ne.symm this
        · have := h (slot :: l₁) l₂ (by rw [hrest]; rfl) hne
          rwa [total, ← UInt32.add_assoc] at this

theorem nodup_place_iff {l : List Slot} {binding : UInt32} :
    ((place l binding).map Descriptor.binding).Nodup ↔
      ∀ l₁ l₂ l₃, l = l₁ ++ l₂ ++ l₃ → l₂ ≠ [] → l₃ ≠ [] → total l₂ ≠ 0 := by
  induction l generalizing binding with
  | nil =>
      refine iff_of_true (by simp [place]) fun l₁ l₂ l₃ h _ hne => ?_
      exact absurd (List.append_eq_nil_iff.1 h.symm).2 hne
  | cons slot rest ih =>
      simp only [place, List.map_cons, List.nodup_cons]
      rw [ih, binding_notMem_place]
      have hshift : ∀ t : UInt32, binding + slot.count + t ≠ binding ↔ slot.count + t ≠ 0 := by
        intro t
        rw [UInt32.add_assoc, ne_eq, UInt32.add_eq_left]
      constructor
      · rintro ⟨hfirst, hrest⟩ l₁ l₂ l₃ h hne hne'
        cases l₁ with
        | nil =>
            cases l₂ with
            | nil => exact absurd rfl hne
            | cons slot' l₂ =>
                obtain ⟨rfl, hl⟩ := List.cons.inj h
                exact (hshift _).1 (hfirst l₂ l₃ hl hne')
        | cons slot' l₁ =>
            obtain ⟨rfl, hl⟩ := List.cons.inj h
            exact hrest l₁ l₂ l₃ hl hne hne'
      · intro h
        refine ⟨fun l₁ l₂ hrest hne => ?_, fun l₁ l₂ l₃ hrest hne hne' => ?_⟩
        · exact (hshift _).2 (h [] (slot :: l₁) l₂ (by rw [hrest]; rfl) (by simp) hne)
        · exact h (slot :: l₁) l₂ l₃ (by rw [hrest]; rfl) hne hne'

/-! ## The walks -/

def BufferResource.slot (_ : BufferResource) : Slot := ⟨.storageBuffer, 1⟩

def ImageResource.slot (desc : ImageResource) : Slot :=
  ⟨if desc.isWritten then .storageImage else .sampledImage, desc.numBindings⟩

def SamplerResource.slot (_ : SamplerResource) : Slot := ⟨.sampler, 1⟩

namespace Info

/-- The resources of a stage that have descriptors. -/
def slots (info : Info) : List Slot :=
  info.buffers.map BufferResource.slot ++ info.images.map ImageResource.slot ++
    info.samplers.map SamplerResource.slot

/-- The images need as many bindings as they are. -/
def OneEach (info : Info) : Prop :=
  total (info.images.map ImageResource.slot) = UInt32.ofNat info.images.length

end Info

theorem total_const {α : Type} (slot : α → Slot) (h : ∀ a, (slot a).count = 1) (l : List α) :
    total (l.map slot) = UInt32.ofNat l.length := by
  induction l with
  | nil => rfl
  | cons a rest ih =>
      rw [List.map_cons, total, ih, h, List.length_cons, UInt32.ofNat_add, UInt32.add_comm]
      rfl

theorem defineBuffers_eq (l : List BufferResource) (b : Bindings) :
    defineBuffers l b = (place (l.map BufferResource.slot) b.unified,
      { b with
        buffer := b.buffer + UInt32.ofNat l.length
        unified := b.unified + total (l.map BufferResource.slot) }) := by
  induction l generalizing b with
  | nil => simp [defineBuffers, place, total]
  | cons desc rest ih =>
      simp only [defineBuffers, ih, List.map_cons, place, total, List.length_cons,
        BufferResource.slot, BufferResource.isStorage, if_true, UInt32.add_assoc]
      rw [UInt32.ofNat_add, UInt32.add_comm (UInt32.ofNat rest.length)]
      rfl

theorem defineImages_eq (l : List ImageResource) (b : Bindings) :
    defineImages l b = (place (l.map ImageResource.slot) b.unified,
      { b with unified := b.unified + total (l.map ImageResource.slot) }) := by
  induction l generalizing b with
  | nil => simp [defineImages, place, total]
  | cons desc rest ih =>
      simp only [defineImages, ih, List.map_cons, place, total, ImageResource.slot,
        UInt32.add_assoc]

theorem defineSamplers_eq (l : List SamplerResource) (b : Bindings) :
    defineSamplers l b = (place (l.map SamplerResource.slot) b.unified,
      { b with unified := b.unified + total (l.map SamplerResource.slot) }) := by
  induction l generalizing b with
  | nil => simp [defineSamplers, place, total]
  | cons desc rest ih =>
      simp only [defineSamplers, ih, List.map_cons, place, total, SamplerResource.slot,
        UInt32.add_assoc]

theorem emitSPIRV_eq (info : Info) (b : Bindings) :
    emitSPIRV info b = (place info.slots b.unified,
      { unified := b.unified + total info.slots
        buffer := b.buffer + UInt32.ofNat info.buffers.length
        userData := b.userData + info.udMask.numRegs }) := by
  simp only [emitSPIRV, defineBuffers_eq, defineImages_eq, defineSamplers_eq, Info.slots,
    place_append, total_append, UInt32.add_assoc]

theorem layoutBuffers_eq (preloading : Bool) (l : List BufferResource) (binding : UInt32) :
    layoutBuffers preloading l binding = (place (l.map BufferResource.slot) binding,
      binding + total (l.map BufferResource.slot)) := by
  induction l generalizing binding with
  | nil => simp [layoutBuffers, place, total]
  | cons desc rest ih =>
      simp only [layoutBuffers, ih, List.map_cons, place, total, BufferResource.slot,
        BufferResource.isStorage, if_true, UInt32.add_assoc]

theorem layoutImages_eq (l : List ImageResource) (binding : UInt32) :
    layoutImages l binding = (place (l.map ImageResource.slot) binding,
      binding + total (l.map ImageResource.slot)) := by
  induction l generalizing binding with
  | nil => simp [layoutImages, place, total]
  | cons desc rest ih =>
      simp only [layoutImages, ih, List.map_cons, place, total, ImageResource.slot,
        UInt32.add_assoc]

theorem layoutSamplers_eq (l : List SamplerResource) (binding : UInt32) :
    layoutSamplers l binding = (place (l.map SamplerResource.slot) binding,
      binding + total (l.map SamplerResource.slot)) := by
  induction l generalizing binding with
  | nil => simp [layoutSamplers, place, total]
  | cons desc rest ih =>
      simp only [layoutSamplers, ih, List.map_cons, place, total, SamplerResource.slot,
        UInt32.add_assoc]

theorem layoutStage_eq (preloading : Bool) (info : Info) (binding : UInt32) :
    layoutStage preloading info binding =
      (place info.slots binding, binding + total info.slots) := by
  simp only [layoutStage, layoutBuffers_eq, layoutImages_eq, layoutSamplers_eq, Info.slots,
    place_append, total_append, UInt32.add_assoc]

theorem addBindings_eq_iff (info : Info) (b : Bindings) :
    info.addBindings b = (emitSPIRV info b).2 ↔ info.OneEach := by
  have hbuffers : total (info.buffers.map BufferResource.slot) =
      UInt32.ofNat info.buffers.length := total_const _ (fun _ => rfl) _
  have hsamplers : total (info.samplers.map SamplerResource.slot) =
      UInt32.ofNat info.samplers.length := total_const _ (fun _ => rfl) _
  rw [emitSPIRV_eq]
  simp only [Info.addBindings, Info.slots, Info.OneEach, total_append, hbuffers, hsamplers,
    UInt32.ofNat_add, Bindings.mk.injEq, and_true]
  constructor
  · intro h
    have h := (UInt32.add_right_inj _).1 h
    have h := (UInt32.add_left_inj _).1 h
    exact ((UInt32.add_right_inj _).1 h).symm
  · intro h
    rw [h]

/-! ## Pipelines -/

def StageRun.moduleInfo (st : StageRun) : Info :=
  match st.origin with
  | .compiled newInfo => newInfo
  | .found m => m.info

/-- Each module was emitted for the resources that its stage has, and one that was found from
the number of the first of them. -/
def ModulesFit : List StageRun → UInt32 → Prop
  | [], _ => True
  | st :: rest, binding =>
      st.moduleInfo.slots = st.info.slots ∧
        (∀ m, st.origin = .found m → st.info.slots ≠ [] → m.start.unified = binding) ∧
        ModulesFit rest (binding + total st.info.slots)

def pipelineSlots (stages : List StageRun) : List Slot := stages.flatMap fun st => st.info.slots

/-- No run of resources before another takes up no number. -/
def NoEmptyRun (l : List Slot) : Prop :=
  ∀ l₁ l₂ l₃, l = l₁ ++ l₂ ++ l₃ → l₂ ≠ [] → l₃ ≠ [] → total l₂ ≠ 0

theorem flatten_buildDescSetLayout (preloading : Bool) (stages : List StageRun)
    (binding : UInt32) :
    (buildDescSetLayout preloading (stages.map StageRun.info) binding).flatten =
      place (pipelineSlots stages) binding := by
  induction stages generalizing binding with
  | nil => rfl
  | cons st rest ih =>
      simp only [List.map_cons, buildDescSetLayout, layoutStage_eq, List.flatten_cons, ih,
        pipelineSlots, List.flatMap_cons, place_append]

theorem declared_eq_iff (m : ShaderModule) (info : Info) (binding : UInt32) :
    m.declared = place info.slots binding ↔
      m.info.slots = info.slots ∧ (info.slots ≠ [] → m.start.unified = binding) := by
  unfold ShaderModule.declared
  rw [emitSPIRV_eq, place_eq_iff]

theorem refreshStages_eq_iff {preloading : Bool} {stages : List StageRun}
    (hone : ∀ st ∈ stages, st.info.OneEach) {b : Bindings} :
    (refreshStages stages b).map ShaderModule.declared =
        buildDescSetLayout preloading (stages.map StageRun.info) b.unified ↔
      ModulesFit stages b.unified := by
  induction stages generalizing b with
  | nil => exact iff_of_true rfl True.intro
  | cons st rest ih =>
      have hrest := @ih fun st' h => hone st' (List.mem_cons_of_mem _ h)
      simp only [refreshStages, List.map_cons, buildDescSetLayout, layoutStage_eq,
        List.cons.injEq, declared_eq_iff, ModulesFit]
      rcases horigin : st.origin with newInfo | m
      · simp only [getProgram, horigin, StageRun.moduleInfo, emitSPIRV_eq, reduceCtorEq,
          false_imp_iff, implies_true, true_and, and_true]
        refine and_congr_right fun hslots => ?_
        rw [← hslots]
        exact hrest (b := ⟨_, _, _⟩)
      · have hadd := (addBindings_eq_iff st.info b).2 (hone st List.mem_cons_self)
        simp only [getProgram, horigin, StageRun.moduleInfo, Origin.found.injEq, forall_eq', hadd,
          emitSPIRV_eq, and_assoc]
        refine and_congr_right fun _ => and_congr_right fun _ => ?_
        exact hrest (b := ⟨_, _, _⟩)

/-- On a pipeline, `AddBindings` counts like `EmitSPIRV`, the modules declare what the layout
has, and no two resources share a number. -/
def NumberingAgrees (preloading : Bool) (stages : List StageRun) : Prop :=
  (∀ st ∈ stages, ∀ b, st.info.addBindings b = (emitSPIRV st.info b).2) ∧
    (refreshStages stages {}).map ShaderModule.declared =
      buildDescSetLayout preloading (stages.map StageRun.info) 0 ∧
    ((buildDescSetLayout preloading (stages.map StageRun.info) 0).flatten.map
      Descriptor.binding).Nodup

/-- The numbering agrees exactly when the images of each stage need as many bindings as they
are, the modules fit, and no run of resources takes up no number. -/
theorem numbering_agrees_iff (preloading : Bool) (stages : List StageRun) :
    NumberingAgrees preloading stages ↔
      (∀ st ∈ stages, st.info.OneEach) ∧ ModulesFit stages 0 ∧
        NoEmptyRun (pipelineSlots stages) := by
  have hcount : (∀ st ∈ stages, ∀ b, st.info.addBindings b = (emitSPIRV st.info b).2) ↔
      ∀ st ∈ stages, st.info.OneEach := by
    refine forall₂_congr fun st _ => ?_
    exact ⟨fun h => (addBindings_eq_iff _ {}).1 (h {}), fun h b => (addBindings_eq_iff _ b).2 h⟩
  unfold NumberingAgrees
  rw [hcount, flatten_buildDescSetLayout, nodup_place_iff]
  refine and_congr_right fun hone => and_congr_left fun _ => ?_
  exact refreshStages_eq_iff (b := {}) hone

/-- A fragment shader with a mip image of three levels is found in the cache; the buffer of
the vertex shader, which is compiled, is declared at 1 and placed at 3. -/
theorem numbering_differs :
    let fragment : Info :=
      { images := [{ sharp := ⟨0, 2⟩, isWritten := true, mipFallbackMode := .dynamicIndex }] }
    let vertex : Info := { buffers := [{}] }
    let stages : List StageRun :=
      [⟨fragment, .found ⟨{}, fragment⟩⟩, ⟨vertex, .compiled vertex⟩]
    ¬ NumberingAgrees false stages ∧
      (refreshStages stages {}).map ShaderModule.declared =
        [[⟨0, .storageImage, 3⟩], [⟨1, .storageBuffer, 1⟩]] ∧
      buildDescSetLayout false (stages.map StageRun.info) 0 =
        [[⟨0, .storageImage, 3⟩], [⟨3, .storageBuffer, 1⟩]] := by
  refine ⟨fun h => ?_, by decide, by decide⟩
  exact absurd h.2.1 (by decide)

end OrbitConsole.ShaderRecompiler
