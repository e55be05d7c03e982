import Mathlib.Data.List.Basic
import OrbitConsole.VideoCore.DynamicState

/-!
# Dynamic state is recorded before a draw

A state that is not dirty was recorded with its value in this command buffer, and one that is dirty
was changed or invalidated since it was recorded. Recording keeps both, and after `Commit` a state
is dirty only where the test that it is for is disabled.
-/

namespace OrbitConsole.VideoCore

open Function (update update_of_ne update_self)

namespace Dynamic

/-! ### What is in the command buffer -/

/-- The values last recorded in the current command buffer. -/
def recorded : List Event → (s : StateName) → Option s.Value
  | [] => fun _ => none
  | .began :: _ => fun _ => none
  | .invalidated :: log => recorded log
  | .changed _ :: log => recorded log
  | .set s v :: log => update (recorded log) s (some v)
  | .setFrontAndBack part v :: log =>
      update (update (recorded log) (.stencil_front part) (some v))
        (.stencil_back part) (some v)

def Event.records (s : StateName) : Event → Prop
  | .set s' _ => s = s'
  | .setFrontAndBack part _ => s = .stencil_front part ∨ s = .stencil_back part
  | _ => False

def Event.renews (s : StateName) : Event → Prop
  | .began => True
  | .invalidated => True
  | .changed s' => s = s'
  | _ => False

/-- Since the state was last recorded it was changed or invalidated. -/
def Fresh (s : StateName) : List Event → Prop
  | [] => True
  | e :: log => e.renews s ∨ ¬ e.records s ∧ Fresh s log

def RecordsFresh : List Event → Prop
  | [] => True
  | e :: log => (∀ s, e.records s → Fresh s log) ∧ RecordsFresh log

theorem Fresh.exists_renews {s : StateName} {e : Event} {older : List Event} (he : e.records s) :
    ∀ {mid : List Event}, Fresh s (mid ++ e :: older) → ∃ e' ∈ mid, e'.renews s
  | [], h => by
      obtain hrenews | hnot := h
      · cases e <;> first | exact absurd he id | exact absurd hrenews id
      · exact absurd he hnot.1
  | e' :: mid, h => by
      obtain hrenews | hnot := h
      · exact ⟨e', .head _, hrenews⟩
      · obtain ⟨e'', hmem, hrenews⟩ := Fresh.exists_renews he hnot.2
        exact ⟨e'', .tail _ hmem, hrenews⟩

theorem RecordsFresh.exists_renews {s : StateName} {e₁ e₂ : Event} {mid older : List Event}
    (h₁ : e₁.records s) (h₂ : e₂.records s) :
    ∀ {newer : List Event}, RecordsFresh (newer ++ e₂ :: (mid ++ e₁ :: older)) →
      ∃ e ∈ mid, e.renews s
  | [], h => Fresh.exists_renews h₁ (h.1 s h₂)
  | _ :: _, h => RecordsFresh.exists_renews h₁ h₂ h.2

/-! ### The states of a device -/

/-- Whether the device has the command for the state. -/
def supported (inst : Instance) : StateName → Bool
  | .depth_bounds_test_enabled => inst.depthBounds
  | .depth_bounds => inst.depthBounds
  | .color_write_masks => inst.dynamicColorWriteMask
  | .feedback_loop_enabled => inst.attachmentFeedbackLoopLayout
  | _ => true

def enabled (d : DynamicState) : StateName → Bool
  | .depth_compare_op => d.depth_test_enabled
  | .depth_bounds => d.depth_bounds_test_enabled
  | .depth_bias => d.depth_bias_enabled
  | .stencil_front _ => d.stencil_test_enabled
  | .stencil_back _ => d.stencil_test_enabled
  | _ => true

namespace Session

variable {inst : Instance} {w w' : Session} {s s' : StateName} {part : StencilPart}

structure Inv (inst : Instance) (w : Session) : Prop where
  recorded_eq : ∀ s, supported inst s = true → w.state.dirty_state s = false →
    recorded w.log s = some (w.state.tracked s)
  unsupported : ∀ s, supported inst s = false → recorded w.log s = none
  fresh : ∀ s, w.state.dirty_state s = true → Fresh s w.log
  recordsFresh : RecordsFresh w.log

/-! ### Setters -/

theorem Inv.set (h : Inv inst w) (s : StateName) (v : s.Value) : Inv inst (w.set s v) := by
  unfold Session.set
  split
  · refine ⟨fun s' hs' hd => ?_, h.unsupported, fun s' hd => ?_,
      ⟨fun _ he => absurd he id, h.recordsFresh⟩⟩
    · dsimp only at hd ⊢
      have hne : s' ≠ s := by
        rintro rfl
        rw [update_self] at hd
        cases hd
      rw [update_of_ne hne] at hd ⊢
      exact h.recorded_eq s' hs' hd
    · by_cases hs : s' = s
      · exact .inl hs
      · dsimp only at hd
        rw [update_of_ne hs] at hd
        exact .inr ⟨id, h.fresh s' hd⟩
  · exact h

theorem Inv.setStencil (h : Inv inst w) (part : StencilPart) (front back : part.Value) :
    Inv inst (w.setStencil part front back) :=
  (h.set (.stencil_front part) front).set (.stencil_back part) back

theorem Inv.invalidate (h : Inv inst w) : Inv inst w.invalidate where
  recorded_eq _ _ hd := nomatch hd
  unsupported := h.unsupported
  fresh _ _ := .inl trivial
  recordsFresh := ⟨fun _ he => absurd he id, h.recordsFresh⟩

theorem inv_allocateWorkerCommandBuffers (h : RecordsFresh w.log) :
    Inv inst w.allocateWorkerCommandBuffers where
  recorded_eq _ _ hd := nomatch hd
  unsupported _ _ := rfl
  fresh _ _ := .inl trivial
  recordsFresh := ⟨fun _ he => absurd he id, fun _ he => absurd he id, h⟩

/-! ### Recording -/

/-- What recording does: the tracked values stay, and nothing becomes dirty. -/
structure Flushes (inst : Instance) (w w' : Session) : Prop where
  tracked : w'.state.tracked = w.state.tracked
  dirty_state : ∀ s, w.state.dirty_state s = false → w'.state.dirty_state s = false
  inv : Inv inst w → Inv inst w'

theorem Flushes.refl : Flushes inst w w := ⟨rfl, fun _ h => h, id⟩

theorem Flushes.trans {w'' : Session} (h : Flushes inst w w') (h' : Flushes inst w' w'') :
    Flushes inst w w'' :=
  ⟨h'.tracked.trans h.tracked, fun s hs => h'.dirty_state s (h.dirty_state s hs),
    fun hi => h'.inv (h.inv hi)⟩

theorem clear_dirty_state : (clear s w).state.dirty_state s = false := update_self ..

theorem clear_dirty_state_of_eq_false (h : w.state.dirty_state s' = false) :
    (clear s w).state.dirty_state s' = false := by
  by_cases hs : s' = s
  · subst hs
    exact clear_dirty_state
  · exact (update_of_ne hs ..).trans h

theorem of_clear_dirty_state (h : (clear s w).state.dirty_state s' = true) :
    s' ≠ s ∧ w.state.dirty_state s' = true := by
  have hs : s' ≠ s := by
    rintro rfl
    rw [clear_dirty_state] at h
    cases h
  exact ⟨hs, (update_of_ne hs ..).symm.trans h⟩

theorem Inv.clear_of_unsupported (h : Inv inst w) (hs : supported inst s = false) :
    Inv inst (clear s w) where
  recorded_eq s' hs' hd := by
    have hne : s' ≠ s := fun heq => by
      rw [heq, hs] at hs'
      cases hs'
    exact h.recorded_eq s' hs' ((update_of_ne hne ..).symm.trans hd)
  unsupported := h.unsupported
  fresh s' hd := h.fresh s' (of_clear_dirty_state hd).2
  recordsFresh := h.recordsFresh

theorem Inv.record_set (h : Inv inst w) (hs : supported inst s = true)
    (hd : w.state.dirty_state s = true) :
    Inv inst (record (.set s (w.state.tracked s)) (clear s w)) where
  recorded_eq s' hs' hd' := by
    by_cases heq : s' = s
    · subst heq
      exact update_self ..
    · exact (update_of_ne heq ..).trans
        (h.recorded_eq s' hs' ((update_of_ne heq ..).symm.trans hd'))
  unsupported s' hs' := by
    have hne : s' ≠ s := fun heq => by
      rw [heq, hs] at hs'
      cases hs'
    exact (update_of_ne hne ..).trans (h.unsupported s' hs')
  fresh s' hd' := by
    obtain ⟨hne, hd'⟩ := of_clear_dirty_state hd'
    exact .inr ⟨hne, h.fresh s' hd'⟩
  recordsFresh := ⟨fun s' he => by subst he; exact h.fresh s' hd, h.recordsFresh⟩

theorem flushSupported_flushes (s : StateName) :
    Flushes inst w (flushSupported (supported inst s) s w) := by
  unfold flushSupported
  split
  · next hd =>
      split
      · next hs =>
          exact ⟨rfl, fun _ => clear_dirty_state_of_eq_false, fun h => h.record_set hs hd⟩
      · next hs =>
          exact ⟨rfl, fun _ => clear_dirty_state_of_eq_false,
            fun h => h.clear_of_unsupported (Bool.eq_false_of_not_eq_true hs)⟩
  · exact .refl

theorem flushSupported_dirty_state (b : Bool) :
    (flushSupported b s w).state.dirty_state s = false := by
  unfold flushSupported
  split
  · split <;> exact clear_dirty_state
  · next hd => exact Bool.eq_false_of_not_eq_true hd

theorem flush_flushes (hs : supported inst s = true) : Flushes inst w (flush s w) := by
  have h : Flushes inst w (flushSupported (supported inst s) s w) := flushSupported_flushes s
  rw [hs] at h
  exact h

theorem flush_dirty_state : (flush s w).state.dirty_state s = false :=
  flushSupported_dirty_state true

theorem Inv.record_setFrontAndBack (h : Inv inst w)
    (hfront : w.state.dirty_state (.stencil_front part) = true)
    (hback : w.state.dirty_state (.stencil_back part) = true)
    (heq : w.state.tracked (.stencil_front part) = w.state.tracked (.stencil_back part)) :
    Inv inst (record (.setFrontAndBack part (w.state.tracked (.stencil_front part)))
      (clear (.stencil_back part) (clear (.stencil_front part) w))) where
  recorded_eq s hs hd := by
    by_cases hb : s = .stencil_back part
    · subst hb
      exact (update_self ..).trans (congrArg some heq)
    · refine (update_of_ne hb ..).trans ?_
      by_cases hf : s = .stencil_front part
      · subst hf
        exact update_self ..
      · refine (update_of_ne hf ..).trans (h.recorded_eq s hs ?_)
        exact (update_of_ne hf ..).symm.trans
          ((update_of_ne hb ..).symm.trans hd)
  unsupported s hs := by
    have hb : s ≠ .stencil_back part := by
      rintro rfl
      cases hs
    have hf : s ≠ .stencil_front part := by
      rintro rfl
      cases hs
    exact (update_of_ne hb ..).trans
      ((update_of_ne hf ..).trans (h.unsupported s hs))
  fresh s hd := by
    obtain ⟨hb, hd⟩ := of_clear_dirty_state hd
    obtain ⟨hf, hd⟩ := of_clear_dirty_state hd
    exact .inr ⟨fun he => he.elim hf hb, h.fresh s hd⟩
  recordsFresh := by
    refine ⟨fun s he => ?_, h.recordsFresh⟩
    obtain rfl | rfl := he
    · exact h.fresh _ hfront
    · exact h.fresh _ hback

theorem flushStencil_flushes : Flushes inst w (flushStencil part w) := by
  unfold flushStencil
  split
  · next hcond =>
      obtain ⟨hdirty, heq⟩ := hcond
      obtain ⟨hfront, hback⟩ := (Bool.and_eq_true_iff).1 hdirty
      exact ⟨rfl, fun _ h => clear_dirty_state_of_eq_false (clear_dirty_state_of_eq_false h),
        fun h => h.record_setFrontAndBack hfront hback heq⟩
  · exact (flush_flushes rfl).trans (flush_flushes rfl)

theorem flushStencil_dirty_state :
    (flushStencil part w).state.dirty_state (.stencil_front part) = false ∧
      (flushStencil part w).state.dirty_state (.stencil_back part) = false := by
  unfold flushStencil
  split
  · exact ⟨clear_dirty_state_of_eq_false clear_dirty_state, clear_dirty_state⟩
  · have hback (w : Session) : Flushes ⟨true, true, true⟩ w (flush (.stencil_back part) w) :=
      flush_flushes rfl
    exact ⟨(hback _).dirty_state _ flush_dirty_state, flush_dirty_state⟩

theorem when_flushes {cond : DynamicState → Bool} {f : Session → Session}
    (h : cond w.state = true → Flushes inst w (f w)) : Flushes inst w (when cond f w) := by
  unfold when
  split
  · next hcond => exact h hcond
  · exact .refl

theorem commitParts_flushes (inst : Instance) :
    (commitParts inst).Forall fun part => ∀ w, Flushes inst w (part w) := by
  have hstencil (w : Session) : Flushes inst w (flushStencil .compare_mask (flushStencil .write_mask
      (flushStencil .reference (flushStencil .ops w)))) :=
    flushStencil_flushes.trans (flushStencil_flushes.trans
      (flushStencil_flushes.trans flushStencil_flushes))
  exact ⟨fun _ => flush_flushes rfl, fun _ => flush_flushes rfl, fun _ => flush_flushes rfl,
    fun _ => flush_flushes rfl, fun _ => when_flushes fun _ => flush_flushes rfl,
    fun _ => flushSupported_flushes .depth_bounds_test_enabled,
    fun _ => when_flushes fun _ => flushSupported_flushes .depth_bounds,
    fun _ => flush_flushes rfl, fun _ => when_flushes fun _ => flush_flushes rfl,
    fun _ => flush_flushes rfl, fun w => when_flushes fun _ => hstencil w,
    fun _ => flush_flushes rfl, fun _ => flush_flushes rfl, fun _ => flush_flushes rfl,
    fun _ => flush_flushes rfl, fun _ => flush_flushes rfl,
    fun _ => flushSupported_flushes .color_write_masks,
    fun _ => flush_flushes rfl, fun _ => when_flushes fun h => flush_flushes h⟩

theorem foldl_flushes {parts : List (Session → Session)}
    (h : ∀ part ∈ parts, ∀ w, Flushes inst w (part w)) :
    Flushes inst w (parts.foldl (fun w part => part w) w) := by
  induction parts generalizing w with
  | nil => exact .refl
  | cons part rest ih =>
      exact (h part (.head _) w).trans (ih fun part hmem => h part (.tail _ hmem))

theorem commit_flushes : Flushes inst w (commit inst w) :=
  foldl_flushes (List.forall_iff_forall_mem.1 (commitParts_flushes inst))

def Cleans (s : StateName) (part : Session → Session) : Prop :=
  ∀ w, enabled w.state s = true → (part w).state.dirty_state s = false

theorem enabled_congr {d d' : DynamicState} (h : d'.tracked = d.tracked) (s : StateName) :
    enabled d' s = enabled d s := by
  cases s <;> first | rfl | exact congrFun h _

theorem foldl_cleans {parts : List (Session → Session)}
    (h : ∀ part ∈ parts, ∀ w, Flushes inst w (part w)) (hclean : ∃ part ∈ parts, Cleans s part)
    (hs : enabled w.state s = true) :
    (parts.foldl (fun w part => part w) w).state.dirty_state s = false := by
  induction parts generalizing w with
  | nil =>
      obtain ⟨_, hmem, _⟩ := hclean
      cases hmem
  | cons part rest ih =>
      have hrest : ∀ part ∈ rest, ∀ w, Flushes inst w (part w) :=
        fun part hmem => h part (.tail _ hmem)
      have hpart := h part (.head _) w
      obtain ⟨part', hmem, hclean⟩ := hclean
      obtain rfl | hmem := List.mem_cons.1 hmem
      · exact (foldl_flushes hrest).dirty_state s (hclean w hs)
      · exact ih hrest ⟨part', hmem, hclean⟩ ((enabled_congr hpart.tracked s).trans hs)

theorem cleans_flush : Cleans s (flush s) := fun _ _ => flush_dirty_state

theorem cleans_flushSupported {b : Bool} : Cleans s (flushSupported b s) :=
  fun _ _ => flushSupported_dirty_state b

theorem cleans_when {cond : DynamicState → Bool} {part : Session → Session}
    (hcond : ∀ d, enabled d s = true → cond d = true) (h : Cleans s part) :
    Cleans s (when cond part) := by
  intro w hs
  rw [when, if_pos (hcond w.state hs)]
  exact h w hs

theorem cleans_stencil (part : StencilPart) :
    (∀ w, (flushStencil .compare_mask (flushStencil .write_mask
      (flushStencil .reference (flushStencil .ops w)))).state.dirty_state
        (.stencil_front part) = false) ∧
    ∀ w, (flushStencil .compare_mask (flushStencil .write_mask
      (flushStencil .reference (flushStencil .ops w)))).state.dirty_state
        (.stencil_back part) = false := by
  have keeps {p : StencilPart} {w : Session} {s : StateName}
      (h : w.state.dirty_state s = false) : (flushStencil p w).state.dirty_state s = false :=
    have hpart : Flushes ⟨true, true, true⟩ w (flushStencil p w) := flushStencil_flushes
    hpart.dirty_state s h
  cases part with
  | ops =>
      exact ⟨fun _ => keeps (keeps (keeps flushStencil_dirty_state.1)),
        fun _ => keeps (keeps (keeps flushStencil_dirty_state.2))⟩
  | reference =>
      exact ⟨fun _ => keeps (keeps flushStencil_dirty_state.1),
        fun _ => keeps (keeps flushStencil_dirty_state.2)⟩
  | write_mask =>
      exact ⟨fun _ => keeps flushStencil_dirty_state.1, fun _ => keeps flushStencil_dirty_state.2⟩
  | compare_mask =>
      exact ⟨fun _ => flushStencil_dirty_state.1, fun _ => flushStencil_dirty_state.2⟩

theorem exists_cleans (hs : supported inst s = true) :
    ∃ part ∈ commitParts inst, Cleans s part := by
  have at_index {part : Session → Session} (i : ℕ) (hi : (commitParts inst)[i]? = some part)
      (h : Cleans s part) : ∃ part ∈ commitParts inst, Cleans s part :=
    ⟨part, List.mem_of_getElem? hi, h⟩
  cases s with
  | viewports => exact at_index 0 rfl cleans_flush
  | scissors => exact at_index 1 rfl cleans_flush
  | depth_test_enabled => exact at_index 2 rfl cleans_flush
  | depth_write_enabled => exact at_index 3 rfl cleans_flush
  | depth_compare_op => exact at_index 4 rfl (cleans_when (fun _ h => h) cleans_flush)
  | depth_bounds_test_enabled => exact at_index 5 rfl cleans_flushSupported
  | depth_bounds => exact at_index 6 rfl (cleans_when (fun _ h => h) cleans_flushSupported)
  | depth_bias_enabled => exact at_index 7 rfl cleans_flush
  | depth_bias => exact at_index 8 rfl (cleans_when (fun _ h => h) cleans_flush)
  | stencil_test_enabled => exact at_index 9 rfl cleans_flush
  | stencil_front part =>
      exact at_index 10 rfl (cleans_when (fun _ h => h) fun w _ => (cleans_stencil part).1 w)
  | stencil_back part =>
      exact at_index 10 rfl (cleans_when (fun _ h => h) fun w _ => (cleans_stencil part).2 w)
  | primitive_restart_enable => exact at_index 11 rfl cleans_flush
  | rasterizer_discard_enable => exact at_index 12 rfl cleans_flush
  | cull_mode => exact at_index 13 rfl cleans_flush
  | front_face => exact at_index 14 rfl cleans_flush
  | blend_constants => exact at_index 15 rfl cleans_flush
  | color_write_masks => exact at_index 16 rfl cleans_flushSupported
  | line_width => exact at_index 17 rfl cleans_flush
  | feedback_loop_enabled => exact at_index 18 rfl (cleans_when (fun _ _ => hs) cleans_flush)

theorem commit_dirty_state (hs : supported inst s = true) (he : enabled w.state s = true) :
    (commit inst w).state.dirty_state s = false :=
  foldl_cleans (List.forall_iff_forall_mem.1 (commitParts_flushes inst)) (exists_cleans hs) he

/-! ### Runs -/

/-- A state that is clean has been recorded with its value, after every operation. -/
theorem Inv.step (h : Inv inst w) (op : Op) : Inv inst (w.step inst op) := by
  cases op with
  | setStencilOps front back => exact h.setStencil .ops front back
  | setStencilReferences front back => exact h.setStencil .reference front back
  | setStencilWriteMasks front back => exact h.setStencil .write_mask front back
  | setStencilCompareMasks front back => exact h.setStencil .compare_mask front back
  | invalidate => exact h.invalidate
  | allocateWorkerCommandBuffers => exact inv_allocateWorkerCommandBuffers h.recordsFresh
  | commit => exact commit_flushes.inv h
  | _ => exact h.set _ _

theorem Inv.foldl_step (h : Inv inst w) (ops : List Op) :
    Inv inst (ops.foldl (Session.step inst) w) := by
  induction ops generalizing w with
  | nil => exact h
  | cons op rest ih => exact ih (h.step op)

/-- By induction on the operations. -/
theorem inv_run (inst : Instance) (ops : List Op) : Inv inst (run inst ops) :=
  (inv_allocateWorkerCommandBuffers (w := {}) trivial).foldl_step ops

/-- A device without depth bounds has no command for the test. -/
theorem depth_bounds_not_recorded :
    ¬ ∀ (inst : Instance) (ops : List Op) (s : StateName),
      enabled (commit inst (run inst ops)).state s = true →
      recorded (commit inst (run inst ops)).log s =
        some ((commit inst (run inst ops)).state.tracked s) := by
  intro h
  exact absurd (h ⟨false, true, true⟩ [] .depth_bounds_test_enabled rfl) (by decide)

/-- After `Commit` in any run: of each state that the device has, unless the test that it is for is
disabled, the tracked value was last recorded in the command buffer; the others were never
recorded. No state is recorded twice in a run unless it was changed or invalidated in between. -/
theorem commit_recorded (inst : Instance) (ops : List Op) :
    (∀ s, supported inst s = true → enabled (commit inst (run inst ops)).state s = true →
      recorded (commit inst (run inst ops)).log s =
        some ((commit inst (run inst ops)).state.tracked s)) ∧
    (∀ s, supported inst s = false → recorded (commit inst (run inst ops)).log s = none) ∧
    ∀ (s : StateName) (newer mid older : List Event) (e₁ e₂ : Event),
      (run inst ops).log = newer ++ e₂ :: (mid ++ e₁ :: older) →
      e₁.records s → e₂.records s → ∃ e ∈ mid, e.renews s := by
  have hinv : Inv inst (commit inst (run inst ops)) := commit_flushes.inv (inv_run inst ops)
  refine ⟨fun s hs he => ?_, hinv.unsupported, fun s newer mid older e₁ e₂ hlog h₁ h₂ => ?_⟩
  · rw [enabled_congr commit_flushes.tracked] at he
    exact hinv.recorded_eq s hs (commit_dirty_state hs he)
  · have hfresh := (inv_run inst ops).recordsFresh
    rw [hlog] at hfresh
    exact hfresh.exists_renews h₁ h₂

end Session

end Dynamic

end OrbitConsole.VideoCore
