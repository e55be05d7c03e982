import Mathlib.Data.List.TakeWhile
import Mathlib.Tactic.IntervalCases
import OrbitConsole.ShaderRecompiler.BarrierEvents
import OrbitConsole.ShaderRecompiler.SharedMemoryBarrierSpec

/-!
# Barriers along an execution

The blocks of an execution after the pass are those of before with barriers
placed; so the accesses of an execution are apart if and only if none of them
is exposed before the pass.
-/

namespace OrbitConsole.ShaderRecompiler

open MemoryEvent

variable {p : Program Datum} {list : List SyntaxNode}

/-! ### The events of a block -/

def Inst.event (inst : Inst Datum) : MemoryEvent :=
  if inst.isLoadShared then .access .load
  else if inst.isWriteShared then .access .write
  else if inst.op = .barrier then .barrier
  else .other

def BarrierAction.last : BarrierAction → Option Access
  | .none => Option.none
  | .barrierOnWrite => some .load
  | .barrierOnRead => some .write

@[simp] theorem BarrierAction.last_none : BarrierAction.none.last = Option.none := rfl
@[simp] theorem BarrierAction.last_write : BarrierAction.barrierOnWrite.last = some .load := rfl
@[simp] theorem BarrierAction.last_read : BarrierAction.barrierOnRead.last = some .write := rfl

theorem newBarrier_event (next : ℕ) : (newBarrier next).event = .barrier := rfl

theorem emitBarriers_event (action : BarrierAction) (next : ℕ) (insts : List (Inst Datum)) :
    (emitBarriers action next insts).1.map Inst.event =
        spread action.last (insts.map Inst.event) ∧
      (emitBarriers action next insts).2.1.last =
        lastAccess action.last (insts.map Inst.event) := by
  induction insts generalizing action next with
  | nil => exact ⟨rfl, rfl⟩
  | cons inst rest ih =>
      rw [List.map_cons]
      unfold emitBarriers
      split
      · next hload =>
          have hevent : inst.event = .access .load := by
            unfold Inst.event
            rw [if_pos hload]
          cases action <;>
            simp [hevent, newBarrier_event, spread, lastAccess, ih]
      · next hload =>
          split
          · next hwrite =>
              have hevent : inst.event = .access .write := by
                unfold Inst.event
                rw [if_neg hload, if_pos hwrite]
              cases action <;>
                simp [hevent, newBarrier_event, spread, lastAccess, ih]
          · next hwrite =>
              have hevent : inst.event = .barrier ∨ inst.event = .other := by
                unfold Inst.event
                rw [if_neg hload, if_neg hwrite]
                split
                · exact .inl rfl
                · exact .inr rfl
              rcases hevent with hevent | hevent <;>
                simp [hevent, spread, lastAccess, ih]

theorem lastAccess_eq_none_iff {last : Option Access} {events : List MemoryEvent} :
    lastAccess last events = none ↔ last = none ∧ events.any isAccess = false := by
  induction events generalizing last with
  | nil => simp [lastAccess]
  | cons z rest ih => cases z <;> simp [lastAccess, ih, isAccess]

theorem emitBarrierInBlock_event (next : ℕ) (insts : List (Inst Datum)) :
    (emitBarrierInBlock next insts).1.map Inst.event = placed (insts.map Inst.event) := by
  obtain ⟨hspread, hlast⟩ := emitBarriers_event .none next insts
  have haction : (emitBarriers .none next insts).2.1 ≠ .none ↔
      (insts.map Inst.event).any isAccess = true := by
    rw [← Bool.not_eq_false, not_iff_not]
    have hnone : (emitBarriers .none next insts).2.1 = .none ↔
        (emitBarriers .none next insts).2.1.last = none := by
      cases (emitBarriers .none next insts).2.1 <;> simp
    rw [hnone, hlast, lastAccess_eq_none_iff]
    simp
  unfold emitBarrierInBlock placed
  dsimp only
  rw [BarrierAction.last_none] at hspread
  rw [← hspread]
  split
  · next h =>
      rw [if_pos (haction.1 h)]
      simp [newBarrier_event]
  · next h => rw [if_neg fun h' => h (haction.2 h')]

theorem event_of_phi {inst : Inst Datum} (h : inst.op = .phi) : inst.event = .other := by
  simp [Inst.event, Inst.isLoadShared, Inst.isWriteShared, h]

/-! ### What becomes of a block -/

theorem visit_insts_of_ne (s : BarrierPass) {node : SyntaxNode} {b : ℕ}
    (hblock : node ≠ .block b) (hmerge : ∀ cond body, node ≠ .ifNode cond body b) :
    (s.visit p node).insts b = s.insts b := by
  cases node with
  | block b' =>
      have hne : b ≠ b' := by
        rintro rfl
        exact hblock rfl
      simp only [BarrierPass.visit]
      split
      · simp [Function.update_of_ne hne]
      · rfl
  | ifNode cond body merge =>
      have hne : b ≠ merge := by
        rintro rfl
        exact hmerge cond body rfl
      simp only [BarrierPass.visit, BarrierPass.emitBarrierInMergeBlock]
      split
      · split
        · simp [Function.update_of_ne hne]
        · rfl
      · rfl
  | endIf merge =>
      simp only [BarrierPass.visit]
      split <;> rfl
  | _ => rfl

theorem insts_of_untouched {b i k : ℕ} (hik : i ≤ k)
    (h : ∀ n, i ≤ n → n < k → list[n]? ≠ some (.block b) ∧
      ∀ cond body, list[n]? ≠ some (.ifNode cond body b)) :
    (barrierPassAfter p (list.take k)).insts b = (barrierPassAfter p (list.take i)).insts b := by
  induction hik with
  | refl => rfl
  | @step k hik ih =>
      rw [← ih fun n hn hlt => h n hn (by omega)]
      obtain ⟨hblock, hmerge⟩ := h k hik (by omega)
      cases hnode : list[k]? with
      | none =>
          rw [List.getElem?_eq_none_iff] at hnode
          rw [List.take_of_length_le hnode, List.take_of_length_le (by omega)]
      | some node =>
          rw [take_succ_eq hnode, barrierPassAfter_append]
          refine visit_insts_of_ne _ ?_ fun cond body => ?_
          · rintro rfl
            exact hblock hnode
          · rintro rfl
            exact hmerge cond body hnode

def MeetsAt (p : Program Datum) (list : List SyntaxNode) (j : ℕ) : Prop :=
  ∃ (i : ℕ) (b : ℕ) (cond : Value Datum) (body : ℕ), list[j]? = some (.block b) ∧
    list[i]? = some (.ifNode cond body b) ∧ Divergent p cond ∧ divergentDepth p list i = 0

namespace WellNested

variable {b j : ℕ} (h : WellNested list)
include h

theorem insts_before (hj : list[j]? = some (.block b)) :
    ¬ MeetsAt p list j ∧ (barrierPassAfter p (list.take j)).insts b = p.insts b ∨
    MeetsAt p list j ∧ ∃ next, (barrierPassAfter p (list.take j)).insts b =
      emitBarrierAfterPhis next (p.insts b) := by
  by_cases hif : ∃ (i : ℕ) (cond : Value Datum) (body : ℕ), list[i]? = some (.ifNode cond body b)
  · obtain ⟨i, cond, body, hi⟩ := hif
    obtain ⟨hij, -⟩ := h.merge_behind i j cond body b hi hj
    have huntouched : ∀ n, n < j → n ≠ i → list[n]? ≠ some (.block b) ∧
        ∀ cond body, list[n]? ≠ some (.ifNode cond body b) := by
      intro n hn hne
      refine ⟨fun hb => ?_, fun cond' body' hn' => hne ?_⟩
      · have := h.block_unique n j b hb hj
        omega
      · exact h.merge_unique n i _ _ _ _ b hn' hi
    have hstart : (barrierPassAfter p (list.take i)).insts b = p.insts b :=
      insts_of_untouched (Nat.zero_le i) fun n _ hn => huntouched n (by omega) (by omega)
    have hbehind : (barrierPassAfter p (list.take j)).insts b =
        (barrierPassAfter p (list.take (i + 1))).insts b :=
      insts_of_untouched hij fun n hn hn' => huntouched n hn' (by omega)
    have hmeets : MeetsAt p list j ↔ Divergent p cond ∧ divergentDepth p list i = 0 := by
      constructor
      · rintro ⟨i', b', cond', body', hj', hi', hdiv, hdepth⟩
        obtain rfl : b = b' := by simpa [hj] using hj'
        obtain rfl := h.merge_unique _ _ _ _ _ _ _ hi hi'
        rw [hi] at hi'
        cases hi'
        exact ⟨hdiv, hdepth⟩
      · exact fun hdiv => ⟨i, b, cond, body, hj, hi, hdiv⟩
    have hdepth := h.depth (p := p) (i := i) (by
      have := (List.getElem?_eq_some_iff.1 hi).1
      omega)
    rw [hbehind, hmeets, take_succ_eq hi, barrierPassAfter_append]
    simp only [BarrierPass.visit, BarrierPass.emitBarrierInMergeBlock,
      Program.isDivergentCond_iff, hdepth]
    by_cases hdiv : Divergent p cond
    · by_cases hzero : divergentDepth p list i = 0
      · right
        simp only [hdiv, hzero, if_true, Function.update_self, hstart, and_self, true_and]
        exact ⟨_, rfl⟩
      · left
        simp only [hdiv, hzero, if_true, if_false, and_false, not_false_eq_true, true_and]
        exact hstart
    · left
      simp only [hdiv, if_false, false_and, not_false_eq_true, true_and]
      exact hstart
  · left
    refine ⟨?_, ?_⟩
    · rintro ⟨i, b', cond, body, hj', hi, -⟩
      obtain rfl : b = b' := by simpa [hj] using hj'
      exact hif ⟨i, cond, body, hi⟩
    · refine insts_of_untouched (Nat.zero_le j) fun n _ hn =>
        ⟨fun hb => ?_, fun cond body hn' => ?_⟩
      · have := h.block_unique n j b hb hj
        omega
      · exact hif ⟨n, cond, body, hn'⟩

theorem insts_end (hj : list[j]? = some (.block b)) :
    divergentDepth p list j = 0 ∧ (∃ next, (barrierPassAfter p list).insts b =
      (emitBarrierInBlock next ((barrierPassAfter p (list.take j)).insts b)).1) ∨
    0 < divergentDepth p list j ∧
      (barrierPassAfter p list).insts b = (barrierPassAfter p (list.take j)).insts b := by
  have hlt := (List.getElem?_eq_some_iff.1 hj).1
  have hbehind : (barrierPassAfter p (list.take list.length)).insts b =
      (barrierPassAfter p (list.take (j + 1))).insts b := by
    refine insts_of_untouched hlt fun n hn _ => ⟨fun hb => ?_, fun cond body hn' => ?_⟩
    · have := h.block_unique n j b hb hj
      omega
    · have := (h.merge_behind n j cond body b hn' hj).1
      omega
  rw [List.take_length] at hbehind
  rw [hbehind, take_succ_eq hj, barrierPassAfter_append]
  simp only [BarrierPass.visit, h.depth (p := p) (Nat.le_of_lt hlt)]
  split
  · next hzero =>
      left
      refine ⟨hzero, (barrierPassAfter p (list.take j)).next, ?_⟩
      simp only [Function.update_self]
  · next hzero => exact .inr ⟨Nat.pos_of_ne_zero hzero, rfl⟩

theorem divergentDepth_of_meetsAt (hmeets : MeetsAt p list j) : divergentDepth p list j = 0 := by
  obtain ⟨i, b, cond, body, hj, hi, -, hzero⟩ := hmeets
  unfold divergentDepth at hzero ⊢
  rwa [(h.merge_behind i j cond body b hi hj).2]

theorem insts_nested (hj : list[j]? = some (.block b)) (hdepth : 0 < divergentDepth p list j) :
    (barrierPassAfter p list).insts b = p.insts b := by
  rcases h.insts_end (p := p) hj with ⟨hzero, -⟩ | ⟨-, heq⟩
  · omega
  · rcases h.insts_before (p := p) hj with ⟨-, hbefore⟩ | ⟨hmeets, -⟩
    · rw [heq, hbefore]
    · have := h.divergentDepth_of_meetsAt hmeets
      omega

end WellNested

/-! ### Executions -/

def CanFollow (list : List SyntaxNode) (i j : ℕ) : Prop :=
  match list[i]? with
  | some (.block _) | some (.endIf _) | some (.loop ..) => j = i + 1
  | some (.ifNode _ _ merge) => j = i + 1 ∨ list[j]? = some (.block merge)
  | some (.repeatNode _ loop_header _) => j = i + 1 ∨ list[j]? = some (.block loop_header)
  | some (.breakNode _ merge _) => j = i + 1 ∨ list[j]? = some (.block merge)
  | _ => False

def Execution (list : List SyntaxNode) (path : List ℕ) : Prop :=
  ∃ rest, path = 0 :: rest ∧ List.IsChain (CanFollow list) path

def nodeEvents (p : Program Datum) (list : List SyntaxNode) (insts : ℕ → List (Inst Datum))
    (i : ℕ) : List MemoryEvent :=
  match list[i]? with
  | some (.block b) =>
      let events := (insts b).map Inst.event
      if divergentDepth p list i = 0 then events
      else events.map fun z => if z.isAccess then .other else z
  | _ => []

/-- A node of an execution before the pass. -/
def nodeVisit (p : Program Datum) (list : List SyntaxNode) (i : ℕ) : Visit where
  events := nodeEvents p list p.insts i
  marked := MeetsAt p list i

/-- What the pass is to do: to keep the depth, to keep out of divergent branches, and to keep
the accesses of every execution apart. -/
structure BarriersComplete (info : BarrierInfo) (p : Program Datum) (list : List SyntaxNode) :
    Prop where
  depth : ∀ i ≤ list.length,
    (barrierPassAfter p (list.take i)).divergence_depth = divergentDepth p list i
  no_underflow : ∀ (i merge : ℕ), list[i]? = some (.endIf merge) →
    merge ∈ (barrierPassAfter p (list.take i)).divergence_end →
    0 < (barrierPassAfter p (list.take i)).divergence_depth
  depth_end : (barrierPassAfter p list).divergence_depth = 0
  nested : ∀ (i b : ℕ), list[i]? = some (.block b) → 0 < divergentDepth p list i →
    (sharedMemoryBarrierPass info p list).insts b = p.insts b
  separated : ∀ path, Execution list path →
    Separated (path.flatMap (nodeEvents p list (sharedMemoryBarrierPass info p list).insts))

theorem map_hide_not_access (events : List MemoryEvent) :
    ∀ z ∈ events.map (fun z => if z.isAccess then .other else z), z.isAccess = false := by
  intro z hz
  obtain ⟨w, -, rfl⟩ := List.mem_map.1 hz
  cases w <;> rfl

theorem emitBarrierAfterPhis_event (next : ℕ) (insts : List (Inst Datum)) :
    ∃ phis rest, insts.map Inst.event = phis ++ rest ∧ (∀ z ∈ phis, z = .other) ∧
      (emitBarrierAfterPhis next insts).map Inst.event = phis ++ .barrier :: rest := by
  refine ⟨(insts.takeWhile (·.op = .phi)).map Inst.event,
    (insts.dropWhile (·.op = .phi)).map Inst.event, ?_, fun z hz => ?_, ?_⟩
  · rw [← List.map_append, List.takeWhile_append_dropWhile]
  · obtain ⟨inst, hinst, rfl⟩ := List.mem_map.1 hz
    exact event_of_phi (by simpa using List.mem_takeWhile_imp hinst)
  · simp [emitBarrierAfterPhis, newBarrier_event]

theorem WellNested.placed (h : WellNested list) (i : ℕ) :
    (nodeVisit p list i).Placed (nodeEvents p list (barrierPassAfter p list).insts i) := by
  have hnone : ∀ events : List MemoryEvent, (∀ z ∈ events, z.isAccess = false) →
      ¬ MeetsAt p list i → Visit.Placed ⟨events, MeetsAt p list i⟩ events := by
    intro events hevents hmeets
    rw [eq_false hmeets]
    exact .kept hevents
  cases hnode : list[i]? with
  | none =>
      simp only [nodeVisit, nodeEvents, hnode]
      refine hnone [] (fun z hz => absurd hz List.not_mem_nil) ?_
      rintro ⟨_, _, _, _, hi, -⟩
      rw [hnode] at hi
      cases hi
  | some node =>
      cases node with
      | block b =>
          simp only [nodeVisit, nodeEvents, hnode]
          rcases h.insts_end (p := p) hnode with ⟨hzero, next, hend⟩ | ⟨hpos, hend⟩
          · simp only [hzero, if_true, hend, emitBarrierInBlock_event]
            rcases h.insts_before (p := p) hnode with ⟨hmeets, hbefore⟩ | ⟨hmeets, next', hbefore⟩
            · rw [hbefore, eq_false hmeets]
              exact .placed _
            · obtain ⟨phis, rest, hevents, hphis, hnew⟩ :=
                emitBarrierAfterPhis_event next' (p.insts b)
              rw [hbefore, hnew, hevents, eq_true hmeets]
              exact .marked hphis
          · have hne : divergentDepth p list i ≠ 0 := Nat.ne_of_gt hpos
            simp only [hne, if_false, h.insts_nested hnode hpos]
            exact hnone _ (map_hide_not_access _) fun hmeets =>
              hne (h.divergentDepth_of_meetsAt hmeets)
      | _ =>
          simp only [nodeVisit, nodeEvents, hnode]
          refine hnone [] (fun z hz => absurd hz List.not_mem_nil) ?_
          rintro ⟨_, _, _, _, hi, -⟩
          rw [hnode] at hi
          cases hi

theorem sharedMemoryBarrierPass_insts {info : BarrierInfo} (happlies : info.applies = true) :
    (sharedMemoryBarrierPass info p list).insts = (barrierPassAfter p list).insts := by
  unfold sharedMemoryBarrierPass
  rw [if_pos happlies]

theorem WellNested.separated_iff (h : WellNested list) {info : BarrierInfo}
    (happlies : info.applies = true) (path : List ℕ) :
    Separated (path.flatMap (nodeEvents p list (sharedMemoryBarrierPass info p list).insts)) ↔
      ¬ Exposed (path.map (nodeVisit p list)) := by
  have hplaced : ∀ w ∈ path.map (fun i =>
      (nodeVisit p list i, nodeEvents p list (barrierPassAfter p list).insts i)),
      w.1.Placed w.2 := by
    intro w hw
    obtain ⟨i, -, rfl⟩ := List.mem_map.1 hw
    exact h.placed i
  have hiff := MemoryEvent.separated_iff hplaced
  rw [List.flatMap_map, List.map_map] at hiff
  rwa [sharedMemoryBarrierPass_insts happlies]

/-- The pass does what it is to do if and only if no execution exposes an access: one that is
the last instruction of its block, and that one of the other kind follows, which is not the
last of its block, without a barrier or the end of a divergent branch in between. -/
theorem sharedMemoryBarrierPass_complete_iff {info : BarrierInfo} (happlies : info.applies = true)
    (h : WellNested list) : BarriersComplete info p list ↔
      ∀ path, Execution list path → ¬ Exposed (path.map (nodeVisit p list)) := by
  constructor
  · intro hcomplete path hpath
    exact (h.separated_iff happlies path).1 (hcomplete.separated path hpath)
  · intro hexposed
    refine ⟨fun i hi => h.depth hi, fun i merge hi hends => h.pos_of_endIf hi hends,
      h.depth_end, ?_, ?_⟩
    · intro i b hi hpos
      rw [sharedMemoryBarrierPass_insts happlies]
      exact h.insts_nested hi hpos
    · intro path hpath
      exact (h.separated_iff happlies path).2 (hexposed path hpath)

/-! A store in front of a loop, with a load at the start of the loop's body. -/

def storeThenLoop : Program Datum where
  entry := 0
  numBlocks := 5
  insts b :=
    match b with
    | 0 => [{ id := 0, op := .writeSharedU32, args := [.imm (.u32 0), .imm (.u32 1)] }]
    | 2 =>
        [{ id := 1, op := .loadSharedU32, args := [.imm (.u32 0)] },
          { id := 2, op := .iEqual32, args := [.inst 1, .imm (.u32 0)] }]
    | 3 => [{ id := 3, op := .conditionRef, args := [.inst 2] }]
    | 4 => [{ id := 4, op := .epilogue }]
    | _ => []
  terminator _ := .exit
  postOrderBlocks := [4, 3, 2, 1, 0]

def storeThenLoopList : List SyntaxNode :=
  [.block 0, .block 1, .loop 2 3 4, .block 2, .block 3, .repeatNode (.inst 3) 1 4, .block 4,
    .returnNode]

def oneSubgroup : BarrierInfo where
  isCompute := true
  shared_memory_size := 1024
  workgroup_size := (64, 1, 1)
  needs_lds_barriers := true

theorem storeThenLoopList_wellNested : WellNested storeThenLoopList := by
  have hif : ∀ (i : ℕ) cond body merge,
      storeThenLoopList[i]? ≠ some (.ifNode cond body merge) := by
    intro i cond body merge hi
    have := List.mem_of_getElem? hi
    simp [storeThenLoopList] at this
  have hblock : ∀ i b : ℕ, storeThenLoopList[i]? = some (.block b) →
      i = [0, 1, 3, 4, 6].getD b 0 := by
    intro i b hi
    have hlt := (List.getElem?_eq_some_iff.1 hi).1
    simp only [storeThenLoopList, List.length_cons, List.length_nil] at hlt
    interval_cases i <;> cases hi <;> rfl
  refine ⟨by decide, fun i merge hi => ?_, rfl, ?_, ?_, ?_⟩
  · have := List.mem_of_getElem? hi
    simp [storeThenLoopList] at this
  · exact fun i j cond cond' body body' merge hi => absurd hi (hif i cond body merge)
  · exact fun i j b hi hj => (hblock i b hi).trans (hblock j b hj).symm
  · exact fun i j cond body merge hi => absurd hi (hif i cond body merge)

theorem sharedMemoryBarrierPass_complete_iff_loop :
    BarriersComplete oneSubgroup storeThenLoop storeThenLoopList ↔
      ∀ path, Execution storeThenLoopList path →
        ¬ Exposed (path.map (nodeVisit storeThenLoop storeThenLoopList)) :=
  sharedMemoryBarrierPass_complete_iff rfl storeThenLoopList_wellNested

/-- The barrier of the first block stands before the store, and the load has none. -/
theorem sharedMemoryBarrierPass_fails :
    oneSubgroup.applies = true ∧ WellNested storeThenLoopList ∧
      ¬ BarriersComplete oneSubgroup storeThenLoop storeThenLoopList := by
  refine ⟨rfl, storeThenLoopList_wellNested, fun hcomplete => ?_⟩
  have hpath : Execution storeThenLoopList [0, 1, 2, 3] := by
    refine ⟨[1, 2, 3], rfl, ?_⟩
    simp [CanFollow, storeThenLoopList]
  have hmeets : ∀ j, ¬ MeetsAt storeThenLoop storeThenLoopList j := by
    rintro j ⟨i, b, cond, body, -, hi, -⟩
    have := List.mem_of_getElem? hi
    simp [storeThenLoopList] at this
  refine (storeThenLoopList_wellNested.separated_iff rfl [0, 1, 2, 3]).1
    (hcomplete.separated _ hpath) ?_
  refine ⟨[], nodeVisit storeThenLoop storeThenLoopList 0,
    [nodeVisit storeThenLoop storeThenLoopList 1, nodeVisit storeThenLoop storeThenLoopList 2],
    nodeVisit storeThenLoop storeThenLoopList 3, [], .write, .load, [], [.other], rfl,
    by decide, by decide, by decide, by decide, by simp, hmeets 3, ?_⟩
  intro w hw
  simp only [List.mem_cons, List.not_mem_nil, or_false] at hw
  rcases hw with rfl | rfl
  · exact ⟨hmeets 1, by decide⟩
  · exact ⟨hmeets 2, by decide⟩

end OrbitConsole.ShaderRecompiler
