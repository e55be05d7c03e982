import Mathlib.Data.List.Induction
import OrbitConsole.ShaderRecompiler.SharedMemoryBarrier

/-!
# Where barriers are missing

The depth that the pass keeps is that of the divergent branches around a node,
and inside of one it inserts nothing. In and behind a block the accesses are
separated, but for an access that is the last instruction of its block: the
barrier of the block stands before it.
-/

namespace OrbitConsole.ShaderRecompiler

variable {p : Program Datum} {list : List SyntaxNode}

/-! ### Divergence -/

/-- The condition depends on the number of the invocation. -/
def Divergent (p : Program Datum) (cond : Value Datum) : Prop :=
  ∃ id, p.instRecursive cond = some id ∧
    Search.Reaches p.operandInsts p.readsLocalInvocationId id

namespace Program

theorem find?_of_resolve {fuel id : ℕ} {value : Value Datum}
    (h : p.resolve fuel value = .ok (.inst id)) : ∃ j, p.find? id = some j := by
  induction fuel generalizing value with
  | zero => cases value <;> cases h
  | succ fuel ih =>
      cases value with
      | imm v => cases h
      | inst id' =>
          unfold resolve at h
          split at h
          · cases h
          · next j hj =>
              split at h
              · split at h
                · exact ih h
                · cases h
              · cases h
                exact ⟨j, hj⟩

theorem mem_of_instRecursive {value : Value Datum} {id : ℕ}
    (h : p.instRecursive value = some id) : id ∈ p.all.map Inst.id := by
  unfold instRecursive at h
  split at h
  · next hresolve =>
      cases h
      obtain ⟨j, hj⟩ := find?_of_resolve hresolve
      exact List.mem_map.2 ⟨j, List.mem_of_find?_eq_some hj, by simpa using List.find?_some hj⟩
  · cases h

theorem mem_of_operandInsts {id id' : ℕ} (h : id' ∈ p.operandInsts id) :
    id' ∈ p.all.map Inst.id := by
  unfold operandInsts at h
  split at h
  · cases h
  · obtain ⟨value, -, hvalue⟩ := List.mem_filterMap.1 h
    exact mem_of_instRecursive hvalue

theorem isDivergentCond_iff (cond : Value Datum) :
    p.isDivergentCond cond = true ↔ Divergent p cond := by
  unfold isDivergentCond Divergent
  split
  · next hnone => simp [hnone]
  · next id hid =>
      have hsucc : ∀ x ∈ p.all.map Inst.id, ∀ y ∈ p.operandInsts x, y ∈ p.all.map Inst.id :=
        fun x _ y hy => mem_of_operandInsts hy
      obtain ⟨found, hsearch, hfound⟩ :=
        Search.search_spec (p := p.readsLocalInvocationId) (mem_of_instRecursive hid) hsucc
      rw [List.length_map] at hsearch
      have hiff : (∃ id', p.instRecursive cond = some id' ∧
          Search.Reaches p.operandInsts p.readsLocalInvocationId id') ↔
          Search.Reaches p.operandInsts p.readsLocalInvocationId id := by
        rw [hid]
        simp
      rw [hiff]
      split
      · next hroot => exact iff_of_true rfl ⟨id, .refl, hroot⟩
      · rw [hsearch, decide_eq_true_eq, Option.some_inj, hfound]

instance (cond : Value Datum) : Decidable (Divergent p cond) :=
  decidable_of_iff _ (isDivergentCond_iff cond)

end Program

/-! ### Nesting -/

/-- The Ifs that are open behind a part of a syntax list, as conditions and merge blocks, the
innermost first. -/
def opened (nodes : List SyntaxNode) : List (Value Datum × ℕ) :=
  nodes.foldl (fun stack node =>
    match node with
    | .ifNode cond _ merge => (cond, merge) :: stack
    | .endIf _ => stack.tail
    | _ => stack) []

/-- How many divergent Ifs are open in front of the node at a position. -/
def divergentDepth (p : Program Datum) (list : List SyntaxNode) (i : ℕ) : ℕ :=
  (opened (list.take i)).countP fun o => decide (Divergent p o.1)

/-- Ifs and EndIfs are nested, no two Ifs share a merge block and no block is listed twice, and
the merge block of an If stands behind it at the same nesting. -/
structure WellNested (list : List SyntaxNode) : Prop where
  fits : list.length < 2 ^ 32
  closes : ∀ (i merge : ℕ), list[i]? = some (.endIf merge) →
    ∃ cond stack, opened (list.take i) = (cond, merge) :: stack
  closed : opened list = []
  merge_unique : ∀ (i j : ℕ) cond cond' body body' merge,
    list[i]? = some (.ifNode cond body merge) → list[j]? = some (.ifNode cond' body' merge) → i = j
  block_unique : ∀ (i j block : ℕ), list[i]? = some (.block block) →
    list[j]? = some (.block block) → i = j
  merge_behind : ∀ (i j : ℕ) cond body merge, list[i]? = some (.ifNode cond body merge) →
    list[j]? = some (.block merge) → i < j ∧ opened (list.take j) = opened (list.take i)

theorem take_succ_eq {i : ℕ} {node : SyntaxNode} (h : list[i]? = some node) :
    list.take (i + 1) = list.take i ++ [node] := by
  rw [List.take_add_one, h]
  rfl

theorem opened_append (nodes : List SyntaxNode) (node : SyntaxNode) :
    opened (nodes ++ [node]) =
      match node with
      | .ifNode cond _ merge => (cond, merge) :: opened nodes
      | .endIf _ => (opened nodes).tail
      | _ => opened nodes := by
  unfold opened
  rw [List.foldl_append]
  cases node <;> rfl

theorem exists_ifNode_of_mem_opened {nodes : List SyntaxNode} {cond : Value Datum} {merge : ℕ}
    (h : (cond, merge) ∈ opened nodes) : ∃ body, SyntaxNode.ifNode cond body merge ∈ nodes := by
  induction nodes using List.reverseRecOn with
  | nil => cases h
  | append_singleton nodes node ih =>
      have hkeep : (cond, merge) ∈ opened nodes →
          ∃ body, SyntaxNode.ifNode cond body merge ∈ nodes ++ [node] := by
        intro hmem
        obtain ⟨body, hbody⟩ := ih hmem
        exact ⟨body, List.mem_append_left _ hbody⟩
      rw [opened_append] at h
      split at h
      · next cond' body merge' =>
          rcases List.mem_cons.1 h with heq | hmem
          · cases heq
            exact ⟨body, List.mem_append_right _ List.mem_cons_self⟩
          · exact hkeep hmem
      · exact hkeep (List.mem_of_mem_tail h)
      · exact hkeep h

/-! ### The depth -/

theorem barrierPassAfter_append (nodes : List SyntaxNode) (node : SyntaxNode) :
    barrierPassAfter p (nodes ++ [node]) = (barrierPassAfter p nodes).visit p node := by
  unfold barrierPassAfter
  rw [List.foldl_append]
  rfl

theorem mem_divergence_end (nodes : List SyntaxNode) (merge : ℕ) :
    merge ∈ (barrierPassAfter p nodes).divergence_end ↔
      ∃ cond body, SyntaxNode.ifNode cond body merge ∈ nodes ∧ Divergent p cond := by
  induction nodes using List.reverseRecOn with
  | nil => simp [barrierPassAfter]
  | append_singleton nodes node ih =>
      rw [barrierPassAfter_append]
      cases node with
      | ifNode cond body merge' =>
          simp only [BarrierPass.visit, BarrierPass.emitBarrierInMergeBlock,
            Program.isDivergentCond_iff]
          split
          · next hdiv =>
              split <;>
                · simp only [List.mem_cons, ih, List.mem_append, List.not_mem_nil, or_false,
                    SyntaxNode.ifNode.injEq]
                  grind
          · next hdiv =>
              simp only [ih, List.mem_append, List.mem_singleton, SyntaxNode.ifNode.injEq]
              grind
      | endIf merge' =>
          simp only [BarrierPass.visit]
          split <;> simp [ih]
      | block b =>
          simp only [BarrierPass.visit]
          split <;> simp [ih]
      | _ => simp [BarrierPass.visit, ih]

theorem opened_length_le (nodes : List SyntaxNode) : (opened nodes).length ≤ nodes.length := by
  induction nodes using List.reverseRecOn with
  | nil => exact Nat.le_refl 0
  | append_singleton nodes node ih =>
      rw [opened_append, List.length_append, List.length_singleton]
      cases node <;> simp only [List.length_cons, List.length_tail] <;> omega

theorem divergentDepth_le (p : Program Datum) (list : List SyntaxNode) (i : ℕ) :
    divergentDepth p list i ≤ i := by
  have h₁ := List.countP_le_length (p := fun o => decide (Divergent p o.1))
    (l := opened (list.take i))
  have h₂ := opened_length_le (list.take i)
  have h₃ := List.length_take_le i list
  unfold divergentDepth
  omega

theorem WellNested.mem_divergence_end_iff (h : WellNested list) {i merge : ℕ}
    {cond : Value Datum} {stack : List (Value Datum × ℕ)}
    (hopened : opened (list.take i) = (cond, merge) :: stack) :
    merge ∈ (barrierPassAfter p (list.take i)).divergence_end ↔ Divergent p cond := by
  obtain ⟨body, hif⟩ :=
    exists_ifNode_of_mem_opened (hopened ▸ List.mem_cons_self (l := stack))
  rw [mem_divergence_end]
  constructor
  · rintro ⟨cond', body', hif', hdiv⟩
    obtain ⟨k, hk⟩ := List.mem_iff_getElem?.1 hif
    obtain ⟨k', hk'⟩ := List.mem_iff_getElem?.1 hif'
    rw [List.getElem?_take] at hk hk'
    split at hk
    · split at hk'
      · obtain rfl := h.merge_unique _ _ _ _ _ _ _ hk hk'
        rw [hk] at hk'
        cases hk'
        exact hdiv
      · cases hk'
    · cases hk
  · exact fun hdiv => ⟨cond, body, hif, hdiv⟩

theorem WellNested.depth (h : WellNested list) {i : ℕ} (hi : i ≤ list.length) :
    (barrierPassAfter p (list.take i)).divergence_depth = divergentDepth p list i := by
  induction i with
  | zero => rfl
  | succ i ih =>
      obtain ⟨node, hnode⟩ : ∃ node, list[i]? = some node :=
        ⟨_, List.getElem?_eq_getElem (by omega)⟩
      have ih := ih (by omega)
      have hle := divergentDepth_le p list i
      have hfits := h.fits
      unfold divergentDepth at ih hle ⊢
      rw [take_succ_eq hnode, barrierPassAfter_append, opened_append]
      cases node with
      | ifNode cond body merge =>
          simp only [BarrierPass.visit, BarrierPass.emitBarrierInMergeBlock,
            Program.isDivergentCond_iff, List.countP_cons, decide_eq_true_eq]
          split
          · split <;>
              · simp only [ih]
                omega
          · simpa using ih
      | endIf merge =>
          obtain ⟨cond, stack, hopened⟩ := h.closes i merge hnode
          rw [hopened, List.countP_cons] at ih hle
          have hends := h.mem_divergence_end_iff (p := p) hopened
          simp only [BarrierPass.visit, hends, hopened, List.tail_cons]
          split
          · next hdiv =>
              simp only [hdiv, decide_true, if_true] at ih hle ⊢
              rw [ih]
              omega
          · next hdiv => simpa [hdiv] using ih
      | block b =>
          simp only [BarrierPass.visit]
          split <;> exact ih
      | _ => exact ih

theorem WellNested.pos_of_endIf (h : WellNested list) {i merge : ℕ}
    (hi : list[i]? = some (.endIf merge))
    (hends : merge ∈ (barrierPassAfter p (list.take i)).divergence_end) :
    0 < (barrierPassAfter p (list.take i)).divergence_depth := by
  have hlt := (List.getElem?_eq_some_iff.1 hi).1
  obtain ⟨cond, stack, hopened⟩ := h.closes i merge hi
  have hdiv := (h.mem_divergence_end_iff hopened).1 hends
  rw [h.depth (Nat.le_of_lt hlt)]
  unfold divergentDepth
  rw [hopened, List.countP_cons]
  simp [hdiv]

theorem WellNested.depth_end (h : WellNested list) :
    (barrierPassAfter p list).divergence_depth = 0 := by
  have hdepth := h.depth (p := p) (Nat.le_refl _)
  unfold divergentDepth at hdepth
  rwa [List.take_length, h.closed, List.countP_nil] at hdepth

end OrbitConsole.ShaderRecompiler
