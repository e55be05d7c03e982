import OrbitConsole.Library.Runs
import OrbitConsole.Library.Segments
import OrbitConsole.VideoCore.RangeSet

/-!
# A range query partitions its request

The stored ranges that meet the request are the segments between the two
lookups; clipped, they partition what is stored of it, and the gaps between
them the rest.
-/

namespace OrbitConsole.VideoCore

open Segments

variable {C V : Type} {icl : Icl C V} {absorbed : V → Prop}

/-- The addresses stored by the calls; a range whose end wraps around is empty. -/
def Stored (absorbed : V → Prop) (ops : List (RangeOp V)) : ℕ → Prop :=
  ops.foldl (fun stored op =>
    match op with
    | .add base_address size value => fun a =>
        stored a ∨ ¬ absorbed value ∧ Within (intervalOf base_address size) a
    | .subtract base_address size => fun a =>
        stored a ∧ ¬ Within (intervalOf base_address size) a) fun _ => False

/-! ### The containers -/

theorem SplitRangeMap.build_eq (ops : List (RangeOp V)) :
    SplitRangeMap.build icl ops = RangeMap.build icl ops := rfl

theorem RangeSet.build_eq {icl : Icl C Unit} (ops : List (RangeOp Unit)) :
    RangeSet.build icl ops = RangeMap.build icl ops := by
  unfold RangeSet.build RangeMap.build
  congr 1
  funext ranges op
  cases op <;> rfl

theorem covers_build (hicl : icl.Documented absorbed) (ops : List (RangeOp V)) :
    ∀ a, (icl.view (RangeMap.build icl ops)).covers a ↔ Stored absorbed ops a := by
  unfold RangeMap.build Stored
  generalize hranges : icl.empty = ranges
  have hcovers : ∀ a, (icl.view ranges).covers a ↔ (fun _ => False) a := by
    intro a
    rw [← hranges, iff_false]
    exact hicl.covers_empty a
  clear hranges
  generalize (fun _ : ℕ => False) = stored at hcovers ⊢
  induction ops generalizing ranges stored with
  | nil => exact hcovers
  | cons op ops ih =>
      rw [List.foldl_cons, List.foldl_cons]
      refine ih _ _ fun a => ?_
      cases op with
      | add base_address size value =>
          dsimp only [RangeMap.add]
          rw [hicl.covers_add, hcovers]
          rfl
      | subtract base_address size =>
          dsimp only [RangeMap.subtract]
          rw [hicl.covers_subtract, hcovers]
          rfl

theorem IclView.Documented.partition {view : IclView V} (hview : view.Documented) :
    Partition (view.segments.map Prod.fst) view.covers := by
  refine ⟨?_, ?_, fun a => ?_⟩
  · intro r hr
    obtain ⟨x, hx, rfl⟩ := List.mem_map.1 hr
    exact hview.nonempty x hx
  · rw [List.pairwise_map]
    exact hview.ascending
  · simp only [List.mem_map, exists_exists_and_eq_and]
    rfl

/-! ### The segments a query passes -/

theorem IclView.Documented.iterate_eq {view : IclView V} (hview : view.Documented)
    {key : ℕ × ℕ} (hkey : key.1 < key.2) :
    view.iterate (view.lowerBound key) (view.upperBound key) =
      .ok (view.segments.filter fun x => decide (key.1 < x.1.2 ∧ x.1.1 < key.2)) := by
  have hmem : ∀ x ∈ view.segments, ∀ y ∈ view.segments, x.1.2 ≤ y.1.1 →
      x.1.1 < y.1.1 ∧ x.1.2 < y.1.2 := by
    intro x hx y hy hxy
    have h₁ := hview.nonempty x hx
    have h₂ := hview.nonempty y hy
    omega
  have hpair := hview.ascending.imp_of_mem fun {x y} hx hy hxy => hmem x hx y hy hxy
  have hlower : view.segments.Pairwise fun x y =>
      decide (key.1 < x.1.2) = true → decide (key.1 < y.1.2) = true := by
    refine hpair.imp fun {x y} hxy => ?_
    simp only [decide_eq_true_eq]
    omega
  have hupper : view.segments.Pairwise fun x y =>
      decide (key.2 ≤ x.1.1) = true → decide (key.2 ≤ y.1.1) = true := by
    refine hpair.imp fun {x y} hxy => ?_
    simp only [decide_eq_true_eq]
    omega
  have hbehind : ∀ x ∈ view.segments, decide (key.2 ≤ x.1.1) = true →
      decide (key.1 < x.1.2) = true := by
    intro x hx
    have hne := hview.nonempty x hx
    simp only [decide_eq_true_eq]
    omega
  rw [hview.lowerBound_eq key hkey, hview.upperBound_eq key hkey]
  unfold IclView.iterate
  rw [if_pos ⟨findIdx_le_findIdx hbehind, List.findIdx_le_length⟩,
    slice_eq_filter hlower hupper hbehind]
  congr 1
  refine List.filter_congr fun x _ => ?_
  rw [Bool.decide_and, ← decide_not]
  congr 2
  exact propext Nat.not_le

theorem clipped_eq (start_address end_address : ℕ) (x : Segment V) :
    clipped start_address end_address x = (clip (start_address, end_address) x.1, x.2) := by
  unfold clipped clip
  ext
  · dsimp only
    split <;> omega
  · dsimp only
    split <;> omega
  · rfl

theorem forEachInRange_eq (hicl : icl.Documented absorbed) (m_ranges : C) {base_addr size : ℕ}
    (hsize : 0 < size) (hwrap : base_addr + size < 18446744073709551616) :
    forEachInRange icl m_ranges base_addr size =
      .ok (((icl.view m_ranges).segments.filter fun x =>
        decide (base_addr < x.1.2 ∧ x.1.1 < base_addr + size)).map
          (clipped base_addr (base_addr + size))) := by
  have hview := hicl.view m_ranges
  have hkey : base_addr < base_addr + size := by omega
  have hiterate := @IclView.Documented.iterate_eq _ _ hview (base_addr, base_addr + size) hkey
  unfold forEachInRange
  dsimp only
  rw [add64_eq hwrap]
  split
  · next hempty => rw [List.isEmpty_iff.1 hempty, List.filter_nil, List.map_nil]
  · split
    · next hend =>
        -- at `end()` every segment is before the request
        rw [hview.lowerBound_eq _ hkey, List.findIdx_eq_length] at hend
        have hnone : (icl.view m_ranges).segments.filter (fun x =>
            decide (base_addr < x.1.2 ∧ x.1.1 < base_addr + size)) = [] := by
          rw [List.filter_eq_nil_iff]
          intro x hx hmeets
          exact of_decide_eq_false (hend x hx) (of_decide_eq_true hmeets).1
        rw [hnone, List.map_nil]
    · rw [hiterate]
      rfl

theorem forEachInRange_partition (hicl : icl.Documented absorbed) (m_ranges : C)
    {base_addr size : ℕ} (hsize : 0 < size) (hwrap : base_addr + size < 18446744073709551616) :
    ∃ calls, forEachInRange icl m_ranges base_addr size = .ok calls ∧
      Partition (calls.map Prod.fst) fun a =>
        (icl.view m_ranges).covers a ∧ Within (base_addr, base_addr + size) a := by
  refine ⟨_, forEachInRange_eq hicl m_ranges hsize hwrap, ?_⟩
  have hkey : base_addr < base_addr + size := by omega
  have hclip := @Partition.clip _ _ (base_addr, base_addr + size) hkey
    (hicl.view m_ranges).partition
  rw [List.filter_map, List.map_map] at hclip
  rw [List.map_map]
  have hfun : Prod.fst ∘ clipped (V := V) base_addr (base_addr + size) =
      clip (base_addr, base_addr + size) ∘ Prod.fst := by
    funext x
    exact congrArg Prod.fst (clipped_eq _ _ x)
  rw [hfun]
  exact hclip

/-! ### The gaps -/

def rangeOfCall (call : ℕ × ℕ) : ℕ × ℕ := (call.1, call.1 + call.2)

theorem forEachGap_eq {ranges : List (ℕ × ℕ)} {base_addr end_addr : ℕ}
    (hend : end_addr < 18446744073709551616) (hbase : base_addr ≤ end_addr)
    (hranges : ∀ r ∈ ranges, r.1 < r.2 ∧ r.2 ≤ end_addr) (hstart : ∀ r ∈ ranges, base_addr ≤ r.1)
    (hascending : ranges.Pairwise fun r r' => r.2 ≤ r'.1) :
    (forEachGap end_addr base_addr ranges).map rangeOfCall = gaps end_addr base_addr ranges := by
  induction ranges generalizing base_addr with
  | nil =>
      unfold forEachGap gaps
      rw [sub64_eq hbase hend]
      split
      · rw [if_pos (by omega)]
        simp only [List.map_cons, List.map_nil, rangeOfCall]
        congr 2
        omega
      · rw [if_neg (by omega)]
        rfl
  | cons r rest ih =>
      obtain ⟨hr, hrest⟩ := List.pairwise_cons.1 hascending
      obtain ⟨hlt, hle⟩ := hranges r List.mem_cons_self
      have hfrom := hstart r List.mem_cons_self
      have ih := ih hle (fun x hx => hranges x (List.mem_cons_of_mem _ hx)) hr hrest
      have hgap : sub64 r.1 base_addr = r.1 - base_addr := sub64_eq hfrom (by omega)
      unfold forEachGap gaps
      dsimp only
      rw [hgap]
      split
      · rw [if_pos (by omega), List.map_cons, ih]
        congr 1
        unfold rangeOfCall
        dsimp only
        congr 1
        omega
      · rw [if_neg (by omega), ih]

theorem forEachNotInRange_partition (hicl : icl.Documented absorbed) (m_ranges : C)
    {base_addr size : ℕ} (hsize : 0 < size) (hwrap : base_addr + size < 18446744073709551616) :
    ∃ calls, forEachNotInRange icl m_ranges base_addr size = .ok calls ∧
      Partition (calls.map rangeOfCall) fun a =>
        ¬ (icl.view m_ranges).covers a ∧ Within (base_addr, base_addr + size) a := by
  obtain ⟨calls, hcalls, hpart⟩ := forEachInRange_partition hicl m_ranges hsize hwrap
  have hin : ∀ r ∈ calls.map Prod.fst, base_addr ≤ r.1 ∧ r.1 < r.2 ∧ r.2 ≤ base_addr + size := by
    intro r hr
    have hlt := hpart.nonempty r hr
    obtain ⟨-, hfirst, -⟩ := (hpart.union r.1).1 ⟨r, hr, Nat.le_refl _, hlt⟩
    obtain ⟨-, -, hlast⟩ := (hpart.union (r.2 - 1)).1 ⟨r, hr, by unfold Within; omega⟩
    dsimp only at hfirst hlast
    omega
  have hranges : ∀ r ∈ calls.map Prod.fst, r.1 < r.2 ∧ r.2 ≤ base_addr + size :=
    fun r hr => (hin r hr).2
  have hstart : ∀ r ∈ calls.map Prod.fst, base_addr ≤ r.1 := fun r hr => (hin r hr).1
  have hgaps := gaps_partition hranges hstart hpart.ascending
  refine ⟨forEachGap (base_addr + size) base_addr (calls.map Prod.fst), ?_, ?_⟩
  · unfold forEachNotInRange
    rw [hcalls, add64_eq hwrap]
    rfl
  · rw [forEachGap_eq hwrap (by omega) hranges hstart hpart.ascending]
    refine ⟨hgaps.nonempty, hgaps.ascending, fun a => ?_⟩
    rw [hgaps.union, hpart.union]
    tauto

/-! ### The queries of the classes -/

section Queries

variable {S M : Type} {set : Icl S Unit} {map : Icl M V}

/-- Both queries of a class partition the request: into what is stored of it and the rest. -/
structure Answers (stored : ℕ → Prop) (base_addr size : ℕ) (inRange : Exec (List (ℕ × ℕ)))
    (notInRange : Exec (List (ℕ × ℕ))) : Prop where
  inRange : ∃ calls, inRange = .ok calls ∧
    Partition calls fun a => stored a ∧ Within (base_addr, base_addr + size) a
  notInRange : ∃ calls, notInRange = .ok calls ∧
    Partition (calls.map rangeOfCall) fun a =>
      ¬ stored a ∧ Within (base_addr, base_addr + size) a

theorem answers_build (hmap : map.Documented absorbed) (ops : List (RangeOp V))
    {base_addr size : ℕ} (hsize : 0 < size) (hwrap : base_addr + size < 18446744073709551616) :
    Answers (Stored absorbed ops) base_addr size
      ((forEachInRange map (RangeMap.build map ops) base_addr size).map fun calls =>
        calls.map Prod.fst)
      (forEachNotInRange map (RangeMap.build map ops) base_addr size) := by
  have hstored : (map.view (RangeMap.build map ops)).covers = Stored absorbed ops :=
    funext fun a => propext (covers_build hmap ops a)
  constructor
  · obtain ⟨calls, hcalls, hpart⟩ :=
      forEachInRange_partition hmap (RangeMap.build map ops) hsize hwrap
    rw [hstored] at hpart
    refine ⟨calls.map Prod.fst, ?_, hpart⟩
    rw [hcalls]
    rfl
  · obtain ⟨calls, hcalls, hpart⟩ :=
      forEachNotInRange_partition hmap (RangeMap.build map ops) hsize hwrap
    rw [hstored] at hpart
    exact ⟨calls, hcalls, hpart⟩

/-- For any calls of `Add` and `Subtract`, a query of at least one byte without wrap partitions
its request. -/
theorem range_queries_partition {P : Type} {split : Icl P V}
    (hset : set.Documented fun _ => False) (hmap : map.Documented absorbed)
    (hsplit : split.Documented absorbed) (setOps : List (RangeOp Unit)) (ops : List (RangeOp V))
    {base_addr size : ℕ} (hsize : 0 < size) (hwrap : base_addr + size < 18446744073709551616) :
    Answers (Stored (fun _ => False) setOps) base_addr size
      (RangeSet.forEachInRange set (RangeSet.build set setOps) base_addr size)
      (RangeSet.forEachNotInRange set (RangeSet.build set setOps) base_addr size) ∧
    Answers (Stored absorbed ops) base_addr size
      ((RangeMap.forEachInRange map (RangeMap.build map ops) base_addr size).map fun calls =>
        calls.map Prod.fst)
      (RangeMap.forEachNotInRange map (RangeMap.build map ops) base_addr size) ∧
    Answers (Stored absorbed ops) base_addr size
      ((SplitRangeMap.forEachInRange split (SplitRangeMap.build split ops) base_addr size).map
        fun calls => calls.map Prod.fst)
      (SplitRangeMap.forEachNotInRange split (SplitRangeMap.build split ops) base_addr size) := by
  refine ⟨?_, answers_build hmap ops hsize hwrap, answers_build hsplit ops hsize hwrap⟩
  rw [RangeSet.build_eq]
  exact answers_build hset setOps hsize hwrap

end Queries

/-! ### A container

Intervals as the runs of a set of addresses, all with one value; the lookups
compare the last address of one interval with the first of the other. -/

/-- The addresses below a bound, and which of them are stored. -/
abbrev Addresses := ℕ × (ℕ → Bool)

/-- The address before `a`; before zero is the last one. -/
def pred64 (a : ℕ) : ℕ := if a = 0 then 18446744073709551615 else a - 1

def runsView (value : V) (c : Addresses) : IclView V :=
  let segments := (Runs.runs c.2 c.1).map fun r => (r, value)
  { segments := segments
    lowerBound := fun key => segments.findIdx fun x => decide (key.1 < x.1.2)
    upperBound := fun key => segments.findIdx fun x => decide (pred64 key.2 < x.1.1) }

def runsIcl (value : V) (absorbs : V → Bool) : Icl Addresses V where
  empty := (0, fun _ => false)
  add c key v :=
    if absorbs v then c
    else (max c.1 key.2, fun a => decide (a < c.1) && c.2 a || decide (key.1 ≤ a ∧ a < key.2))
  subtract c key := (c.1, fun a => c.2 a && !decide (key.1 ≤ a ∧ a < key.2))
  view := runsView value

theorem covers_runsView (value : V) (c : Addresses) (a : ℕ) :
    (runsView value c).covers a ↔ a < c.1 ∧ c.2 a = true := by
  unfold IclView.covers runsView
  dsimp only
  constructor
  · rintro ⟨x, hx, h₁, h₂⟩
    obtain ⟨r, hr, rfl⟩ := List.mem_map.1 hx
    obtain ⟨-, hle, hbits⟩ := Runs.mem_runs hr
    exact ⟨Nat.lt_of_lt_of_le h₂ hle, hbits a h₁ h₂⟩
  · rintro ⟨hlt, hbit⟩
    obtain ⟨r, hr, hin⟩ := Runs.exists_run hlt hbit
    exact ⟨(r, value), List.mem_map_of_mem hr, hin⟩

theorem runsView_documented (value : V) (c : Addresses) : (runsView value c).Documented := by
  refine ⟨?_, ?_, fun key _ => rfl, fun key hkey => ?_⟩
  · intro x hx
    obtain ⟨r, hr, rfl⟩ := List.mem_map.1 hx
    exact (Runs.mem_runs hr).1
  · unfold runsView
    dsimp only
    rw [List.pairwise_map]
    exact Runs.runs_pairwise.imp Nat.le_of_lt
  · unfold runsView pred64
    dsimp only
    rw [if_neg (by omega)]
    congr 1
    funext x
    rw [decide_eq_decide]
    omega

theorem runsIcl_documented (value : V) (absorbs : V → Bool) :
    (runsIcl value absorbs).Documented fun v => absorbs v = true := by
  refine ⟨runsView_documented value, fun a => ?_, fun c key v a => ?_, fun c key a => ?_⟩
  · dsimp only [runsIcl]
    rw [covers_runsView]
    simp
  · dsimp only [runsIcl]
    rw [covers_runsView, covers_runsView]
    by_cases hv : absorbs v = true
    · simp [hv]
    · simp only [hv, Bool.false_eq_true, if_false, Bool.or_eq_true, Bool.and_eq_true,
        decide_eq_true_eq, not_false_eq_true, true_and]
      constructor
      · rintro ⟨-, h⟩
        exact h
      · intro h
        exact ⟨by omega, h⟩
  · dsimp only [runsIcl]
    rw [covers_runsView, covers_runsView]
    simp only [Bool.and_eq_true, Bool.not_eq_true', decide_eq_false_iff_not]
    exact and_assoc.symm

def addressSet : Icl Addresses Unit := runsIcl () fun _ => false

/-- A map of flags; the flag `false` is the default value and is absorbed. -/
def flagMap : Icl Addresses Bool := runsIcl true Bool.not

theorem addressSet_documented : addressSet.Documented fun _ => False := by
  have h := runsIcl_documented () fun _ => false
  simp only [Bool.false_eq_true] at h
  exact h

/-- A range is stored and a piece taken out of it. -/
theorem range_queries_partition_hole :
    Answers (Stored (fun _ => False) [.add 0 10 (), .subtract 4 2]) 2 6
      (RangeSet.forEachInRange addressSet
        (RangeSet.build addressSet [.add 0 10 (), .subtract 4 2]) 2 6)
      (RangeSet.forEachNotInRange addressSet
        (RangeSet.build addressSet [.add 0 10 (), .subtract 4 2]) 2 6) := by
  have hmap : flagMap.Documented fun v => (!v) = true := runsIcl_documented true Bool.not
  exact (range_queries_partition addressSet_documented hmap hmap [.add 0 10 (), .subtract 4 2]
    [.add 3 5 true] (by decide : 0 < 6) (by decide : 2 + 6 < 18446744073709551616)).1

/-- An empty request inside a stored range: `func` is called with an empty range. -/
theorem range_queries_partition_fails :
    (addressSet.Documented fun _ => False) ∧
    ¬ Answers (Stored (fun _ => False) [.add 0 10 ()]) 5 0
      (RangeSet.forEachInRange addressSet (RangeSet.build addressSet [.add 0 10 ()]) 5 0)
      (RangeSet.forEachNotInRange addressSet (RangeSet.build addressSet [.add 0 10 ()]) 5 0) := by
  refine ⟨addressSet_documented, fun h => ?_⟩
  obtain ⟨calls, hcalls, hpart⟩ := h.inRange
  have hcall : RangeSet.forEachInRange addressSet
      (RangeSet.build addressSet [.add 0 10 ()]) 5 0 = .ok [(5, 5)] := by decide
  obtain rfl : [(5, 5)] = calls := by simpa [hcall] using hcalls
  exact absurd (hpart.nonempty (5, 5) List.mem_cons_self) (by decide)

end OrbitConsole.VideoCore
