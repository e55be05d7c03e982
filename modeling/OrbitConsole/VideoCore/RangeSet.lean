import Mathlib.Data.List.Pairwise
import OrbitConsole.Common.Machine

/-!
# Range sets and range maps

The buffer cache keeps the ranges the GPU has written in a `RangeSet` and the
buffers of an address range in a `SplitRangeMap`. Both stand on an interval
container of Boost.ICL, which is a parameter: `Icl` is its interface, and
`Icl.Documented` is what its documentation says of it. A set is a container
whose segments carry no value.
-/

namespace OrbitConsole.VideoCore

variable {C V : Type}

/-- A right-open interval and its value. -/
abbrev Segment (V : Type) := (ℕ × ℕ) × V

/-- What iteration and the ordered lookups see of a container; iterators are positions. -/
structure IclView (V : Type) where
  segments : List (Segment V)
  lowerBound : ℕ × ℕ → ℕ
  upperBound : ℕ × ℕ → ℕ

/-- An interval container. -/
structure Icl (C V : Type) where
  empty : C
  add : C → ℕ × ℕ → V → C
  subtract : C → ℕ × ℕ → C
  view : C → IclView V

namespace IclView

variable (view : IclView V)

def covers (a : ℕ) : Prop := ∃ x ∈ view.segments, x.1.1 ≤ a ∧ a < x.1.2

/-- The segments are non-empty, disjoint and in order; for a non-empty key, `lower_bound` is
the first segment not wholly before the key and `upper_bound` the first wholly behind it. -/
structure Documented : Prop where
  nonempty : ∀ x ∈ view.segments, x.1.1 < x.1.2
  ascending : view.segments.Pairwise fun x y => x.1.2 ≤ y.1.1
  lowerBound_eq : ∀ key : ℕ × ℕ, key.1 < key.2 →
    view.lowerBound key = view.segments.findIdx fun x => decide (key.1 < x.1.2)
  upperBound_eq : ∀ key : ℕ × ℕ, key.1 < key.2 →
    view.upperBound key = view.segments.findIdx fun x => decide (key.2 ≤ x.1.1)

/-- The segments from the iterator `it` until it is `end_it`; past `end()` it must not go. -/
def iterate (it end_it : ℕ) : Exec (List (Segment V)) :=
  if it ≤ end_it ∧ end_it ≤ view.segments.length then
    .ok ((view.segments.take end_it).drop it)
  else .error .undefined

end IclView

/-- The container adds and subtracts intervals as sets; an `absorbed` value is never stored. -/
structure Icl.Documented (icl : Icl C V) (absorbed : V → Prop) : Prop where
  view : ∀ c, (icl.view c).Documented
  covers_empty : ∀ a, ¬ (icl.view icl.empty).covers a
  covers_add : ∀ c key value a, (icl.view (icl.add c key value)).covers a ↔
    (icl.view c).covers a ∨ ¬ absorbed value ∧ key.1 ≤ a ∧ a < key.2
  covers_subtract : ∀ c key a, (icl.view (icl.subtract c key)).covers a ↔
    (icl.view c).covers a ∧ ¬ (key.1 ≤ a ∧ a < key.2)

/-! ### The queries

The three classes have the same bodies, up to the values. -/

section Queries

variable (icl : Icl C V)

def intervalOf (base_address size : ℕ) : ℕ × ℕ :=
  let end_address := add64 base_address size
  (base_address, end_address)

/-- The arguments of one call of `func`. -/
def clipped (start_address end_address : ℕ) (x : Segment V) : Segment V :=
  let inter_addr_end := x.1.2
  let inter_addr := x.1.1
  let inter_addr_end := if inter_addr_end > end_address then end_address else inter_addr_end
  let inter_addr := if inter_addr < start_address then start_address else inter_addr
  ((inter_addr, inter_addr_end), x.2)

def forEachInRange (m_ranges : C) (base_addr size : ℕ) : Exec (List (Segment V)) :=
  let view := icl.view m_ranges
  if view.segments.isEmpty then .ok []
  else
    let start_address := base_addr
    let end_address := add64 start_address size
    let search_interval := (start_address, end_address)
    let it := view.lowerBound search_interval
    if it = view.segments.length then .ok []
    else do
      let end_it := view.upperBound search_interval
      let passed ← view.iterate it end_it
      return passed.map (clipped start_address end_address)

def forEachGap (end_addr : ℕ) : ℕ → List (ℕ × ℕ) → List (ℕ × ℕ)
  | base_addr, [] =>
      if base_addr ≠ end_addr then [(base_addr, sub64 end_addr base_addr)] else []
  | base_addr, (range_addr, range_end) :: rest =>
      let gap_size := sub64 range_addr base_addr
      if gap_size ≠ 0 then (base_addr, gap_size) :: forEachGap end_addr range_end rest
      else forEachGap end_addr range_end rest

def forEachNotInRange (m_ranges : C) (base_addr size : ℕ) : Exec (List (ℕ × ℕ)) := do
  let end_addr := add64 base_addr size
  let ranges ← forEachInRange icl m_ranges base_addr size
  return forEachGap end_addr base_addr (ranges.map Prod.fst)

end Queries

/-! ### The classes -/

namespace RangeSet

variable (icl : Icl C Unit) (m_ranges_set : C)

def add (base_address size : ℕ) : C := icl.add m_ranges_set (intervalOf base_address size) ()

def subtract (base_address size : ℕ) : C :=
  icl.subtract m_ranges_set (intervalOf base_address size)

def forEachInRange (base_addr size : ℕ) : Exec (List (ℕ × ℕ)) :=
  (VideoCore.forEachInRange icl m_ranges_set base_addr size).map fun calls => calls.map Prod.fst

def forEachNotInRange (base_addr size : ℕ) : Exec (List (ℕ × ℕ)) :=
  VideoCore.forEachNotInRange icl m_ranges_set base_addr size

end RangeSet

namespace RangeMap

variable (icl : Icl C V) (m_ranges_map : C)

def add (base_address size : ℕ) (value : V) : C :=
  icl.add m_ranges_map (intervalOf base_address size) value

def subtract (base_address size : ℕ) : C :=
  icl.subtract m_ranges_map (intervalOf base_address size)

def forEachInRange (base_addr size : ℕ) : Exec (List (Segment V)) :=
  VideoCore.forEachInRange icl m_ranges_map base_addr size

def forEachNotInRange (base_addr size : ℕ) : Exec (List (ℕ × ℕ)) :=
  VideoCore.forEachNotInRange icl m_ranges_map base_addr size

end RangeMap

/-! `SplitRangeMap` is `RangeMap` over a container that also keeps equal neighbours apart. -/

namespace SplitRangeMap

variable (icl : Icl C V) (m_ranges_map : C)

def add (base_address size : ℕ) (value : V) : C :=
  icl.add m_ranges_map (intervalOf base_address size) value

def subtract (base_address size : ℕ) : C :=
  icl.subtract m_ranges_map (intervalOf base_address size)

def forEachInRange (base_addr size : ℕ) : Exec (List (Segment V)) :=
  VideoCore.forEachInRange icl m_ranges_map base_addr size

def forEachNotInRange (base_addr size : ℕ) : Exec (List (ℕ × ℕ)) :=
  VideoCore.forEachNotInRange icl m_ranges_map base_addr size

end SplitRangeMap

inductive RangeOp (V : Type) where
  | add (base_address size : ℕ) (value : V)
  | subtract (base_address size : ℕ)

def RangeSet.build (icl : Icl C Unit) (ops : List (RangeOp Unit)) : C :=
  ops.foldl (fun ranges op =>
    match op with
    | .add base_address size _ => RangeSet.add icl ranges base_address size
    | .subtract base_address size => RangeSet.subtract icl ranges base_address size) icl.empty

def RangeMap.build (icl : Icl C V) (ops : List (RangeOp V)) : C :=
  ops.foldl (fun ranges op =>
    match op with
    | .add base_address size value => RangeMap.add icl ranges base_address size value
    | .subtract base_address size => RangeMap.subtract icl ranges base_address size) icl.empty

def SplitRangeMap.build (icl : Icl C V) (ops : List (RangeOp V)) : C :=
  ops.foldl (fun ranges op =>
    match op with
    | .add base_address size value => SplitRangeMap.add icl ranges base_address size value
    | .subtract base_address size => SplitRangeMap.subtract icl ranges base_address size)
    icl.empty

end OrbitConsole.VideoCore
