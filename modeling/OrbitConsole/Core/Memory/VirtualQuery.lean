import Mathlib.Data.List.TakeWhile
import OrbitConsole.Core.Memory.DirectMemoryQuery
import OrbitConsole.Core.Memory.PageRounding

/-!
# What `VirtualQuery` reports

The query describes the area of the address or, asked for the next one, the first area
from there on that is not free.
-/

namespace OrbitConsole.Memory

open Tiling

structure OrbisVirtualQueryInfo where
  start : ℕ := 0
  endAddr : ℕ := 0
  offset : ℕ := 0
  protection : MemoryProt
  memoryType : ℤ := 0
  isFlexible : Bool
  isDirect : Bool
  isStack : Bool
  isPooled : Bool
  isCommitted : Bool
  name : List UInt8

/-- What is reported of a type, a protection and a name; protection is hidden from reserved
mappings, and `strncpy` copies the name. -/
def attributes (type : VMAType) (prot : MemoryProt) (name : String) : OrbisVirtualQueryInfo where
  protection := if type = .reserved ∨ type = .poolReserved then 0 else prot
  isFlexible := type = .flexible
  isDirect := type = .direct
  isStack := type = .stack
  isPooled := type = .poolReserved ∨ type = .pooled
  isCommitted := ({ type := type } : VirtualMemoryArea).isMapped
  name := (name.toUTF8.toList.takeWhile (· ≠ 0)).take maximumNameLength

namespace MemoryManager

/-- The record that `VirtualQuery` fills in for an area. -/
def describeArea (vma : VirtualMemoryArea) : Exec (ℤ × Option OrbisVirtualQueryInfo) :=
  let info := { attributes vma.type vma.prot vma.name with
    start := vma.base, endAddr := add64 vma.base vma.size }
  if vma.type = .direct then
    match vma.physAreas.first with
    | none => throw (.assertion "No physical backing for direct mapping?")
    | some (_, phys) =>
      pure (orbisOk, some { info with offset := phys.base, memoryType := phys.memoryType })
  else pure (orbisOk, some info)

/-- `VirtualQuery`; there is no record if it returns an error. -/
def virtualQuery (s : MemoryManager) (addr : ℕ) (flags : ℤ) :
    Exec (ℤ × Option OrbisVirtualQueryInfo) :=
  let queryAddr :=
    if addr < s.systemManagedVirtualBase then s.systemManagedVirtualBase else addr
  if addr < queryAddr ∧ flags = 0 then pure (errorEacces, none)
  else do
    let (handle, _) ← findArea s.vmaMap queryAddr
    match (s.vmaMap.entriesFrom handle).dropWhile fun e => e.2.type = .free ∧ flags = 1 with
    | [] => return (errorEacces, none)
    | (_, vma) :: _ =>
      if vma.type = .free then return (errorEacces, none) else describeArea vma

end MemoryManager

/-- Every byte of the range is what the record says, and the first one is where it says. -/
structure Describes (m : VMAMap) (info : OrbisVirtualQueryInfo) : Prop where
  nonempty : info.start < info.endAddr
  bytes : ∀ x, info.start ≤ x → x < info.endAddr →
    ∃ c, cells m x = some c ∧ c.type ≠ .free ∧ { attributes c.type c.prot c.name with
      start := info.start, endAddr := info.endAddr, offset := info.offset
      memoryType := info.memoryType } = info
  backing : info.isDirect = true → ∃ c, cells m info.start = some c ∧
    c.backing = some (info.offset, info.memoryType)

/-- What the query for the byte `q` is to return: a record of the range of `q`, or of the next
byte that is not free, or an error if there is none. -/
def Answers (m : VMAMap) (q : ℕ) (next : Prop) (r : ℤ × Option OrbisVirtualQueryInfo) : Prop :=
  (∃ info, r = (orbisOk, some info) ∧ Describes m info ∧ q < info.endAddr ∧
    (info.start ≤ q ∨ next ∧ ∀ x, q ≤ x → x < info.start → ∀ c, cells m x = some c →
      c.type = .free)) ∨
  r = (errorEacces, none) ∧ ∀ x, q ≤ x → (x = q ∨ next) → ∀ c, cells m x = some c → c.type = .free

variable {m : VMAMap} {U : Set ℕ} {k q : ℕ} {v : VirtualMemoryArea} {s s₀ : MemoryManager}
  {cfg : Config}

theorem VmaOk.first_backing (h : VmaOk v) (hbacked : hasPhysicalBacking v = true)
    (hpos : 0 < v.size) : ∃ e, v.physAreas.first = some e ∧
      bytes v.physAreas 0 = some (e.2.base, e.2.label) := by
  have P := h.backed hbacked
  obtain ⟨k, a, hk, hle, hlt⟩ := (P.tiles.mem_iff 0).1 (show 0 < v.size from hpos)
  obtain rfl := Nat.le_zero.1 hle
  refine ⟨(0, a), OrderedMap.first_eq_some_iff.2 ⟨hk, fun _ _ _ => Nat.zero_le _⟩, ?_⟩
  rw [P.bytes_eq hk hle hlt, Nat.sub_zero, Nat.add_zero]

/-- An area that is not free is reported as it is, and a Direct area has backing. -/
theorem VmaMapOk.describeArea (V : VmaMapOk m U) (hk : m.get? k = some v)
    (hfree : v.type ≠ .free) : ∃ info, MemoryManager.describeArea v = .ok (orbisOk, some info) ∧
      Describes m info ∧ info.start = k ∧ info.endAddr = k + v.size := by
  have hpos := V.tiles.pos hk
  have hend : add64 v.base v.size = k + v.size := by
    have hbound := V.bounded hk
    rw [V.base_eq hk, add64_eq (by omega)]
  have hbytes (offset : ℕ) (memoryType : ℤ) : ∀ x, k ≤ x → x < k + v.size →
      ∃ c, cells m x = some c ∧ c.type ≠ .free ∧ { attributes c.type c.prot c.name with
        start := k, endAddr := k + v.size, offset := offset, memoryType := memoryType } =
      { attributes v.type v.prot v.name with
        start := k, endAddr := k + v.size, offset := offset, memoryType := memoryType } :=
    fun x hle hlt => ⟨_, V.cells_eq hk hle hlt, hfree, rfl⟩
  unfold MemoryManager.describeArea
  rw [hend, V.base_eq hk]
  by_cases hdirect : v.type = .direct
  · obtain ⟨⟨_, phys⟩, hfirst, hbyte⟩ :=
      (V.area hk).first_backing (by simp [hasPhysicalBacking, hdirect]) hpos
    rw [if_pos hdirect, hfirst]
    refine ⟨_, rfl, ⟨Nat.lt_add_of_pos_right hpos, hbytes _ _, fun _ =>
      ⟨_, V.cells_eq hk (Nat.le_refl k) (Nat.lt_add_of_pos_right hpos), ?_⟩⟩, rfl, rfl⟩
    simp only [VirtualMemoryArea.cell, Nat.sub_self, hbyte, Option.map_some]
    rfl
  · rw [if_neg hdirect]
    refine ⟨_, rfl, ⟨Nat.lt_add_of_pos_right hpos, hbytes _ _, fun h => ?_⟩, rfl, rfl⟩
    exact absurd (of_decide_eq_true h) hdirect

/-- What the loop of `VirtualQuery` stops at, from the area of `q` on. -/
theorem VmaMapOk.found (V : VmaMapOk m U) (hk : m.get? k = some v) (hle : k ≤ q)
    (flags : ℤ) {rest : List (ℕ × VirtualMemoryArea)}
    (hrest : (m.entriesFrom k).dropWhile (fun e => decide (e.2.type = .free ∧ flags = 1)) = rest) :
    (∀ x, q ≤ x → (∀ e ∈ rest, x < e.1) → ∀ c, cells m x = some c → c.type = .free) ∧
      (flags ≠ 1 → rest.head? = some (k, v)) ∧ ∀ k' v' tail, rest = (k', v') :: tail →
        m.get? k' = some v' ∧ k ≤ k' ∧ (flags = 1 → v'.type ≠ .free) ∧ ∀ e ∈ rest, k' ≤ e.1 := by
  have hsplit := List.takeWhile_append_dropWhile
    (p := fun e => decide (e.2.type = .free ∧ flags = 1)) (l := m.entriesFrom k)
  rw [hrest] at hsplit
  refine ⟨fun x hx hbefore c hc => ?_, fun hne => ?_, fun k' v' tail heq => ?_⟩
  · obtain ⟨k', v', hk', hle', hlt', rfl⟩ := V.tiles.view_eq_some_iff.1 hc
    have hkk' : k ≤ k' := by
      by_contra hgt
      have := V.tiles.disjoint hk' hk (by omega)
      omega
    have hmem := OrderedMap.mem_entriesFrom.2 ⟨hk', hkk'⟩
    rw [← hsplit] at hmem
    obtain htake | hdrop := List.mem_append.1 hmem
    · have hfree := List.mem_takeWhile_imp htake
      exact (of_decide_eq_true hfree).1
    · exact absurd (hbefore _ hdrop) (Nat.not_lt_of_le hle')
  · obtain ⟨l, hl⟩ := OrderedMap.entriesFrom_eq_cons hk
    rw [← hrest, hl, List.dropWhile_cons_of_neg (by simp [hne])]
    rfl
  · subst heq
    have hmem : (k', v') ∈ m.entriesFrom k := hsplit ▸ List.mem_append_right _ List.mem_cons_self
    obtain ⟨hk', hkk'⟩ := OrderedMap.mem_entriesFrom.1 hmem
    refine ⟨hk', hkk', fun hflags hfree => ?_, fun e he => ?_⟩
    · have hstop := List.head?_dropWhile_not
        (fun e : ℕ × VirtualMemoryArea => decide (e.2.type = .free ∧ flags = 1)) (m.entriesFrom k)
      rw [hrest] at hstop
      simp [hfree, hflags] at hstop
    · have hsorted := hrest ▸ (m.entriesFrom_sorted k).sublist (List.dropWhile_sublist _)
      obtain rfl | he := List.mem_cons.1 he
      · exact Nat.le_refl _
      · exact Nat.le_of_lt (List.rel_of_pairwise_cons hsorted he)

/-- In every reachable state `VirtualQuery` returns, and answers with what the bytes are. -/
theorem virtualQuery_answers (hfresh : Fresh cfg s₀)
    (h : Reachable (fun _ c => c.Promised) s₀ s) (addr : UInt64) (flags : ℤ)
    (hflags : addr.toNat < s.systemManagedVirtualBase → flags ≠ 0)
    (hq : max addr.toNat s.systemManagedVirtualBase ∈ cfg.regions.addresses) :
    ∃ r, s.virtualQuery addr.toNat flags = .ok r ∧
      Answers s.vmaMap (max addr.toNat s.systemManagedVirtualBase) (flags = 1) r := by
  have V : VmaMapOk s.vmaMap cfg.regions.addresses := (h.regular hfresh fun _ _ hc => hc).vma
  have haddr : (if addr.toNat < s.systemManagedVirtualBase then s.systemManagedVirtualBase
      else addr.toNat) = max addr.toNat s.systemManagedVirtualBase := by
    split <;> omega
  unfold MemoryManager.virtualQuery
  rw [haddr]
  generalize hmax : max addr.toNat s.systemManagedVirtualBase = q at hq
  dsimp only
  rw [if_neg fun hlow => hflags (by omega) hlow.2]
  obtain ⟨k, v, hk, hle, hlt⟩ := (V.tiles.mem_iff q).1 hq
  rw [findArea_eq_ok.2 (V.tiles.floor_eq hk hle hlt)]
  dsimp only [bind, Except.bind]
  generalize hrest : (s.vmaMap.entriesFrom k).dropWhile
    (fun e => decide (e.2.type = .free ∧ flags = 1)) = rest
  obtain ⟨hskipped, hhead, hfirst⟩ := V.found hk hle flags hrest
  cases rest with
  | nil =>
      refine ⟨_, rfl, .inr ⟨rfl, fun x hx _ c hc => hskipped x hx (fun _ he => ?_) c hc⟩⟩
      exact absurd he List.not_mem_nil
  | cons e rest =>
      obtain ⟨k', v'⟩ := e
      obtain ⟨hk', hkk', hstop, hbefore⟩ := hfirst k' v' rest rfl
      dsimp only
      by_cases hfree : v'.type = .free
      · rw [if_pos hfree]
        have hne : flags ≠ 1 := fun heq => hstop heq hfree
        cases hhead hne
        refine ⟨_, rfl, .inr ⟨rfl, fun x _ hxq c hc => ?_⟩⟩
        obtain rfl := hxq.resolve_right hne
        rw [V.cells_eq hk hle hlt] at hc
        cases hc
        exact hfree
      · rw [if_neg hfree]
        obtain ⟨info, hinfo, hdescribes, hstart, hend⟩ := V.describeArea hk' hfree
        refine ⟨_, hinfo, .inl ⟨info, rfl, hdescribes, ?_⟩⟩
        rw [hstart, hend]
        obtain rfl | hlater := Nat.eq_or_lt_of_le hkk'
        · obtain rfl : v' = v := Option.some.inj (hk'.symm.trans hk)
          exact ⟨hlt, .inl hle⟩
        · have hafter := V.tiles.disjoint hk hk' hlater
          refine ⟨by omega, .inr ⟨?_, fun x hx hx' c hc =>
            hskipped x hx (fun e he => Nat.lt_of_lt_of_le hx' (hbefore e he)) c hc⟩⟩
          by_contra hne
          cases hhead hne
          exact Nat.lt_irrefl _ hlater

/-- The next area from the managed base on is the direct mapping. -/
theorem virtualQuery_answers_sample : ∃ s r,
    runCalls Config.retail.start [.allocate 0x4000 0x10000 0x4000 0 3,
      .mapMemory 0x200004000 0x4000 3 0x10 .direct "" false 0x4000 0] = .ok s ∧
    s.virtualQuery (0x200000000 : UInt64).toNat 1 = .ok r ∧
    (r.2.map fun info => (info.start, info.endAddr, info.offset)) =
      some (0x200004000, 0x200008000, 0x4000) ∧
    Answers s.vmaMap (max (0x200000000 : UInt64).toNat s.systemManagedVirtualBase)
      ((1 : ℤ) = 1) r := by
  obtain ⟨s, hrun, hall⟩ : ∃ s, runCalls Config.retail.start [.allocate 0x4000 0x10000 0x4000 0 3,
      .mapMemory 0x200004000 0x4000 3 0x10 .direct "" false 0x4000 0] = .ok s ∧
      (decide (s.systemManagedVirtualBase = 0x400000) &&
        (s.virtualQuery (0x200000000 : UInt64).toNat 1).toOption.any fun r =>
          decide ((r.2.map fun info => (info.start, info.endAddr, info.offset)) =
            some (0x200004000, 0x200008000, 0x4000))) = true :=
    exists_of_any (by decide)
  rw [Bool.and_eq_true, decide_eq_true_eq] at hall
  obtain ⟨r, hr, hval⟩ := exists_of_any hall.2
  obtain ⟨r', hr', hanswers⟩ := virtualQuery_answers fresh_retail
    (runCalls_reachable .start (fun c hc _ => by
      simp only [List.mem_cons, List.not_mem_nil, or_false] at hc
      rcases hc with rfl | rfl <;> simp [Call.Promised]) hrun) 0x200000000 1 (fun _ => by decide)
    (by rw [hall.1]; exact ⟨(0x200000000, 0x200100000), by decide, by decide, by decide⟩)
  obtain rfl : r' = r := Except.ok.inj (hr'.symm.trans hr)
  exact ⟨s, r', hrun, hr, of_decide_eq_true hval, hanswers⟩

end OrbitConsole.Memory
