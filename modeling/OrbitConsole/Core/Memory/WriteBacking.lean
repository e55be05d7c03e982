import OrbitConsole.Core.Memory.Partition
import OrbitConsole.Library.Stores

/-!
# Writing through to the backing: `TryWriteBacking`

The function collects the virtual areas of the range up to the first one without
backing and copies into their physical areas. The source pointer stays where it
is, so every physical area gets the first bytes of the buffer again, and an area
without backing behind the first one only ends the write early.
-/

namespace OrbitConsole.Memory

open Exec Stores

namespace VirtualMemoryArea

def overlaps (vma : VirtualMemoryArea) (addr size : ℕ) : Bool :=
  addr < add64 vma.base vma.size && vma.base < add64 addr size

end VirtualMemoryArea

/-- The first loop of `TryWriteBacking`; past the last area it dereferences `end ()`. -/
def vmasToWrite (virtualAddr size : ℕ) :
    List (ℕ × VirtualMemoryArea) → Exec (List VirtualMemoryArea)
  | [] => throw .undefined
  | (_, vma) :: rest =>
      if vma.overlaps virtualAddr size then
        if !hasPhysicalBacking vma then pure []
        else (vma :: ·) <$> vmasToWrite virtualAddr size rest
      else pure []

/-- The second loop: every physical area is written from the start of `data`. -/
def writeVMAs (virtualAddr : ℕ) (data : ℕ → UInt8) :
    List VirtualMemoryArea → ℕ → (ℕ → UInt8) → Exec ((ℕ → UInt8) × ℕ)
  | [], size, backing => pure (backing, size)
  | vma :: rest, size, backing => do
      let startInVma := sub64 (max virtualAddr vma.base) vma.base
      let (physHandle, _) ← findArea vma.physAreas startInVma
      let (backing, size) ← walkPhysAreas
        (fun backing phys copySize => pure (memcpy backing phys data copySize))
        startInVma (vma.physAreas.entriesFrom physHandle) size backing
      writeVMAs virtualAddr data rest size backing

namespace MemoryManager

def tryWriteBacking (s : MemoryManager) (backing : ℕ → UInt8) (address : ℕ) (data : ℕ → UInt8)
    (size : ℕ) : Exec (Bool × (ℕ → UInt8)) := do
  assertMsg (s.isValidMapping address size) "Attempted to access invalid address"
  let (currentVma, _) ← findArea s.vmaMap address
  let vmas ← vmasToWrite address size (s.vmaMap.entriesFrom currentVma)
  if vmas.isEmpty then return (false, backing)
  else do
    let (backing, _) ← writeVMAs address data vmas size backing
    return (true, backing)

end MemoryManager

/-! ### What it should do -/

def translate (m : VMAMap) (x : ℕ) : Option ℕ :=
  (cells m x).bind fun c => c.backing.map Prod.fst

/-- Where the physical area behind `x` starts in the virtual address space. -/
def areaStart (m : VMAMap) (x : ℕ) : ℕ :=
  match m.floor x with
  | some (k, v) =>
      match v.physAreas.floor (x - k) with
      | some (key, _) => k + key
      | none => k
  | none => 0

/-- The offset in the buffer from which the byte at `x` is written: its distance from the start
of the part of its physical area that lies in the range. -/
def sourceOffset (m : VMAMap) (addr x : ℕ) : ℕ := x - max addr (areaStart m x)

/-- A write of `data` to the range, as the guest sees it: the range holds the data afterwards
and no other byte has changed; a write that is refused changes nothing. -/
def WritesBack (m : VMAMap) (backing : ℕ → UInt8) (addr : ℕ) (data : ℕ → UInt8) (size : ℕ)
    (x : Exec (Bool × (ℕ → UInt8))) : Prop :=
  ∀ done backing', x = .ok (done, backing') →
    (done = true →
      (∀ i < size, ∃ p, translate m (addr + i) = some p ∧ backing' p = data i) ∧
        ∀ p, (∀ i < size, translate m (addr + i) ≠ some p) → backing' p = backing p) ∧
    (done = false → backing' = backing)

/-- The first area does not meet the range or has no backing. -/
def Refuses (m : VMAMap) (addr size : ℕ) : Prop :=
  ∃ k v, m.floor addr = some (k, v) ∧ ¬ (v.overlaps addr size ∧ hasPhysicalBacking v)

/-- Every area from the first one of the range to the end of the map meets the range and has
backing. -/
def RunsOff (m : VMAMap) (addr size : ℕ) : Prop :=
  ∃ k v, m.floor addr = some (k, v) ∧
    ∀ e ∈ m.entriesFrom k, e.2.overlaps addr size ∧ hasPhysicalBacking e.2

/-- The whole range has backing, and each byte of the buffer agrees with the one that the last
physical area over the same place writes there. -/
def SourceAgrees (m : VMAMap) (addr : ℕ) (data : ℕ → UInt8) (size : ℕ) : Prop :=
  (∀ i < size, translate m (addr + i) ≠ none) ∧
    ∀ i j, i < size → IsLast (fun i => translate m (addr + i)) size j →
      translate m (addr + j) = translate m (addr + i) →
      data i = data (sourceOffset m addr (addr + j))

variable {m : VMAMap} {U : Set ℕ} {k addr size n : ℕ} {v : VirtualMemoryArea}
  {data : ℕ → UInt8} {backing : ℕ → UInt8}

def written (m : VMAMap) (backing : ℕ → UInt8) (addr : ℕ) (data : ℕ → UInt8) (n : ℕ) :
    ℕ → UInt8 :=
  storeAll (fun i => translate m (addr + i)) (fun i => data (sourceOffset m addr (addr + i)))
    backing n

/-! ### The two loops -/

theorem VmaMapOk.translate_eq (V : VmaMapOk m U) (h : m.get? k = some v) {x : ℕ} (hle : k ≤ x)
    (hlt : x < k + v.size) (P : PhysTiles v.physAreas {i | i < v.size}) {key : ℕ}
    {a : PhysicalMemoryArea} (ha : v.physAreas.get? key = some a) (hkey : key ≤ x - k)
    (hend : x - k < key + a.size) : translate m x = some (a.base + (x - k - key)) := by
  rw [translate, V.cells_eq h hle hlt, Option.bind_some, VirtualMemoryArea.cell,
    P.bytes_eq ha hkey hend]
  rfl

theorem VmaMapOk.areaStart_eq (V : VmaMapOk m U) (h : m.get? k = some v) {x : ℕ} (hle : k ≤ x)
    (hlt : x < k + v.size) (P : PhysTiles v.physAreas {i | i < v.size}) {key : ℕ}
    {a : PhysicalMemoryArea} (ha : v.physAreas.get? key = some a) (hkey : key ≤ x - k)
    (hend : x - k < key + a.size) : areaStart m x = k + key := by
  rw [areaStart, V.tiles.floor_eq h hle hlt]
  simp only
  rw [P.tiles.floor_eq ha hkey hend]

theorem VmaMapOk.translate_eq_none (V : VmaMapOk m U) (h : m.get? k = some v) {x : ℕ}
    (hle : k ≤ x) (hlt : x < k + v.size) (hback : hasPhysicalBacking v = false) :
    translate m x = none := by
  rw [translate, V.cells_eq h hle hlt, Option.bind_some, VirtualMemoryArea.cell,
    (V.area h).unbacked hback]
  rfl

theorem VmaMapOk.memcpy_written (V : VmaMapOk m U) (h : m.get? k = some v)
    (P : PhysTiles v.physAreas {i | i < v.size}) {key : ℕ} {a : PhysicalMemoryArea}
    (ha : v.physAreas.get? key = some a) {off len : ℕ} (hoff : addr + n = k + off)
    (hkey : key ≤ off) (hend : off + len ≤ key + a.size)
    (hstart : max addr (k + key) = addr + n) :
    memcpy (written m backing addr data n) (a.base + (off - key)) data len =
      written m backing addr data (n + len) := by
  have hbound := P.end_le ha
  refine memcpy_storeAll len (fun i hi => ?_) (fun i hi => ?_)
  · rw [V.translate_eq h (by omega) (by omega) P ha (by omega) (by omega), Option.some.injEq]
    omega
  · rw [sourceOffset, V.areaStart_eq h (by omega) (by omega) P ha (by omega) (by omega), hstart]
    congr 1
    omega

theorem VmaMapOk.writeVMA_ok (V : VmaMapOk m U) (h : m.get? k = some v)
    (hback : hasPhysicalBacking v = true) (hle : k ≤ addr + n) (hlt : addr + n < k + v.size)
    (hfirst : k < addr + n → n = 0) (hn : n ≤ size) (hend : addr + size ≤ 9223372036854775808)
    (rest : List VirtualMemoryArea) :
    writeVMAs addr data (v :: rest) (size - n) (written m backing addr data n) =
      writeVMAs addr data rest (size - min size (k + v.size - addr))
        (written m backing addr data (min size (k + v.size - addr))) := by
  have hbound := V.bounded h
  have P := (V.area h).backed hback
  have hstart : sub64 (max addr v.base) v.base = addr + n - k := by
    rw [V.base_eq h]
    rcases Nat.lt_or_ge k (addr + n) with hk | hk
    · obtain rfl := hfirst hk
      rw [max_eq_left (by omega), sub64_eq (by omega) (by omega)]
      omega
    · rw [max_eq_right (by omega), sub64_eq le_rfl (by omega)]
      omega
  obtain ⟨key, a, ha, hkey, hkey'⟩ :=
    (P.tiles.mem_iff (addr + n - k)).1 (show addr + n - k < v.size by omega)
  have hfloor := P.tiles.floor_eq ha hkey hkey'
  have hargs : addr + min size (k + v.size - addr) - k - (addr + n - k) +
      (size - min size (k + v.size - addr)) = size - n := by omega
  have hinv : written m backing addr data n =
      written m backing addr data (k + (addr + n - k) - addr) := by
    congr 1
    omega
  have hwalk : Exec.Spec True
      (walkPhysAreas (fun backing phys copySize => pure (memcpy backing phys data copySize))
        (addr + n - k) (v.physAreas.entriesFrom key)
        (addr + min size (k + v.size - addr) - k - (addr + n - k) +
          (size - min size (k + v.size - addr)))
        (written m backing addr data n))
      fun r => r.2 = size - min size (k + v.size - addr) ∧
        r.1 = written m backing addr data
          (k + (addr + min size (k + v.size - addr) - k) - addr) := by
    refine walkPhysAreas_extra_spec (fun off b => b = written m backing addr data (k + off - addr))
      P (by omega) hfloor (by omega) (by omega) (by omega) (by omega) (by omega) hinv ?_
    intro x b hx off len st hoff hlen hfits hstop hst
    subst hst
    have hcopy : memcpy (written m backing addr data (k + off - addr)) (b.base + (off - x)) data
        len = written m backing addr data (k + off - addr + len) :=
      V.memcpy_written h P hx (by omega) (by omega) hfits (by omega)
    rw [hcopy]
    refine Exec.Spec.pure ?_
    congr 1
    omega
  obtain ⟨⟨b, left⟩, hb⟩ := hwalk.1 trivial
  obtain ⟨rfl, rfl⟩ := hwalk.2 _ hb
  rw [hargs] at hb
  have hfind : findArea v.physAreas (addr + n - k) = .ok (key, a) := findArea_eq_ok.2 hfloor
  have hreach : k + (addr + min size (k + v.size - addr) - k) - addr =
      min size (k + v.size - addr) := by omega
  simp only [writeVMAs, hstart, hfind, hb, bind, Except.bind]
  rw [hreach]

theorem VmaMapOk.overlaps_iff (V : VmaMapOk m U) (h : m.get? k = some v)
    (hend : addr + size ≤ 9223372036854775808) :
    v.overlaps addr size = true ↔ addr < k + v.size ∧ k < addr + size := by
  have hbound := V.bounded h
  rw [VirtualMemoryArea.overlaps, V.base_eq h, add64_eq (by omega), add64_eq (by omega)]
  simp

theorem vmasToWrite_returns (l : List (ℕ × VirtualMemoryArea)) :
    (∃ vs, vmasToWrite addr size l = .ok vs) ↔
      ¬ ∀ e ∈ l, e.2.overlaps addr size ∧ hasPhysicalBacking e.2 := by
  induction l with
  | nil => simp [vmasToWrite]
  | cons e l ih =>
      obtain ⟨k, v⟩ := e
      rw [vmasToWrite, List.forall_mem_cons]
      by_cases hover : v.overlaps addr size
      · by_cases hback : hasPhysicalBacking v
        · simp only [hover, hback, if_true, Bool.not_true, Bool.false_eq_true, if_false, true_and,
            ← ih, map_eq_ok]
          exact ⟨fun ⟨_, vs, hvs, _⟩ => ⟨vs, hvs⟩, fun ⟨vs, hvs⟩ => ⟨_, vs, hvs, rfl⟩⟩
        · simp [hover, hback]
      · simp [hover]

theorem vmasToWrite_eq_nil {e : ℕ × VirtualMemoryArea} {l : List (ℕ × VirtualMemoryArea)}
    {vs : List VirtualMemoryArea} (hvs : vmasToWrite addr size (e :: l) = .ok vs) :
    vs = [] ↔ ¬ (e.2.overlaps addr size ∧ hasPhysicalBacking e.2) := by
  obtain ⟨k, v⟩ := e
  rw [vmasToWrite] at hvs
  by_cases hover : v.overlaps addr size
  · by_cases hback : hasPhysicalBacking v
    · simp only [hover, hback, if_true, Bool.not_true, Bool.false_eq_true, if_false] at hvs
      obtain ⟨vs', -, rfl⟩ := map_eq_ok.1 hvs
      simp [hover, hback]
    · simp only [hover, hback, if_true, Bool.not_false, pure_eq_ok] at hvs
      simp [← hvs, hback]
  · simp only [hover, Bool.false_eq_true, if_false, pure_eq_ok] at hvs
    simp [← hvs, hover]

theorem VmaMapOk.writeRun_ok (V : VmaMapOk m U) (data backing : ℕ → UInt8)
    (hend : addr + size ≤ 9223372036854775808)
    (l : List (ℕ × VirtualMemoryArea)) (n : ℕ) (hl : ∀ e ∈ l, m.get? e.1 = some e.2)
    (hsorted : l.Pairwise fun e e' => e.1 + e.2.size ≤ e'.1)
    (hfirst : ∀ e ∈ l, addr + n < e.1 + e.2.size ∧ (e.1 < addr + n → n = 0))
    (hcover : ∀ x, addr + n ≤ x → x < addr + size → ∃ e ∈ l, e.1 ≤ x ∧ x < e.1 + e.2.size)
    (hn : n ≤ size) {vs : List VirtualMemoryArea} (hvs : vmasToWrite addr size l = .ok vs) :
    ∃ n' left, n' ≤ size ∧ (n' = size ∨ translate m (addr + n') = none) ∧
      writeVMAs addr data vs (size - n) (written m backing addr data n) =
        .ok (written m backing addr data n', left) := by
  induction l generalizing n vs with
  | nil => cases hvs
  | cons e l ih =>
      obtain ⟨k, v⟩ := e
      have hk : m.get? k = some v := hl (k, v) (by simp)
      obtain ⟨hlt, hzero⟩ := hfirst (k, v) (by simp)
      rw [List.pairwise_cons] at hsorted
      simp only at hlt hzero
      -- as long as a byte is left the first area covers the next one
      have hcovers : n < size → k ≤ addr + n := by
        intro hlt
        obtain ⟨e, he, hle, -⟩ := hcover (addr + n) le_rfl (by omega)
        rcases List.mem_cons.1 he with rfl | he
        · exact hle
        · have := hsorted.1 e he
          simp only at this
          omega
      have hover := V.overlaps_iff hk hend
      rw [vmasToWrite] at hvs
      split at hvs
      · next ho =>
          rw [hover] at ho
          split at hvs
          · next hback =>
              obtain rfl : [] = vs := by simpa using hvs
              refine ⟨n, size - n, hn, ?_, rfl⟩
              rcases Nat.lt_or_eq_of_le hn with hlt' | heq
              · exact .inr (V.translate_eq_none hk (hcovers hlt') hlt (by simpa using hback))
              · exact .inl heq
          · next hback =>
              obtain ⟨vs', hvs', rfl⟩ := map_eq_ok.1 hvs
              have hle : k ≤ addr + n := by
                rcases Nat.lt_or_eq_of_le hn with hlt' | heq
                · exact hcovers hlt'
                · omega
              rw [V.writeVMA_ok hk (by simpa using hback) hle hlt hzero hn hend]
              refine ih _ (fun e he => hl e (List.mem_cons_of_mem _ he)) hsorted.2
                (fun e he => ?_) (fun x hx hx' => ?_) (by omega) hvs'
              · have hnext := hsorted.1 e he
                have hpos := V.tiles.pos (hl e (List.mem_cons_of_mem _ he))
                simp only at hnext
                constructor <;> omega
              · obtain ⟨e, he, hle', hlt'⟩ := hcover x (by omega) hx'
                rcases List.mem_cons.1 he with rfl | he
                · simp only at hlt'
                  omega
                · exact ⟨e, he, hle', hlt'⟩
      · next ho =>
          obtain rfl : [] = vs := by simpa using hvs
          rw [hover] at ho
          refine ⟨n, size - n, hn, .inl ?_, rfl⟩
          by_contra hne
          have := hcovers (by omega)
          omega

/-! ### The whole call -/

variable {cfg : Config} {s₀ s : MemoryManager}

theorem exists_floor_of_isValidMapping (h : s.isValidMapping addr size = true) :
    ∃ k v, s.vmaMap.floor addr = some (k, v) := by
  unfold MemoryManager.isValidMapping at h
  split at h
  · next hfloor => exact ⟨_, _, hfloor⟩
  · cases h

theorem writesBack_written_iff :
    ((∀ i < size, ∃ p, translate m (addr + i) = some p ∧
        written m backing addr data size p = data i) ∧
      ∀ p, (∀ i < size, translate m (addr + i) ≠ some p) →
        written m backing addr data size p = backing p) ↔ SourceAgrees m addr data size := by
  have hframe : ∀ p, (∀ i < size, translate m (addr + i) ≠ some p) →
      written m backing addr data size p = backing p := fun p hp => storeAll_of_forall_ne hp
  rw [and_iff_left hframe]
  exact storeAll_eq_iff

theorem tryWriteBacking_eq (hvalid : s.isValidMapping addr size = true)
    (hfloor : s.vmaMap.floor addr = some (k, v)) {vs : List VirtualMemoryArea}
    (hvs : vmasToWrite addr size (s.vmaMap.entriesFrom k) = .ok vs) :
    s.tryWriteBacking backing addr data size =
      if vs.isEmpty then pure (false, backing)
      else do
        let (backing, _) ← writeVMAs addr data vs size backing
        return (true, backing) := by
  have hfind : findArea s.vmaMap addr = .ok (k, v) := findArea_eq_ok.2 hfloor
  rw [MemoryManager.tryWriteBacking, assertMsg, if_pos hvalid]
  simp only [hfind, hvs, bind, Except.bind]

/-- In every reachable state and for every valid range and buffer, `TryWriteBacking` returns
unless it runs off the map, and what it leaves in the backing is the write the guest sees
exactly when it refuses, does not return, or the source agrees. -/
theorem tryWriteBacking_iff (hfresh : Fresh cfg s₀)
    (hreach : Reachable (fun _ c => c.Promised) s₀ s) (addr size : UInt64)
    (hvalid : s.isValidMapping addr.toNat size.toNat = true) (data backing : ℕ → UInt8) :
    ((∃ r, s.tryWriteBacking backing addr.toNat data size.toNat = .ok r) ↔
      ¬ RunsOff s.vmaMap addr.toNat size.toNat) ∧
    (WritesBack s.vmaMap backing addr.toNat data size.toNat
        (s.tryWriteBacking backing addr.toNat data size.toNat) ↔
      Refuses s.vmaMap addr.toNat size.toNat ∨ RunsOff s.vmaMap addr.toNat size.toNat ∨
        SourceAgrees s.vmaMap addr.toNat data size.toNat) := by
  have V : VmaMapOk s.vmaMap cfg.regions.addresses :=
    (hreach.regular hfresh fun _ _ hc => hc).vma
  generalize hA : addr.toNat = A at hvalid ⊢
  generalize hS : size.toNat = S at hvalid ⊢
  have hsize : S < 18446744073709551616 := hS ▸ size.toNat_lt
  obtain ⟨k, v, hfloor⟩ := exists_floor_of_isValidMapping hvalid
  obtain ⟨hk, hle, -⟩ := OrderedMap.floor_eq_some_iff.1 hfloor
  have hbound := V.bounded hk
  obtain ⟨l, hl⟩ := OrderedMap.entriesFrom_eq_cons hk
  have hruns : RunsOff s.vmaMap A S ↔
      ∀ e ∈ s.vmaMap.entriesFrom k, e.2.overlaps A S ∧ hasPhysicalBacking e.2 := by
    constructor
    · rintro ⟨k', v', hfloor', hall⟩
      obtain ⟨rfl, rfl⟩ := Prod.mk.inj (Option.some.inj (hfloor.symm.trans hfloor'))
      exact hall
    · exact fun hall => ⟨k, v, hfloor, hall⟩
  have hrefuses : Refuses s.vmaMap A S ↔ ¬ (v.overlaps A S ∧ hasPhysicalBacking v) := by
    constructor
    · rintro ⟨k', v', hfloor', hnot⟩
      obtain ⟨rfl, rfl⟩ := Prod.mk.inj (Option.some.inj (hfloor.symm.trans hfloor'))
      exact hnot
    · exact fun hnot => ⟨k, v, hfloor, hnot⟩
  cases hvs : vmasToWrite A S (s.vmaMap.entriesFrom k) with
  | error e =>
      have hoff : RunsOff s.vmaMap A S := by
        rw [hruns]
        by_contra hall
        obtain ⟨vs, hok⟩ := (vmasToWrite_returns _).2 hall
        rw [hvs] at hok
        cases hok
      have herror : s.tryWriteBacking backing A data S = .error e := by
        have hfind : findArea s.vmaMap A = .ok (k, v) := findArea_eq_ok.2 hfloor
        rw [MemoryManager.tryWriteBacking, assertMsg, if_pos hvalid]
        simp only [hfind, hvs, bind, Except.bind]
      rw [herror]
      refine ⟨⟨fun h => (by obtain ⟨r, hr⟩ := h; cases hr), fun hnot => absurd hoff hnot⟩,
        fun _ => .inr (.inl hoff), fun _ done backing' hx => (by cases hx)⟩
  | ok vs =>
      have hon : ¬ RunsOff s.vmaMap A S := hruns.not.2 ((vmasToWrite_returns _).1 ⟨vs, hvs⟩)
      rw [tryWriteBacking_eq hvalid hfloor hvs]
      have hnil := vmasToWrite_eq_nil (hl ▸ hvs)
      rw [← hrefuses] at hnil
      by_cases hempty : vs = []
      · subst hempty
        have hrefuse := hnil.1 rfl
        refine ⟨⟨fun _ => hon, fun _ => ⟨_, rfl⟩⟩, fun _ => .inl hrefuse,
          fun _ done backing' hx => ?_⟩
        obtain ⟨rfl, rfl⟩ := Prod.mk.inj (Except.ok.inj hx)
        exact ⟨fun hdone => (by cases hdone), fun _ => rfl⟩
      · have hrefuse : ¬ Refuses s.vmaMap A S := fun h => hempty (hnil.2 h)
        obtain ⟨hover, -⟩ := not_not.1 (hrefuses.not.1 hrefuse)
        have hlt : A < k + v.size := by
          rw [VirtualMemoryArea.overlaps, V.base_eq hk, add64_eq (by omega)] at hover
          simp only [Bool.and_eq_true, decide_eq_true_eq] at hover
          exact hover.1
        have hmem := V.tiles.mem_of_get? hk hle hlt
        have hrange := isValidMapping_subset V hmem hsize hvalid
        have hend : A + S ≤ 9223372036854775808 := by
          rcases Nat.eq_zero_or_pos S with rfl | hpos
          · omega
          · have := V.lt_of_mem (hrange ⟨show A ≤ A + S - 1 by omega, by omega⟩)
            omega
        have hfirst : ∀ e ∈ s.vmaMap.entriesFrom k,
            A + 0 < e.1 + e.2.size ∧ (e.1 < A + 0 → 0 = 0) := by
          intro e he
          obtain ⟨he, hke⟩ := OrderedMap.mem_entriesFrom.1 he
          have hpos := V.tiles.pos he
          refine ⟨?_, fun _ => rfl⟩
          rcases Nat.eq_or_lt_of_le hke with heq | hgt
          · obtain rfl : v = e.2 := Option.some.inj (hk.symm.trans (heq ▸ he))
            omega
          · have := V.tiles.disjoint hk he hgt
            omega
        have hcover : ∀ x, A + 0 ≤ x → x < A + S →
            ∃ e ∈ s.vmaMap.entriesFrom k, e.1 ≤ x ∧ x < e.1 + e.2.size := by
          intro x hx hx'
          obtain ⟨k', v', hk', hle', hlt'⟩ := (V.tiles.mem_iff x).1 (hrange ⟨hx, hx'⟩)
          refine ⟨(k', v'), OrderedMap.mem_entriesFrom.2 ⟨hk', ?_⟩, hle', hlt'⟩
          by_contra hlt''
          have := V.tiles.disjoint hk' hk (by omega)
          omega
        obtain ⟨n, left, hn, hstop, hwrite⟩ := V.writeRun_ok data backing hend
          (s.vmaMap.entriesFrom k) 0 (fun e he => (OrderedMap.mem_entriesFrom.1 he).1)
          (V.tiles.entries_pairwise.filter _) hfirst hcover (Nat.zero_le _) hvs
        rw [List.isEmpty_eq_false_iff.2 hempty]
        change writeVMAs A data vs S backing = _ at hwrite
        simp only [hwrite, Bool.false_eq_true, if_false, bind, Except.bind, pure, Except.pure]
        refine ⟨⟨fun _ => hon, fun _ => ⟨_, rfl⟩⟩, ?_⟩
        rw [or_iff_right hrefuse, or_iff_right hon]
        constructor
        · intro h
          obtain ⟨hdone, -⟩ := h true _ rfl
          obtain ⟨hbytes, hframe⟩ := hdone rfl
          rcases hstop with rfl | hnone
          · exact writesBack_written_iff.1 ⟨hbytes, hframe⟩
          · rcases Nat.lt_or_eq_of_le hn with hlt | rfl
            · obtain ⟨p, hp, -⟩ := hbytes n hlt
              rw [hnone] at hp
              cases hp
            · exact writesBack_written_iff.1 ⟨hbytes, hframe⟩
        · intro h done backing' hx
          obtain ⟨rfl, rfl⟩ := Prod.mk.inj (Except.ok.inj hx)
          refine ⟨fun _ => ?_, fun hdone => (by cases hdone)⟩
          obtain rfl : n = S := by
            by_contra hne
            exact h.1 n (by omega) (hstop.resolve_left hne)
          exact writesBack_written_iff.2 h

/-- Two neighbouring pages of the guest whose backing lies apart. -/
def scatteredCalls : List Call :=
  [.allocate 0 0x10000 0x4000 0 0, .allocate 0x8000 0x10000 0x4000 0 0,
    .mapMemory 0x200000000 0x4000 3 0x10 .direct "low" false 0 0,
    .mapMemory 0x200004000 0x4000 3 0x10 .direct "high" false 0x8000 0]

theorem scatteredCalls_reachable {s : MemoryManager}
    (h : runCalls Config.retail.start scatteredCalls = .ok s) :
    Reachable (fun _ c => c.Promised) Config.retail.start s := by
  refine runCalls_reachable .start (fun c hc _ => ?_) h
  simp only [scatteredCalls, List.mem_cons, List.not_mem_nil, or_false] at hc
  rcases hc with rfl | rfl | rfl | rfl <;> simp [Call.Promised]

theorem tryWriteBacking_iff_sample : ∃ s, runCalls Config.retail.start scatteredCalls = .ok s ∧
    ((∃ r, s.tryWriteBacking (fun _ => 0) (0x200000000 : UInt64).toNat (fun _ => 1)
        (0x8000 : UInt64).toNat = .ok r) ↔
      ¬ RunsOff s.vmaMap (0x200000000 : UInt64).toNat (0x8000 : UInt64).toNat) := by
  obtain ⟨s, hs, hvalid⟩ : ∃ s, runCalls Config.retail.start scatteredCalls = .ok s ∧
      s.isValidMapping (0x200000000 : UInt64).toNat (0x8000 : UInt64).toNat = true :=
    exists_of_any (by decide)
  exact ⟨s, hs, (tryWriteBacking_iff fresh_retail (scatteredCalls_reachable hs) 0x200000000 0x8000
    hvalid (fun _ => 1) fun _ => 0).1⟩

/-- The second page gets the bytes of the first. -/
theorem tryWriteBacking_fails : ∃ s, Reachable (fun _ c => c.Promised) Config.retail.start s ∧
    s.isValidMapping 0x200000000 0x8000 = true ∧
    ¬ WritesBack s.vmaMap (fun _ => 0) 0x200000000 (fun i => if i < 0x4000 then 1 else 2) 0x8000
      (s.tryWriteBacking (fun _ => 0) 0x200000000 (fun i => if i < 0x4000 then 1 else 2)
        0x8000) := by
  obtain ⟨s, hs, hall⟩ : ∃ s, runCalls Config.retail.start scatteredCalls = .ok s ∧
      (s.isValidMapping 0x200000000 0x8000 &&
        decide (translate s.vmaMap 0x200004000 = some 0x8000) &&
        (s.tryWriteBacking (fun _ => 0) 0x200000000 (fun i => if i < 0x4000 then 1 else 2)
          0x8000).toOption.any fun r => r.1 && r.2 0x8000 == 1) = true :=
    exists_of_any (by decide)
  simp only [Bool.and_eq_true, decide_eq_true_eq] at hall
  obtain ⟨⟨hvalid, htrans⟩, hany⟩ := hall
  obtain ⟨⟨done, backing'⟩, hr, hval⟩ := exists_of_any hany
  simp only [Bool.and_eq_true, beq_iff_eq] at hval
  refine ⟨s, scatteredCalls_reachable hs, hvalid, fun hback => ?_⟩
  obtain ⟨p, hp, hbyte⟩ := ((hback _ _ hr).1 hval.1).1 0x4000 (by omega)
  obtain rfl : 0x8000 = p := Option.some.inj (htrans.symm.trans hp)
  rw [hval.2] at hbyte
  exact absurd hbyte (by decide)

end OrbitConsole.Memory
