import OrbitConsole.Core.Memory.RangeChecks

/-!
# Protections and names, byte by byte

`Protect` and `NameVirtualRange` change the cells of a range one area at a time: carve,
assign, merge. `Updated g start stop m m'` says that `m'` shows the cells of `m` with `g`
applied on `[start, stop)`.
-/

namespace OrbitConsole.Memory

open Exec Tiling

variable {m m' : VMAMap} {U : Set ℕ} {k addr size start mid stop : ℕ} {v : VirtualMemoryArea}
  {g : Cell → Cell} {f : VirtualMemoryArea → VirtualMemoryArea}

def Updated (g : Cell → Cell) (start stop : ℕ) (m m' : VMAMap) : Prop :=
  ∀ x, cells m' x = if start ≤ x ∧ x < stop then (cells m x).map g else cells m x

theorem Updated.refl_empty : Updated g start start m m := by
  intro x
  rw [if_neg (by omega)]

theorem Updated.trans {m₁ m₂ : VMAMap} (h : Updated g start mid m m₁)
    (h' : Updated g mid stop m₁ m₂) (hle : start ≤ mid) (hle' : mid ≤ stop) :
    Updated g start stop m m₂ := by
  intro x
  rw [h' x, h x]
  by_cases hlow : start ≤ x ∧ x < mid
  · rw [if_neg (by omega), if_pos hlow, if_pos (by omega)]
  · rw [if_neg hlow]
    by_cases hhigh : mid ≤ x ∧ x < stop
    · rw [if_pos hhigh, if_pos (by omega)]
    · rw [if_neg hhigh, if_neg (by omega)]

theorem Updated.congr {m₁ m₂ : VMAMap} (h : Updated g start stop m m')
    (hm : ∀ x, cells m x = cells m₁ x) (hm' : ∀ x, cells m₂ x = cells m' x) :
    Updated g start stop m₁ m₂ := by
  intro x
  rw [hm', h x, hm]

theorem VmaMapOk.updated_of_fixed (V : VmaMapOk m U) (h : m.get? k = some v)
    (hle : k ≤ start) (hstop : stop ≤ k + v.size) (hg : ∀ i, g (v.cell i) = v.cell i) :
    Updated g start stop m m := by
  intro x
  split
  · rw [V.cells_eq h (by omega) (by omega), Option.map_some, hg]
  · rfl

structure Applies (g : Cell → Cell) (f : VirtualMemoryArea → VirtualMemoryArea)
    (T : VMAType) : Prop extends Relabelling f where
  cell_eq : ∀ v i, v.type = T → (f v).cell i = g (v.cell i)

theorem Applies.modify_merge (hf : Applies g f v.type) (V : VmaMapOk m U)
    (h : m.get? k = some v) :
    ∃ m₂ k₂ v₂, mergeAdjacentVMA (m.modify k f) k = .ok (m₂, k₂) ∧ VmaMapOk m₂ U ∧
      Updated g k (k + v.size) m m₂ ∧ m₂.get? k₂ = some v₂ ∧ k₂ ≤ k ∧
      k + v.size ≤ k₂ + v₂.size := by
  obtain ⟨V₁, hcells, hget⟩ := V.modify h (hf.base v) (hf.size v) (hf.vmaOk (V.area h))
  obtain ⟨m₂, k₂, v₂, hmerge, hcut, hget₂, hle, hend⟩ := mergeAdjacentVMA_ok V₁ hget
  rw [hf.size] at hend
  refine ⟨m₂, k₂, v₂, hmerge, hcut.ok, fun x => ?_, hget₂, hle, hend⟩
  rw [hcut.cells_eq, hcells]
  split
  · next hx => rw [V.cells_eq h hx.1 hx.2, hf.cell_eq v _ rfl, Option.map_some]
  · rfl

theorem Applies.carve_modify_merge (hf : Applies g f v.type) (V : VmaMapOk m U)
    (h : m.get? k = some v) (hle : k ≤ addr) (hpos : 0 < size)
    (hend : addr + size ≤ k + v.size) :
    ∃ m₁ m₂ k₂ v₂, carveVMA m addr size = .ok (m₁, addr) ∧
      mergeAdjacentVMA (m₁.modify addr f) addr = .ok (m₂, k₂) ∧ VmaMapOk m₂ U ∧
      Updated g addr (addr + size) m m₂ ∧ m₂.get? k₂ = some v₂ ∧ k₂ ≤ addr ∧
      addr + size ≤ k₂ + v₂.size := by
  have hbound := V.bounded h
  obtain ⟨m₁, hcarve⟩ := carveVMA_returns V h hle hpos hend
  obtain ⟨-, hcarved⟩ := carveVMA_ok V (by omega) (by omega) hcarve
  obtain ⟨w, hw, hsize⟩ := hcarved.area
  simp only at hw hcarved
  -- the carved area has the type of the area it was cut from
  have htype : w.type = v.type := by
    have hcell := hcarved.cells_eq addr
    rw [hcarved.ok.cells_eq hw le_rfl (by omega), V.cells_eq h hle (by omega),
      Option.some.injEq] at hcell
    exact congrArg Cell.type hcell
  obtain ⟨m₂, k₂, v₂, hmerge, V₂, hup, hget, hle₂, hend₂⟩ :=
    Applies.modify_merge (htype ▸ hf) hcarved.ok hw
  rw [hsize] at hup hend₂
  exact ⟨m₁, m₂, k₂, v₂, hcarve, hmerge, V₂, hup.congr hcarved.cells_eq fun _ => rfl, hget, hle₂,
    hend₂⟩

/-! ### `Protect` -/

/-- What `ProtectBytes` makes of the protection it is given, on an area of a type. -/
def hiddenExec (type : VMAType) (prot : MemoryProt) : MemoryProt :=
  if type = .direct ∨ type = .pooled ∨ type = .file then prot &&& ~~~MemoryProt.cpuExec else prot

def protectCell (prot : MemoryProt) (c : Cell) : Cell :=
  if c.type = .free ∨ c.type = .poolReserved then c
  else { c with prot := hiddenExec c.type (withRead prot) }

theorem applies_prot {T : VMAType} (prot : MemoryProt)
    (hfree : ¬ (T = .free ∨ T = .poolReserved)) :
    Applies (protectCell prot)
      (fun newVma => { newVma with prot := hiddenExec T (withRead prot) }) T where
  toRelabelling := relabelling_prot _
  cell_eq v i ht := by
    subst ht
    exact (if_neg hfree).symm

variable {s : MemoryManager} {prot : MemoryProt} {name : String}

theorem protectBytes_cells (prot : MemoryProt) (V : VmaMapOk s.vmaMap U)
    (h : s.vmaMap.get? k = some v) (hle : k ≤ addr) (hlt : addr < k + v.size) (hpos : 0 < size) :
    ∃ m', s.protectBytes addr v size prot =
        .ok (min (k + v.size - addr) size, { s with vmaMap := m' }) ∧ VmaMapOk m' U ∧
      Updated (protectCell prot) addr (addr + min (k + v.size - addr) size) s.vmaMap m' := by
  have hbound := V.bounded h
  have hin : sub64 v.size (sub64 addr v.base) = k + v.size - addr := by
    rw [V.base_eq h, sub64_eq hle (by omega), sub64_eq (by omega) (by omega)]
    omega
  unfold MemoryManager.protectBytes
  simp only [hin]
  split
  · next hfree =>
      refine ⟨s.vmaMap, rfl, V, V.updated_of_fixed h hle (by omega) fun i => ?_⟩
      rw [protectCell]
      exact if_pos hfree
  · next hfree =>
      obtain ⟨m₁, m₂, k₂, v₂, hcarve, hmerge, V₂, hup, -⟩ :=
        (applies_prot prot hfree).carve_modify_merge V h hle
          (show 0 < min (k + v.size - addr) size by omega) (by omega)
      refine ⟨m₂, ?_, V₂, hup⟩
      rw [hcarve]
      simp only [hiddenExec, withRead] at hmerge
      simp only [bind, Except.bind, hmerge, pure, Except.pure]

theorem protectLoop_cells (V : VmaMapOk s.vmaMap U) (hrange : Set.Ico addr (addr + size) ⊆ U)
    (hend : addr + size ≤ 9223372036854775808) (rounds done : ℕ) (hdone : done ≤ size)
    (hrounds : size < done + rounds) :
    ∃ m', MemoryManager.protectLoop addr size prot rounds done s =
        .ok (orbisOk, { s with vmaMap := m' }) ∧ VmaMapOk m' U ∧
      Updated (protectCell prot) (addr + done) (addr + size) s.vmaMap m' := by
  induction rounds generalizing s done with
  | zero => omega
  | succ rounds ih =>
      rw [MemoryManager.protectLoop]
      split
      · next hlt =>
          obtain ⟨k, v, hk, hle, hin⟩ := (V.tiles.mem_iff (addr + done)).1
            (hrange ⟨by omega, by omega⟩)
          have hbound := V.bounded hk
          have hfind : findArea s.vmaMap (addr + done) = .ok (k, v) :=
            findArea_eq_ok.2 (V.tiles.floor_eq hk hle hin)
          obtain ⟨m₁, hbytes, V₁, hup⟩ := protectBytes_cells prot V hk hle hin
            (show 0 < size - done by omega)
          have hsub : sub64 size done = size - done := sub64_eq hlt.le (by omega)
          rw [add64_eq (show addr + done < _ by omega)]
          simp only [hfind, bind, Except.bind, V.base_eq hk]
          rw [if_neg (by omega), add64_eq (show addr + done < _ by omega), hsub, hbytes]
          generalize hn : min (k + v.size - (addr + done)) (size - done) = n at hup ⊢
          have hsum : addr + done + n = addr + (done + n) := by omega
          rw [hsum] at hup
          simp only
          split
          · -- only the whole of a map of 2 ^ 63 bytes gives a result that counts as an error
            next hbig =>
              obtain rfl : n = 9223372036854775808 := by omega
              have hall : done + 9223372036854775808 = size := by omega
              rw [hall] at hup
              exact ⟨m₁, rfl, V₁, hup⟩
          · obtain ⟨m₂, hloop, V₂, hup'⟩ := ih (s := { s with vmaMap := m₁ }) V₁ (done + n)
              (by omega) (by omega)
            rw [add64_eq (show done + n < _ by omega)]
            exact ⟨m₂, hloop, V₂, hup.trans hup' (by omega) (by omega)⟩
      · next hge =>
          obtain rfl : done = size := by omega
          exact ⟨s.vmaMap, rfl, V, Updated.refl_empty⟩

theorem protect_cells (prot : MemoryProt) (V : VmaMapOk s.vmaMap U)
    (hrange : Set.Ico addr (addr + size) ⊆ U) (hsize : size < 18446744073709551616) :
    ∃ m', s.protect addr size prot = .ok (orbisOk, { s with vmaMap := m' }) ∧
      VmaMapOk m' U ∧ Updated (protectCell prot) addr (addr + size) s.vmaMap m' := by
  unfold MemoryManager.protect
  split
  · next hzero =>
      subst hzero
      exact ⟨s.vmaMap, rfl, V, Updated.refl_empty⟩
  · next hpos =>
      have hmem : addr ∈ U := hrange ⟨le_rfl, by omega⟩
      have hvalid := (isValidMapping_iff_of_mem V hmem hsize).2 hrange
      have hlast := V.lt_of_mem (hrange ⟨show addr ≤ addr + size - 1 by omega, by omega⟩)
      rw [assertMsg, if_pos hvalid]
      exact protectLoop_cells V hrange (by omega) (size + 1) 0 (by omega) (by omega)

/-! ### `NameVirtualRange` -/

def nameCell (name : String) (c : Cell) : Cell :=
  if c.type = .free then c else { c with name := name }

theorem applies_name {T : VMAType} (name : String) (hfree : T ≠ .free) :
    Applies (nameCell name) (fun newVma => { newVma with name := name }) T where
  toRelabelling := relabelling_name _
  cell_eq v i ht := by
    subst ht
    exact (if_neg hfree).symm

theorem nameArea_cells (name : String) (V : VmaMapOk m U) (h : m.get? k = some v) (hle : k ≤ addr)
    (hpos : 0 < size) (hend : addr + size ≤ k + v.size) :
    ∃ m₁ k₁ m₂ k₂ v₂, MemoryManager.nameArea m name k addr size = .ok (m₁, k₁) ∧
      mergeAdjacentVMA m₁ k₁ = .ok (m₂, k₂) ∧ VmaMapOk m₂ U ∧
      Updated (nameCell name) addr (addr + size) m m₂ ∧ m₂.get? k₂ = some v₂ ∧ k₂ ≤ addr ∧
      addr + size ≤ k₂ + v₂.size := by
  have hderef : deref m k = .ok v := deref_eq_ok.2 h
  unfold MemoryManager.nameArea
  simp only [hderef, bind, Except.bind]
  by_cases hfree : v.type = .free
  · obtain ⟨m₂, k₂, v₂, hmerge, hcut, hget, hle₂, hend₂⟩ := mergeAdjacentVMA_ok V h
    have hup : Updated (nameCell name) addr (addr + size) m m :=
      V.updated_of_fixed h hle hend fun i => if_pos hfree
    refine ⟨m, k, m₂, k₂, v₂, ?_, hmerge, hcut.ok, hup.congr (fun _ => rfl) hcut.cells_eq, hget,
      by omega, by omega⟩
    rw [if_pos (by simp [VirtualMemoryArea.isFree, hfree])]
    rfl
  · rw [if_neg (by simp [VirtualMemoryArea.isFree, hfree])]
    by_cases hpart : size < v.size
    · obtain ⟨m₁, m₂, k₂, v₂, hcarve, hmerge, V₂, hup, hget, hle₂, hend₂⟩ :=
        (applies_name name hfree).carve_modify_merge V h hle hpos hend
      refine ⟨_, addr, m₂, k₂, v₂, ?_, hmerge, V₂, hup, hget, hle₂, hend₂⟩
      rw [if_pos hpart, hcarve]
      rfl
    · obtain rfl : k = addr := by omega
      obtain rfl : size = v.size := by omega
      obtain ⟨m₂, k₂, v₂, hmerge, V₂, hup, hget, hle₂, hend₂⟩ :=
        (applies_name name hfree).modify_merge V h
      refine ⟨_, k, m₂, k₂, v₂, ?_, hmerge, V₂, hup, hget, hle₂, hend₂⟩
      rw [if_neg hpart]
      rfl

theorem VmaMapOk.next_eq (V : VmaMapOk m U) (h : m.get? k = some v) (hmem : k + v.size ∈ U) :
    ∃ w, m.next k = some (k + v.size, w) ∧ m.get? (k + v.size) = some w := by
  obtain ⟨k', w, hk', hle, hlt⟩ := (V.tiles.mem_iff _).1 hmem
  have hpos := V.tiles.pos h
  obtain rfl : k' = k + v.size := by
    by_contra hne
    have := V.tiles.end_le h hk' (by omega)
    omega
  refine ⟨w, OrderedMap.next_eq_some_iff.2 ⟨hk', by omega, fun x b hx hkx => ?_⟩, hk'⟩
  exact V.tiles.disjoint h hx hkx

theorem nameLoop_cells (name : String) (hrange : Set.Ico start stop ⊆ U)
    (hend : stop ≤ 9223372036854775808) (rounds : ℕ) (handle : Option ℕ) (currentAddr : ℕ)
    (V : VmaMapOk m U)
    (hstart : start ≤ currentAddr) (hstop : currentAddr ≤ stop)
    (hhandle : currentAddr < stop → ∃ k v, handle = some k ∧ m.get? k = some v ∧
      k ≤ currentAddr ∧ currentAddr < k + v.size)
    (hrounds : stop - currentAddr < rounds) :
    ∃ m', MemoryManager.nameLoop name rounds handle currentAddr (stop - currentAddr) m =
        .ok m' ∧ VmaMapOk m' U ∧ Updated (nameCell name) currentAddr stop m m' := by
  induction rounds generalizing m handle currentAddr with
  | zero => omega
  | succ rounds ih =>
      rcases Nat.eq_or_lt_of_le hstop with rfl | hlt
      · refine ⟨m, ?_, V, Updated.refl_empty⟩
        cases handle <;> simp [MemoryManager.nameLoop]
      · obtain ⟨k, v, rfl, hk, hle, hin⟩ := hhandle hlt
        clear hhandle
        have hbound := V.bounded hk
        have hderef : deref m k = .ok v := deref_eq_ok.2 hk
        have hsub : sub64 v.size (sub64 currentAddr v.base) = k + v.size - currentAddr := by
          rw [V.base_eq hk, sub64_eq hle (by omega), sub64_eq (by omega) (by omega)]
          omega
        rw [MemoryManager.nameLoop, if_neg (by omega)]
        simp only [hderef, hsub, bind, Except.bind]
        generalize hn : min (stop - currentAddr) (k + v.size - currentAddr) = n
        obtain ⟨m₁, k₁, m₂, k₂, v₂, hname, hmerge, V₂, hup, hget, hle₂, hend₂⟩ :=
          nameArea_cells name V hk hle (show 0 < n by omega) (by omega)
        have hbound₂ := V₂.bounded hget
        have hderef₂ : deref m₂ k₂ = .ok v₂ := deref_eq_ok.2 hget
        simp only [hname, hmerge, hderef₂]
        rw [sub64_eq (show n ≤ stop - currentAddr by omega) (by omega),
          add64_eq (show currentAddr + n < _ by omega),
          V₂.base_eq hget, add64_eq (show k₂ + v₂.size < _ by omega),
          show stop - currentAddr - n = stop - (currentAddr + n) by omega]
        have hnext : start ≤ currentAddr + n ∧ currentAddr + n ≤ stop ∧
            stop - (currentAddr + n) < rounds := by omega
        have hhandle₂ : currentAddr + n < stop → ∃ k v,
            (if k₂ + v₂.size ≤ currentAddr + n then (m₂.next k₂).map Prod.fst else some k₂) =
              some k ∧ m₂.get? k = some v ∧ k ≤ currentAddr + n ∧
              currentAddr + n < k + v.size := by
          intro hmore
          split
          · next hedge =>
              -- the merged area ends where the next round starts
              have heq : k₂ + v₂.size = currentAddr + n := by omega
              have hmem : k₂ + v₂.size ∈ U := hrange ⟨by omega, by omega⟩
              obtain ⟨w, hnext, hw⟩ := V₂.next_eq hget hmem
              have := V₂.tiles.pos hw
              exact ⟨_, w, by rw [hnext, Option.map_some], hw, by omega, by omega⟩
          · next hinside => exact ⟨k₂, v₂, rfl, hget, by omega, by omega⟩
        obtain ⟨m₃, hloop, V₃, hup'⟩ :=
          ih _ (currentAddr + n) V₂ hnext.1 hnext.2.1 hhandle₂ hnext.2.2
        exact ⟨m₃, hloop, V₃, hup.trans hup' (Nat.le_add_right _ _) hnext.2.1⟩

theorem nameVirtualRange_cells (V : VmaMapOk s.vmaMap U) (addr size : ℕ) (name : String)
    (hpos : 0 < alignUp size pageSize) (hsize : alignUp size pageSize < 18446744073709551616)
    (hrange : Set.Ico (alignDown addr pageSize)
      (alignDown addr pageSize + alignUp size pageSize) ⊆ U) :
    ∃ m', s.nameVirtualRange addr size name = .ok { s with vmaMap := m' } ∧ VmaMapOk m' U ∧
      Updated (nameCell name) (alignDown addr pageSize)
        (alignDown addr pageSize + alignUp size pageSize) s.vmaMap m' := by
  unfold MemoryManager.nameVirtualRange
  generalize alignDown addr pageSize = a at *
  generalize alignUp size pageSize = n at *
  have hmem : a ∈ U := hrange ⟨le_rfl, by omega⟩
  have hlast := V.lt_of_mem (hrange ⟨show a ≤ a + n - 1 by omega, by omega⟩)
  have hvalid := (isValidMapping_iff_of_mem V hmem hsize).2 hrange
  obtain ⟨k, v, hk, hle, hlt⟩ := (V.tiles.mem_iff a).1 hmem
  have hfind : findArea s.vmaMap a = .ok (k, v) :=
    findArea_eq_ok.2 (V.tiles.floor_eq hk hle hlt)
  obtain ⟨m', hloop, V', hup⟩ := nameLoop_cells name hrange (by omega) (n + 1) (some k)
    a V le_rfl (by omega) (fun _ => ⟨k, v, rfl, hk, hle, hlt⟩) (by omega)
  rw [Nat.add_sub_cancel_left] at hloop
  refine ⟨m', ?_, V', hup⟩
  have hassert : assertMsg (s.isValidMapping a n) "Attempted to access invalid address" =
      .ok () := assertMsg_eq_ok.2 hvalid
  simp only [hassert, hfind, hloop, bind, Except.bind, pure, Except.pure]

/-! ### What `Protect` promises -/

/-- `CpuReadWrite | CpuExec | GpuReadWrite` -/
def protMask : MemoryProt := 0x37

def requestedProt (prot : MemoryProt) (type : VMAType) : MemoryProt :=
  hiddenExec type (withRead (prot &&& protMask))

/-- `Protect` returns OK and has set the requested protection on the bytes of the range that are
neither Free nor PoolReserved, and has changed nothing else. -/
def ProtectsExactly (s : MemoryManager) (addr size : ℕ) (prot : MemoryProt) : Prop :=
  ∃ s', s.protect addr size prot = .ok (orbisOk, s') ∧ s' = { s with vmaMap := s'.vmaMap } ∧
    ∀ x c, cells s.vmaMap x = some c → cells s'.vmaMap x = some
      (if (addr ≤ x ∧ x < addr + size) ∧ c.type ≠ .free ∧ c.type ≠ .poolReserved then
        { c with prot := requestedProt prot c.type }
      else c)

theorem or_and_right32 (a b c : UInt32) : (a ||| b) &&& c = a &&& c ||| b &&& c := by
  rw [← UInt32.toBitVec_inj]
  ext i
  simp [Bool.and_or_distrib_right]

theorem and_eq_self_of_and_not {a b : UInt32} (h : a &&& ~~~b = 0) : a &&& b = a := by
  rw [← UInt32.toBitVec_inj]
  ext i hi
  have hbit : (a &&& ~~~b).toBitVec[i] = (0 : UInt32).toBitVec[i] := by rw [h]
  simp at hbit
  cases ha : a.toBitVec[i] <;> simp_all

theorem hiddenExec_withRead_and_not (type : VMAType) (prot : MemoryProt) :
    hiddenExec type (withRead prot) &&& ~~~protMask = prot &&& ~~~protMask := by
  have hread : withRead prot &&& ~~~protMask = prot &&& ~~~protMask := by
    unfold withRead
    split
    · rw [or_and_right32, show MemoryProt.cpuRead &&& ~~~protMask = 0 by decide, UInt32.or_zero]
    · rfl
  unfold hiddenExec
  split
  · rw [UInt32.and_assoc, show ~~~MemoryProt.cpuExec &&& ~~~protMask = ~~~protMask by decide, hread]
  · exact hread

theorem hiddenExec_eq_requestedProt_iff (type : VMAType) :
    hiddenExec type (withRead prot) = requestedProt prot type ↔ prot &&& protMask = prot := by
  constructor
  · intro h
    have hout : prot &&& ~~~protMask = 0 := by
      rw [← hiddenExec_withRead_and_not type prot, h, requestedProt,
        hiddenExec_withRead_and_not, UInt32.and_assoc,
        show protMask &&& ~~~protMask = 0 by decide, UInt32.and_zero]
    exact and_eq_self_of_and_not hout
  · intro h
    rw [requestedProt, h]

variable {cfg : Config} {s₀ : MemoryManager}

/-- In every reachable state `Protect` sets exactly the requested protections on a valid range if
and only if no flag outside the mask is asked for or nothing in the range can be protected. -/
theorem protectsExactly_iff (hfresh : Fresh cfg s₀)
    (h : Reachable (fun _ c => c.Promised) s₀ s) (addr size : UInt64) (prot : MemoryProt)
    (hvalid : InAreas s.vmaMap addr.toNat size.toNat) :
    ProtectsExactly s addr.toNat size.toNat prot ↔
      prot &&& protMask = prot ∨ ∀ x, addr.toNat ≤ x → x < addr.toNat + size.toNat →
        ∀ c, cells s.vmaMap x = some c → c.type = .free ∨ c.type = .poolReserved := by
  have V : VmaMapOk s.vmaMap cfg.regions.addresses :=
    (h.regular hfresh fun _ _ hc => hc).vma
  have hrange := V.inAreas_iff.1 hvalid
  obtain ⟨m', heq, -, hup⟩ := protect_cells prot V hrange size.toNat_lt
  constructor
  · rintro ⟨s', hs', -, hcells⟩
    obtain rfl : { s with vmaMap := m' } = s' := by
      rw [heq, Except.ok.injEq, Prod.mk.injEq] at hs'
      exact hs'.2
    by_contra hnot
    rw [not_or] at hnot
    obtain ⟨hmask, hall⟩ := hnot
    push Not at hall
    obtain ⟨x, hx, hx', c, hc, hfree, hpool⟩ := hall
    have hleft := hup x
    rw [if_pos ⟨hx, hx'⟩, hc, Option.map_some, protectCell, if_neg (by simp [hfree, hpool]),
      hcells x c hc, if_pos ⟨⟨hx, hx'⟩, hfree, hpool⟩, Option.some.injEq] at hleft
    exact hmask ((hiddenExec_eq_requestedProt_iff c.type).1 (congrArg Cell.prot hleft).symm)
  · intro hcond
    refine ⟨_, heq, rfl, fun x c hc => ?_⟩
    have hx := hup x
    rw [hc, Option.map_some] at hx
    rw [hx]
    by_cases hin : addr.toNat ≤ x ∧ x < addr.toNat + size.toNat
    · rw [if_pos hin, protectCell]
      by_cases hfree : c.type = .free ∨ c.type = .poolReserved
      · rw [if_pos hfree, if_neg fun hne => hfree.elim hne.2.1 hne.2.2]
      · have hmask := hcond.resolve_right fun hall => hfree (hall x hin.1 hin.2 c hc)
        rw [if_neg hfree, if_pos ⟨hin, not_or.1 hfree⟩,
          (hiddenExec_eq_requestedProt_iff c.type).2 hmask]
    · rw [if_neg hin, if_neg fun hne => hin hne.1]

def flexiblePagesCalls : List Call :=
  [.mapMemory 0x200000000 0x8000 3 0x10 .flexible "pages" false 0xffffffffffffffff 0]

theorem flexiblePagesCalls_ok : ∃ s, runCalls Config.retail.start flexiblePagesCalls = .ok s ∧
    Reachable (fun _ c => c.Promised) Config.retail.start s ∧
    InAreas s.vmaMap (0x200000000 : UInt64).toNat (0x8000 : UInt64).toNat ∧
    ∃ c, cells s.vmaMap 0x200004000 = some c ∧ c.type = .flexible ∧ c.name = "pages" := by
  obtain ⟨s, hs, hboth⟩ : ∃ s, runCalls Config.retail.start flexiblePagesCalls = .ok s ∧
      (s.isValidMapping (0x200000000 : UInt64).toNat (0x8000 : UInt64).toNat &&
        (cells s.vmaMap 0x200004000).any fun c =>
          decide (c.type = .flexible) && decide (c.name = "pages")) = true :=
    exists_of_any (by decide)
  have hreach : Reachable (fun _ c => c.Promised) Config.retail.start s := by
    refine runCalls_reachable .start (fun c hc _ => ?_) hs
    obtain rfl := List.mem_singleton.1 hc
    simp [Call.Promised]
  have V : VmaMapOk s.vmaMap Config.retail.regions.addresses :=
    (hreach.regular fresh_retail fun _ _ hc => hc).vma
  have hmem : 0x200000000 ∈ Config.retail.regions.addresses :=
    ⟨(0x200000000, 0x200100000), by simp [Config.retail], by decide, by decide⟩
  obtain ⟨hvalid, hcell⟩ := Bool.and_eq_true_iff.1 hboth
  obtain ⟨c, hc, hval⟩ := (Option.any_eq_true _ _).1 hcell
  rw [Bool.and_eq_true, decide_eq_true_eq, decide_eq_true_eq] at hval
  exact ⟨s, hs, hreach, V.inAreas_iff.2 (isValidMapping_subset V hmem (by decide) hvalid), c, hc,
    hval⟩

theorem protectsExactly_iff_sample : ∃ s,
    runCalls Config.retail.start flexiblePagesCalls = .ok s ∧
    (ProtectsExactly s (0x200000000 : UInt64).toNat (0x8000 : UInt64).toNat 1 ↔
      (1 : MemoryProt) &&& protMask = 1 ∨
        ∀ x, (0x200000000 : UInt64).toNat ≤ x →
          x < (0x200000000 : UInt64).toNat + (0x8000 : UInt64).toNat →
          ∀ c, cells s.vmaMap x = some c → c.type = .free ∨ c.type = .poolReserved) := by
  obtain ⟨s, hs, hreach, hareas, -⟩ := flexiblePagesCalls_ok
  exact ⟨s, hs, protectsExactly_iff fresh_retail hreach 0x200000000 0x8000 1 hareas⟩

/-- Protecting the pages with the flag 8, which is outside the mask. -/
theorem protectsExactly_fails :
    ¬ ∀ s, Reachable (fun _ c => c.Promised) Config.retail.start s →
      ∀ (addr size : UInt64) (prot : MemoryProt), InAreas s.vmaMap addr.toNat size.toNat →
        ProtectsExactly s addr.toNat size.toNat prot := by
  intro hall
  obtain ⟨s, -, hreach, hareas, c, hc, htype, -⟩ := flexiblePagesCalls_ok
  have V : VmaMapOk s.vmaMap Config.retail.regions.addresses :=
    (hreach.regular fresh_retail fun _ _ hc => hc).vma
  obtain ⟨s', hs', -, hcells⟩ := hall s hreach 0x200000000 0x8000 9 hareas
  obtain ⟨m', heq, -, hup⟩ := protect_cells 9 V (V.inAreas_iff.1 hareas) (by decide)
  rw [heq, Except.ok.injEq, Prod.mk.injEq] at hs'
  obtain rfl := hs'.2
  have hleft := hup 0x200004000
  rw [if_pos (by decide), hc, Option.map_some, protectCell, if_neg (by simp [htype]),
    hcells _ c hc, if_pos ⟨by decide, by simp [htype], by simp [htype]⟩, Option.some.injEq,
    htype] at hleft
  have hprot : requestedProt 9 .flexible = hiddenExec .flexible (withRead 9) :=
    congrArg Cell.prot hleft
  exact absurd hprot (by decide)

end OrbitConsole.Memory
