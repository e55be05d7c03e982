import OrbitConsole.Core.Memory.FailedCalls
import OrbitConsole.Core.Memory.DirectWindow
import OrbitConsole.Core.Memory.RangeChecks

/-!
# The placement of a mapping: `SearchFree`

`SearchFree` takes the alignment as a `u32` where its callers pass a `u64`. It finds the
lowest place for the narrowed alignment. `placesLowest_iff` says when that is the lowest
one for the alignment asked for.
-/

namespace OrbitConsole.Memory

open Exec Tiling

def mapAlignment (alignment : ℕ) : ℕ := if 0 < alignment then alignment else pageSize

/-- The low half, which is what `SearchFree` receives. -/
def narrow (alignment : ℕ) : ℕ := alignment % 0x100000000

/-- The address `MapMemory` searches from, before it is clamped. -/
def hintOrDefault (hint : ℕ) : ℕ := if hint = 0 then defaultMappingBase else hint

def searchFrom (s : MemoryManager) (hint : ℕ) : ℕ :=
  max (hintOrDefault hint) s.systemManagedVirtualBase

structure Suitable (m : VMAMap) (lo size alignment A : ℕ) : Prop where
  above : lo ≤ A
  aligned : alignment ∣ A
  inside : ∃ k v, m.get? k = some v ∧ v.type = .free ∧ k ≤ A ∧ A + size ≤ k + v.size

/-- The physical range, if there is one, passes the checks of `MapMemory`. -/
def AcceptsDirect (s : MemoryManager) (physAddr size : ℕ) (validateDmem : Bool) : Prop :=
  (physAddr ≠ invalidAddr → add64 physAddr size ≤ s.totalDirectSize) ∧
    s.validateDmemRange physAddr size validateDmem = .ok none

structure PlacesLowest (s : MemoryManager) (alignment : ℕ) : Prop where
  search : ∀ hint size : UInt64,
    (∃ A, s.searchFree hint.toNat size.toNat (mapAlignment alignment) = .ok A) ∨
      s.searchFree hint.toNat size.toNat (mapAlignment alignment) =
        .error (.assertion "Input address is out of bounds")
  lowest : ∀ (hint size : UInt64) (prot : MemoryProt) (flags : MemoryMapFlags)
    (type : VMAType) (name : String) (validateDmem : Bool) (physAddr : UInt64)
    (out : Option ℕ) (s' : MemoryManager), hasFlag flags MemoryMapFlags.fixed = false →
    type ≠ .pooled → 0 < size.toNat → pageSize ∣ size.toNat →
    s.mapMemory hint.toNat size.toNat prot flags type name validateDmem physAddr.toNat
      alignment = .ok (orbisOk, out, s') →
    ∃ A, out = some A ∧
      IsLeast {A | Suitable s.vmaMap (searchFrom s hint.toNat) size.toNat
        (mapAlignment alignment) A} A
  full : ∀ (hint size : UInt64) (prot : MemoryProt) (flags : MemoryMapFlags)
    (type : VMAType) (name : String) (validateDmem : Bool) (physAddr : UInt64)
    (out : Option ℕ) (s' : MemoryManager), hasFlag flags MemoryMapFlags.fixed = false →
    type ≠ .pooled → 0 < size.toNat → pageSize ∣ size.toNat →
    AcceptsDirect s physAddr.toNat size.toNat validateDmem →
    s.mapMemory hint.toNat size.toNat prot flags type name validateDmem physAddr.toNat
      alignment = .ok (errorEnomem, out, s') →
    ∀ A, ¬ Suitable s.vmaMap (searchFrom s hint.toNat) size.toNat (mapAlignment alignment) A

/-- The low half is nonzero and has the multiples of the whole among the addresses with room
for a page. -/
def NarrowsWell (m : VMAMap) (alignment : ℕ) : Prop :=
  0 < narrow alignment ∧ ∀ x k v, m.get? k = some v → v.type = .free → k ≤ x →
    x + pageSize ≤ k + v.size → (narrow alignment ∣ x ↔ alignment ∣ x)

/-- What every `AddressSpace` sets up: the search starts at the lowest usable address and no
usable address lies behind its bound. -/
structure Config.SearchBounds (cfg : Config) : Prop where
  pos : 0 < cfg.systemManagedVirtualBase
  mem : cfg.systemManagedVirtualBase ∈ cfg.regions.addresses
  le : ∀ x ∈ cfg.regions.addresses, cfg.systemManagedVirtualBase ≤ x
  ge : ∀ x ∈ cfg.regions.addresses, x ≤ cfg.userVirtualEnd

variable {m : VMAMap} {U : Set ℕ} {s : MemoryManager} {L : Layout}
  {size alignment start lo k : ℕ} {v : VirtualMemoryArea}

/-! ### The loop over the areas -/

def PlaceFrom (m : VMAMap) (start size alignment A : ℕ) : Prop :=
  alignment ∣ A ∧ ∃ k v, m.get? k = some v ∧ v.type = .free ∧ start ≤ k ∧ k ≤ A ∧
    A + size ≤ k + v.size

theorem placeFrom_cons (V : VmaMapOk m U) {l : List (ℕ × VirtualMemoryArea)}
    (h : Onward VirtualMemoryArea.size m ((k, v) :: l) start) {A : ℕ} :
    PlaceFrom m start size alignment A ↔
      (alignment ∣ A ∧ v.type = .free ∧ k ≤ A ∧ A + size ≤ k + v.size) ∨
        PlaceFrom m (k + v.size) size alignment A := by
  have hge : start ≤ k := h.ge (k, v) List.mem_cons_self
  constructor
  · rintro ⟨hdvd, k', v', hk', hfree, hstart, hle, hend⟩
    rcases List.mem_cons.1 (h.all k' v' hk' hstart) with heq | hmem
    · rw [Prod.mk.injEq] at heq
      obtain ⟨rfl, rfl⟩ := heq
      exact .inl ⟨hdvd, hfree, hle, hend⟩
    · exact .inr ⟨hdvd, k', v', hk', hfree, (h.tail V.tiles).ge (k', v') hmem, hle, hend⟩
  · rintro (⟨hdvd, hfree, hle, hend⟩ | ⟨hdvd, k', v', hk', hfree, hstart, hle, hend⟩)
    · exact ⟨hdvd, k, v, h.get?_head, hfree, hge, hle, hend⟩
    · exact ⟨hdvd, k', v', hk', hfree, by omega, hle, hend⟩

theorem searchFreeRun_spec (V : VmaMapOk m U) {last : ℕ} (hlast : ∀ x ∈ U, x ≤ last)
    (hpos : 0 < alignment) (hlt : alignment < 4294967296) (hsize : 2 ≤ size)
    {l : List (ℕ × VirtualMemoryArea)} (h : Onward VirtualMemoryArea.size m l start) :
    (searchFreeRun size alignment last l = invalidAddr ∧
      ∀ A, ¬ PlaceFrom m start size alignment A) ∨
    IsLeast {A | PlaceFrom m start size alignment A} (searchFreeRun size alignment last l) := by
  induction l generalizing start with
  | nil =>
      refine .inl ⟨rfl, ?_⟩
      rintro A ⟨-, k, v, hk, -, hstart, -⟩
      cases h.all k v hk hstart
  | cons e l ih =>
      obtain ⟨k, v⟩ := e
      have hk := h.get?_head
      have hbound := V.bounded hk
      have hplaces : ∀ A, PlaceFrom m start size alignment A ↔
          (alignment ∣ A ∧ v.type = .free ∧ k ≤ A ∧ A + size ≤ k + v.size) ∨
            PlaceFrom m (k + v.size) size alignment A := fun A => placeFrom_cons V h
      have hup : roundUp k alignment < k + alignment := roundUp_lt hpos
      have hle : k ≤ roundUp k alignment := le_roundUp hpos
      have hrest := ih (h.tail V.tiles)
      -- areas without a place are passed over
      have hskip : (∀ A, ¬ (alignment ∣ A ∧ v.type = .free ∧ k ≤ A ∧ A + size ≤ k + v.size)) →
          (searchFreeRun size alignment last l = invalidAddr ∧
            ∀ A, ¬ PlaceFrom m start size alignment A) ∨
          IsLeast {A | PlaceFrom m start size alignment A}
            (searchFreeRun size alignment last l) := by
        intro hnone
        have hiff : ∀ A, PlaceFrom m start size alignment A ↔
            PlaceFrom m (k + v.size) size alignment A :=
          fun A => (hplaces A).trans (or_iff_right (hnone A))
        simp only [hiff]
        exact hrest
      rw [searchFreeRun, V.base_eq hk, add64_eq (by omega), alignUp_eq_of_le (by omega) (by omega)]
      simp only
      split
      · next hfree =>
          refine hskip fun A hA => ?_
          simp [VirtualMemoryArea.isFree, hA.2.1] at hfree
      · next hfree =>
          have hfree : v.type = .free := by simpa [VirtualMemoryArea.isFree] using hfree
          split
          · refine hskip fun A hA => ?_
            have := roundUp_le hpos hA.1 hA.2.2.1
            omega
          · split
            · next hin hbreak =>
                refine .inl ⟨rfl, fun A hA => ?_⟩
                -- a place would reach behind the bound
                have hmin : roundUp k alignment ≤ A ∧ A + 1 ∈ U := by
                  rcases (hplaces A).1 hA with ⟨hdvd, -, hA', hend⟩ |
                    ⟨hdvd, k', v', hk', -, hstart, hA', hend⟩
                  · exact ⟨roundUp_le hpos hdvd hA', V.tiles.mem_of_get? hk (by omega) (by omega)⟩
                  · exact ⟨by omega, V.tiles.mem_of_get? hk' (by omega) (by omega)⟩
                have := hlast _ hmin.2
                omega
            · next hin hbreak =>
                rw [sub64_eq (by omega) (by omega)]
                split
                · next hroom =>
                    refine .inr ⟨(hplaces _).2 (.inl ⟨dvd_roundUp, hfree, hle, by omega⟩), ?_⟩
                    intro A hA
                    rcases (hplaces A).1 hA with ⟨hdvd, -, hA', -⟩ |
                      ⟨-, k', v', hk', -, hstart, hA', -⟩
                    · exact roundUp_le hpos hdvd hA'
                    · omega
                · next hroom =>
                    refine hskip fun A hA => ?_
                    have := roundUp_le hpos hA.1 hA.2.2.1
                    omega

/-! ### The search -/

/-- The bounds of the search, in a state. -/
structure Searches (s : MemoryManager) (U : Set ℕ) : Prop where
  pos : 0 < s.systemManagedVirtualBase
  mem : s.systemManagedVirtualBase ∈ U
  le : ∀ x ∈ U, s.systemManagedVirtualBase ≤ x
  ge : ∀ x ∈ U, x ≤ s.userVirtualEnd

theorem suitable_iff_placeFrom (V : VmaMapOk m U) (hpos : 0 < alignment) (hsize : 0 < size)
    (hfloor : m.floor (roundUp lo alignment) = some (k, v))
    (hbusy : ¬ (v.type = .free ∧ roundUp lo alignment + size ≤ k + v.size)) {A : ℕ} :
    Suitable m lo size alignment A ↔ PlaceFrom m (k + v.size) size alignment A := by
  obtain ⟨hk, hle, hmax⟩ := OrderedMap.floor_eq_some_iff.1 hfloor
  have hlo : lo ≤ roundUp lo alignment := le_roundUp hpos
  constructor
  · rintro ⟨habove, hdvd, k', v', hk', hfree, hle', hend⟩
    refine ⟨hdvd, k', v', hk', hfree, ?_, hle', hend⟩
    have hup := roundUp_le hpos hdvd habove
    rcases lt_trichotomy k k' with hlt | rfl | hlt
    · exact V.tiles.disjoint hk hk' hlt
    · obtain rfl := Option.some.inj (hk.symm.trans hk')
      exact absurd ⟨hfree, by omega⟩ hbusy
    · have := V.tiles.disjoint hk' hk hlt
      omega
  · rintro ⟨hdvd, k', v', hk', hfree, hstart, hle', hend⟩
    refine ⟨?_, hdvd, k', v', hk', hfree, hle', hend⟩
    have hpos' := V.tiles.pos hk
    by_contra hlt
    have := hmax k' v' hk' (by omega)
    omega

theorem floor_of_isValidMapping (h : s.isValidMapping lo size = true) :
    ∃ e, s.vmaMap.floor lo = some e := by
  unfold MemoryManager.isValidMapping at h
  split at h
  · next hfloor => exact ⟨_, hfloor⟩
  · cases h

theorem searchFree_returns {hint : ℕ} (hpos : narrow alignment ≠ 0)
    (h : s.isValidMapping (max hint s.systemManagedVirtualBase) 0 = true)
    (V : VmaMapOk s.vmaMap U) : ∃ A, s.searchFree hint size alignment = .ok A := by
  have hlt := isValidMapping_lt V h
  obtain ⟨⟨k, v⟩, hfloor⟩ := floor_of_isValidMapping h
  obtain ⟨hk, hle, -⟩ := OrderedMap.floor_eq_some_iff.1 hfloor
  have hnarrow : narrow alignment < 4294967296 := Nat.mod_lt _ (by decide)
  have hup : roundUp (max hint s.systemManagedVirtualBase) (narrow alignment) <
      max hint s.systemManagedVirtualBase + narrow alignment :=
    roundUp_lt (Nat.pos_of_ne_zero hpos)
  obtain ⟨e, he⟩ : ∃ e, s.vmaMap.floor
      (alignUp (max hint s.systemManagedVirtualBase) (narrow alignment)) = some e := by
    rw [alignUp_eq_of_le (by omega) (by omega)]
    have hge : max hint s.systemManagedVirtualBase ≤
        roundUp (max hint s.systemManagedVirtualBase) (narrow alignment) :=
      le_roundUp (Nat.pos_of_ne_zero hpos)
    cases hnone : s.vmaMap.floor
        (roundUp (max hint s.systemManagedVirtualBase) (narrow alignment)) with
    | some e => exact ⟨e, rfl⟩
    | none =>
        have := OrderedMap.floor_eq_none_iff.1 hnone k v hk
        omega
  -- the result depends on the area found there
  by_cases hfits : (e.2.isFree && e.2.contains
      (alignUp (max hint s.systemManagedVirtualBase) (narrow alignment)) size) = true
  · refine ⟨alignUp (max hint s.systemManagedVirtualBase) (narrow alignment),
      bind_eq_ok.2 ⟨(), assertMsg_eq_ok.2 h, (if_neg hpos).trans ?_⟩⟩
    exact bind_eq_ok.2 ⟨e, findArea_eq_ok.2 he, if_pos hfits⟩
  · refine ⟨searchFreeRun size (narrow alignment) s.userVirtualEnd
      (s.vmaMap.entriesFrom e.1).tail,
      bind_eq_ok.2 ⟨(), assertMsg_eq_ok.2 h, (if_neg hpos).trans ?_⟩⟩
    exact bind_eq_ok.2 ⟨e, findArea_eq_ok.2 he, if_neg hfits⟩

theorem searchFree_spec {hint r : ℕ} (V : VmaMapOk s.vmaMap U) (B : Searches s U)
    (hsize : 2 ≤ size) (h : s.searchFree hint size alignment = .ok r) :
    (r = invalidAddr ∧ ∀ A, ¬ Suitable s.vmaMap (max hint s.systemManagedVirtualBase) size
      (narrow alignment) A) ∨
    IsLeast {A | Suitable s.vmaMap (max hint s.systemManagedVirtualBase) size
      (narrow alignment) A} r ∨
    r < 9223372041149743104 ∧ 18446744073709551616 ≤ r + size := by
  unfold MemoryManager.searchFree at h
  obtain ⟨_, hvalid, h⟩ := bind_eq_ok.1 h
  have hlt := isValidMapping_lt V (assertMsg_eq_ok.1 hvalid)
  change (if narrow alignment = 0 then throw .undefined else _ : Exec ℕ) = .ok r at h
  have hnarrow : narrow alignment < 4294967296 := Nat.mod_lt _ (by decide)
  generalize max hint s.systemManagedVirtualBase = lo at h hlt ⊢
  by_cases hzero : narrow alignment = 0
  · rw [if_pos hzero] at h
    cases h
  rw [if_neg hzero] at h
  have hpos := Nat.pos_of_ne_zero hzero
  have hup : roundUp lo (narrow alignment) < lo + narrow alignment := roundUp_lt hpos
  have hlo : lo ≤ roundUp lo (narrow alignment) := le_roundUp hpos
  have halign : alignUp lo (narrow alignment) = roundUp lo (narrow alignment) :=
    alignUp_eq_of_le (by omega) (by omega)
  obtain ⟨⟨k, v⟩, hfind, h⟩ := bind_eq_ok.1 h
  have hfloor := findArea_eq_ok.1 hfind
  change s.vmaMap.floor (alignUp lo (narrow alignment)) = _ at hfloor
  rw [halign] at hfloor
  obtain ⟨hk, hle, -⟩ := OrderedMap.floor_eq_some_iff.1 hfloor
  have hbound := V.bounded hk
  change (if v.isFree && v.contains (alignUp lo (narrow alignment)) size then
    pure (alignUp lo (narrow alignment)) else pure (searchFreeRun size (narrow alignment)
      s.userVirtualEnd (s.vmaMap.entriesFrom k).tail) : Exec ℕ) = .ok r at h
  rw [halign] at h
  split at h
  · next hfits =>
      cases h
      obtain ⟨hfree, hend⟩ : v.type = .free ∧
          add64 (roundUp lo (narrow alignment)) size ≤ k + v.size := by
        simp only [VirtualMemoryArea.isFree, VirtualMemoryArea.contains, Bool.and_eq_true,
          decide_eq_true_eq, V.base_eq hk, add64_eq (show k + v.size < _ by omega)] at hfits
        exact ⟨hfits.1, hfits.2.2⟩
      rcases Nat.lt_or_ge (roundUp lo (narrow alignment) + size) 18446744073709551616 with
        hin | hwrap
      · rw [add64_eq hin] at hend
        exact .inr (.inl ⟨⟨hlo, dvd_roundUp, k, v, hk, hfree, hle, hend⟩,
          fun A hA => roundUp_le hpos hA.aligned hA.above⟩)
      · exact .inr (.inr ⟨by omega, hwrap⟩)
  · next hfits =>
      cases h
      obtain ⟨l, hl⟩ := OrderedMap.entriesFrom_eq_cons hk
      have hrun : Onward VirtualMemoryArea.size s.vmaMap ((k, v) :: l) k :=
        hl ▸ Onward.entriesFrom V.tiles
      rw [hl, List.tail_cons]
      have hbusy : ¬ (v.type = .free ∧ roundUp lo (narrow alignment) + size ≤ k + v.size) := by
        rintro ⟨hfree, hend⟩
        refine hfits ?_
        simp only [VirtualMemoryArea.isFree, VirtualMemoryArea.contains, Bool.and_eq_true,
          decide_eq_true_eq, V.base_eq hk]
        exact ⟨hfree, hle, by rw [add64_eq (by omega), add64_eq (by omega)]; exact hend⟩
      simp only [fun A => suitable_iff_placeFrom (A := A) V hpos (by omega) hfloor hbusy]
      rcases searchFreeRun_spec V B.ge hpos hnarrow hsize (hrun.tail V.tiles) with hnone | hleast
      · exact .inl hnone
      · exact .inr (.inl hleast)

/-! ### `MapMemory` around the search -/

theorem placeMapping_search {hint : ℕ} {flags : MemoryMapFlags} {target : Option ℕ}
    (hfixed : hasFlag flags MemoryMapFlags.fixed = false) :
    s.placeMapping hint size flags alignment = .ok target ↔
      ∃ r, s.searchFree (hintOrDefault hint) size alignment = .ok r ∧
        (if r = invalidAddr then none else some r) = target := by
  unfold MemoryManager.placeMapping
  simp only [hfixed, Bool.false_and, Bool.false_eq_true, if_false, Bool.not_false, if_true]
  rw [bind_eq_ok]
  refine exists_congr fun r => and_congr_right fun _ => ?_
  split
  · exact pure_eq_ok
  · exact pure_eq_ok

theorem mapMemory_search {hint physAddr : ℕ} {prot : MemoryProt} {flags : MemoryMapFlags}
    {type : VMAType} {name : String} {validateDmem : Bool} {code : ℤ} {out : Option ℕ}
    {s' : MemoryManager} (hfixed : hasFlag flags MemoryMapFlags.fixed = false)
    (h : s.mapMemory hint size prot flags type name validateDmem physAddr alignment =
      .ok (code, out, s'))
    (hcode : code = orbisOk ∨
      code = errorEnomem ∧ AcceptsDirect s physAddr size validateDmem) :
    ∃ r, s.searchFree (hintOrDefault hint) size (mapAlignment alignment) = .ok r ∧
      (r = invalidAddr ∧ code = errorEnomem ∨
        r ≠ invalidAddr ∧ s.mapAt r size prot flags type name physAddr = .ok (code, out, s')) := by
  unfold MemoryManager.mapMemory at h
  split at h
  · cases h
    rcases hcode with hcode | ⟨hcode, -⟩ <;> exact absurd hcode (by decide)
  split at h
  · next hlimit =>
      cases h
      rcases hcode with hcode | ⟨-, haccepts⟩
      · exact absurd hcode (by decide)
      · have := haccepts.1 hlimit.1
        omega
  obtain ⟨error, hvalid, h⟩ := bind_eq_ok.1 h
  cases error with
  | some e =>
      cases h
      rcases hcode with rfl | ⟨-, haccepts⟩
      · unfold MemoryManager.validateDmemRange at hvalid
        split at hvalid
        · obtain ⟨x, -, hcheck⟩ := bind_eq_ok.1 hvalid
          exact absurd rfl (checkDmemRun_ne_ok _ (pure_eq_ok.1 hcheck))
        · cases hvalid
      · rw [haccepts.2] at hvalid
        cases hvalid
  | none =>
      obtain ⟨target, htarget, h⟩ := bind_eq_ok.1 h
      obtain ⟨r, hr, rfl⟩ := (placeMapping_search hfixed).1 htarget
      refine ⟨r, hr, ?_⟩
      by_cases hinvalid : r = invalidAddr
      · rw [if_pos hinvalid] at h
        cases h
        exact .inl ⟨hinvalid, rfl⟩
      · rw [if_neg hinvalid] at h
        exact .inr ⟨hinvalid, h⟩

theorem mapAt_reserve_returns (name : String) (physAddr : ℕ) (V : VmaMapOk s.vmaMap U) {A : ℕ}
    (hk : s.vmaMap.get? k = some v) (hfree : v.type = .free) (hle : k ≤ A) (hpos : 0 < size)
    (hend : A + size ≤ k + v.size) :
    ∃ s', s.mapAt A size 0 0 .reserved name physAddr = .ok (orbisOk, some A, s') := by
  have hbound := V.bounded hk
  have hfind : findArea s.vmaMap A = .ok (k, v) :=
    findArea_eq_ok.2 (V.tiles.floor_eq hk hle (by omega))
  obtain ⟨m, hm⟩ := carveVMA_returns V hk hle hpos hend
  obtain ⟨-, hcarved⟩ := carveVMA_ok V (by omega) (by omega) hm
  obtain ⟨w, hw, -⟩ := hcarved.area
  have hcreate : s.createArea A size 0 0 .reserved name =
      .ok (A, { s with vmaMap := m.modify A (createdArea 0 0 .reserved name) }) := by
    refine bind_eq_ok.2 ⟨_, hfind, bind_eq_ok.2 ⟨s, rfl, bind_eq_ok.2 ⟨_, hfind, ?_⟩⟩⟩
    refine bind_eq_ok.2 ⟨(), assertMsg_eq_ok.2 (decide_eq_true hfree), ?_⟩
    exact bind_eq_ok.2 ⟨_, hm, rfl⟩
  have hok : VmaOk (createdArea 0 0 .reserved name w) :=
    ⟨fun hb => absurd hb (by simp [hasPhysicalBacking, createdArea]), fun _ => rfl⟩
  obtain ⟨V', -, hget⟩ := hcarved.ok.modify (f := createdArea 0 0 .reserved name) hw rfl rfl hok
  have hbase : w.base = A := hcarved.ok.base_eq hw
  obtain ⟨m', k', v', hmerge, -⟩ := mergeAdjacentVMA_ok V' hget
  refine ⟨{ s with vmaMap := m' }, bind_eq_ok.2 ⟨_, hcreate, bind_eq_ok.2 ⟨_,
    deref_eq_ok.2 hget, bind_eq_ok.2 ⟨_, rfl, ?_⟩⟩⟩⟩
  rw [if_pos (.inl VMAType.noConfusion)]
  refine bind_eq_ok.2 ⟨_, hmerge, ?_⟩
  change Except.ok (orbisOk, some w.base, _) = _
  rw [hbase]

theorem mapMemory_reserve {hint r : ℕ} (V : VmaMapOk s.vmaMap U)
    (hr : s.searchFree (hintOrDefault hint) size (mapAlignment alignment) = .ok r) :
    (r = invalidAddr → s.mapMemory hint size 0 0 .reserved "anon" false invalidAddr alignment =
      .ok (errorEnomem, none, s)) ∧
    (r ≠ invalidAddr → ∀ k v, s.vmaMap.get? k = some v → v.type = .free → k ≤ r → 0 < size →
      r + size ≤ k + v.size → ∃ s', s.mapMemory hint size 0 0 .reserved "anon" false invalidAddr
        alignment = .ok (orbisOk, some r, s')) := by
  have hcall : s.mapMemory hint size 0 0 .reserved "anon" false invalidAddr alignment =
      (do
        let target ← s.placeMapping hint size 0 (mapAlignment alignment)
        target.elim (pure (errorEnomem, none, s)) fun virtualAddr =>
          s.mapAt virtualAddr size 0 0 .reserved "anon" invalidAddr) := by
    unfold MemoryManager.mapMemory MemoryManager.validateDmemRange
    simp only [ne_eq, not_true_eq_false, false_and, if_false]
    rw [if_neg (by rintro ⟨h, -⟩; cases h), pure_bind]
    exact bind_congr fun target => by cases target <;> rfl
  have htarget : s.placeMapping hint size 0 (mapAlignment alignment) =
      .ok (if r = invalidAddr then none else some r) :=
    (placeMapping_search (by decide)).2 ⟨r, hr, rfl⟩
  rw [hcall]
  constructor
  · rintro rfl
    exact bind_eq_ok.2 ⟨_, htarget, by rw [if_pos rfl]; rfl⟩
  · intro hne k v hk hfree hle hpos hend
    obtain ⟨s', hs'⟩ := mapAt_reserve_returns "anon" invalidAddr V hk
      hfree hle hpos hend
    exact ⟨s', bind_eq_ok.2 ⟨_, htarget, by rw [if_neg hne]; exact hs'⟩⟩

/-! ### The bounds of the search -/

variable {cfg : Config} {s₀ s' : MemoryManager} {c : Call}

/-- The state kept the bounds of the search. -/
def SameBounds (s s' : MemoryManager) : Prop :=
  s'.systemManagedVirtualBase = s.systemManagedVirtualBase ∧ s'.userVirtualEnd = s.userVirtualEnd

theorem Unmapped.sameBounds {A : Set ℕ} (h : Unmapped L A s s') : SameBounds s s' := by
  rw [h.rest]
  exact ⟨rfl, rfl⟩

theorem BackedAs.sameBounds {physAddr : ℕ} {type : VMAType} {pa : PhysMap}
    (h : BackedAs L physAddr size s type pa s') : SameBounds s s' := by
  cases h with
  | direct => exact ⟨rfl, rfl⟩
  | flexible => exact ⟨rfl, rfl⟩
  | none => exact ⟨rfl, rfl⟩

theorem Mapped.sameBounds {target physAddr : ℕ} {flags : MemoryMapFlags} {prot : MemoryProt}
    {type : VMAType} {name : String}
    (h : Mapped L target size flags prot type name physAddr s s') : SameBounds s s' := by
  obtain ⟨s₁, pa, hun, -, hcreated⟩ := h.created
  have hbacked : SameBounds s₁ { s' with vmaMap := s₁.vmaMap } := hcreated.backed.sameBounds
  exact ⟨hbacked.1.trans hun.sameBounds.1, hbacked.2.trans hun.sameBounds.2⟩

theorem Effect.sameBounds (h : Effect L s c s') : SameBounds s s' := by
  cases h with
  | unchanged => exact ⟨rfl, rfl⟩
  | allocated => exact ⟨rfl, rfl⟩
  | expanded => exact ⟨rfl, rfl⟩
  | freed h =>
      rw [h.rest]
      exact h.unmapped.sameBounds
  | committed h =>
      rw [h.rest]
      exact ⟨rfl, rfl⟩
  | decommitted h =>
      rw [h.rest]
      exact ⟨rfl, rfl⟩
  | mapped h _ _ _ => exact h.sameBounds
  | mappedFile h _ => exact h.sameBounds
  | unmapped _ h => exact h.sameBounds
  | guarded => exact ⟨rfl, rfl⟩
  | named => exact ⟨rfl, rfl⟩
  | retyped h _ =>
      rw [h.rest]
      exact ⟨rfl, rfl⟩

theorem Fresh.searches (hfresh : Fresh cfg s₀) (hbounds : cfg.SearchBounds) :
    Searches s₀ (cfg.layout s₀).usable := by
  obtain ⟨hsetup, -⟩ := hfresh
  obtain ⟨_, -, hsetup⟩ := bind_eq_ok.1 hsetup
  obtain ⟨e, -, hsetup⟩ := bind_eq_ok.1 hsetup
  obtain ⟨_, -, hret⟩ := bind_eq_ok.1 hsetup
  cases hret
  exact ⟨hbounds.pos, hbounds.mem, hbounds.le, hbounds.ge⟩

theorem Reachable.searches (hfresh : Fresh cfg s₀) (hbounds : cfg.SearchBounds)
    (h : Reachable (fun _ c => c.Promised) s₀ s) : Searches s (cfg.layout s₀).usable := by
  have hboth : Regular (cfg.layout s₀) s ∧ Searches s (cfg.layout s₀).usable := by
    apply h.invariant (P := fun s => Regular (cfg.layout s₀) s ∧
      Searches s (cfg.layout s₀).usable)
    · exact ⟨hfresh.regular, hfresh.searches hbounds⟩
    · intro s s' c hs hc hcall
      have heffect := Call.exec_effect hs.1 hc hcall
      obtain ⟨hbase, hend⟩ := heffect.sameBounds
      refine ⟨heffect.regular hs.1, ?_, ?_, ?_, ?_⟩
      · rw [hbase]
        exact hs.2.pos
      · rw [hbase]
        exact hs.2.mem
      · rw [hbase]
        exact hs.2.le
      · rw [hend]
        exact hs.2.ge
  exact hboth.2

/-! ### When the placement is the lowest one -/

theorem NarrowsWell.suitable_iff (h : NarrowsWell m alignment) (hsize : pageSize ≤ size) {A : ℕ} :
    Suitable m lo size (narrow alignment) A ↔ Suitable m lo size alignment A := by
  constructor
  · rintro ⟨habove, hdvd, k, v, hk, hfree, hle, hend⟩
    exact ⟨habove, (h.2 A k v hk hfree hle (by omega)).1 hdvd, k, v, hk, hfree, hle, hend⟩
  · rintro ⟨habove, hdvd, k, v, hk, hfree, hle, hend⟩
    exact ⟨habove, (h.2 A k v hk hfree hle (by omega)).2 hdvd, k, v, hk, hfree, hle, hend⟩

theorem Suitable.lt (V : VmaMapOk m U) {A : ℕ} (h : Suitable m lo size alignment A) :
    A + size ≤ 9223372036854775808 := by
  obtain ⟨k, v, hk, -, -, hend⟩ := h.inside
  exact hend.trans (V.bounded hk)

theorem PlacesLowest.of_narrowsWell (R : Regular L s) (B : Searches s L.usable)
    (h : NarrowsWell s.vmaMap (mapAlignment alignment)) : PlacesLowest s alignment := by
  have W := R.toWellFormed
  have hpage : ∀ {n : ℕ}, 0 < n → pageSize ∣ n → pageSize ≤ n :=
    fun hpos hdvd => Nat.le_of_dvd hpos hdvd
  refine ⟨fun hint size => ?_, ?_, ?_⟩
  · by_cases hvalid : s.isValidMapping (max hint.toNat s.systemManagedVirtualBase) 0 = true
    · exact .inl (searchFree_returns (Nat.pos_iff_ne_zero.1 h.1) hvalid W.vma)
    · right
      unfold MemoryManager.searchFree
      simp only [assertMsg]
      rw [if_neg hvalid]
      rfl
  · intro hint size prot flags type name validateDmem physAddr out s' hfixed htype hpos hdvd hr
    have hsize := hpage hpos hdvd
    obtain ⟨r, hr, hout⟩ := mapMemory_search hfixed hr (.inl rfl)
    rcases hout with ⟨-, hcode⟩ | ⟨-, hat⟩
    · exact absurd hcode (by decide)
    obtain ⟨-, hout, hmapped⟩ := mapAt_ok W R.usage_lt (searchFree_lt W hr) size.toNat_lt
      physAddr.toNat_lt htype hat
    have hlast : r + size.toNat - 1 < 9223372036854775808 :=
      W.vma.lt_of_mem (hmapped.range ⟨by omega, by omega⟩)
    refine ⟨r, hout, ?_⟩
    simp only [← h.suitable_iff hsize]
    rcases searchFree_spec W.vma B (by unfold pageSize at hsize; omega) hr with
      ⟨rfl, -⟩ | hleast | ⟨-, hwrap⟩
    · unfold invalidAddr at hlast
      omega
    · exact hleast
    · omega
  · intro hint size prot flags type name validateDmem physAddr out s' hfixed htype hpos hdvd
      haccepts hr A hA
    have hsize := hpage hpos hdvd
    obtain ⟨r, hr, hout⟩ := mapMemory_search hfixed hr (.inr ⟨rfl, haccepts⟩)
    rcases hout with ⟨rfl, -⟩ | ⟨-, hat⟩
    · rcases searchFree_spec W.vma B (by unfold pageSize at hsize; omega) hr with
        ⟨-, hnone⟩ | hleast | ⟨hlow, -⟩
      · exact hnone A ((h.suitable_iff hsize).2 hA)
      · have := Suitable.lt W.vma hleast.1
        unfold invalidAddr at this
        omega
      · exact absurd hlow (by decide)
    · have hcode : errorEnomem = orbisOk := mapAt_code hat
      exact absurd hcode (by decide)

theorem PlacesLowest.narrowsWell (W : WellFormed L s) (B : Searches s L.usable)
    (h : PlacesLowest s alignment) : NarrowsWell s.vmaMap (mapAlignment alignment) := by
  have hmem : ∀ x ∈ L.usable, s.isValidMapping x 0 = true ∧ x < 9223372036854775808 ∧
      max x s.systemManagedVirtualBase = x := by
    intro x hx
    refine ⟨(isValidMapping_iff_of_mem W.vma hx (by decide)).2 ?_, W.vma.lt_of_mem hx,
      max_eq_left (B.le x hx)⟩
    rw [Nat.add_zero, Set.Ico_self]
    exact Set.empty_subset _
  have hnarrow : 0 < narrow (mapAlignment alignment) := by
    -- a search from the lowest address would divide by zero
    by_contra hzero
    obtain ⟨hvalid, hlt, -⟩ := hmem _ B.mem
    have hundefined : s.searchFree s.systemManagedVirtualBase 0 (mapAlignment alignment) =
        .error .undefined := by
      unfold MemoryManager.searchFree
      simp only [assertMsg, max_self]
      rw [if_pos hvalid]
      exact if_pos (Nat.eq_zero_of_not_pos hzero)
    have hsearch := h.search (UInt64.ofNat s.systemManagedVirtualBase) 0
    rw [UInt64.toNat_ofNat', Nat.mod_eq_of_lt (by omega)] at hsearch
    change (∃ A, s.searchFree _ 0 _ = _) ∨ s.searchFree _ 0 _ = _ at hsearch
    rw [hundefined] at hsearch
    rcases hsearch with ⟨A, hA⟩ | hA <;> cases hA
  refine ⟨hnarrow, fun x k v hk hfree hle hend => ?_⟩
  have hbound := W.vma.bounded hk
  have hpage : 0 < pageSize := by decide
  have hx : x ∈ L.usable := W.vma.tiles.mem_of_get? hk hle (by omega)
  obtain ⟨hvalid, hlt, hmax⟩ := hmem x hx
  have hne : x ≠ 0 := fun h0 => by
    have := B.pos
    have := B.le x hx
    omega
  -- reserve one page with the hint `x`
  have hnat : (UInt64.ofNat x).toNat = x := by
    rw [UInt64.toNat_ofNat', Nat.mod_eq_of_lt (by omega)]
  have hhint : hintOrDefault x = x := if_neg hne
  have hfrom : searchFrom s x = x := by
    unfold searchFrom
    rw [hhint, hmax]
  have hplace : ∀ {a : ℕ}, a ∣ x → Suitable s.vmaMap x pageSize a x :=
    fun hdvd => ⟨le_rfl, hdvd, k, v, hk, hfree, hle, hend⟩
  obtain ⟨r, hr⟩ : ∃ r, s.searchFree x pageSize (mapAlignment alignment) = .ok r :=
    searchFree_returns hnarrow.ne' (by rw [hmax]; exact hvalid) W.vma
  obtain ⟨hnomem, hok⟩ := mapMemory_reserve W.vma (hhint.symm ▸ hr)
  have hlowest := h.lowest (UInt64.ofNat x) 0x4000 0 0 .reserved "anon" false
    (UInt64.ofNat invalidAddr)
  have hfull := h.full (UInt64.ofNat x) 0x4000 0 0 .reserved "anon" false
    (UInt64.ofNat invalidAddr)
  rw [hnat, hfrom] at hlowest hfull
  have hspec := searchFree_spec W.vma B (show 2 ≤ pageSize by decide) hr
  rw [hmax] at hspec
  rcases hspec with ⟨rfl, hnone⟩ | hleast | ⟨hlow, hwrap⟩
  · -- no place for either alignment
    have hnone' := hfull none s (by decide) VMAType.noConfusion (by decide) (by decide)
      ⟨fun h => absurd rfl h, rfl⟩ (hnomem rfl)
    exact ⟨fun hdvd => absurd (hplace hdvd) (hnone x), fun hdvd => absurd (hplace hdvd) (hnone' x)⟩
  · -- the lowest place for both
    obtain ⟨k', v', hk', hfree', hle', hend'⟩ := hleast.1.inside
    have hbound' := W.vma.bounded hk'
    obtain ⟨s', hs'⟩ := hok (by unfold invalidAddr; omega) k' v' hk' hfree' hle' hpage hend'
    obtain ⟨A, hA, hleast'⟩ := hlowest (some r) s' (by decide) VMAType.noConfusion (by decide)
      (by decide) hs'
    obtain rfl := Option.some.inj hA
    have hge : x ≤ r := hleast.1.above
    constructor
    · intro hdvd
      obtain rfl : r = x := le_antisymm (hleast.2 (hplace hdvd)) hge
      exact hleast'.1.aligned
    · intro hdvd
      obtain rfl : r = x := le_antisymm (hleast'.2 (hplace hdvd)) hge
      exact hleast.1.aligned
  · unfold pageSize at hwrap
    omega

theorem placesLowest_iff (hfresh : Fresh cfg s₀) (hbounds : cfg.SearchBounds)
    (h : Reachable (fun _ c => c.Promised) s₀ s) (alignment : UInt64) :
    PlacesLowest s alignment.toNat ↔ NarrowsWell s.vmaMap (mapAlignment alignment.toNat) := by
  have R := h.regular hfresh fun _ _ hc => hc
  have B := h.searches hfresh hbounds
  exact ⟨fun hplaces => hplaces.narrowsWell R.toWellFormed B,
    fun hnarrows => .of_narrowsWell R B hnarrows⟩

theorem searchBounds_retail : Config.retail.SearchBounds := by
  refine ⟨by decide, ⟨(0x400000, 0x800000), by simp [Config.retail], by decide, by decide⟩, ?_, ?_⟩
  · rintro x ⟨r, hr, hle, -⟩
    have hbase : Config.retail.systemManagedVirtualBase ≤ r.1 := by
      simp only [Config.retail, List.mem_cons, List.not_mem_nil, or_false] at hr ⊢
      rcases hr with rfl | rfl <;> decide
    exact hbase.trans hle
  · rintro x ⟨r, hr, -, hlt⟩
    have hend : r.2 ≤ Config.retail.userVirtualEnd := by
      simp only [Config.retail, List.mem_cons, List.not_mem_nil, or_false] at hr ⊢
      rcases hr with rfl | rfl <;> decide
    omega

theorem placesLowest_iff_sample :
    PlacesLowest Config.retail.start (0x100000 : UInt64).toNat ↔
      NarrowsWell Config.retail.start.vmaMap (mapAlignment (0x100000 : UInt64).toNat) :=
  placesLowest_iff fresh_retail searchBounds_retail .start 0x100000

/-- An alignment of 4 GiB is accepted and divides by zero; the next multiple of a page above it
finds a place that is not aligned to it. -/
theorem placesLowest_fails :
    ¬ PlacesLowest Config.retail.start 0x100000000 ∧
      ¬ PlacesLowest Config.retail.start 0x100004000 := by
  have R := Reachable.start.regular fresh_retail fun _ _ (hc : Call.Promised _) => hc
  have B := Reachable.start.searches fresh_retail searchBounds_retail
  constructor
  · intro h
    exact absurd (h.narrowsWell R.toWellFormed B).1 (by decide)
  · intro h
    obtain ⟨v, hv⟩ : ∃ v, Config.retail.start.vmaMap.get? 0x400000 = some v := ⟨_, rfl⟩
    have hfree : v.type = .free ∧ 0x400000 + pageSize ≤ 0x400000 + v.size := by
      cases hv
      decide
    have hiff := (h.narrowsWell R.toWellFormed B).2 0x400000 0x400000 v hv hfree.1 le_rfl hfree.2
    exact absurd (hiff.1 (by decide)) (by decide)

end OrbitConsole.Memory
