import OrbitConsole.Core.Memory.DirectBookkeeping

/-!
# Unmapping returns

`UnmapBytesFromEntry` carves every physical area of a mapping out of the
physical map in one piece, which asserts that the piece lies in one area there.
As long as no byte of direct memory is mapped twice this holds: `Safe` is an
invariant of the mapping calls. Therefore `UnmapMemory` returns on every
accepted range, unless the range starts in a gap between two regions behind
mapped memory, which `IsValidMapping` accepts by an underflow.
-/

namespace OrbitConsole.Memory

open Exec

variable {L : Layout} {cfg : Config} {s s₀ s₁ s' : MemoryManager} {c : Call}
  {A R U : Set ℕ} {T : VMAType} {m m' : VMAMap} {pm pm' : PhysMap} {g : Label → Label}

/-! ### Unshared backing -/

theorem Unbroken.of_effect {b e : ℕ} (h : Unbroken pm b e) (heffect : PhysEffect U pm R g pm')
    (hR : ∀ p, b ≤ p → p < e → p ∉ R) : Unbroken pm' b e := by
  intro y hy hy'
  by_contra hne
  rcases heffect.key y (Option.isSome_iff_ne_none.2 hne) with hkey | ⟨p, hp, rfl | rfl⟩
  · rw [h y hy hy'] at hkey
    cases hkey
  · exact hR y hy.le hy' hp
  · exact hR p (by omega) (by omega) hp

theorem Unshared.of_effect (h : Unshared T m pm R) (V : VmaMapOk m U)
    (hT : T = .direct ∨ T = .flexible ∨ T = .pooled) {B : Set ℕ}
    (heffect : PhysEffect R pm B g pm') (hB : Disjoint (physOf T m Set.univ) B) :
    Unshared T m pm' R := by
  refine ⟨h.injective, h.subset, fun k v hk x a hx htype => ?_⟩
  have hb : hasPhysicalBacking v = true := by
    simpa [hasPhysicalBacking, htype, or_assoc] using hT
  refine (h.unbroken k v hk x a hx htype).of_effect heffect fun p hp hp' hmem => ?_
  obtain ⟨c, hc, hct, hback, -⟩ := V.cell_of_piece hk hb hx hp hp'
  exact Set.disjoint_left.1 hB
    ⟨_, Set.mem_univ _, c, _, hc, hct.trans htype, hback⟩ hmem

theorem Unshared.of_inherits (h : Unshared T m pm R) (hinherits : Inherits T m m')
    (hpieces : AllPieces (fun t b e => t = T → Unbroken pm b e) m') : Unshared T m' pm R :=
  ⟨hinherits.injective h.injective, fun B => hinherits.physOf_subset.trans (h.subset B), hpieces⟩

section Created

variable {addr size : ℕ} {prot : MemoryProt} {type : VMAType} {name : String} {pa : PhysMap}

theorem Unshared.of_created (h : Unshared T m pm R) (V : VmaMapOk m U)
    (hT : T = .direct ∨ T = .flexible ∨ T = .pooled)
    (hc : AreaCreated U addr size prot T name m pa m') (hB : Backed R pm g pm' pa size)
    (hfresh : ∀ p ∈ physBytes pa, p ∉ physOf T m Set.univ) : Unshared T m' pm' R := by
  have h' := h.of_effect V hT hB.effect (Set.disjoint_right.2 hfresh)
  refine ⟨hc.injective h.injective hB.injective hfresh, fun B => ?_, ?_⟩
  · exact hc.physOf_subset.trans (Set.union_subset (h.subset B) hB.effect.subset)
  · exact hc.pieces _ (subClosed_unbroken T pm') h'.unbroken fun x a hx _ => hB.unbroken hx

theorem Unshared.of_created_other (h : Unshared T m pm R)
    (hc : AreaCreated U addr size prot type name m pa m') (hT : type ≠ T) :
    Unshared T m' pm R :=
  h.of_inherits (hc.inherits hT)
    (hc.pieces _ (subClosed_unbroken T pm) h.unbroken fun _ _ _ heq => absurd heq hT)

end Created

theorem Unshared.closed (h : Unshared .direct m pm R) (A : Set ℕ) : Closed m A := by
  intro x hx y hy p t u hp hq
  obtain ⟨c, hc, hcT, hcp⟩ := directAt_eq_some.1 hp
  obtain ⟨d, hd, hdT, hdp⟩ := directAt_eq_some.1 hq
  exact hy (h.injective hc hd hcT hdT hcp hdp ▸ hx)

/-! ### The mapping calls -/

def Call.Plain : Call → Prop
  | allocate _ _ _ _ _ => True
  | mapMemory _ _ _ _ type _ _ _ _ =>
      type = .direct ∨ type = .flexible ∨ type = .reserved
  | unmapMemory _ _ => True
  | protect _ _ _ => True
  | setDirectMemoryType _ _ _ => True
  | _ => False

/-- A Direct mapping without the check for mapped memory refers to no byte that is mapped
already, but for those it replaces. -/
def Call.Unaliased (s : MemoryManager) : Call → Prop
  | mapMemory virtualAddr size _ flags type _ validateDmem physAddr _ =>
      type = .direct → validateDmem = false → ∀ x p t, directAt s.vmaMap x = some (p, t) →
        physAddr.toNat ≤ p → p < physAddr.toNat + size.toNat →
          hasFlag flags MemoryMapFlags.fixed = true ∧ virtualAddr.toNat ≤ x ∧
            x < virtualAddr.toNat + size.toNat
  | _ => True

/-- What the mapping calls keep. -/
structure UnmapOk (L : Layout) (s : MemoryManager) : Prop extends Regular L s where
  pool : PoolOk s
  direct : DirectOk s
  flexible : FlexibleOk s
  safe : Safe L s
  unpooled : ∀ x c, cells s.vmaMap x = some c → c.type ≠ .pooled

theorem Inherits.unpooled (h : Inherits .pooled m m')
    (hm : ∀ x c, cells m x = some c → c.type ≠ .pooled) :
    ∀ x c, cells m' x = some c → c.type ≠ .pooled := by
  intro x c hc hpooled
  obtain ⟨d, hd, hdT, -⟩ := h x c hc hpooled
  exact hm x d hd hdT

section Mapping

variable {addr size physAddr : ℕ} {prot : MemoryProt} {flags : MemoryMapFlags}
  {type : VMAType} {name : String} {pa : PhysMap}

theorem Safe.of_created (h : Safe L s) (W : WellFormed L s) (hflexible : FlexibleOk s)
    (hc : Created L addr size prot type name physAddr s s' pa)
    (hfresh : type = .direct → ∀ p ∈ physBytes pa, p ∉ physOf .direct s.vmaMap Set.univ) :
    Safe L s' := by
  by_cases hdirect : type = .direct
  · subst hdirect
    obtain ⟨hB, -, hrest⟩ := hc.backed.of_direct
    have hfmem : s'.fmemMap = s.fmemMap := (congrArg MemoryManager.fmemMap hrest :)
    refine ⟨h.direct.of_created W.vma (by simp) hc.toAreaCreated hB (hfresh rfl), ?_⟩
    rw [hfmem]
    exact h.flexible.of_created_other hc.toAreaCreated (by simp)
  have hdmem := hc.backed.dmemMap_eq hdirect
  by_cases hflex : type = .flexible
  · subst hflex
    obtain ⟨hB, hfree, -⟩ := hc.backed.of_flexible
    refine ⟨?_, h.flexible.of_created W.vma (by simp) hc.toAreaCreated hB fun p hp hold => ?_⟩
    · rw [show s'.dmemMap = s.dmemMap from hdmem]
      exact h.direct.of_created_other hc.toAreaCreated hdirect
    · exact Set.disjoint_left.1 (bytesOfType_disjoint (t := .free) (u := .flexible) (by simp))
        (hfree p hp) (hflexible.backed hold)
  · obtain ⟨hfmem, -, -⟩ := hc.backed.flexible_eq hflex
    refine ⟨?_, ?_⟩
    · rw [show s'.dmemMap = s.dmemMap from hdmem]
      exact h.direct.of_created_other hc.toAreaCreated hdirect
    · rw [show s'.fmemMap = s.fmemMap from hfmem]
      exact h.flexible.of_created_other hc.toAreaCreated hflex

theorem Safe.of_mapped (h : Safe L s) (W : WellFormed L s) (hflexible : FlexibleOk s)
    (hm : Mapped L addr size flags prot type name physAddr s s')
    (hfresh : type = .direct → ∀ x ∉ Set.Ico addr (addr + size), ∀ p t,
      directAt s.vmaMap x = some (p, t) → ¬(physAddr ≤ p ∧ p < physAddr + size)) :
    Safe L s' := by
  obtain ⟨s₁, pa, hun, -, hcreated⟩ := hm.created
  refine (h.of_unmapped hun).of_created (hun.wellFormed W) (hflexible.of_unmapped W hun)
    hcreated ?_
  rintro rfl p ⟨i, l, hi⟩ hold
  obtain ⟨hB, hbytes, -⟩ := hcreated.backed.of_direct
  have hlt : i < size := hB.tiles.tiles.view_isSome_iff.1 (by rw [← bytes, hi]; rfl)
  obtain ⟨l', hi'⟩ := hbytes i hlt
  rw [hi, Option.some.injEq, Prod.mk.injEq] at hi'
  obtain ⟨x, -, t, hx⟩ := mem_physOf_direct.1 hold
  have hout : x ∉ Set.Ico addr (addr + size) := fun hmem => by
    rw [hun.directAt_in hmem] at hx
    cases hx
  rw [hun.directAt_out hout] at hx
  exact hfresh rfl x hout p t hx ⟨by omega, by omega⟩

end Mapping

theorem Call.Plain.keepsPool (h : c.Plain) : c.KeepsPool s := by
  cases c <;> first | exact trivial | exact h.elim

theorem Call.Plain.keepsDirect (h : c.Plain) (hs : Unshared .direct s.vmaMap s.dmemMap R) :
    c.KeepsDirect s := by
  cases c with
  | allocate => exact trivial
  | protect => exact trivial
  | mapMemory => exact fun _ => hs.closed _
  | unmapMemory => exact hs.closed _
  | setDirectMemoryType => exact hs.closed _
  | nameVirtualRange => exact trivial
  | free => exact h.elim
  | poolExpand => exact h.elim
  | poolCommit => exact h.elim
  | poolDecommit => exact h.elim
  | mapFile => exact h.elim

theorem Call.exec_safe (hs : UnmapOk L s) (hpromised : c.Promised) (hplain : c.Plain)
    (halias : c.Unaliased s) (hcall : c.exec s = .ok s') :
    Safe L s' ∧ ∀ x c, cells s'.vmaMap x = some c → c.type ≠ .pooled := by
  have W := hs.toWellFormed
  have hsafe := hs.safe
  cases Call.exec_effect hs.toRegular hpromised hcall with
  | unchanged => exact ⟨hsafe, hs.unpooled⟩
  | @allocated _ _ size _ _ start _ h =>
      refine ⟨⟨hsafe.direct.of_effect W.vma (by simp) (h.toRelabelled.effect W.dmem) ?_,
        hsafe.flexible⟩, hs.unpooled⟩
      refine Disjoint.mono_left (fun p hp => ?_)
        (h.disjoint (t := .mapped) (by exact hpromised) (by simp))
      obtain ⟨x, -, t, hx⟩ := mem_physOf_direct.1 hp
      exact (hs.direct.mapped p).2 ⟨x, t, hx⟩
  | @mapped _ _ _ _ _ _ validateDmem _ _ _ _ h hfixed _ hdmem =>
      refine ⟨hsafe.of_mapped W hs.flexible h ?_, ?_⟩
      · rintro htype x hout p t hx ⟨hle, hlt⟩
        obtain ⟨l, hl, -, hvalidate⟩ := hdmem htype p hle hlt
        obtain ⟨l', hl', hmapped⟩ := (hs.direct.mapped p).2 ⟨x, t, hx⟩
        rw [hl, Option.some.injEq] at hl'
        subst hl'
        by_cases hcheck : validateDmem = true
        · exact hvalidate hcheck hmapped
        · obtain ⟨hflag, hin⟩ := halias htype (by simpa using hcheck) x p t hx hle hlt
          rw [hfixed hflag] at hout
          exact hout hin
      · obtain ⟨s₁, pa, hun, -, hcreated⟩ := h.created
        have h₁ : Inherits .pooled s.vmaMap s₁.vmaMap := hun.inherits (by simp)
        exact (h₁.trans (hcreated.inherits hcreated.backed.ne_pooled)).unpooled hs.unpooled
  | unmapped _ h =>
      exact ⟨hsafe.of_unmapped h, (h.inherits (by simp)).unpooled hs.unpooled⟩
  | guarded h =>
      exact ⟨⟨hsafe.direct.of_inherits h.inherits
          (h.pieces _ (subClosed_unbroken _ _) hsafe.direct.unbroken),
        hsafe.flexible.of_inherits h.inherits
          (h.pieces _ (subClosed_unbroken _ _) hsafe.flexible.unbroken)⟩,
        h.inherits.unpooled hs.unpooled⟩
  | retyped h _ =>
      refine ⟨⟨h.unshared _ (.inl rfl) hs.pool.disjoint hsafe.direct, ?_⟩,
        h.inherits.unpooled hs.unpooled⟩
      have hfmem : s'.fmemMap = s.fmemMap := (congrArg MemoryManager.fmemMap h.rest :)
      rw [hfmem]
      exact hsafe.flexible.of_inherits h.inherits
        (h.pieces _ (subClosed_unbroken _ _) hsafe.flexible.unbroken)
  | expanded => exact hplain.elim
  | freed => exact hplain.elim
  | committed => exact hplain.elim
  | decommitted => exact hplain.elim
  | mappedFile => exact hplain.elim
  | named => exact hplain.elim

theorem Call.exec_unmapOk (hs : UnmapOk L s) (hpromised : c.Promised) (hplain : c.Plain)
    (halias : c.Unaliased s) (hcall : c.exec s = .ok s') : UnmapOk L s' := by
  have R := hs.toRegular
  have hkeeps : c.KeepsPool s := hplain.keepsPool
  obtain ⟨hsafe, hunpooled⟩ := Call.exec_safe hs hpromised hplain halias hcall
  have heffect := Call.exec_effect R hpromised hcall
  exact ⟨heffect.regular R, Call.exec_poolOk R hpromised hkeeps hs.pool hcall,
    Call.exec_directOk R hpromised hkeeps (hplain.keepsDirect hs.safe.direct) hs.direct hs.pool
      hcall,
    heffect.flexibleOk R hs.flexible, hsafe, hunpooled⟩

theorem Fresh.unmapOk (hfresh : Fresh cfg s₀) : UnmapOk (cfg.layout s₀) s₀ := by
  have hnone : ∀ x c, cells s₀.vmaMap x = some c → c.type = .free := by
    intro x c hc
    obtain ⟨hsetup, -, -, -⟩ := hfresh
    obtain ⟨_, -, hsetup⟩ := bind_eq_ok.1 hsetup
    obtain ⟨e, -, hsetup⟩ := bind_eq_ok.1 hsetup
    obtain ⟨_, -, hret⟩ := bind_eq_ok.1 hsetup
    cases hret
    exact construct_cells hc
  have hunshared : ∀ T pm R, T = .direct ∨ T = .flexible → Unshared T s₀.vmaMap pm R := by
    intro T pm R hT
    have hne : ∀ x c, cells s₀.vmaMap x = some c → c.type ≠ T := by
      rintro x c hc rfl
      rw [hnone x c hc] at hT
      simp at hT
    refine ⟨fun hx _ hcT _ _ _ => absurd hcT (hne _ _ hx), fun B => ?_, ?_⟩
    · rintro p ⟨x, -, c, t, hc, hcT, -⟩
      exact absurd hcT (hne x c hc)
    · intro k v hk x a _ htype
      have hpos := hfresh.regular.vma.tiles.pos hk
      exact absurd htype (hne k _ (hfresh.regular.vma.cells_eq hk le_rfl (by omega)))
  refine ⟨hfresh.regular, hfresh.poolOk, hfresh.directOk, hfresh.flexibleOk,
    ⟨hunshared _ _ _ (.inl rfl), hunshared _ _ _ (.inr rfl)⟩, fun x c hc => ?_⟩
  rw [hnone x c hc]
  simp

theorem Reachable.unmapOk (hfresh : Fresh cfg s₀)
    (h : Reachable (fun s c => c.Promised ∧ c.Plain ∧ c.Unaliased s) s₀ s) :
    UnmapOk (cfg.layout s₀) s :=
  h.invariant hfresh.unmapOk fun _ _ _ hs hc hcall =>
    Call.exec_unmapOk hs hc.1 hc.2.1 hc.2.2 hcall

/-! ### `UnmapMemory` -/

theorem unmapMemory_gap_returns {addr size k : ℕ} {v : VirtualMemoryArea}
    (haddr : addr < 18446744073709551616) (haligned : alignDown addr pageSize = addr)
    (hsize : size < 18446744073709551616) (hsaligned : alignUp size pageSize = size)
    (W : WellFormed L s) (hvalid : s.isValidMapping addr size = true)
    (hfloor : s.vmaMap.floor addr = some (k, v)) (hfree : v.type = .free)
    (hgap : k + v.size ≤ addr) : ∃ s', s.unmapMemory addr size = .ok s' := by
  unfold MemoryManager.unmapMemory
  split
  · exact ⟨s, rfl⟩
  next hzero =>
  rw [haligned, hsaligned]
  have hle := (OrderedMap.floor_eq_some_iff.1 hfloor).2.1
  have hbase := W.vma.base_eq (OrderedMap.floor_eq_some_iff.1 hfloor).1
  have hmin : min (sub64 v.size (addr - k)) size = size := by
    rcases isValidMapping_cases W.vma haddr hsize hvalid with hin | ⟨k', v', hfloor', -, hmin⟩
    · obtain ⟨y, w, hy, hylt⟩ := floor_of_mem W.vma (hin ⟨le_rfl, by omega⟩)
      rw [hfloor, Option.some.injEq, Prod.mk.injEq] at hy
      obtain ⟨rfl, rfl⟩ := hy
      omega
    · rw [hfloor, Option.some.injEq, Prod.mk.injEq] at hfloor'
      obtain ⟨rfl, rfl⟩ := hfloor'
      exact hmin
  have hround : s.unmapBytesFromEntry addr v size = .ok (size, s) := by
    rw [MemoryManager.unmapBytesFromEntry, if_pos (.inl hfree), hbase,
      sub64_eq hle haddr, hmin]
    rfl
  refine ⟨s, bind_eq_ok.2 ⟨(), assertMsg_eq_ok.2 hvalid, ?_⟩⟩
  rw [MemoryManager.unmapMemoryImpl, MemoryManager.unmapMemoryImplLoop]
  refine bind_eq_ok.2 ⟨(k, v), findArea_eq_ok.2 ?_, bind_eq_ok.2 ⟨(size, s), ?_,
    bind_eq_ok.2 ⟨(), assertMsg_eq_ok.2 (Nat.pos_of_ne_zero hzero), ?_⟩⟩⟩
  · rw [add64_eq (by omega)]
    exact hfloor
  · rw [add64_eq (by omega), sub64_zero hsize]
    exact hround
  · simp only
    rw [add64_eq (by omega), Nat.zero_add, if_neg (lt_irrefl size)]
    rfl

/-- A range starts in an area, or in a gap behind a free one. -/
def StartsWell (s : MemoryManager) (addr : ℕ) : Prop :=
  ∃ k v, s.vmaMap.floor addr = some (k, v) ∧ (addr < k + v.size ∨ v.type = .free)

/-- After any run of mapping calls that maps no memory twice, `UnmapMemory` returns on every
accepted, aligned range that starts in an area or in a gap behind a free one. -/
theorem unmap_returns (hfresh : Fresh cfg s₀)
    (h : Reachable (fun s c => c.Promised ∧ c.Plain ∧ c.Unaliased s) s₀ s)
    {addr size : UInt64} (haddr : addr.toNat % pageSize = 0) (hsize : size.toNat % pageSize = 0)
    (hvalid : s.isValidMapping addr.toNat size.toNat = true)
    (hstart : StartsWell s addr.toNat) :
    ∃ s', s.unmapMemory addr.toNat size.toNat = .ok s' := by
  have hs := h.unmapOk hfresh
  have W := hs.toWellFormed
  have haligned : alignDown addr.toNat pageSize = addr.toNat := by
    rw [alignDown, haddr, Nat.sub_zero]
  have hsaligned : alignUp size.toNat pageSize = size.toNat := by
    simp [alignUp, hsize]
  obtain ⟨k, v, hfloor, hin⟩ := hstart
  obtain ⟨hk, hle, -⟩ := OrderedMap.floor_eq_some_iff.1 hfloor
  rcases Nat.lt_or_ge addr.toNat (k + v.size) with hlt | hge
  · exact unmapMemory_returns W hs.usage_lt hs.safe (W.vma.tiles.mem_of_get? hk hle hlt)
      haligned size.toNat_lt hsaligned hvalid
  · exact unmapMemory_gap_returns addr.toNat_lt haligned size.toNat_lt hsaligned W hvalid
      hfloor (hin.resolve_left (by omega)) hge

def mapCalls : List Call :=
  [.allocate 0 0x10000 0x8000 0 0,
    .mapMemory 0x200000000 0x8000 3 0 .direct "direct" true 0 0]

theorem unmap_returns_sample : ∃ s s', runCalls Config.retail.start mapCalls = .ok s ∧
    s.unmapMemory (0x200000000 : UInt64).toNat (0x4000 : UInt64).toNat = .ok s' := by
  have hcheck : ((runCalls Config.retail.start mapCalls).toOption.any fun s =>
      s.isValidMapping (0x200000000 : UInt64).toNat (0x4000 : UInt64).toNat &&
        (s.vmaMap.floor (0x200000000 : UInt64).toNat).any fun e =>
          decide ((0x200000000 : UInt64).toNat < e.1 + e.2.size)) = true := by
    decide
  obtain ⟨s, hrun, hboth⟩ := exists_of_any hcheck
  obtain ⟨hvalid, hfloor⟩ := Bool.and_eq_true_iff.1 hboth
  obtain ⟨⟨k, v⟩, hkv, hlt⟩ := (Option.any_eq_true _ _).1 hfloor
  have hreach : Reachable (fun s c => c.Promised ∧ c.Plain ∧ c.Unaliased s)
      Config.retail.start s := by
    refine runCalls_reachable .start (fun c hc _ => ?_) hrun
    simp only [mapCalls, List.mem_cons, List.not_mem_nil, or_false] at hc
    rcases hc with rfl | rfl
    · exact ⟨by simp [Call.Promised], trivial, trivial⟩
    · exact ⟨by simp [Call.Promised], .inl rfl, fun _ h => by cases h⟩
  obtain ⟨s', hs'⟩ := unmap_returns fresh_retail hreach (by decide) (by decide) hvalid
    ⟨k, v, hkv, .inl (of_decide_eq_true hlt)⟩
  exact ⟨s, s', hrun, hs'⟩

/-- With one range mapped at two addresses, unmapping a part at the first makes unmapping at
the second fail. -/
theorem alias_unmap_fails :
    ¬ ∀ s (addr size : UInt64),
      Reachable (fun _ c => c.Promised ∧ c.Plain) Config.retail.start s →
      addr.toNat % pageSize = 0 → size.toNat % pageSize = 0 →
      s.isValidMapping addr.toNat size.toNat = true →
      ∃ s', s.unmapMemory addr.toNat size.toNat = .ok s' := by
  intro hall
  have hcheck : ((runCalls Config.retail.start
      (aliasCalls ++ [.unmapMemory 0x200000000 0x4000])).toOption.any fun s =>
        s.isValidMapping (0x200010000 : UInt64).toNat (0x8000 : UInt64).toNat &&
          !(s.unmapMemory (0x200010000 : UInt64).toNat (0x8000 : UInt64).toNat).toBool) =
      true := by
    decide
  obtain ⟨s, hrun, hboth⟩ := exists_of_any hcheck
  obtain ⟨hvalid, hfails⟩ := Bool.and_eq_true_iff.1 hboth
  have hreach : Reachable (fun _ c => c.Promised ∧ c.Plain) Config.retail.start s := by
    refine runCalls_reachable .start (fun c hc _ => ?_) hrun
    simp only [aliasCalls, List.cons_append, List.nil_append, List.mem_cons,
      List.not_mem_nil, or_false] at hc
    rcases hc with rfl | rfl | rfl | rfl <;> simp [Call.Promised, Call.Plain]
  obtain ⟨s', hs'⟩ := hall s 0x200010000 0x8000 hreach (by decide) (by decide) hvalid
  rw [hs'] at hfails
  cases hfails

end OrbitConsole.Memory
