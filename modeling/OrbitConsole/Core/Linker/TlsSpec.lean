import Mathlib.Data.List.GetD
import Mathlib.Data.List.Nodup
import Mathlib.Data.List.Pairwise
import OrbitConsole.Core.Linker.Tls

/-!
# What threads find in their storage

A table is as long as its generation says, as long as no table is sized while a module
that was counted waits for its generation. The blocks of live threads are then apart,
stay where they are, and are freed when their thread ends.
-/

namespace OrbitConsole.Linker

open Function (update update_of_ne update_self)

open Transition

/-! ## Tables -/

section Tables

variable {tcb : Tcb} {m n a : ℕ}

theorem Tcb.le_length (h : tcb.pointer m ≠ 0) (hm : 0 < m) : m ≤ tcb.pointers.length := by
  by_contra hlt
  exact h (List.getD_eq_default _ _ (by omega))

theorem Tcb.pointer_set (hn : 0 < n) (hm : 0 < m) (hle : m ≤ tcb.pointers.length) :
    ({ tcb with pointers := tcb.pointers.set (m - 1) a } : Tcb).pointer n =
      if n = m then a else tcb.pointer n := by
  simp only [Tcb.pointer, List.getD_eq_getElem?_getD, List.getElem?_set]
  by_cases hnm : n = m
  · rw [if_pos (by omega), if_pos (by omega), if_pos hnm]
    rfl
  · rw [if_neg (by omega), if_neg hnm]

theorem Tcb.pointer_append (generation k : ℕ) :
    ({ tcb with generation := generation, pointers := tcb.pointers ++ List.replicate k 0 } :
      Tcb).pointer n = tcb.pointer n := by
  simp only [Tcb.pointer, List.getD_eq_getElem?_getD, List.getElem?_append,
    List.getElem?_replicate]
  split
  · rfl
  · rename_i hlt
    rw [List.getElem?_eq_none (by omega)]
    split <;> rfl

theorem Tcb.pointer_replicate (base generation k : ℕ) :
    (⟨base, generation, List.replicate k 0⟩ : Tcb).pointer n = 0 := by
  simp only [Tcb.pointer, List.getD_eq_getElem?_getD, List.getElem?_replicate]
  split <;> rfl

end Tables

namespace State

/-! ## The generation of a table -/

/-- The module has a generation of its own, or was there before the first thread. -/
def Counted (k : Module) : Prop := k.dynamic = false ∨ k.imageSize ≠ 0

/-- A table of this length is right for the present generation. -/
structure Sized (s : State) (length : ℕ) : Prop where
  le : length ≤ s.maxTlsIndex
  room : (∃ k ∈ s.loading, k.imageSize ≠ 0) → length < s.maxTlsIndex
  seen : ∀ k ∈ s.modules, k ∉ s.loading → Counted k → k.modid ≤ length

/-- A table is of the present generation and has its length, or is of an earlier one and
too short. -/
def TableOk (s : State) (generation length : ℕ) : Prop :=
  generation = s.dtvGenerationCounter ∧ s.Sized length ∨
    generation < s.dtvGenerationCounter ∧ length < s.maxTlsIndex

structure ModuleInv (s : State) : Prop where
  modids : ∀ k ∈ s.modules, k.modid ≤ s.maxTlsIndex
  count : s.maxTlsIndex ≤ s.modules.length
  unique : ∀ k ∈ s.modules, ∀ k' ∈ s.modules, k.modid = k'.modid → k.modid ≠ 0 → k = k'
  fits : ∀ k ∈ s.modules, k.initImage.length ≤ k.imageSize
  program : ∃ k rest, s.modules = k :: rest ∧ k.imageSize = s.staticTlsSize ∧
    k.dynamic = false ∧ (k.imageSize ≠ 0 → k.modid ≠ 0)
  loading : ∀ k ∈ s.loading, k.dynamic = true

structure MemoryInv (s : State) : Prop where
  apart : s.occupied.Pairwise Region.Apart
  sizes : ∀ r ∈ s.occupied, 0 < r.size ∧ r.base ≠ 0
  keys : ∀ r ∈ s.occupied, ∀ r' ∈ s.occupied, r.tid = r'.tid → r.key = r'.key → r = r'
  tids : ∀ r ∈ s.occupied, r.tid < s.numThreads ∨ s.ctor ≠ none ∧ r.key = none ∧
    r.tid = s.numThreads
  blocks : ∀ r ∈ s.occupied, ∀ m, r.key = some m →
    ∃ tcb, s.threads r.tid = some tcb ∧ 0 < m ∧ tcb.pointer m = r.base
  areas : ∀ t tcb, s.threads t = some tcb →
    t < s.numThreads ∧ ⟨t, none, tcb.base, s.totalTlsSize⟩ ∈ s.occupied
  pointers : ∀ t tcb, s.threads t = some tcb → ∀ m, 0 < m → tcb.pointer m ≠ 0 →
    ∃ c ∈ s.created, c.tid = t ∧ c.modid = m
  created : ∀ c ∈ s.created, c.tid < s.numThreads ∧ ∀ tcb, s.threads c.tid = some tcb →
    0 < c.modid ∧ tcb.pointer c.modid = c.base ∧
      ∃ r ∈ s.occupied, r.tid = c.tid ∧ r.base = c.base ∧ c.contents.length ≤ r.size ∧
        (r.key = some c.modid ∨
          r.key = none ∧ s.modules.head?.map (·.modid) = some c.modid)
  once : ∀ c ∈ s.created, ∀ d ∈ s.created, c.tid = d.tid → c.modid = d.modid → c = d
  contents : ∀ c ∈ s.created, ∃ k ∈ s.modules, k.modid = c.modid ∧ c.modid ≠ 0 ∧
    c.contents = k.image
  answers : ∀ a ∈ s.answers, ∃ c ∈ s.created, c.tid = a.tid ∧ c.modid = a.moduleIndex ∧
    a.address = c.base + a.offset

structure TlsInv (s : State) : Prop where
  fault : s.fault = none
  modules : s.ModuleInv
  tables : ∀ t tcb, s.threads t = some tcb → s.TableOk tcb.generation tcb.pointers.length
  ctor : ∀ c, s.ctor = some c → s.Sized c.numDtvs ∧
    ⟨s.numThreads, none, c.base, s.totalTlsSize⟩ ∈ s.occupied
  memory : s.MemoryInv

/-! ## The modules -/

variable {s s' : State}

theorem moduleOf_cases (s : State) (file : Option TlsSegment) (isDynamic : Bool) :
    (s.moduleOf file isDynamic).dynamic = isDynamic ∧
      (s.moduleOf file isDynamic).initImage.length ≤ (s.moduleOf file isDynamic).imageSize ∧
      (file = none ∧ (s.moduleOf file isDynamic).modid = 0 ∧
          (s.moduleOf file isDynamic).imageSize = 0 ∨
        file.isSome ∧ (s.moduleOf file isDynamic).modid = s.maxTlsIndex + 1) := by
  cases file with
  | none => exact ⟨rfl, Nat.le_refl 0, .inl ⟨rfl, rfl, rfl⟩⟩
  | some segment => exact ⟨rfl, segment.fits, .inr ⟨rfl, rfl⟩⟩

theorem maxTlsIndex_loadModule (s : State) (file : Option TlsSegment) (isDynamic : Bool) :
    s.maxTlsIndex ≤ (s.loadModule file isDynamic).maxTlsIndex := by
  simp only [loadModule]
  split <;> omega

theorem modid_le_loadModule (s : State) (file : Option TlsSegment) (isDynamic : Bool) :
    (s.moduleOf file isDynamic).modid ≤ (s.loadModule file isDynamic).maxTlsIndex := by
  obtain ⟨-, -, ⟨rfl, hmodid, -⟩ | ⟨hsome, hmodid⟩⟩ := s.moduleOf_cases file isDynamic
  · omega
  · simp only [loadModule, hsome, if_true]
    omega

theorem modids_loadModule (file : Option TlsSegment) (isDynamic : Bool)
    (h : ∀ k ∈ s.modules, k.modid ≤ s.maxTlsIndex) :
    ∀ k ∈ (s.loadModule file isDynamic).modules,
      k.modid ≤ (s.loadModule file isDynamic).maxTlsIndex := by
  intro k hk
  rcases List.mem_append.1 hk with hk | hk
  · exact Nat.le_trans (h k hk) (s.maxTlsIndex_loadModule file isDynamic)
  · obtain rfl := List.mem_singleton.1 hk
    exact s.modid_le_loadModule file isDynamic

theorem count_loadModule (file : Option TlsSegment) (isDynamic : Bool)
    (h : s.maxTlsIndex ≤ s.modules.length) :
    (s.loadModule file isDynamic).maxTlsIndex ≤ (s.loadModule file isDynamic).modules.length := by
  simp only [loadModule, List.length_append, List.length_cons, List.length_nil]
  split <;> omega

theorem unique_loadModule (file : Option TlsSegment) (isDynamic : Bool)
    (hle : ∀ k ∈ s.modules, k.modid ≤ s.maxTlsIndex)
    (h : ∀ k ∈ s.modules, ∀ k' ∈ s.modules, k.modid = k'.modid → k.modid ≠ 0 → k = k') :
    ∀ k ∈ (s.loadModule file isDynamic).modules, ∀ k' ∈ (s.loadModule file isDynamic).modules,
      k.modid = k'.modid → k.modid ≠ 0 → k = k' := by
  obtain ⟨-, -, hnew⟩ := s.moduleOf_cases file isDynamic
  intro k hk k' hk' heq hne
  rcases List.mem_append.1 hk with hk | hk <;> rcases List.mem_append.1 hk' with hk' | hk'
  · exact h k hk k' hk' heq hne
  · obtain rfl := List.mem_singleton.1 hk'
    have := hle k hk
    omega
  · obtain rfl := List.mem_singleton.1 hk
    have := hle k' hk'
    omega
  · rw [List.mem_singleton.1 hk, List.mem_singleton.1 hk']

theorem fits_loadModule (file : Option TlsSegment) (isDynamic : Bool)
    (h : ∀ k ∈ s.modules, k.initImage.length ≤ k.imageSize) :
    ∀ k ∈ (s.loadModule file isDynamic).modules, k.initImage.length ≤ k.imageSize := by
  intro k hk
  rcases List.mem_append.1 hk with hk | hk
  · exact h k hk
  · obtain rfl := List.mem_singleton.1 hk
    exact (s.moduleOf_cases file isDynamic).2.1

theorem length_image {k : Module} (h : k.initImage.length ≤ k.imageSize) :
    k.image.length = k.imageSize := by
  simp only [Module.image, List.length_append, List.length_replicate]
  omega

/-! ## The start -/

structure StaticInv (s : State) : Prop where
  modids : ∀ k ∈ s.modules, k.modid ≤ s.maxTlsIndex
  count : s.maxTlsIndex ≤ s.modules.length
  unique : ∀ k ∈ s.modules, ∀ k' ∈ s.modules, k.modid = k'.modid → k.modid ≠ 0 → k = k'
  fits : ∀ k ∈ s.modules, k.initImage.length ≤ k.imageSize
  static : ∀ k ∈ s.modules, k.dynamic = false
  rest : s = { modules := s.modules, maxTlsIndex := s.maxTlsIndex }

theorem StaticInv.loadModule (h : StaticInv s) (file : Option TlsSegment) :
    StaticInv (s.loadModule file false) where
  modids := modids_loadModule file false h.modids
  count := count_loadModule file false h.count
  unique := unique_loadModule file false h.modids h.unique
  fits := fits_loadModule file false h.fits
  static := fun k hk => by
    rcases List.mem_append.1 hk with hk | hk
    · exact h.static k hk
    · rw [List.mem_singleton.1 hk]
      exact (s.moduleOf_cases file false).1
  rest := by
    rw [h.rest]
    rfl

theorem staticInv_foldl (files : List (Option TlsSegment)) (h : StaticInv s) :
    StaticInv (files.foldl (fun (s : State) file => s.loadModule file false) s) ∧
      ∃ rest, (files.foldl (fun (s : State) file => s.loadModule file false) s).modules =
        s.modules ++ rest := by
  induction files generalizing s with
  | nil => exact ⟨h, [], (List.append_nil _).symm⟩
  | cons file files ih =>
      obtain ⟨hinv, rest, hrest⟩ := ih (h.loadModule file)
      exact ⟨hinv, s.moduleOf file false :: rest, hrest.trans (by simp [loadModule])⟩

theorem tlsInv_start (program : Option TlsSegment) (libraries : List (Option TlsSegment)) :
    TlsInv (start program libraries) := by
  have hempty : StaticInv {} := ⟨by simp, by simp, by simp, by simp, by simp, rfl⟩
  obtain ⟨hinv, rest, hrest⟩ := staticInv_foldl libraries (hempty.loadModule program)
  obtain ⟨s, hs⟩ : ∃ s, s = libraries.foldl (fun (s : State) file => s.loadModule file false)
    (loadModule {} program false) := ⟨_, rfl⟩
  have hstart : start program libraries =
      { s with staticTlsSize := (s.modules.head?.map (·.imageSize)).getD 0 } := by
    rw [hs]
    rfl
  rw [← hs] at hinv hrest
  have hmodules : s.modules = moduleOf {} program false :: rest := hrest
  rw [hstart]
  obtain ⟨-, -, hfirst⟩ := moduleOf_cases {} program false
  have hcases := hinv.rest
  refine ⟨?_, ⟨hinv.modids, hinv.count, hinv.unique, hinv.fits, ⟨_, rest, hmodules, ?_,
    hinv.static _ (hmodules ▸ List.mem_cons_self), ?_⟩, ?_⟩, ?_, ?_, ?_⟩
  · rw [hcases]
  · rw [hmodules]
    rfl
  · rcases hfirst with ⟨-, -, hzero⟩ | ⟨-, hone⟩
    · exact fun hne => absurd hzero hne
    · intro _
      rw [hone]
      exact Nat.succ_ne_zero _
  · rw [hcases]
    simp
  · rw [hcases]
    nofun
  · rw [hcases]
    nofun
  · rw [hcases]
    constructor <;> simp

/-! ## Loading -/

theorem ModuleInv.loadModule (h : ModuleInv s) (file : Option TlsSegment) :
    ModuleInv { s.loadModule file true with loading := s.moduleOf file true :: s.loading } where
  modids := modids_loadModule file true h.modids
  count := count_loadModule file true h.count
  unique := unique_loadModule file true h.modids h.unique
  fits := fits_loadModule file true h.fits
  program := by
    obtain ⟨k, rest, hmodules, hk⟩ := h.program
    exact ⟨k, rest ++ [s.moduleOf file true], by simp [State.loadModule, hmodules], hk⟩
  loading := fun k hk => by
    rcases List.mem_cons.1 hk with rfl | hk
    · exact (s.moduleOf_cases file true).1
    · exact h.loading k hk

theorem Sized.loadModule {length : ℕ} (h : s.Sized length) (file : Option TlsSegment) :
    Sized { s.loadModule file true with loading := s.moduleOf file true :: s.loading }
      length where
  le := Nat.le_trans h.le (s.maxTlsIndex_loadModule file true)
  room := by
    have hle := h.le
    obtain ⟨-, -, ⟨rfl, -, hzero⟩ | ⟨hsome, -⟩⟩ := s.moduleOf_cases file true
    · rintro ⟨k, hk, hne⟩
      rcases List.mem_cons.1 hk with rfl | hk
      · exact absurd hzero hne
      · exact h.room ⟨k, hk, hne⟩
    · intro _
      simp only [State.loadModule, hsome, if_true]
      omega
  seen := fun k hk hloading hcounted => by
    rcases List.mem_append.1 hk with hk | hk
    · exact h.seen k hk (fun hmem => hloading (List.mem_cons_of_mem _ hmem)) hcounted
    · exact absurd (List.mem_singleton.1 hk ▸ List.mem_cons_self) hloading

theorem MemoryInv.frame (h : MemoryInv s) (hmodules : ∃ rest, s'.modules = s.modules ++ rest)
    (hne : s.modules ≠ []) (hstatic : s'.staticTlsSize = s.staticTlsSize)
    (hctor : s'.ctor = s.ctor) (hnum : s'.numThreads = s.numThreads)
    (hthreads : s'.threads = s.threads) (hoccupied : s'.occupied = s.occupied)
    (hcreated : s'.created = s.created) (hanswers : s'.answers = s.answers) :
    MemoryInv s' := by
  obtain ⟨rest, hrest⟩ := hmodules
  have hhead : s'.modules.head? = s.modules.head? := by
    rw [hrest, List.head?_append_of_ne_nil _ hne]
  have htotal : s'.totalTlsSize = s.totalTlsSize := by
    unfold totalTlsSize
    rw [hstatic]
  constructor
  · rw [hoccupied]
    exact h.apart
  · rw [hoccupied]
    exact h.sizes
  · rw [hoccupied]
    exact h.keys
  · rw [hoccupied, hctor, hnum]
    exact h.tids
  · rw [hoccupied, hthreads]
    exact h.blocks
  · rw [hoccupied, hthreads, hnum, htotal]
    exact h.areas
  · rw [hthreads, hcreated]
    exact h.pointers
  · rw [hthreads, hcreated, hoccupied, hnum, hhead]
    exact h.created
  · rw [hcreated]
    exact h.once
  · rw [hcreated]
    intro c hc
    obtain ⟨k, hk, hmodid⟩ := h.contents c hc
    exact ⟨k, hrest ▸ List.mem_append_left rest hk, hmodid⟩
  · rw [hcreated, hanswers]
    exact h.answers

theorem ModuleInv.ne_nil (h : ModuleInv s) : s.modules ≠ [] := by
  obtain ⟨k, rest, hmodules, -⟩ := h.program
  rw [hmodules]
  exact List.cons_ne_nil k rest

theorem TlsInv.loadModule (h : TlsInv s) (file : Option TlsSegment) :
    TlsInv { s.loadModule file true with
      loading := s.moduleOf file true :: s.loading } where
  fault := h.fault
  modules := h.modules.loadModule file
  tables := fun t tcb ht => by
    rcases h.tables t tcb ht with ⟨hgen, hsized⟩ | ⟨hgen, hlt⟩
    · exact .inl ⟨hgen, hsized.loadModule file⟩
    · exact .inr ⟨hgen, Nat.lt_of_lt_of_le hlt (s.maxTlsIndex_loadModule file true)⟩
  ctor := fun c hc => ⟨(h.ctor c hc).1.loadModule file, (h.ctor c hc).2⟩
  memory := h.memory.frame ⟨[s.moduleOf file true], rfl⟩ h.modules.ne_nil rfl rfl rfl rfl rfl
    rfl rfl

theorem Sized.erase {length : ℕ} (h : s.Sized length) (hmodules : s.ModuleInv) {module : Module}
    (hmem : module ∈ s.loading) (hzero : module.imageSize = 0) :
    Sized { s with loading := s.loading.erase module } length where
  le := h.le
  room := fun ⟨k, hk, hne⟩ => h.room ⟨k, List.mem_of_mem_erase hk, hne⟩
  seen := fun k hk hloading hcounted => by
    refine h.seen k hk (fun hmem' => ?_) hcounted
    by_cases heq : k = module
    · subst heq
      have hdynamic := hmodules.loading k hmem
      rcases hcounted with hstatic | hne
      · rw [hdynamic] at hstatic
        cases hstatic
      · exact hne hzero
    · exact hloading ((List.mem_erase_of_ne heq).2 hmem')

theorem TlsInv.advance (h : TlsInv s) {module : Module} (hmem : module ∈ s.loading)
    (hok : module.imageSize ≠ 0 → s.ctor = none) :
    TlsInv { s with
      loading := s.loading.erase module
      dtvGenerationCounter := if module.imageSize ≠ 0 then s.dtvGenerationCounter + 1
        else s.dtvGenerationCounter } where
  fault := h.fault
  modules := ⟨h.modules.modids, h.modules.count, h.modules.unique, h.modules.fits,
    h.modules.program, fun k hk => h.modules.loading k (List.mem_of_mem_erase hk)⟩
  tables := fun t tcb ht => by
    by_cases hzero : module.imageSize = 0
    · rw [if_neg (not_not.2 hzero)]
      rcases h.tables t tcb ht with ⟨hgen, hsized⟩ | hold
      · have herase := hsized.erase h.modules hmem hzero
        exact .inl ⟨hgen, herase.le, herase.room, herase.seen⟩
      · exact .inr hold
    · rw [if_pos hzero]
      refine .inr ?_
      rcases h.tables t tcb ht with ⟨hgen, hsized⟩ | ⟨hgen, hlt⟩
      · exact ⟨hgen ▸ Nat.lt_succ_self _, hsized.room ⟨module, hmem, hzero⟩⟩
      · exact ⟨Nat.lt_succ_of_lt hgen, hlt⟩
  ctor := fun c hc => by
    have hzero : module.imageSize = 0 := by
      by_contra hne
      rw [show s.ctor = some c from hc] at hok
      cases hok hne
    have herase := (h.ctor c hc).1.erase h.modules hmem hzero
    exact ⟨⟨herase.le, herase.room, herase.seen⟩, (h.ctor c hc).2⟩
  memory := h.memory.frame ⟨[], (List.append_nil _).symm⟩ h.modules.ne_nil rfl rfl rfl rfl rfl
    rfl rfl

/-! ## New threads -/

theorem apart_of_fresh {base size : ℕ} (h : s.Fresh base size) (tid : ℕ) (key : Option ℕ) :
    ∀ r ∈ s.occupied, Region.Apart ⟨tid, key, base, max size 1⟩ r :=
  fun r hr => (h.2 r hr).symm

theorem totalTlsSize_pos (s : State) : max s.totalTlsSize 1 = s.totalTlsSize := by
  unfold totalTlsSize
  omega

theorem MemoryInv.tcbCtor (h : MemoryInv s) {base : ℕ} (hctor : s.ctor = none)
    (hfresh : s.Fresh base s.totalTlsSize) : MemoryInv (s.tcbCtor base) := by
  have hlt : ∀ r ∈ s.occupied, r.tid < s.numThreads := fun r hr =>
    (h.tids r hr).resolve_right fun hmid => hmid.1 hctor
  have hapart := apart_of_fresh hfresh s.numThreads none
  rw [totalTlsSize_pos] at hapart
  constructor
  · exact List.pairwise_cons.2 ⟨hapart, h.apart⟩
  · intro r hr
    rcases List.mem_cons.1 hr with rfl | hr
    · exact ⟨by simp [totalTlsSize], hfresh.1⟩
    · exact h.sizes r hr
  · intro r hr r' hr' htid hkey
    rcases List.mem_cons.1 hr with rfl | hr <;> rcases List.mem_cons.1 hr' with rfl | hr'
    · rfl
    · exact absurd htid.symm (Nat.ne_of_lt (hlt r' hr'))
    · exact absurd htid (Nat.ne_of_lt (hlt r hr))
    · exact h.keys r hr r' hr' htid hkey
  · intro r hr
    rcases List.mem_cons.1 hr with rfl | hr
    · exact .inr ⟨nofun, rfl, rfl⟩
    · exact .inl (hlt r hr)
  · intro r hr m hm
    rcases List.mem_cons.1 hr with rfl | hr
    · cases hm
    · exact h.blocks r hr m hm
  · intro t tcb ht
    exact ⟨(h.areas t tcb ht).1, List.mem_cons_of_mem _ (h.areas t tcb ht).2⟩
  · exact h.pointers
  · intro c hc
    refine ⟨(h.created c hc).1, fun tcb ht => ?_⟩
    obtain ⟨hpos, hptr, r, hr, hrest⟩ := (h.created c hc).2 tcb ht
    exact ⟨hpos, hptr, r, List.mem_cons_of_mem _ hr, hrest⟩
  · exact h.once
  · exact h.contents
  · exact h.answers

theorem TlsInv.tcbCtor (h : TlsInv s) {base : ℕ} (hctor : s.ctor = none)
    (hfresh : s.Fresh base s.totalTlsSize) (hok : ∀ k ∈ s.loading, k.imageSize = 0) :
    TlsInv (s.tcbCtor base) where
  fault := h.fault
  modules := ⟨h.modules.modids, h.modules.count, h.modules.unique, h.modules.fits,
    h.modules.program, h.modules.loading⟩
  tables := fun t tcb ht => (h.tables t tcb ht).imp
    (fun ⟨hgen, hsized⟩ => ⟨hgen, hsized.le, hsized.room, hsized.seen⟩) id
  ctor := fun c hc => by
    obtain rfl := Option.some.inj hc
    exact ⟨⟨Nat.le_refl _, fun ⟨k, hk, hne⟩ => absurd (hok k hk) hne,
      fun k hk _ _ => h.modules.modids k hk⟩, List.mem_cons_self⟩
  memory := h.memory.tcbCtor hctor hfresh

theorem MemoryInv.tcbInit (h : MemoryInv s) {c : Ctor} {tcb : Tcb} (new : List Created)
    (hbase : tcb.base = c.base)
    (harea : ⟨s.numThreads, none, c.base, s.totalTlsSize⟩ ∈ s.occupied)
    (hnew : ∀ d ∈ new, d.tid = s.numThreads ∧ 0 < d.modid ∧ d.base = c.base ∧
      tcb.pointer d.modid = d.base ∧ d.contents.length ≤ s.totalTlsSize ∧
      s.modules.head?.map (·.modid) = some d.modid ∧
      ∃ k ∈ s.modules, k.modid = d.modid ∧ d.modid ≠ 0 ∧ d.contents = k.image)
    (hone : ∀ d ∈ new, ∀ d' ∈ new, d = d')
    (hpointers : ∀ m, 0 < m → tcb.pointer m ≠ 0 → ∃ d ∈ new, d.modid = m) :
    MemoryInv { s with
      ctor := none, numThreads := s.numThreads + 1, created := new ++ s.created,
      threads := update s.threads s.numThreads (some tcb) } := by
  constructor
  · exact h.apart
  · exact h.sizes
  · exact h.keys
  · intro r hr
    refine .inl ?_
    rcases h.tids r hr with hlt | ⟨-, -, heq⟩
    · exact Nat.lt_succ_of_lt hlt
    · exact heq ▸ Nat.lt_succ_self _
  · intro r hr m hm
    rcases h.tids r hr with hlt | ⟨-, hnone, -⟩
    · dsimp only
      rw [update_of_ne (Nat.ne_of_lt hlt)]
      exact h.blocks r hr m hm
    · rw [hnone] at hm
      cases hm
  · intro t tcb' ht
    dsimp only at ht
    by_cases htid : t = s.numThreads
    · subst htid
      rw [update_self] at ht
      obtain rfl := Option.some.inj ht
      exact ⟨Nat.lt_succ_self _, hbase ▸ harea⟩
    · rw [update_of_ne htid] at ht
      exact ⟨Nat.lt_succ_of_lt (h.areas t tcb' ht).1, (h.areas t tcb' ht).2⟩
  · intro t tcb' ht m hm hne
    dsimp only at ht
    by_cases htid : t = s.numThreads
    · subst htid
      rw [update_self] at ht
      obtain rfl := Option.some.inj ht
      obtain ⟨d, hd, hmodid⟩ := hpointers m hm hne
      exact ⟨d, List.mem_append_left _ hd, (hnew d hd).1, hmodid⟩
    · rw [update_of_ne htid] at ht
      obtain ⟨d, hd, hrest⟩ := h.pointers t tcb' ht m hm hne
      exact ⟨d, List.mem_append_right _ hd, hrest⟩
  · intro d hd
    rcases List.mem_append.1 hd with hd | hd
    · obtain ⟨htid, hpos, hdbase, hptr, hlen, hhead, -⟩ := hnew d hd
      refine ⟨htid ▸ Nat.lt_succ_self _, fun tcb' ht => ?_⟩
      dsimp only at ht
      rw [htid, update_self] at ht
      obtain rfl := Option.some.inj ht
      exact ⟨hpos, hptr, _, harea, htid.symm, hdbase.symm, hlen, .inr ⟨rfl, hhead⟩⟩
    · refine ⟨Nat.lt_succ_of_lt (h.created d hd).1, fun tcb' ht => ?_⟩
      dsimp only at ht
      rw [update_of_ne (Nat.ne_of_lt (h.created d hd).1)] at ht
      exact (h.created d hd).2 tcb' ht
  · intro d hd d' hd' htid hmodid
    rcases List.mem_append.1 hd with hd | hd <;> rcases List.mem_append.1 hd' with hd' | hd'
    · exact hone d hd d' hd'
    · have hlt := (h.created d' hd').1
      have heq := (hnew d hd).1
      omega
    · have hlt := (h.created d hd).1
      have heq := (hnew d' hd').1
      omega
    · exact h.once d hd d' hd' htid hmodid
  · intro d hd
    rcases List.mem_append.1 hd with hd | hd
    · exact (hnew d hd).2.2.2.2.2.2
    · exact h.contents d hd
  · intro a ha
    obtain ⟨d, hd, hrest⟩ := h.answers a ha
    exact ⟨d, List.mem_append_right _ hd, hrest⟩

theorem TlsInv.tcbInit (h : TlsInv s) {c : Ctor} {module : Module} {rest : List Module}
    (hctor : s.ctor = some c) (hmodules : s.modules = module :: rest) :
    TlsInv (s.tcbInit c module) := by
  obtain ⟨k, rest', hk, hstatic, hdynamic, hmodid⟩ := h.modules.program
  obtain ⟨rfl, rfl⟩ := List.cons.inj (hmodules.symm.trans hk)
  obtain ⟨hsized, harea⟩ := h.ctor c hctor
  have hmem : module ∈ s.modules := hmodules ▸ List.mem_cons_self
  have hfits := h.modules.fits module hmem
  have htables : ∀ tcb : Tcb, tcb.generation = s.dtvGenerationCounter →
      tcb.pointers.length = c.numDtvs → ∀ t tcb',
        update s.threads s.numThreads (some tcb) t = some tcb' →
        s.TableOk tcb'.generation tcb'.pointers.length := by
    intro tcb hgen hlen t tcb' ht
    by_cases htid : t = s.numThreads
    · subst htid
      rw [update_self] at ht
      obtain rfl := Option.some.inj ht
      exact .inl ⟨hgen, hlen ▸ hsized⟩
    · rw [update_of_ne htid] at ht
      exact h.tables t tcb' ht
  unfold State.tcbInit
  dsimp only [Nat.add_sub_cancel]
  split
  · refine ⟨h.fault, ⟨h.modules.modids, h.modules.count, h.modules.unique, h.modules.fits,
      h.modules.program, h.modules.loading⟩, fun t tcb' ht => ?_, nofun, ?_⟩
    · exact (htables _ rfl List.length_replicate t tcb' ht).imp
        (fun ⟨hgen, hs⟩ => ⟨hgen, hs.le, hs.room, hs.seen⟩) id
    · exact h.memory.tcbInit [] rfl harea (by simp) (by simp)
        fun m _ hne => absurd (Tcb.pointer_replicate _ _ _) hne
  · rename_i hne
    have hloading : module ∉ s.loading := fun hl => by
      have := h.modules.loading module hl
      rw [hdynamic] at this
      cases this
    have hpos : 0 < module.modid := Nat.pos_of_ne_zero (hmodid hne)
    have hle : module.modid ≤ c.numDtvs := hsized.seen module hmem hloading (.inl hdynamic)
    rw [if_neg (by omega)]
    have hlen : module.modid ≤ (⟨c.base, s.dtvGenerationCounter,
        List.replicate c.numDtvs 0⟩ : Tcb).pointers.length := by simpa using hle
    have hptr : ∀ n, 0 < n → (⟨c.base, s.dtvGenerationCounter,
        (List.replicate c.numDtvs 0).set (module.modid - 1) c.base⟩ : Tcb).pointer n =
          if n = module.modid then c.base else 0 := fun n hn => by
      have hset : (⟨c.base, s.dtvGenerationCounter,
          (List.replicate c.numDtvs 0).set (module.modid - 1) c.base⟩ : Tcb).pointer n =
            if n = module.modid then c.base
            else (⟨c.base, s.dtvGenerationCounter, List.replicate c.numDtvs 0⟩ : Tcb).pointer n :=
        Tcb.pointer_set hn hpos hlen
      rw [hset, Tcb.pointer_replicate]
    refine ⟨h.fault, ⟨h.modules.modids, h.modules.count, h.modules.unique, h.modules.fits,
      h.modules.program, h.modules.loading⟩, fun t tcb' ht => ?_, nofun, ?_⟩
    · exact (htables _ rfl (by simp) t tcb' ht).imp
        (fun ⟨hgen, hs⟩ => ⟨hgen, hs.le, hs.room, hs.seen⟩) id
    · refine h.memory.tcbInit [⟨s.numThreads, module.modid, c.base, module.image⟩] rfl harea
        ?_ ?_ ?_
      · intro d hd
        obtain rfl := List.mem_singleton.1 hd
        refine ⟨rfl, hpos, rfl, ?_, ?_, by rw [hmodules]; rfl, module, hmem, rfl,
          Nat.ne_of_gt hpos, rfl⟩
        · rw [hptr _ hpos, if_pos rfl]
        · rw [length_image hfits, hstatic, totalTlsSize]
          omega
      · intro d hd d' hd'
        rw [List.mem_singleton.1 hd, List.mem_singleton.1 hd']
      · intro m hm hm'
        rw [hptr m hm] at hm'
        split at hm'
        · rename_i heq
          exact ⟨_, List.mem_singleton_self _, heq.symm⟩
        · exact absurd rfl hm'

/-! ## Blocks -/

theorem MemoryInv.answer (h : MemoryInv s) {tid m offset : ℕ} {tcb tcb' : Tcb}
    (ht : s.threads tid = some tcb) (hbase : tcb'.base = tcb.base)
    (hptr : ∀ n, tcb'.pointer n = tcb.pointer n) (hm : 0 < m) (hne : tcb'.pointer m ≠ 0) :
    MemoryInv { s with
      threads := update s.threads tid (some tcb')
      answers := ⟨tid, m, offset, tcb'.pointer m + offset⟩ :: s.answers } := by
  have hback : ∀ t t', update s.threads tid (some tcb') t = some t' →
      ∃ t₀, s.threads t = some t₀ ∧ t'.base = t₀.base ∧ ∀ n, t'.pointer n = t₀.pointer n := by
    intro t t' ht'
    by_cases htid : t = tid
    · subst htid
      rw [update_self] at ht'
      obtain rfl := Option.some.inj ht'
      exact ⟨tcb, ht, hbase, hptr⟩
    · rw [update_of_ne htid] at ht'
      exact ⟨t', ht', rfl, fun _ => rfl⟩
  constructor
  · exact h.apart
  · exact h.sizes
  · exact h.keys
  · exact h.tids
  · intro r hr n hn
    dsimp only
    obtain ⟨t₀, ht₀, hpos, hpointer⟩ := h.blocks r hr n hn
    by_cases htid : r.tid = tid
    · rw [htid, update_self]
      rw [htid, ht] at ht₀
      obtain rfl := Option.some.inj ht₀
      exact ⟨tcb', rfl, hpos, (hptr n).trans hpointer⟩
    · rw [update_of_ne htid]
      exact ⟨t₀, ht₀, hpos, hpointer⟩
  · intro t t' ht'
    obtain ⟨t₀, ht₀, hb, -⟩ := hback t t' ht'
    rw [hb]
    exact h.areas t t₀ ht₀
  · intro t t' ht' n hn hne'
    obtain ⟨t₀, ht₀, -, hp⟩ := hback t t' ht'
    rw [hp] at hne'
    exact h.pointers t t₀ ht₀ n hn hne'
  · intro d hd
    refine ⟨(h.created d hd).1, fun t' ht' => ?_⟩
    obtain ⟨t₀, ht₀, -, hp⟩ := hback d.tid t' ht'
    rw [hp]
    exact (h.created d hd).2 t₀ ht₀
  · exact h.once
  · exact h.contents
  · intro a ha
    rcases List.mem_cons.1 ha with rfl | ha
    · have hne' := hne
      rw [hptr] at hne'
      obtain ⟨d, hd, htid, hmodid⟩ := h.pointers tid tcb ht m hm hne'
      subst htid hmodid
      refine ⟨d, hd, rfl, rfl, ?_⟩
      rw [hptr, ((h.created d hd).2 tcb ht).2.1]
    · exact h.answers a ha

theorem MemoryInv.create (h : MemoryInv s) {tid m offset dest : ℕ} {tcb tcb' : Tcb}
    {module : Module} (ht : s.threads tid = some tcb) (hbase : tcb'.base = tcb.base)
    (hptr : ∀ n, 0 < n → tcb'.pointer n = if n = m then dest else tcb.pointer n) (hm : 0 < m)
    (hnone : tcb.pointer m = 0) (hfresh : s.Fresh dest module.imageSize)
    (hfits : module.initImage.length ≤ module.imageSize)
    (himage : ∃ k ∈ s.modules, k.modid = m ∧ k.image = module.image) :
    MemoryInv { s with
      threads := update s.threads tid (some tcb')
      occupied := ⟨tid, some m, dest, max module.imageSize 1⟩ :: s.occupied
      created := ⟨tid, m, dest, module.image⟩ :: s.created
      answers := ⟨tid, m, offset, dest + offset⟩ :: s.answers } := by
  have hlt := (h.areas tid tcb ht).1
  have hnew : ∀ r ∈ s.occupied, r.tid = tid → r.key ≠ some m := by
    intro r hr htid hkey
    obtain ⟨t₀, ht₀, -, hpointer⟩ := h.blocks r hr m hkey
    rw [htid, ht] at ht₀
    obtain rfl := Option.some.inj ht₀
    exact (h.sizes r hr).2 (hpointer.symm.trans hnone)
  have hold : ∀ d ∈ s.created, d.tid = tid → d.modid ≠ m := by
    intro d hd htid hmodid
    subst htid hmodid
    obtain ⟨-, hpointer, r, hr, -, hrbase, -⟩ := (h.created d hd).2 tcb ht
    exact (h.sizes r hr).2 (hrbase.trans (hpointer.symm.trans hnone))
  constructor
  · exact List.pairwise_cons.2 ⟨apart_of_fresh hfresh tid (some m), h.apart⟩
  · intro r hr
    rcases List.mem_cons.1 hr with rfl | hr
    · exact ⟨by dsimp only; omega, hfresh.1⟩
    · exact h.sizes r hr
  · intro r hr r' hr' htid hkey
    rcases List.mem_cons.1 hr with rfl | hr <;> rcases List.mem_cons.1 hr' with rfl | hr'
    · rfl
    · exact absurd hkey.symm (hnew r' hr' htid.symm)
    · exact absurd hkey (hnew r hr htid)
    · exact h.keys r hr r' hr' htid hkey
  · intro r hr
    rcases List.mem_cons.1 hr with rfl | hr
    · exact .inl hlt
    · exact h.tids r hr
  · intro r hr n hn
    dsimp only
    rcases List.mem_cons.1 hr with rfl | hr
    · obtain rfl := Option.some.inj hn
      exact ⟨tcb', update_self _ _ _, hm, by rw [hptr _ hm, if_pos rfl]⟩
    · obtain ⟨t₀, ht₀, hpos, hpointer⟩ := h.blocks r hr n hn
      by_cases htid : r.tid = tid
      · rw [htid, update_self]
        rw [htid, ht] at ht₀
        obtain rfl := Option.some.inj ht₀
        refine ⟨tcb', rfl, hpos, ?_⟩
        have hne : n ≠ m := by
          intro heq
          exact hnew r hr htid (by rw [hn, heq])
        rw [hptr n hpos, if_neg hne]
        exact hpointer
      · rw [update_of_ne htid]
        exact ⟨t₀, ht₀, hpos, hpointer⟩
  · intro t t' ht'
    dsimp only at ht'
    by_cases htid : t = tid
    · subst htid
      rw [update_self] at ht'
      obtain rfl := Option.some.inj ht'
      exact ⟨hlt, hbase ▸ List.mem_cons_of_mem _ (h.areas t tcb ht).2⟩
    · rw [update_of_ne htid] at ht'
      exact ⟨(h.areas t t' ht').1, List.mem_cons_of_mem _ (h.areas t t' ht').2⟩
  · intro t t' ht' n hn hne
    dsimp only at ht'
    by_cases htid : t = tid
    · subst htid
      rw [update_self] at ht'
      obtain rfl := Option.some.inj ht'
      by_cases hnm : n = m
      · exact ⟨_, List.mem_cons_self, rfl, hnm.symm⟩
      · rw [hptr n hn, if_neg hnm] at hne
        obtain ⟨d, hd, hrest⟩ := h.pointers t tcb ht n hn hne
        exact ⟨d, List.mem_cons_of_mem _ hd, hrest⟩
    · rw [update_of_ne htid] at ht'
      obtain ⟨d, hd, hrest⟩ := h.pointers t t' ht' n hn hne
      exact ⟨d, List.mem_cons_of_mem _ hd, hrest⟩
  · intro d hd
    rcases List.mem_cons.1 hd with rfl | hd
    · refine ⟨hlt, fun t' ht' => ?_⟩
      dsimp only at ht'
      rw [update_self] at ht'
      obtain rfl := Option.some.inj ht'
      refine ⟨hm, by rw [hptr _ hm, if_pos rfl], _, List.mem_cons_self, rfl, rfl, ?_, .inl rfl⟩
      dsimp only
      rw [length_image hfits]
      exact Nat.le_max_left _ _
    · refine ⟨(h.created d hd).1, fun t' ht' => ?_⟩
      dsimp only at ht'
      by_cases htid : d.tid = tid
      · rw [htid, update_self] at ht'
        obtain rfl := Option.some.inj ht'
        obtain ⟨hpos, hpointer, r, hr, hrest⟩ := (h.created d hd).2 tcb (htid ▸ ht)
        refine ⟨hpos, ?_, r, List.mem_cons_of_mem _ hr, hrest⟩
        rw [hptr _ hpos, if_neg (hold d hd htid)]
        exact hpointer
      · rw [update_of_ne htid] at ht'
        obtain ⟨hpos, hpointer, r, hr, hrest⟩ := (h.created d hd).2 t' ht'
        exact ⟨hpos, hpointer, r, List.mem_cons_of_mem _ hr, hrest⟩
  · intro d hd d' hd' htid hmodid
    rcases List.mem_cons.1 hd with rfl | hd <;> rcases List.mem_cons.1 hd' with rfl | hd'
    · rfl
    · exact absurd hmodid.symm (hold d' hd' htid.symm)
    · exact absurd hmodid (hold d hd htid)
    · exact h.once d hd d' hd' htid hmodid
  · intro d hd
    rcases List.mem_cons.1 hd with rfl | hd
    · obtain ⟨k, hk, hmodid, heq⟩ := himage
      exact ⟨k, hk, hmodid, Nat.ne_of_gt hm, heq.symm⟩
    · exact h.contents d hd
  · intro a ha
    rcases List.mem_cons.1 ha with rfl | ha
    · exact ⟨_, List.mem_cons_self, rfl, rfl, rfl⟩
    · obtain ⟨d, hd, hrest⟩ := h.answers a ha
      exact ⟨d, List.mem_cons_of_mem _ hd, hrest⟩

/-! ## `TlsGetAddr` -/

theorem growTable_spec (h : TlsInv s) {tid : ℕ} {tcb : Tcb} (ht : s.threads tid = some tcb)
    (hok : tcb.generation ≠ s.dtvGenerationCounter → ∀ k ∈ s.loading, k.imageSize = 0) :
    ∃ tcb', s.growTable tcb = some tcb' ∧ tcb'.base = tcb.base ∧
      (∀ n, tcb'.pointer n = tcb.pointer n) ∧ tcb'.generation = s.dtvGenerationCounter ∧
      s.Sized tcb'.pointers.length ∧
      (tcb.generation = s.dtvGenerationCounter → tcb' = tcb) ∧
      (tcb.generation ≠ s.dtvGenerationCounter → tcb'.pointers.length = s.maxTlsIndex) := by
  unfold growTable
  rcases h.tables tid tcb ht with ⟨hgen, hsized⟩ | ⟨hgen, hlt⟩
  · rw [if_pos hgen]
    exact ⟨tcb, rfl, rfl, fun _ => rfl, hgen, hsized, fun _ => rfl,
      fun hne => absurd hgen hne⟩
  · have hne : tcb.generation ≠ s.dtvGenerationCounter := Nat.ne_of_lt hgen
    have hlen : (tcb.pointers ++
        List.replicate (s.maxTlsIndex - tcb.pointers.length) 0).length = s.maxTlsIndex := by
      rw [List.length_append, List.length_replicate]
      omega
    rw [if_neg hne, if_pos hlt]
    refine ⟨_, rfl, rfl, fun n => Tcb.pointer_append _ _, rfl, ?_, fun heq => absurd heq hne,
      fun _ => hlen⟩
    dsimp only
    rw [hlen]
    exact ⟨Nat.le_refl _, fun ⟨k, hk, hk'⟩ => absurd (hok hne k hk) hk',
      fun k hk _ _ => h.modules.modids k hk⟩

/-- The steps after which every thread finds its blocks. -/
def TlsCondition (s : State) : Action → Prop
  | .tcbCtor _ => ∀ k ∈ s.loading, k.imageSize = 0
  | .advanceGenerationCounter module => module.imageSize ≠ 0 → s.ctor = none
  | .tlsGetAddr tid m _ _ => ∀ tcb, s.threads tid = some tcb →
      (tcb.generation ≠ s.dtvGenerationCounter → ∀ k ∈ s.loading, k.imageSize = 0) ∧
      (tcb.generation = s.dtvGenerationCounter → ∀ k ∈ s.modules,
        k.modid = m → k.dynamic = true → k.imageSize = 0 → m ≤ tcb.pointers.length) ∧
      (tcb.pointer m = 0 → ∀ k, s.modules[m - 1]? = some k →
        ∃ k' ∈ s.modules, k'.modid = m ∧ k'.image = k.image)
  | .tcbDtor tid => ∀ tcb, s.threads tid = some tcb →
      tcb.pointer tcb.pointers.length = 0 ∨ tcb.base ≤ tcb.pointer tcb.pointers.length ∧
        tcb.pointer tcb.pointers.length ≤ tcb.base + s.staticTlsSize
  | _ => True

theorem tables_update (h : TlsInv s) {tid : ℕ} {tcb : Tcb}
    (hgen : tcb.generation = s.dtvGenerationCounter) (hsized : s.Sized tcb.pointers.length)
    (t : ℕ) (tcb' : Tcb) (ht : update s.threads tid (some tcb) t = some tcb') :
    s.TableOk tcb'.generation tcb'.pointers.length := by
  by_cases htid : t = tid
  · subst htid
    rw [update_self] at ht
    obtain rfl := Option.some.inj ht
    exact .inl ⟨hgen, hsized⟩
  · rw [update_of_ne htid] at ht
    exact h.tables t tcb' ht

theorem Sized.congr {length : ℕ} (h : s.Sized length) (hmax : s'.maxTlsIndex = s.maxTlsIndex)
    (hloading : s'.loading = s.loading) (hmodules : s'.modules = s.modules) :
    s'.Sized length := by
  refine ⟨?_, ?_, ?_⟩
  · rw [hmax]
    exact h.le
  · rw [hloading, hmax]
    exact h.room
  · rw [hloading, hmodules]
    exact h.seen

theorem TlsInv.tlsGetAddr (h : TlsInv s) {tid m offset dest : ℕ} {tcb : Tcb}
    (ht : s.threads tid = some tcb)
    (hm : ∃ k ∈ s.modules, k.modid = m ∧ k.modid ≠ 0 ∧ k ∉ s.loading)
    (hok : s.TlsCondition (.tlsGetAddr tid m offset dest))
    (hs : s.tlsGetAddr tid tcb m offset dest = some s') : TlsInv s' := by
  obtain ⟨hgrow, hempty, himage⟩ := hok tcb ht
  obtain ⟨tcb', heq, hbase, hptr, hgen, hsized, hsame, hlen⟩ := growTable_spec h ht hgrow
  obtain ⟨k, hk, rfl, hne, hloading⟩ := hm
  have hpos : 0 < k.modid := Nat.pos_of_ne_zero hne
  have hle : k.modid ≤ tcb'.pointers.length := by
    by_cases hg : tcb.generation = s.dtvGenerationCounter
    · by_cases hcounted : Counted k
      · exact hsized.seen k hk hloading hcounted
      · rw [Counted, not_or, not_not] at hcounted
        rw [hsame hg]
        exact hempty hg k hk rfl (by simpa using hcounted.1) hcounted.2
    · rw [hlen hg]
      exact h.modules.modids k hk
  have hsized' : ∀ a, s.Sized (tcb'.pointers.set (k.modid - 1) a).length := fun a => by
    rw [List.length_set]
    exact hsized
  have hmodules : s.ModuleInv := h.modules
  unfold State.tlsGetAddr at hs
  rw [heq] at hs
  dsimp only at hs
  unfold findBlock at hs
  rw [if_neg (by omega)] at hs
  split at hs
  · rename_i hnone
    split at hs
    · rename_i hget
      have hcount := h.modules.count
      have hmodid := h.modules.modids k hk
      rw [List.getElem?_eq_none_iff] at hget
      omega
    · rename_i module hget
      split at hs
      · rename_i hfresh
        obtain rfl := Option.some.inj hs
        have hmem : module ∈ s.modules := List.mem_of_getElem? hget
        refine ⟨h.fault, ⟨hmodules.modids, hmodules.count, hmodules.unique, hmodules.fits,
          hmodules.program, hmodules.loading⟩, fun t t' ht' => ?_, fun c hc => ?_, ?_⟩
        · exact (tables_update h (by exact hgen) (hsized' dest) t t' ht').imp
            (fun ⟨hg, hz⟩ => ⟨hg, hz.congr rfl rfl rfl⟩) id
        · exact ⟨(h.ctor c hc).1.congr rfl rfl rfl, List.mem_cons_of_mem _ (h.ctor c hc).2⟩
        · refine h.memory.create ht ?_ (fun n hn => ?_) hpos ((hptr _).symm.trans hnone) hfresh
            (hmodules.fits module hmem) (himage ((hptr _).symm.trans hnone) module hget)
          · exact hbase
          · rw [Tcb.pointer_set hn hpos hle, hptr]
      · cases hs
  · rename_i hsome
    obtain rfl := Option.some.inj hs
    refine ⟨h.fault, ⟨hmodules.modids, hmodules.count, hmodules.unique, hmodules.fits,
      hmodules.program, hmodules.loading⟩, fun t t' ht' => ?_, fun c hc => ?_, ?_⟩
    · exact (tables_update h hgen hsized t t' ht').imp
        (fun ⟨hg, hz⟩ => ⟨hg, hz.congr rfl rfl rfl⟩) id
    · exact ⟨(h.ctor c hc).1.congr rfl rfl rfl, (h.ctor c hc).2⟩
    · exact h.memory.answer ht hbase hptr hpos hsome

/-! ## The end of a thread -/

instance : Std.Symm Region.Apart := ⟨fun _ _ h => h.symm⟩

theorem base_inj (h : MemoryInv s) {r r' : Region} (hr : r ∈ s.occupied) (hr' : r' ∈ s.occupied)
    (hbase : r.base = r'.base) : r = r' := by
  by_contra hne
  have hapart : r.Apart r' := h.apart.forall hr hr' hne
  have hsize := (h.sizes r hr).1
  have hsize' := (h.sizes r' hr').1
  unfold Region.Apart at hapart
  omega

theorem foldl_heapFree (l : List ℕ) (hl : l.Nodup) (hfault : s.fault = none)
    (hmem : ∀ p ∈ l, ∃ r ∈ s.occupied, r.key ≠ none ∧ r.base = p) :
    l.foldl heapFree s = { s with occupied := s.occupied.filter fun r => r.base ∉ l } := by
  induction l generalizing s with
  | nil => simp
  | cons p l ih =>
      obtain ⟨hp, hl⟩ := List.nodup_cons.1 hl
      have hfree : s.heapFree p =
          { s with occupied := s.occupied.filter fun r => r.base ≠ p } := by
        unfold heapFree
        rw [if_pos (hmem p List.mem_cons_self)]
      have hrest : ∀ q ∈ l, ∃ r ∈ s.occupied.filter (fun r => r.base ≠ p),
          r.key ≠ none ∧ r.base = q := by
        intro q hq
        obtain ⟨r, hr, hkey, hbase⟩ := hmem q (List.mem_cons_of_mem p hq)
        have hne : r.base ≠ p := by
          rintro rfl
          exact hp (hbase ▸ hq)
        exact ⟨r, List.mem_filter.2 ⟨hr, by simpa using hne⟩, hkey, hbase⟩
      rw [List.foldl_cons, hfree,
        ih (s := { s with occupied := s.occupied.filter fun r => r.base ≠ p }) hl hfault hrest]
      simp only [List.filter_filter, List.mem_cons, not_or]
      congr 1
      refine List.filter_congr fun r _ => ?_
      by_cases h₁ : r.base = p <;> by_cases h₂ : r.base ∈ l <;> simp [h₁, h₂]

theorem exists_region (h : MemoryInv s) {tid m : ℕ} {tcb : Tcb} (ht : s.threads tid = some tcb)
    (hm : 0 < m) (hne : tcb.pointer m ≠ 0) :
    ∃ r ∈ s.occupied, r.tid = tid ∧ r.base = tcb.pointer m ∧
      (r.key = some m ∨ r.key = none ∧ r.base = tcb.base) := by
  obtain ⟨c, hc, htid, hmodid⟩ := h.pointers tid tcb ht m hm hne
  subst htid hmodid
  obtain ⟨-, hptr, r, hr, hrtid, hrbase, -, hkey⟩ := (h.created c hc).2 tcb ht
  refine ⟨r, hr, hrtid, hrbase.trans hptr.symm, hkey.imp_right fun hkey => ⟨hkey.1, ?_⟩⟩
  have harea := (h.areas c.tid tcb ht).2
  rw [h.keys r hr _ harea hrtid hkey.1]

theorem outside_of_key (h : MemoryInv s) {tcb : Tcb} {r : Region} {m : ℕ} (hr : r ∈ s.occupied)
    (ht : s.threads r.tid = some tcb) (hkey : r.key = some m) :
    r.base < tcb.base ∨ tcb.base + s.staticTlsSize < r.base := by
  have harea := (h.areas r.tid tcb ht).2
  have hne : r ≠ ⟨r.tid, none, tcb.base, s.totalTlsSize⟩ := by
    intro heq
    rw [heq] at hkey
    cases hkey
  have hapart : r.Apart _ := h.apart.forall hr harea hne
  have hsize := (h.sizes r hr).1
  unfold Region.Apart totalTlsSize at hapart
  dsimp only at hapart
  omega

theorem mem_freedBy (h : MemoryInv s) {tid p : ℕ} {tcb : Tcb} (ht : s.threads tid = some tcb)
    (hok : s.TlsCondition (.tcbDtor tid)) :
    p ∈ s.freedBy tcb ↔ ∃ r ∈ s.occupied, r.tid = tid ∧ r.key ≠ none ∧ r.base = p := by
  constructor
  · intro hp
    obtain ⟨hp, hcond⟩ := List.mem_filter.1 hp
    obtain ⟨hne, hout⟩ := of_decide_eq_true hcond
    obtain ⟨i, hi, rfl⟩ := List.mem_iff_getElem.1 (List.dropLast_subset _ hp)
    have hptr : tcb.pointer (i + 1) = tcb.pointers[i] := by
      simp [Tcb.pointer, List.getD_eq_getElem?_getD, hi]
    rw [← hptr] at hne hout ⊢
    obtain ⟨r, hr, htid, hbase, hkey | ⟨-, hstatic⟩⟩ :=
      exists_region h ht (Nat.succ_pos i) hne
    · exact ⟨r, hr, htid, by rw [hkey]; nofun, hbase⟩
    · rw [← hbase, hstatic] at hout
      omega
  · rintro ⟨r, hr, rfl, hkey, rfl⟩
    obtain ⟨m, hm⟩ := Option.ne_none_iff_exists'.1 hkey
    obtain ⟨tcb', ht', hpos, hptr⟩ := h.blocks r hr m hm
    rw [ht] at ht'
    obtain rfl := Option.some.inj ht'
    have hbase := (h.sizes r hr).2
    have hout := outside_of_key h hr ht hm
    have hle : m ≤ tcb.pointers.length := Tcb.le_length (hptr ▸ hbase) hpos
    have hlast : m ≠ tcb.pointers.length := by
      intro heq
      have hlast := hok tcb ht
      rw [← heq, hptr] at hlast
      omega
    refine List.mem_filter.2 ⟨?_, decide_eq_true ⟨hbase, hout⟩⟩
    have hget : tcb.pointers[m - 1]? = some r.base := by
      rw [← hptr, Tcb.pointer, List.getD_eq_getElem?_getD,
        List.getElem?_eq_getElem (show m - 1 < tcb.pointers.length by omega)]
      rfl
    rw [List.dropLast_eq_take]
    refine List.mem_of_getElem? (i := m - 1) ?_
    rw [List.getElem?_take_of_lt (by omega), hget]

theorem freedBy_nodup (h : MemoryInv s) {tid : ℕ} {tcb : Tcb} (ht : s.threads tid = some tcb) :
    (s.freedBy tcb).Nodup := by
  refine List.pairwise_filter.2 (List.Pairwise.sublist (List.dropLast_sublist _) ?_)
  refine List.pairwise_iff_getElem.2 fun i j hi hj hij hp hq heq => ?_
  obtain ⟨hne, hout⟩ := of_decide_eq_true hp
  have hptr : ∀ k, (hk : k < tcb.pointers.length) → tcb.pointer (k + 1) = tcb.pointers[k] :=
    fun k hk => by simp [Tcb.pointer, List.getD_eq_getElem?_getD, hk]
  have hkeyed : ∀ k, (hk : k < tcb.pointers.length) → tcb.pointers[k] = tcb.pointers[i] →
      ∃ r ∈ s.occupied, r.base = tcb.pointers[i] ∧ r.key = some (k + 1) := by
    intro k hk hki
    have hki' : tcb.pointer (k + 1) = tcb.pointers[i] := (hptr k hk).trans hki
    obtain ⟨r, hr, -, hbase, hkey | ⟨-, hstatic⟩⟩ :=
      exists_region h ht (Nat.succ_pos k) (hki' ▸ hne)
    · exact ⟨r, hr, hbase.trans hki', hkey⟩
    · rw [← hki', ← hbase, hstatic] at hout
      omega
  obtain ⟨r, hr, hbase, hkey⟩ := hkeyed i hi rfl
  obtain ⟨r', hr', hbase', hkey'⟩ := hkeyed j hj heq.symm
  rw [base_inj h hr hr' (hbase.trans hbase'.symm), hkey'] at hkey
  have := Option.some.inj hkey
  omega

theorem MemoryInv.tcbDtor (h : MemoryInv s) {tid : ℕ} {tcb : Tcb}
    (ht : s.threads tid = some tcb) (hok : s.TlsCondition (.tcbDtor tid)) :
    MemoryInv { s with
      occupied := s.occupied.filter fun r => r.base ∉ s.freedBy tcb
      threads := update s.threads tid none } := by
  have hmem : ∀ r, r ∈ s.occupied.filter (fun r => r.base ∉ s.freedBy tcb) ↔
      r ∈ s.occupied ∧ ¬ (r.tid = tid ∧ r.key ≠ none) := by
    intro r
    rw [List.mem_filter]
    refine and_congr_right fun hr => ?_
    rw [decide_eq_true_iff, mem_freedBy h ht hok]
    refine not_congr ⟨fun ⟨r', hr', htid, hkey, hbase⟩ => ?_,
      fun ⟨htid, hkey⟩ => ⟨r, hr, htid, hkey, rfl⟩⟩
    obtain rfl := base_inj h hr' hr hbase
    exact ⟨htid, hkey⟩
  have hother : ∀ t t', update s.threads tid none t = some t' →
      t ≠ tid ∧ s.threads t = some t' := by
    intro t t' ht'
    by_cases htid : t = tid
    · rw [htid, update_self] at ht'
      cases ht'
    · rw [update_of_ne htid] at ht'
      exact ⟨htid, ht'⟩
  constructor
  · exact h.apart.filter _
  · intro r hr
    exact h.sizes r ((hmem r).1 hr).1
  · intro r hr r' hr'
    exact h.keys r ((hmem r).1 hr).1 r' ((hmem r').1 hr').1
  · intro r hr
    exact h.tids r ((hmem r).1 hr).1
  · intro r hr m hm
    obtain ⟨hr, hne⟩ := (hmem r).1 hr
    have htid : r.tid ≠ tid := fun htid => hne ⟨htid, by rw [hm]; nofun⟩
    dsimp only
    rw [update_of_ne htid]
    exact h.blocks r hr m hm
  · intro t t' ht'
    obtain ⟨-, ht'⟩ := hother t t' ht'
    exact ⟨(h.areas t t' ht').1, (hmem _).2 ⟨(h.areas t t' ht').2, fun hkey => hkey.2 rfl⟩⟩
  · intro t t' ht'
    exact h.pointers t t' (hother t t' ht').2
  · intro c hc
    refine ⟨(h.created c hc).1, fun t' ht' => ?_⟩
    obtain ⟨htid, ht'⟩ := hother c.tid t' ht'
    obtain ⟨hpos, hptr, r, hr, hrtid, hrest⟩ := (h.created c hc).2 t' ht'
    exact ⟨hpos, hptr, r, (hmem r).2 ⟨hr, fun hkey => htid (hrtid ▸ hkey.1)⟩, hrtid, hrest⟩
  · exact h.once
  · exact h.contents
  · exact h.answers

theorem TlsInv.tcbDtor (h : TlsInv s) {tid : ℕ} {tcb : Tcb} (hctor : s.ctor = none)
    (ht : s.threads tid = some tcb) (hok : s.TlsCondition (.tcbDtor tid)) :
    TlsInv (s.tcbDtor tid tcb) := by
  have hle : tcb.pointers.length ≤ s.maxTlsIndex := by
    rcases h.tables tid tcb ht with ⟨-, hsized⟩ | ⟨-, hlt⟩
    · exact hsized.le
    · exact Nat.le_of_lt hlt
  have hfold := foldl_heapFree (s.freedBy tcb) (freedBy_nodup h.memory ht) h.fault fun p hp => by
    obtain ⟨r, hr, -, hkey, hbase⟩ := (mem_freedBy h.memory ht hok).1 hp
    exact ⟨r, hr, hkey, hbase⟩
  have heq : s.tcbDtor tid tcb = { s with
      occupied := s.occupied.filter fun r => r.base ∉ s.freedBy tcb
      threads := update s.threads tid none } := by
    unfold State.tcbDtor
    rw [if_neg (Nat.not_lt.2 hle), hfold]
  rw [heq]
  refine ⟨h.fault, ⟨h.modules.modids, h.modules.count, h.modules.unique, h.modules.fits,
    h.modules.program, h.modules.loading⟩, fun t t' ht' => ?_, fun c hc => ?_,
    h.memory.tcbDtor ht hok⟩
  · dsimp only at ht'
    by_cases htid : t = tid
    · rw [htid, update_self] at ht'
      cases ht'
    · rw [update_of_ne htid] at ht'
      exact (h.tables t t' ht').imp (fun ⟨hg, hz⟩ => ⟨hg, hz.congr rfl rfl rfl⟩) id
  · rw [show s.ctor = some c from hc] at hctor
    cases hctor

/-- A step that meets the condition keeps the blocks apart and the tables complete. -/
theorem TlsInv.step (h : TlsInv s) {a : Action} (hok : s.TlsCondition a)
    (hs : s.step a = some s') : TlsInv s' := by
  unfold State.step at hs
  rw [if_neg (not_not.2 h.fault)] at hs
  cases a with
  | loadModule file => exact Option.some.inj hs ▸ h.loadModule file
  | advanceGenerationCounter module =>
      simp only at hs
      split at hs
      · exact Option.some.inj hs ▸ h.advance ‹_› hok
      · cases hs
  | tcbCtor base =>
      simp only at hs
      split at hs
      · rename_i hfree
        exact Option.some.inj hs ▸ h.tcbCtor hfree.1 hfree.2 hok
      · cases hs
  | tcbInit =>
      simp only at hs
      split at hs
      · exact Option.some.inj hs ▸ h.tcbInit ‹_› ‹_›
      · cases hs
  | tlsGetAddr tid m offset dest =>
      simp only at hs
      split at hs
      · cases hs
      · split at hs
        · exact h.tlsGetAddr ‹_› ‹_› hok hs
        · cases hs
  | tcbDtor tid =>
      simp only at hs
      split at hs
      · obtain ⟨tcb, ht, rfl⟩ := Option.map_eq_some_iff.1 hs
        exact h.tcbDtor ‹_› ht hok
      · cases hs

/-! ## Private and initialised -/

/-- No assertion fails and no entry outside a table is touched; an answer is an offset into
the one block of the thread and the module, which started with the image of the module of
that index, is apart from every other block, stays in use while the thread lives and is not
after that. -/
structure TlsExact (s : State) : Prop where
  fault : s.fault = none
  answers : ∀ a ∈ s.answers, ∃ c ∈ s.created, c.tid = a.tid ∧ c.modid = a.moduleIndex ∧
    a.address = c.base + a.offset
  once : ∀ c ∈ s.created, ∀ d ∈ s.created, c.tid = d.tid → c.modid = d.modid → c = d
  apart : ∀ c ∈ s.created, ∀ d ∈ s.created, (s.threads c.tid).isSome → (s.threads d.tid).isSome →
    c ≠ d → c.base + c.contents.length ≤ d.base ∨ d.base + d.contents.length ≤ c.base
  contents : ∀ c ∈ s.created, (∃ k ∈ s.modules, k.modid = c.modid) ∧
    ∀ k ∈ s.modules, k.modid = c.modid → c.contents = k.image
  kept : ∀ c ∈ s.created, (s.threads c.tid).isSome → ∃ r ∈ s.occupied,
    r.tid = c.tid ∧ r.base = c.base ∧ c.contents.length ≤ r.size
  freed : ∀ r ∈ s.occupied, r.key ≠ none → (s.threads r.tid).isSome

theorem TlsInv.apart (h : TlsInv s) {c d : Created} (hc : c ∈ s.created) (hd : d ∈ s.created)
    (hcl : (s.threads c.tid).isSome) (hdl : (s.threads d.tid).isSome) (hne : c ≠ d) :
    c.base + c.contents.length ≤ d.base ∨ d.base + d.contents.length ≤ c.base := by
  obtain ⟨tcb, ht⟩ := Option.isSome_iff_exists.1 hcl
  obtain ⟨tcb', ht'⟩ := Option.isSome_iff_exists.1 hdl
  obtain ⟨-, -, r, hr, htid, hbase, hlen, hkey⟩ := (h.memory.created c hc).2 tcb ht
  obtain ⟨-, -, r', hr', htid', hbase', hlen', hkey'⟩ := (h.memory.created d hd).2 tcb' ht'
  have hregion : r ≠ r' := by
    rintro rfl
    refine hne (h.memory.once c hc d hd (htid.symm.trans htid') ?_)
    rcases hkey with hkey | ⟨hkey, hhead⟩ <;> rcases hkey' with hkey' | ⟨hkey', hhead'⟩
    · exact Option.some.inj (hkey.symm.trans hkey')
    · rw [hkey] at hkey'
      cases hkey'
    · rw [hkey] at hkey'
      cases hkey'
    · exact Option.some.inj (hhead.symm.trans hhead')
  have hapart : r.Apart r' := h.memory.apart.forall hr hr' hregion
  unfold Region.Apart at hapart
  omega

theorem TlsInv.tlsExact (h : TlsInv s) : TlsExact s where
  fault := h.fault
  answers := h.memory.answers
  once := h.memory.once
  apart := fun _ hc _ hd hcl hdl hne => h.apart hc hd hcl hdl hne
  contents := fun c hc => by
    obtain ⟨k, hk, hmodid, hne, heq⟩ := h.memory.contents c hc
    refine ⟨⟨k, hk, hmodid⟩, fun k' hk' hmodid' => ?_⟩
    rw [h.modules.unique k' hk' k hk (hmodid'.trans hmodid.symm) (hmodid' ▸ hne)]
    exact heq
  kept := fun c hc hlive => by
    obtain ⟨tcb, ht⟩ := Option.isSome_iff_exists.1 hlive
    obtain ⟨-, -, r, hr, htid, hbase, hlen, -⟩ := (h.memory.created c hc).2 tcb ht
    exact ⟨r, hr, htid, hbase, hlen⟩
  freed := fun r hr hkey => by
    obtain ⟨m, hm⟩ := Option.ne_none_iff_exists'.1 hkey
    obtain ⟨tcb, ht, -⟩ := h.memory.blocks r hr m hm
    rw [ht]
    rfl

/-- Thread-local storage is right in every run whose steps meet the condition. -/
theorem tls_exact {program : Option TlsSegment} {libraries : List (Option TlsSegment)}
    (hs : Reachable step TlsCondition (start program libraries) s) : TlsExact s :=
  (hs.invariant (tlsInv_start program libraries) fun _ _ _ h hok hs => h.step hok hs).tlsExact

instance (s : State) (a : Action) : Decidable (s.TlsCondition a) :=
  match a with
  | .tcbCtor _ => inferInstanceAs (Decidable (∀ k ∈ s.loading, k.imageSize = 0))
  | .advanceGenerationCounter module => inferInstanceAs
      (Decidable (module.imageSize ≠ 0 → s.ctor = none))
  | .tlsGetAddr tid m _ _ => inferInstanceAs (Decidable (∀ tcb ∈ s.threads tid,
      (tcb.generation ≠ s.dtvGenerationCounter → ∀ k ∈ s.loading, k.imageSize = 0) ∧
      (tcb.generation = s.dtvGenerationCounter → ∀ k ∈ s.modules,
        k.modid = m → k.dynamic = true → k.imageSize = 0 → m ≤ tcb.pointers.length) ∧
      (tcb.pointer m = 0 → ∀ k ∈ s.modules[m - 1]?,
        ∃ k' ∈ s.modules, k'.modid = m ∧ k'.image = k.image)))
  | .tcbDtor tid => inferInstanceAs (Decidable (∀ tcb ∈ s.threads tid,
      tcb.pointer tcb.pointers.length = 0 ∨ tcb.base ≤ tcb.pointer tcb.pointers.length ∧
        tcb.pointer tcb.pointers.length ≤ tcb.base + s.staticTlsSize))
  | .loadModule _ => isTrue trivial
  | .tcbInit => isTrue trivial

def segment (byte : ℕ) : TlsSegment := ⟨[byte], 2, Nat.le_succ 1⟩

def emptySegment : TlsSegment := ⟨[], 0, Nat.le_refl 0⟩

theorem tls_exact_sample : ∃ s : State, s.created.length = 3 ∧ s.answers.length = 5 ∧
    s.threads 0 = none ∧ TlsExact s := by
  have hrun : ((runChecked step TlsCondition (start (some (segment 1)) [some (segment 2), none])
      [.tcbCtor 0x1000, .tcbInit, .tlsGetAddr 0 1 1 0, .tlsGetAddr 0 2 0 0x5000,
        .tcbCtor 0x2000, .tcbInit, .tlsGetAddr 0 1 0 0, .tlsGetAddr 1 1 0 0,
        .loadModule (some (segment 3)), .advanceGenerationCounter ⟨3, 2, [3], true⟩,
        .tlsGetAddr 0 1 0 0, .tcbDtor 0]).any fun s =>
        decide (s.created.length = 3 ∧ s.answers.length = 5 ∧ s.threads 0 = none)) := by
    decide
  obtain ⟨s, hs, hp⟩ := (Option.any_eq_true _ _).1 hrun
  obtain ⟨hc, ha, ht⟩ := of_decide_eq_true hp
  exact ⟨s, hc, ha, ht, tls_exact (reachable_of_runChecked hs)⟩

def blockOfProgram : List Action := [.tcbCtor 0x1000, .tcbInit, .tlsGetAddr 0 1 0 0x5000]

def emptyImage : List Action :=
  [.tcbCtor 0x1000, .tcbInit, .loadModule (some emptySegment),
    .advanceGenerationCounter ⟨1, 0, [], true⟩, .tlsGetAddr 0 1 0 0x5000]

def threadWhileLoading : List Action :=
  [.loadModule (some (segment 1)), .tcbCtor 0x1000, .tcbInit,
    .advanceGenerationCounter ⟨1, 2, [1], true⟩, .tlsGetAddr 0 1 0 0x5000]

/-- A thread with a block for the module of the last index ends. -/
def lastIndex : List Action :=
  [.tcbCtor 0x1000, .tcbInit, .tlsGetAddr 0 2 0 0x5000, .tcbDtor 0]

theorem exists_reachable (s₀ : State) (l : List Action) {p : State → Bool}
    (h : (run step s₀ l).any p = true) :
    ∃ s, Reachable step (fun _ _ => True) s₀ s ∧ p s = true := by
  obtain ⟨s, hs, hp⟩ := (Option.any_eq_true _ _).1 h
  exact ⟨s, reachable_of_run hs (allOk_of_forall fun _ _ _ => trivial), hp⟩

/-- A module's index is not its position, a module with an empty image reaches outside the
table, a thread made during a load fails the assertion, and the last block is not freed. -/
theorem tls_exact_fails :
    (∃ s, Reachable step (fun _ _ => True) (start none [some (segment 1)]) s ∧
      ¬ TlsExact s ∧ ∃ c ∈ s.created, ∃ k ∈ s.modules, k.modid = c.modid ∧
        c.contents ≠ k.image) ∧
      (∃ s, Reachable step (fun _ _ => True) (start none []) s ∧ ¬ TlsExact s ∧
        s.fault = some .outsideTable) ∧
      (∃ s, Reachable step (fun _ _ => True) (start none []) s ∧ ¬ TlsExact s ∧
        s.fault = some .moduleUnloadingUnsupported) ∧
      ∃ s, Reachable step (fun _ _ => True) (start (some (segment 1)) [some (segment 2)]) s ∧
        ¬ TlsExact s ∧ ∃ r ∈ s.occupied, r.key ≠ none ∧ s.threads r.tid = none := by
  obtain ⟨s₁, hs₁, hp₁⟩ := exists_reachable (start none [some (segment 1)])
    blockOfProgram (p := fun s => decide (∃ c ∈ s.created, ∃ k ∈ s.modules,
      k.modid = c.modid ∧ c.contents ≠ k.image)) (by decide)
  obtain ⟨s₂, hs₂, hp₂⟩ := exists_reachable (start none []) emptyImage
    (p := fun s => decide (s.fault = some .outsideTable)) (by decide)
  obtain ⟨s₃, hs₃, hp₃⟩ := exists_reachable (start none []) threadWhileLoading
    (p := fun s => decide (s.fault = some .moduleUnloadingUnsupported)) (by decide)
  obtain ⟨s₄, hs₄, hp₄⟩ := exists_reachable
    (start (some (segment 1)) [some (segment 2)]) lastIndex
    (p := fun s => decide (∃ r ∈ s.occupied, r.key ≠ none ∧ s.threads r.tid = none))
    (by decide)
  have hp₁ := of_decide_eq_true hp₁
  have hp₂ := of_decide_eq_true hp₂
  have hp₃ := of_decide_eq_true hp₃
  have hp₄ := of_decide_eq_true hp₄
  refine ⟨⟨s₁, hs₁, fun h => ?_, hp₁⟩, ⟨s₂, hs₂, fun h => ?_, hp₂⟩,
    ⟨s₃, hs₃, fun h => ?_, hp₃⟩, s₄, hs₄, fun h => ?_, hp₄⟩
  · obtain ⟨c, hc, k, hk, hmodid, hne⟩ := hp₁
    exact hne ((h.contents c hc).2 k hk hmodid)
  · rw [h.fault] at hp₂
    cases hp₂
  · rw [h.fault] at hp₃
    cases hp₃
  · obtain ⟨r, hr, hkey, hnone⟩ := hp₄
    have hlive := h.freed r hr hkey
    rw [hnone] at hlive
    cases hlive

end State

end OrbitConsole.Linker
