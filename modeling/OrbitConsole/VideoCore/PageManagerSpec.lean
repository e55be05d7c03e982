import Mathlib.Data.List.Infix
import Mathlib.Tactic.Linarith
import OrbitConsole.VideoCore.PageManager

/-!
# The protection of the pages over all sequences of calls

Between two pages of a loop, every page has on the host what its watchers say,
or lies in the pending range, whose pages all have the permissions that are
pending. So after a call every page has them.
-/

namespace OrbitConsole.VideoCore

open PageManager

variable {s s' : PageManager} {track isRead : Bool} {state : PageState} {p : Pending}
  {page : ℕ} {mask : ℕ → Bool}

namespace PageState

def count (isRead : Bool) (state : PageState) : ℕ :=
  if isRead then state.numReadWatchers else state.numWriteWatchers

/-- How many watchers of a kind a page can have. -/
def maxCount (isRead : Bool) : ℕ := if isRead then 1 else 127

def bump (track isRead : Bool) (state : PageState) : PageState :=
  if isRead then
    { state with numReadWatchers :=
        if track then state.numReadWatchers + 1 else state.numReadWatchers - 1 }
  else
    { state with numWriteWatchers :=
        if track then state.numWriteWatchers + 1 else state.numWriteWatchers - 1 }

/-- There is room for one watcher more, or one watcher to remove. -/
def CanBump (track isRead : Bool) (state : PageState) : Prop :=
  if track then state.count isRead < maxCount isRead else 0 < state.count isRead

theorem count_bump (state : PageState) :
    (state.bump track isRead).count isRead =
      if track then state.count isRead + 1 else state.count isRead - 1 := by
  unfold bump count
  cases isRead <;> cases track <;> rfl

theorem count_bump_ne {kind : Bool} (h : kind = !isRead) (state : PageState) :
    (state.bump track kind).count isRead = state.count isRead := by
  subst h
  unfold bump count
  cases isRead <;> rfl

def WriteOnly (state : PageState) : Prop :=
  0 < state.numReadWatchers ∧ state.numWriteWatchers = 0

theorem perms_ne (h : ¬ state.WriteOnly) :
    state.perms ≠ { read := false, write := true } := by
  intro heq
  apply h
  have hread := congrArg MemoryPermission.read heq
  have hwrite := congrArg MemoryPermission.write heq
  simp only [perms, decide_eq_false_iff_not, decide_eq_true_eq] at hread hwrite
  exact ⟨Nat.pos_of_ne_zero hread, hwrite⟩

theorem addDelta_of_canBump (h : state.CanBump track isRead) :
    state.addDelta (if track then 1 else -1) isRead =
      .ok (state.bump track isRead, (state.bump track isRead).count isRead) := by
  unfold CanBump count maxCount at h
  unfold addDelta bump count
  cases isRead <;> cases track <;> simp only [Bool.false_eq_true, if_false, if_true] at h ⊢
  · rw [if_neg (by decide), if_neg (by omega)]
  · rw [Nat.mod_eq_of_lt (by omega)]
  · rw [if_neg (by decide), if_neg (by omega)]
  · rw [Nat.mod_eq_of_lt (by omega)]

theorem addDelta_zero : state.addDelta 0 isRead = .ok (state, state.count isRead) := by
  unfold addDelta count
  cases isRead <;> simp

theorem perms_bump (h : state.CanBump track isRead)
    (hcount : ¬ ((state.bump track isRead).count isRead = 0 ∧ track = false ∨
      (state.bump track isRead).count isRead = 1 ∧ track = true)) :
    (state.bump track isRead).perms = state.perms := by
  unfold CanBump count maxCount at h
  unfold bump count at hcount
  unfold perms bump
  cases isRead <;> cases track <;>
    simp only [Bool.false_eq_true, if_false, if_true, and_true, and_false, or_false,
      MemoryPermission.mk.injEq, decide_eq_decide, true_and] at h hcount ⊢
  all_goals omega

end PageState

/-! ### One page -/

def PageManager.Synced (s : PageManager) : Prop :=
  ∀ i, s.host i = (s.cachedPages i).perms

def PageManager.Pending.Covers (p : Pending) (i : ℕ) : Prop :=
  p.rangeBegin * pageSize ≤ i * pageSize ∧
    i * pageSize < p.rangeBegin * pageSize + p.rangeBytes

theorem releasePending_spec
    (hvalid : 0 < p.rangeBytes → p.perms ≠ { read := false, write := true }) :
    ∃ s' p', s.releasePending p = .ok (s', p') ∧ s'.cachedPages = s.cachedPages ∧
      (∀ i, p.Covers i → s'.host i = p.perms) ∧ (∀ i, ¬ p.Covers i → s'.host i = s.host i) ∧
      p'.rangeBytes = 0 := by
  unfold PageManager.releasePending
  split
  · next hpos =>
      unfold PageManager.protect
      rw [if_neg (hvalid hpos)]
      refine ⟨_, _, rfl, rfl, fun i hi => ?_, fun i hi => ?_, rfl⟩
      · simp only [Nat.shiftLeft_eq]
        exact if_pos hi
      · simp only [Nat.shiftLeft_eq]
        exact if_neg hi
  · next hzero =>
      refine ⟨s, p, rfl, rfl, fun i hi => ?_, fun i _ => rfl, by omega⟩
      unfold PageManager.Pending.Covers at hi
      omega

structure LoopInv (s : PageManager) (p : Pending) (page : ℕ) : Prop where
  valid : 0 < p.rangeBytes → p.perms ≠ { read := false, write := true }
  range_le : p.rangeBytes ≤ p.potentialRangeBytes
  /-- the potential range ends in front of the page, and has the pending permissions -/
  potential : 0 < p.rangeBytes →
    p.rangeBegin * pageSize + p.potentialRangeBytes = page * pageSize ∧
      ∀ i, p.rangeBegin ≤ i → i < page → (s.cachedPages i).perms = p.perms
  synced : ∀ i, ¬ p.Covers i → s.host i = (s.cachedPages i).perms

theorem PageManager.Pending.Covers.lt (h : LoopInv s p page) {i : ℕ} (hi : p.Covers i) :
    0 < p.rangeBytes ∧ p.rangeBegin ≤ i ∧ i < page := by
  unfold PageManager.Pending.Covers pageSize at hi
  have hpos : 0 < p.rangeBytes := by omega
  have hle := h.range_le
  have hend := (h.potential hpos).1
  unfold pageSize at hend
  exact ⟨hpos, by omega, by omega⟩

theorem LoopInv.release (h : LoopInv s p page) :
    ∃ s' p', s.releasePending p = .ok (s', p') ∧ s'.cachedPages = s.cachedPages ∧
      s'.Synced ∧ p'.rangeBytes = 0 := by
  obtain ⟨s', p', heq, hpages, hin, hout, hzero⟩ := releasePending_spec (s := s) h.valid
  refine ⟨s', p', heq, hpages, fun i => ?_, hzero⟩
  rw [hpages]
  by_cases hi : p.Covers i
  · obtain ⟨hpos, hle, hlt⟩ := hi.lt h
    rw [hin i hi, (h.potential hpos).2 i hle hlt]
  · rw [hout i hi, h.synced i hi]

theorem LoopInv.of_synced (hs : s.Synced) (hzero : p.rangeBytes = 0) : LoopInv s p page where
  valid h := absurd hzero h.ne'
  range_le := by omega
  potential h := absurd hzero h.ne'
  synced i _ := hs i

theorem LoopInv.of_page (hperms : (s.cachedPages page).perms = p.perms)
    (hvalid : p.perms ≠ { read := false, write := true }) (hbegin : p.rangeBegin = page)
    (hbytes : p.rangeBytes = pageSize) (hpotential : p.potentialRangeBytes = pageSize)
    (hsynced : ∀ i, i ≠ page → s.host i = (s.cachedPages i).perms) :
    LoopInv s p (page + 1) where
  valid _ := hvalid
  range_le := by omega
  potential _ := by
    refine ⟨by rw [hbegin, hpotential, Nat.succ_mul], fun i hle hlt => ?_⟩
    obtain rfl : i = page := by omega
    exact hperms
  synced i hi := by
    apply hsynced
    rintro rfl
    apply hi
    unfold PageManager.Pending.Covers
    rw [hbegin, hbytes]
    exact ⟨Nat.le_refl _, Nat.lt_add_of_pos_right (by decide)⟩

/-- The page the loop goes on to, and what comes of it. -/
def stepped (track isRead update : Bool) (state : PageState) : PageState :=
  if update then state.bump track isRead else state

theorem updatePage_delta {update : Bool}
    (hcan : update = true → (s.cachedPages page).CanBump track isRead) :
    (s.cachedPages page).addDelta (if update then (if track then 1 else -1) else 0) isRead =
      .ok (stepped track isRead update (s.cachedPages page),
        (stepped track isRead update (s.cachedPages page)).count isRead) ∧
      (¬ (update = true ∧ ((stepped track isRead update (s.cachedPages page)).count isRead = 0 ∧
          track = false ∨
          (stepped track isRead update (s.cachedPages page)).count isRead = 1 ∧ track = true)) →
        (stepped track isRead update (s.cachedPages page)).perms =
          (s.cachedPages page).perms) := by
  unfold stepped
  cases update
  · exact ⟨PageState.addDelta_zero, fun _ => rfl⟩
  · exact ⟨PageState.addDelta_of_canBump (hcan rfl),
      fun hcount => PageState.perms_bump (hcan rfl) fun h => hcount ⟨rfl, h⟩⟩

/-- What is left of the body of the loops once the count is changed. -/
def protectPage (need : Bool) (perms : MemoryPermission) (page : ℕ) (s : PageManager)
    (p : Pending) : Except String (PageManager × Pending) := do
  let (s, p) ←
    if perms ≠ p.perms then do
      let (s, p) ← s.releasePending p
      .ok (s, { p with perms := perms })
    else if p.rangeBytes ≠ 0 then
      .ok (s, { p with potentialRangeBytes := p.potentialRangeBytes + pageSize })
    else .ok (s, p)
  if need then
    let p := if p.rangeBytes = 0 then
      { p with rangeBegin := page, potentialRangeBytes := pageSize } else p
    .ok (s, { p with rangeBytes := p.potentialRangeBytes })
  else .ok (s, p)

theorem protectPage_spec (h : LoopInv s p page) (need : Bool) (new : PageState)
    (hsame : need = false → new.perms = (s.cachedPages page).perms)
    (hwrite : need = true → new.perms ≠ { read := false, write := true }) :
    ∃ s' p', protectPage need new.perms page
        { s with cachedPages := Function.update s.cachedPages page new } p = .ok (s', p') ∧
      s'.cachedPages = Function.update s.cachedPages page new ∧ LoopInv s' p' (page + 1) := by
  have hself : Function.update s.cachedPages page new page = new := Function.update_self _ _ _
  have hother : ∀ i, i ≠ page → Function.update s.cachedPages page new i = s.cachedPages i :=
    fun i hi => Function.update_of_ne hi _ _
  have hpage : ¬ p.Covers page := fun hc => Nat.lt_irrefl page (hc.lt h).2.2
  unfold protectPage
  by_cases hperms : new.perms ≠ p.perms
  · rw [if_pos hperms]
    obtain ⟨s₂, p₂, heq, hpages, hin, hout, hzero⟩ := releasePending_spec
      (s := { s with cachedPages := Function.update s.cachedPages page new }) h.valid
    have hpages : s₂.cachedPages = Function.update s.cachedPages page new := hpages
    have hout : ∀ i, ¬ p.Covers i → s₂.host i = s.host i := hout
    have hsynced : ∀ i, i ≠ page → s₂.host i = (s₂.cachedPages i).perms := by
      intro i hi
      rw [hpages, hother i hi]
      by_cases hc : p.Covers i
      · obtain ⟨hpos, hle, hlt⟩ := hc.lt h
        rw [hin i hc, (h.potential hpos).2 i hle hlt]
      · rw [hout i hc]
        exact h.synced i hc
    rw [heq]
    cases need
    · refine ⟨s₂, { p₂ with perms := new.perms }, rfl, hpages, LoopInv.of_synced ?_ hzero⟩
      intro i
      by_cases hi : i = page
      · subst hi
        rw [hout i hpage, hpages, hself, hsame rfl]
        exact h.synced i hpage
      · exact hsynced i hi
    · simp only [bind, Except.bind, if_pos hzero, if_true]
      refine ⟨_, _, rfl, hpages, LoopInv.of_page ?_ (hwrite rfl) rfl rfl rfl hsynced⟩
      exact congrArg PageState.perms ((congrFun hpages page).trans hself)
  · rw [if_neg hperms]
    have hperms : new.perms = p.perms := not_not.1 hperms
    -- the page is synchronised unless it has to be protected
    have hsynced : need = false → ∀ i, ¬ p.Covers i →
        s.host i = (Function.update s.cachedPages page new i).perms := by
      intro hneed i hi
      by_cases hip : i = page
      · subst hip
        rw [hself, hsame hneed]
        exact h.synced i hi
      · rw [hother i hip]
        exact h.synced i hi
    by_cases hzero : p.rangeBytes = 0
    · rw [if_neg (not_not.2 hzero)]
      have hnone : ∀ i, ¬ p.Covers i := fun i hc => absurd hzero (hc.lt h).1.ne'
      cases need
      · exact ⟨_, p, rfl, rfl, LoopInv.of_synced (fun i => hsynced rfl i (hnone i)) hzero⟩
      · simp only [bind, Except.bind, if_pos hzero, if_true]
        refine ⟨_, _, rfl, rfl, LoopInv.of_page ?_ (hperms ▸ hwrite rfl) rfl rfl rfl ?_⟩
        · exact (congrArg PageState.perms hself).trans hperms
        · intro i hi
          exact (h.synced i (hnone i)).trans (congrArg PageState.perms (hother i hi)).symm
    · rw [if_pos hzero]
      have hpos : 0 < p.rangeBytes := Nat.pos_of_ne_zero hzero
      obtain ⟨hend, hpending⟩ := h.potential hpos
      have hle := h.range_le
      have hpotential : p.rangeBegin * pageSize + (p.potentialRangeBytes + pageSize) =
          (page + 1) * pageSize := by
        rw [Nat.succ_mul, ← hend, Nat.add_assoc]
      have hall : ∀ i, p.rangeBegin ≤ i → i < page + 1 →
          (Function.update s.cachedPages page new i).perms = p.perms := by
        intro i hi hlt
        by_cases hip : i = page
        · rw [hip, hself, hperms]
        · rw [hother i hip]
          exact hpending i hi (by omega)
      cases need
      · refine ⟨_, _, rfl, rfl, h.valid, ?_, fun _ => ⟨hpotential, hall⟩, ?_⟩
        · exact Nat.le_add_right_of_le hle
        · exact fun i hi => hsynced rfl i hi
      · simp only [bind, Except.bind, if_neg hzero, if_true]
        refine ⟨_, _, rfl, rfl, fun _ => h.valid hpos, Nat.le_refl _,
          fun _ => ⟨hpotential, hall⟩, fun i hi => ?_⟩
        have hip : i ≠ page := by
          rintro rfl
          apply hi
          unfold PageManager.Pending.Covers
          simp only
          have hsize : 0 < pageSize := by decide
          rw [hpotential, Nat.succ_mul]
          exact ⟨by omega, by omega⟩
        have hnc : ¬ p.Covers i := by
          intro hc
          apply hi
          unfold PageManager.Pending.Covers at hc ⊢
          simp only
          exact ⟨hc.1, by omega⟩
        exact (h.synced i hnc).trans (congrArg PageState.perms (hother i hip)).symm

def needsProtect (track isRead update : Bool) (state : PageState) : Bool :=
  update = true ∧ (state.count isRead = 0 ∧ track = false ∨ state.count isRead = 1 ∧ track = true)

theorem updatePage_eq {update : Bool}
    (hcan : update = true → (s.cachedPages page).CanBump track isRead) :
    s.updatePage track isRead update page p =
      protectPage
        (needsProtect track isRead update (stepped track isRead update (s.cachedPages page)))
        (stepped track isRead update (s.cachedPages page)).perms page
        { s with
          cachedPages := Function.update s.cachedPages page
            (stepped track isRead update (s.cachedPages page)) } p := by
  unfold PageManager.updatePage protectPage needsProtect
  simp only [(updatePage_delta hcan).1, decide_eq_true_eq]
  rfl

theorem LoopInv.updatePage (h : LoopInv s p page) (update : Bool)
    (hcan : update = true → (s.cachedPages page).CanBump track isRead)
    (hwrite : update = true → ¬ ((s.cachedPages page).bump track isRead).WriteOnly) :
    ∃ s' p', s.updatePage track isRead update page p = .ok (s', p') ∧
      s'.cachedPages = Function.update s.cachedPages page
        (stepped track isRead update (s.cachedPages page)) ∧ LoopInv s' p' (page + 1) := by
  rw [updatePage_eq hcan]
  apply protectPage_spec h
  · exact fun hneed => (updatePage_delta hcan).2 (of_decide_eq_false hneed)
  · intro hneed
    have hupdate := (of_decide_eq_true hneed).1
    have hnot := PageState.perms_ne (hwrite hupdate)
    subst hupdate
    exact hnot

/-! ### One call -/

/-- The watchers once the selected pages have one more or less. -/
def bumped (track isRead : Bool) (sel : ℕ → Prop) [DecidablePred sel]
    (pages : ℕ → PageState) : ℕ → PageState :=
  fun i => if sel i then (pages i).bump track isRead else pages i

theorem bumped_congr {P Q : ℕ → Prop} [DecidablePred P] [DecidablePred Q]
    (h : ∀ i, P i ↔ Q i) (pages : ℕ → PageState) :
    bumped track isRead P pages = bumped track isRead Q pages := by
  funext i
  unfold bumped
  by_cases hi : P i
  · rw [if_pos hi, if_pos ((h i).1 hi)]
  · rw [if_neg hi, if_neg fun hq => hi ((h i).2 hq)]

def Allows (track isRead : Bool) (state : PageState) : Prop :=
  state.CanBump track isRead ∧ ¬ (state.bump track isRead).WriteOnly

theorem bumped_zero (track isRead : Bool) (mask : ℕ → Bool) (page : ℕ)
    (pages : ℕ → PageState) :
    bumped track isRead (fun i => (page ≤ i ∧ i < page + 0) ∧ mask i = true) pages = pages := by
  funext i
  unfold bumped
  rw [if_neg]
  omega

theorem bumped_succ {n : ℕ} {pages pages' : ℕ → PageState}
    (h : pages' = Function.update pages page (stepped track isRead (mask page) (pages page))) :
    bumped track isRead (fun i => (page + 1 ≤ i ∧ i < page + 1 + n) ∧ mask i = true) pages' =
      bumped track isRead (fun i => (page ≤ i ∧ i < page + (n + 1)) ∧ mask i = true) pages := by
  funext i
  unfold bumped
  by_cases hi : i = page
  · subst hi
    rw [if_neg (by omega), h, Function.update_self]
    unfold stepped
    by_cases hset : mask i = true
    · rw [if_pos hset, if_pos ⟨⟨Nat.le_refl i, by omega⟩, hset⟩]
    · rw [if_neg hset, if_neg (fun h => hset h.2)]
  · rw [h, Function.update_of_ne hi]
    have hiff : (page + 1 ≤ i ∧ i < page + 1 + n) ∧ mask i = true ↔
        (page ≤ i ∧ i < page + (n + 1)) ∧ mask i = true :=
      and_congr_left fun _ => by omega
    simp only [hiff]

theorem updateLoop_spec (track isRead : Bool) (mask : ℕ → Bool) (n : ℕ) (h : LoopInv s p page)
    (hall : ∀ i, page ≤ i → i < page + n → mask i = true →
      Allows track isRead (s.cachedPages i)) :
    ∃ s', updateLoop track isRead mask n page s p = .ok s' ∧ s'.Synced ∧
      s'.cachedPages =
        bumped track isRead (fun i => (page ≤ i ∧ i < page + n) ∧ mask i = true)
          s.cachedPages := by
  induction n generalizing page s p with
  | zero =>
      obtain ⟨s', p', heq, hpages, hsynced, hzero⟩ := h.release
      refine ⟨s', ?_, hsynced, ?_⟩
      · unfold updateLoop
        rw [heq]
        rfl
      · rw [hpages]
        exact (bumped_zero track isRead mask page _).symm
  | succ n ih =>
      obtain ⟨s₁, p₁, heq₁, hpages₁, hinv⟩ := h.updatePage (mask page)
        (fun hset => (hall page (Nat.le_refl page) (by omega) hset).1)
        (fun hset => (hall page (Nat.le_refl page) (by omega) hset).2)
      have hother : ∀ i, i ≠ page → s₁.cachedPages i = s.cachedPages i := by
        intro i hi
        rw [hpages₁, Function.update_of_ne hi]
      obtain ⟨s₂, heq₂, hsynced, hpages₂⟩ := ih hinv (fun i hle hlt hset => by
        rw [hother i (by omega)]
        exact hall i (by omega) (by omega) hset)
      refine ⟨s₂, ?_, hsynced, ?_⟩
      · unfold updateLoop
        rw [heq₁]
        exact heq₂
      · rw [hpages₂]
        exact bumped_succ hpages₁

theorem divCeil_pageSize (a : ℕ) (i : ℕ) : i < divCeil a pageSize ↔ i * pageSize < a := by
  unfold divCeil pageSize
  omega

theorem shiftRight_pageBits (a : ℕ) (i : ℕ) : a >>> pageBits ≤ i ↔ a < (i + 1) * pageSize := by
  rw [Nat.shiftRight_eq_div_pow]
  unfold pageBits pageSize
  omega

/-- The page has a byte of the range, or the last byte in front of an empty range. -/
def InBytes (addr size : ℕ) (i : ℕ) : Prop :=
  addr < (i + 1) * pageSize ∧ i * pageSize < addr + size

instance (addr size : ℕ) : DecidablePred (InBytes addr size) :=
  fun _ => inferInstanceAs (Decidable (_ ∧ _))

def start (s : PageManager) (page : ℕ) : Pending := { perms := (s.cachedPages page).perms }

theorem LoopInv.start (hs : s.Synced) : LoopInv s (start s page) page := .of_synced hs rfl

theorem inBytes_iff (addr size i : ℕ) :
    ((addr >>> pageBits ≤ i ∧
      i < addr >>> pageBits + (divCeil (addr + size) pageSize - addr >>> pageBits)) ∧
        (fun _ : ℕ => true) i = true) ↔ InBytes addr size i := by
  unfold InBytes
  rw [← shiftRight_pageBits, ← divCeil_pageSize]
  simp only [and_true]
  omega

def IsLoop (track isRead : Bool) (sel : ℕ → Prop) (s : PageManager)
    (result : Except String PageManager) : Prop :=
  ∃ mask n page, result = updateLoop track isRead mask n page s (start s page) ∧
    ∀ i, (page ≤ i ∧ i < page + n) ∧ mask i = true ↔ sel i

theorem updatePageWatchers_isLoop (track isRead : Bool) (s : PageManager) (addr size : ℕ) :
    IsLoop track isRead (InBytes addr size) s
      (updatePageWatchers track isRead s addr size) :=
  ⟨_, _, _, rfl, inBytes_iff addr size⟩

theorem IsLoop.spec {sel : ℕ → Prop} [DecidablePred sel] {result : Except String PageManager}
    (h : IsLoop track isRead sel s result) (hs : s.Synced)
    (hall : ∀ i, sel i → Allows track isRead (s.cachedPages i)) :
    ∃ s', result = .ok s' ∧ s'.Synced ∧
      s'.cachedPages = bumped track isRead sel s.cachedPages := by
  obtain ⟨mask, n, page, hresult, hiff⟩ := h
  obtain ⟨s', heq, hs', hpages⟩ := updateLoop_spec track isRead mask n (LoopInv.start hs)
    (fun i hle hlt hset => hall i ((hiff i).1 ⟨⟨hle, hlt⟩, hset⟩))
  exact ⟨s', hresult.trans heq, hs', hpages.trans (bumped_congr hiff _)⟩

/-! ### The calls for a region -/

def regionSize : ℕ := numPagesPerRegion * pageSize

def InMask (index : ℕ) (mask : RegionBits) (i : ℕ) : Prop :=
  index * numPagesPerRegion ≤ i ∧ mask.get (i - index * numPagesPerRegion) = true

instance (index : ℕ) (mask : RegionBits) : DecidablePred (InMask index mask) :=
  fun _ => inferInstanceAs (Decidable (_ ∧ _))

def InRanges (index : ℕ) (ranges : List (ℕ × ℕ)) (i : ℕ) : Prop :=
  ∃ r ∈ ranges, index * numPagesPerRegion + r.1 ≤ i ∧ i < index * numPagesPerRegion + r.2

instance (index : ℕ) (ranges : List (ℕ × ℕ)) : DecidablePred (InRanges index ranges) :=
  fun _ => inferInstanceAs (Decidable (∃ r ∈ ranges, _ ∧ _))

theorem regionSize_shiftRight (index : ℕ) :
    (index * regionSize) >>> pageBits = index * numPagesPerRegion := by
  rw [Nat.shiftRight_eq_div_pow]
  unfold regionSize pageSize pageBits numPagesPerRegion
  omega

theorem inBytes_range {index i : ℕ} {r : ℕ × ℕ} (hr : r.1 < r.2) :
    InBytes (index * regionSize + r.1 <<< pageBits) ((r.2 - r.1) <<< pageBits) i ↔
      index * numPagesPerRegion + r.1 ≤ i ∧ i < index * numPagesPerRegion + r.2 := by
  unfold InBytes
  simp only [Nat.shiftLeft_eq]
  unfold regionSize pageSize pageBits numPagesPerRegion
  omega

theorem updateRanges_spec {index : ℕ} {ranges : List (ℕ × ℕ)} (hs : s.Synced)
    (hlt : ∀ r ∈ ranges, r.1 < r.2) (hsorted : ranges.Pairwise fun r r' => r.2 < r'.1)
    (hall : ∀ i, InRanges index ranges i → Allows track isRead (s.cachedPages i)) :
    ∃ s', updateRanges track isRead s (index * regionSize) ranges = .ok s' ∧ s'.Synced ∧
      s'.cachedPages = bumped track isRead (InRanges index ranges) s.cachedPages := by
  induction ranges generalizing s with
  | nil =>
      refine ⟨s, rfl, hs, ?_⟩
      funext i
      unfold bumped
      rw [if_neg]
      rintro ⟨r, hr, -⟩
      exact List.not_mem_nil hr
  | cons r rest ih =>
      have hr := hlt r List.mem_cons_self
      obtain ⟨hbehind, hrest⟩ := List.pairwise_cons.1 hsorted
      obtain ⟨s₁, heq₁, hsynced₁, hpages₁⟩ :=
        (updatePageWatchers_isLoop track isRead s (index * regionSize + r.1 <<< pageBits)
          ((r.2 - r.1) <<< pageBits)).spec hs (fun i hi =>
            hall i ⟨r, List.mem_cons_self, (inBytes_range hr).1 hi⟩)
      -- the ranges are apart, so the first one leaves the pages of the others
      have happart : ∀ i, InRanges index rest i → s₁.cachedPages i = s.cachedPages i := by
        rintro i ⟨r', hr', hle, -⟩
        rw [hpages₁]
        unfold bumped
        rw [if_neg]
        intro hin
        have := (inBytes_range hr).1 hin
        have := hbehind r' hr'
        omega
      obtain ⟨s₂, heq₂, hsynced₂, hpages₂⟩ := ih hsynced₁
        (fun r' hr' => hlt r' (List.mem_cons_of_mem r hr')) hrest (fun i hi => by
          rw [happart i hi]
          obtain ⟨r', hr', hin⟩ := hi
          exact hall i ⟨r', List.mem_cons_of_mem r hr', hin⟩)
      refine ⟨s₂, ?_, hsynced₂, ?_⟩
      · unfold updateRanges
        rw [heq₁]
        exact heq₂
      · rw [hpages₂]
        funext i
        by_cases hi : InRanges index rest i
        · obtain ⟨r', hr', hin⟩ := hi
          have hi : InRanges index rest i := ⟨r', hr', hin⟩
          unfold bumped
          rw [if_pos hi, happart i hi, if_pos ⟨r', List.mem_cons_of_mem r hr', hin⟩]
        · have hiff : InRanges index (r :: rest) i ↔
              InBytes (index * regionSize + r.1 <<< pageBits) ((r.2 - r.1) <<< pageBits) i := by
            rw [inBytes_range hr]
            constructor
            · rintro ⟨r', hr', hin⟩
              rcases List.mem_cons.1 hr' with rfl | hr'
              · exact hin
              · exact absurd ⟨r', hr', hin⟩ hi
            · exact fun hin => ⟨r, List.mem_cons_self, hin⟩
          rw [hpages₁]
          unfold bumped
          rw [if_neg hi]
          by_cases hin : InBytes (index * regionSize + r.1 <<< pageBits)
              ((r.2 - r.1) <<< pageBits) i
          · rw [if_pos hin, if_pos (hiff.2 hin)]
          · rw [if_neg hin, if_neg fun h => hin (hiff.1 h)]

theorem inRanges_iff {index : ℕ} {bits : RegionBits} {i : ℕ} :
    InRanges index bits.ranges i ↔ InMask index bits i := by
  constructor
  · rintro ⟨r, hr, hle, hlt⟩
    obtain ⟨-, -, hset⟩ := Runs.mem_runs hr
    exact ⟨by omega, hset _ (by omega) (by omega)⟩
  · rintro ⟨hle, hset⟩
    obtain ⟨r, hr, hge, hlt⟩ := Runs.exists_run (RegionBits.get_lt hset) hset
    exact ⟨r, hr, by omega, by omega⟩

theorem updateRanges_mask {index : ℕ} {bits : RegionBits} (hs : s.Synced)
    (hall : ∀ i, InMask index bits i → Allows track isRead (s.cachedPages i)) :
    ∃ s', updateRanges track isRead s (index * regionSize) bits.ranges = .ok s' ∧ s'.Synced ∧
      s'.cachedPages = bumped track isRead (InMask index bits) s.cachedPages := by
  obtain ⟨s', heq, hsynced, hpages⟩ := updateRanges_spec hs
    (fun r hr => (Runs.mem_runs hr).1) Runs.runs_pairwise
    (fun i hi => hall i (inRanges_iff.1 hi))
  exact ⟨s', heq, hsynced, hpages.trans (bumped_congr (fun i => inRanges_iff) _)⟩

theorem RegionBits.get_between {bits : RegionBits} {i : ℕ} (hi : bits.get i = true) :
    bits.firstRange.1 ≤ i ∧ i < bits.lastRange.2 := by
  constructor
  · unfold RegionBits.firstRange
    rcases Runs.firstRun_spec (f := bits.get) (Nat.zero_le numPagesPerRegion) with hrun | ⟨-, hnone⟩
    · by_contra hlt
      have hclear := hrun.before i (Nat.zero_le i) (Nat.not_le.1 hlt)
      rw [hi] at hclear
      cases hclear
    · have hclear := hnone i (Nat.zero_le i) (RegionBits.get_lt hi)
      rw [hi] at hclear
      cases hclear
  · obtain ⟨-, hbehind, -⟩ := Runs.findLast_spec (f := bits.get) true numPagesPerRegion
    by_contra hlt
    have hclear := hbehind i (Nat.not_lt.1 hlt) (RegionBits.get_lt hi)
    rw [hi] at hclear
    cases hclear

/-- A mask whose first run is also the last has a run. -/
theorem RegionBits.isRun_of_eq {bits : RegionBits} (h : bits.firstRange.2 = bits.lastRange.2) :
    Runs.IsRun bits.get numPagesPerRegion 0 bits.firstRange := by
  rcases Runs.firstRun_spec (f := bits.get) (Nat.zero_le numPagesPerRegion) with
    hrun | ⟨hnone, hclear⟩
  · exact hrun
  · exfalso
    have hlast := (Runs.findLast_spec (f := bits.get) true numPagesPerRegion).2.2
    have hend : Runs.findLast bits.get true numPagesPerRegion = numPagesPerRegion := by
      unfold RegionBits.firstRange RegionBits.lastRange Runs.lastRun at h
      rw [hnone] at h
      exact h.symm
    rw [hend] at hlast
    have hset := hlast (by decide)
    rw [hclear _ (Nat.zero_le _) (by decide)] at hset
    cases hset

theorem updatePageWatchersForRegion_isLoop (track isRead : Bool) (s : PageManager) (index : ℕ)
    (bits : RegionBits) :
    IsLoop track isRead (InMask index bits) s
      (updatePageWatchersForRegion track isRead s (index * regionSize) bits) := by
  unfold updatePageWatchersForRegion
  simp only
  split
  · next heq =>
      -- the run that is first is also the last, so it is the mask
      have hrun := RegionBits.isRun_of_eq heq
      obtain ⟨mask, n, page, hresult, hiff⟩ := updatePageWatchers_isLoop track isRead s
        (index * regionSize + bits.firstRange.1 <<< pageBits)
        ((bits.firstRange.2 - bits.firstRange.1) <<< pageBits)
      refine ⟨mask, n, page, hresult, fun i => (hiff i).trans ?_⟩
      rw [inBytes_range hrun.lt]
      constructor
      · rintro ⟨hle, hlt⟩
        exact ⟨by omega, hrun.set _ (by omega) (by omega)⟩
      · rintro ⟨hle, hset⟩
        have := RegionBits.get_between hset
        omega
  · rw [regionSize_shiftRight, if_neg (not_not.2 (Nat.mul_mod_left index numPagesPerRegion))]
    refine ⟨_, _, _, rfl, fun i => ?_⟩
    constructor
    · rintro ⟨⟨hle, -⟩, hset⟩
      exact ⟨by omega, hset⟩
    · rintro ⟨hle, hset⟩
      have := RegionBits.get_between hset
      exact ⟨by omega, hset⟩

end OrbitConsole.VideoCore
