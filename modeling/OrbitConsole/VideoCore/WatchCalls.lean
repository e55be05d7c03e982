import Mathlib.Algebra.BigOperators.Group.List.Basic
import OrbitConsole.VideoCore.PageManagerSpec

/-!
# Sequences of calls to the page manager

After any sequence of calls that keeps the watchers of each page within their
counters, a page has its outstanding watchers, and on the host what they say.
-/

namespace OrbitConsole.VideoCore

open PageManager

inductive WatchCall
  | pages (track : Bool) (addr size : ℕ)
  | region (track isRead : Bool) (baseAddr : ℕ) (mask : RegionBits)

namespace WatchCall

/-- The entries of `cached_pages`. -/
def numAddressPages : ℕ := 2 ^ 28

/-- `UpdatePageWatchersForRegion` leaves it to `UpdatePageWatchers`. -/
def Contiguous (mask : RegionBits) : Prop := mask.firstRange.2 = mask.lastRange.2

instance (mask : RegionBits) : Decidable (Contiguous mask) := inferInstanceAs (Decidable (_ = _))

def firstAddr (baseAddr : ℕ) (mask : RegionBits) : ℕ := baseAddr + mask.firstRange.1 <<< pageBits

def firstSize (mask : RegionBits) : ℕ := (mask.firstRange.2 - mask.firstRange.1) <<< pageBits

/-- The end of the pages a range of bytes indexes, with the page whose permissions are read
first. -/
def indexEnd (addr size : ℕ) : ℕ := max (addr >>> pageBits + 1) (divCeil (addr + size) pageSize)

/-- Where the indices into `cached_pages` end. -/
def pagesEnd : WatchCall → ℕ
  | pages _ addr size => indexEnd addr size
  | region _ _ baseAddr mask =>
      if Contiguous mask then indexEnd (firstAddr baseAddr mask) (firstSize mask)
      else max (baseAddr >>> pageBits + mask.firstRange.1 + 1)
        (baseAddr >>> pageBits + mask.lastRange.2)

/-- A call. The array is indexed unchecked: behind its end the behaviour is undefined. -/
def run (call : WatchCall) (s : PageManager) : Except String PageManager :=
  if numAddressPages < call.pagesEnd then .error "cached_pages"
  else match call with
  | pages track addr size => updatePageWatchers track false s addr size
  | region track isRead baseAddr mask =>
      updatePageWatchersForRegion track isRead s baseAddr mask

def track : WatchCall → Bool
  | pages track _ _ => track
  | region track _ _ _ => track

def isRead : WatchCall → Bool
  | pages _ _ _ => false
  | region _ isRead _ _ => isRead

def Selects (call : WatchCall) (i : ℕ) : Prop :=
  match call with
  | pages _ addr size => InBytes addr size i
  | region _ _ baseAddr mask =>
      if Contiguous mask then InBytes (firstAddr baseAddr mask) (firstSize mask) i
      else InMask (baseAddr / regionSize) mask i

instance (call : WatchCall) : DecidablePred call.Selects :=
  fun _ => match call with
    | pages _ _ _ => inferInstanceAs (Decidable (InBytes _ _ _))
    | region _ _ _ _ => inferInstanceAs (Decidable (if Contiguous _ then InBytes _ _ _ else InMask _ _ _))

/-- The pages have entries, and a mask of several runs is for a region. -/
def Admitted (call : WatchCall) : Prop :=
  call.pagesEnd ≤ numAddressPages ∧
    match call with
    | pages _ _ _ => True
    | region _ _ baseAddr mask => ¬ Contiguous mask → baseAddr % regionSize = 0

def delta (call : WatchCall) (isRead : Bool) (i : ℕ) : ℤ :=
  if call.isRead = isRead ∧ call.Selects i then (if call.track then 1 else -1) else 0

def runAll : List WatchCall → PageManager → Except String PageManager
  | [], s => .ok s
  | call :: rest, s => do
      let s ← call.run s
      runAll rest s

/-- The watchers of a page that were added and not removed. -/
def outstanding (calls : List WatchCall) (isRead : Bool) (i : ℕ) : ℤ :=
  (calls.map fun call => call.delta isRead i).sum

/-- After each call, every page has between 0 and 127 outstanding write watchers and 0 or 1
outstanding read watchers. -/
def Bounded (calls : List WatchCall) : Prop :=
  ∀ before, before <+: calls → ∀ i,
    (0 ≤ outstanding before false i ∧ outstanding before false i ≤ 127) ∧
      0 ≤ outstanding before true i ∧ outstanding before true i ≤ 1

/-- No call leaves a page with a read watcher but no write watcher. -/
def NeverWriteOnly (calls : List WatchCall) : Prop :=
  ∀ before, before <+: calls → ∀ i,
    ¬ (0 < outstanding before true i ∧ outstanding before false i = 0)

def Counts (s : PageManager) (calls : List WatchCall) : Prop :=
  ∀ isRead i, ((s.cachedPages i).count isRead : ℤ) = outstanding calls isRead i

variable {s s' : PageManager}

theorem updatePageWatchersForRegion_contiguous {track isRead : Bool} {baseAddr : ℕ}
    {mask : RegionBits} (h : Contiguous mask) :
    updatePageWatchersForRegion track isRead s baseAddr mask =
      updatePageWatchers track isRead s (firstAddr baseAddr mask) (firstSize mask) :=
  if_pos h

/-- The only run. -/
theorem ranges_of_contiguous {mask : RegionBits} (h : Contiguous mask) :
    mask.ranges = [mask.firstRange] := by
  have hlt := (RegionBits.isRun_of_eq h).lt
  have hle := (RegionBits.isRun_of_eq h).le
  have hne : Runs.firstRun mask.get numPagesPerRegion 0 ≠ (numPagesPerRegion, numPagesPerRegion) := by
    intro hnone
    have hnone : mask.firstRange = (numPagesPerRegion, numPagesPerRegion) := hnone
    rw [hnone] at hlt
    exact Nat.lt_irrefl _ hlt
  have hrest : Runs.runsFrom mask.get numPagesPerRegion 1023 mask.firstRange.2 = [] := by
    refine List.eq_nil_iff_forall_not_mem.2 fun r hr => ?_
    -- a second run would have a bit behind the last run
    have hn : numPagesPerRegion ≤ mask.firstRange.2 + 1023 := by
      unfold numPagesPerRegion
      omega
    obtain ⟨hstart, hlt', -, hset⟩ := (Runs.runsFrom_spec hle hn).1 r hr
    have hlast : mask.firstRange.2 = mask.lastRange.2 := h
    have := (RegionBits.get_between (hset r.1 (Nat.le_refl _) hlt')).2
    omega
  change (if Runs.firstRun mask.get numPagesPerRegion 0 = (numPagesPerRegion, numPagesPerRegion)
    then [] else _ :: Runs.runsFrom mask.get numPagesPerRegion 1023 mask.firstRange.2) = _
  rw [if_neg hne, hrest]
  rfl

theorem run_spec {call : WatchCall} (hs : s.Synced) (hadmitted : call.Admitted)
    (hall : ∀ i, call.Selects i → Allows call.track call.isRead (s.cachedPages i)) :
    ∃ s', call.run s = .ok s' ∧ s'.Synced ∧
      s'.cachedPages = bumped call.track call.isRead call.Selects s.cachedPages := by
  obtain ⟨hend, hregion⟩ := hadmitted
  unfold run
  rw [if_neg (Nat.not_lt.2 hend)]
  cases call with
  | pages track addr size =>
      exact (updatePageWatchers_isLoop track false s addr size).spec hs hall
  | region track isRead baseAddr mask =>
      dsimp only at hregion ⊢
      by_cases hmask : Contiguous mask
      · have hsel : ∀ i, (region track isRead baseAddr mask).Selects i ↔
            InBytes (firstAddr baseAddr mask) (firstSize mask) i := fun i => by
          simp only [Selects, if_pos hmask]
        rw [updatePageWatchersForRegion_contiguous hmask]
        obtain ⟨s', heq, hs', hpages⟩ := (updatePageWatchers_isLoop track isRead s
          (firstAddr baseAddr mask) (firstSize mask)).spec hs fun i hi => hall i ((hsel i).2 hi)
        exact ⟨s', heq, hs', hpages.trans (bumped_congr (fun i => (hsel i).symm) _)⟩
      · have hsel : ∀ i, (region track isRead baseAddr mask).Selects i ↔
            InMask (baseAddr / regionSize) mask i := fun i => by
          simp only [Selects, if_neg hmask]
        obtain ⟨s', heq, hs', hpages⟩ := (updatePageWatchersForRegion_isLoop track isRead s
          (baseAddr / regionSize) mask).spec hs fun i hi => hall i ((hsel i).2 hi)
        rw [Nat.div_mul_cancel (Nat.dvd_of_mod_eq_zero (hregion hmask))] at heq
        exact ⟨s', heq, hs', hpages.trans (bumped_congr (fun i => (hsel i).symm) _)⟩

theorem outstanding_append (calls : List WatchCall) (call : WatchCall) (isRead : Bool) (i : ℕ) :
    outstanding (calls ++ [call]) isRead i = outstanding calls isRead i + call.delta isRead i := by
  unfold outstanding
  rw [List.map_append, List.sum_append]
  simp

theorem allows_of_bounded {calls : List WatchCall} {call : WatchCall} (hcounts : Counts s calls)
    (hbounded : Bounded (calls ++ [call])) (hnever : NeverWriteOnly (calls ++ [call])) {i : ℕ}
    (hsel : call.Selects i) : Allows call.track call.isRead (s.cachedPages i) := by
  obtain ⟨⟨hw, hw'⟩, hr, hr'⟩ := hbounded _ List.prefix_rfl i
  have hne := hnever _ List.prefix_rfl i
  have hread : ((s.cachedPages i).numReadWatchers : ℤ) = _ := hcounts true i
  have hwrite : ((s.cachedPages i).numWriteWatchers : ℤ) = _ := hcounts false i
  rw [outstanding_append, ← hread] at hr hr' hne
  rw [outstanding_append, ← hwrite] at hw hw' hne
  unfold delta at hw hw' hr hr' hne
  unfold Allows PageState.CanBump PageState.WriteOnly PageState.bump PageState.maxCount
    PageState.count
  cases hkind : call.isRead <;> cases htrack : call.track <;>
    simp only [hkind, htrack, hsel, Bool.false_eq_true, Bool.true_eq_false, if_false, if_true,
      and_true, and_false, not_false_eq_true, reduceCtorEq] at hw hw' hr hr' hne ⊢ <;> omega

theorem counts_bumped {calls : List WatchCall} {call : WatchCall} (hcounts : Counts s calls)
    (hall : ∀ i, call.Selects i → Allows call.track call.isRead (s.cachedPages i))
    (hpages : s'.cachedPages = bumped call.track call.isRead call.Selects s.cachedPages) :
    Counts s' (calls ++ [call]) := by
  intro isRead i
  rw [hpages, outstanding_append, ← hcounts]
  unfold bumped delta
  by_cases hsel : call.Selects i
  · rw [if_pos hsel]
    by_cases hkind : call.isRead = isRead
    · subst hkind
      rw [if_pos ⟨rfl, hsel⟩, PageState.count_bump]
      have hcan := (hall i hsel).1
      unfold PageState.CanBump at hcan
      cases htrack : call.track
      · rw [htrack, if_neg Bool.false_ne_true] at hcan
        rw [if_neg Bool.false_ne_true, if_neg Bool.false_ne_true]
        omega
      · rw [if_pos rfl, if_pos rfl]
        omega
    · rw [if_neg (fun h => hkind h.1), Int.add_zero,
        PageState.count_bump_ne (Bool.eq_not_of_ne hkind)]
  · rw [if_neg hsel, if_neg (fun h => hsel h.2), Int.add_zero]

theorem runAll_spec {calls rest : List WatchCall} (hs : s.Synced) (hcounts : Counts s calls)
    (hadmitted : ∀ call ∈ rest, call.Admitted) (hbounded : Bounded (calls ++ rest))
    (hnever : NeverWriteOnly (calls ++ rest)) :
    ∃ s', runAll rest s = .ok s' ∧ s'.Synced ∧ Counts s' (calls ++ rest) := by
  induction rest generalizing calls s with
  | nil => exact ⟨s, rfl, hs, by rwa [List.append_nil]⟩
  | cons call rest ih =>
      have happend : calls ++ call :: rest = (calls ++ [call]) ++ rest := by simp
      have hprefix : calls ++ [call] <+: calls ++ call :: rest := by
        rw [happend]
        exact List.prefix_append _ _
      have hall := fun i => allows_of_bounded (i := i) hcounts
        (fun before hb => hbounded before (hb.trans hprefix))
        (fun before hb => hnever before (hb.trans hprefix))
      obtain ⟨s₁, heq₁, hs₁, hpages⟩ := run_spec hs (hadmitted call List.mem_cons_self) hall
      rw [happend] at hbounded hnever ⊢
      obtain ⟨s₂, heq₂, hs₂, hcounts₂⟩ := ih hs₁ (counts_bumped hcounts hall hpages)
        (fun c hc => hadmitted c (List.mem_cons_of_mem call hc)) hbounded hnever
      refine ⟨s₂, ?_, hs₂, hcounts₂⟩
      unfold runAll
      rw [heq₁]
      exact heq₂

theorem synced_init : init.Synced := fun _ => rfl

theorem prefix_singleton {call : WatchCall} {before : List WatchCall} (h : before <+: [call]) :
    before = [] ∨ before = [call] := by
  rcases List.prefix_cons_iff.1 h with rfl | ⟨rest, rfl, hrest⟩
  · exact .inl rfl
  · rw [List.prefix_nil.1 hrest]
    exact .inr rfl

theorem bounded_singleton {call : WatchCall} (htrack : call.track = true) :
    Bounded [call] := by
  intro before hb i
  have hdelta : ∀ isRead, 0 ≤ call.delta isRead i ∧ call.delta isRead i ≤ 1 := by
    intro isRead
    unfold delta
    rw [htrack]
    split <;> simp
  rcases prefix_singleton hb with rfl | rfl
  · have hsum : ∀ isRead, outstanding [] isRead i = 0 := fun isRead => rfl
    rw [hsum, hsum]
    decide
  · have hsum : ∀ isRead, outstanding [call] isRead i = call.delta isRead i :=
      fun isRead => Int.add_zero _
    rw [hsum, hsum]
    have hwrite := hdelta false
    have hread := hdelta true
    exact ⟨⟨hwrite.1, by omega⟩, hread.1, hread.2⟩

/-- The first and the third page of a region. -/
def twoPages : RegionBits := RegionBits.span 0 1 ||| RegionBits.span 2 3

def writeWatcher : WatchCall := region true false regionSize twoPages

/-- A call that adds a read watcher to a page without a write watcher. -/
def readWatcher : WatchCall := region true true 0 (RegionBits.span 0 1)

end WatchCall

end OrbitConsole.VideoCore
