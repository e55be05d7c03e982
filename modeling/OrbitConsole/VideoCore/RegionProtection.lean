import OrbitConsole.VideoCore.MemoryTrackerSpec
import OrbitConsole.VideoCore.PageManagerSpec

/-!
# Watchers of modified pages

A page that the CPU did not modify has a write watcher. A page that the GPU
modified has a read watcher, if readbacks are precise.
-/

namespace OrbitConsole.VideoCore

open PageManager

variable {s s' : PageManager} {track isRead : Bool} {p p' : Pending} {page : ℕ}
  {mask : ℕ → Bool}

/-! ### The counters without the protection -/

/-- The message of the assertion that a watcher is there to remove. -/
def notEnough : String := "Not enough watchers"

theorem releasePending_counts (s : PageManager) (p : Pending) :
    (∃ s' p', s.releasePending p = .ok (s', p') ∧ s'.cachedPages = s.cachedPages) ∨
      ∃ e, s.releasePending p = .error e ∧ e ≠ notEnough := by
  unfold releasePending protect
  split
  · split
    · exact .inr ⟨_, rfl, by decide⟩
    · exact .inl ⟨_, _, rfl, rfl⟩
  · exact .inl ⟨s, p, rfl, rfl⟩

theorem protectPage_counts (need : Bool) (perms : MemoryPermission) (page : ℕ) (s : PageManager)
    (p : Pending) :
    (∃ s' p', protectPage need perms page s p = .ok (s', p') ∧
        s'.cachedPages = s.cachedPages) ∨
      ∃ e, protectPage need perms page s p = .error e ∧ e ≠ notEnough := by
  unfold protectPage
  by_cases hperms : perms ≠ p.perms
  · rw [if_pos hperms]
    rcases releasePending_counts s p with ⟨s', p', heq, hpages⟩ | ⟨e, heq, he⟩
    · rw [heq]
      left
      cases need
      · exact ⟨_, _, rfl, hpages⟩
      · exact ⟨_, _, rfl, hpages⟩
    · rw [heq]
      exact .inr ⟨e, rfl, he⟩
  · rw [if_neg hperms]
    left
    split
    · cases need
      · exact ⟨_, _, rfl, rfl⟩
      · exact ⟨_, _, rfl, rfl⟩
    · cases need
      · exact ⟨_, _, rfl, rfl⟩
      · exact ⟨_, _, rfl, rfl⟩

theorem updatePage_counts {update : Bool}
    (hcan : update = true → (s.cachedPages page).CanBump track isRead) :
    (∃ s' p', s.updatePage track isRead update page p = .ok (s', p') ∧
        s'.cachedPages = Function.update s.cachedPages page
          (stepped track isRead update (s.cachedPages page))) ∨
      ∃ e, s.updatePage track isRead update page p = .error e ∧ e ≠ notEnough := by
  rw [updatePage_eq hcan]
  exact protectPage_counts _ _ _ _ _

theorem updateLoop_counts (track isRead : Bool) (mask : ℕ → Bool) (n : ℕ)
    (hall : ∀ i, page ≤ i → i < page + n → mask i = true →
      (s.cachedPages i).CanBump track isRead) :
    (∃ s', updateLoop track isRead mask n page s p = .ok s' ∧
        s'.cachedPages =
          bumped track isRead (fun i => (page ≤ i ∧ i < page + n) ∧ mask i = true)
            s.cachedPages) ∨
      ∃ e, updateLoop track isRead mask n page s p = .error e ∧ e ≠ notEnough := by
  induction n generalizing page s p with
  | zero =>
      unfold updateLoop
      rcases releasePending_counts s p with ⟨s', p', heq, hpages⟩ | ⟨e, heq, he⟩
      · rw [heq]
        exact .inl ⟨s', rfl, hpages.trans (bumped_zero track isRead mask page _).symm⟩
      · rw [heq]
        exact .inr ⟨e, rfl, he⟩
  | succ n ih =>
      unfold updateLoop
      rcases updatePage_counts (p := p) (hall page (Nat.le_refl page) (by omega)) with
        ⟨s₁, p₁, heq, hpages⟩ | ⟨e, heq, he⟩
      · rw [heq]
        have hother : ∀ i, i ≠ page → s₁.cachedPages i = s.cachedPages i := by
          intro i hi
          rw [hpages, Function.update_of_ne hi]
        have hrest : ∀ i, page + 1 ≤ i → i < page + 1 + n → mask i = true →
            (s₁.cachedPages i).CanBump track isRead := by
          intro i hle hlt hset
          rw [hother i (by omega)]
          exact hall i (by omega) (by omega) hset
        rcases ih (p := p₁) hrest with ⟨s', heq', hpages'⟩ | herror
        · refine .inl ⟨s', heq', hpages'.trans ?_⟩
          exact bumped_succ hpages
        · exact .inr herror
      · rw [heq]
        exact .inr ⟨e, rfl, he⟩

theorem IsLoop.counts {sel : ℕ → Prop} [DecidablePred sel] {result : Except String PageManager}
    (h : IsLoop track isRead sel s result)
    (hall : ∀ i, sel i → (s.cachedPages i).CanBump track isRead) :
    (∃ s', result = .ok s' ∧ s'.cachedPages = bumped track isRead sel s.cachedPages) ∨
      ∃ e, result = .error e ∧ e ≠ notEnough := by
  obtain ⟨mask, n, page, rfl, hiff⟩ := h
  rcases updateLoop_counts (p := start s page) track isRead mask n
    (fun i hle hlt hset => hall i ((hiff i).1 ⟨⟨hle, hlt⟩, hset⟩)) with
    ⟨s', heq, hpages⟩ | herror
  · exact .inl ⟨s', heq, hpages.trans (bumped_congr hiff _)⟩
  · exact .inr herror

/-! ### One region -/

theorem trackerHigherPageSize_eq : trackerHigherPageSize = regionSize := by decide

namespace RegionManager

variable {mode : GpuReadbacksMode} {tracker tracker' : PageManager} {index : ℕ}
  {m : RegionManager}

/-- The pages that the page manager was told not to watch. -/
def shadow (m : RegionManager) (isRead : Bool) : RegionBits :=
  if isRead then m.readable else m.writeable

/-- The pages that it has to be told not to watch. -/
def target (m : RegionManager) (isRead : Bool) : RegionBits :=
  if isRead then ~~~m.gpu else m.cpu

def told (m : RegionManager) (isRead : Bool) : RegionManager :=
  if isRead then { m with readable := ~~~m.gpu } else { m with writeable := m.cpu }

theorem shadow_told (isRead kind : Bool) :
    (m.told isRead).shadow kind = if kind = isRead then m.target isRead else m.shadow kind := by
  cases isRead <;> cases kind <;> rfl

theorem told_eq (h : m.target isRead = m.shadow isRead) : m.told isRead = m := by
  cases m
  cases isRead
  · exact congrArg (mk _ _ _ · _) h
  · exact congrArg (mk _ _ _ _ ·) h

def Watched (tracker : PageManager) (index : ℕ) (m : RegionManager) : Prop :=
  ∀ isRead i, i / numPagesPerRegion = index →
    (tracker.cachedPages i).count isRead =
      if (m.shadow isRead).get (i % numPagesPerRegion) then 0 else 1

def SameElsewhere (index : ℕ) (tracker tracker' : PageManager) : Prop :=
  ∀ isRead i, i / numPagesPerRegion ≠ index →
    (tracker'.cachedPages i).count isRead = (tracker.cachedPages i).count isRead

theorem inMask_iff {bits : RegionBits} {i : ℕ} :
    InMask index bits i ↔
      i / numPagesPerRegion = index ∧ bits.get (i % numPagesPerRegion) = true := by
  unfold InMask
  have hmod := Nat.div_add_mod' i numPagesPerRegion
  constructor
  · rintro ⟨hle, hset⟩
    have hlt := RegionBits.get_lt hset
    have hi : i = i - index * numPagesPerRegion + index * numPagesPerRegion := by omega
    have hdiv : i / numPagesPerRegion = index := by
      rw [hi, Nat.add_mul_div_right _ _ (by decide), Nat.div_eq_of_lt hlt, Nat.zero_add]
    refine ⟨hdiv, ?_⟩
    rw [hdiv] at hmod
    rwa [show i % numPagesPerRegion = i - index * numPagesPerRegion by omega]
  · rintro ⟨hdiv, hset⟩
    rw [hdiv] at hmod
    refine ⟨by omega, ?_⟩
    rwa [show i - index * numPagesPerRegion = i % numPagesPerRegion by omega]

theorem updateProtection_watched (track isRead : Bool)
    (haddr : m.cpuAddr = index * trackerHigherPageSize)
    (hwatched : Watched tracker index m)
    (hdir : ∀ j, (m.target isRead ^^^ m.shadow isRead).get j = true →
      (m.shadow isRead).get j = track) :
    (∃ tracker', m.updateProtection track isRead tracker = .ok (m.told isRead, tracker') ∧
        Watched tracker' index (m.told isRead) ∧ SameElsewhere index tracker tracker') ∨
      ∃ e, m.updateProtection track isRead tracker = .error e ∧ e ≠ notEnough := by
  have hunfold : m.updateProtection track isRead tracker =
      if (m.target isRead ^^^ m.shadow isRead).any = false then .ok (m, tracker)
      else (do
        let tracker ← tracker.updatePageWatchersForRegion track isRead m.cpuAddr
          (m.target isRead ^^^ m.shadow isRead)
        .ok (m.told isRead, tracker)) := by
    unfold updateProtection told target shadow
    cases isRead <;> rfl
  rw [hunfold]
  split
  · next hnone =>
      have heq : m.target isRead = m.shadow isRead := by
        rw [← BitVec.xor_eq_zero_iff]
        unfold RegionBits.any at hnone
        exact bne_eq_false_iff_eq.1 hnone
      rw [told_eq heq]
      exact .inl ⟨tracker, rfl, hwatched, fun _ _ _ => rfl⟩
  · rw [haddr, trackerHigherPageSize_eq]
    -- every page of the mask can be changed
    have hcan : ∀ i, InMask index (m.target isRead ^^^ m.shadow isRead) i →
        (tracker.cachedPages i).CanBump track isRead := by
      intro i hi
      obtain ⟨hdiv, hset⟩ := inMask_iff.1 hi
      have hcount := hwatched isRead i hdiv
      rw [hdir _ hset] at hcount
      unfold PageState.CanBump PageState.maxCount
      rw [hcount]
      cases track <;> cases isRead <;> decide
    rcases (updatePageWatchersForRegion_isLoop track isRead tracker index
      (m.target isRead ^^^ m.shadow isRead)).counts hcan with ⟨tracker', heq, hpages⟩ | ⟨e, heq, he⟩
    · rw [heq]
      refine .inl ⟨tracker', rfl, ?_, ?_⟩
      · intro kind i hdiv
        have hcount := hwatched kind i hdiv
        rw [hpages, shadow_told]
        unfold bumped
        by_cases hset : (m.target isRead ^^^ m.shadow isRead).get (i % numPagesPerRegion) = true
        · rw [if_pos (inMask_iff.2 ⟨hdiv, hset⟩)]
          by_cases hkind : kind = isRead
          · subst hkind
            have hshadow := hdir _ hset
            rw [RegionBits.get_xor, hshadow] at hset
            rw [if_pos rfl, PageState.count_bump, hcount, hshadow]
            cases track
            · rw [Bool.xor_false] at hset
              rw [hset]
              rfl
            · rw [Bool.xor_true, Bool.not_eq_true'] at hset
              rw [hset]
              rfl
          · rw [if_neg hkind, ← hcount]
            exact PageState.count_bump_ne (Bool.eq_not_of_ne (Ne.symm hkind)) _
        · rw [if_neg fun h => hset (inMask_iff.1 h).2, hcount]
          by_cases hkind : kind = isRead
          · subst hkind
            rw [if_pos rfl]
            rw [RegionBits.get_xor, Bool.not_eq_true] at hset
            have hsame : ∀ a b : Bool, (a ^^ b) = false → b = a := by decide
            rw [hsame _ _ hset]
          · rw [if_neg hkind]
      · intro kind i hdiv
        rw [hpages]
        unfold bumped
        rw [if_neg fun h => hdiv (inMask_iff.1 h).1]
    · rw [heq]
      exact .inr ⟨e, rfl, he⟩

end RegionManager

end OrbitConsole.VideoCore
