import OrbitConsole.VideoCore.CommandCopies

/-!
# Copies stay intact while they run

A task that is pending keeps its words as long as no `GpuIdle` interrupt lowers the
submission lock under it: its spans are below the offset where the next copy goes, or
the lock is up.
-/

namespace OrbitConsole.VideoCore

namespace CommandCopies

open Transition

/-! ## Copying -/

section Copying

variable {b : CopyBuffer} {words : List ℕ} {span : Span} {expected : List ℕ}

structure CopyBuffer.Valid (b : CopyBuffer) : Prop where
  within : b.offset ≤ b.data.length
  size : b.data.length ≤ b.capacity
  moved : b.moved = false

structure CopyBuffer.Holds (b : CopyBuffer) (span : Span) (words : List ℕ) : Prop where
  length : span.length = words.length
  within : span.start + span.length ≤ b.data.length
  words : ∀ i < words.length, b.data[span.start + i]? = words[i]?

def CopyBuffer.put (b : CopyBuffer) (words : List ℕ) : CopyBuffer :=
  (b.grow words.length).copy words

theorem length_put (h : b.Valid) (words : List ℕ) :
    (b.put words).data.length = max b.data.length (b.offset + words.length) := by
  have := h.within
  simp only [CopyBuffer.put, CopyBuffer.grow, CopyBuffer.copy, List.length_append,
    List.length_take, List.length_drop, List.length_replicate]
  omega

theorem getElem?_put_of_lt (h : b.Valid) {j : ℕ} (hj : j < b.offset) :
    (b.put words).data[j]? = b.data[j]? := by
  have hwithin := h.within
  simp only [CopyBuffer.put, CopyBuffer.grow, CopyBuffer.copy]
  rw [List.append_assoc, List.getElem?_append_left, List.getElem?_take_of_lt hj,
    List.getElem?_append_left (by omega)]
  rw [List.length_take, List.length_append]
  omega

theorem getElem?_put_self (h : b.Valid) {i : ℕ} (hi : i < words.length) :
    (b.put words).data[b.offset + i]? = words[i]? := by
  have hwithin := h.within
  have hlen : ((b.data ++ List.replicate (b.offset + words.length - b.data.length) 0).take
      b.offset).length = b.offset := by
    rw [List.length_take, List.length_append]
    omega
  simp only [CopyBuffer.put, CopyBuffer.grow, CopyBuffer.copy]
  rw [List.append_assoc, List.getElem?_append_right (by omega), hlen, Nat.add_sub_cancel_left,
    List.getElem?_append_left hi]

theorem CopyBuffer.Valid.put (h : b.Valid) (hfits : b.offset + words.length ≤ b.capacity) :
    (b.put words).Valid where
  within := by
    rw [length_put h]
    exact Nat.le_max_right _ _
  size := by
    rw [length_put h]
    exact Nat.max_le.2 ⟨h.size, hfits⟩
  moved := by
    simp [CopyBuffer.put, CopyBuffer.grow, CopyBuffer.copy, h.moved, hfits]

theorem CopyBuffer.Valid.rewind (h : b.Valid) : ({ b with offset := 0 } : CopyBuffer).Valid :=
  ⟨Nat.zero_le _, h.size, h.moved⟩

theorem CopyBuffer.Holds.put (h : b.Holds span expected) (hb : b.Valid)
    (hbelow : span.start + span.length ≤ b.offset) : (b.put words).Holds span expected where
  length := h.length
  within := by
    rw [length_put hb]
    exact Nat.le_trans h.within (Nat.le_max_left _ _)
  words := fun i hi => by
    have hlength := h.length
    rw [getElem?_put_of_lt hb (by omega)]
    exact h.words i hi

theorem holds_put (h : b.Valid) (words : List ℕ) :
    (b.put words).Holds ⟨b.offset, words.length⟩ words where
  length := rfl
  within := by
    rw [length_put h]
    exact Nat.le_max_right _ _
  words := fun _ hi => getElem?_put_self h hi

end Copying

/-! ## Where the threads stand -/

/-- The guest thread does not copy and does not look at `num_submits`. -/
def GuestPc.Rests : GuestPc → Prop
  | .outside => True
  | .waitSubmit _ => True
  | .waitDone => True
  | .submitDone => True
  | _ => False

/-- A task is in the queue and not in `num_submits`. -/
def GuestPc.uncounted : GuestPc → ℕ
  | .count _ => 1
  | _ => 0

/-- A task is in `num_submits` and not in the queue any more. -/
def GpuPc.popped : GpuPc → ℕ
  | .decrement => 1
  | _ => 0

/-- Inside the work loop. -/
def GpuPc.Works : GpuPc → Prop
  | .front => True
  | .running => True
  | .pop => True
  | .decrement => True
  | _ => False

namespace State

variable {s s' : State} {initSequence : List ℕ}

/-! ## The invariant -/

/-- The task that the guest thread is about to put into the queue. -/
def arriving (s : State) : List GfxTask :=
  match s.guest with
  | .emplace task _ => [task]
  | _ => []

def pending (s : State) : List GfxTask := s.submits ++ s.arriving

/-- The next copy goes above every pending task. -/
def Below (s : State) : Prop :=
  ∀ t ∈ s.pending, t.dcb.start + t.dcb.length ≤ s.dcbBuffer.offset ∧
    t.ccb.start + t.ccb.length ≤ s.ccbBuffer.offset

def Intact (s : State) : Prop :=
  ∀ t ∈ s.pending, s.dcbBuffer.Holds t.dcb t.dcbWords ∧ s.ccbBuffer.Holds t.ccb t.ccbWords

structure CopyInv (s : State) : Prop where
  fault : s.fault = none
  dcb : s.dcbBuffer.Valid
  ccb : s.ccbBuffer.Valid
  intact : s.Intact
  below : s.Below ∨ s.submissionLock = true
  locked : s.submissionLock = true → s.guest.Rests
  settled : s.guest = .submitDone → s.submissionLock = true ∨ s.submits = []
  counted : s.numSubmits + s.guest.uncounted = s.submits.length + s.gpu.popped
  busy : s.gpu.Works → s.numSubmits ≠ 0
  present : s.gpu = .running ∨ s.gpu = .pop → s.submits ≠ []
  reads : ∀ r ∈ s.reads,
    some r.value = (if r.ofCcb then r.task.ccbWords else r.task.dcbWords)[r.index]?
  waits : s.submissionLock = true → s.guest = .submitDone ∨ s.submitDone = true ∨
    s.numSubmits ≠ 0 ∨ s.gpu ≠ .waiting

/-- The copy that the guest thread is about to make fits the reserved space. -/
def Fits (initSequence : List ℕ) (s : State) (pairs : List (List ℕ × List ℕ)) : Prop :=
  if s.sendInitPacket then s.dcbBuffer.offset + initSequence.length ≤ s.dcbBuffer.capacity
  else ∀ p ∈ pairs.head?, s.dcbBuffer.offset + p.1.length ≤ s.dcbBuffer.capacity ∧
    s.ccbBuffer.offset + p.2.length ≤ s.ccbBuffer.capacity

/-- What is copied between two calls of `sceGnmSubmitDone` fits the reserved space. -/
def FitsCondition (initSequence : List ℕ) (s : State) : Action → Prop
  | .guest => ∀ pairs, s.guest = .submitting pairs → s.Fits initSequence pairs
  | _ => True

/-- The copies fit, and no `GpuIdle` interrupt finds the lock up while a submission is
counted. -/
def CopyCondition (initSequence : List ℕ) (s : State) (a : Action) : Prop :=
  s.FitsCondition initSequence a ∧
    (a = .gpu → s.gpu = .signal → s.submissionLock = true → s.numSubmits = 0)

theorem copyInv_start (gfxReservedSize : ℕ) : CopyInv (start gfxReservedSize) where
  fault := rfl
  dcb := ⟨Nat.le_refl 0, Nat.zero_le _, rfl⟩
  ccb := ⟨Nat.le_refl 0, Nat.zero_le _, rfl⟩
  intact := by simp [Intact, pending, start, arriving]
  below := .inl (by simp [Below, pending, start, arriving])
  locked := nofun
  settled := nofun
  counted := rfl
  busy := nofun
  present := by simp [start]
  reads := by simp [start]
  waits := nofun

/-! ## The guest thread -/

theorem CopyInv.guestFrame (h : CopyInv s) {g : GuestPc}
    (hlock : s.submissionLock = true → g.Rests ∧ (s.guest ≠ .submitDone))
    (harriving : ∀ t ∈ ({ s with guest := g } : State).arriving, t ∈ s.arriving)
    (hcount : g.uncounted = s.guest.uncounted)
    (hsettled : g = .submitDone → s.submissionLock = true ∨ s.submits = []) :
    CopyInv { s with guest := g } := by
  have hpending : ∀ t ∈ ({ s with guest := g } : State).pending, t ∈ s.pending := by
    intro t ht
    rcases List.mem_append.1 ht with ht | ht
    · exact List.mem_append_left _ ht
    · exact List.mem_append_right _ (harriving t ht)
  exact
    { h with
      intact := fun t ht => h.intact t (hpending t ht)
      below := h.below.imp_left fun hb t ht => hb t (hpending t ht)
      locked := fun hl => (hlock hl).1
      settled := hsettled
      counted := by
        dsimp only
        rw [hcount]
        exact h.counted
      waits := fun hl => .inr ((h.waits hl).resolve_left (hlock hl).2) }

theorem CopyInv.submitGfx (h : CopyInv s) {pairs pairs' : List (List ℕ × List ℕ)}
    (hguest : s.guest = .submitting pairs) {dcb ccb : List ℕ}
    (hdcb : s.dcbBuffer.offset + dcb.length ≤ s.dcbBuffer.capacity)
    (hccb : s.ccbBuffer.offset + ccb.length ≤ s.ccbBuffer.capacity) :
    CopyInv (s.submitGfx dcb ccb pairs') := by
  have hlock : s.submissionLock ≠ true := fun hl => by
    have hrests := h.locked hl
    rw [hguest] at hrests
    exact hrests
  have hbelow : s.Below := h.below.resolve_right hlock
  have hpending : s.pending = s.submits := by
    simp [pending, arriving, hguest]
  unfold State.submitGfx
  rw [if_neg (Nat.not_lt.2 hdcb), if_neg (Nat.not_lt.2 hccb)]
  refine ⟨h.fault, h.dcb.put hdcb, h.ccb.put hccb, fun t ht => ?_, .inl fun t ht => ?_,
    fun hl => absurd hl hlock, nofun, ?_, h.busy, h.present, h.reads,
    fun hl => absurd hl hlock⟩
  · rcases List.mem_append.1 ht with ht | ht
    · have ht' : t ∈ s.pending := hpending ▸ ht
      exact ⟨(h.intact t ht').1.put h.dcb (hbelow t ht').1,
        (h.intact t ht').2.put h.ccb (hbelow t ht').2⟩
    · obtain rfl := List.mem_singleton.1 ht
      exact ⟨holds_put h.dcb dcb, holds_put h.ccb ccb⟩
  · rcases List.mem_append.1 ht with ht | ht
    · have ht' : t ∈ s.pending := hpending ▸ ht
      exact ⟨Nat.le_trans (hbelow t ht').1 (Nat.le_add_right _ _),
        Nat.le_trans (hbelow t ht').2 (Nat.le_add_right _ _)⟩
    · obtain rfl := List.mem_singleton.1 ht
      exact ⟨Nat.le_refl _, Nat.le_refl _⟩
  · have hcounted := h.counted
    rw [hguest] at hcounted
    exact hcounted

theorem CopyInv.submits_eq_nil (h : CopyInv s) (hguest : s.guest.uncounted = 0)
    (hnum : s.numSubmits = 0) : s.submits = [] := by
  have hcounted := h.counted
  exact List.length_eq_zero_iff.1 (by omega)

theorem CopyInv.emplace (h : CopyInv s) {task : GfxTask} {pairs : List (List ℕ × List ℕ)}
    (hguest : s.guest = .emplace task pairs) :
    CopyInv { s with submits := s.submits ++ [task], guest := .count pairs } := by
  have hlock : s.submissionLock ≠ true := fun hl => by
    have hrests := h.locked hl
    rw [hguest] at hrests
    exact hrests
  have hpending : ({ s with submits := s.submits ++ [task], guest := .count pairs } :
      State).pending = s.pending := by
    simp [pending, arriving, hguest]
  exact
    { h with
      intact := fun t ht => h.intact t (hpending ▸ ht)
      below := h.below.imp_left fun hb t ht => hb t (hpending ▸ ht)
      locked := fun hl => absurd hl hlock
      settled := nofun
      counted := by
        have hcounted := h.counted
        rw [hguest] at hcounted
        simp only [GuestPc.uncounted, List.length_append, List.length_cons,
          List.length_nil] at hcounted ⊢
        omega
      present := fun _ => by simp
      waits := fun hl => absurd hl hlock }

theorem CopyInv.count (h : CopyInv s) {pairs : List (List ℕ × List ℕ)}
    (hguest : s.guest = .count pairs) :
    CopyInv { s with numSubmits := s.numSubmits + 1, guest := .submitting pairs } := by
  have hlock : s.submissionLock ≠ true := fun hl => by
    have hrests := h.locked hl
    rw [hguest] at hrests
    exact hrests
  have hpending : ({ s with numSubmits := s.numSubmits + 1, guest := .submitting pairs } :
      State).pending = s.pending := by
    simp [pending, arriving, hguest]
  exact
    { h with
      intact := fun t ht => h.intact t (hpending ▸ ht)
      below := h.below.imp_left fun hb t ht => hb t (hpending ▸ ht)
      locked := fun hl => absurd hl hlock
      settled := nofun
      counted := by
        have hcounted := h.counted
        rw [hguest] at hcounted
        simp only [GuestPc.uncounted] at hcounted ⊢
        omega
      busy := fun _ => Nat.succ_ne_zero _
      waits := fun hl => absurd hl hlock }

theorem CopyInv.raiseLock (h : CopyInv s) (hguest : s.guest = .raiseLock) :
    CopyInv { s with submissionLock := true, guest := .submitDone } := by
  have hpending : ({ s with submissionLock := true, guest := .submitDone } : State).pending =
      s.pending := by
    simp [pending, arriving, hguest]
  exact
    { h with
      intact := fun t ht => h.intact t (hpending ▸ ht)
      below := .inr rfl
      locked := fun _ => trivial
      settled := fun _ => .inl rfl
      counted := by
        have hcounted := h.counted
        rw [hguest] at hcounted
        exact hcounted
      waits := fun _ => .inl rfl }

theorem CopyInv.submitDone (h : CopyInv s) (hguest : s.guest = .submitDone) :
    CopyInv { s with
      dcbBuffer := { s.dcbBuffer with offset := 0 }
      ccbBuffer := { s.ccbBuffer with offset := 0 }
      submitDone := true
      sendInitPacket := true
      guest := .outside } := by
  have hpending : s.pending = s.submits := by
    simp [pending, arriving, hguest]
  have hpending' : ∀ t ∈ ({ s with
      dcbBuffer := { s.dcbBuffer with offset := 0 }
      ccbBuffer := { s.ccbBuffer with offset := 0 }
      submitDone := true
      sendInitPacket := true
      guest := .outside } : State).pending, t ∈ s.submits := by
    intro t ht
    simpa [pending, arriving] using ht
  refine
    { h with
      dcb := h.dcb.rewind
      ccb := h.ccb.rewind
      intact := fun t ht => ?_
      below := ?_
      locked := fun _ => trivial
      settled := nofun
      counted := ?_
      waits := fun _ => .inr (.inl rfl) }
  · have hintact := h.intact t (hpending ▸ hpending' t ht)
    exact ⟨⟨hintact.1.length, hintact.1.within, hintact.1.words⟩,
      ⟨hintact.2.length, hintact.2.within, hintact.2.words⟩⟩
  · refine (h.settled hguest).symm.imp_left fun hnil t ht => ?_
    have hmem := hpending' t ht
    rw [hnil] at hmem
    cases hmem
  · have hcounted := h.counted
    rw [hguest] at hcounted
    exact hcounted

theorem CopyInv.guestStep (h : CopyInv s) (hok : s.CopyCondition initSequence .guest)
    (hs : s.guestStep initSequence = some s') : CopyInv s' := by
  unfold State.guestStep at hs
  split at hs
  · cases hs
  · rename_i pairs hguest
    split at hs
    · cases hs
    · rename_i hlock
      refine Option.some.inj hs ▸ h.guestFrame (fun hl => absurd hl hlock) (by simp [arriving])
        (by rw [hguest]; rfl) nofun
  · rename_i pairs hguest
    have hfits := hok.1 pairs hguest
    unfold Fits at hfits
    split at hs
    · rename_i hinit
      rw [if_pos hinit] at hfits
      have hccb : s.ccbBuffer.offset + ([] : List ℕ).length ≤ s.ccbBuffer.capacity :=
        Nat.le_trans h.ccb.within h.ccb.size
      have hinv : CopyInv { s with sendInitPacket := false } := { h with }
      exact Option.some.inj hs ▸ hinv.submitGfx hguest hfits hccb
    · rename_i hinit
      rw [if_neg hinit] at hfits
      have hlock : s.submissionLock ≠ true := fun hl => by
        have hrests := h.locked hl
        rw [hguest] at hrests
        exact hrests
      split at hs
      · exact Option.some.inj hs ▸ h.guestFrame (fun hl => absurd hl hlock) (by simp [arriving])
          (by rw [hguest]; rfl) nofun
      · obtain ⟨hdcb, hccb⟩ := hfits _ rfl
        exact Option.some.inj hs ▸ h.submitGfx hguest hdcb hccb
  · exact Option.some.inj hs ▸ h.emplace ‹_›
  · exact Option.some.inj hs ▸ h.count ‹_›
  · rename_i hguest
    split at hs
    · cases hs
    · rename_i hlock
      refine Option.some.inj hs ▸ h.guestFrame (fun hl => absurd hl hlock) (by simp [arriving])
        (by rw [hguest]; rfl) nofun
  · rename_i hguest
    have hlock : s.submissionLock ≠ true := fun hl => by
      have hrests := h.locked hl
      rw [hguest] at hrests
      exact hrests
    split at hs
    · rename_i hnum
      refine Option.some.inj hs ▸ h.guestFrame (fun hl => absurd hl hlock) (by simp [arriving])
        (by rw [hguest]; rfl) fun _ => .inr (h.submits_eq_nil (by rw [hguest]; rfl) hnum)
    · refine Option.some.inj hs ▸ h.guestFrame (fun hl => absurd hl hlock) (by simp [arriving])
        (by rw [hguest]; rfl) nofun
  · exact Option.some.inj hs ▸ h.raiseLock ‹_›
  · exact Option.some.inj hs ▸ h.submitDone ‹_›

/-! ## The GPU thread -/

theorem CopyInv.gpuFrame (h : CopyInv s) {g : GpuPc} (hpopped : g.popped = s.gpu.popped)
    (hbusy : g.Works → s.numSubmits ≠ 0) (hpresent : g = .running ∨ g = .pop → s.submits ≠ [])
    (hwaits : g ≠ .waiting) : CopyInv { s with gpu := g } :=
  { h with
    counted := by
      dsimp only
      rw [hpopped]
      exact h.counted
    busy := hbusy
    present := hpresent
    waits := fun _ => .inr (.inr (.inr hwaits)) }

theorem CopyInv.pop (h : CopyInv s) (hgpu : s.gpu = .pop) :
    CopyInv { s with submits := s.submits.tail, gpu := .decrement } := by
  have hsub : ∀ t ∈ ({ s with submits := s.submits.tail, gpu := .decrement } : State).pending,
      t ∈ s.pending := by
    intro t ht
    rcases List.mem_append.1 ht with ht | ht
    · exact List.mem_append_left _ (List.mem_of_mem_tail ht)
    · exact List.mem_append_right _ ht
  have hne := h.present (.inr hgpu)
  exact
    { h with
      intact := fun t ht => h.intact t (hsub t ht)
      below := h.below.imp_left fun hb t ht => hb t (hsub t ht)
      settled := fun hg => (h.settled hg).imp_right fun hnil => absurd hnil hne
      counted := by
        have hcounted := h.counted
        have hpos := List.length_pos_iff.2 hne
        rw [hgpu] at hcounted
        simp only [GpuPc.popped, List.length_tail] at hcounted ⊢
        omega
      busy := fun _ => h.busy (by rw [hgpu]; trivial)
      present := nofun
      waits := fun _ => .inr (.inr (.inr nofun)) }

theorem CopyInv.decrement (h : CopyInv s) (hgpu : s.gpu = .decrement) :
    CopyInv { s with numSubmits := s.numSubmits - 1, gpu := .loop } :=
  { h with
    counted := by
      have hcounted := h.counted
      have hne := h.busy (by rw [hgpu]; trivial)
      rw [hgpu] at hcounted
      simp only [GpuPc.popped] at hcounted ⊢
      omega
    busy := nofun
    present := nofun
    waits := fun _ => .inr (.inr (.inr nofun)) }

theorem GuestPc.Rests.uncounted {g : GuestPc} (h : g.Rests) : g.uncounted = 0 := by
  cases g with
  | count pairs => exact h.elim
  | _ => rfl

theorem arriving_eq_nil (h : s.guest.Rests) : s.arriving = [] := by
  unfold arriving
  split
  · rename_i hguest
    rw [hguest] at h
    exact h.elim
  · rfl

theorem CopyInv.signal (h : CopyInv s) (hgpu : s.gpu = .signal)
    (hok : s.submissionLock = true → s.numSubmits = 0) :
    CopyInv { s with submissionLock := false, gpu := .waiting } := by
  have hnil : s.submissionLock = true → s.submits = [] := fun hl =>
    h.submits_eq_nil (GuestPc.Rests.uncounted (h.locked hl)) (hok hl)
  exact
    { h with
      below := by
        refine .inl (h.below.elim id fun hl t ht => ?_)
        have hmem : t ∈ s.submits ++ s.arriving := ht
        rw [hnil hl, arriving_eq_nil (h.locked hl)] at hmem
        cases hmem
      locked := nofun
      settled := fun hg => .inr ((h.settled hg).elim hnil id)
      counted := by
        have hcounted := h.counted
        rw [hgpu] at hcounted
        exact hcounted
      busy := nofun
      present := nofun
      waits := nofun }

theorem CopyInv.gpuStep (h : CopyInv s) (hok : s.CopyCondition initSequence .gpu)
    (hs : s.gpuStep = some s') : CopyInv s' := by
  unfold State.gpuStep at hs
  split at hs
  · rename_i hgpu
    split at hs
    · exact Option.some.inj hs ▸ h.gpuFrame (by rw [hgpu]; rfl) nofun nofun nofun
    · cases hs
  · rename_i hgpu
    obtain rfl := Option.some.inj hs
    split
    · rename_i hne
      exact h.gpuFrame (by rw [hgpu]; rfl) (fun _ => hne) nofun nofun
    · exact h.gpuFrame (by rw [hgpu]; rfl) nofun nofun nofun
  · rename_i hgpu
    obtain rfl := Option.some.inj hs
    split
    · exact h.gpuFrame (by rw [hgpu]; rfl) nofun nofun nofun
    · rename_i hne
      refine h.gpuFrame (by rw [hgpu]; rfl) (fun _ => h.busy (by rw [hgpu]; trivial))
        (fun _ hnil => hne (by rw [hnil]; rfl)) nofun
  · cases hs
  · exact Option.some.inj hs ▸ h.pop ‹_›
  · exact Option.some.inj hs ▸ h.decrement ‹_›
  · rename_i hgpu
    obtain rfl := Option.some.inj hs
    split
    · exact h.gpuFrame (by rw [hgpu]; rfl) nofun nofun nofun
    · exact h.gpuFrame (by rw [hgpu]; rfl) nofun nofun nofun
  · rename_i hgpu
    have hmoved : CopyInv { s with gpu := .signal } :=
      h.gpuFrame (by rw [hgpu]; rfl) nofun nofun nofun
    exact Option.some.inj hs ▸ { hmoved with waits := fun _ => .inr (.inr (.inr nofun)) }
  · exact Option.some.inj hs ▸ h.signal ‹_› (hok.2 rfl ‹_›)

theorem getD_of_holds {b : CopyBuffer} {span : Span} {words : List ℕ}
    (h : b.Holds span words) {index : ℕ} (hindex : index < span.length) :
    some (b.data.getD (span.start + index) 0) = words[index]? := by
  have hlt : index < words.length := h.length ▸ hindex
  rw [List.getD_eq_getElem?_getD, h.words index hlt, List.getElem?_eq_getElem hlt]
  rfl

theorem CopyInv.readDword (h : CopyInv s) {ofCcb : Bool} {index : ℕ}
    (hs : s.readDword ofCcb index = some s') : CopyInv s' := by
  unfold State.readDword at hs
  split at hs
  · rename_i task rest hgpu hsubmits
    have hmem : task ∈ s.pending :=
      List.mem_append_left _ (hsubmits ▸ List.mem_cons_self)
    obtain ⟨hdcb, hccb⟩ := h.intact task hmem
    cases ofCcb with
    | true =>
        simp only [if_true] at hs
        split at hs
        · rename_i hindex
          obtain rfl := Option.some.inj hs
          refine { h with reads := fun r hr => ?_ }
          rcases List.mem_cons.1 hr with rfl | hr
          · exact getD_of_holds hccb hindex
          · exact h.reads r hr
        · cases hs
    | false =>
        simp only [Bool.false_eq_true, if_false] at hs
        split at hs
        · rename_i hindex
          obtain rfl := Option.some.inj hs
          refine { h with reads := fun r hr => ?_ }
          rcases List.mem_cons.1 hr with rfl | hr
          · exact getD_of_holds hdcb hindex
          · exact h.reads r hr
        · cases hs
  · cases hs

/-- A step under the condition leaves the pending copies as they were made. -/
theorem CopyInv.step (h : CopyInv s) {a : Action} (hok : s.CopyCondition initSequence a)
    (hs : s.step initSequence a = some s') : CopyInv s' := by
  unfold State.step at hs
  rw [if_neg (not_not.2 h.fault)] at hs
  cases a with
  | sceGnmSubmitCommandBuffers pairs =>
      simp only at hs
      split at hs
      · rename_i hguest
        refine Option.some.inj hs ▸ h.guestFrame (fun _ => ⟨trivial, by rw [hguest]; nofun⟩)
          (by simp [arriving]) (by rw [hguest]; rfl) nofun
      · cases hs
  | sceGnmSubmitDone =>
      simp only at hs
      split at hs
      · rename_i hguest
        refine Option.some.inj hs ▸ h.guestFrame (fun _ => ⟨trivial, by rw [hguest]; nofun⟩)
          (by simp [arriving]) (by rw [hguest]; rfl) nofun
      · cases hs
  | guest => exact h.guestStep hok hs
  | gpu => exact h.gpuStep hok hs
  | readDword ofCcb index => exact h.readDword hs
  | taskYields =>
      simp only at hs
      split at hs
      · rename_i hgpu
        exact Option.some.inj hs ▸ h.gpuFrame (by rw [hgpu]; rfl) nofun nofun nofun
      · cases hs
  | taskDone =>
      simp only at hs
      split at hs
      · rename_i hgpu
        exact Option.some.inj hs ▸ h.gpuFrame (by rw [hgpu]; rfl)
          (fun _ => h.busy (by rw [hgpu]; trivial)) (fun _ => h.present (.inl hgpu)) nofun
      · cases hs

/-! ## Copied command buffers -/

/-- In `WaitGpuIdle` of the GnmDriver with the lock up. -/
def GuestBlocked (s : State) : Prop :=
  ((∃ pairs, s.guest = .waitSubmit pairs) ∨ s.guest = .waitDone) ∧ s.submissionLock = true

/-- Every dword a task has read is the one `SubmitGfx` was called with, no copy was moved by
a reallocation, and the GPU thread can go on while the guest thread is blocked. -/
structure CopiesExact (initSequence : List ℕ) (s : State) : Prop where
  reads : ∀ r ∈ s.reads,
    some r.value = (if r.ofCcb then r.task.ccbWords else r.task.dcbWords)[r.index]?
  moved : s.dcbBuffer.moved = false ∧ s.ccbBuffer.moved = false
  fault : s.fault = none
  blocked : s.GuestBlocked → ∃ a s', (a = .gpu ∨ a = .taskDone) ∧
    s.step initSequence a = some s'

theorem CopyInv.blocked (h : CopyInv s) (hblocked : s.GuestBlocked) :
    ∃ a s', (a = .gpu ∨ a = .taskDone) ∧ s.step initSequence a = some s' := by
  by_cases hrunning : s.gpu = .running
  · exact ⟨.taskDone, { s with gpu := .pop }, .inr rfl, by simp [State.step, h.fault, hrunning]⟩
  · have hstep : s.gpuStep.isSome := by
      cases hgpu : s.gpu with
      | running => exact absurd hgpu hrunning
      | waiting =>
          have hgo : s.numSubmits ≠ 0 ∨ s.submitDone = true := by
            rcases h.waits hblocked.2 with hguest | hdone | hnum | hne
            · rcases hblocked.1 with ⟨pairs, hwait⟩ | hwait
              · rw [hguest] at hwait
                cases hwait
              · rw [hguest] at hwait
                cases hwait
            · exact .inr hdone
            · exact .inl hnum
            · exact absurd hgpu hne
          simp only [State.gpuStep, hgpu]
          rw [if_pos hgo]
          rfl
      | _ => simp only [State.gpuStep, hgpu, Option.isSome_some]
    obtain ⟨s', hs'⟩ := Option.isSome_iff_exists.1 hstep
    exact ⟨.gpu, s', .inl rfl, by simpa [State.step, h.fault] using hs'⟩

/-- Copies are intact in every run in which they fit and no idle interrupt lowers the lock
while a submission is counted. -/
theorem copies_exact {gfxReservedSize : ℕ}
    (hs : Reachable (step initSequence) (CopyCondition initSequence) (start gfxReservedSize) s) :
    CopiesExact initSequence s := by
  have h : CopyInv s :=
    hs.invariant (copyInv_start gfxReservedSize) fun _ _ _ h hok hs => h.step hok hs
  exact ⟨h.reads, ⟨h.dcb.moved, h.ccb.moved⟩, h.fault, h.blocked⟩

instance (initSequence : List ℕ) (s : State) (pairs : List (List ℕ × List ℕ)) :
    Decidable (s.Fits initSequence pairs) := by
  unfold Fits
  infer_instance

instance (initSequence : List ℕ) (s : State) (a : Action) :
    Decidable (s.FitsCondition initSequence a) :=
  match a with
  | .guest =>
      match h : s.guest with
      | .submitting pairs => decidable_of_iff (s.Fits initSequence pairs)
          (by simp [FitsCondition, h])
      | .outside => isTrue (by simp [FitsCondition, h])
      | .waitSubmit _ => isTrue (by simp [FitsCondition, h])
      | .emplace _ _ => isTrue (by simp [FitsCondition, h])
      | .count _ => isTrue (by simp [FitsCondition, h])
      | .waitDone => isTrue (by simp [FitsCondition, h])
      | .testIdle => isTrue (by simp [FitsCondition, h])
      | .raiseLock => isTrue (by simp [FitsCondition, h])
      | .submitDone => isTrue (by simp [FitsCondition, h])
  | .gpu => isTrue trivial
  | .sceGnmSubmitCommandBuffers _ => isTrue trivial
  | .sceGnmSubmitDone => isTrue trivial
  | .readDword _ _ => isTrue trivial
  | .taskYields => isTrue trivial
  | .taskDone => isTrue trivial

instance (initSequence : List ℕ) (s : State) (a : Action) :
    Decidable (s.CopyCondition initSequence a) :=
  inferInstanceAs (Decidable (_ ∧ _))

def doneBusy : List Action :=
  [.sceGnmSubmitDone, .guest, .guest, .guest, .guest]

def runTask : List Action := [.gpu, .gpu, .taskDone, .gpu, .gpu]

theorem copies_exact_sample :
    ∃ s : State, s.reads.length = 1 ∧ s.submissionLock = true ∧ s.guest = .outside ∧
      CopiesExact [9] s := by
  have hrun : ((runChecked (step [9]) (CopyCondition [9]) (start 8)
      ([Action.sceGnmSubmitCommandBuffers [([1, 2], [])]] ++ List.replicate 8 Action.guest ++
        doneBusy ++ [.gpu] ++ runTask ++ [.gpu, .gpu, .readDword false 1])).any fun s =>
        decide (s.reads.length = 1 ∧ s.submissionLock = true ∧ s.guest = .outside)) := by
    decide
  obtain ⟨s, hs, hp⟩ := (Option.any_eq_true _ _).1 hrun
  obtain ⟨hreads, hlock, hguest⟩ := of_decide_eq_true hp
  exact ⟨s, hreads, hlock, hguest, copies_exact (reachable_of_runChecked hs)⟩

/-- The GPU thread has left its work loop when the next frame is submitted and done; its
interrupt then lowers the lock of that frame, and the frame after it is copied over the
task that still waits. -/
def staleInterrupt : List Action :=
  [.sceGnmSubmitCommandBuffers [([1], [])]] ++ List.replicate 8 Action.guest ++ [.gpu] ++ runTask ++
    runTask ++ [.gpu] ++
    [.sceGnmSubmitCommandBuffers [([2], [])]] ++ List.replicate 5 Action.guest ++ doneBusy ++
    [.gpu, .gpu, .gpu] ++
    [.sceGnmSubmitCommandBuffers [([3, 3], [])]] ++ List.replicate 8 Action.guest ++
    [.gpu, .gpu, .gpu, .readDword false 0]

theorem copies_exact_fails :
    ¬ ∀ (gfxReservedSize : ℕ) (initSequence : List ℕ) (s : State),
      Reachable (step initSequence) (FitsCondition initSequence) (start gfxReservedSize) s →
        CopiesExact initSequence s := by
  intro hall
  have hrun : ((runChecked (step [9]) (FitsCondition [9]) (start 8) staleInterrupt).any fun s =>
      decide (∃ r ∈ s.reads, ¬ some r.value =
        (if r.ofCcb then r.task.ccbWords else r.task.dcbWords)[r.index]?)) := by
    decide
  obtain ⟨s, hs, hp⟩ := (Option.any_eq_true _ _).1 hrun
  obtain ⟨r, hr, hne⟩ := of_decide_eq_true hp
  exact hne ((hall 8 [9] s (reachable_of_runChecked hs)).reads r hr)

end State

end CommandCopies

end OrbitConsole.VideoCore
