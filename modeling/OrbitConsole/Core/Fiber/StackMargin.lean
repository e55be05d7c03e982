import Mathlib.Data.List.TakeWhile
import OrbitConsole.Core.Fiber.Fiber

/-!
# The margin of a fiber's stack

The query goes over the check words of the stack, and stays at the first word that
is something else. So it ends only if there is none, or nothing to go over.
-/

namespace OrbitConsole.Fiber

/-! ### Initialised fibers -/

inductive Initialised : OrbisFiber → Prop
  | created {fiber old : OrbisFiber} {size_check : Bool} {mem mem' : Words}
      {args : InitializeArgs}
      (h : sceFiberInitializeImpl size_check mem old args = (orbisOk, fiber, mem')) :
      Initialised fiber
  | attach {fiber fiber' : OrbisFiber} {mem mem' : Words} {addr_context size_context : ℕ}
      (hfiber : Initialised fiber) (haligned : addr_context % 16 = 0)
      (h : sceFiberAttachContext mem fiber addr_context size_context = (orbisOk, fiber', mem')) :
      Initialised fiber'
  | rename {fiber : OrbisFiber} (hfiber : Initialised fiber) (name : List Char) :
      Initialised (sceFiberRename fiber name)
  | run {fiber : OrbisFiber} (hfiber : Initialised fiber) (state : FiberState) (context : ℕ) :
      Initialised { fiber with state := state, context := context }

structure Laid (fiber : OrbisFiber) : Prop where
  magic_start : fiber.magic_start = kFiberSignature0
  magic_end : fiber.magic_end = kFiberSignature1
  stack : fiber.addr_context ≠ 0 → 16 ≤ fiber.size_context ∧ fiber.size_context % 16 = 0 ∧
    fiber.context_end = fiber.context_start + fiber.size_context

theorem passed {α : Type*} {c : Prop} [Decidable c] {code : ℤ} {result x : ℤ × α} {y : α}
    (hcode : code ≠ orbisOk) (hresult : result.1 = code)
    (h : (if c then result else x) = (orbisOk, y)) : ¬ c ∧ x = (orbisOk, y) := by
  by_cases hc : c
  · rw [if_pos hc] at h
    exact absurd (hresult.symm.trans (congrArg Prod.fst h)) hcode
  · rw [if_neg hc] at h
    exact ⟨hc, h⟩

theorem laid_of_created {fiber old : OrbisFiber} {size_check : Bool} {mem mem' : Words}
    {args : InitializeArgs}
    (h : sceFiberInitializeImpl size_check mem old args = (orbisOk, fiber, mem')) :
    Laid fiber := by
  have hnull : errorNull ≠ orbisOk := by decide
  have halignment : errorAlignment ≠ orbisOk := by decide
  have hrange : errorRange ≠ orbisOk := by decide
  have hinvalid : errorInvalid ≠ orbisOk := by decide
  unfold sceFiberInitializeImpl at h
  cases hname : args.name with
  | none =>
      rw [hname] at h
      exact absurd (congrArg Prod.fst h) hnull
  | some name =>
  rw [hname] at h
  obtain ⟨-, h⟩ := passed hnull rfl h
  obtain ⟨-, h⟩ := passed halignment rfl h
  obtain ⟨-, h⟩ := passed halignment rfl h
  obtain ⟨hsmall, h⟩ := passed hrange rfl h
  obtain ⟨hround, h⟩ := passed hinvalid rfl h
  obtain ⟨-, h⟩ := passed hinvalid rfl h
  obtain ⟨hsize, h⟩ := passed hinvalid rfl h
  obtain ⟨-, h⟩ := passed hinvalid rfl h
  by_cases haddr : args.addr_context ≠ 0
  · have hpos : args.size_context ≠ 0 := fun h0 => hsize ⟨haddr, h0⟩
    have hmin : ¬ args.size_context < 512 := fun hlt => hsmall ⟨hpos, hlt⟩
    have hle : 16 ≤ args.size_context := by omega
    rw [if_pos haddr] at h
    cases h
    exact ⟨rfl, rfl, fun _ => ⟨hle, not_not.1 hround, rfl⟩⟩
  · rw [if_neg haddr] at h
    cases h
    exact ⟨rfl, rfl, fun h => absurd h haddr⟩

theorem laid_of_attach {fiber fiber' : OrbisFiber} {mem mem' : Words}
    {addr_context size_context : ℕ} (hfiber : Laid fiber)
    (h : sceFiberAttachContext mem fiber addr_context size_context = (orbisOk, fiber', mem')) :
    Laid fiber' := by
  have hrange : errorRange ≠ orbisOk := by decide
  have hinvalid : errorInvalid ≠ orbisOk := by decide
  unfold sceFiberAttachContext at h
  obtain ⟨hsmall, h⟩ := passed hrange rfl h
  obtain ⟨hround, h⟩ := passed hinvalid rfl h
  obtain ⟨hzero, h⟩ := passed hinvalid rfl h
  obtain ⟨-, h⟩ := passed hinvalid rfl h
  have hmin : ¬ size_context < 512 := fun hlt => hsmall ⟨fun h0 => hzero (.inr h0), hlt⟩
  have hle : 16 ≤ size_context := by omega
  cases h
  exact ⟨hfiber.magic_start, hfiber.magic_end, fun _ => ⟨hle, not_not.1 hround, rfl⟩⟩

theorem Initialised.laid {fiber : OrbisFiber} (h : Initialised fiber) : Laid fiber := by
  induction h with
  | created h => exact laid_of_created h
  | attach _ _ h ih => exact laid_of_attach ih h
  | rename _ _ ih => exact ⟨ih.magic_start, ih.magic_end, ih.stack⟩
  | run _ _ _ ih => exact ⟨ih.magic_start, ih.magic_end, ih.stack⟩

/-! ### The scan -/

variable {mem : Words} {fiber : OrbisFiber} {args : GetInfoArgs}

theorem scan_of_forall (n : ℕ) {ptr : ℕ} (h : ∀ k < n, mem (ptr + 8 * k) = kFiberStackSizeCheck) :
    scan mem (ptr + 8 * n) (n + 1) ptr = some (ptr + 8 * n) := by
  induction n generalizing ptr with
  | zero =>
      unfold scan
      exact if_neg (by omega)
  | succ n ih =>
      have hfirst : mem ptr = kFiberStackSizeCheck := h 0 (by omega)
      have hrest : ∀ k < n, mem (ptr + 8 + 8 * k) = kFiberStackSizeCheck := by
        intro k hk
        have := h (k + 1) (by omega)
        rwa [show ptr + 8 * (k + 1) = ptr + 8 + 8 * k by omega] at this
      have hend : ptr + 8 * (n + 1) = ptr + 8 + 8 * n := by omega
      unfold scan
      rw [if_pos (by omega), if_pos hfirst, hend]
      exact ih hrest

theorem scan_of_touched {stack_end bad : ℕ} (hbad : mem bad ≠ kFiberStackSizeCheck)
    (hlt : bad < stack_end) (fuel ptr : ℕ) (hle : ptr ≤ bad) (hstep : (bad - ptr) % 8 = 0) :
    scan mem stack_end fuel ptr = none := by
  induction fuel generalizing ptr with
  | zero => rfl
  | succ fuel ih =>
      unfold scan
      rw [if_pos (by omega)]
      by_cases hcheck : mem ptr = kFiberStackSizeCheck
      · have hne : ptr ≠ bad := fun heq => hbad (heq ▸ hcheck)
        rw [if_pos hcheck]
        exact ih _ (by omega) (by omega)
      · rw [if_neg hcheck]
        exact ih _ hle hstep

def checkWords (fiber : OrbisFiber) : ℕ := (fiber.context_end - fiber.context_start - 8) / 8

def untouched (mem : Words) (fiber : OrbisFiber) : ℕ :=
  8 * ((List.range (checkWords fiber)).takeWhile fun k =>
    mem (fiber.context_start + 8 + 8 * k) = kFiberStackSizeCheck).length

/-- The call is turned down before it looks at the stack. -/
def Refused (fiber : OrbisFiber) (args : GetInfoArgs) : Prop :=
  args.fiber = 0 ∨ args.fiber_info = 0 ∨ args.fiber % 8 ≠ 0 ∨ args.fiber_info % 8 ≠ 0 ∨
    args.size ≠ infoSize ∨ fiber.magic_start ≠ kFiberSignature0 ∨
    fiber.magic_end ≠ kFiberSignature1

def MarginExact (mem : Words) (fiber : OrbisFiber) (args : GetInfoArgs) : Prop :=
  ∃ fuel r, sceFiberGetInfo fuel mem fiber args = some r ∧
    ∀ info, r.2 = some info → info.size_context_margin ≠ -1 →
      info.size_context_margin =
        if mem fiber.context_start = kFiberStackSignature then .ofNat 64 (untouched mem fiber)
        else 0

/-- There is nothing to go over, the signature is damaged, or no check word has been touched. -/
def Scannable (mem : Words) (fiber : OrbisFiber) (args : GetInfoArgs) : Prop :=
  Refused fiber args ∨ fiber.flags &&& contextSizeCheck = 0 ∨ fiber.addr_context = 0 ∨
    mem fiber.context_start ≠ kFiberStackSignature ∨
    ∀ k < checkWords fiber, mem (fiber.context_start + 8 + 8 * k) = kFiberStackSizeCheck

theorem untouched_of_forall
    (h : ∀ k < checkWords fiber, mem (fiber.context_start + 8 + 8 * k) = kFiberStackSizeCheck) :
    untouched mem fiber = 8 * checkWords fiber := by
  unfold untouched
  rw [List.takeWhile_eq_self_iff.2, List.length_range]
  intro k hk
  exact decide_eq_true (h k (List.mem_range.1 hk))

theorem getInfo_of_refused (mem : Words) (h : Refused fiber args) (fuel : ℕ) :
    ∃ e, sceFiberGetInfo fuel mem fiber args = some (e, none) := by
  unfold Refused at h
  unfold sceFiberGetInfo
  split
  · exact ⟨_, rfl⟩
  split
  · exact ⟨_, rfl⟩
  split
  · exact ⟨_, rfl⟩
  split
  · exact ⟨_, rfl⟩
  · exfalso
    tauto

theorem getInfo_of_not_refused (mem : Words) (h : ¬ Refused fiber args) (fuel : ℕ) :
    ∃ info : BitVec 64 → OrbisFiberInfo, (∀ margin, (info margin).size_context_margin = margin) ∧
      sceFiberGetInfo fuel mem fiber args =
        if fiber.flags &&& contextSizeCheck ≠ 0 ∧ fiber.addr_context ≠ 0 then
          if mem fiber.context_start = kFiberStackSignature then
            (scan mem fiber.context_end fuel (fiber.context_start + 8)).map fun stack_ptr =>
              (orbisOk, some (info (.ofNat 64 (stack_ptr - (fiber.context_start + 8)))))
          else some (orbisOk, some (info 0))
        else some (orbisOk, some (info (-1))) := by
  unfold Refused at h
  simp only [not_or] at h
  obtain ⟨h₁, h₂, h₃, h₄, h₅, h₆, h₇⟩ := h
  unfold sceFiberGetInfo
  rw [if_neg (by tauto), if_neg (by tauto), if_neg h₅, if_neg (by tauto)]
  exact ⟨_, fun _ => rfl, rfl⟩

theorem marginExact_of_scannable (hlaid : Laid fiber) (h : Scannable mem fiber args) :
    MarginExact mem fiber args := by
  by_cases hrefused : Refused fiber args
  · obtain ⟨e, he⟩ := getInfo_of_refused mem hrefused 0
    exact ⟨0, _, he, fun _ hinfo => by cases hinfo⟩
  obtain ⟨info, hmargin, heq⟩ := getInfo_of_not_refused mem hrefused
    (checkWords fiber + 1)
  unfold MarginExact
  by_cases hcheck : fiber.flags &&& contextSizeCheck ≠ 0 ∧ fiber.addr_context ≠ 0
  · rw [if_pos hcheck] at heq
    by_cases hsig : mem fiber.context_start = kFiberStackSignature
    · obtain ⟨hsize, hround, hend⟩ := hlaid.stack hcheck.2
      have hall : ∀ k < checkWords fiber,
          mem (fiber.context_start + 8 + 8 * k) = kFiberStackSizeCheck := by
        obtain h | h | h | h | h := h
        · exact absurd h hrefused
        · exact absurd h hcheck.1
        · exact absurd h hcheck.2
        · exact absurd hsig h
        · exact h
      have hstop : fiber.context_end = fiber.context_start + 8 + 8 * checkWords fiber := by
        unfold checkWords
        omega
      have hscan := scan_of_forall _ hall
      rw [← hstop] at hscan
      rw [if_pos hsig, hscan] at heq
      refine ⟨_, _, heq, ?_⟩
      rintro _ hinfo -
      cases hinfo
      rw [hmargin, if_pos hsig, untouched_of_forall hall, hstop]
      congr 1
      omega
    · rw [if_neg hsig] at heq
      refine ⟨_, _, heq, ?_⟩
      rintro _ hinfo -
      cases hinfo
      rw [hmargin, if_neg hsig]
  · rw [if_neg hcheck] at heq
    refine ⟨_, _, heq, ?_⟩
    intro _ hinfo hne
    cases hinfo
    exact absurd (hmargin _) hne

theorem scannable_of_marginExact (hlaid : Laid fiber) (h : MarginExact mem fiber args) :
    Scannable mem fiber args := by
  by_contra hnot
  unfold Scannable at hnot
  simp only [not_or, not_forall] at hnot
  obtain ⟨hrefused, hflags, haddr, hsig, k, hk, hbad⟩ := hnot
  obtain ⟨fuel, r, hr, -⟩ := h
  obtain ⟨info, -, heq⟩ := getInfo_of_not_refused mem hrefused fuel
  obtain ⟨hsize, hround, hend⟩ := hlaid.stack haddr
  have hlt : fiber.context_start + 8 + 8 * k < fiber.context_end := by
    unfold checkWords at hk
    omega
  have hscan := scan_of_touched hbad hlt fuel (fiber.context_start + 8) (by omega) (by omega)
  rw [if_pos ⟨hflags, haddr⟩, if_pos (not_not.1 hsig), hscan, hr] at heq
  cases heq

/-- For every fiber and every content of its stack the query ends with the margin of the stack if
and only if it has no touched check word to go over. -/
theorem sceFiberGetInfo_margin_iff (fiber : OrbisFiber) (hfiber : Initialised fiber) (mem : Words)
    (args : GetInfoArgs) : MarginExact mem fiber args ↔ Scannable mem fiber args :=
  ⟨scannable_of_marginExact hfiber.laid, marginExact_of_scannable hfiber.laid⟩

/-- A fiber object before it is initialised. -/
def blankFiber : OrbisFiber :=
  { magic_start := 0, state := .terminated, entry := 0, initialize_arg := 0, addr_context := 0
    size_context := 0, name := [], context := 0, flags := 0, context_start := 0
    context_end := 0, magic_end := 0 }

def plainArgs : InitializeArgs :=
  { fiber := 0x1000, name := some [], entry := 0x2000, initialize_arg := 0
    addr_context := 0x8000, size_context := 512, opt_param := 0, opt_magic := 0, flags := 0
    fw_350 := false }

/-- Initialised while the size check is on, with a stack of zeros. -/
def checkedFiber : OrbisFiber × Words :=
  (sceFiberInitializeImpl true (fun _ => 0) blankFiber plainArgs).2

theorem checkedFiber_initialised : Initialised checkedFiber.1 :=
  .created (rfl : sceFiberInitializeImpl true (fun _ => 0) blankFiber plainArgs = (orbisOk, _, _))

def plainQuery : GetInfoArgs := { fiber := 0x1000, fiber_info := 0x3000, size := 128 }

/-- A stack that nothing has been written to. -/
def filledStack : Words := Function.update (fun _ => kFiberStackSizeCheck) 0x8000 kFiberStackSignature

theorem sceFiberGetInfo_margin_filled :
    filledStack checkedFiber.1.context_start = kFiberStackSignature ∧
      MarginExact filledStack checkedFiber.1 plainQuery := by
  refine ⟨by decide, (sceFiberGetInfo_margin_iff _ checkedFiber_initialised _ _).2 ?_⟩
  refine .inr (.inr (.inr (.inr fun k _ => ?_)))
  have hstart : checkedFiber.1.context_start = 0x8000 := by decide
  exact Function.update_of_ne (by omega) _ _

/-- The check words were not written, so the query never ends. -/
theorem sceFiberGetInfo_margin_fails :
    Initialised checkedFiber.1 ∧ ¬ MarginExact checkedFiber.2 checkedFiber.1 plainQuery := by
  refine ⟨checkedFiber_initialised, fun h => ?_⟩
  obtain h | h | h | h | h := scannable_of_marginExact checkedFiber_initialised.laid h
  · exact absurd h (by unfold Refused; decide)
  · exact absurd h (by decide)
  · exact absurd h (by decide)
  · exact absurd h (by decide)
  · exact absurd (h 0 (by decide)) (by decide)

end OrbitConsole.Fiber
