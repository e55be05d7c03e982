import OrbitConsole.Common.Counter

/-!
# The constant engine and the draw engine

The counters of `Liverpool::cblock` and the coroutines of `ProcessGraphics` and
`ProcessCeUpdate` as they resume each other. Packets that touch no counter are not told
apart, and a yield to the other queues is not a step: they leave the counters alone.
-/

namespace OrbitConsole.VideoCore

inductive DePacket
  | incrementDeCounter
  | waitOnCeCounter
  | indirectBuffer (dcb : List DePacket)
  | other

inductive CePacket
  | incrementCeCounter
  | waitOnDeCounterDiff (diff : ℕ)
  | indirectBufferConst (ccb : List CePacket)
  | other

/-- The coroutine that has control. -/
inductive Running
  | de
  | ce
  deriving DecidableEq

/-- What is left of each buffer, the innermost call first, and the counters. `hasCe` tells
whether `ce_task` has a handle; `increments` are the counters' packets that were executed. -/
structure CounterState where
  de : List (List DePacket)
  ce : List (List CePacket)
  hasCe : Bool
  ceCount : ℕ
  deCount : ℕ
  ceIncrements : ℕ
  deIncrements : ℕ
  running : Running

namespace CounterState

/-- The start of `ProcessGraphics`: a CCB runs first. -/
def start (dcb : List DePacket) (ccb : List CePacket) : CounterState :=
  { de := [dcb]
    ce := if ccb = [] then [] else [ccb]
    hasCe := decide (ccb ≠ [])
    ceCount := 0
    deCount := 0
    ceIncrements := 0
    deIncrements := 0
    running := if ccb = [] then .de else .ce }

/-- `ce_task` of the call of `ProcessGraphics` that runs has a handle: a nested one has none. -/
def ceHandle (s : CounterState) : Bool := s.hasCe && decide (s.de.length = 1)

def waitsOnCe (s : CounterState) : Prop := s.ceCount ≤ s.deCount

instance (s : CounterState) : Decidable s.waitsOnCe := inferInstanceAs (Decidable (_ ≤ _))

def waitsOnDe (s : CounterState) (diff : ℕ) : Prop :=
  diff ≤ (s.deCount + 4294967296 - s.ceCount) % 4294967296

instance (s : CounterState) (diff : ℕ) : Decidable (s.waitsOnDe diff) :=
  inferInstanceAs (Decidable (_ ≤ _))

/-- What a step leads to. -/
inductive Next (σ : Type)
  | to (s : σ)
  | finished
  | nullHandle

/-- A step of `ProcessGraphics`. -/
def stepDe (s : CounterState) : Next CounterState :=
  match s.de with
  | [] => if s.ce = [] then .finished else .to { s with running := .ce }
  | [] :: callers => .to { s with de := callers }
  | (.incrementDeCounter :: dcb) :: callers => .to { s with
      de := dcb :: callers
      deCount := incU32 s.deCount
      deIncrements := s.deIncrements + 1 }
  | (.waitOnCeCounter :: dcb) :: callers =>
      if s.waitsOnCe then
        if s.ceHandle = false then .nullHandle
        else if s.ce = [] then .to { s with de := dcb :: callers }
        else .to { s with running := .ce }
      else .to { s with de := dcb :: callers }
  | (.indirectBuffer inner :: dcb) :: callers => .to { s with
      de := inner :: dcb :: callers
      -- `cblock.Reset()` of the nested call
      ceCount := 0
      deCount := 0 }
  | (.other :: dcb) :: callers => .to { s with de := dcb :: callers }

def stepCe (s : CounterState) : Next CounterState :=
  match s.ce with
  | [] => .to { s with running := .de }
  | [] :: callers => .to { s with ce := callers }
  | (.incrementCeCounter :: ccb) :: callers => .to { s with
      ce := ccb :: callers
      ceCount := incU32 s.ceCount
      ceIncrements := s.ceIncrements + 1 }
  | (.waitOnDeCounterDiff diff :: ccb) :: callers =>
      if s.waitsOnDe diff then .to { s with running := .de }
      else .to { s with ce := ccb :: callers }
  | (.indirectBufferConst inner :: ccb) :: callers =>
      .to { s with ce := inner :: ccb :: callers }
  | (.other :: ccb) :: callers => .to { s with ce := ccb :: callers }

/-- The coroutine that has control takes a step. -/
def step (s : CounterState) : Next CounterState :=
  match s.running with
  | .de => s.stepDe
  | .ce => s.stepCe

inductive Reaches (s₀ : CounterState) : CounterState → Prop
  | start : Reaches s₀ s₀
  | step {s s' : CounterState} (h : Reaches s₀ s) (hs : s.step = .to s') : Reaches s₀ s'

end CounterState

end OrbitConsole.VideoCore
