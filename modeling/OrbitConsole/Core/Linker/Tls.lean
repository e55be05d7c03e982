import Mathlib.Data.Nat.Notation
import Mathlib.Logic.Function.Basic
import OrbitConsole.Library.Transition

/-!
# Thread-local storage

The parts of `Linker` that load modules with TLS segments and hand out their blocks,
with `TcbCtor` and `TcbDtor`. The linker's mutex and `RtldLock` are two different locks,
and the generation counter is advanced under neither. That advance, and the look at the
modules in `TcbCtor`, which is under neither of them as well, are taken as atomic steps.
The heap of the guest is any allocator that answers with memory not in use.
-/

namespace OrbitConsole.Linker

/-- What `PT_TLS` describes: the initial bytes, and the aligned size they are part of. -/
structure TlsSegment where
  initImage : List ℕ
  imageSize : ℕ
  fits : initImage.length ≤ imageSize

/-- The fields of `Module::tls`; `dynamic` is how the module was loaded. -/
structure Module where
  modid : ℕ := 0
  imageSize : ℕ := 0
  initImage : List ℕ := []
  dynamic : Bool
  deriving DecidableEq

/-- What a block for the module starts with. -/
def Module.image (k : Module) : List ℕ :=
  k.initImage ++ List.replicate (k.imageSize - k.initImage.length) 0

/-- Memory in use. A `key` is the index of the module a block is for; the memory of the
static block and the TCB has none. -/
structure Region where
  tid : ℕ
  key : Option ℕ
  base : ℕ
  size : ℕ
  deriving DecidableEq

def Region.Apart (r r' : Region) : Prop :=
  r.base + r.size ≤ r'.base ∨ r'.base + r'.size ≤ r.base

instance (r r' : Region) : Decidable (r.Apart r') := inferInstanceAs (Decidable (_ ∨ _))

/-- A TCB and its table: the generation in `dtv[0]`, and the entries from `dtv[2]` on,
whose number is in `dtv[1]`. -/
structure Tcb where
  base : ℕ
  generation : ℕ
  pointers : List ℕ
  deriving DecidableEq

def Tcb.pointer (tcb : Tcb) (moduleIndex : ℕ) : ℕ := tcb.pointers.getD (moduleIndex - 1) 0

/-- A `TcbCtor` that has read `MaxTlsIndex` and not yet `GenerationCounter`. -/
structure Ctor where
  base : ℕ
  numDtvs : ℕ
  deriving DecidableEq

/-- A block when it was first filled. -/
structure Created where
  tid : ℕ
  modid : ℕ
  base : ℕ
  contents : List ℕ
  deriving DecidableEq

/-- What a call of `TlsGetAddr` answered. -/
structure Answer where
  tid : ℕ
  moduleIndex : ℕ
  offset : ℕ
  address : ℕ
  deriving DecidableEq

inductive Fault where
  | moduleUnloadingUnsupported
  | badModid
  | outOfBoundsDtvAccess
  | outsideTable
  | notAllocated
  deriving DecidableEq

structure State where
  modules : List Module := []
  maxTlsIndex : ℕ := 0
  dtvGenerationCounter : ℕ := 1
  staticTlsSize : ℕ := 0
  /-- the modules whose `LoadAndStartModule` has not come to its test of `image_size` -/
  loading : List Module := []
  ctor : Option Ctor := none
  /-- how many threads were made -/
  numThreads : ℕ := 0
  threads : ℕ → Option Tcb := fun _ => none
  occupied : List Region := []
  fault : Option Fault := none
  created : List Created := []
  answers : List Answer := []

namespace State

def moduleOf (s : State) (file : Option TlsSegment) (isDynamic : Bool) : Module :=
  match file with
  | none => { dynamic := isDynamic }
  | some segment => ⟨s.maxTlsIndex + 1, segment.imageSize, segment.initImage, isDynamic⟩

def loadModule (s : State) (file : Option TlsSegment) (isDynamic : Bool) : State :=
  { s with
    modules := s.modules ++ [s.moduleOf file isDynamic]
    maxTlsIndex := if file.isSome then s.maxTlsIndex + 1 else s.maxTlsIndex }

/-- The state after `Execute`, before the first thread: the modules loaded until then, the
program first. -/
def start (program : Option TlsSegment) (libraries : List (Option TlsSegment)) : State :=
  let s := (program :: libraries).foldl (fun (s : State) file => s.loadModule file false) {}
  { s with staticTlsSize := (s.modules.head?.map (·.imageSize)).getD 0 }

/-- `Common::AlignUp(static_tls_size, TlsAllocAlign) + TcbSize`. -/
def totalTlsSize (s : State) : ℕ := (s.staticTlsSize + 0x1f) / 0x20 * 0x20 + 0x40

/-- An allocator answers with memory that is not in use. -/
def Fresh (s : State) (base size : ℕ) : Prop :=
  base ≠ 0 ∧ ∀ r ∈ s.occupied, r.Apart ⟨0, none, base, max size 1⟩

instance (s : State) (base size : ℕ) : Decidable (s.Fresh base size) :=
  inferInstanceAs (Decidable (_ ∧ _))

/-- `TcbCtor` up to its reading of `MaxTlsIndex`; the memory comes from the heap or, for the
primary thread, from flexible memory. -/
def tcbCtor (s : State) (base : ℕ) : State :=
  { s with
    ctor := some ⟨base, s.maxTlsIndex⟩
    occupied := ⟨s.numThreads, none, base, s.totalTlsSize⟩ :: s.occupied }

def tcbInit (s : State) (c : Ctor) (module : Module) : State :=
  let tcb : Tcb := ⟨c.base, s.dtvGenerationCounter, List.replicate c.numDtvs 0⟩
  let s := { s with ctor := none, numThreads := s.numThreads + 1 }
  if module.imageSize = 0 then
    { s with threads := Function.update s.threads (s.numThreads - 1) (some tcb) }
  else if module.modid = 0 ∨ c.numDtvs < module.modid then
    { s with fault := some .badModid }
  else
    { s with
      threads := Function.update s.threads (s.numThreads - 1)
        (some { tcb with pointers := tcb.pointers.set (module.modid - 1) c.base })
      created := ⟨s.numThreads - 1, module.modid, c.base, module.image⟩ :: s.created }

/-- The part of `TlsGetAddr` that looks at the generation: the table, grown if need be. -/
def growTable (s : State) (tcb : Tcb) : Option Tcb :=
  if tcb.generation = s.dtvGenerationCounter then some tcb
  else if tcb.pointers.length < s.maxTlsIndex then
    some { tcb with
      generation := s.dtvGenerationCounter
      pointers := tcb.pointers ++ List.replicate (s.maxTlsIndex - tcb.pointers.length) 0 }
  else none

/-- The rest of `TlsGetAddr`, with `dest` for the answer of `heap_malloc`. -/
def findBlock (s : State) (tid : ℕ) (tcb : Tcb) (moduleIndex offset dest : ℕ) : Option State :=
  if moduleIndex = 0 ∨ tcb.pointers.length < moduleIndex then
    some { s with fault := some .outsideTable }
  else if tcb.pointer moduleIndex = 0 then
    match s.modules[moduleIndex - 1]? with
    | none => some { s with fault := some .outsideTable }
    | some module =>
        if s.Fresh dest module.imageSize then
          some { s with
            threads := Function.update s.threads tid
              (some { tcb with pointers := tcb.pointers.set (moduleIndex - 1) dest })
            occupied := ⟨tid, some moduleIndex, dest, max module.imageSize 1⟩ :: s.occupied
            created := ⟨tid, moduleIndex, dest, module.image⟩ :: s.created
            answers := ⟨tid, moduleIndex, offset, dest + offset⟩ :: s.answers }
        else none
  else
    some { s with
      threads := Function.update s.threads tid (some tcb)
      answers := ⟨tid, moduleIndex, offset, tcb.pointer moduleIndex + offset⟩ :: s.answers }

def tlsGetAddr (s : State) (tid : ℕ) (tcb : Tcb) (moduleIndex offset dest : ℕ) : Option State :=
  match s.growTable tcb with
  | none => some { s with fault := some .moduleUnloadingUnsupported }
  | some tcb => s.findBlock tid tcb moduleIndex offset dest

def heapFree (s : State) (base : ℕ) : State :=
  if ∃ r ∈ s.occupied, r.key ≠ none ∧ r.base = base then
    { s with occupied := s.occupied.filter fun r => r.base ≠ base }
  else { s with fault := some .notAllocated }

/-- The pointers that the loop of `TcbDtor` frees: entries outside the static block, and
not the last of them. -/
def freedBy (s : State) (tcb : Tcb) : List ℕ :=
  tcb.pointers.dropLast.filter fun p =>
    p ≠ 0 ∧ (p < tcb.base ∨ tcb.base + s.staticTlsSize < p)

def tcbDtor (s : State) (tid : ℕ) (tcb : Tcb) : State :=
  if s.maxTlsIndex < tcb.pointers.length then { s with fault := some .outOfBoundsDtvAccess }
  else
    let s := (s.freedBy tcb).foldl heapFree s
    { s with threads := Function.update s.threads tid none }

end State

inductive Action where
  /-- `LoadModule` in `LoadAndStartModule` -/
  | loadModule (file : Option TlsSegment)
  /-- `AdvanceGenerationCounter` there, if the module has a TLS image -/
  | advanceGenerationCounter (module : Module)
  | tcbCtor (base : ℕ)
  | tcbInit
  | tlsGetAddr (tid moduleIndex offset dest : ℕ)
  | tcbDtor (tid : ℕ)

namespace State

/-- A step of one of the threads. `TlsGetAddr` is called with the index of a module whose
load has passed the generation counter. -/
def step (s : State) (a : Action) : Option State :=
  if s.fault ≠ none then none
  else
    match a with
    | .loadModule file =>
        some { s.loadModule file true with loading := s.moduleOf file true :: s.loading }
    | .advanceGenerationCounter module =>
        if module ∈ s.loading then
          some { s with
            loading := s.loading.erase module
            dtvGenerationCounter := if module.imageSize ≠ 0 then s.dtvGenerationCounter + 1
              else s.dtvGenerationCounter }
        else none
    | .tcbCtor base =>
        if s.ctor = none ∧ s.Fresh base s.totalTlsSize then some (s.tcbCtor base) else none
    | .tcbInit =>
        match s.ctor, s.modules with
        | some c, module :: _ => some (s.tcbInit c module)
        | _, _ => none
    | .tlsGetAddr tid moduleIndex offset dest =>
        match s.threads tid with
        | none => none
        | some tcb =>
            if ∃ k ∈ s.modules, k.modid = moduleIndex ∧ k.modid ≠ 0 ∧ k ∉ s.loading then
              s.tlsGetAddr tid tcb moduleIndex offset dest
            else none
    | .tcbDtor tid => if s.ctor = none then (s.threads tid).map (s.tcbDtor tid) else none

end State

end OrbitConsole.Linker
