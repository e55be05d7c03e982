import OrbitConsole.Core.Cpu.Precise

/-!
# The loop of the interpreter

`ExecuteRegistersContext` takes steps until one does not continue, a flag is set or the budget
is spent.
-/

namespace OrbitConsole.Cpu

def maxInterpreterSteps : ℕ := 500000

structure Context where
  machine : Machine
  instruction_counter : ℕ := 0
  halted : Bool := false
  suspended : Bool := false

/-- How the loop is left: the context, the number of steps and the result of the last, which is
`none` if it continues or there is none. -/
structure Leaving where
  context : Context
  steps : ℕ := 0
  last : Option StepResult := none

namespace Context

/-- The flags after a step that does not continue: those that `Step` sets, and `suspended` at a
fault and at an unsupported instruction. -/
def stopped (c : Context) (s : Stop) : Context :=
  { c with
    machine := s.after
    halted := c.halted || s.halted
    suspended := c.suspended || s.suspended || decide (s.result ≠ .halt) }

def interpreterLoop (c : Context) : Leaving :=
  if c.instruction_counter < maxInterpreterSteps ∧ c.halted = false ∧ c.suspended = false then
    match Kept.step c.machine with
    | .ok m =>
        let rest := interpreterLoop
          { c with machine := m, instruction_counter := c.instruction_counter + 1 }
        { rest with steps := rest.steps + 1 }
    | .error s => { context := c.stopped s, steps := 1, last := some s.result }
  else { context := c }
termination_by maxInterpreterSteps - c.instruction_counter
decreasing_by omega

/-- `ExecuteRegistersContext`: a context whose budget is spent is suspended. -/
def executeRegistersContext (c : Context) : Leaving :=
  let l := c.interpreterLoop
  if maxInterpreterSteps ≤ l.context.instruction_counter then
    { l with context := { l.context with suspended := true } }
  else l

end Context

/-- The context that `ExecuteEntry` starts from, with a cleared stack of 64 KiB at `stack`. -/
def entryContext (mem : Memory) (entry_pc entry_params exit_func stack : U64) : Context where
  machine :=
    { gpr := fun reg =>
        if reg = 7 then entry_params
        else if reg = 6 then exit_func
        else if reg = rspIndex then stack + 0x10000 - 8
        else 0
      rip := entry_pc
      rflags := 0x202
      xmm := fun _ _ => 0
      mem := fun a => if (a - stack).toNat < 0x10000 then 0 else mem a
      accesses := [] }

def executeEntry (mem : Memory) (entry_pc entry_params exit_func stack : U64) : Bool :=
  if entry_pc = 0 then false
  else
    let l := (entryContext mem entry_pc entry_params exit_func stack).executeRegistersContext
    l.context.halted

namespace Machine

def afterSteps (m : Machine) : ℕ → Option Machine
  | 0 => some m
  | n + 1 =>
      match Kept.step m with
      | .ok m' => m'.afterSteps n
      | .error _ => none

def returnsToZero (m : Machine) : Prop :=
  m.rip ≠ 0 ∧ (m.mem m.rip = 0xc3 ∨ m.mem m.rip = 0xc2 ∧ m.rip + 1 ≠ 0) ∧
    m.gpr rspIndex ≠ 0 ∧ load m.mem (m.gpr rspIndex) 8 = 0

end Machine

end OrbitConsole.Cpu
