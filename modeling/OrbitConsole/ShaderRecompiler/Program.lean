import Mathlib.Logic.Function.Basic
import OrbitConsole.ShaderRecompiler.Opcode

/-!
# Programs of the shader IR

The instructions of a program, the pass that removes dead ones, and what a program
does: any number of invocations that each execute one instruction at a time, in any
order, on memory that they share.
-/

namespace OrbitConsole.ShaderRecompiler

/-- `IR::Value`: an immediate, or the result of an instruction, which has a number here. -/
inductive Value (V : Type)
  | imm (v : V)
  | inst (id : ℕ)

def Value.uses {V : Type} (value : Value V) (id : ℕ) : Bool :=
  match value with
  | .imm _ => false
  | .inst id' => id' = id

structure Inst (V : Type) where
  id : ℕ
  op : Opcode
  flags : ℕ := 0
  args : List (Value V) := []
  /-- for each predecessor, the operand of a phi -/
  phiArgs : List (ℕ × Value V) := []

/-- The instruction is a use of another one. -/
def Inst.uses {V : Type} (i : Inst V) (id : ℕ) : Bool :=
  i.args.any (·.uses id) || i.phiArgs.any (·.2.uses id)

/-- How a block ends, from the syntax list. -/
inductive Terminator (V : Type)
  | jump (target : ℕ)
  | branch (cond : Value V) (target₁ target₂ : ℕ)
  | exit

structure Program (V : Type) where
  entry : ℕ
  numBlocks : ℕ
  insts : ℕ → List (Inst V)
  terminator : ℕ → Terminator V
  postOrderBlocks : List ℕ

namespace Program

variable {V : Type}

def hasUses (p : Program V) (id : ℕ) : Bool :=
  (List.range p.numBlocks).any fun b => (p.insts b).any (·.uses id)

def erase (p : Program V) (block id : ℕ) : Program V :=
  { p with insts := Function.update p.insts block ((p.insts block).filter (·.id ≠ id)) }

def removeIfDead (block : ℕ) (p : Program V) (i : Inst V) : Program V :=
  if p.hasUses i.id = false ∧ i.op.mayHaveSideEffects = false then p.erase block i.id else p

def sweepBlock (p : Program V) (block : ℕ) : Program V :=
  (p.insts block).reverse.foldl (removeIfDead block) p

def deadCodeElimination (p : Program V) : Program V :=
  p.postOrderBlocks.foldl sweepBlock p

/-- No two instructions share a number, blocks that do not exist are empty, and branches are on
the result of a `ConditionRef`. -/
structure WellFormed (p : Program V) : Prop where
  unique : ∀ b b' i i', i ∈ p.insts b → i' ∈ p.insts b' → i.id = i'.id → b = b' ∧ i = i'
  empty : ∀ b, p.numBlocks ≤ b → p.insts b = []
  cond : ∀ b id b₁ b₂, p.terminator b = .branch (.inst id) b₁ b₂ →
    ∃ b' i, i ∈ p.insts b' ∧ i.id = id ∧ i.op = .conditionRef

/-- No instruction reads a variable: each was replaced by a value. -/
def ReadsNoVariable (p : Program V) : Prop :=
  ∀ b, ∀ i ∈ p.insts b, i.op.readsVariable = false

end Program

/-! ### Execution -/

/-- What the opcodes do. A result may depend on the arguments of all invocations, on the memory
and on which invocation it is; only opcodes with an external effect change the memory. -/
structure Semantics (V World Vars Event : Type) where
  undef : V
  truth : V → Bool
  value : Opcode → ℕ → ℕ → (ℕ → List V) → World → V
  readVariable : Opcode → ℕ → List V → Vars → V
  writeVariable : Opcode → ℕ → List V → Vars → Vars
  effect : Opcode → ℕ → ℕ → (ℕ → List V) → World → World × Event

/-- An invocation: the block that it is in and the one before, the instructions that are left,
the results so far and those that there were at the start of the block. -/
structure Invocation (V Vars : Type) where
  block : ℕ
  previous : ℕ
  rest : List (Inst V)
  results : ℕ → V
  entered : ℕ → V
  vars : Vars

structure Run (V World Vars : Type) where
  invocations : ℕ → Invocation V Vars
  world : World

variable {V World Vars Event : Type}

def Value.eval (value : Value V) (results : ℕ → V) : V :=
  match value with
  | .imm v => v
  | .inst id => results id

namespace Semantics

variable (sem : Semantics V World Vars Event)

def result (i : Inst V) (n : ℕ) (s : Run V World Vars) : V :=
  let t := s.invocations n
  if i.op = .phi then
    match i.phiArgs.find? (·.1 = t.previous) with
    | some operand => operand.2.eval t.entered
    | none => sem.undef
  else if i.op.readsVariable then
    sem.readVariable i.op i.flags (i.args.map (·.eval t.results)) t.vars
  else
    sem.value i.op i.flags n (fun k => i.args.map (·.eval (s.invocations k).results)) s.world

/-- The memory after an instruction, and what is seen of it. -/
def outcome (i : Inst V) (n : ℕ) (s : Run V World Vars) : World × List (ℕ × Event) :=
  if i.op.externalEffect = none then (s.world, [])
  else
    let (world, event) := sem.effect i.op i.flags n
      (fun k => i.args.map (·.eval (s.invocations k).results)) s.world
    (world, [(n, event)])

def exec (i : Inst V) (rest : List (Inst V)) (n : ℕ) (s : Run V World Vars) :
    Run V World Vars × List (ℕ × Event) :=
  let t := s.invocations n
  let vars := if i.op.writesVariable then
    sem.writeVariable i.op i.flags (i.args.map (·.eval t.results)) t.vars else t.vars
  ({ invocations := Function.update s.invocations n
        { t with
          rest := rest
          results := Function.update t.results i.id (sem.result i n s)
          vars := vars }
     world := (sem.outcome i n s).1 }, (sem.outcome i n s).2)

def enter (p : Program V) (block : ℕ) (n : ℕ) (s : Run V World Vars) : Run V World Vars :=
  let t := s.invocations n
  { s with
    invocations := Function.update s.invocations n
      { t with
        block := block
        previous := t.block
        rest := p.insts block
        entered := t.results } }

def step (p : Program V) (n : ℕ) (s : Run V World Vars) :
    Run V World Vars × List (ℕ × Event) :=
  match (s.invocations n).rest with
  | i :: rest => sem.exec i rest n s
  | [] =>
      match p.terminator (s.invocations n).block with
      | .exit => (s, [])
      | .jump target => (enter p target n s, [])
      | .branch cond target₁ target₂ =>
          (enter p (if sem.truth (cond.eval (s.invocations n).results) then target₁ else target₂)
            n s, [])

def run (p : Program V) : List ℕ → Run V World Vars → Run V World Vars × List (ℕ × Event)
  | [], s => (s, [])
  | n :: schedule, s =>
      let r := sem.step p n s
      let r' := run p schedule r.1
      (r'.1, r.2 ++ r'.2)

end Semantics

def Program.start (p : Program V) (results : ℕ → ℕ → V) (vars : ℕ → Vars) (world : World) :
    Run V World Vars where
  invocations n :=
    { block := p.entry
      previous := p.entry
      rest := p.insts p.entry
      results := results n
      entered := results n
      vars := vars n }
  world := world

end OrbitConsole.ShaderRecompiler
