import OrbitConsole.Library.Search
import OrbitConsole.ShaderRecompiler.ConstantPropagation

/-!
# Barriers for shared memory

The pass goes over the syntax list of a compute shader. It puts barriers between
the loads and the stores of a block, before the last instruction of a block that
accesses shared memory, and where the invocations of a divergent branch meet
again.
-/

namespace OrbitConsole.ShaderRecompiler

inductive SyntaxNode
  | block (block : ℕ)
  | ifNode (cond : Value Datum) (body merge : ℕ)
  | endIf (merge : ℕ)
  | loop (body continue_block merge : ℕ)
  | repeatNode (cond : Value Datum) (loop_header merge : ℕ)
  | breakNode (cond : Value Datum) (merge skip : ℕ)
  | returnNode
  | unreachable

def Inst.isLoadShared (inst : Inst Datum) : Bool :=
  inst.op = .loadSharedU16 || inst.op = .loadSharedU32 || inst.op = .loadSharedU64

def Inst.isWriteShared (inst : Inst Datum) : Bool :=
  inst.op = .writeSharedU16 || inst.op = .writeSharedU32 || inst.op = .writeSharedU64

/-! ### Divergent conditions -/

def localInvocationId : ℕ := 76

namespace Program

variable (p : Program Datum)

def instRecursive (value : Value Datum) : Option ℕ :=
  match p.resolve (p.all.length + 1) value with
  | .ok (.inst id) => some id
  | _ => none

def operandInsts (id : ℕ) : List ℕ :=
  match p.find? id with
  | none => []
  | some inst =>
      let args := if inst.op = .phi then inst.phiArgs.map Prod.snd else inst.args
      args.reverse.filterMap p.instRecursive

def readsLocalInvocationId (id : ℕ) : Bool :=
  match p.find? id with
  | none => false
  | some inst =>
      match inst.op, inst.args with
      | .getAttributeU32, .imm (.attribute a) :: _ => a = localInvocationId
      | _, _ => false

def isDivergentCond (cond : Value Datum) : Bool :=
  match p.instRecursive cond with
  | none => false
  | some id =>
      if p.readsLocalInvocationId id then true
      else Search.search p.operandInsts p.readsLocalInvocationId (p.all.length + 1) [] [id]
        = some true

end Program

/-! ### The pass -/

inductive BarrierAction
  | none
  | barrierOnWrite
  | barrierOnRead
  deriving DecidableEq

def newBarrier (next : ℕ) : Inst Datum := { id := next, op := .barrier }

/-- The loop over the instructions of a block; `next` is the number of the next new one. -/
def emitBarriers : BarrierAction → ℕ → List (Inst Datum) → List (Inst Datum) × BarrierAction × ℕ
  | action, next, [] => ([], action, next)
  | action, next, inst :: rest =>
      if inst.isLoadShared then
        if action = .barrierOnRead then
          let r := emitBarriers .barrierOnWrite (next + 1) rest
          (newBarrier next :: inst :: r.1, r.2)
        else
          let r := emitBarriers .barrierOnWrite next rest
          (inst :: r.1, r.2)
      else if inst.isWriteShared then
        if action = .barrierOnWrite then
          let r := emitBarriers .barrierOnRead (next + 1) rest
          (newBarrier next :: inst :: r.1, r.2)
        else
          let r := emitBarriers .barrierOnRead next rest
          (inst :: r.1, r.2)
      else
        let r := emitBarriers action next rest
        (inst :: r.1, r.2)

def emitBarrierInBlock (next : ℕ) (insts : List (Inst Datum)) : List (Inst Datum) × ℕ :=
  let (insts, action, next) := emitBarriers .none next insts
  if action ≠ .none then
    -- `--block->end()` is the last instruction
    (insts.take (insts.length - 1) ++ newBarrier next :: insts.drop (insts.length - 1), next + 1)
  else (insts, next)

def emitBarrierAfterPhis (next : ℕ) (insts : List (Inst Datum)) : List (Inst Datum) :=
  insts.takeWhile (·.op = .phi) ++ newBarrier next :: insts.dropWhile (·.op = .phi)

/-- What the pass has done so far; `divergence_depth` is a `u32`. -/
structure BarrierPass where
  insts : ℕ → List (Inst Datum)
  next : ℕ
  divergence_depth : ℕ := 0
  divergence_end : List ℕ := []

namespace BarrierPass

def emitBarrierInMergeBlock (p : Program Datum) (s : BarrierPass) (cond : Value Datum)
    (merge : ℕ) : BarrierPass :=
  if p.isDivergentCond cond then
    let s :=
      if s.divergence_depth = 0 then
        { s with
          insts := Function.update s.insts merge (emitBarrierAfterPhis s.next (s.insts merge))
          next := s.next + 1 }
      else s
    { s with
      divergence_depth := (s.divergence_depth + 1) % 2 ^ 32
      divergence_end := merge :: s.divergence_end }
  else s

def visit (p : Program Datum) (s : BarrierPass) : SyntaxNode → BarrierPass
  | .endIf merge =>
      if merge ∈ s.divergence_end then
        { s with divergence_depth := (s.divergence_depth + (2 ^ 32 - 1)) % 2 ^ 32 }
      else s
  | .ifNode cond _ merge => s.emitBarrierInMergeBlock p cond merge
  | .block block =>
      if s.divergence_depth = 0 then
        let r := emitBarrierInBlock s.next (s.insts block)
        { s with insts := Function.update s.insts block r.1, next := r.2 }
      else s
  | _ => s

end BarrierPass

/-- What the pass reads of the program's stage, the runtime info and the profile. -/
structure BarrierInfo where
  isCompute : Bool
  shared_memory_size : ℕ
  workgroup_size : ℕ × ℕ × ℕ
  needs_lds_barriers : Bool

def gcnSubgroupSize : ℕ := 64

/-- The pass has something to do. -/
def BarrierInfo.applies (info : BarrierInfo) : Bool :=
  let threadgroup_size :=
    info.workgroup_size.1 * info.workgroup_size.2.1 * info.workgroup_size.2.2 % 2 ^ 32
  info.isCompute && !(info.shared_memory_size = 0 || threadgroup_size ≠ gcnSubgroupSize ||
    !info.needs_lds_barriers)

def barrierPassAfter (p : Program Datum) (nodes : List SyntaxNode) : BarrierPass :=
  nodes.foldl (BarrierPass.visit p) { insts := p.insts, next := p.fresh }

def sharedMemoryBarrierPass (info : BarrierInfo) (p : Program Datum)
    (syntax_list : List SyntaxNode) : Program Datum :=
  if info.applies then { p with insts := (barrierPassAfter p syntax_list).insts } else p

end OrbitConsole.ShaderRecompiler
