import Mathlib.Data.Int.Notation
import Mathlib.Data.Nat.Notation
import Mathlib.Logic.Function.Basic
import Mathlib.Tactic.Common

/-!
# Fibers

Fibers with the stacks that they are given, up to where they run. A stack is
aligned to 16 bytes, so the memory is one of words of 8 bytes, which are named by
their addresses. A pointer is its address, and zero is null.
-/

namespace OrbitConsole.Fiber

abbrev Words := ℕ → BitVec 64

def orbisOk : ℤ := 0
def errorNull : ℤ := 0x80590001 - 0x100000000
def errorAlignment : ℤ := 0x80590002 - 0x100000000
def errorRange : ℤ := 0x80590003 - 0x100000000
def errorInvalid : ℤ := 0x80590004 - 0x100000000

def kFiberSignature0 : BitVec 32 := 0xdef1649c
def kFiberSignature1 : BitVec 32 := 0xb37592a0
def kFiberOptSignature : BitVec 32 := 0xbb40e64d
def kFiberStackSignature : BitVec 64 := 0x7149f2ca7149f2ca
def kFiberStackSizeCheck : BitVec 64 := 0xdeadbeefdeadbeef

def contextMinimumSize : ℕ := 512

def contextSizeCheck : BitVec 32 := 0x10
def setFpuRegs : BitVec 32 := 0x100

inductive FiberState
  | run
  | idle
  | terminated
  deriving DecidableEq

structure OrbisFiber where
  magic_start : BitVec 32
  state : FiberState
  entry : ℕ
  initialize_arg : BitVec 64
  addr_context : ℕ
  size_context : ℕ
  name : List Char
  context : ℕ
  flags : BitVec 32
  context_start : ℕ
  context_end : ℕ
  magic_end : BitVec 32

/-- `strncpy` of a name into its field. -/
def copyName (name : List Char) : List Char := name.take 31

def fillCheck (mem : Words) (ptr : ℕ) : ℕ → Words
  | 0 => mem
  | n + 1 => fillCheck (Function.update mem ptr kFiberStackSizeCheck) (ptr + 8) n

def prepareStack (mem : Words) (start stop : ℕ) (check : Bool) : Words :=
  let mem := Function.update mem start kFiberStackSignature
  if check then fillCheck mem (start + 8) ((stop - (start + 8) + 7) / 8) else mem

def sceFiberAttachContext (mem : Words) (fiber : OrbisFiber) (addr_context size_context : ℕ) :
    ℤ × OrbisFiber × Words :=
  if size_context ≠ 0 ∧ size_context < contextMinimumSize then (errorRange, fiber, mem)
  else if size_context % 16 ≠ 0 then (errorInvalid, fiber, mem)
  else if addr_context = 0 ∨ size_context = 0 then (errorInvalid, fiber, mem)
  else if fiber.addr_context ≠ 0 then (errorInvalid, fiber, mem)
  else
    let fiber := { fiber with
      addr_context := addr_context
      size_context := size_context
      context_start := addr_context
      context_end := addr_context + size_context }
    (orbisOk, fiber, prepareStack mem fiber.context_start fiber.context_end
      (fiber.flags &&& contextSizeCheck ≠ 0))

/-- The arguments of `sceFiberInitializeImpl`; `opt_magic` is what an option points to. -/
structure InitializeArgs where
  fiber : ℕ
  name : Option (List Char)
  entry : ℕ
  initialize_arg : BitVec 64
  addr_context : ℕ
  size_context : ℕ
  opt_param : ℕ
  opt_magic : BitVec 32
  flags : BitVec 32
  /-- built for a firmware from 3.50 on -/
  fw_350 : Bool

/-- `sceFiberInitializeImpl`; `size_check` is the global `context_size_check`, and `old` what the
object holds before. -/
def sceFiberInitializeImpl (size_check : Bool) (mem : Words) (old : OrbisFiber)
    (args : InitializeArgs) : ℤ × OrbisFiber × Words :=
  match args.name with
  | none => (errorNull, old, mem)
  | some name =>
      if args.fiber = 0 ∨ args.entry = 0 then (errorNull, old, mem)
      else if args.fiber % 8 ≠ 0 ∨ args.addr_context % 16 ≠ 0 then (errorAlignment, old, mem)
      else if args.opt_param ≠ 0 ∧ args.opt_param % 8 ≠ 0 then (errorAlignment, old, mem)
      else if args.size_context ≠ 0 ∧ args.size_context < contextMinimumSize then
        (errorRange, old, mem)
      else if args.size_context % 16 ≠ 0 then (errorInvalid, old, mem)
      else if args.addr_context = 0 ∧ args.size_context ≠ 0 then (errorInvalid, old, mem)
      else if args.addr_context ≠ 0 ∧ args.size_context = 0 then (errorInvalid, old, mem)
      else if args.opt_param ≠ 0 ∧ args.opt_magic ≠ kFiberOptSignature then
        (errorInvalid, old, mem)
      else
        let user_flags := args.flags
        let user_flags := if args.fw_350 then user_flags ||| setFpuRegs else user_flags
        let user_flags := if size_check then user_flags ||| contextSizeCheck else user_flags
        let fiber := { old with
          name := copyName name
          entry := args.entry
          initialize_arg := args.initialize_arg
          addr_context := args.addr_context
          size_context := args.size_context
          context := 0
          flags := user_flags
          magic_start := kFiberSignature0
          magic_end := kFiberSignature1
          state := .idle }
        if args.addr_context ≠ 0 then
          let fiber := { fiber with
            context_start := args.addr_context
            context_end := args.addr_context + args.size_context }
          -- the flags of the call, not those of the fiber
          (orbisOk, fiber, prepareStack mem fiber.context_start fiber.context_end
            (args.flags &&& contextSizeCheck ≠ 0))
        else (orbisOk, fiber, mem)

/-! ### Queries -/

structure OrbisFiberInfo where
  entry : ℕ
  initialize_arg : BitVec 64
  addr_context : ℕ
  size_context : ℕ
  name : List Char
  size_context_margin : BitVec 64

def scan (mem : Words) (stack_end : ℕ) : ℕ → ℕ → Option ℕ
  | 0, _ => none
  | fuel + 1, stack_ptr =>
      if stack_ptr < stack_end then
        -- any other word leaves the pointer where it is
        scan mem stack_end fuel
          (if mem stack_ptr = kFiberStackSizeCheck then stack_ptr + 8 else stack_ptr)
      else some stack_ptr

def infoSize : ℕ := 128

/-- The arguments of `sceFiberGetInfo`: the addresses, and the size field of the information. -/
structure GetInfoArgs where
  fiber : ℕ
  fiber_info : ℕ
  size : ℕ

/-- `sceFiberGetInfo` with so many rounds for its loop; `none` if they are not enough. -/
def sceFiberGetInfo (fuel : ℕ) (mem : Words) (fiber : OrbisFiber) (args : GetInfoArgs) :
    Option (ℤ × Option OrbisFiberInfo) :=
  if args.fiber = 0 ∨ args.fiber_info = 0 then some (errorNull, none)
  else if args.fiber % 8 ≠ 0 ∨ args.fiber_info % 8 ≠ 0 then some (errorAlignment, none)
  else if args.size ≠ infoSize then some (errorInvalid, none)
  else if fiber.magic_start ≠ kFiberSignature0 ∨ fiber.magic_end ≠ kFiberSignature1 then
    some (errorInvalid, none)
  else
    let info (margin : BitVec 64) : OrbisFiberInfo :=
      { entry := fiber.entry
        initialize_arg := fiber.initialize_arg
        addr_context := fiber.addr_context
        size_context := fiber.size_context
        name := copyName fiber.name
        size_context_margin := margin }
    if fiber.flags &&& contextSizeCheck ≠ 0 ∧ fiber.addr_context ≠ 0 then
      if mem fiber.context_start = kFiberStackSignature then
        (scan mem fiber.context_end fuel (fiber.context_start + 8)).map fun stack_ptr =>
          (orbisOk, some (info (.ofNat 64 (stack_ptr - (fiber.context_start + 8)))))
      else some (orbisOk, some (info 0))
    else some (orbisOk, some (info (-1)))

def sceFiberRename (fiber : OrbisFiber) (name : List Char) : OrbisFiber :=
  { fiber with name := copyName name }

end OrbitConsole.Fiber
