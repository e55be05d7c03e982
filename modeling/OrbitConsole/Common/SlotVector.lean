import Mathlib.Logic.Function.Basic
import OrbitConsole.Common.Counter

/-!
# Slot vectors

`SlotVector<T>`: the objects, a bit for each slot that holds one, and the slots that
are free, of which the last one is taken first. The array of objects is a function; a
slot without an object has none.
-/

namespace OrbitConsole.Common

/-- `std::numeric_limits<u32>::max() + 1`: an index has 32 bits. -/
def indexRange : ℕ := 4294967296

def initialCapacity : ℕ := 2048

structure SlotVector (T : Type*) where
  values : ℕ → Option T
  values_capacity : ℕ
  stored_bitset : List (BitVec 64)
  free_list : List ℕ

namespace SlotVector

variable {T : Type*}

/-! ### The bits -/

def wordOf (words : List (BitVec 64)) (index : ℕ) : BitVec 64 := words.getD (index / 64) 0

def readStorageBit (v : SlotVector T) (index : ℕ) : Bool :=
  (wordOf v.stored_bitset index >>> (index % 64)) &&& 1 ≠ 0

def setStorageBit (v : SlotVector T) (index : ℕ) : SlotVector T :=
  { v with
    stored_bitset := v.stored_bitset.set (index / 64)
      (wordOf v.stored_bitset index ||| (1 : BitVec 64) <<< (index % 64)) }

def resetStorageBit (v : SlotVector T) (index : ℕ) : SlotVector T :=
  { v with
    stored_bitset := v.stored_bitset.set (index / 64)
      (wordOf v.stored_bitset index &&& ~~~((1 : BitVec 64) <<< (index % 64))) }

def isAllocated (v : SlotVector T) (id : ℕ) : Bool := v.readStorageBit id

/-- `operator[]`. -/
def get (v : SlotVector T) (id : ℕ) : Option T := v.values id

/-! ### Growing -/

/-- The inner loop of `Reserve`: the objects of one word move over. -/
def moveWord (old : ℕ → Option T) (index bit : ℕ) (bits : BitVec 64) (new : ℕ → Option T) :
    ℕ → Option T :=
  if bits = 0 then new
  else
    let i := index + bit
    let new := if bits &&& 1 = 0 then new else Function.update new i (old i)
    moveWord old index (bit + 1) (bits >>> 1) new
termination_by bits.toNat
decreasing_by
  rename_i h
  have hpos : 0 < bits.toNat := by
    have hne : bits.toNat ≠ 0 := fun h' => h (BitVec.eq_of_toNat_eq (by simpa using h'))
    omega
  rw [BitVec.toNat_ushiftRight, Nat.shiftRight_eq_div_pow]
  omega

/-- The outer loop, over the words. -/
def moveWords (old : ℕ → Option T) : ℕ → List (BitVec 64) → (ℕ → Option T) → ℕ → Option T
  | _, [], new => new
  | index, bits :: rest, new => moveWords old (index + 64) rest (moveWord old index 0 bits new)

/-- `stored_bitset.resize`. -/
def resizeWords (words : List (BitVec 64)) (n : ℕ) : List (BitVec 64) :=
  words.take n ++ List.replicate (n - words.length) 0

/-- `std::iota` from the back of the list that was resized. -/
def newIndices (first n : ℕ) : List ℕ :=
  ((List.range n).map fun i => (first % indexRange + i) % indexRange).reverse

def reserve (v : SlotVector T) (new_capacity : ℕ) : SlotVector T where
  values := moveWords v.values 0 v.stored_bitset fun _ => none
  values_capacity := new_capacity
  stored_bitset := resizeWords v.stored_bitset ((new_capacity + 63) / 64)
  free_list := v.free_list ++ newIndices v.values_capacity (new_capacity - v.values_capacity)

/-- The constructor. -/
def create : SlotVector T := reserve ⟨fun _ => none, 0, [], []⟩ initialCapacity

def makeRoom (v : SlotVector T) : SlotVector T :=
  if v.free_list = [] then
    v.reserve (if v.values_capacity ≠ 0 then v.values_capacity <<< 1 else 1)
  else v

def freeValueIndex (v : SlotVector T) : ℕ × SlotVector T :=
  let v := v.makeRoom
  (v.free_list.getLastD 0, { v with free_list := v.free_list.dropLast })

/-! ### Inserting and erasing -/

def insert (v : SlotVector T) (x : T) : ℕ × SlotVector T :=
  let (index, v) := v.freeValueIndex
  (index, { v with values := Function.update v.values index (some x) }.setStorageBit index)

def erase (v : SlotVector T) (id : ℕ) : SlotVector T :=
  { v with
    values := Function.update v.values id none
    free_list := v.free_list ++ [id] }.resetStorageBit id

def size (v : SlotVector T) : ℕ := v.values_capacity - v.free_list.length

/-! ### Iterating -/

/-- `AdvanceToValid`. The capacity is compared as an index. -/
def advanceToValid (v : SlotVector T) (slot : ℕ) : ℕ :=
  if slot < v.values_capacity % indexRange ∧ v.readStorageBit slot = false then
    v.advanceToValid (slot + 1)
  else slot
termination_by v.values_capacity % indexRange - slot

def beginSlot (v : SlotVector T) : ℕ := v.advanceToValid 0

def endSlot (v : SlotVector T) : ℕ := v.advanceToValid (v.values_capacity % indexRange)

/-- The slots that a loop up to `end` visits, if it ends within the given number of steps. -/
def visit (v : SlotVector T) : ℕ → ℕ → Option (List ℕ)
  | 0, _ => none
  | n + 1, slot =>
      if slot = v.endSlot then some []
      else (v.visit n (v.advanceToValid (incU32 slot))).map (slot :: ·)

end SlotVector

end OrbitConsole.Common
