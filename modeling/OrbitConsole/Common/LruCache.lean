import Mathlib.Algebra.Group.Nat.Defs
import Mathlib.Algebra.Group.Int.Defs
import Mathlib.Data.Int.Notation
import Mathlib.Logic.Function.Basic
import OrbitConsole.Common.Machine

/-!
# The cache of the least recently used objects

A doubly linked list over a pool of items, which are used again when they have been freed.
-/

namespace OrbitConsole.Common

namespace Lru

structure Item (ObjectType : Type) where
  obj : ObjectType
  tick : ℕ
  next : Option ℕ := none
  prev : Option ℕ := none

/-- `LeastRecentlyUsedCache`. Items are pointed to by their place in the pool. -/
structure Cache (ObjectType : Type) where
  item : ℕ → Item ObjectType
  pool_size : ℕ := 0
  free_items : List ℕ := []
  first_item : Option ℕ := none
  last_item : Option ℕ := none

namespace Cache

variable {ObjectType : Type} (c : Cache ObjectType)

def next (id : ℕ) : Option ℕ := (c.item id).next

def prev (id : ℕ) : Option ℕ := (c.item id).prev

def setNext (id : ℕ) (next : Option ℕ) : Cache ObjectType :=
  { c with item := Function.update c.item id { c.item id with next := next } }

def setPrev (id : ℕ) (prev : Option ℕ) : Cache ObjectType :=
  { c with item := Function.update c.item id { c.item id with prev := prev } }

def setTick (id tick : ℕ) : Cache ObjectType :=
  { c with item := Function.update c.item id { c.item id with tick := tick } }

def setObj (id : ℕ) (obj : ObjectType) : Cache ObjectType :=
  { c with item := Function.update c.item id { c.item id with obj := obj } }

def build : ℕ × Cache ObjectType :=
  match c.free_items with
  | [] => (c.pool_size, ({ c with pool_size := c.pool_size + 1 }.setNext c.pool_size none).setPrev
      c.pool_size none)
  | item_id :: rest =>
      (item_id, ({ c with free_items := rest }.setNext item_id none).setPrev item_id none)

def attach (id : ℕ) : Cache ObjectType :=
  let c := if c.first_item = none then { c with first_item := some id } else c
  match c.last_item with
  | none => { c with last_item := some id }
  | some last =>
      { ((c.setPrev id (some last)).setNext last (some id)).setNext id none with
        last_item := some id }

/-- The item before one, if there is one, points to the next one, and the other way round. -/
def bypass (id : ℕ) : Cache ObjectType :=
  let c := match c.prev id with
    | some prev => c.setNext prev (c.next id)
    | none => c
  match c.next id with
  | some next => c.setPrev next (c.prev id)
  | none => c

def dropFirst (id : ℕ) : Cache ObjectType :=
  if c.first_item = some id then
    match c.next id with
    | some first => { c.setPrev first none with first_item := some first }
    | none => { c with first_item := none }
  else c

def dropLast (id : ℕ) : Cache ObjectType :=
  if c.last_item = some id then
    match c.prev id with
    | some last => { c.setNext last none with last_item := some last }
    | none => { c with last_item := none }
  else c

def detach (id : ℕ) : Cache ObjectType := ((c.bypass id).dropFirst id).dropLast id

def insert (obj : ObjectType) (tick : ℕ) : ℕ × Cache ObjectType :=
  let (new_id, c) := c.build
  (new_id, ((c.setObj new_id obj).setTick new_id tick).attach new_id)

def touch (id tick : ℕ) : Cache ObjectType :=
  if tick ≤ (c.item id).tick then c
  else
    let c := c.setTick id tick
    if c.last_item = some id then c else (c.detach id).attach id

def free (id : ℕ) : Cache ObjectType :=
  let c := c.detach id
  let c := (c.setPrev id none).setNext id none
  { c with free_items := c.free_items ++ [id] }

end Cache

/-! ### The visit -/

/-- What a visitor does with an object: it may free the item, and it returns a value. -/
structure Visit (σ : Type) where
  state : σ
  frees : Bool := false
  result : Bool := false

/-- `RETURNS_BOOL`. The type `std::invoke_result` is compared, which is a structure, and not
the type that it names. -/
def returnsBool : Bool := false

/-- `static_cast<s64>`. -/
def toSigned (x : ℕ) : ℤ := if x < 2 ^ 63 then (x : ℤ) else (x : ℤ) - 2 ^ 64

/-- Whether the difference of two ticks is negative, where it does not overflow. -/
def isBelow (tick itemTick : ℕ) : Exec Bool :=
  let difference := toSigned tick - toSigned itemTick
  if -2 ^ 63 ≤ difference ∧ difference < 2 ^ 63 then .ok (decide (difference < 0))
  else .error .undefined

/-- The end of a visit: the cache, the state of the visitor and the items that it was called
on. -/
structure Visited (ObjectType σ : Type) where
  cache : Cache ObjectType
  state : σ
  called : List ℕ := []

variable {ObjectType σ : Type}

def visitFrom (tick : ℕ) (func : σ → ObjectType → Visit σ) :
    ℕ → Option ℕ → Cache ObjectType → σ → Exec (Visited ObjectType σ)
  | _, none, c, s => .ok { cache := c, state := s }
  | 0, some _, _, _ => .error .diverges
  | fuel + 1, some id, c, s => do
      if (← isBelow tick (c.item id).tick) = true then return { cache := c, state := s }
      else
        let next := c.next id
        let visit := func s (c.item id).obj
        let c := if visit.frees then c.free id else c
        if returnsBool && visit.result then
          return { cache := c, state := visit.state, called := [id] }
        else
          let rest ← visitFrom tick func fuel next c visit.state
          return { rest with called := id :: rest.called }

def Cache.forEachItemBelow (c : Cache ObjectType) (tick : ℕ)
    (func : σ → ObjectType → Visit σ) (s : σ) : Exec (Visited ObjectType σ) :=
  visitFrom tick func c.pool_size c.first_item c s

end Lru

end OrbitConsole.Common
