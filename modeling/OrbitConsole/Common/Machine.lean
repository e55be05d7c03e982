import Mathlib.Order.Basic
import Mathlib.Tactic.Common

/-!
# Unsigned 64-bit arithmetic and assertions

Addresses and sizes are `u64` in the source. They are kept as natural numbers
here, and the operations that can wrap around are `add64` and `sub64`; on
values that stay in range they are the ordinary operations.

A call either returns or stops. It stops at an `ASSERT`, at an operation the
language leaves undefined (dereferencing `end ()`, dividing by zero), or it
never comes back from a loop; `Fault` says which.
-/

namespace OrbitConsole

def add64 (a b : ℕ) : ℕ := (a + b) % 18446744073709551616

def sub64 (a b : ℕ) : ℕ :=
  (a + (18446744073709551616 - b % 18446744073709551616)) % 18446744073709551616

@[simp] theorem add64_eq {a b : ℕ} (h : a + b < 18446744073709551616) :
    add64 a b = a + b :=
  Nat.mod_eq_of_lt h

@[simp] theorem sub64_eq {a b : ℕ} (h : b ≤ a) (ha : a < 18446744073709551616) :
    sub64 a b = a - b := by
  unfold sub64
  omega

theorem add64_lt (a b : ℕ) : add64 a b < 18446744073709551616 :=
  Nat.mod_lt _ (by omega)

theorem sub64_lt (a b : ℕ) : sub64 a b < 18446744073709551616 :=
  Nat.mod_lt _ (by omega)

def alignUp (value size : ℕ) : ℕ :=
  let mod := value % size
  let value := value - mod
  if mod = 0 then value else add64 value size

def alignDown (value size : ℕ) : ℕ := value - value % size

/-- Why a call does not return. -/
inductive Fault where
  | assertion (msg : String)
  | undefined
  | diverges
  deriving DecidableEq, Repr

/-- A computation that returns a value or stops with a fault. -/
abbrev Exec := Except Fault

def assertMsg (cond : Prop) [Decidable cond] (msg : String) : Exec Unit :=
  if cond then .ok () else .error (.assertion msg)

namespace Exec

universe u

variable {α β : Type u}

theorem bind_eq_ok {x : Exec α} {f : α → Exec β} {b : β} :
    x >>= f = .ok b ↔ ∃ a, x = .ok a ∧ f a = .ok b := by
  cases x with
  | error e => simp [bind, Except.bind]
  | ok a => simp [bind, Except.bind]

theorem map_eq_ok {x : Exec α} {f : α → β} {b : β} :
    f <$> x = .ok b ↔ ∃ a, x = .ok a ∧ f a = b := by
  cases x with
  | error e => simp [Functor.map, Except.map]
  | ok a => simp [Functor.map, Except.map]

@[simp] theorem pure_eq_ok {a b : α} : (pure a : Exec α) = .ok b ↔ a = b := by
  simp [pure, Except.pure]

@[simp] theorem throw_ne_ok {e : Fault} {b : α} : ¬ (throw e : Exec α) = .ok b := by
  simp [throw, throwThe, MonadExceptOf.throw]

/-- `x` returns only values that satisfy `Q`, and it does return when `total` holds. With
`total := False` this is partial correctness, with `total := True` total correctness. -/
def Spec (total : Prop) (x : Exec α) (Q : α → Prop) : Prop :=
  (total → ∃ a, x = .ok a) ∧ ∀ a, x = .ok a → Q a

variable {total : Prop} {x : Exec α} {Q Q' : α → Prop} {R : β → Prop}

theorem Spec.of_ok {a : α} (h : x = .ok a) (hQ : Q a) : Spec total x Q := by
  refine ⟨fun _ => ⟨a, h⟩, fun b hb => ?_⟩
  obtain rfl : a = b := Except.ok.inj (h.symm.trans hb)
  exact hQ

theorem Spec.pure {a : α} (hQ : Q a) : Spec total (Pure.pure a) Q :=
  Spec.of_ok rfl hQ

theorem Spec.mono (h : Spec total x Q) (hQ : ∀ a, Q a → Q' a) : Spec total x Q' :=
  ⟨h.1, fun a ha => hQ a (h.2 a ha)⟩

theorem Spec.bind {f : α → Exec β} (hx : Spec total x Q)
    (hf : ∀ a, Q a → Spec total (f a) R) : Spec total (x >>= f) R := by
  refine ⟨fun ht => ?_, fun b hb => ?_⟩
  · obtain ⟨a, ha⟩ := hx.1 ht
    obtain ⟨b, hb⟩ := (hf a (hx.2 a ha)).1 ht
    exact ⟨b, bind_eq_ok.2 ⟨a, ha, hb⟩⟩
  · obtain ⟨a, ha, hb⟩ := bind_eq_ok.1 hb
    exact (hf a (hx.2 a ha)).2 b hb

def Avoids (msg : String) (x : Exec α) : Prop := x ≠ .error (.assertion msg)

variable {msg : String}

theorem Avoids.of_returns (h : ∃ a, x = .ok a) : Avoids msg x := by
  obtain ⟨a, rfl⟩ := h
  intro h
  cases h

@[simp] theorem avoids_pure (a : α) : Avoids msg (Pure.pure a : Exec α) :=
  .of_returns ⟨a, rfl⟩

@[simp] theorem avoids_undefined : Avoids msg (throw .undefined : Exec α) := by
  intro h
  cases h

@[simp] theorem avoids_diverges : Avoids msg (throw .diverges : Exec α) := by
  intro h
  cases h

theorem Avoids.bind {f : α → Exec β} (hx : Avoids msg x)
    (hf : ∀ a, x = .ok a → Avoids msg (f a)) : Avoids msg (x >>= f) := by
  cases x with
  | error e => exact fun h => hx (by cases h; rfl)
  | ok a => exact hf a rfl

theorem Avoids.map {f : α → β} (hx : Avoids msg x) : Avoids msg (f <$> x) := by
  cases x with
  | error e => exact fun h => hx (by cases h; rfl)
  | ok a => exact .of_returns ⟨f a, rfl⟩

end Exec

open Exec in
theorem assertMsg_avoids {cond : Prop} [Decidable cond] {msg msg' : String}
    (h : cond ∨ msg' ≠ msg) : Avoids msg (assertMsg cond msg') := by
  unfold assertMsg
  split
  · next hc => exact .of_returns ⟨(), rfl⟩
  · next hc =>
      intro heq
      cases heq
      exact h.elim hc (fun hne => hne rfl)

open Exec in
theorem assertMsg_spec {total cond : Prop} [Decidable cond] {msg : String}
    (h : total → cond) : Spec total (assertMsg cond msg) fun _ => cond := by
  unfold assertMsg
  split
  · next hc => exact Spec.of_ok rfl hc
  · next hc => exact ⟨fun ht => absurd (h ht) hc, fun _ ha => by cases ha⟩

@[simp] theorem assertMsg_eq_ok {cond : Prop} [Decidable cond] {msg : String} {u : Unit} :
    assertMsg cond msg = .ok u ↔ cond := by
  unfold assertMsg
  split <;> simp [*]

end OrbitConsole
