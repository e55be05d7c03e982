import Mathlib.Data.Nat.Notation
import Mathlib.Tactic.Common

/-!
# Unsigned 32-bit counters

Counters of the source that are `u32`, kept as natural numbers.
-/

namespace OrbitConsole

def incU32 (v : ℕ) : ℕ := (v + 1) % 4294967296

def decU32 (v : ℕ) : ℕ := (v + 4294967295) % 4294967296

theorem incU32_eq {v : ℕ} (h : v < 4294967295) : incU32 v = v + 1 := by
  unfold incU32
  omega

theorem decU32_eq {v : ℕ} (h : 0 < v) (h' : v < 4294967296) : decU32 v = v - 1 := by
  unfold decU32
  omega

end OrbitConsole
