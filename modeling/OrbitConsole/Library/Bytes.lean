import Mathlib.Algebra.Group.Nat.Defs
import Mathlib.Data.List.TakeWhile
import Mathlib.Data.Nat.Notation
import Mathlib.Tactic.Common

/-!
# Byte strings

Numbers as bytes in both orders, and reading from a byte string at an offset: a
number of bytes, or a string that ends with a zero byte.
-/

namespace Bytes

/-- The `k` low bytes of a number, lowest first. -/
def little : ℕ → ℕ → List UInt8
  | 0, _ => []
  | k + 1, n => UInt8.ofNat n :: little k (n / 256)

/-- The same bytes, highest first. -/
def big (k n : ℕ) : List UInt8 := (little k n).reverse

def ofLittle : List UInt8 → ℕ
  | [] => 0
  | b :: rest => b.toNat + 256 * ofLittle rest

def ofBig (bytes : List UInt8) : ℕ := ofLittle bytes.reverse

@[simp] theorem length_little (k n : ℕ) : (little k n).length = k := by
  induction k generalizing n with
  | zero => rfl
  | succ k ih => rw [little, List.length_cons, ih]

theorem ofLittle_little (k n : ℕ) : ofLittle (little k n) = n % 256 ^ k := by
  induction k generalizing n with
  | zero => exact (Nat.mod_one n).symm
  | succ k ih =>
      have hsplit : n % 256 ^ (k + 1) = n % 256 + 256 * (n / 256 % 256 ^ k) := by
        rw [Nat.pow_succ', Nat.mod_mul]
      rw [little, ofLittle, ih, UInt8.toNat_ofNat', hsplit]

theorem ofBig_big (k n : ℕ) : ofBig (big k n) = n % 256 ^ k := by
  rw [ofBig, big, List.reverse_reverse, ofLittle_little]

def slice (bytes : List UInt8) (offset len : ℕ) : Option (List UInt8) :=
  if offset + len ≤ bytes.length then some ((bytes.drop offset).take len) else none

theorem slice_append {before part after : List UInt8} {offset len : ℕ}
    (hoffset : offset = before.length) (hlen : len = part.length) :
    slice (before ++ part ++ after) offset len = some part := by
  subst hoffset hlen
  rw [slice, if_pos (by rw [List.length_append, List.length_append]; omega), List.append_assoc,
    List.drop_left, List.take_left]

def cstring (bytes : List UInt8) (offset : ℕ) : Option (List UInt8) :=
  if 0 ∈ bytes.drop offset then some ((bytes.drop offset).takeWhile (· ≠ 0)) else none

theorem takeWhile_zero {part : List UInt8} (h : 0 ∉ part) (after : List UInt8) :
    (part ++ 0 :: after).takeWhile (· ≠ 0) = part := by
  induction part with
  | nil => rfl
  | cons b part ih =>
      rw [List.mem_cons, not_or] at h
      rw [List.cons_append, List.takeWhile_cons_of_pos (by simpa using Ne.symm h.1), ih h.2]

theorem cstring_append {before part after : List UInt8} {offset : ℕ}
    (hoffset : offset = before.length) (h : 0 ∉ part) :
    cstring (before ++ (part ++ 0 :: after)) offset = some part := by
  subst hoffset
  rw [cstring, List.drop_left, if_pos (by simp), takeWhile_zero h]

theorem cstring_within {before part after : List UInt8} {offset : ℕ}
    (hzero : 0 ∈ part.drop offset) :
    cstring (before ++ part ++ after) (before.length + offset) =
      some ((part.drop offset).takeWhile (· ≠ 0)) := by
  have hlt : offset ≤ part.length := by
    by_contra hle
    rw [List.drop_eq_nil_of_le (by omega)] at hzero
    exact absurd hzero List.not_mem_nil
  obtain ⟨str, rest, hsplit, hstr⟩ : ∃ str rest, part.drop offset = str ++ 0 :: rest ∧ 0 ∉ str :=
    List.eq_append_cons_of_mem hzero
  rw [cstring, List.append_assoc, List.drop_length_add_append, List.drop_append_of_le_length hlt,
    hsplit, List.append_assoc, List.cons_append, if_pos (by simp), takeWhile_zero hstr,
    takeWhile_zero hstr]

end Bytes
