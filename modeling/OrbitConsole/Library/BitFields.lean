import Mathlib.Algebra.GroupWithZero.Nat
import Mathlib.Data.Nat.Bits
import Mathlib.Tactic.Common

/-!
# Bit fields

A field of a bit vector is a run of its bits. `uextract` and `sextract` read one, `insert`
replaces one, and `pack` and `unpack` cut a vector into fields of given sizes from the lowest
bit on.
-/

namespace BitField

variable {w : ℕ} {x y base : BitVec w} {offset count i : ℕ}

/-- The vector with the given bits. -/
def ofBits : (w : ℕ) → (ℕ → Bool) → BitVec w
  | 0, _ => 0#0
  | w + 1, f => BitVec.cons (f w) (ofBits w f)

@[simp] theorem getLsbD_ofBits (f : ℕ → Bool) (h : i < w) : (ofBits w f).getLsbD i = f i := by
  induction w with
  | zero => exact absurd h (Nat.not_lt_zero i)
  | succ w ih =>
      rw [ofBits, BitVec.getLsbD_cons]
      split
      · next heq => rw [heq]
      · next hne => exact ih (by omega)

/-- The field at `offset`, extended with zeros. -/
def uextract (x : BitVec w) (offset count : ℕ) : BitVec w :=
  ofBits w fun i => decide (i < count) && x.getLsbD (offset + i)

/-- The field at `offset`, extended with its highest bit; an empty one is zero. -/
def sextract (x : BitVec w) (offset count : ℕ) : BitVec w :=
  ofBits w fun i => decide (0 < count) && x.getLsbD (offset + min i (count - 1))

def insert (base x : BitVec w) (offset count : ℕ) : BitVec w :=
  ofBits w fun i =>
    if offset ≤ i ∧ i < offset + count then x.getLsbD (i - offset) else base.getLsbD i

theorem getLsbD_uextract (h : i < w) :
    (uextract x offset count).getLsbD i = (decide (i < count) && x.getLsbD (offset + i)) :=
  getLsbD_ofBits _ h

theorem toNat_uextract : (uextract x offset count).toNat = x.toNat / 2 ^ offset % 2 ^ count := by
  refine Nat.eq_of_testBit_eq fun i => ?_
  rw [BitVec.testBit_toNat, Nat.testBit_mod_two_pow, Nat.testBit_div_two_pow, BitVec.testBit_toNat]
  by_cases hi : i < w
  · rw [getLsbD_uextract hi, Nat.add_comm]
  · rw [BitVec.getLsbD_of_ge _ _ (Nat.not_lt.1 hi), BitVec.getLsbD_of_ge _ _ (by omega),
      Bool.and_false]

theorem getLsbD_sextract (h : i < w) : (sextract x offset count).getLsbD i =
    (decide (0 < count) && x.getLsbD (offset + min i (count - 1))) :=
  getLsbD_ofBits _ h

theorem getLsbD_insert (h : i < w) : (insert base x offset count).getLsbD i =
    if offset ≤ i ∧ i < offset + count then x.getLsbD (i - offset) else base.getLsbD i :=
  getLsbD_ofBits _ h

def lowMask (w count : ℕ) : BitVec w := ofBits w fun i => decide (i < count)

theorem getLsbD_lowMask (h : i < w) : (lowMask w count).getLsbD i = decide (i < count) :=
  getLsbD_ofBits _ h

theorem ushiftRight_and_lowMask : x >>> offset &&& lowMask w count = uextract x offset count := by
  refine BitVec.eq_of_getLsbD_eq fun i hi => ?_
  rw [BitVec.getLsbD_and, BitVec.getLsbD_ushiftRight, getLsbD_lowMask hi, getLsbD_uextract hi,
    Bool.and_comm]

theorem sshiftRight_shiftLeft (hcount : 0 < count) (h : offset + count ≤ w) :
    (x <<< (w - (offset + count))).sshiftRight (w - count) = sextract x offset count := by
  refine BitVec.eq_of_getLsbD_eq fun i hi => ?_
  rw [BitVec.getLsbD_sshiftRight, getLsbD_sextract hi, decide_eq_true hcount, Bool.true_and,
    decide_eq_false (by omega : ¬ w ≤ i), Bool.not_false, Bool.true_and]
  split
  · next hlow =>
      rw [BitVec.getLsbD_shiftLeft, Nat.min_eq_left (by omega),
        decide_eq_true (by omega : w - count + i < w)]
      simp only [Bool.true_and]
      rw [decide_eq_false (by omega), Bool.not_false, Bool.true_and]
      congr 1
      omega
  · next hhigh =>
      rw [BitVec.msb_eq_getLsbD_last, BitVec.getLsbD_shiftLeft, Nat.min_eq_right (by omega),
        decide_eq_true (by omega : w - 1 < w), decide_eq_false (by omega)]
      simp only [Bool.true_and, Bool.not_false]
      congr 1
      omega

theorem clear_or_shiftLeft_iff :
    (base &&& ~~~(lowMask w count <<< offset)) ||| (x <<< offset) = insert base x offset count ↔
      ∀ i, count ≤ i → offset + i < w → x.getLsbD i = true → base.getLsbD (offset + i) = true := by
  have hbit : ∀ i, i < w →
      ((base &&& ~~~(lowMask w count <<< offset)) ||| (x <<< offset)).getLsbD i =
        if offset ≤ i ∧ i < offset + count then x.getLsbD (i - offset)
        else base.getLsbD i || (decide (offset ≤ i) && x.getLsbD (i - offset)) := by
    intro i hi
    rw [BitVec.getLsbD_or, BitVec.getLsbD_and, BitVec.getLsbD_not, BitVec.getLsbD_shiftLeft,
      BitVec.getLsbD_shiftLeft, decide_eq_true hi, Bool.true_and, Bool.true_and]
    by_cases hlow : i < offset
    · rw [if_neg (by omega), decide_eq_true hlow, decide_eq_false (by omega : ¬ offset ≤ i)]
      simp
    · rw [decide_eq_false hlow, Bool.not_false, Bool.true_and, Bool.true_and,
        getLsbD_lowMask (by omega), decide_eq_true (by omega : offset ≤ i)]
      by_cases hin : i < offset + count
      · rw [if_pos (by omega), decide_eq_true (by omega : i - offset < count)]
        simp
      · rw [if_neg (by omega), decide_eq_false (by omega : ¬ i - offset < count)]
        simp
  constructor
  · intro heq i hcount hw hx
    have h : ((base &&& ~~~(lowMask w count <<< offset)) ||| (x <<< offset)).getLsbD (offset + i) =
        (insert base x offset count).getLsbD (offset + i) := by rw [heq]
    rw [hbit _ hw, getLsbD_insert hw, if_neg (by omega), if_neg (by omega),
      Nat.add_sub_cancel_left, hx] at h
    simpa using h.symm
  · intro hset
    refine BitVec.eq_of_getLsbD_eq fun i hi => ?_
    rw [hbit i hi, getLsbD_insert hi]
    split
    · rfl
    · next hout =>
        by_cases hlow : offset ≤ i
        · have h := hset (i - offset) (by omega) (by omega)
          rw [Nat.add_sub_cancel' hlow] at h
          cases hx : x.getLsbD (i - offset) with
          | false => simp
          | true => simp [h hx]
        · simp [hlow]

/-! ### Fields side by side -/

/-- The vectors of `values` in fields of the given sizes, from `offset` on. -/
def pack : ℕ → List ℕ → List (BitVec w) → BitVec w → BitVec w
  | offset, size :: sizes, x :: xs, base =>
      pack (offset + size) sizes xs (insert base x offset size)
  | _, _, _, base => base

def unpack (extract : BitVec w → ℕ → ℕ → BitVec w) (x : BitVec w) :
    ℕ → List ℕ → List (BitVec w)
  | _, [] => []
  | offset, size :: sizes => extract x offset size :: unpack extract x (offset + size) sizes

theorem getLsbD_pack_of_lt (sizes : List ℕ) (xs : List (BitVec w)) (h : i < offset) (hw : i < w) :
    (pack offset sizes xs base).getLsbD i = base.getLsbD i := by
  induction sizes generalizing offset xs base with
  | nil => simp [pack]
  | cons size sizes ih =>
      cases xs with
      | nil => simp [pack]
      | cons x xs =>
          rw [pack, ih xs (by omega), getLsbD_insert hw, if_neg (by omega)]

structure Reads (extract : BitVec w → ℕ → ℕ → BitVec w) : Prop where
  congr : ∀ {x y : BitVec w} {offset count : ℕ}, 0 < count → offset + count ≤ w →
    (∀ i, offset ≤ i → i < offset + count → x.getLsbD i = y.getLsbD i) →
    extract x offset count = extract y offset count
  keeps : ∀ {x : BitVec w} {offset count i : ℕ}, offset + count ≤ w → i < count →
    (extract x offset count).getLsbD i = x.getLsbD (offset + i)
  shift : ∀ {base x : BitVec w} {offset count : ℕ}, 0 < count → offset + count ≤ w →
    extract (insert base x offset count) offset count = extract x 0 count

theorem reads_uextract : Reads (uextract (w := w)) where
  congr {x y offset count} hcount h hxy := by
    refine BitVec.eq_of_getLsbD_eq fun i hi => ?_
    rw [getLsbD_uextract hi, getLsbD_uextract hi]
    by_cases hin : i < count
    · rw [hxy _ (by omega) (by omega)]
    · rw [decide_eq_false hin, Bool.false_and, Bool.false_and]
  keeps {x offset count i} h hi := by
    rw [getLsbD_uextract (by omega), decide_eq_true hi, Bool.true_and]
  shift {base x offset count} hcount h := by
    refine BitVec.eq_of_getLsbD_eq fun i hi => ?_
    rw [getLsbD_uextract hi, getLsbD_uextract hi]
    by_cases hin : i < count
    · rw [getLsbD_insert (by omega), if_pos (by omega), Nat.add_sub_cancel_left, Nat.zero_add]
    · rw [decide_eq_false hin, Bool.false_and, Bool.false_and]

theorem reads_sextract : Reads (sextract (w := w)) where
  congr {x y offset count} hcount h hxy := by
    refine BitVec.eq_of_getLsbD_eq fun i hi => ?_
    rw [getLsbD_sextract hi, getLsbD_sextract hi, hxy _ (by omega) (by omega)]
  keeps {x offset count i} h hi := by
    rw [getLsbD_sextract (by omega), decide_eq_true (by omega : 0 < count), Bool.true_and,
      Nat.min_eq_left (by omega)]
  shift {base x offset count} hcount h := by
    refine BitVec.eq_of_getLsbD_eq fun i hi => ?_
    rw [getLsbD_sextract hi, getLsbD_sextract hi, getLsbD_insert (by omega), if_pos (by omega),
      Nat.add_sub_cancel_left, Nat.zero_add]

variable {extract : BitVec w → ℕ → ℕ → BitVec w}

theorem unpack_pack (hread : Reads extract) (sizes : List ℕ) (xs : List (BitVec w))
    (hpos : ∀ size ∈ sizes, 0 < size) (hlen : xs.length = sizes.length)
    (hw : offset + sizes.sum ≤ w) :
    unpack extract (pack offset sizes xs base) offset sizes =
      List.zipWith (fun x size => extract x 0 size) xs sizes := by
  induction sizes generalizing offset xs base with
  | nil => simp [unpack]
  | cons size sizes ih =>
      cases xs with
      | nil => cases hlen
      | cons x xs =>
          rw [List.sum_cons] at hw
          have hsize := hpos size List.mem_cons_self
          rw [unpack, pack, List.zipWith_cons_cons,
            ih xs (fun s hs => hpos s (List.mem_cons_of_mem _ hs)) (by simpa using hlen)
              (by omega)]
          congr 1
          -- what follows does not reach down to this field
          have hshift : extract (insert base x offset size) offset size = extract x 0 size :=
            hread.shift hsize (by omega)
          rw [← hshift]
          exact hread.congr hsize (by omega) fun i hi hi' =>
            getLsbD_pack_of_lt sizes xs (by omega) (by omega)

theorem getLsbD_pack_unpack (hread : Reads extract) (sizes : List ℕ)
    (hw : offset + sizes.sum ≤ w) (hi : offset ≤ i) (hi' : i < offset + sizes.sum) :
    (pack offset sizes (unpack extract x offset sizes) base).getLsbD i = x.getLsbD i := by
  induction sizes generalizing offset base with
  | nil => simp at hi'; omega
  | cons size sizes ih =>
      rw [List.sum_cons] at hw hi'
      rw [unpack, pack]
      by_cases hin : i < offset + size
      · rw [getLsbD_pack_of_lt _ _ hin (by omega), getLsbD_insert (by omega), if_pos ⟨hi, hin⟩,
          hread.keeps (by omega) (by omega), Nat.add_sub_cancel' hi]
      · exact ih (by omega) (by omega) (by omega)

theorem pack_unpack (hread : Reads extract) (sizes : List ℕ) (hw : sizes.sum = w) :
    pack 0 sizes (unpack extract x 0 sizes) base = x :=
  BitVec.eq_of_getLsbD_eq fun _ hi =>
    getLsbD_pack_unpack hread sizes (by omega) (Nat.zero_le _) (by omega)

end BitField
