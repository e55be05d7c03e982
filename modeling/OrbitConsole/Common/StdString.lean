import Mathlib.Algebra.Group.Nat.Defs
import Mathlib.Data.Int.Notation
import Mathlib.Data.List.Basic
import OrbitConsole.Common.Machine

/-!
# Character strings

`std::string` as a list of characters: subscripts, `substr`, and numbers to and from
decimals. An exception that is not caught ends the run.
-/

namespace OrbitConsole.StdString

/-- `std::to_string` of a number that is not negative. -/
def toDecimal (n : ℕ) : List Char := Nat.toDigits 10 n

def substr (s : List Char) (pos count : ℕ) : Exec (List Char) :=
  if pos ≤ s.length then pure ((s.drop pos).take count)
  else throw (.assertion "std::out_of_range")

/-- The subscript. A null character stands behind the last one. -/
def charAt (s : List Char) (pos : ℕ) : Exec Char :=
  if h : pos < s.length then pure s[pos]
  else if pos = s.length then pure (Char.ofNat 0)
  else throw .undefined

def isSpace (c : Char) : Bool := c == ' ' || (9 ≤ c.toNat && c.toNat ≤ 13)

/-- The sign in front of a number, and what follows it. -/
def splitSign : List Char → ℤ × List Char
  | '-' :: s => (-1, s)
  | '+' :: s => (1, s)
  | s => (1, s)

/-- `std::stoi`: the number at the beginning, whatever follows it. -/
def stoi (s : List Char) : Exec ℤ :=
  let (sign, s) := splitSign (s.dropWhile isSpace)
  let digits := s.takeWhile Char.isDigit
  if digits = [] then throw (.assertion "std::invalid_argument")
  else
    let value := sign * Nat.ofDigitChars 10 digits 0
    if -2147483648 ≤ value ∧ value < 2147483648 then pure value
    else throw (.assertion "std::out_of_range")

/-! ### Parts of a string -/

@[simp] theorem substr_zero (s : List Char) (count : ℕ) :
    substr s 0 count = pure (s.take count) := by
  simp [substr]

@[simp] theorem substr_succ (c : Char) (s : List Char) (pos count : ℕ) :
    substr (c :: s) (pos + 1) count = substr s pos count := by
  simp [substr]

@[simp] theorem charAt_nil : charAt [] 0 = pure (Char.ofNat 0) := rfl

@[simp] theorem charAt_zero (c : Char) (s : List Char) : charAt (c :: s) 0 = pure c := by
  simp [charAt]

@[simp] theorem charAt_succ (c : Char) (s : List Char) (pos : ℕ) :
    charAt (c :: s) (pos + 1) = charAt s pos := by
  simp [charAt]

/-! ### Numbers -/

/-- The digits of a number, with zeros in front perhaps. -/
structure IsDecimal (s : List Char) (n : ℕ) : Prop where
  ne_nil : s ≠ []
  isDigit : ∀ c ∈ s, c.isDigit = true
  value : Nat.ofDigitChars 10 s 0 = n

theorem isDecimal_toDecimal (n : ℕ) : IsDecimal (toDecimal n) n where
  ne_nil := Nat.toDigits_ne_nil
  isDigit _ hc := Nat.isDigit_of_mem_toDigits (by decide) (by decide) hc
  value := Nat.ofDigitChars_ten_toDigits

theorem IsDecimal.zero_cons {s : List Char} {n : ℕ} (h : IsDecimal s n) :
    IsDecimal ('0' :: s) n where
  ne_nil := List.cons_ne_nil _ _
  isDigit := by
    rintro c (_ | ⟨_, hc⟩)
    · rfl
    · exact h.isDigit c hc
  value := by
    rw [Nat.ofDigitChars_cons]
    exact h.value

theorem IsDecimal.head {a b : Char} {n : ℕ} (h : IsDecimal [a, b] n) : IsDecimal [a] (n / 10) := by
  have ha := Char.isDigit_iff_toNat.1 (h.isDigit a (by simp))
  have hb := Char.isDigit_iff_toNat.1 (h.isDigit b (by simp))
  have hvalue := h.value
  have hzero : '0'.toNat = 48 := rfl
  simp only [Nat.ofDigitChars_cons, Nat.ofDigitChars_nil, hzero] at hvalue
  have hnine : '9'.toNat = 57 := rfl
  refine ⟨by simp, fun c hc => h.isDigit c (by simp_all), ?_⟩
  simp only [Nat.ofDigitChars_cons, Nat.ofDigitChars_nil, hzero]
  omega

theorem length_toDecimal {n k : ℕ} (hk : 0 < k) (hle : 10 ^ k ≤ n) (hlt : n < 10 ^ (k + 1)) :
    (toDecimal n).length = k + 1 := by
  have hle' := Nat.length_toDigits_le_iff (n := n) (k := k + 1) (by decide : 1 < 10) (by omega)
  have hlt' := Nat.length_toDigits_le_iff (n := n) (k := k) (by decide : 1 < 10) hk
  rw [toDecimal]
  omega

theorem isDigit_ne {c d : Char} (hc : c.isDigit = true) (hd : d.isDigit = false) : c ≠ d :=
  fun heq => by simp [heq, hd] at hc

theorem digit_ne {c : Char} (h : c.isDigit = true) :
    isSpace c = false ∧ c ≠ '-' ∧ c ≠ '+' := by
  have hle := (Char.isDigit_iff_toNat.1 h).1
  have hzero : '0'.toNat = 48 := rfl
  refine ⟨?_, isDigit_ne h (by decide), isDigit_ne h (by decide)⟩
  have hspace : c ≠ ' ' := isDigit_ne h (by decide)
  simp only [isSpace, Bool.or_eq_false_iff, beq_eq_false_iff_ne, Bool.and_eq_false_iff,
    decide_eq_false_iff_not]
  exact ⟨hspace, .inr (by omega)⟩

theorem takeWhile_isDigit {s rest : List Char} (h : ∀ c ∈ s, c.isDigit = true)
    (hrest : ∀ c ∈ rest.head?, c.isDigit = false) :
    (s ++ rest).takeWhile Char.isDigit = s := by
  rw [List.takeWhile_append_of_pos h]
  cases rest with
  | nil => simp
  | cons c rest =>
      have hc := hrest c rfl
      rw [List.takeWhile_cons_of_neg (by simp [hc]), List.append_nil]

theorem stoi_eq {s digits rest : List Char} {sign : ℤ} {n : ℕ}
    (hsplit : splitSign (s.dropWhile isSpace) = (sign, digits ++ rest)) (h : IsDecimal digits n)
    (hrest : ∀ c ∈ rest.head?, c.isDigit = false)
    (hrange : -2147483648 ≤ sign * n ∧ sign * n < 2147483648) : stoi s = pure (sign * n) := by
  rw [stoi, hsplit]
  dsimp only
  rw [takeWhile_isDigit h.isDigit hrest, if_neg h.ne_nil, h.value, if_pos hrange]

theorem splitSign_of_ne {c : Char} (hspace : isSpace c = false) (hminus : c ≠ '-') (hplus : c ≠ '+')
    (s : List Char) : splitSign ((c :: s).dropWhile isSpace) = (1, c :: s) := by
  rw [List.dropWhile_cons_of_neg (by simp [hspace])]
  unfold splitSign
  split
  case h_1 heq => exact absurd (List.cons.inj heq).1 hminus
  case h_2 heq => exact absurd (List.cons.inj heq).1 hplus
  case h_3 => rfl

theorem IsDecimal.stoi_append {s : List Char} {n : ℕ} (h : IsDecimal s n) (hn : n < 2147483648)
    (rest : List Char) (hrest : ∀ c ∈ rest.head?, c.isDigit = false) :
    stoi (s ++ rest) = pure (n : ℤ) := by
  obtain ⟨c, s, rfl⟩ := List.exists_cons_of_ne_nil h.ne_nil
  obtain ⟨hspace, hminus, hplus⟩ := digit_ne (h.isDigit c (List.mem_cons_self ..))
  have hsplit := splitSign_of_ne hspace hminus hplus (s ++ rest)
  rw [← List.cons_append] at hsplit
  rw [stoi_eq hsplit h hrest (by omega), Int.one_mul]

theorem IsDecimal.stoi {s : List Char} {n : ℕ} (h : IsDecimal s n) (hn : n < 2147483648) :
    stoi s = pure (n : ℤ) := by
  have happend := h.stoi_append hn [] (by simp)
  rwa [List.append_nil] at happend

theorem IsDecimal.stoi_sign {s : List Char} {n : ℕ} (h : IsDecimal s n) (hn : n < 2147483648) :
    StdString.stoi ('+' :: s) = pure (n : ℤ) ∧ StdString.stoi ('-' :: s) = pure (-n : ℤ) := by
  constructor
  · have hsplit : splitSign (('+' :: s).dropWhile isSpace) = (1, s ++ []) := by
      rw [List.append_nil]
      rfl
    rw [stoi_eq hsplit h (by simp) (by omega), Int.one_mul]
  · have hsplit : splitSign (('-' :: s).dropWhile isSpace) = (-1, s ++ []) := by
      rw [List.append_nil]
      rfl
    rw [stoi_eq hsplit h (by simp) (by omega), Int.neg_one_mul]

theorem stoi_invalid {c : Char} (hspace : isSpace c = false) (hminus : c ≠ '-') (hplus : c ≠ '+')
    (hdigit : c.isDigit = false) (s : List Char) :
    stoi (c :: s) = throw (.assertion "std::invalid_argument") := by
  rw [stoi, splitSign_of_ne hspace hminus hplus]
  dsimp only
  rw [List.takeWhile_cons_of_neg (by simp [hdigit]), if_pos rfl]

end OrbitConsole.StdString
