import OrbitConsole.Common.BitArray

/-!
# What bit arrays compute

The range operations in terms of the bits, for both builds. The search for the
last range ends too early with AVX2 when the words below its word are zero.
-/

namespace OrbitConsole.Common

namespace BitArray

variable {avx : Bool} {wordCount : ℕ} {data other : BitArray} {start stop i n w : ℕ}
  {word : BitVec 64} {p : ℕ → Bool}

def get (data : BitArray) (i : ℕ) : Bool := (data (i / 64)).getLsbD (i % 64)

theorem get_mul_add {k : ℕ} (hk : k < 64) : data.get (w * 64 + k) = (data w).getLsbD k := by
  have hdiv : (w * 64 + k) / 64 = w := by omega
  have hmod : (w * 64 + k) % 64 = k := by omega
  rw [get, hdiv, hmod]

/-! ### Masks -/

theorem getLsbD_lowBits {k : ℕ} (hn : n < 64) (hk : k < 64) :
    (lowBits n).getLsbD k = decide (k < n) := by
  have hpow : 2 ^ n < 2 ^ 64 := Nat.pow_lt_pow_right (by omega) hn
  have hlow : lowBits n = BitVec.ofNat 64 (2 ^ n - 1) := by
    apply BitVec.eq_of_toNat_eq
    have hpos := Nat.two_pow_pos n
    have hone : (1 : BitVec 64).toNat = 1 := rfl
    rw [lowBits, BitVec.toNat_sub_of_le]
    · rw [BitVec.toNat_shiftLeft, BitVec.toNat_ofNat, hone, Nat.shiftLeft_eq, Nat.one_mul,
        Nat.mod_eq_of_lt hpow, Nat.mod_eq_of_lt (by omega)]
    · rw [BitVec.le_def, BitVec.toNat_shiftLeft, hone, Nat.shiftLeft_eq, Nat.one_mul,
        Nat.mod_eq_of_lt hpow]
      exact hpos
  rw [hlow, BitVec.getLsbD_ofNat, Nat.testBit_two_pow_sub_one]
  simp [hk]

theorem getLsbD_startMask {k : ℕ} (hn : n < 64) (hk : k < 64) :
    (startMask n).getLsbD k = decide (n ≤ k) := by
  rw [startMask, BitVec.getLsbD_not, getLsbD_lowBits hn hk]
  by_cases hlt : k < n
  · simp [hlt]
  · simpa [hk, hlt] using Nat.not_lt.1 hlt

theorem getLsbD_endMask {k : ℕ} (hn : n < 64) (hk : k < 64) :
    (endMask n).getLsbD k = decide (k ≤ n) := by
  unfold endMask
  split
  · have hle : k ≤ n := by omega
    rw [BitVec.getLsbD_allOnes, decide_eq_true hk, decide_eq_true hle]
  · rw [getLsbD_lowBits (by omega) hk]
    exact decide_eq_decide.2 Nat.lt_succ_iff

/-! ### Stores -/

theorem storeWords_apply {src : ℕ → BitVec 64} {last : ℕ} (hn : last ≤ i + n) :
    storeWords src last n i data w = if i ≤ w ∧ w < last then src w else data w := by
  induction n generalizing i data with
  | zero =>
      unfold storeWords
      rw [if_neg (by omega)]
  | succ n ih =>
      unfold storeWords
      split
      · rw [ih (by omega)]
        simp only [Function.update_apply]
        grind
      · rw [if_neg (by omega)]

theorem storeVectors_apply (src : ℕ → BitVec 64) (last n i : ℕ) (data : BitArray) :
    let r := storeVectors src last n i data
    i ≤ r.1 ∧ (i ≤ last → r.1 ≤ last) ∧
      ∀ w, r.2 w = if i ≤ w ∧ w < r.1 then src w else data w := by
  induction n generalizing i data with
  | zero =>
      refine ⟨Nat.le_refl i, fun h => h, fun w => ?_⟩
      rw [if_neg]
      · rfl
      · simp only [storeVectors]
        omega
  | succ n ih =>
      unfold storeVectors
      split
      · next hle =>
          obtain ⟨h₁, h₂, h₃⟩ := ih (i + 4) fun w =>
            if i ≤ w ∧ w < i + 4 then src w else data w
          refine ⟨by omega, fun _ => h₂ hle, fun w => ?_⟩
          rw [h₃]
          grind
      · refine ⟨Nat.le_refl i, fun h => h, fun w => ?_⟩
        rw [if_neg (by omega)]

theorem storeBetween_apply {src : ℕ → BitVec 64} {last : ℕ} (hi : i ≤ last) :
    storeBetween avx src i last data w = if i ≤ w ∧ w < last then src w else data w := by
  unfold storeBetween
  cases avx with
  | false => exact storeWords_apply (by omega)
  | true =>
      obtain ⟨h₁, h₂, h₃⟩ := storeVectors_apply src last last i data
      simp only [if_true]
      rw [storeWords_apply (by omega), h₃]
      have := h₂ hi
      grind

/-! ### Ranges -/

/-- The range is one of the array, and the bit is in it. -/
def inside (wordCount start stop i : ℕ) : Bool := start ≤ i ∧ i < stop ∧ stop ≤ 64 * wordCount

theorem startMask_mod {k : ℕ} (hk : k < 64) :
    (startMask (start % 64)).getLsbD k = decide (start ≤ start / 64 * 64 + k) := by
  rw [getLsbD_startMask (Nat.mod_lt _ (by omega)) hk, Bool.eq_iff_iff]
  simp only [decide_eq_true_eq]
  omega

theorem endMask_mod {k : ℕ} (hstop : 0 < stop) (hk : k < 64) :
    (endMask ((stop - 1) % 64)).getLsbD k = decide ((stop - 1) / 64 * 64 + k < stop) := by
  rw [getLsbD_endMask (Nat.mod_lt _ (by omega)) hk, Bool.eq_iff_iff]
  simp only [decide_eq_true_eq]
  omega

theorem lowBits_mod {k : ℕ} (hk : k < 64) :
    (lowBits (start % 64)).getLsbD k = !decide (start ≤ start / 64 * 64 + k) := by
  rw [← startMask_mod hk, startMask, BitVec.getLsbD_not]
  simp [hk]

theorem get_edges {first last : ℕ} {base : BitArray} {src : ℕ → BitVec 64} {x y z : BitVec 64}
    {g : ℕ → Bool} (hle : first ≤ last)
    (hx : first = last → ∀ k < 64, x.getLsbD k = g (first * 64 + k))
    (hy : first < last → ∀ k < 64, y.getLsbD k = g (first * 64 + k))
    (hz : first < last → ∀ k < 64, z.getLsbD k = g (last * 64 + k))
    (hsrc : ∀ w, first < w → w < last → ∀ k < 64, (src w).getLsbD k = g (w * 64 + k))
    (hout : ∀ w, w < first ∨ last < w → ∀ k < 64, (base w).getLsbD k = g (w * 64 + k)) (i : ℕ) :
    get (if first = last then Function.update base first x
      else Function.update (storeBetween avx src (first + 1) last (Function.update base first y))
        last z) i = g i := by
  have hk : i % 64 < 64 := Nat.mod_lt _ (by omega)
  have hi : i / 64 * 64 + i % 64 = i := by omega
  rw [get]
  conv_rhs => rw [← hi]
  generalize i / 64 = w
  generalize i % 64 = k at hk
  split
  · next hsame =>
    by_cases hw : w = first
    · rw [hw, Function.update_self, hx hsame k hk]
    · rw [Function.update_of_ne hw, hout w (by omega) k hk]
  · next hne =>
    have hlt : first < last := by omega
    by_cases hlast : w = last
    · rw [hlast, Function.update_self, hz hlt k hk]
    · rw [Function.update_of_ne hlast, storeBetween_apply hlt]
      split
      · exact hsrc w (by omega) (by omega) k hk
      · by_cases hfirst : w = first
        · rw [hfirst, Function.update_self, hy hlt k hk]
        · rw [Function.update_of_ne hfirst, hout w (by omega) k hk]

section Inside

variable {k : ℕ} (hlt : start < stop) (hle : stop ≤ 64 * wordCount)
include hle

theorem inside_same {m : ℕ} :
    inside wordCount start stop m = (decide (start ≤ m) && decide (m < stop)) := by
  simp [inside, hle]

theorem inside_first (h : w < (stop - 1) / 64) (hk : k < 64) :
    inside wordCount start stop (w * 64 + k) = decide (start ≤ w * 64 + k) := by
  have hbelow : w * 64 + k < stop := by omega
  simp [inside, hle, hbelow]

theorem inside_last (h : start / 64 < w) :
    inside wordCount start stop (w * 64 + k) = decide (w * 64 + k < stop) := by
  have habove : start ≤ w * 64 + k := by omega
  simp [inside, hle, habove]

theorem inside_between (h : start / 64 < w) (h' : w < (stop - 1) / 64) (hk : k < 64) :
    inside wordCount start stop (w * 64 + k) = true := by
  rw [inside_last hle h, decide_eq_true_eq]
  omega

include hlt

omit hle in
theorem inside_out (h : w < start / 64 ∨ (stop - 1) / 64 < w) (hk : k < 64) :
    inside wordCount start stop (w * 64 + k) = false := by
  simp only [inside, decide_eq_false_iff_not]
  omega

end Inside

theorem inside_of_guard (h : stop ≤ start ∨ 64 * wordCount < stop) :
    inside wordCount start stop i = false := by
  simp only [inside, decide_eq_false_iff_not]
  omega

theorem get_copyRange (avx : Bool) (wordCount : ℕ) (other : BitArray) (start stop i : ℕ) :
    (copyRange avx wordCount other start stop).get i =
      (inside wordCount start stop i && other.get i) := by
  unfold copyRange
  split
  · next hout => simp [get, inside_of_guard hout]
  · next hin =>
    have hlt : start < stop := by omega
    have hle : stop ≤ 64 * wordCount := by omega
    have hstop : 0 < stop := by omega
    refine get_edges (g := fun i => inside wordCount start stop i && other.get i)
      (by omega) (fun hsame k hk => ?_) (fun hne k hk => ?_) (fun hne k hk => ?_)
      (fun w h h' k hk => ?_) (fun w h k hk => ?_) i
    · rw [BitVec.getLsbD_and, BitVec.getLsbD_and, startMask_mod hk, inside_same hle, hsame,
        endMask_mod hstop hk, get_mul_add hk, Bool.and_comm]
    · rw [BitVec.getLsbD_and, startMask_mod hk, inside_first hle hne hk, get_mul_add hk,
        Bool.and_comm]
    · rw [BitVec.getLsbD_and, endMask_mod hstop hk, inside_last hle hne, get_mul_add hk,
        Bool.and_comm]
    · rw [inside_between hle h h' hk, get_mul_add hk, Bool.true_and]
    · simp [inside_out hlt h hk]

theorem get_setRange (avx : Bool) (wordCount : ℕ) (data : BitArray) (start stop i : ℕ) :
    (setRange avx wordCount data start stop).get i =
      (inside wordCount start stop i || data.get i) := by
  unfold setRange
  split
  · next hout => simp [inside_of_guard hout]
  · next hin =>
    have hlt : start < stop := by omega
    have hle : stop ≤ 64 * wordCount := by omega
    have hstop : 0 < stop := by omega
    refine get_edges (g := fun i => inside wordCount start stop i || data.get i)
      (by omega) (fun hsame k hk => ?_) (fun hne k hk => ?_) (fun hne k hk => ?_)
      (fun w h h' k hk => ?_) (fun w h k hk => ?_) i
    · rw [BitVec.getLsbD_or, BitVec.getLsbD_and, startMask_mod hk, inside_same hle, hsame,
        endMask_mod hstop hk, get_mul_add hk, Bool.or_comm]
    · rw [BitVec.getLsbD_or, startMask_mod hk, inside_first hle hne hk, get_mul_add hk,
        Bool.or_comm]
    · rw [storeBetween_apply hne, if_neg (by omega), Function.update_of_ne (by omega),
        BitVec.getLsbD_or, endMask_mod hstop hk, inside_last hle hne, get_mul_add hk,
        Bool.or_comm]
    · rw [inside_between hle h h' hk, BitVec.getLsbD_allOnes]
      simp [hk]
    · rw [inside_out hlt h hk, get_mul_add hk, Bool.false_or]

theorem get_unsetRange (avx : Bool) (wordCount : ℕ) (data : BitArray) (start stop i : ℕ) :
    (unsetRange avx wordCount data start stop).get i =
      (!inside wordCount start stop i && data.get i) := by
  unfold unsetRange
  split
  · next hout => simp [inside_of_guard hout]
  · next hin =>
    have hlt : start < stop := by omega
    have hle : stop ≤ 64 * wordCount := by omega
    have hstop : 0 < stop := by omega
    have hend : (if (stop - 1) % 64 = 63 then 0 else ~~~lowBits ((stop - 1) % 64 + 1)) =
        ~~~endMask ((stop - 1) % 64) := by
      unfold endMask
      split <;> simp
    simp only [hend]
    refine get_edges (g := fun i => !inside wordCount start stop i && data.get i)
      (by omega) (fun hsame k hk => ?_) (fun hne k hk => ?_) (fun hne k hk => ?_)
      (fun w h h' k hk => ?_) (fun w h k hk => ?_) i
    · rw [BitVec.getLsbD_and, BitVec.getLsbD_or, lowBits_mod hk, BitVec.getLsbD_not,
        inside_same hle, endMask_mod hstop hk, get_mul_add hk, ← hsame, Bool.and_comm]
      simp [hk, Bool.not_and]
    · rw [BitVec.getLsbD_and, lowBits_mod hk, inside_first hle hne hk, get_mul_add hk,
        Bool.and_comm]
    · rw [storeBetween_apply hne, if_neg (by omega), Function.update_of_ne (by omega),
        BitVec.getLsbD_and, BitVec.getLsbD_not, endMask_mod hstop hk, inside_last hle hne,
        get_mul_add hk, Bool.and_comm]
      simp [hk]
    · rw [inside_between hle h h' hk]
      simp
    · rw [inside_out hlt h hk, get_mul_add hk]
      rfl

/-! ### Searching up -/

theorem exists_bit_of_ne_zero (h : word ≠ 0) : ∃ k < 64, word.getLsbD k = true := by
  by_contra hno
  refine h (BitVec.eq_of_getLsbD_eq fun k hk => ?_)
  simpa using fun hset => hno ⟨k, hk, hset⟩

theorem exists_bit_of_ne_allOnes (h : word ≠ BitVec.allOnes 64) :
    ∃ k < 64, word.getLsbD k = false := by
  by_contra hno
  refine h (BitVec.eq_of_getLsbD_eq fun k hk => ?_)
  rw [BitVec.getLsbD_allOnes, decide_eq_true hk]
  simpa using fun hclear => hno ⟨k, hk, hclear⟩

theorem skipUp_spec {wordCount : ℕ} (hw : w ≤ wordCount) :
    w ≤ skipUp p wordCount n w ∧ skipUp p wordCount n w ≤ wordCount ∧
      ∀ v, w ≤ v → v < skipUp p wordCount n w → p v = true := by
  induction n generalizing w with
  | zero =>
      exact ⟨Nat.le_refl w, hw, fun v h h' => absurd (Nat.lt_of_le_of_lt h h') (Nat.lt_irrefl w)⟩
  | succ n ih =>
      unfold skipUp
      split
      · next hgroup =>
          obtain ⟨h₁, h₂, h₃⟩ := ih hgroup.1
          refine ⟨by omega, h₂, fun v hv hlt => ?_⟩
          by_cases hin : v < w + 4
          · have := List.all_eq_true.1 hgroup.2 (v - w) (List.mem_range.2 (by omega))
            rwa [Nat.add_sub_cancel' hv] at this
          · exact h₃ v (by omega) hlt
      · exact ⟨Nat.le_refl w, hw,
          fun v h h' => absurd (Nat.lt_of_le_of_lt h h') (Nat.lt_irrefl w)⟩

theorem get_of_allOnes (h : data w = BitVec.allOnes 64) {j : ℕ} (hj : w * 64 ≤ j)
    (hj' : j < (w + 1) * 64) : data.get j = true := by
  have hk : j - w * 64 < 64 := by omega
  have : data.get (w * 64 + (j - w * 64)) = _ := get_mul_add hk
  rw [Nat.add_sub_cancel' hj, h, BitVec.getLsbD_allOnes, decide_eq_true hk] at this
  exact this

theorem get_of_zero (h : data w = 0) {j : ℕ} (hj : w * 64 ≤ j) (hj' : j < (w + 1) * 64) :
    data.get j = false := by
  have hk : j - w * 64 < 64 := by omega
  have : data.get (w * 64 + (j - w * 64)) = _ := get_mul_add hk
  rw [Nat.add_sub_cancel' hj, h] at this
  simpa using this

theorem endBitFrom_eq (hw : w ≤ wordCount) (hn : wordCount < w + n) :
    endBitFrom wordCount data n w = Runs.find data.get (64 * wordCount) false (w * 64) := by
  induction n generalizing w with
  | zero => omega
  | succ n ih =>
      unfold endBitFrom
      split
      · next hlt =>
          split
          · next hne =>
              obtain ⟨h₁, h₂, h₃, h₄⟩ := Runs.scan_spec (f := (data w).getLsbD) false 64 0
              obtain ⟨k, hk, hclear⟩ := exists_bit_of_ne_allOnes hne
              have hcount : countrOne (data w) < 64 := by
                by_contra hge
                have := h₄ k (Nat.zero_le k) (Nat.lt_of_lt_of_le hk (Nat.not_lt.1 hge))
                rw [hclear] at this
                cases this
              refine (Runs.find_eq (by omega) (by omega) (fun _ => ?_) fun j hj hlt' => ?_).symm
              · rw [get_mul_add hcount]
                exact h₃ (by unfold countrOne at hcount; omega)
              · have hget : data.get (w * 64 + (j - w * 64)) = _ := get_mul_add (by omega)
                rw [Nat.add_sub_cancel' hj] at hget
                rw [hget]
                exact h₄ _ (Nat.zero_le _) (by unfold countrOne at hlt'; omega)
          · next heq =>
              rw [ih (by omega) (by omega)]
              exact (Runs.find_skip (by omega) (by omega) fun j hj hlt' =>
                get_of_allOnes (not_not.1 heq) hj hlt').symm
      · have heq : w * 64 = 64 * wordCount := by omega
        rw [heq, Runs.find_self]

theorem findEndBit_eq (hw : w ≤ wordCount) :
    findEndBit avx wordCount data w = Runs.find data.get (64 * wordCount) false (w * 64) := by
  unfold findEndBit
  cases avx with
  | false => exact endBitFrom_eq hw (by omega)
  | true =>
      obtain ⟨h₁, h₂, h₃⟩ :=
        skipUp_spec (p := fun w => data w = BitVec.allOnes 64) (n := wordCount) hw
      simp only [if_true]
      rw [endBitFrom_eq h₂ (by omega)]
      refine (Runs.find_skip (by omega) (by omega) fun j hj hlt => ?_).symm
      exact get_of_allOnes (by simpa using h₃ (j / 64) (by omega) (by omega)) (by omega) (by omega)

theorem wordBitsUp_eq {index m : ℕ} (hm : m ≤ 64) (hw : index < wordCount) (hne : word ≠ 0)
    (hword : ∀ k < 64, word.getLsbD k = (decide (m ≤ k) && data.get (index * 64 + k))) :
    wordBitsUp avx wordCount data index word =
      Runs.firstRun data.get (64 * wordCount) (index * 64 + m) := by
  obtain ⟨-, hs64, hs, hbefore⟩ := Runs.scan_spec (f := word.getLsbD) true 64 0
  obtain ⟨k, hk, hset⟩ := exists_bit_of_ne_zero hne
  have hlt : countrZero word < 64 := by
    by_contra hge
    have := hbefore k (Nat.zero_le k) (Nat.lt_of_lt_of_le hk (Nat.not_lt.1 hge))
    rw [hset] at this
    cases this
  have hsbit : word.getLsbD (countrZero word) = true :=
    hs (by unfold countrZero at hlt; omega)
  have hbelow : ∀ j < countrZero word, word.getLsbD j = false := fun j hj =>
    hbefore j (Nat.zero_le j) hj
  unfold wordBitsUp
  dsimp only
  generalize countrZero word = s at hlt hsbit hbelow
  obtain ⟨-, -, ht, hones⟩ := Runs.scan_spec (f := (word >>> s).getLsbD) false 64 0
  have hones' : ∀ j < countrOne (word >>> s), word.getLsbD (s + j) = true := fun j hj => by
    rw [← BitVec.getLsbD_ushiftRight]
    exact hones j (Nat.zero_le j) hj
  have hend : countrOne (word >>> s) < 64 → word.getLsbD (s + countrOne (word >>> s)) = false :=
    fun h => by
      rw [← BitVec.getLsbD_ushiftRight]
      exact ht (by unfold countrOne at h; omega)
  generalize countrOne (word >>> s) = t at hones' hend
  have hst : s + t ≤ 64 := by
    by_contra hgt
    have := hones' (64 - s) (by omega)
    rw [BitVec.getLsbD_of_ge word _ (by omega)] at this
    cases this
  -- what the bits of the word say about the array
  have hms : m ≤ s := by
    rw [hword s hlt, Bool.and_eq_true, decide_eq_true_eq] at hsbit
    exact hsbit.1
  have hget : ∀ k, m ≤ k → k < 64 → data.get (index * 64 + k) = word.getLsbD k := by
    intro k hk hk64
    rw [hword k hk64, decide_eq_true hk, Bool.true_and]
  have hfirst : Runs.find data.get (64 * wordCount) true (index * 64 + m) = index * 64 + s := by
    refine Runs.find_eq (by omega) (by omega) (fun _ => (hget s hms hlt).trans hsbit)
      fun j hj hlt' => ?_
    have := hget (j - index * 64) (by omega) (by omega)
    rw [Nat.add_sub_cancel' (by omega)] at this
    exact this.trans (hbelow _ (by omega))
  have hset' : ∀ j, index * 64 + s ≤ j → j < index * 64 + (s + t) → data.get j = true := by
    intro j hj hj'
    have h₁ := hget (j - index * 64) (by omega) (by omega)
    have h₂ := hones' (j - index * 64 - s) (by omega)
    rw [Nat.add_sub_cancel' (by omega)] at h₁ h₂
    exact h₁.trans h₂
  have hin : ¬64 * wordCount ≤ index * 64 + m := by omega
  rw [Runs.firstRun, if_neg hin, hfirst]
  split
  · next hinner =>
    have hsecond : Runs.find data.get (64 * wordCount) false (index * 64 + s) =
        index * 64 + s + t := by
      refine Runs.find_eq (by omega) (by omega) (fun _ => ?_)
        fun j hj hlt' => hset' j hj (by omega)
      rw [Nat.add_assoc, hget _ (by omega) (by omega)]
      exact hend (by omega)
    rw [hsecond]
  · next houter =>
    have hfull : index * 64 + (s + t) = (index + 1) * 64 := by omega
    rw [findEndBit_eq (by omega)]
    refine congrArg _ (Runs.find_skip (by omega) (by omega) fun j hj hlt' => ?_).symm
    exact hset' j hj (by omega)

theorem firstRun_skip {f : ℕ → Bool} {N k : ℕ} (h : start ≤ k) (hk : k ≤ N)
    (hclear : ∀ j, start ≤ j → j < k → f j = false) :
    Runs.firstRun f N start = Runs.firstRun f N k := by
  unfold Runs.firstRun
  rw [Runs.find_skip h hk hclear]
  split
  · rw [if_pos (by omega)]
  · split
    · have heq : k = N := by omega
      rw [heq, Runs.find_self, Runs.find_self]
    · rfl

theorem firstWordFrom_eq (hw : w ≤ wordCount) (hn : wordCount < w + n) :
    firstWordFrom avx wordCount data n w =
      Runs.firstRun data.get (64 * wordCount) (w * 64) := by
  induction n generalizing w with
  | zero => omega
  | succ n ih =>
      unfold firstWordFrom
      split
      · next hlt =>
          split
          · next hne =>
              exact wordBitsUp_eq (Nat.zero_le 64) hlt hne fun k hk => by
                simp [get_mul_add hk]
          · next heq =>
              rw [ih (by omega) (by omega)]
              exact (firstRun_skip (by omega) (by omega) fun j hj hlt' =>
                get_of_zero (not_not.1 heq) hj hlt').symm
      · have hge : 64 * wordCount ≤ w * 64 := by omega
        rw [Runs.firstRun, if_pos hge]

theorem firstRangeFrom_eq (avx : Bool) (wordCount : ℕ) (data : BitArray) (start : ℕ) :
    firstRangeFrom avx wordCount data start =
      Runs.firstRun data.get (64 * wordCount) start := by
  unfold firstRangeFrom
  split
  · next hge => rw [Runs.firstRun, if_pos hge]
  · next hlt =>
    have hmod : start % 64 < 64 := Nat.mod_lt _ (by omega)
    have hword : ∀ k < 64, (data (start / 64) &&& startMask (start % 64)).getLsbD k =
        (decide (start % 64 ≤ k) && data.get (start / 64 * 64 + k)) := by
      intro k hk
      rw [BitVec.getLsbD_and, getLsbD_startMask hmod hk, get_mul_add hk, Bool.and_comm]
    simp only
    split
    · next hne =>
      rw [wordBitsUp_eq (Nat.le_of_lt hmod) (by omega) hne hword]
      congr 1
      omega
    · next heq =>
      have hclear : ∀ j, start ≤ j → j < (start / 64 + 1) * 64 → data.get j = false := by
        intro j hj hj'
        have h := hword (j - start / 64 * 64) (by omega)
        rw [not_not.1 heq, Nat.add_sub_cancel' (by omega)] at h
        have hge : start % 64 ≤ j - start / 64 * 64 := by omega
        simpa [hge] using h.symm
      rw [firstRun_skip (by omega) (by omega) hclear]
      cases avx with
      | false =>
          simp only [Bool.false_eq_true, if_false]
          exact firstWordFrom_eq (by omega) (by omega)
      | true =>
          obtain ⟨h₁, h₂, h₃⟩ := skipUp_spec (p := fun w => data w = 0) (n := wordCount)
            (show start / 64 + 1 ≤ wordCount by omega)
          simp only [if_true]
          rw [firstWordFrom_eq h₂ (by omega)]
          refine (firstRun_skip (by omega) (by omega) fun j hj hlt' => ?_).symm
          exact get_of_zero (by simpa using h₃ (j / 64) (by omega) (by omega)) (by omega)
            (by omega)

/-! ### Searching down -/

theorem skipDown_spec : skipDown p n w ≤ w ∧ ∀ v, skipDown p n w ≤ v → v < w → p v = true := by
  induction n generalizing w with
  | zero => exact ⟨Nat.le_refl w, fun v h h' => absurd (Nat.lt_of_le_of_lt h h') (Nat.lt_irrefl w)⟩
  | succ n ih =>
      unfold skipDown
      split
      · next hgroup =>
          obtain ⟨h₁, h₂⟩ := ih (w := w - 4)
          refine ⟨by omega, fun v hv hlt => ?_⟩
          by_cases hin : v < w - 4
          · exact h₂ v hv hin
          · have := List.all_eq_true.1 hgroup.2 (v - (w - 4)) (List.mem_range.2 (by omega))
            rwa [Nat.add_sub_cancel' (by omega)] at this
      · exact ⟨Nat.le_refl w, fun v h h' => absurd (Nat.lt_of_le_of_lt h h') (Nat.lt_irrefl w)⟩

theorem startBitFrom_eq (data : BitArray) (w : ℕ) :
    startBitFrom data w = Runs.findLast data.get false (w * 64) := by
  induction w with
  | zero => rfl
  | succ w ih =>
      unfold startBitFrom
      split
      · next hne =>
          obtain ⟨h₁, h₂, h₃⟩ := Runs.findLast_spec (f := (data w).getLsbD) false 64
          obtain ⟨k, hk, hclear⟩ := exists_bit_of_ne_allOnes hne
          unfold countlOne
          generalize Runs.findLast (data w).getLsbD false 64 = z at h₁ h₂ h₃
          have hpos : 0 < z := by
            by_contra hzero
            have := h₂ k (by omega) hk
            rw [hclear] at this
            cases this
          have heq : (w + 1) * 64 - (64 - z) = w * 64 + z := by omega
          rw [heq]
          refine (Runs.findLast_eq (by omega) (fun j hj hlt => ?_) fun _ => ?_).symm
          · have hget : data.get (w * 64 + (j - w * 64)) = _ := get_mul_add (by omega)
            rw [Nat.add_sub_cancel' (by omega)] at hget
            rw [hget]
            exact h₂ _ (by omega) (by omega)
          · rw [Nat.add_sub_assoc (by omega), get_mul_add (by omega)]
            exact h₃ hpos
      · next heq =>
          rw [ih]
          exact (Runs.findLast_skip (by omega) fun j hj hlt =>
            get_of_allOnes (not_not.1 heq) hj hlt).symm

def ZeroBelow (data : BitArray) (w : ℕ) : Prop := 4 ≤ w ∧ ∀ v, w - 4 ≤ v → v < w → data v = 0

theorem skipDown_zero_eq (h : ¬ZeroBelow data w) : skipDown (fun v => data v = 0) n w = w := by
  cases n with
  | zero => rfl
  | succ n =>
      unfold skipDown
      rw [if_neg]
      rintro ⟨hle, hall⟩
      refine h ⟨hle, fun v hv hlt => ?_⟩
      have := List.all_eq_true.1 hall (v - (w - 4)) (List.mem_range.2 (by omega))
      rw [Nat.add_sub_cancel' hv] at this
      simpa using this

theorem skipDown_zero_lt (h : ZeroBelow data w) (hn : 0 < n) :
    skipDown (fun v => data v = 0) n w < w := by
  obtain ⟨n, rfl⟩ : ∃ m, n = m + 1 := ⟨n - 1, by omega⟩
  unfold skipDown
  have hle := h.1
  rw [if_pos]
  · exact Nat.lt_of_le_of_lt skipDown_spec.1 (by omega)
  · refine ⟨hle, List.all_eq_true.2 fun k hk => ?_⟩
    simpa using h.2 (w - 4 + k) (by omega) (by have := List.mem_range.1 hk; omega)

theorem findStartBit_eq_iff : findStartBit avx data w = Runs.findLast data.get false (w * 64) ↔
    avx = false ∨ ¬ZeroBelow data w := by
  unfold findStartBit
  cases avx with
  | false => simp [startBitFrom_eq]
  | true =>
      simp only [if_true, Bool.true_eq_false, false_or]
      constructor
      · intro heq hzero
        have hlt := skipDown_zero_lt hzero (show 0 < w by have := hzero.1; omega)
        have hle := (Runs.findLast_spec (f := data.get) false
          (skipDown (fun v => data v = 0) w w * 64)).1
        have hlast : Runs.findLast data.get false (w * 64) = w * 64 := by
          refine Runs.findLast_eq (Nat.le_refl _) (fun i h h' => by omega) fun hpos => ?_
          exact get_of_zero (hzero.2 (w - 1) (by omega) (by omega)) (by omega) (by omega)
        rw [startBitFrom_eq, hlast] at heq
        omega
      · intro hno
        rw [skipDown_zero_eq hno, startBitFrom_eq]

/-- The last run lies in one word, of which it has the lowest bit, and the four words below it are
there and zero. -/
def AboveZeroWords (f : ℕ → Bool) (n : ℕ) : Prop :=
  (Runs.lastRun f n).1 < (Runs.lastRun f n).2 ∧ (Runs.lastRun f n).1 % 64 = 0 ∧
    (Runs.lastRun f n).2 ≤ (Runs.lastRun f n).1 + 64 ∧ 256 ≤ (Runs.lastRun f n).1 ∧
    ∀ i, (Runs.lastRun f n).1 - 256 ≤ i → i < (Runs.lastRun f n).1 → f i = false

theorem zeroBelow_iff : ZeroBelow data w ↔
    256 ≤ w * 64 ∧ ∀ i, w * 64 - 256 ≤ i → i < w * 64 → data.get i = false := by
  constructor
  · rintro ⟨hle, hzero⟩
    refine ⟨by omega, fun i hi hlt => ?_⟩
    exact get_of_zero (hzero (i / 64) (by omega) (by omega)) (by omega) (by omega)
  · rintro ⟨hle, hclear⟩
    refine ⟨by omega, fun v hv hlt => BitVec.eq_of_getLsbD_eq fun k hk => ?_⟩
    rw [← get_mul_add hk, hclear _ (by omega) (by omega)]
    simp

theorem wordBitsDown_eq_iff {m : ℕ} (hm : m ≤ 64) (hne : word ≠ 0)
    (hword : ∀ k < 64, word.getLsbD k = (decide (k < m) && data.get (w * 64 + k))) :
    wordBitsDown avx data (w + 1) word = Runs.lastRun data.get (w * 64 + m) ↔
      avx = false ∨ ¬AboveZeroWords data.get (w * 64 + m) := by
  obtain ⟨ht64, hbehind, hlast⟩ := Runs.findLast_spec (f := word.getLsbD) true 64
  obtain ⟨k, hk, hset⟩ := exists_bit_of_ne_zero hne
  unfold wordBitsDown countlZero
  dsimp only
  generalize Runs.findLast word.getLsbD true 64 = t at ht64 hbehind hlast
  have hpos : 0 < t := by
    by_contra hzero
    have := hbehind k (by omega) hk
    rw [hset] at this
    cases this
  have htop : word.getLsbD (t - 1) = true := hlast hpos
  have htm : t ≤ m := by
    rw [hword _ (by omega), Bool.and_eq_true, decide_eq_true_eq] at htop
    omega
  have hget : ∀ k < m, data.get (w * 64 + k) = word.getLsbD k := by
    intro k hk'
    rw [hword k (by omega), decide_eq_true hk', Bool.true_and]
  obtain ⟨hzt, hones, hclear⟩ := Runs.findLast_spec (f := word.getLsbD) false t
  have hshift : Runs.findLast (word <<< (64 - t)).getLsbD false 64 =
      Runs.findLast word.getLsbD false t + (64 - t) := by
    refine Runs.findLast_eq (by omega) (fun i hi hlt => ?_) fun hpos' => ?_
    · have h₁ := hones (i - (64 - t)) (by omega) (by omega)
      have h₂ : ¬i < 64 - t := by omega
      rw [BitVec.getLsbD_shiftLeft, h₁]
      simp [hlt, h₂]
    · by_cases hz : 0 < Runs.findLast word.getLsbD false t
      · have h₁ := hclear hz
        have h₂ : Runs.findLast word.getLsbD false t + (64 - t) - 1 - (64 - t) =
            Runs.findLast word.getLsbD false t - 1 := by omega
        rw [BitVec.getLsbD_shiftLeft, h₂, h₁, Bool.and_false]
      · have h₂ : Runs.findLast word.getLsbD false t + (64 - t) - 1 < 64 - t := by omega
        simp [BitVec.getLsbD_shiftLeft, h₂]
  unfold countlOne
  rw [hshift]
  generalize Runs.findLast word.getLsbD false t = z at hzt hones hclear
  -- where the last run of the array ends, and that it goes down to the clear bit of the word
  have hend : Runs.findLast data.get true (w * 64 + m) = w * 64 + t := by
    refine Runs.findLast_eq (by omega) (fun i hi hlt => ?_) fun _ => ?_
    · have h₁ := hget (i - w * 64) (by omega)
      have h₂ := hbehind (i - w * 64) (by omega) (by omega)
      rw [Nat.add_sub_cancel' (by omega)] at h₁
      exact h₁.trans h₂
    · rw [Nat.add_sub_assoc (by omega), hget _ (by omega)]
      exact htop
  have hset' : ∀ i, w * 64 + z ≤ i → i < w * 64 + t → data.get i = true := by
    intro i hi hlt
    have h₁ := hget (i - w * 64) (by omega)
    have h₂ := hones (i - w * 64) (by omega) (by omega)
    rw [Nat.add_sub_cancel' (by omega)] at h₁
    exact h₁.trans h₂
  have hskip : Runs.findLast data.get false (w * 64 + t) =
      Runs.findLast data.get false (w * 64 + z) := Runs.findLast_skip (by omega) hset'
  have hrun : Runs.lastRun data.get (w * 64 + m) =
      (Runs.findLast data.get false (w * 64 + z), w * 64 + t) := by
    rw [Runs.lastRun, hend, hskip]
  have hword_end : (w + 1) * 64 - (64 - t) = w * 64 + t := by omega
  rw [hword_end, hrun]
  split
  · next hinner =>
    have hz : 0 < z := by omega
    have hstart : Runs.findLast data.get false (w * 64 + z) = w * 64 + z := by
      refine Runs.findLast_eq (Nat.le_refl _) (fun i h h' => by omega) fun _ => ?_
      rw [Nat.add_sub_assoc (by omega), hget _ (by omega)]
      exact hclear hz
    have hdiff : w * 64 + t - (64 - (z + (64 - t))) = w * 64 + z := by omega
    have hnot : ¬AboveZeroWords data.get (w * 64 + m) := by
      rintro ⟨hlt, hmod, -⟩
      rw [hrun, hstart] at hlt hmod
      dsimp only at hlt hmod
      omega
    simp [hdiff, hstart, hnot]
  · next houter =>
    have hz : z = 0 := by omega
    subst hz
    have hsame : w * 64 + 0 = w * 64 := Nat.add_zero _
    have hpred : w + 1 - 1 = w := rfl
    rw [hsame, hpred, Prod.mk.injEq, findStartBit_eq_iff]
    simp only [and_true]
    have hiff : ZeroBelow data w ↔ AboveZeroWords data.get (w * 64 + m) := by
      rw [zeroBelow_iff, AboveZeroWords, hrun, hsame]
      constructor
      · rintro ⟨hle, hzero⟩
        have hstart : Runs.findLast data.get false (w * 64) = w * 64 :=
          Runs.findLast_eq (Nat.le_refl _) (fun i h h' => by omega)
            fun _ => hzero _ (by omega) (by omega)
        rw [hstart]
        exact ⟨by omega, by omega, by omega, hle, hzero⟩
      · rintro ⟨hlt, hmod, hnear, hle, hzero⟩
        have hbelow := (Runs.findLast_spec (f := data.get) false (w * 64)).1
        dsimp only at hlt hmod hnear hle hzero
        have hstart : Runs.findLast data.get false (w * 64) = w * 64 := by omega
        rw [hstart] at hle hzero
        exact ⟨hle, hzero⟩
    rw [hiff]

theorem lastRun_skip {f : ℕ → Bool} {k : ℕ} (hk : k ≤ n)
    (hclear : ∀ i, k ≤ i → i < n → f i = false) : Runs.lastRun f n = Runs.lastRun f k := by
  unfold Runs.lastRun
  rw [Runs.findLast_skip hk hclear]

theorem aboveZeroWords_skip {f : ℕ → Bool} {k : ℕ} (hk : k ≤ n)
    (hclear : ∀ i, k ≤ i → i < n → f i = false) :
    AboveZeroWords f n ↔ AboveZeroWords f k := by
  unfold AboveZeroWords
  rw [lastRun_skip hk hclear]

theorem lastWordFrom_eq_iff : lastWordFrom avx data w = Runs.lastRun data.get (w * 64) ↔
    avx = false ∨ ¬AboveZeroWords data.get (w * 64) := by
  induction w with
  | zero =>
      rw [Nat.zero_mul]
      simp [lastWordFrom, AboveZeroWords, Runs.lastRun, Runs.findLast]
  | succ w ih =>
      unfold lastWordFrom
      split
      · next hne =>
          rw [show (w + 1) * 64 = w * 64 + 64 by omega]
          exact wordBitsDown_eq_iff (Nat.le_refl 64) hne fun k hk => by simp [hk, get_mul_add hk]
      · next heq =>
          have hclear : ∀ i, w * 64 ≤ i → i < (w + 1) * 64 → data.get i = false := fun i hi hlt =>
            get_of_zero (not_not.1 heq) hi hlt
          rw [lastRun_skip (by omega) hclear, aboveZeroWords_skip (by omega) hclear]
          exact ih

theorem lastRangeFrom_eq_iff (avx : Bool) (hcount : 0 < wordCount) (data : BitArray) (stop : ℕ) :
    lastRangeFrom avx wordCount data stop =
        Runs.lastRun data.get (min stop (64 * wordCount)) ↔
      avx = false ∨ ¬AboveZeroWords data.get (min stop (64 * wordCount)) := by
  unfold lastRangeFrom
  split
  · next hzero =>
    simp [hzero, AboveZeroWords, Runs.lastRun, Runs.findLast]
  · next hpos =>
    have hmin : (if 64 * wordCount < stop then 64 * wordCount else stop) =
        min stop (64 * wordCount) := by
      split <;> omega
    dsimp only
    rw [hmin]
    generalize hn : min stop (64 * wordCount) = n
    obtain ⟨w, hw⟩ : ∃ w, w = (n - 1) / 64 := ⟨_, rfl⟩
    obtain ⟨m, hm⟩ : ∃ m, m = (n - 1) % 64 + 1 := ⟨_, rfl⟩
    have hnm : w * 64 + m = n := by omega
    have hpred : (n - 1) / 64 + 1 - 1 = w := by omega
    have hmask : (if (n - 1) % 64 < 63 then data w &&& lowBits ((n - 1) % 64 + 1) else data w) =
        if m < 64 then data w &&& lowBits m else data w := by
      rw [← hm]
      split <;> split <;> first | rfl | omega
    rw [hpred, hmask, ← hw]
    have hword : ∀ k < 64, (if m < 64 then data w &&& lowBits m else data w).getLsbD k =
        (decide (k < m) && data.get (w * 64 + k)) := by
      intro k hk
      split
      · next hlt => rw [BitVec.getLsbD_and, getLsbD_lowBits hlt hk, get_mul_add hk, Bool.and_comm]
      · have hkm : k < m := by omega
        simp [hkm, get_mul_add hk]
    generalize (if m < 64 then data w &&& lowBits m else data w) = word at hword
    split
    · next hne =>
      rw [← hnm]
      exact wordBitsDown_eq_iff (by omega) hne hword
    · next heq =>
      have hclear : ∀ i, w * 64 ≤ i → i < n → data.get i = false := by
        intro i hi hlt
        have h := hword (i - w * 64) (by omega)
        have hin : i - w * 64 < m := by omega
        rw [not_not.1 heq, Nat.add_sub_cancel' hi, decide_eq_true hin, Bool.true_and] at h
        simpa using h.symm
      have hskip : ∀ v, v ≤ w → (∀ u, v ≤ u → u < w → data u = 0) →
          ∀ i, v * 64 ≤ i → i < n → data.get i = false := by
        intro v hv hzero i hi hlt
        by_cases hin : i < w * 64
        · exact get_of_zero (hzero (i / 64) (by omega) (by omega)) (by omega) (by omega)
        · exact hclear i (by omega) hlt
      cases avx with
      | false =>
          have h := hskip w (Nat.le_refl w) fun u h h' => by omega
          rw [lastRun_skip (by omega) h, aboveZeroWords_skip (by omega) h]
          exact lastWordFrom_eq_iff
      | true =>
          obtain ⟨h₁, h₂⟩ := skipDown_spec (p := fun v => data v = 0) (n := w) (w := w)
          have h := hskip _ h₁ fun u hu hlt => by simpa using h₂ u hu hlt
          rw [lastRun_skip (by omega) h, aboveZeroWords_skip (by omega) h]
          exact lastWordFrom_eq_iff

/-! ### Both builds -/

theorem iterate_eq {k : ℕ} (hstart : start ≤ 64 * wordCount) (hn : 64 * wordCount ≤ start + n)
    (hk : 64 * wordCount ≤ start + k) :
    iterate avx wordCount data (n + 1) (Runs.firstRun data.get (64 * wordCount) start) =
      some (Runs.runsFrom data.get (64 * wordCount) k start) := by
  have hstop : firstRangeFrom avx wordCount data (64 * wordCount) =
      (64 * wordCount, 64 * wordCount) := by
    rw [firstRangeFrom_eq, Runs.firstRun, if_pos (Nat.le_refl _)]
  induction n generalizing start k with
  | zero =>
      have hend : Runs.firstRun data.get (64 * wordCount) start =
          (64 * wordCount, 64 * wordCount) := by
        rw [Runs.firstRun, if_pos (by omega)]
      rw [iterate, hstop, if_pos hend]
      cases k with
      | zero => rfl
      | succ k => simp [Runs.runsFrom, hend]
  | succ n ih =>
      by_cases hend : Runs.firstRun data.get (64 * wordCount) start =
          (64 * wordCount, 64 * wordCount)
      · rw [iterate, hstop, if_pos hend]
        cases k with
        | zero => rfl
        | succ k => simp [Runs.runsFrom, hend]
      · have hrun := (Runs.firstRun_spec (f := data.get) hstart).resolve_right fun h => hend h.1
        have h₁ := hrun.start_le
        have h₂ := hrun.lt
        have h₃ := hrun.le
        obtain ⟨k, rfl⟩ : ∃ j, k = j + 1 := ⟨k - 1, by omega⟩
        rw [iterate, hstop, if_neg hend, firstRangeFrom_eq,
          ih h₃ (by omega) (show _ ≤ _ + k by omega)]
        simp [Runs.runsFrom, hend]

structure MeetsSpec (avx : Bool) (wordCount : ℕ) (data other : BitArray) (start stop : ℕ) :
    Prop where
  copy : ∀ i, (copyRange avx wordCount other start stop).get i =
    (inside wordCount start stop i && other.get i)
  set : ∀ i, (setRange avx wordCount data start stop).get i =
    (inside wordCount start stop i || data.get i)
  unset : ∀ i, (unsetRange avx wordCount data start stop).get i =
    (!inside wordCount start stop i && data.get i)
  first : Runs.IsRun data.get (64 * wordCount) start
      (firstRangeFrom avx wordCount data start) ∨
    firstRangeFrom avx wordCount data start = (64 * wordCount, 64 * wordCount) ∧
      ∀ i, start ≤ i → i < 64 * wordCount → data.get i = false
  last : Runs.IsLast data.get (min stop (64 * wordCount)) (lastRangeFrom avx wordCount data stop)
  iterates : ∃ ranges : List (ℕ × ℕ),
    (∀ n, 64 * wordCount < n →
      iterate avx wordCount data n (firstRangeFrom avx wordCount data 0) = some ranges) ∧
    (∀ r, r ∈ ranges ↔ Runs.IsMaximal data.get (64 * wordCount) r) ∧
    ranges.Pairwise fun r r' => r.2 < r'.1

/-- All range operations do what they are for in both builds, but with AVX2 `LastRangeFrom` does so
just if the last run does not lie in one word above four words of zeros. -/
theorem bitArray_meetsSpec_iff (hcount : 0 < wordCount) :
    MeetsSpec avx wordCount data other start stop ↔
      avx = false ∨ ¬AboveZeroWords data.get (min stop (64 * wordCount)) := by
  rw [← lastRangeFrom_eq_iff avx hcount data stop, ← Runs.isLast_iff]
  refine ⟨fun h => h.last, fun hlast => ⟨get_copyRange avx wordCount other start stop,
    get_setRange avx wordCount data start stop, get_unsetRange avx wordCount data start stop,
    ?_, hlast, Runs.runs data.get (64 * wordCount), fun n hn => ?_, fun r => Runs.mem_runs_iff,
    Runs.runs_pairwise⟩⟩
  · rw [firstRangeFrom_eq]
    by_cases hstart : start ≤ 64 * wordCount
    · exact Runs.firstRun_spec hstart
    · rw [Runs.firstRun, if_pos (by omega)]
      exact .inr ⟨rfl, fun i hi hlt => by omega⟩
  · obtain ⟨n, rfl⟩ : ∃ m, n = m + 1 := ⟨n - 1, by omega⟩
    rw [firstRangeFrom_eq]
    exact iterate_eq (Nat.zero_le _) (by omega) (by omega)

/-- A run that fills the sixth word, and nothing below it. -/
theorem lastRangeFrom_avx_fails :
    lastRangeFrom true 8 (fun w => if w = 5 then BitVec.allOnes 64 else 0) 384 = (64, 384) ∧
      ¬MeetsSpec true 8 (fun w => if w = 5 then BitVec.allOnes 64 else 0) (fun _ => 0) 0 384 := by
  have hlast : lastRangeFrom true 8 (fun w => if w = 5 then BitVec.allOnes 64 else 0) 384 =
      (64, 384) := by decide
  refine ⟨hlast, fun h => ?_⟩
  rcases hlast ▸ h.last with ⟨hmax, -⟩ | ⟨hzero, -⟩
  · have := hmax.set 64 (by decide) (by decide)
    simp [get] at this
  · cases hzero

/-- The same run above a word that is not zero. -/
theorem bitArray_meetsSpec_iff_run :
    MeetsSpec true 8 (fun w => if w = 5 ∨ w = 2 then BitVec.allOnes 64 else 0) (fun _ => 0)
      0 384 := by
  refine (bitArray_meetsSpec_iff (by decide)).2 (.inr fun h => ?_)
  have hrun : Runs.lastRun (get fun w => if w = 5 ∨ w = 2 then BitVec.allOnes 64 else 0)
      (min 384 (64 * 8)) = (320, 384) := by decide
  rw [AboveZeroWords, hrun] at h
  have hclear := h.2.2.2.2 150 (by decide) (by decide)
  simp [get] at hclear

end BitArray

end OrbitConsole.Common
