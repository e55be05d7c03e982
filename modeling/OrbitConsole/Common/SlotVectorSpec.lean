import Mathlib.Data.List.Nodup
import Mathlib.Data.List.Sort
import Mathlib.Tactic.Ring
import OrbitConsole.Common.SlotVector
import OrbitConsole.Library.Transition

/-!
# Identity in slot vectors

The bits, the free slots and the objects of a slot vector agree with what was inserted
and not erased since, over every run and any number of growths, as long as an index can
name every slot.
-/

namespace OrbitConsole.Common

open Function (update update_of_ne)

namespace SlotVector

variable {T : Type*} {v : SlotVector T} {held : ℕ → Option T} {i j n cap : ℕ}

/-! ### Bits -/

def bitOf (words : List (BitVec 64)) (i : ℕ) : Bool := (wordOf words i).getLsbD (i % 64)

theorem and_one_ne_zero (x : BitVec 64) : decide (x &&& 1 ≠ 0) = x.getLsbD 0 := by
  change decide (x &&& 1#64 ≠ 0) = x.getLsbD 0
  rw [BitVec.and_one_eq_setWidth_ofBool_getLsbD]
  cases x.getLsbD 0 <;> decide

theorem readStorageBit_eq (v : SlotVector T) (i : ℕ) :
    v.readStorageBit i = bitOf v.stored_bitset i := by
  rw [readStorageBit, and_one_ne_zero, BitVec.getLsbD_ushiftRight, Nat.add_zero, bitOf]

theorem bitOf_set {words : List (BitVec 64)} (hi : i / 64 < words.length) (w : BitVec 64) (k : ℕ) :
    bitOf (words.set (i / 64) w) k =
      if k / 64 = i / 64 then w.getLsbD (k % 64) else bitOf words k := by
  unfold bitOf wordOf
  split
  case isTrue h => rw [h, List.getD_eq_getElem?_getD, List.getElem?_set_self hi]; rfl
  case isFalse h =>
      rw [List.getD_eq_getElem?_getD, List.getElem?_set_ne (Ne.symm h),
        ← List.getD_eq_getElem?_getD]

theorem getLsbD_one_shiftLeft {m k : ℕ} (hk : k < 64) :
    ((1 : BitVec 64) <<< m).getLsbD k = decide (k = m) := by
  have hone : (1 : BitVec 64).getLsbD (k - m) = decide (k - m = 0) := by
    change (1#64).getLsbD (k - m) = _
    rw [BitVec.getLsbD_one]
    simp
  rw [BitVec.getLsbD_shiftLeft, hone, Bool.eq_iff_iff]
  simp only [hk, decide_true, Bool.true_and, Bool.and_eq_true, Bool.not_eq_true',
    decide_eq_false_iff_not, decide_eq_true_eq]
  omega

theorem mod_eq_iff {k : ℕ} (h : k / 64 = i / 64) : k % 64 = i % 64 ↔ k = i := by omega

theorem bitOf_setStorageBit (hi : i / 64 < v.stored_bitset.length) (k : ℕ) :
    bitOf (v.setStorageBit i).stored_bitset k =
      if k = i then true else bitOf v.stored_bitset k := by
  rw [setStorageBit, bitOf_set hi]
  split
  case isTrue h =>
      rw [BitVec.getLsbD_or, getLsbD_one_shiftLeft (Nat.mod_lt k (by decide))]
      simp only [mod_eq_iff h]
      rcases eq_or_ne k i with rfl | hne
      · simp
      · simp [hne, bitOf, wordOf, h]
  case isFalse h => rw [if_neg fun hk => h (by rw [hk])]

theorem bitOf_resetStorageBit (hi : i / 64 < v.stored_bitset.length) (k : ℕ) :
    bitOf (v.resetStorageBit i).stored_bitset k =
      if k = i then false else bitOf v.stored_bitset k := by
  have hk64 : k % 64 < 64 := Nat.mod_lt k (by decide)
  rw [resetStorageBit, bitOf_set hi]
  split
  case isTrue h =>
      rw [BitVec.getLsbD_and, BitVec.getLsbD_not, getLsbD_one_shiftLeft hk64]
      simp only [mod_eq_iff h]
      rcases eq_or_ne k i with rfl | hne
      · simp
      · simp [hne, bitOf, wordOf, h, hk64]
  case isFalse h => rw [if_neg fun hk => h (by rw [hk])]

theorem bitOf_resizeWords {words : List (BitVec 64)} (hn : words.length ≤ n) (k : ℕ) :
    bitOf (resizeWords words n) k = bitOf words k := by
  unfold bitOf wordOf resizeWords
  rw [List.take_of_length_le hn, List.getD_eq_getElem?_getD, List.getD_eq_getElem?_getD,
    List.getElem?_append]
  split
  · rfl
  · rw [List.getElem?_replicate, List.getElem?_eq_none (by omega)]
    split <;> rfl

theorem length_resizeWords {words : List (BitVec 64)} (hn : words.length ≤ n) :
    (resizeWords words n).length = n := by
  rw [resizeWords, List.length_append, List.length_take, List.length_replicate]
  omega

/-! ### Moving the objects -/

theorem moveWord_apply (old : ℕ → Option T) (index bit : ℕ) (bits : BitVec 64)
    (new : ℕ → Option T) (k : ℕ) :
    moveWord old index bit bits new k =
      if index + bit ≤ k ∧ bits.getLsbD (k - (index + bit)) = true then old k else new k := by
  fun_induction moveWord old index bit bits new with
  | case1 bit new => simp
  | case2 bit bits new hbits i new' ih =>
      have hzero : bits &&& 1 = 0 ↔ bits.getLsbD 0 = false := by
        rw [← and_one_ne_zero, decide_eq_false_iff_not, not_not]
      rw [ih, BitVec.getLsbD_ushiftRight]
      rcases lt_trichotomy k (index + bit) with hlt | rfl | hgt
      · rw [if_neg (by omega), if_neg (by omega)]
        simp only [new']
        split
        · rfl
        · exact update_of_ne (Nat.ne_of_lt hlt) _ _
      · rw [if_neg (by omega), Nat.sub_self]
        simp only [new', hzero, i]
        cases h : bits.getLsbD 0 <;> simp
      · have hsub : 1 + (k - (index + (bit + 1))) = k - (index + bit) := by omega
        rw [hsub]
        have hnew : new' k = new k := by
          simp only [new']
          split
          · rfl
          · exact update_of_ne (Nat.ne_of_gt hgt) _ _
        have hle : index + (bit + 1) ≤ k ↔ index + bit ≤ k := by omega
        simp only [hnew, hle]

theorem moveWords_apply (old : ℕ → Option T) (index : ℕ) (words : List (BitVec 64))
    (new : ℕ → Option T) (k : ℕ) :
    moveWords old index words new k =
      if index ≤ k ∧ bitOf words (k - index) = true then old k else new k := by
  induction words generalizing index new with
  | nil => simp [moveWords, bitOf, wordOf]
  | cons bits rest ih =>
      rw [moveWords, ih, moveWord_apply]
      simp only [Nat.add_zero]
      by_cases hindex : index ≤ k
      · by_cases hword : k < index + 64
        · have hbit : bitOf (bits :: rest) (k - index) = bits.getLsbD (k - index) := by
            have h0 : (k - index) / 64 = 0 := by omega
            rw [bitOf, wordOf, h0, Nat.mod_eq_of_lt (by omega)]
            rfl
          rw [if_neg (by omega), hbit]
        · have hbit : bitOf (bits :: rest) (k - index) = bitOf rest (k - (index + 64)) := by
            have hdiv : (k - index) / 64 = (k - (index + 64)) / 64 + 1 := by omega
            have hmod : (k - index) % 64 = (k - (index + 64)) % 64 := by omega
            rw [bitOf, bitOf, wordOf, wordOf, hdiv, hmod, List.getD_cons_succ]
          have hhigh : bits.getLsbD (k - index) = false :=
            BitVec.getLsbD_of_ge _ _ (by omega)
          have hle : index + 64 ≤ k := by omega
          simp [hbit, hhigh, hindex, hle]
      · rw [if_neg (by omega), if_neg (by omega), if_neg (by omega)]

/-! ### The free slots -/

theorem newIndices_eq {first : ℕ} (h : first + n ≤ indexRange) :
    newIndices first n = (List.range' first n).reverse := by
  rw [newIndices, List.range'_eq_map_range]
  congr 1
  refine List.map_congr_left fun i hi => ?_
  have := List.mem_range.1 hi
  rcases Nat.lt_or_ge first indexRange with hlt | hge
  · rw [Nat.mod_eq_of_lt hlt, Nat.mod_eq_of_lt (by omega)]
  · omega

theorem mem_newIndices {first : ℕ} (h : first + n ≤ indexRange) :
    i ∈ newIndices first n ↔ first ≤ i ∧ i < first + n := by
  rw [newIndices_eq h, List.mem_reverse, List.mem_range'_1]

theorem nodup_newIndices {first : ℕ} (h : first + n ≤ indexRange) :
    (newIndices first n).Nodup := by
  rw [newIndices_eq h, List.nodup_reverse]
  exact List.nodup_range'

/-! ### Agreement -/

structure Agrees (v : SlotVector T) (held : ℕ → Option T) : Prop where
  words : v.stored_bitset.length = (v.values_capacity + 63) / 64
  bit : ∀ i, bitOf v.stored_bitset i = (held i).isSome
  below : ∀ i, (held i).isSome → i < v.values_capacity
  value : v.values = held
  nodup : v.free_list.Nodup
  mem_free : ∀ i, i ∈ v.free_list ↔ i < v.values_capacity ∧ held i = none

theorem Agrees.reserve (h : Agrees v held) (hcap : v.values_capacity ≤ cap)
    (hrange : cap ≤ indexRange) : Agrees (v.reserve cap) held := by
  have hlength : v.stored_bitset.length ≤ (cap + 63) / 64 := by
    rw [h.words]
    omega
  have hnew : v.values_capacity + (cap - v.values_capacity) ≤ indexRange := by omega
  refine
    { words := length_resizeWords hlength
      bit := fun i => by
        rw [SlotVector.reserve, bitOf_resizeWords hlength]
        exact h.bit i
      below := fun i hi => lt_of_lt_of_le (h.below i hi) hcap
      value := ?_
      nodup := ?_
      mem_free := fun i => ?_ }
  · funext k
    change moveWords v.values 0 v.stored_bitset (fun _ => none) k = held k
    rw [moveWords_apply, Nat.sub_zero, h.bit, h.value]
    cases hk : held k <;> simp
  · refine List.nodup_append.2 ⟨h.nodup, nodup_newIndices hnew, fun a ha b hb hab => ?_⟩
    have hlt := ((h.mem_free a).1 ha).1
    have hge := ((mem_newIndices hnew).1 hb).1
    omega
  · change i ∈ v.free_list ++ _ ↔ i < cap ∧ held i = none
    rw [List.mem_append, h.mem_free, mem_newIndices hnew]
    constructor
    · rintro (⟨hlt, hi⟩ | ⟨hge, hlt⟩)
      · exact ⟨lt_of_lt_of_le hlt hcap, hi⟩
      · refine ⟨by omega, ?_⟩
        by_contra hi
        exact absurd (h.below i (Option.isSome_iff_ne_none.2 hi)) (by omega)
    · rintro ⟨hlt, hi⟩
      by_cases hold : i < v.values_capacity
      · exact .inl ⟨hold, hi⟩
      · exact .inr ⟨by omega, by omega⟩

theorem Agrees.create : Agrees (SlotVector.create : SlotVector T) fun _ => none := by
  refine Agrees.reserve (v := ⟨fun _ => none, 0, [], []⟩) ?_ (Nat.zero_le _) (by decide)
  exact
    { words := by simp
      bit := fun i => by simp [bitOf, wordOf]
      below := fun i hi => by simp at hi
      value := rfl
      nodup := List.nodup_nil
      mem_free := fun i => by simp }

theorem Agrees.length_le (h : Agrees v held) : v.free_list.length ≤ v.values_capacity := by
  have hsub : v.free_list ⊆ List.range v.values_capacity := fun i hi =>
    List.mem_range.2 ((h.mem_free i).1 hi).1
  simpa using (List.subperm_of_subset h.nodup hsub).length_le

theorem Agrees.word_lt (h : Agrees v held) (hi : i < v.values_capacity) :
    i / 64 < v.stored_bitset.length := by
  rw [h.words]
  omega

theorem Agrees.take {rest : List ℕ} {id : ℕ} (h : Agrees v held)
    (hfree : v.free_list = rest ++ [id]) (x : T) :
    Agrees (({ v with free_list := rest, values := update v.values id (some x) } :
      SlotVector T).setStorageBit id) (update held id (some x)) := by
  have hnodup : (rest ++ [id]).Nodup := hfree ▸ h.nodup
  have hid : id ∈ v.free_list := by simp [hfree]
  obtain ⟨hlt, hnone⟩ := (h.mem_free id).1 hid
  have hout : id ∉ rest := fun hmem => by
    have := (List.nodup_append.1 hnodup).2.2 id hmem id (by simp)
    exact this rfl
  refine
    { words := by
        rw [setStorageBit, List.length_set]
        exact h.words
      bit := fun i => ?_
      below := fun i hi => ?_
      value := by rw [setStorageBit, ← h.value]
      nodup := (List.nodup_append.1 hnodup).1
      mem_free := fun i => ?_ }
  · refine (bitOf_setStorageBit (h.word_lt hlt) i).trans ?_
    rcases eq_or_ne i id with rfl | hne
    · simp
    · rw [if_neg hne, update_of_ne hne]
      exact h.bit i
  · rcases eq_or_ne i id with rfl | hne
    · exact hlt
    · rw [update_of_ne hne] at hi
      exact h.below i hi
  · have hold := h.mem_free i
    rw [hfree, List.mem_append, List.mem_singleton] at hold
    change i ∈ rest ↔ i < v.values_capacity ∧ _
    rcases eq_or_ne i id with rfl | hne
    · simp [hout]
    · rw [update_of_ne hne, ← hold]
      simp [hne]

theorem Agrees.erase {id : ℕ} (h : Agrees v held) (hid : (held id).isSome) :
    Agrees (v.erase id) (update held id none) := by
  have hlt := h.below id hid
  have hout : id ∉ v.free_list := fun hmem => by
    rw [((h.mem_free id).1 hmem).2] at hid
    cases hid
  refine
    { words := by
        rw [SlotVector.erase, resetStorageBit, List.length_set]
        exact h.words
      bit := fun i => ?_
      below := fun i hi => ?_
      value := by rw [SlotVector.erase, resetStorageBit, ← h.value]
      nodup := ?_
      mem_free := fun i => ?_ }
  · refine (bitOf_resetStorageBit (h.word_lt hlt) i).trans ?_
    rcases eq_or_ne i id with rfl | hne
    · simp
    · rw [if_neg hne, update_of_ne hne]
      exact h.bit i
  · rcases eq_or_ne i id with rfl | hne
    · exact hlt
    · rw [update_of_ne hne] at hi
      exact h.below i hi
  · change (v.free_list ++ [id]).Nodup
    refine List.nodup_append.2 ⟨h.nodup, List.nodup_singleton id, fun a ha b hb hab => ?_⟩
    rw [List.mem_singleton] at hb
    exact hout (hb ▸ hab ▸ ha)
  · change i ∈ v.free_list ++ [id] ↔ i < v.values_capacity ∧ _
    rw [List.mem_append, List.mem_singleton, h.mem_free]
    rcases eq_or_ne i id with rfl | hne
    · simp [hlt]
    · rw [update_of_ne hne]
      simp [hne]

/-! ### The capacity -/

def Doubled (j cap : ℕ) : Prop := ∃ k ≤ j, cap = initialCapacity * 2 ^ k

theorem Doubled.pos (h : Doubled j cap) : 0 < cap := by
  obtain ⟨k, -, rfl⟩ := h
  exact Nat.mul_pos (by decide) (Nat.two_pow_pos k)

theorem Doubled.le (h : Doubled j cap) : cap ≤ initialCapacity * 2 ^ j := by
  obtain ⟨k, hk, rfl⟩ := h
  exact Nat.mul_le_mul_left _ (Nat.pow_le_pow_right (by decide) hk)

theorem Doubled.double (h : Doubled j cap) (hlt : cap < initialCapacity * 2 ^ j) :
    Doubled j (cap <<< 1) := by
  obtain ⟨k, -, rfl⟩ := h
  have hk : k < j :=
    (Nat.pow_lt_pow_iff_right (by decide)).1 (Nat.lt_of_mul_lt_mul_left hlt)
  exact ⟨k + 1, hk, by rw [Nat.shiftLeft_eq]; ring⟩

/-- What an insertion starts from: the parts agree, and the capacity is one an index can
still name. -/
structure Ready (j : ℕ) (v : SlotVector T) (held : ℕ → Option T) : Prop where
  agrees : Agrees v held
  doubled : Doubled j v.values_capacity
  range : initialCapacity * 2 ^ j ≤ indexRange

theorem Ready.makeRoom (h : Ready j v held) (hsize : v.size < initialCapacity * 2 ^ j) :
    Ready j v.makeRoom held ∧ v.makeRoom.free_list ≠ [] ∧ v.makeRoom.size = v.size := by
  rw [SlotVector.makeRoom]
  split
  case isFalse hfree => exact ⟨h, hfree, rfl⟩
  case isTrue hfree =>
      have hpos := h.doubled.pos
      have hsize' : v.size = v.values_capacity := by
        rw [size, hfree]
        rfl
      have hdoubled := h.doubled.double (hsize' ▸ hsize)
      have hle : v.values_capacity ≤ v.values_capacity <<< 1 := by
        rw [Nat.shiftLeft_eq]
        omega
      have hagrees := h.agrees.reserve hle (le_trans hdoubled.le h.range)
      have hlength : (newIndices v.values_capacity
          (v.values_capacity <<< 1 - v.values_capacity)).length = v.values_capacity := by
        rw [newIndices, List.length_reverse, List.length_map, List.length_range,
          Nat.shiftLeft_eq]
        omega
      rw [if_pos (Nat.ne_of_gt hpos)]
      refine ⟨⟨hagrees, hdoubled, h.range⟩, fun hnil => ?_, ?_⟩
      · have hzero := congrArg List.length hnil
        simp only [SlotVector.reserve, hfree, List.nil_append, hlength, List.length_nil] at hzero
        omega
      · rw [hsize', size, SlotVector.reserve]
        simp only [hfree, List.nil_append, hlength]
        rw [Nat.shiftLeft_eq]
        omega

theorem Ready.insert (h : Ready j v held) (hsize : v.size < initialCapacity * 2 ^ j) (x : T) :
    held (v.insert x).1 = none ∧
      Ready j (v.insert x).2 (update held (v.insert x).1 (some x)) ∧
      (v.insert x).2.size = v.size + 1 := by
  obtain ⟨hready, hne, hroom⟩ := h.makeRoom hsize
  obtain ⟨rest, id, hfree⟩ := (List.eq_nil_or_concat' v.makeRoom.free_list).resolve_left hne
  have hinsert : v.insert x = (id, ({ v.makeRoom with
      free_list := rest
      values := update v.makeRoom.values id (some x) } :
        SlotVector T).setStorageBit id) := by
    rw [SlotVector.insert, freeValueIndex, hfree]
    simp
  have hlength := hready.agrees.length_le
  rw [hfree, List.length_append, List.length_singleton] at hlength
  rw [hinsert]
  refine ⟨((hready.agrees.mem_free id).1 (by simp [hfree])).2,
    ⟨hready.agrees.take hfree x, hready.doubled, hready.range⟩, ?_⟩
  rw [← hroom, size, size, hfree, List.length_append, List.length_singleton]
  change v.makeRoom.values_capacity - rest.length = _
  omega

theorem Ready.erase {id : ℕ} (h : Ready j v held) (hid : (held id).isSome) :
    Ready j (v.erase id) (update held id none) :=
  ⟨h.agrees.erase hid, h.doubled, h.range⟩

/-! ### Iteration -/

/-- The slots from one on that hold an object. -/
def liveFrom (v : SlotVector T) (slot : ℕ) : List ℕ :=
  (List.range' slot (v.values_capacity - slot)).filter v.readStorageBit

theorem liveFrom_of_lt (h : i < v.values_capacity) :
    v.liveFrom i =
      if v.readStorageBit i = true then i :: v.liveFrom (i + 1) else v.liveFrom (i + 1) := by
  have hsub : v.values_capacity - i = v.values_capacity - (i + 1) + 1 := by omega
  rw [liveFrom, hsub, List.range'_succ, List.filter_cons]
  rfl

theorem liveFrom_capacity : v.liveFrom v.values_capacity = [] := by
  rw [liveFrom, Nat.sub_self]
  rfl

theorem advanceToValid_spec (hcap : v.values_capacity < indexRange) (hi : i ≤ v.values_capacity) :
    v.advanceToValid i ≤ v.values_capacity ∧ v.liveFrom (v.advanceToValid i) = v.liveFrom i ∧
      (v.advanceToValid i ≠ v.values_capacity →
        v.readStorageBit (v.advanceToValid i) = true) := by
  fun_induction advanceToValid v i with
  | case1 slot h ih =>
      rw [Nat.mod_eq_of_lt hcap] at h
      obtain ⟨hle, hlive, hbit⟩ := ih h.1
      refine ⟨hle, ?_, hbit⟩
      rw [hlive, liveFrom_of_lt h.1, h.2]
      rfl
  | case2 slot h =>
      rw [Nat.mod_eq_of_lt hcap] at h
      refine ⟨hi, rfl, fun hne => ?_⟩
      by_contra hbit
      exact h ⟨lt_of_le_of_ne hi hne, by simpa using hbit⟩

theorem endSlot_eq (hcap : v.values_capacity < indexRange) : v.endSlot = v.values_capacity := by
  rw [endSlot, Nat.mod_eq_of_lt hcap, advanceToValid, Nat.mod_eq_of_lt hcap,
    if_neg fun h => Nat.lt_irrefl _ h.1]

theorem visit_eq (hcap : v.values_capacity < indexRange) (hi : i ≤ v.values_capacity)
    (hn : v.values_capacity - i < n) :
    v.visit n (v.advanceToValid i) = some (v.liveFrom i) := by
  induction n generalizing i with
  | zero => omega
  | succ n ih =>
      obtain ⟨hle, hlive, hbit⟩ := advanceToValid_spec hcap hi
      have hge : i ≤ v.advanceToValid i := by
        clear hle hlive hbit hn ih
        fun_induction advanceToValid v i with
        | case1 slot h ih =>
            rw [Nat.mod_eq_of_lt hcap] at h
            exact le_trans (Nat.le_succ slot) (ih h.1)
        | case2 slot h => exact le_rfl
      rw [visit, endSlot_eq hcap, ← hlive]
      by_cases hend : v.advanceToValid i = v.values_capacity
      · rw [if_pos hend, hend, liveFrom_capacity]
      · have hlt := lt_of_le_of_ne hle hend
        have hinc : incU32 (v.advanceToValid i) = v.advanceToValid i + 1 := by
          refine incU32_eq ?_
          unfold indexRange at hcap
          omega
        rw [if_neg hend, hinc, ih hlt (by omega), liveFrom_of_lt hlt, hbit hend]
        rfl

/-! ### Runs -/

/-- A slot vector, and the object that was inserted under each id and not erased since. -/
structure Run (T : Type*) where
  vector : SlotVector T
  inserted : ℕ → Option T

inductive Action (T : Type*) where
  | insert (x : T)
  | erase (id : ℕ)

def step (s : Run T) : Action T → Option (Run T)
  | .insert x =>
      some ⟨(s.vector.insert x).2, update s.inserted (s.vector.insert x).1 (some x)⟩
  | .erase id =>
      if (s.inserted id).isSome then some ⟨s.vector.erase id, update s.inserted id none⟩
      else none

def start : Run T := ⟨create, fun _ => none⟩

/-- An insertion finds less than so many objects. -/
def Room (n : ℕ) (s : Run T) : Action T → Prop
  | .insert _ => s.vector.size < n
  | .erase _ => True

/-- Each unallocated index below the capacity is listed once, and no other. -/
def FreeListed (s : Run T) : Prop :=
  s.vector.free_list.Nodup ∧ ∀ id, id ∈ s.vector.free_list ↔
    id < s.vector.values_capacity ∧ s.vector.isAllocated id = false

/-- The next insertion returns an id that is not live. -/
def Fresh (s : Run T) : Prop := ∀ x, s.inserted (s.vector.insert x).1 = none

def Designates (s : Run T) : Prop :=
  ∀ id x, s.inserted id = some x → s.vector.isAllocated id = true ∧ s.vector.get id = some x

/-- A loop over the vector ends, and visits exactly the live ids in ascending order. -/
def Iterates (s : Run T) : Prop :=
  ∃ l, (∀ n > s.vector.values_capacity, s.vector.visit n s.vector.beginSlot = some l) ∧
    l.Pairwise (· < ·) ∧ ∀ id, id ∈ l ↔ (s.inserted id).isSome

structure Identity (s : Run T) : Prop where
  free_listed : FreeListed s
  fresh : Fresh s
  designates : Designates s
  iterates : Iterates s

theorem ready_start (hrange : initialCapacity * 2 ^ j ≤ indexRange) :
    Ready j (create : SlotVector T) fun _ => none :=
  ⟨Agrees.create, ⟨0, Nat.zero_le j, rfl⟩, hrange⟩

theorem size_create : (create : SlotVector T).size = 0 := by
  rw [size, create, reserve, newIndices]
  simp

/-- By induction on the insertions and erasures. -/
theorem ready_of_reachable {s : Run T} (hrange : initialCapacity * 2 ^ j ≤ indexRange)
    (h : Transition.Reachable step (Room (initialCapacity * 2 ^ j)) start s) :
    Ready j s.vector s.inserted := by
  refine h.invariant (P := fun s => Ready j s.vector s.inserted) (ready_start hrange)
    fun s s' a hs hroom hstep => ?_
  cases a with
  | insert x =>
      cases hstep
      exact (hs.insert hroom x).2.1
  | erase id =>
      simp only [step, Option.ite_none_right_eq_some, Option.some.injEq] at hstep
      obtain ⟨hid, rfl⟩ := hstep
      exact hs.erase hid

theorem isAllocated_eq {s : Run T} (h : Agrees s.vector s.inserted) (id : ℕ) :
    s.vector.isAllocated id = (s.inserted id).isSome := by
  rw [isAllocated, readStorageBit_eq, h.bit]

theorem freeListed_of_agrees {s : Run T} (h : Agrees s.vector s.inserted) : FreeListed s := by
  refine ⟨h.nodup, fun id => ?_⟩
  rw [h.mem_free, isAllocated_eq h, Option.isSome_eq_false_iff, Option.isNone_iff_eq_none]

theorem designates_of_agrees {s : Run T} (h : Agrees s.vector s.inserted) : Designates s := by
  intro id x hx
  rw [isAllocated_eq h, SlotVector.get, h.value, hx]
  exact ⟨rfl, rfl⟩

theorem iterates_of_agrees {s : Run T} (h : Agrees s.vector s.inserted)
    (hcap : s.vector.values_capacity < indexRange) : Iterates s := by
  refine ⟨s.vector.liveFrom 0, fun n hn => visit_eq hcap (Nat.zero_le _) (by omega), ?_,
    fun id => ?_⟩
  · exact List.Pairwise.filter _ List.pairwise_lt_range'
  · rw [liveFrom, List.mem_filter, List.mem_range'_1, readStorageBit_eq, h.bit]
    constructor
    · exact fun hid => hid.2
    · intro hid
      have := h.below id hid
      exact ⟨⟨Nat.zero_le id, by omega⟩, hid⟩

/-- While an index can name every slot, the ids keep their identity; while it can also name
the end, a loop sees them all. -/
theorem slotVector_identity :
    (∀ s : Run T, Transition.Reachable step (Room 4294967296) start s →
      FreeListed s ∧ Designates s ∧ (s.vector.size < 4294967296 → Fresh s)) ∧
      ∀ s : Run T, Transition.Reachable step (Room 2147483648) start s → Iterates s := by
  refine ⟨fun s hs => ?_, fun s hs => ?_⟩
  · have hready := ready_of_reachable (T := T) (j := 21) (by decide) hs
    exact ⟨freeListed_of_agrees hready.agrees, designates_of_agrees hready.agrees,
      fun hsize x => (hready.insert hsize x).1⟩
  · have hready := ready_of_reachable (T := T) (j := 20) (by decide) hs
    exact iterates_of_agrees hready.agrees
      (lt_of_le_of_lt hready.doubled.le (by decide))

/-- An object takes the slot of one that has been erased. -/
theorem slotVector_identity_insert : ∃ (id : ℕ) (s : Run ℕ),
    Transition.run step start [.insert 7, .erase id, .insert 8] = some s ∧
      FreeListed s ∧ Designates s ∧ Iterates s := by
  obtain ⟨id, v, hinsert⟩ : ∃ id v, (create : SlotVector ℕ).insert 7 = (id, v) := ⟨_, _, rfl⟩
  have hfirst : step start (.insert 7) = some ⟨v, update (fun _ => none) id (some 7)⟩ := by
    rw [step, start, hinsert]
  have herase : step ⟨v, update (fun _ => none) id (some 7)⟩ (.erase id) =
      some ⟨v.erase id, update (update (fun _ => none) id (some 7)) id none⟩ :=
    if_pos (Option.isSome_iff_exists.2 ⟨7, if_pos rfl⟩)
  have hsize : v.size = 1 := by
    have := ((ready_start (T := ℕ) (j := 20) (by decide)).insert
      (by rw [size_create]; decide) 7).2.2
    rwa [hinsert, size_create] at this
  have hle : (v.erase id).size ≤ v.size :=
    Nat.sub_le_sub_left (List.length_append ▸ Nat.le_add_right _ _) _
  have hreach (n : ℕ) (hn : 1 < n) : Transition.Reachable step (Room n) start
      ⟨((v.erase id).insert 8).2,
        update (update (update (fun _ => none) id (some 7)) id none)
          ((v.erase id).insert 8).1 (some 8)⟩ := by
    have hroom : Room n (start : Run ℕ) (.insert 7) :=
      lt_of_eq_of_lt size_create (Nat.zero_lt_of_lt hn)
    refine .step (.insert 8) (.step (.erase id) (.step (.insert 7) .start hroom hfirst)
      trivial herase) ?_ rfl
    exact lt_of_le_of_lt hle (hsize ▸ hn)
  refine ⟨id, _, ?_, (slotVector_identity.1 _ (hreach _ (by decide))).1,
    (slotVector_identity.1 _ (hreach _ (by decide))).2.1,
    slotVector_identity.2 _ (hreach _ (by decide))⟩
  rw [Transition.run, hfirst]
  simp only [Transition.run, herase, Option.bind_some]
  rfl

/-! ### Too many objects -/

theorem reachable_insertions (n : ℕ) (hn : n ≤ 4294967296) : ∃ s : Run Unit,
    Transition.run step start (List.replicate n (.insert ())) = some s ∧
      Ready 21 s.vector s.inserted ∧ s.vector.size = n := by
  have hgen : ∀ s : Run Unit, Ready 21 s.vector s.inserted → s.vector.size + n ≤ 4294967296 →
      ∃ s' : Run Unit, Transition.run step s (List.replicate n (.insert ())) = some s' ∧
        Ready 21 s'.vector s'.inserted ∧ s'.vector.size = s.vector.size + n := by
    clear hn
    induction n with
    | zero => exact fun s hs _ => ⟨s, rfl, hs, rfl⟩
    | succ n ih =>
        intro s hs hsize
        obtain ⟨-, hready, hnext⟩ := hs.insert (by unfold initialCapacity; omega) ()
        obtain ⟨s', hrun, hs', hsize'⟩ := ih ⟨(s.vector.insert ()).2,
          update s.inserted (s.vector.insert ()).1 (some ())⟩ hready
          (by rw [hnext]; omega)
        refine ⟨s', hrun, hs', ?_⟩
        rw [hsize', hnext]
        omega
  have hzero : (start : Run Unit).vector.size = 0 := size_create
  obtain ⟨s, hrun, hs, hsize⟩ := hgen start (ready_start (by decide)) (by rw [hzero]; omega)
  exact ⟨s, hrun, hs, by rw [hsize, hzero, Nat.zero_add]⟩

/-- One object more than half the range of an index, and a loop sees none of them. -/
theorem slotVector_loop_empty : ∃ s : Run Unit,
    Transition.run step start (List.replicate 2147483649 (.insert ())) = some s ∧
      ¬Identity s := by
  obtain ⟨s, hrun, hs, hsize⟩ := reachable_insertions 2147483649 (by decide)
  refine ⟨s, hrun, fun hidentity => ?_⟩
  have hcap : s.vector.values_capacity = indexRange := by
    obtain ⟨k, hk, hcap⟩ := hs.doubled
    have hle : 2147483649 ≤ initialCapacity * 2 ^ k := by
      rw [← hcap, ← hsize]
      exact Nat.sub_le _ _
    have hk' : 20 < k := by
      by_contra hlt
      have hpow : 2 ^ k ≤ 2 ^ 20 := Nat.pow_le_pow_right (by decide) (by omega)
      unfold initialCapacity at hle
      omega
    rw [hcap, le_antisymm hk hk']
    rfl
  obtain ⟨l, hl, -, hmem⟩ := hidentity.iterates
  have hnone : l = [] := by
    have hvisit := hl (s.vector.values_capacity + 1) (Nat.lt_succ_self _)
    rw [visit, if_pos] at hvisit
    · exact (Option.some.inj hvisit).symm
    · rw [beginSlot, endSlot, hcap, Nat.mod_self]
  -- some index below the capacity is not free
  have hlive : ∃ id, (s.inserted id).isSome := by
    by_contra hall
    simp only [not_exists] at hall
    have hsub : List.range s.vector.values_capacity ⊆ s.vector.free_list := fun i hi =>
      (hs.agrees.mem_free i).2 ⟨List.mem_range.1 hi, by simpa using hall i⟩
    have hle := (List.subperm_of_subset List.nodup_range hsub).length_le
    rw [List.length_range] at hle
    rw [size] at hsize
    omega
  obtain ⟨id, hid⟩ := hlive
  exact absurd ((hmem id).2 hid) (by simp [hnone])

end SlotVector

end OrbitConsole.Common
