import OrbitConsole.Core.FileFormat.Psf
import OrbitConsole.Library.Transition

/-!
# What a PSF file gives back

`Open` reads back what `Encode` wrote as long as the numbers in the file have room:
values must fit in the maximum length of their entry, and keys are found by an
offset of 16 bits. The result is stated for every sequence of `Add` calls.
-/

namespace OrbitConsole.FileFormat

open Exec Bytes

/-! ### The maps of a PSF -/

def Keyed {α : Type} (map : ℕ → Option α) (entries : List Entry) (fmt : PSFEntryFmt) : Prop :=
  ∀ i, (map i).isSome ↔ ∃ entry, entries[i]? = some entry ∧ entry.param_fmt = fmt

section Keyed

variable {α : Type} {map : ℕ → Option α} {entries : List Entry} {fmt : PSFEntryFmt}

theorem Keyed.none_length (h : Keyed map entries fmt) {i : ℕ} (hi : entries.length ≤ i) :
    map i = none := by
  cases hmap : map i with
  | none => rfl
  | some value =>
      obtain ⟨entry, hentry, -⟩ := (h i).mp (by rw [hmap]; rfl)
      rw [List.getElem?_eq_none hi] at hentry
      cases hentry

theorem Keyed.set (h : Keyed map entries fmt) {index : ℕ} {entry : Entry}
    (hentry : entries[index]? = some entry) (max_len : ℕ) :
    Keyed map (entries.set index { entry with max_len := max_len }) fmt := by
  intro i
  rw [h i]
  by_cases hi : i = index
  · subst hi
    obtain ⟨hlt, -⟩ := List.getElem?_eq_some_iff.mp hentry
    rw [List.getElem?_set_self hlt, hentry]
    constructor
    · rintro ⟨e, ⟨⟩, hfmt⟩
      exact ⟨_, rfl, hfmt⟩
    · rintro ⟨e, ⟨⟩, hfmt⟩
      exact ⟨_, rfl, hfmt⟩
  · rw [List.getElem?_set_ne (Ne.symm hi)]

theorem Keyed.assign (h : Keyed map entries fmt) {index : ℕ} {entry : Entry}
    (hentry : entries[index]? = some entry) (hfmt : entry.param_fmt = fmt) (value : α) :
    ∃ map', assign map index value = .ok map' ∧ Keyed map' entries fmt ∧
      ∀ i v, map' i = some v → v = value ∨ map i = some v := by
  have hsome := (h index).mpr ⟨entry, hentry, hfmt⟩
  obtain ⟨old, hold⟩ := Option.isSome_iff_exists.mp hsome
  refine ⟨fun j => if j = index then some value else map j, ?_, fun i => ?_, fun i v hv => ?_⟩
  · rw [FileFormat.assign, hold]
    rfl
  · dsimp only
    by_cases hi : i = index
    · subst hi
      rw [if_pos rfl]
      exact ⟨fun _ => ⟨entry, hentry, hfmt⟩, fun _ => rfl⟩
    · rw [if_neg hi]
      exact h i
  · dsimp only at hv
    split at hv
    · cases hv
      exact Or.inl rfl
    · exact Or.inr hv

theorem Keyed.append_other (h : Keyed map entries fmt) {entry : Entry}
    (hne : entry.param_fmt ≠ fmt) : Keyed map (entries ++ [entry]) fmt := by
  intro i
  obtain hi | hi := Nat.lt_or_ge i entries.length
  · rw [h i, List.getElem?_append_left hi]
  · rw [h.none_length hi, List.getElem?_append_right hi]
    constructor
    · intro hsome
      cases hsome
    · rintro ⟨e, he, hfmt⟩
      have hmem := List.mem_of_getElem? he
      rw [List.mem_singleton] at hmem
      exact absurd (hmem ▸ hfmt) hne

theorem emplace_new {i : ℕ} (h : map i = none) (value : α) :
    emplace map i value = fun j => if j = i then some value else map j := by
  funext j
  rw [emplace, h]

theorem Keyed.emplace (h : Keyed map entries fmt) {entry : Entry}
    (hfmt : entry.param_fmt = fmt) (value : α) :
    Keyed (emplace map entries.length value) (entries ++ [entry]) fmt ∧
      ∀ i v, emplace map entries.length value i = some v → v = value ∨ map i = some v := by
  rw [emplace_new (h.none_length (Nat.le_refl _))]
  constructor
  · intro i
    dsimp only
    obtain hi | rfl | hi := Nat.lt_trichotomy i entries.length
    · rw [if_neg (Nat.ne_of_lt hi), h i, List.getElem?_append_left hi]
    · rw [if_pos rfl, List.getElem?_append_right (Nat.le_refl _), Nat.sub_self]
      exact ⟨fun _ => ⟨entry, rfl, hfmt⟩, fun _ => rfl⟩
    · rw [if_neg (Nat.ne_of_gt hi), h.none_length (Nat.le_of_lt hi),
        List.getElem?_eq_none (by rw [List.length_append, List.length_singleton]; omega)]
      constructor
      · intro hsome
        cases hsome
      · rintro ⟨e, he, -⟩
        cases he
  · intro i v hv
    dsimp only at hv
    split at hv
    · cases hv
      exact Or.inl rfl
    · exact Or.inr hv

end Keyed

/-! ### Reachable PSFs -/

structure WellFormed (psf : PSF) : Prop where
  binaries : Keyed psf.map_binaries psf.entry_list .binary
  strings : Keyed psf.map_strings psf.entry_list .text
  integers : Keyed psf.map_integers psf.entry_list .integer
  key_nul : ∀ entry ∈ psf.entry_list, 0 ∉ entry.key
  string_nul : ∀ i value, psf.map_strings i = some value → 0 ∉ value
  max_len_lt : ∀ entry ∈ psf.entry_list, entry.max_len < 4294967296

theorem wellFormed_empty : WellFormed PSF.empty := by
  have hkeyed (α : Type) (fmt : PSFEntryFmt) : Keyed (fun _ => (none : Option α)) [] fmt := by
    intro i
    constructor
    · intro hsome
      cases hsome
    · rintro ⟨entry, hentry, -⟩
      cases hentry
  refine ⟨hkeyed _ _, hkeyed _ _, hkeyed _ _, fun entry h => ?_, fun i value h => ?_,
    fun entry h => ?_⟩
  · exact absurd h List.not_mem_nil
  · cases h
  · exact absurd h List.not_mem_nil

theorem getMaxSize_lt (key : ByteString) (default_value : ℕ) :
    PSF.getMaxSize key default_value < 4294967296 := by
  unfold PSF.getMaxSize
  split
  · next size h =>
      have hknown : ∀ p ∈ PSF.knownMaxSizes, p.2 < 4294967296 := by decide
      obtain ⟨before, after, heq, -⟩ := List.lookup_eq_some_iff.mp h
      exact hknown (key, size) (by rw [heq]; simp)
  · exact Nat.mod_lt _ (by decide)

theorem addEntry_cases (psf : PSF) (key : ByteString) (fmt : PSFEntryFmt) (max_len : ℕ)
    (update : Bool) :
    psf.addEntry key fmt max_len update = .ok none ∨
    (∃ e, psf.addEntry key fmt max_len update = .error e) ∨
    (∃ index entry, psf.entry_list[index]? = some entry ∧ entry.param_fmt = fmt ∧
      psf.addEntry key fmt max_len update =
        .ok (some (psf.entry_list.set index { entry with max_len := max_len }, index, true))) ∨
    psf.addEntry key fmt max_len update =
      .ok (some (psf.entry_list ++ [⟨key, fmt, max_len⟩], psf.entry_list.length, false)) := by
  unfold PSF.addEntry
  dsimp only
  split
  · next entry hentry =>
      split
      · exact Or.inl rfl
      · split
        · next hfmt => exact Or.inr (Or.inr (Or.inl ⟨_, entry, hentry, hfmt, rfl⟩))
        · exact Or.inr (Or.inl ⟨_, rfl⟩)
  · exact Or.inr (Or.inr (Or.inr rfl))

inductive AddCall where
  | binary (key value : ByteString) (update : Bool)
  | binary64 (key : ByteString) (value : UInt64) (update : Bool)
  | string (key value : ByteString) (update : Bool)
  | integer (key : ByteString) (value : Int32) (update : Bool)

namespace AddCall

def exec (psf : PSF) : AddCall → Exec PSF
  | binary key value update => psf.addBinary key value update
  | binary64 key value update => psf.addBinary64 key value update
  | string key value update => psf.addString key value update
  | integer key value update => psf.addInteger key value update

def step (psf : PSF) (call : AddCall) : Option PSF :=
  match call.exec psf with
  | .ok psf' => some psf'
  | .error _ => none

/-- Keys and strings hold no zero byte. -/
def NulFree (_ : PSF) : AddCall → Prop
  | binary key _ _ => 0 ∉ key
  | binary64 key _ _ => 0 ∉ key
  | string key value _ => 0 ∉ key ∧ 0 ∉ value
  | integer key _ _ => 0 ∉ key

end AddCall

section Add

variable {psf psf' : PSF} (h : WellFormed psf) {key : ByteString} (hkey : 0 ∉ key)
include h hkey

theorem WellFormed.entries_append {fmt : PSFEntryFmt} {max_len : ℕ}
    (hlt : max_len < 4294967296) : ∀ entry ∈ psf.entry_list ++ [⟨key, fmt, max_len⟩],
    0 ∉ entry.key ∧ entry.max_len < 4294967296 := by
  intro entry hentry
  rw [List.mem_append, List.mem_singleton] at hentry
  obtain hentry | rfl := hentry
  · exact ⟨h.key_nul entry hentry, h.max_len_lt entry hentry⟩
  · exact ⟨hkey, hlt⟩

omit hkey in
theorem WellFormed.entries_set {index max_len : ℕ} {old : Entry}
    (hold : psf.entry_list[index]? = some old) (hlt : max_len < 4294967296) :
    ∀ entry ∈ psf.entry_list.set index { old with max_len := max_len },
      0 ∉ entry.key ∧ entry.max_len < 4294967296 := by
  intro entry hentry
  obtain hentry | rfl := List.mem_or_eq_of_mem_set hentry
  · exact ⟨h.key_nul entry hentry, h.max_len_lt entry hentry⟩
  · exact ⟨h.key_nul old (List.mem_of_getElem? hold), hlt⟩

theorem WellFormed.addBinary {value : ByteString} {update : Bool}
    (hadd : psf.addBinary key value update = .ok psf') : WellFormed psf' := by
  have hlt := getMaxSize_lt key value.length
  unfold PSF.addBinary at hadd
  obtain heq | ⟨e, heq⟩ | ⟨index, entry, hentry, hfmt, heq⟩ | heq :=
    addEntry_cases psf key .binary (PSF.getMaxSize key value.length) update
  · rw [heq] at hadd
    cases hadd
    exact h
  · rw [heq] at hadd
    cases hadd
  · obtain ⟨map', hmap, hkeyed, -⟩ := h.binaries.assign hentry hfmt value
    rw [heq] at hadd
    simp only [bind, Except.bind, hmap] at hadd
    cases hadd
    exact ⟨hkeyed.set hentry _, h.strings.set hentry _, h.integers.set hentry _,
      fun e he => (h.entries_set hentry hlt e he).1, h.string_nul,
      fun e he => (h.entries_set hentry hlt e he).2⟩
  · rw [heq] at hadd
    cases hadd
    exact ⟨(h.binaries.emplace rfl value).1, h.strings.append_other (by rintro ⟨⟩),
      h.integers.append_other (by rintro ⟨⟩), fun e he => (h.entries_append hkey hlt e he).1,
      h.string_nul, fun e he => (h.entries_append hkey hlt e he).2⟩

theorem WellFormed.addString {value : ByteString} {update : Bool} (hvalue : 0 ∉ value)
    (hadd : psf.addString key value update = .ok psf') : WellFormed psf' := by
  have hlt := getMaxSize_lt key (value.length + 1)
  unfold PSF.addString at hadd
  obtain heq | ⟨e, heq⟩ | ⟨index, entry, hentry, hfmt, heq⟩ | heq :=
    addEntry_cases psf key .text (PSF.getMaxSize key (value.length + 1)) update
  · rw [heq] at hadd
    cases hadd
    exact h
  · rw [heq] at hadd
    cases hadd
  · obtain ⟨map', hmap, hkeyed, hvalues⟩ := h.strings.assign hentry hfmt value
    rw [heq] at hadd
    simp only [bind, Except.bind, hmap] at hadd
    cases hadd
    refine ⟨h.binaries.set hentry _, hkeyed.set hentry _, h.integers.set hentry _,
      fun e he => (h.entries_set hentry hlt e he).1, fun i v hv => ?_,
      fun e he => (h.entries_set hentry hlt e he).2⟩
    obtain rfl | hv := hvalues i v hv
    · exact hvalue
    · exact h.string_nul i v hv
  · rw [heq] at hadd
    cases hadd
    refine ⟨h.binaries.append_other (by rintro ⟨⟩), (h.strings.emplace rfl value).1,
      h.integers.append_other (by rintro ⟨⟩), fun e he => (h.entries_append hkey hlt e he).1,
      fun i v hv => ?_, fun e he => (h.entries_append hkey hlt e he).2⟩
    have hfmt : (⟨key, .text, 0⟩ : Entry).param_fmt = .text := rfl
    obtain rfl | hv := (h.strings.emplace hfmt value).2 i v hv
    · exact hvalue
    · exact h.string_nul i v hv

theorem WellFormed.addInteger {value : Int32} {update : Bool}
    (hadd : psf.addInteger key value update = .ok psf') : WellFormed psf' := by
  have hlt : 4 < 4294967296 := by decide
  unfold PSF.addInteger at hadd
  obtain heq | ⟨e, heq⟩ | ⟨index, entry, hentry, hfmt, heq⟩ | heq :=
    addEntry_cases psf key .integer 4 update
  · rw [heq] at hadd
    cases hadd
    exact h
  · rw [heq] at hadd
    cases hadd
  · obtain ⟨map', hmap, hkeyed, -⟩ := h.integers.assign hentry hfmt value
    rw [heq] at hadd
    simp only [bind, Except.bind, hmap] at hadd
    cases hadd
    exact ⟨h.binaries.set hentry _, h.strings.set hentry _, hkeyed.set hentry _,
      fun e he => (h.entries_set hentry hlt e he).1, h.string_nul,
      fun e he => (h.entries_set hentry hlt e he).2⟩
  · rw [heq] at hadd
    cases hadd
    exact ⟨h.binaries.append_other (by rintro ⟨⟩), h.strings.append_other (by rintro ⟨⟩),
      (h.integers.emplace rfl value).1, fun e he => (h.entries_append hkey hlt e he).1,
      h.string_nul, fun e he => (h.entries_append hkey hlt e he).2⟩

end Add

/-- The maps and the list of entries grow together. -/
theorem wellFormed_step (psf psf' : PSF) (call : AddCall) (h : WellFormed psf)
    (hok : AddCall.NulFree psf call) (hstep : AddCall.step psf call = some psf') :
    WellFormed psf' := by
  have hexec : call.exec psf = .ok psf' := by
    unfold AddCall.step at hstep
    split at hstep
    · next heq =>
        cases hstep
        exact heq
    · cases hstep
  cases call with
  | binary key value update => exact h.addBinary hok hexec
  | binary64 key value update => exact h.addBinary hok hexec
  | string key value update => exact h.addString hok.1 hok.2 hexec
  | integer key value update => exact h.addInteger hok hexec

abbrev ReachablePsf : PSF → Prop :=
  Transition.Reachable AddCall.step AddCall.NulFree PSF.empty

theorem ReachablePsf.wellFormed {psf : PSF} (h : ReachablePsf psf) : WellFormed psf :=
  Transition.Reachable.invariant h wellFormed_empty wellFormed_step

end OrbitConsole.FileFormat
