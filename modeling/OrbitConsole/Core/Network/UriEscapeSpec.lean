import OrbitConsole.Core.Network.HttpSpec
import OrbitConsole.Core.Network.UriEscape

/-!
# Escaping round trips

What each conversion makes of a string, as a function of its characters. Both passes follow
that function, so that the size is what is written.
-/

namespace OrbitConsole.Network

section Cursor

variable {src : List ℕ} {pos : ℕ}

theorem byteAt_cons {c : ℕ} {rest : List ℕ} (h : src.drop pos = c :: rest) :
    byteAt src pos = .ok c ∧ src.drop (pos + 1) = rest ∧ pos < src.length := by
  have hlt : pos < src.length := by
    by_contra hge
    rw [List.drop_eq_nil_of_le (Nat.le_of_not_lt hge)] at h
    cases h
  have hdrop := List.drop_eq_getElem_cons hlt
  rw [h] at hdrop
  obtain ⟨hc, hrest⟩ := List.cons.inj hdrop
  refine ⟨?_, hrest.symm, hlt⟩
  rw [byteAt_ok (Nat.le_of_lt hlt), List.getD_eq_getElem _ _ hlt, hc]

theorem byteAt_nil (hpos : pos ≤ src.length) (h : src.drop pos = []) :
    byteAt src pos = .ok chNul := by
  have hend := List.drop_eq_nil_iff.1 h
  rw [byteAt_ok hpos, List.getD_eq_default _ _ hend]
  rfl

theorem writeAt_append {written rest data : List ℕ} (h : data.length ≤ rest.length) :
    writeAt (written ++ rest) written.length data =
      .ok (written ++ data ++ rest.drop data.length) := by
  unfold writeAt
  rw [if_pos (by rw [List.length_append]; omega), List.take_left, ← List.drop_drop,
    List.drop_left]

end Cursor

section Escape

def escapedChar (c : ℕ) : List ℕ :=
  if isUnreserved c = true then [c]
  else [chPercent, hexChars.getD (c >>> 4 &&& 0xf) 0, hexChars.getD (c &&& 0xf) 0]

def escaped (s : List ℕ) : List ℕ := s.flatMap escapedChar

/-- Unreserved characters, and percent signs with two digits. -/
inductive IsEscaped : List ℕ → Prop
  | nil : IsEscaped []
  | char {c : ℕ} {rest : List ℕ} (h : isUnreserved c = true) (tail : IsEscaped rest) :
      IsEscaped (c :: rest)
  | triple {hi lo : ℕ} {rest : List ℕ} (hhi : hi ∈ hexChars) (hlo : lo ∈ hexChars)
      (tail : IsEscaped rest) : IsEscaped (chPercent :: hi :: lo :: rest)

theorem hexChars_mem {i : ℕ} : hexChars.getD (i &&& 0xf) 0 ∈ hexChars := by
  have hlt : i &&& 0xf < 16 := Nat.lt_succ_of_le Nat.and_le_right
  rw [List.getD_eq_getElem _ _ (by simpa [hexChars] using hlt)]
  exact List.getElem_mem _

theorem escaped_isEscaped (s : List ℕ) : IsEscaped (escaped s) := by
  induction s with
  | nil => exact .nil
  | cons c s ih =>
      unfold escaped at ih ⊢
      rw [List.flatMap_cons, escapedChar]
      split
      case isTrue hc => exact .char hc ih
      case isFalse => exact .triple hexChars_mem hexChars_mem ih

theorem IsEscaped.isChar {s : List ℕ} (h : IsEscaped s) : ∀ c ∈ s, 0 < c ∧ c < 256 := by
  have hhex : ∀ c ∈ hexChars, 0 < c ∧ c < 256 := by decide
  induction h with
  | nil => simp
  | char hc _ ih =>
      refine List.forall_mem_cons.2 ⟨?_, ih⟩
      simp only [isUnreserved, chDot, Bool.or_eq_true, Bool.and_eq_true, decide_eq_true_eq,
        beq_iff_eq] at hc
      omega
  | triple hhi hlo _ ih =>
      refine List.forall_mem_cons.2 ⟨by decide, List.forall_mem_cons.2 ⟨hhex _ hhi, ?_⟩⟩
      exact List.forall_mem_cons.2 ⟨hhex _ hlo, ih⟩

variable {src : List ℕ}

theorem escapeCount_eq (hsrc : ∀ c ∈ src, c ≠ chNul) {fuel pos needed : ℕ} (hpos : pos ≤ src.length)
    (hfuel : src.length < pos + fuel) :
    escapeCount src fuel pos needed = .ok (needed + (escaped (src.drop pos)).length + 1) := by
  induction fuel generalizing pos needed with
  | zero => omega
  | succ fuel ih =>
      unfold escapeCount
      cases hrest : src.drop pos with
      | nil =>
          rw [byteAt_nil hpos hrest]
          rfl
      | cons c rest =>
          obtain ⟨hc, hnext, hlt⟩ := byteAt_cons hrest
          have hmem : c ∈ src := List.mem_of_mem_drop (hrest ▸ List.mem_cons_self)
          rw [hc]
          dsimp only [bind, Except.bind]
          rw [if_neg (hsrc c hmem), ih hlt (by omega), ih hlt (by omega), hnext]
          simp only [escaped, List.flatMap_cons, escapedChar]
          split <;> simp only [List.length_append, List.length_cons, List.length_nil] <;>
            congr 1 <;> omega

theorem escapeWrite_eq (hsrc : ∀ c ∈ src, c ≠ chNul) {fuel pos : ℕ} {written rest : List ℕ}
    (hpos : pos ≤ src.length) (hfuel : src.length < pos + fuel)
    (hfit : (escaped (src.drop pos)).length + 1 ≤ rest.length) :
    escapeWrite src fuel pos written.length (written ++ rest) =
      .ok (written ++ escaped (src.drop pos) ++ [0] ++
        rest.drop ((escaped (src.drop pos)).length + 1)) := by
  induction fuel generalizing pos written rest with
  | zero => omega
  | succ fuel ih =>
      unfold escapeWrite
      cases hsuffix : src.drop pos with
      | nil =>
          rw [byteAt_nil hpos hsuffix]
          dsimp only [bind, Except.bind]
          rw [if_pos rfl, writeAt_append (by rw [hsuffix] at hfit; exact hfit)]
          simp [escaped]
      | cons c suffix =>
          obtain ⟨hc, hnext, hlt⟩ := byteAt_cons hsuffix
          have hmem : c ∈ src := List.mem_of_mem_drop (hsuffix ▸ List.mem_cons_self)
          have hcons : escaped (c :: suffix) = escapedChar c ++ escaped suffix :=
            List.flatMap_cons
          rw [hsuffix, hcons, List.length_append] at hfit
          rw [hc, hcons]
          dsimp only [bind, Except.bind]
          rw [if_neg (hsrc c hmem)]
          -- one character more is written, and the rest follows by the induction
          have hstep : ∀ {data : List ℕ}, escapedChar c = data →
              (writeAt (written ++ rest) written.length data).bind
                (escapeWrite src fuel (pos + 1) (written.length + data.length)) =
              .ok (written ++ (data ++ escaped suffix) ++ [0] ++
                rest.drop ((data ++ escaped suffix).length + 1)) := by
            rintro data rfl
            rw [writeAt_append (by omega)]
            dsimp only [Except.bind]
            rw [← List.length_append, ih hlt (by omega) (by rw [hnext, List.length_drop]; omega),
              hnext, List.drop_drop, List.length_append, Nat.add_assoc]
            simp only [List.append_assoc]
          by_cases hres : isUnreserved c = true
          · have hchar : escapedChar c = [c] := if_pos hres
            rw [if_pos hres, hchar]
            exact hstep hchar
          · have hchar : escapedChar c = [chPercent, hexChars.getD (c >>> 4 &&& 0xf) 0,
                hexChars.getD (c &&& 0xf) 0] := if_neg hres
            rw [if_neg hres, hchar]
            exact hstep hchar

end Escape

section Unescape

/-- What a percent sequence at the beginning of a string stands for. -/
def percentValue : List ℕ → Option ℕ
  | c :: c₁ :: c₂ :: _ =>
      if c = chPercent ∧ (isHex c₁ && isHex c₂) = true then
        some ((hexToInt c₁ <<< 4) ||| hexToInt c₂)
      else none
  | _ => none

def unescaped : List ℕ → List ℕ
  | [] => []
  | c :: rest =>
      match percentValue (c :: rest) with
      | some value => value :: unescaped (rest.drop 2)
      | none => c :: unescaped rest
termination_by s => s.length
decreasing_by all_goals simp only [List.length_cons, List.length_drop]; omega

theorem unescaped_nil : unescaped [] = [] := by rw [unescaped]

theorem unescaped_some {c value : ℕ} {rest : List ℕ} (h : percentValue (c :: rest) = some value) :
    unescaped (c :: rest) = value :: unescaped (rest.drop 2) := by
  rw [unescaped, h]

theorem unescaped_none {c : ℕ} {rest : List ℕ} (h : percentValue (c :: rest) = none) :
    unescaped (c :: rest) = c :: unescaped rest := by
  rw [unescaped, h]

variable {src : List ℕ} {pos : ℕ}

theorem percentSequence_cases (hsrc : ∀ c ∈ src, c ≠ chNul) {c : ℕ} {rest : List ℕ}
    (h : src.drop pos = c :: rest) :
    (isValidPercentSequence src pos = .ok true ∧ ∃ c₁ c₂,
      byteAt src (pos + 1) = .ok c₁ ∧ byteAt src (pos + 2) = .ok c₂ ∧ pos + 3 ≤ src.length ∧
      src.drop (pos + 3) = rest.drop 2 ∧
      percentValue (c :: rest) = some ((hexToInt c₁ <<< 4) ||| hexToInt c₂)) ∨
    (isValidPercentSequence src pos = .ok false ∧ percentValue (c :: rest) = none) := by
  obtain ⟨hc, hrest, hlt⟩ := byteAt_cons h
  unfold isValidPercentSequence
  rw [hc]
  dsimp only [bind, Except.bind]
  by_cases hpercent : c = chPercent
  swap
  · refine .inr ⟨if_pos hpercent, ?_⟩
    obtain _ | ⟨c₁, _ | ⟨c₂, tail⟩⟩ := rest
    · rfl
    · rfl
    · exact if_neg fun hsome => hpercent hsome.1
  rw [if_neg (not_not.2 hpercent)]
  cases rest with
  | nil =>
      rw [byteAt_nil hlt hrest]
      exact .inr ⟨if_pos rfl, rfl⟩
  | cons c₁ tail =>
      obtain ⟨hc₁, htail, hlt₁⟩ := byteAt_cons hrest
      have hne₁ := hsrc c₁ (List.mem_of_mem_drop (hrest ▸ List.mem_cons_self))
      rw [hc₁]
      dsimp only
      rw [if_neg hne₁]
      cases tail with
      | nil =>
          rw [byteAt_nil hlt₁ htail]
          exact .inr ⟨if_pos rfl, rfl⟩
      | cons c₂ tail =>
          obtain ⟨hc₂, htail₂, hlt₂⟩ := byteAt_cons htail
          have hne₂ := hsrc c₂ (List.mem_of_mem_drop (htail ▸ List.mem_cons_self))
          rw [hc₂]
          dsimp only
          rw [if_neg hne₂]
          by_cases hhex : (isHex c₁ && isHex c₂) = true
          · exact .inl ⟨congrArg _ hhex, c₁, c₂, rfl, rfl, hlt₂, htail₂, if_pos ⟨hpercent, hhex⟩⟩
          · exact .inr ⟨congrArg _ (Bool.not_eq_true _ ▸ hhex), if_neg fun hsome => hhex hsome.2⟩

theorem unescapeCount_eq (hsrc : ∀ c ∈ src, c ≠ chNul) {fuel needed : ℕ}
    (hpos : pos ≤ src.length) (hfuel : src.length < pos + fuel) :
    unescapeCount src fuel pos needed =
      .ok (needed + (unescaped (src.drop pos)).length + 1) := by
  induction fuel generalizing pos needed with
  | zero => omega
  | succ fuel ih =>
      unfold unescapeCount
      cases hrest : src.drop pos with
      | nil =>
          rw [byteAt_nil hpos hrest, unescaped_nil]
          rfl
      | cons c rest =>
          obtain ⟨hc, hnext, hlt⟩ := byteAt_cons hrest
          have hmem : c ∈ src := List.mem_of_mem_drop (hrest ▸ List.mem_cons_self)
          rw [hc]
          dsimp only [bind, Except.bind]
          rw [if_neg (hsrc c hmem)]
          obtain ⟨hvalid, c₁, c₂, -, -, hle, hdrop, hvalue⟩ | ⟨hvalid, hvalue⟩ :=
            percentSequence_cases hsrc hrest
          · rw [hvalid, unescaped_some hvalue, List.length_cons]
            dsimp only
            rw [if_pos rfl, ih hle (by omega), hdrop]
            congr 1
            omega
          · rw [hvalid, unescaped_none hvalue, List.length_cons]
            dsimp only
            rw [if_neg Bool.false_ne_true, ih hlt (by omega), hnext]
            congr 1
            omega

theorem unescapeWrite_eq (hsrc : ∀ c ∈ src, c ≠ chNul) {fuel : ℕ} {written rest : List ℕ}
    (hpos : pos ≤ src.length) (hfuel : src.length < pos + fuel)
    (hfit : (unescaped (src.drop pos)).length + 1 ≤ rest.length) :
    unescapeWrite src fuel pos written.length (written ++ rest) =
      .ok (written ++ unescaped (src.drop pos) ++ [0] ++
        rest.drop ((unescaped (src.drop pos)).length + 1)) := by
  induction fuel generalizing pos written rest with
  | zero => omega
  | succ fuel ih =>
      unfold unescapeWrite
      cases hsuffix : src.drop pos with
      | nil =>
          rw [byteAt_nil hpos hsuffix]
          dsimp only [bind, Except.bind]
          rw [if_pos rfl, writeAt_append (by rw [List.length_singleton]; omega), unescaped_nil]
          simp
      | cons c suffix =>
          obtain ⟨hc, hnext, hlt⟩ := byteAt_cons hsuffix
          have hmem : c ∈ src := List.mem_of_mem_drop (hsuffix ▸ List.mem_cons_self)
          rw [hc]
          dsimp only [bind, Except.bind]
          rw [if_neg (hsrc c hmem)]
          -- one character more is written, and the rest follows by the induction
          have hstep : ∀ {value next : ℕ}, next ≤ src.length → pos < next →
              unescaped (c :: suffix) = value :: unescaped (src.drop next) →
              (writeAt (written ++ rest) written.length [value]).bind
                (unescapeWrite src fuel next (written.length + 1)) =
              .ok (written ++ unescaped (c :: suffix) ++ [0] ++
                rest.drop ((unescaped (c :: suffix)).length + 1)) := by
            intro value next hle hafter hvalue
            rw [hsuffix, hvalue, List.length_cons] at hfit
            have hone : written.length + 1 = (written ++ [value]).length := by simp
            rw [writeAt_append (by rw [List.length_singleton]; omega), hvalue, hone]
            dsimp only [Except.bind]
            rw [ih hle (by omega) (by rw [List.length_drop, List.length_singleton]; omega),
              List.drop_drop, List.length_singleton, List.length_cons,
              Nat.add_comm 1 ((unescaped (src.drop next)).length + 1)]
            simp only [List.append_assoc, List.cons_append, List.nil_append]
          obtain ⟨hvalid, c₁, c₂, hc₁, hc₂, hle, hdrop, hvalue⟩ | ⟨hvalid, hvalue⟩ :=
            percentSequence_cases hsrc hsuffix
          · rw [hvalid]
            dsimp only
            rw [if_pos rfl, hc₁]
            dsimp only
            rw [hc₂]
            exact hstep hle (by omega) (by rw [unescaped_some hvalue, hdrop])
          · rw [hvalid]
            dsimp only
            rw [if_neg Bool.false_ne_true]
            exact hstep hlt (Nat.lt_succ_self pos) (by rw [unescaped_none hvalue, hnext])

theorem percentValue_triple {c : ℕ} (h : c < 256) (rest : List ℕ) :
    percentValue (chPercent :: hexChars.getD (c >>> 4 &&& 0xf) 0 ::
      hexChars.getD (c &&& 0xf) 0 :: rest) = some c := by
  have hdigits : ∀ c < 256,
      (isHex (hexChars.getD (c >>> 4 &&& 0xf) 0) && isHex (hexChars.getD (c &&& 0xf) 0)) = true ∧
      (hexToInt (hexChars.getD (c >>> 4 &&& 0xf) 0) <<< 4) |||
        hexToInt (hexChars.getD (c &&& 0xf) 0) = c := by
    decide +kernel
  obtain ⟨hhex, hvalue⟩ := hdigits c h
  unfold percentValue
  dsimp only
  rw [if_pos ⟨rfl, hhex⟩, hvalue]

theorem percentValue_none {c : ℕ} (h : c ≠ chPercent) (rest : List ℕ) :
    percentValue (c :: rest) = none := by
  obtain _ | ⟨c₁, _ | ⟨c₂, tail⟩⟩ := rest
  · rfl
  · rfl
  · exact if_neg fun hsome => h hsome.1

theorem unescaped_escaped {s : List ℕ} (h : ∀ c ∈ s, c < 256) : unescaped (escaped s) = s := by
  induction s with
  | nil => exact unescaped_nil
  | cons c s ih =>
      obtain ⟨hc, hs⟩ := List.forall_mem_cons.1 h
      have hcons : escaped (c :: s) = escapedChar c ++ escaped s := List.flatMap_cons
      rw [hcons, escapedChar]
      by_cases hres : isUnreserved c = true
      · have hne : c ≠ chPercent := by
          rintro rfl
          cases hres
        rw [if_pos hres, List.singleton_append, unescaped_none (percentValue_none hne _), ih hs]
      · rw [if_neg hres]
        simp only [List.cons_append, List.nil_append]
        rw [unescaped_some (percentValue_triple hc _)]
        exact congrArg (c :: ·) (ih hs)

end Unescape

section Conversion

/-- What a conversion to `data` returns and leaves: the size is what is written, and the block
is changed only if it is large enough, and not behind the terminator. -/
def converted (data : List ℕ) (out : Option (List ℕ)) (prepare : ℕ) : Converted where
  result := if out.isSome = true ∧ prepare < data.length + 1 then some .outOfMemory else none
  require := data.length + 1
  out := out.map fun block =>
    if prepare < data.length + 1 then block else data ++ [0] ++ block.drop (data.length + 1)

variable {data : List ℕ} {out : Option (List ℕ)} {prepare : ℕ}
  {write : List ℕ → Http (List ℕ)}

theorem convert_eq (hout : ∀ block ∈ out, prepare ≤ block.length)
    (hwrite : ∀ block : List ℕ, data.length + 1 ≤ block.length →
      write block = .ok (data ++ [0] ++ block.drop (data.length + 1))) :
    convert (data.length + 1) out prepare write = .ok (converted data out prepare) := by
  cases out with
  | none => rfl
  | some block =>
      unfold convert converted
      by_cases hshort : prepare < data.length + 1
      · simp [hshort]
      · have hfit := hout block rfl
        dsimp only
        rw [if_neg hshort, hwrite block (by omega)]
        simp [hshort, bind, Except.bind]

theorem CString.ne_nul (s : CString) : ∀ c ∈ s.bytes, c ≠ chNul :=
  fun c hc => Nat.ne_of_gt (s.isChar c hc).1

theorem uriEscape_eq (s : CString) (hout : ∀ block ∈ out, prepare ≤ block.length) :
    uriEscape out prepare s.bytes = .ok (converted (escaped s.bytes) out prepare) := by
  unfold uriEscape
  rw [escapeCount_eq s.ne_nul (Nat.zero_le _) (by unfold scanFuel; omega), List.drop_zero,
    Nat.zero_add]
  refine convert_eq hout fun block hfit => ?_
  have hpass := @escapeWrite_eq s.bytes s.ne_nul (scanFuel s.bytes) 0 [] block (Nat.zero_le _)
    (by unfold scanFuel; omega) hfit
  simpa only [List.length_nil, List.nil_append, List.drop_zero] using hpass

theorem uriUnescape_eq (s : CString) (hout : ∀ block ∈ out, prepare ≤ block.length) :
    uriUnescape out prepare s.bytes = .ok (converted (unescaped s.bytes) out prepare) := by
  unfold uriUnescape
  rw [unescapeCount_eq s.ne_nul (Nat.zero_le _) (by unfold scanFuel; omega), List.drop_zero,
    Nat.zero_add]
  refine convert_eq hout fun block hfit => ?_
  have hpass := @unescapeWrite_eq s.bytes 0 s.ne_nul (scanFuel s.bytes) [] block (Nat.zero_le _)
    (by unfold scanFuel; omega) hfit
  simpa only [List.length_nil, List.nil_append, List.drop_zero] using hpass

def CString.escaped (s : CString) : CString :=
  ⟨Network.escaped s.bytes, (escaped_isEscaped s.bytes).isChar⟩

/-- Both conversions report what they write, keep to the block and read no further than the
terminator; what is escaped is unescaped to the same string. -/
theorem uri_escape_round_trip (s : CString) (hout : ∀ block ∈ out, prepare ≤ block.length) :
    uriEscape out prepare s.bytes = .ok (converted s.escaped.bytes out prepare) ∧
      IsEscaped s.escaped.bytes ∧
      uriUnescape out prepare s.escaped.bytes = .ok (converted s.bytes out prepare) ∧
      uriUnescape out prepare s.bytes = .ok (converted (unescaped s.bytes) out prepare) := by
  refine ⟨uriEscape_eq s hout, escaped_isEscaped s.bytes, ?_, uriUnescape_eq s hout⟩
  rw [uriUnescape_eq s.escaped hout]
  exact congrArg (fun data => Except.ok (converted data out prepare))
    (unescaped_escaped fun c hc => (s.isChar c hc).2)

/-- `a %` in a block of ten bytes, of which eight are offered. -/
def spaced : CString := ⟨[0x61, 0x20, 0x25], by decide⟩

theorem uri_escape_round_trip_spaced :
    (∀ block ∈ some (List.replicate 10 7), 8 ≤ block.length) ∧
      uriEscape (some (List.replicate 10 7)) 8 spaced.bytes =
        .ok (converted spaced.escaped.bytes (some (List.replicate 10 7)) 8) := by
  have hout : ∀ block ∈ some (List.replicate 10 7), 8 ≤ block.length := by
    intro block hblock
    obtain rfl := Option.some.inj hblock
    decide
  exact ⟨hout, (uri_escape_round_trip spaced hout).1⟩

end Conversion

end OrbitConsole.Network
