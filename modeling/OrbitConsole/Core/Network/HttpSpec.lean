import Mathlib.Data.List.GetD
import OrbitConsole.Core.Network.Http

/-!
# The parser keeps to the URI and to the pool

Every component scans at most to the terminator and uses what it asks for. A parse with a
pool therefore does what the parse without one does, or runs out of the pool exactly when
what it would use does not fit.
-/

namespace OrbitConsole.Network

variable {α β : Type} {x : Http α} {Q : α → Prop} {R : β → Prop}

def Sound (x : Http α) (Q : α → Prop) : Prop :=
  (∃ a, x = .ok a ∧ Q a) ∨ ∃ e, x = .error (.code e)

theorem Sound.ok {a : α} (h : Q a) : Sound (.ok a : Http α) Q := .inl ⟨a, rfl, h⟩

theorem Sound.code (e : HttpError) : Sound (.error (.code e) : Http α) Q := .inr ⟨e, rfl⟩

theorem Sound.bind {f : α → Http β} (h : Sound x Q) (hf : ∀ a, Q a → Sound (f a) R) :
    Sound (x >>= f) R := by
  obtain ⟨a, rfl, ha⟩ | ⟨e, rfl⟩ := h
  · exact hf a ha
  · exact .code e

theorem Sound.of_ok {a : α} (h : Sound x Q) (hx : x = .ok a) : Q a := by
  obtain ⟨b, hb, hQ⟩ | ⟨e, he⟩ := h
  · rw [hx] at hb
    cases hb
    exact hQ
  · rw [hx] at he
    cases he

theorem bind_ok {f : α → Http β} {b : β} (h : x >>= f = .ok b) :
    ∃ a, x = .ok a ∧ f a = .ok b := by
  cases x with
  | error e => cases h
  | ok a => exact ⟨a, rfl, h⟩

section Memory

variable {src block data : List ℕ} {i n : ℕ}

theorem byteAt_ok (h : i ≤ src.length) : byteAt src i = .ok (src.getD i 0) := if_pos h

theorem lt_of_byte_ne (h : i ≤ src.length) (hne : src.getD i 0 ≠ 0) : i < src.length := by
  refine Nat.lt_of_le_of_ne h ?_
  rintro rfl
  exact hne (by simp)

theorem bytesAt_ok (h : i + n ≤ src.length) :
    ∃ data, bytesAt src i n = .ok data ∧ data.length = n := by
  refine ⟨((src ++ [0]).drop i).take n, by unfold bytesAt; exact if_pos (by omega), ?_⟩
  simp only [List.length_take, List.length_drop, List.length_append, List.length_singleton]
  omega

theorem writeAt_ok (h : i + data.length ≤ block.length) :
    ∃ r, writeAt block i data = .ok r ∧ r.length = block.length ∧
      (∀ j, j < i ∨ i + data.length ≤ j → r.getD j 0 = block.getD j 0) ∧
      ∀ j, j < data.length → r.getD (i + j) 0 = data.getD j 0 := by
  refine ⟨block.take i ++ data ++ block.drop (i + data.length), if_pos h, ?_, ?_, ?_⟩
  · simp only [List.length_append, List.length_take, List.length_drop]
    omega
  · intro j hj
    simp only [List.getD_eq_getElem?_getD, List.getElem?_append, List.getElem?_take,
      List.getElem?_drop, List.length_append, List.length_take]
    obtain hj | hj := hj
    · rw [if_pos (by omega), if_pos (by omega), if_pos hj]
    · rw [if_neg (by omega)]
      congr 2
      omega
  · intro j hj
    simp only [List.getD_eq_getElem?_getD, List.getElem?_append, List.getElem?_take,
      List.length_append, List.length_take]
    rw [if_pos (by omega), if_neg (by omega)]
    congr 2
    omega

end Memory

section Scans

variable {src : List ℕ} {classify : ℕ → ℕ → Verdict} {base offset : ℕ}

theorem scan_sound (hnul : ∀ pos, classify pos 0 ≠ .more) {fuel pos : ℕ}
    (hpos : base + pos ≤ src.length) (hfuel : src.length + 1 ≤ base + pos + fuel) :
    Sound (scan src classify base fuel pos) fun r => pos ≤ r ∧ base + r ≤ src.length := by
  induction fuel generalizing pos with
  | zero => omega
  | succ fuel ih =>
      unfold scan
      rw [byteAt_ok hpos]
      dsimp only [bind, Except.bind]
      cases hc : classify pos (src.getD (base + pos) 0) with
      | more =>
          have hlt : base + pos < src.length :=
            lt_of_byte_ne hpos fun hzero => hnul pos (hzero ▸ hc)
          obtain ⟨r, hr, hle, hin⟩ | herr := @ih (pos + 1) (by omega) (by omega)
          · exact .inl ⟨r, hr, by omega, hin⟩
          · exact .inr herr
      | stop => exact .ok ⟨Nat.le_refl _, hpos⟩
      | invalid => exact .code _

theorem scan_from (hnul : ∀ pos, classify pos 0 ≠ .more) {pos : ℕ}
    (hpos : base + pos ≤ src.length) :
    Sound (scan src classify base (scanFuel src) pos) fun r =>
      pos ≤ r ∧ base + r ≤ src.length :=
  scan_sound hnul hpos (by unfold scanFuel; omega)

/-- A component whose bytes are known ends with a terminator and uses what it asks for. -/
structure Piece.Holds (piece : Piece) (data : List ℕ) : Prop where
  image_eq : piece.image = .ok data
  length_eq : data.length = piece.size
  size_le : piece.size ≤ piece.needed
  size_pos : 0 < piece.size
  terminated : data.getD (piece.size - 1) 0 = 0
  needed_le : piece.needed ≤ piece.size + 1

theorem stringPiece_holds {len : ℕ} (h : offset + len ≤ src.length) :
    ∃ data, (stringPiece src offset len).Holds data := by
  obtain ⟨data, hdata, hlen⟩ := bytesAt_ok h
  refine ⟨data ++ [0], ⟨?_, by simp [stringPiece, hlen], Nat.le_refl _, Nat.succ_pos _, ?_,
    Nat.le_succ _⟩⟩
  · simp only [stringPiece, hdata]
    rfl
  · simp [stringPiece, ← hlen]

end Scans

section Sweep

variable {src dst : List ℕ}

/-- What the loop of the sweep keeps of its destination. -/
structure Swept (src dst : List ℕ) : Prop where
  length_eq : dst.length = src.length
  first : dst.getD 0 0 = chSlash
  last : dst.getD (src.length - 1) 0 = 0

theorem Swept.write (h : Swept src dst) {i : ℕ} {data : List ℕ} (hi : 0 < i)
    (hfit : i + data.length ≤ src.length - 1) :
    ∃ r, writeAt dst i data = .ok r ∧ Swept src r := by
  have hlen := h.length_eq
  obtain ⟨r, hr, hrlen, hkeep, -⟩ := @writeAt_ok dst data i (by omega)
  exact ⟨r, hr, hrlen.trans hlen, (hkeep 0 (.inl hi)).trans h.first,
    (hkeep _ (.inr hfit)).trans h.last⟩

theorem Swept.terminate (h : Swept src dst) {i : ℕ} (hi : 0 < i) (hlt : i < src.length) :
    ∃ r, writeAt dst i [0] = .ok r ∧ Swept src r ∧ r.getD i 0 = 0 := by
  have hlen := h.length_eq
  obtain ⟨r, hr, hrlen, hkeep, hwrite⟩ := @writeAt_ok dst [0] i (by simp; omega)
  have hzero : r.getD i 0 = 0 := hwrite 0 (by simp)
  refine ⟨r, hr, ⟨hrlen.trans hlen, (hkeep 0 (.inl hi)).trans h.first, ?_⟩, hzero⟩
  obtain heq | hne := eq_or_ne i (src.length - 1)
  · rw [← heq]
    exact hzero
  · exact (hkeep _ (.inr (by simp; omega))).trans h.last

theorem lastSlash_ok (h : Swept src dst) {i : ℕ} (hlt : i < src.length)
    (hzero : dst.getD i 0 = 0) : ∃ p, lastSlash dst = .ok (some p) ∧ p < i := by
  have hlen := h.length_eq
  have hin : i < dst.length := by omega
  have hget : dst[i] = 0 := by
    rwa [List.getD_eq_getElem _ _ hin] at hzero
  have hmem : 0 ∈ dst := hget ▸ List.getElem_mem _
  have hend : dst.findIdx (· == 0) ≤ i := by
    by_contra hlt'
    have := List.not_of_lt_findIdx (Nat.lt_of_not_le hlt')
    simp [hget] at this
  have hpos : 0 < dst.findIdx (· == 0) := by
    refine Nat.pos_of_ne_zero fun hnone => ?_
    have hfind := @List.findIdx_getElem _ (· == 0) dst
      (List.findIdx_lt_length_of_exists ⟨0, hmem, rfl⟩)
    have hfirst := h.first
    simp only [hnone, beq_iff_eq] at hfind
    rw [List.getD_eq_getElem _ _ (by omega), hfind] at hfirst
    cases hfirst
  unfold lastSlash
  rw [if_pos hmem]
  cases hf : ((List.range (dst.findIdx (· == 0))).reverse.find? fun i =>
      dst.getD i 0 == chSlash) with
  | none =>
      have := List.find?_eq_none.1 hf 0 (by simpa using hpos)
      rw [h.first] at this
      simp at this
  | some p =>
      have hp := List.mem_of_find?_eq_some hf
      rw [List.mem_reverse, List.mem_range] at hp
      exact ⟨p, rfl, by omega⟩

theorem segmentLength_bounds {srcPos : ℕ} (h : srcPos < src.length - 1) :
    0 < segmentLength src srcPos ∧ srcPos + segmentLength src srcPos ≤ src.length - 1 := by
  unfold segmentLength
  dsimp only
  split <;> omega

theorem charAt_ok {i : ℕ} (h : i < src.length) : charAt src i = .ok (src.getD i 0) := if_pos h

theorem sweepLoop_ok (hend : src.getD (src.length - 1) 0 = 0) {fuel srcPos segmentEnd : ℕ}
    (h : Swept src dst) (hseg : segmentEnd + 1 ≤ srcPos) (hpos : srcPos ≤ src.length - 1)
    (hfuel : src.length ≤ srcPos + fuel) (hsrc : 0 < src.length) :
    ∃ r, sweepLoop src fuel srcPos segmentEnd dst = .ok r ∧ Swept src r := by
  induction fuel generalizing srcPos segmentEnd dst with
  | zero => omega
  | succ fuel ih =>
      unfold sweepLoop
      by_cases hmore : srcPos < src.length - 1
      swap
      · exact ⟨dst, if_neg hmore, h⟩
      rw [if_pos hmore, charAt_ok (by omega)]
      dsimp only [bind, Except.bind]
      -- a character that is not the terminator is not the last one
      have hnext : ∀ i, i ≤ src.length - 1 → src.getD i 0 ≠ 0 → i + 1 ≤ src.length - 1 := by
        intro i hi hne
        have : i ≠ src.length - 1 := fun heq => hne (heq ▸ hend)
        omega
      have hone : ∃ c₁, charIf (src.getD srcPos 0 = chDot) src (srcPos + 1) = .ok c₁ ∧
          (c₁ ≠ 1 → c₁ = src.getD (srcPos + 1) 0) := by
        unfold charIf
        split
        · exact ⟨_, charAt_ok (by omega), fun _ => rfl⟩
        · exact ⟨1, rfl, fun hne => absurd rfl hne⟩
      obtain ⟨c₁, hc₁, hval₁⟩ := hone
      have htwo : ∃ c₂, charIf (c₁ = chDot) src (srcPos + 2) = .ok c₂ ∧
          (c₂ ≠ 1 → srcPos + 2 ≤ src.length - 1 ∧ c₂ = src.getD (srcPos + 2) 0) := by
        unfold charIf
        split
        case isTrue hdot =>
            have hval := hval₁ (by rw [hdot]; decide)
            have hle := hnext (srcPos + 1) (by omega) (by rw [← hval, hdot]; decide)
            exact ⟨_, charAt_ok (by omega), fun _ => ⟨hle, rfl⟩⟩
        case isFalse => exact ⟨1, rfl, fun hne => absurd rfl hne⟩
      obtain ⟨c₂, hc₂, hval₂⟩ := htwo
      rw [hc₁]
      dsimp only
      rw [hc₂]
      dsimp only
      by_cases hskip : c₁ = chSlash
      · rw [if_pos hskip]
        have hval := hval₁ (by rw [hskip]; decide)
        have hle := hnext (srcPos + 1) (by omega) (by rw [← hval, hskip]; decide)
        exact ih h (by omega) hle (by omega)
      · rw [if_neg hskip]
        by_cases hup : c₂ = chSlash
        · rw [if_pos hup]
          obtain ⟨hin, hval⟩ := hval₂ (by rw [hup]; decide)
          have hle := hnext (srcPos + 2) hin (by rw [← hval, hup]; decide)
          by_cases hzero : segmentEnd = 0
          · rw [if_pos hzero]
            exact ih h (by omega) hle (by omega)
          · rw [if_neg hzero]
            obtain ⟨dst₁, hdst₁, hswept₁, hend₁⟩ :=
              h.terminate (Nat.pos_of_ne_zero hzero) (by omega : segmentEnd < src.length)
            obtain ⟨p, hp, hlt⟩ := lastSlash_ok hswept₁ (by omega) hend₁
            obtain ⟨dst₂, hdst₂, hswept₂, -⟩ :=
              hswept₁.terminate (Nat.succ_pos p) (by omega : p + 1 < src.length)
            rw [hdst₁]
            dsimp only
            rw [hp]
            dsimp only
            rw [hdst₂]
            exact ih hswept₂ (by omega) hle (by omega)
        · rw [if_neg hup]
          obtain ⟨hlen, hfit⟩ := segmentLength_bounds hmore
          have hcopy : ((src.drop srcPos).take (segmentLength src srcPos)).length =
              segmentLength src srcPos := by
            rw [List.length_take, List.length_drop]
            omega
          obtain ⟨dst₁, hdst₁, hswept₁⟩ := h.write (Nat.succ_pos segmentEnd)
            (by rw [hcopy]; omega : segmentEnd + 1 +
              ((src.drop srcPos).take (segmentLength src srcPos)).length ≤ src.length - 1)
          obtain ⟨dst₂, hdst₂, hswept₂, -⟩ := hswept₁.terminate
            (Nat.succ_pos (segmentEnd + segmentLength src srcPos)) (by omega)
          rw [hdst₁]
          dsimp only
          rw [hdst₂]
          exact ih hswept₂ (by omega) hfit (by omega)

theorem sweepPath_ok (hpos : 0 < src.length) (hend : src.getD (src.length - 1) 0 = 0) :
    ∃ r, sweepPath src src = .ok r ∧ r.length = src.length ∧
      r.getD (src.length - 1) 0 = 0 := by
  unfold sweepPath
  rw [if_neg (by omega)]
  by_cases hslash : src.getD 0 0 = chSlash
  swap
  · rw [if_pos hslash]
    obtain ⟨r, hr, hrlen, -, -⟩ :=
      @writeAt_ok src (src.take (src.length - 1)) 0 (by rw [List.length_take]; omega)
    obtain ⟨r', hr', hrlen', -, hzero⟩ := @writeAt_ok r [0] (src.length - 1) (by simp; omega)
    refine ⟨r', ?_, by omega, hzero 0 (by simp)⟩
    rw [hr]
    exact hr'
  · rw [if_neg (not_not.2 hslash)]
    have htwo : 1 ≤ src.length - 1 := by
      by_contra hshort
      have hone : src.length - 1 = 0 := by omega
      rw [hone, hslash] at hend
      cases hend
    obtain ⟨r, hr, hrlen, hkeep, hwrite⟩ := @writeAt_ok src [chSlash, 0] 0 (by simp; omega)
    have hswept : Swept src r := by
      refine ⟨hrlen, hwrite 0 (by simp), ?_⟩
      obtain heq | hne := eq_or_ne (src.length - 1) 1
      · rw [heq]
        exact hwrite 1 (by simp)
      · exact (hkeep _ (.inr (by simp; omega))).trans hend
    rw [hr]
    dsimp only [bind, Except.bind]
    split
    · exact ⟨r, rfl, hswept.length_eq, hswept.last⟩
    · obtain ⟨r', hr', hswept'⟩ :=
        @sweepLoop_ok src r hend (src.length + 1) 1 0 hswept (Nat.le_refl 1) htwo (by omega) hpos
      exact ⟨r', hr', hswept'.length_eq, hswept'.last⟩

end Sweep

section Components

variable {src : List ℕ} {offset : ℕ}

/-- A component ends within the URI, and its bytes are known. -/
def Component (src : List ℕ) (piece : Piece) (offset : ℕ) : Prop :=
  offset ≤ src.length ∧ ∃ data, piece.Holds data

theorem classifyScheme_nul (pos : ℕ) : classifyScheme pos 0 ≠ .more := by
  unfold classifyScheme
  rw [if_pos (.inr (.inl rfl))]
  exact Verdict.noConfusion

theorem scheme_sound : Sound (scheme src) fun r => Component src r.1 r.2 := by
  unfold scheme
  refine (scan_from classifyScheme_nul (by simp)).bind fun i hi => ?_
  have hle : i ≤ src.length := by omega
  rw [byteAt_ok hle, byteAt_ok (Nat.zero_le _)]
  dsimp only [bind, Except.bind]
  split
  case isTrue hscheme =>
      have hlt := lt_of_byte_ne hle (by rw [hscheme.2.1]; decide)
      exact .ok ⟨hlt, stringPiece_holds (by omega)⟩
  case isFalse =>
      exact .ok ⟨Nat.zero_le _, [0], ⟨rfl, rfl, by decide, by decide, rfl, by decide⟩⟩

theorem slashes_sound (h : offset ≤ src.length) :
    Sound (slashes src offset) fun r => r.1 ≤ src.length := by
  unfold slashes
  refine (@scan_from src _ offset (fun _ => Verdict.noConfusion) 0 h).bind
    fun slashCount hcount => ?_
  split
  · exact .ok (by dsimp only; omega)
  · exact .ok h

theorem scanUserinfo_sound {fuel pos : ℕ} {colon : Option ℕ} (hpos : offset + pos ≤ src.length)
    (hcolon : ∀ q, colon = some q → q < pos) (hfuel : src.length + 1 ≤ offset + pos + fuel) :
    Sound (scanUserinfo src offset fuel pos colon) fun r =>
      ∀ p, r.2 = some p → offset + p < src.length ∧ ∀ q, r.1 = some q → q < p := by
  induction fuel generalizing pos colon with
  | zero => omega
  | succ fuel ih =>
      unfold scanUserinfo
      rw [byteAt_ok hpos]
      dsimp only [bind, Except.bind]
      by_cases hnul : src.getD (offset + pos) 0 = chNul
      · rw [if_pos hnul]
        exact .ok fun p hp => by cases hp
      have hlt := lt_of_byte_ne hpos hnul
      rw [if_neg hnul]
      split
      · refine .ok fun p hp => ?_
        obtain rfl := Option.some.inj hp
        exact ⟨hlt, hcolon⟩
      split
      · refine ih (by omega) (fun q hq => ?_) (by omega)
        obtain rfl := Option.some.inj hq
        exact Nat.lt_succ_self _
      split
      · exact ih (by omega) (fun q hq => Nat.lt_succ_of_lt (hcolon q hq)) (by omega)
      · exact .ok fun p hp => by cases hp

structure TwoStrings (data : List ℕ) (second : ℕ) : Prop where
  pos : 0 < second
  lt : second < data.length
  terminated : data.getD (second - 1) 0 = 0

theorem userinfoParts_eq {colon : Option ℕ} {atPos : ℕ} (h : ∀ q, colon = some q → q < atPos) :
    ∃ userLen passLen, userinfoParts colon atPos = (userLen, userLen + 1, passLen) ∧
      userLen + 1 + passLen ≤ atPos + 1 := by
  cases colon with
  | none => exact ⟨atPos, 0, rfl, Nat.le_refl _⟩
  | some q =>
      have := h q rfl
      exact ⟨q, atPos - (q + 1), rfl, by omega⟩

theorem userinfo_sound (h : offset ≤ src.length) :
    Sound (userinfo src offset) fun r => r.2.2 ≤ src.length ∧
      ∃ data, r.1.Holds data ∧ TwoStrings data r.2.1 := by
  unfold userinfo
  refine (scanUserinfo_sound h (fun q hq => by cases hq)
    (by unfold scanFuel; omega)).bind fun r hr => ?_
  obtain ⟨colon, at_⟩ := r
  cases at_ with
  | none =>
      exact .ok ⟨h, [0, 0], ⟨rfl, rfl, Nat.le_refl _, Nat.succ_pos 1, rfl, Nat.le_succ _⟩,
        ⟨Nat.one_pos, Nat.one_lt_two, rfl⟩⟩
  | some atPos =>
      obtain ⟨hat, hcolon⟩ := hr atPos rfl
      obtain ⟨userLen, passLen, hparts, hpass⟩ := userinfoParts_eq hcolon
      dsimp only
      rw [hparts]
      dsimp only
      obtain ⟨user, huserEq, huserLen⟩ := @bytesAt_ok src offset userLen (by omega)
      obtain ⟨pass, hpassEq, hpassLen⟩ :=
        @bytesAt_ok src (offset + (userLen + 1)) passLen (by omega)
      refine .ok ⟨by dsimp only; omega, user ++ [0] ++ pass ++ [0], ⟨?_, ?_, Nat.le_refl _,
        Nat.succ_pos _, ?_, Nat.le_succ _⟩, ⟨Nat.succ_pos _, ?_, ?_⟩⟩
      · dsimp only
        rw [huserEq, hpassEq]
        rfl
      · simp only [List.length_append, List.length_singleton, huserLen, hpassLen]
      · dsimp only
        rw [List.getD_append_right _ _ _ _ (by simp; omega)]
        simp [huserLen, hpassLen]
      · simp [huserLen, hpassLen]
      · simp [huserLen]

theorem host_sound (h : offset ≤ src.length) :
    Sound (host src offset) fun r => Component src r.1 r.2 := by
  unfold host
  rw [byteAt_ok h]
  dsimp only [bind, Except.bind]
  split
  · exact .ok ⟨h, stringPiece_holds h⟩
  split
  case isTrue hopen =>
      have hlt := lt_of_byte_ne h (by rw [hopen]; decide)
      refine (@scan_from src _ offset (fun pos => ?_) 1 hlt).bind fun len hlen => ?_
      · unfold classifyIpv6
        split <;> simp [chNul]
      · rw [byteAt_ok hlen.2]
        dsimp only [bind, Except.bind]
        split
        · exact .code _
        case isFalse hclose =>
            have hin := lt_of_byte_ne hlen.2 (by rw [not_not.1 hclose]; decide)
            exact .ok ⟨hin, stringPiece_holds (by omega)⟩
  case isFalse =>
      refine (@scan_from src _ offset (fun pos => ?_) 0 h).bind fun len hlen => ?_
      · unfold classifyHost
        split <;> simp [chNul]
      · exact .ok ⟨hlen.2, stringPiece_holds hlen.2⟩

theorem port_sound (h : offset ≤ src.length) :
    Sound (port src offset) fun r => r.2 ≤ src.length := by
  unfold port
  rw [byteAt_ok h]
  dsimp only [bind, Except.bind]
  split
  case isTrue hcolon =>
      have hlt := lt_of_byte_ne h (by rw [hcolon]; decide)
      refine (@scan_from src _ (offset + 1) (fun pos => ?_) 0 hlt).bind
        fun digitsLen hlen => ?_
      · unfold classifyPort
        split <;> simp [isDigit]
      · obtain ⟨digits, hdigits, -⟩ := bytesAt_ok hlen.2
        rw [hdigits]
        dsimp only [bind, Except.bind]
        split
        · exact .code _
        · rw [byteAt_ok hlen.2]
          dsimp only [bind, Except.bind]
          split
          · exact .code _
          · split
            · exact .ok hlen.2
            · exact .ok hlen.2
  case isFalse => exact .ok h

theorem path_sound (h : offset ≤ src.length) :
    Sound (path src offset) fun r => Component src r.1 r.2 := by
  unfold path
  refine (@scan_from src _ offset (fun pos => ?_) 0 h).bind fun len hlen => ?_
  · unfold classifyPath
    rw [if_pos (.inl rfl)]
    exact Verdict.noConfusion
  · obtain ⟨data, hdata, hdataLen⟩ := bytesAt_ok hlen.2
    have hsize : (data ++ [0]).length = len + 1 := by simp [hdataLen]
    obtain ⟨r, hr, hrlen, hzero⟩ := @sweepPath_ok (data ++ [0]) (by omega) (by simp)
    refine .ok ⟨hlen.2, r, ⟨?_, hrlen.trans hsize, Nat.le_refl _, Nat.succ_pos _, ?_,
      Nat.le_succ _⟩⟩
    · dsimp only
      rw [hdata]
      exact hr
    · rw [hsize] at hzero
      exact hzero

theorem marked_sound {mark : ℕ} {classify : ℕ → ℕ → Verdict} (hmark : mark ≠ 0)
    (hnul : ∀ pos, classify pos 0 ≠ .more) (h : offset ≤ src.length) :
    Sound (marked mark classify src offset) fun r =>
      Component src r.1 r.2 ∧ r.1.needed = r.1.size := by
  unfold marked
  rw [byteAt_ok h]
  dsimp only [bind, Except.bind]
  split
  case isTrue heq =>
      have hlt := lt_of_byte_ne h (by rw [heq]; exact hmark)
      refine (@scan_from src _ offset hnul 1 hlt).bind fun len hlen => ?_
      exact .ok ⟨⟨hlen.2, stringPiece_holds hlen.2⟩, rfl⟩
  case isFalse => exact .ok ⟨⟨h, stringPiece_holds h⟩, rfl⟩

theorem query_sound (h : offset ≤ src.length) :
    Sound (query src offset) fun r => Component src r.1 r.2 ∧ r.1.needed = r.1.size :=
  marked_sound (by decide) (fun pos => by
    unfold classifyQuery
    rw [if_pos (.inl rfl)]
    exact Verdict.noConfusion) h

theorem fragment_sound (h : offset ≤ src.length) :
    Sound (fragment src offset) fun r => Component src r.1 r.2 ∧ r.1.needed = r.1.size :=
  marked_sound (by decide) (fun pos => by
    unfold classifyFragment
    rw [if_pos (show 0 = chNul from rfl)]
    exact Verdict.noConfusion) h

end Components

section Pool

variable {src pool : List ℕ} {piece : Piece} {data : List ℕ} {used : ℕ}

def HoldsAt (pool : List ℕ) (used : ℕ) (data : List ℕ) : Prop :=
  used + data.length ≤ pool.length ∧ ∀ j, j < data.length → pool.getD (used + j) 0 = data.getD j 0

/-- What is in the pool stays there when a later component is stored. -/
def KeepsBefore (used : ℕ) (pool pool' : List ℕ) : Prop :=
  pool'.length = pool.length ∧ ∀ j, j < used → pool'.getD j 0 = pool.getD j 0

theorem HoldsAt.keep {pool' : List ℕ} {later : ℕ} (h : HoldsAt pool used data)
    (hkeep : KeepsBefore later pool pool') (hlater : used + data.length ≤ later) :
    HoldsAt pool' used data :=
  ⟨hkeep.1.symm ▸ h.1, fun j hj => (hkeep.2 _ (by omega)).trans (h.2 j hj)⟩

theorem KeepsBefore.trans {pool' pool'' : List ℕ} {used used' : ℕ}
    (h : KeepsBefore used pool pool') (h' : KeepsBefore used' pool' pool'') (hle : used ≤ used') :
    KeepsBefore used pool pool'' :=
  ⟨h'.1.trans h.1, fun j hj => (h'.2 j (by omega)).trans (h.2 j hj)⟩

theorem store_fits (h : piece.Holds data) (hpool : pool.length < 18446744073709551616)
    (hfits : used + piece.needed ≤ pool.length) :
    ∃ pool', store (some pool) used piece = .ok (some pool') ∧ KeepsBefore used pool pool' ∧
      HoldsAt pool' used data := by
  have hsize := h.size_le
  have hlen := h.length_eq
  obtain ⟨pool', hwrite, hlen', hkeep, hdata⟩ := @writeAt_ok pool data used (by omega)
  refine ⟨pool', ?_, ⟨hlen', fun j hj => hkeep j (.inl hj)⟩, by omega, hdata⟩
  unfold store
  dsimp only
  rw [sub64_eq (by omega) hpool, if_neg (by omega), h.image_eq]
  dsimp only [bind, Except.bind]
  rw [hwrite]

theorem store_short (hpool : pool.length < 18446744073709551616) (hused : used ≤ pool.length)
    (hshort : pool.length < used + piece.needed) :
    store (some pool) used piece = .error (.code .outOfMemory) := by
  unfold store
  dsimp only
  rw [sub64_eq hused hpool, if_pos (by omega)]

def PoolOk (pool : Option (List ℕ)) (used : ℕ) : Prop :=
  ∀ bytes, pool = some bytes → bytes.length < 18446744073709551616 ∧ used ≤ bytes.length

theorem store_sound {pool : Option (List ℕ)} (h : ∃ data, piece.Holds data)
    (hpool : PoolOk pool used) :
    Sound (store pool used piece) fun r => PoolOk r (used + piece.size) := by
  obtain ⟨data, h⟩ := h
  cases pool with
  | none => exact .ok fun bytes hbytes => by cases hbytes
  | some pool =>
      obtain ⟨hlt, hused⟩ := hpool pool rfl
      by_cases hfits : used + piece.needed ≤ pool.length
      · obtain ⟨pool', hstore, hkeep, -⟩ := store_fits h hlt hfits
        refine .inl ⟨some pool', hstore, fun bytes hbytes => ?_⟩
        obtain rfl := Option.some.inj hbytes
        have hsize := h.size_le
        have hlen := hkeep.1
        omega
      · exact .inr ⟨_, store_short hlt hused (by omega)⟩

/-- Components are stored one behind the other. -/
def storeAll (pool : Option (List ℕ)) (used : ℕ) : List Piece → Http (Option (List ℕ))
  | [] => .ok pool
  | piece :: rest => do
      let pool ← store pool used piece
      storeAll pool (used + piece.size) rest

/-- The pool has what every component asks for. -/
def Fits (len : ℕ) (used : ℕ) : List Piece → Prop
  | [] => True
  | piece :: rest => used + piece.needed ≤ len ∧ Fits len (used + piece.size) rest

def Placed (pool : List ℕ) (used : ℕ) : List (List ℕ) → Prop
  | [] => True
  | data :: rest => HoldsAt pool used data ∧ Placed pool (used + data.length) rest

theorem storeAll_fits {pieces : List Piece} {datas : List (List ℕ)}
    (h : List.Forall₂ Piece.Holds pieces datas) (hpool : pool.length < 18446744073709551616)
    (hfits : Fits pool.length used pieces) :
    ∃ pool', storeAll (some pool) used pieces = .ok (some pool') ∧
      KeepsBefore used pool pool' ∧ Placed pool' used datas := by
  induction h generalizing pool used with
  | nil => exact ⟨pool, rfl, ⟨rfl, fun _ _ => rfl⟩, True.intro⟩
  | @cons piece data pieces datas hpiece _ ih =>
      obtain ⟨pool₁, hstore, hkeep₁, hholds⟩ := store_fits hpiece hpool hfits.1
      have hsize := hpiece.length_eq
      have hlen := hkeep₁.1
      obtain ⟨pool', hrest, hkeep, hplaced⟩ :=
        @ih pool₁ (used + piece.size) (by omega) (hlen.symm ▸ hfits.2)
      refine ⟨pool', ?_, hkeep₁.trans hkeep (by omega), hholds.keep hkeep (by omega), ?_⟩
      · unfold storeAll
        rw [hstore]
        exact hrest
      · rw [hsize]
        exact hplaced

theorem storeAll_short {pieces : List Piece} {datas : List (List ℕ)}
    (h : List.Forall₂ Piece.Holds pieces datas) (hpool : pool.length < 18446744073709551616)
    (hused : used ≤ pool.length) (hshort : ¬ Fits pool.length used pieces) :
    storeAll (some pool) used pieces = .error (.code .outOfMemory) := by
  induction h generalizing pool used with
  | nil => exact absurd True.intro hshort
  | @cons piece data pieces datas hpiece _ ih =>
      unfold storeAll
      by_cases hfits : used + piece.needed ≤ pool.length
      · obtain ⟨pool₁, hstore, hkeep₁, -⟩ := store_fits hpiece hpool hfits
        have hsize := hpiece.size_le
        have hlen := hkeep₁.1
        rw [hstore]
        exact @ih pool₁ (used + piece.size) (by omega) (by omega)
          (hlen.symm ▸ fun hrest => hshort ⟨hfits, hrest⟩)
      · rw [store_short hpool hused (by omega)]
        rfl

end Pool

def StringIn (pool : List ℕ) (first last : ℕ) : Prop :=
  last ≤ pool.length ∧ ∃ i, first ≤ i ∧ i < last ∧ pool.getD i 0 = 0

theorem HoldsAt.stringIn {pool data : List ℕ} {used : ℕ} {piece : Piece}
    (h : HoldsAt pool used data) (hpiece : piece.Holds data) :
    StringIn pool used (used + piece.size) := by
  have hpos := hpiece.size_pos
  have hlen := hpiece.length_eq
  have hin := h.1
  refine ⟨by omega, used + (piece.size - 1), by omega, by omega, ?_⟩
  rw [h.2 _ (by omega)]
  exact hpiece.terminated

theorem HoldsAt.twoStrings {pool data : List ℕ} {used second : ℕ} {piece : Piece}
    (h : HoldsAt pool used data) (hpiece : piece.Holds data) (htwo : TwoStrings data second) :
    StringIn pool used (used + second) ∧ StringIn pool (used + second) (used + piece.size) := by
  have hpos := htwo.pos
  have hlt := htwo.lt
  have hlen := hpiece.length_eq
  have hin := h.1
  refine ⟨⟨by omega, used + (second - 1), by omega, by omega, ?_⟩,
    by omega, used + (piece.size - 1), by omega, by omega, ?_⟩
  · rw [h.2 _ (by omega)]
    exact htwo.terminated
  · rw [h.2 _ (by omega)]
    exact hpiece.terminated

/-- The seven strings lie one behind the other in the first `n` bytes of the pool. -/
structure Laid (pool : List ℕ) (out : UriElement) (n : ℕ) : Prop where
  scheme : StringIn pool out.scheme out.username
  username : StringIn pool out.username out.password
  password : StringIn pool out.password out.hostname
  hostname : StringIn pool out.hostname out.path
  path : StringIn pool out.path out.query
  query : StringIn pool out.query out.fragment
  fragment : StringIn pool out.fragment n

section Parse

variable {src : List ℕ}

theorem uriParse_sound {pool : Option (List ℕ)} (hpool : PoolOk pool 0) :
    Sound (uriParse src pool) fun _ => True := by
  unfold uriParse
  refine scheme_sound.bind fun r₁ h₁ => ?_
  refine (store_sound h₁.2 hpool).bind fun pool₁ hpool₁ => ?_
  refine (slashes_sound h₁.1).bind fun r₂ h₂ => ?_
  refine (userinfo_sound h₂).bind fun r₃ h₃ => ?_
  obtain ⟨hoffset₃, data, hholds, -⟩ := h₃
  rw [Nat.zero_add] at hpool₁
  refine (store_sound ⟨data, hholds⟩ hpool₁).bind fun pool₂ hpool₂ => ?_
  refine (host_sound hoffset₃).bind fun r₄ h₄ => ?_
  refine (store_sound h₄.2 hpool₂).bind fun pool₃ hpool₃ => ?_
  refine (port_sound h₄.1).bind fun r₅ h₅ => ?_
  refine (path_sound h₅).bind fun r₆ h₆ => ?_
  refine (store_sound h₆.2 hpool₃).bind fun pool₄ hpool₄ => ?_
  refine (query_sound h₆.1).bind fun r₇ h₇ => ?_
  refine (store_sound h₇.1.2 hpool₄).bind fun pool₅ hpool₅ => ?_
  refine (fragment_sound h₇.1.1).bind fun r₈ h₈ => ?_
  refine (store_sound h₈.1.2 hpool₅).bind fun pool₆ _ => ?_
  exact .ok True.intro

theorem uriParse_parts {n : ℕ} {pool₀ : Option (List ℕ)} {out : UriElement}
    (h : uriParse src none = .ok (n, pool₀, out)) :
    ∃ pieces datas, List.Forall₂ Piece.Holds pieces datas ∧
      (∀ pool, uriParse src pool =
        storeAll pool 0 pieces >>= fun pool => .ok (n, pool, out)) ∧
      (∀ len, Fits len 0 pieces ↔ n ≤ len) ∧ ∀ pool, Placed pool 0 datas → Laid pool out n := by
  unfold uriParse at h
  obtain ⟨⟨s, o₁⟩, hs, h⟩ := bind_ok h
  obtain ⟨_, hnone, h⟩ := bind_ok h
  cases hnone
  obtain ⟨⟨o₂, isOpaque⟩, hslashes, h⟩ := bind_ok h
  obtain ⟨⟨u, second, o₃⟩, hu, h⟩ := bind_ok h
  obtain ⟨_, hnone, h⟩ := bind_ok h
  cases hnone
  obtain ⟨⟨t, o₄⟩, ht, h⟩ := bind_ok h
  obtain ⟨_, hnone, h⟩ := bind_ok h
  cases hnone
  obtain ⟨⟨uriPort, o₅⟩, hport, h⟩ := bind_ok h
  obtain ⟨⟨p, o₆⟩, hp, h⟩ := bind_ok h
  obtain ⟨_, hnone, h⟩ := bind_ok h
  cases hnone
  obtain ⟨⟨q, o₇⟩, hq, h⟩ := bind_ok h
  obtain ⟨_, hnone, h⟩ := bind_ok h
  cases hnone
  obtain ⟨⟨f, o₈⟩, hf, h⟩ := bind_ok h
  obtain ⟨_, hnone, h⟩ := bind_ok h
  cases hnone
  cases h
  obtain ⟨ho₁, ds, hds⟩ := scheme_sound.of_ok hs
  have ho₂ := (slashes_sound ho₁).of_ok hslashes
  obtain ⟨ho₃, du, hdu, htwo⟩ := (userinfo_sound ho₂).of_ok hu
  obtain ⟨ho₄, dt, hdt⟩ := (host_sound ho₃).of_ok ht
  have ho₅ := (port_sound ho₄).of_ok hport
  obtain ⟨ho₆, dp, hdp⟩ := (path_sound ho₅).of_ok hp
  obtain ⟨⟨ho₇, dq, hdq⟩, -⟩ := (query_sound ho₆).of_ok hq
  obtain ⟨⟨-, df, hdf⟩, hexact⟩ := (fragment_sound ho₇).of_ok hf
  dsimp only at *
  refine ⟨[s, u, t, p, q, f], [ds, du, dt, dp, dq, df],
    .cons hds (.cons hdu (.cons hdt (.cons hdp (.cons hdq (.cons hdf .nil))))), ?_, ?_, ?_⟩
  · intro pool
    unfold uriParse
    rw [hs]
    dsimp only [bind, Except.bind, storeAll]
    rw [Nat.zero_add]
    cases store pool 0 s with
    | error e => rfl
    | ok pool =>
    dsimp only
    rw [hslashes]
    dsimp only
    rw [hu]
    dsimp only
    cases store pool s.size u with
    | error e => rfl
    | ok pool =>
    dsimp only
    rw [ht]
    dsimp only
    cases store pool (s.size + u.size) t with
    | error e => rfl
    | ok pool =>
    dsimp only
    rw [hport]
    dsimp only
    rw [hp]
    dsimp only
    cases store pool (s.size + u.size + t.size) p with
    | error e => rfl
    | ok pool =>
    dsimp only
    rw [hq]
    dsimp only
    cases store pool (s.size + u.size + t.size + p.size) q with
    | error e => rfl
    | ok pool =>
    dsimp only
    rw [hf]
    dsimp only
    cases store pool (s.size + u.size + t.size + p.size + q.size) f with
    | error e => rfl
    | ok pool => rfl
  · intro len
    have := hds.needed_le
    have := hdu.needed_le
    have := hdt.needed_le
    have := hdp.needed_le
    have := hdq.needed_le
    have := hdu.size_pos
    have := hdt.size_pos
    have := hdp.size_pos
    have := hdq.size_pos
    have := hdf.size_pos
    simp only [Fits, and_true]
    omega
  · rintro pool ⟨hps, hpu, hpt, hpp, hpq, hpf, -⟩
    rw [Nat.zero_add, hds.length_eq] at hpu hpt hpp hpq hpf
    rw [hdu.length_eq] at hpt hpp hpq hpf
    rw [hdt.length_eq] at hpp hpq hpf
    rw [hdp.length_eq] at hpq hpf
    rw [hdq.length_eq] at hpf
    have huser := hpu.twoStrings hdu htwo
    have hscheme := hps.stringIn hds
    rw [Nat.zero_add] at hscheme
    exact ⟨hscheme, huser.1, huser.2, hpt.stringIn hdt, hpp.stringIn hdp, hpq.stringIn hdq,
      hpf.stringIn hdf⟩

/-- A parse stays within the URI and the pool; when the size query succeeds, it succeeds with
the same size exactly if the pool has that size, and lays the strings out in it. -/
theorem uri_parse_exact (src : List ℕ) :
    (∀ pool : Option (List ℕ), (∀ bytes, pool = some bytes →
      bytes.length < 18446744073709551616) → ∀ f, uriParse src pool ≠ .error (.fault f)) ∧
    ∀ n pool₀ out₀, uriParse src none = .ok (n, pool₀, out₀) →
      ∀ pool : List ℕ, pool.length < 18446744073709551616 →
        (n ≤ pool.length → ∃ pool' out, uriParse src (some pool) = .ok (n, some pool', out) ∧
          pool'.length = pool.length ∧ Laid pool' out n) ∧
        (pool.length < n → uriParse src (some pool) = .error (.code .outOfMemory)) := by
  constructor
  · intro pool hpool f hfault
    obtain ⟨a, ha, -⟩ | ⟨e, he⟩ := @uriParse_sound src pool
      fun bytes hbytes => ⟨hpool bytes hbytes, Nat.zero_le _⟩
    · rw [ha] at hfault
      cases hfault
    · rw [he] at hfault
      cases hfault
  · intro n pool₀ out₀ hquery pool hpool
    obtain ⟨pieces, datas, hholds, hparse, hfits, hlaid⟩ := uriParse_parts hquery
    constructor
    · intro hle
      obtain ⟨pool', hstore, hkeep, hplaced⟩ := storeAll_fits hholds hpool ((hfits _).2 hle)
      refine ⟨pool', out₀, ?_, hkeep.1, hlaid pool' hplaced⟩
      rw [hparse, hstore]
      rfl
    · intro hlt
      have hshort : ¬ Fits pool.length 0 pieces := fun hfit => by
        have := (hfits _).1 hfit
        omega
      rw [hparse, storeAll_short hholds hpool (Nat.zero_le _) hshort]
      rfl

/-- `http://u@[::1]/a/../b?q`. -/
def sampleUri : List ℕ :=
  [0x68, 0x74, 0x74, 0x70, 0x3a, 0x2f, 0x2f, 0x75, 0x40, 0x5b, 0x3a, 0x3a, 0x31, 0x5d, 0x2f,
    0x61, 0x2f, 0x2e, 0x2e, 0x2f, 0x62, 0x3f, 0x71]

theorem uri_parse_exact_sample :
    (∃ pool' out, uriParse sampleUri (some (List.replicate 32 1)) = .ok (24, some pool', out) ∧
      Laid pool' out 24) ∧
      uriParse sampleUri (some (List.replicate 20 1)) = .error (.code .outOfMemory) := by
  have hquery : uriParse sampleUri none = .ok (24, none,
      { isOpaque := false, scheme := 0, username := 5, password := 7, hostname := 8, path := 12,
        query := 20, fragment := 23, port := 80 }) := by decide
  have h := (uri_parse_exact sampleUri).2 24 _ _ hquery
  obtain ⟨pool', out, hparse, -, hlaid⟩ :=
    (h (List.replicate 32 1) (by decide)).1 (by decide)
  exact ⟨⟨pool', out, hparse, hlaid⟩, (h (List.replicate 20 1) (by decide)).2 (by decide)⟩

end Parse

end OrbitConsole.Network
