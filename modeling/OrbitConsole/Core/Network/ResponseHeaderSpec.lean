import OrbitConsole.Core.Network.ResponseHeader
import OrbitConsole.Core.Network.StatusLineSpec

/-!
# Lookups in a header block

A lookup stays within the header, whatever that is. In a block of header lines it stops at the
first line with the name it is given, and the next lookup begins with the line behind.
-/

namespace OrbitConsole.Network

section Bounds

variable {mem field : List ℕ} {headerLen pos valueStart fuel : ℕ}

theorem readAt_lt (h : pos < mem.length) : readAt mem pos = .ok (mem.getD pos 0) := if_pos h

theorem caseInsensitiveEq_returns (h : pos + field.length ≤ mem.length) :
    ∃ b, caseInsensitiveEq mem field pos = .ok b := by
  induction field generalizing pos with
  | nil => exact ⟨true, rfl⟩
  | cons c field ih =>
      rw [List.length_cons] at h
      unfold caseInsensitiveEq
      rw [readAt_lt (by omega)]
      dsimp only [bind, Except.bind]
      split
      · exact ⟨false, rfl⟩
      · exact ih (by omega)

theorem fieldHere_bounds (hlen : headerLen ≤ mem.length) (hpos : pos < headerLen) :
    ∃ b, fieldHere mem headerLen field pos = .ok b ∧
      (b = true → pos + field.length < headerLen) := by
  unfold fieldHere
  rw [readAt_lt (by omega)]
  dsimp only [bind, Except.bind]
  by_cases hspace : isAsciiSpace (mem.getD pos 0) = true
  · exact ⟨false, if_pos hspace, fun h => Bool.noConfusion h⟩
  rw [if_neg hspace]
  by_cases hfit : field.length < headerLen - pos
  swap
  · exact ⟨false, if_neg hfit, fun h => Bool.noConfusion h⟩
  obtain ⟨b, hb⟩ := @caseInsensitiveEq_returns mem field pos (by omega)
  rw [if_pos hfit, hb, readAt_lt (by omega)]
  dsimp only
  split
  · exact ⟨_, rfl, fun _ => by omega⟩
  · exact ⟨false, rfl, fun h => Bool.noConfusion h⟩

theorem fieldAt_bounds (hlen : headerLen ≤ mem.length) {atLineStart : Bool}
    (hpos : pos < headerLen) :
    ∃ b, fieldAt mem headerLen field atLineStart pos = .ok b ∧
      (b = true → pos + field.length < headerLen) := by
  unfold fieldAt
  split
  · exact fieldHere_bounds hlen hpos
  · exact ⟨false, rfl, fun h => Bool.noConfusion h⟩

theorem headerSearch_bounds (hlen : headerLen ≤ mem.length) {atLineStart : Bool}
    (hpos : pos < headerLen) (hfuel : headerLen < pos + fuel) :
    ∃ r, headerSearch mem headerLen field fuel atLineStart pos = .ok r ∧
      ∀ valueOffset, r = some valueOffset → valueOffset ≤ headerLen := by
  induction fuel generalizing pos atLineStart with
  | zero => omega
  | succ fuel ih =>
      obtain ⟨b, hb, hbound⟩ := @fieldAt_bounds mem field headerLen pos hlen atLineStart hpos
      unfold headerSearch
      rw [hb]
      dsimp only [bind, Except.bind]
      by_cases hfound : b = true
      · rw [if_pos hfound]
        refine ⟨_, rfl, fun valueOffset hv => ?_⟩
        have := hbound hfound
        obtain rfl := Option.some.inj hv
        omega
      rw [if_neg hfound, readAt_lt (by omega)]
      dsimp only
      by_cases hend : headerLen ≤ pos + 1
      · exact ⟨none, if_pos hend, fun _ h => by cases h⟩
      · rw [if_neg hend]
        exact ih (by omega) (by omega)

theorem skipSpace_bounds (hlen : headerLen ≤ mem.length) (hpos : pos ≤ headerLen)
    (hfuel : headerLen < pos + fuel) :
    ∃ v, skipSpace mem headerLen fuel pos = .ok v ∧ v ≤ headerLen := by
  induction fuel generalizing pos with
  | zero => omega
  | succ fuel ih =>
      unfold skipSpace
      by_cases hmore : pos < headerLen
      swap
      · exact ⟨pos, if_neg hmore, hpos⟩
      rw [if_pos hmore, readAt_lt (by omega)]
      dsimp only [bind, Except.bind]
      split
      · exact ⟨pos, rfl, hpos⟩
      split
      · exact ⟨pos + 1, rfl, hmore⟩
      · exact ih hmore (by omega)

theorem walkLine_bounds (hlen : headerLen ≤ mem.length) (hpos : pos ≤ headerLen)
    (hfuel : headerLen < pos + fuel) :
    ∃ v, walkLine mem headerLen fuel pos = .ok v ∧ pos ≤ v ∧ v ≤ headerLen := by
  induction fuel generalizing pos with
  | zero => omega
  | succ fuel ih =>
      unfold walkLine
      by_cases hmore : pos < headerLen
      swap
      · exact ⟨pos, if_neg hmore, Nat.le_refl _, hpos⟩
      rw [if_pos hmore, readAt_lt (by omega)]
      dsimp only [bind, Except.bind]
      split
      · obtain ⟨v, hv, hle, hbound⟩ := @ih (pos + 1) hmore (by omega)
        exact ⟨v, hv, by omega, hbound⟩
      · exact ⟨pos, rfl, Nat.le_refl _, hpos⟩

theorem foldAt_returns (hlen : headerLen ≤ mem.length) :
    ∃ b, foldAt mem headerLen pos = .ok b ∧ (b = true → pos < headerLen) := by
  unfold foldAt
  by_cases hmore : pos < headerLen
  · rw [if_pos hmore, readAt_lt (by omega)]
    exact ⟨_, rfl, fun _ => hmore⟩
  · exact ⟨false, if_neg hmore, fun h => Bool.noConfusion h⟩

theorem returnBefore_returns (hpos : pos ≤ mem.length) :
    ∃ b, returnBefore mem valueStart pos = .ok b := by
  unfold returnBefore
  split
  · rw [readAt_lt (by omega)]
    exact ⟨_, rfl⟩
  · exact ⟨false, rfl⟩

theorem valueScan_bounds (hlen : headerLen ≤ mem.length) (hstart : valueStart ≤ headerLen)
    (hpos : pos ≤ headerLen) (hfuel : headerLen < pos + fuel) :
    ∃ r, valueScan mem headerLen valueStart fuel pos = .ok r ∧ r.1 ≤ headerLen ∧
      r.2 ≤ headerLen := by
  induction fuel generalizing pos with
  | zero => omega
  | succ fuel ih =>
      unfold valueScan
      by_cases hmore : pos < headerLen
      swap
      · exact ⟨_, if_neg hmore, hstart, hstart⟩
      obtain ⟨v, hv, hle, hbound⟩ := @walkLine_bounds mem headerLen pos (headerLen + 1) hlen hpos
        (by omega)
      rw [if_pos hmore, hv]
      dsimp only [bind, Except.bind]
      by_cases hend : headerLen ≤ v
      · exact ⟨_, if_pos hend, Nat.le_refl _, Nat.le_refl _⟩
      obtain ⟨sawCR, hsaw⟩ := @returnBefore_returns mem v valueStart (by omega)
      obtain ⟨folded, hfolded, hin⟩ := @foldAt_returns mem headerLen (v + 1) hlen
      rw [if_neg hend, hsaw]
      dsimp only
      rw [hfolded]
      dsimp only
      by_cases hfold : folded = true
      · rw [if_pos hfold]
        exact ih (by have := hin hfold; omega) (by omega)
      · rw [if_neg hfold]
        refine ⟨_, rfl, by dsimp only; omega, ?_⟩
        dsimp only
        split <;> omega

theorem toInt32_le (n : ℕ) : toInt32 n ≤ n := by
  unfold toInt32
  split <;> omega

theorem parseResponseHeader_bounds (hlen : headerLen ≤ mem.length) :
    ∃ r, parseResponseHeader mem headerLen field = .ok r ∧ r.ret ≤ headerLen ∧
      ∀ start len, r.value = some (start, len) → start + len ≤ headerLen := by
  unfold parseResponseHeader
  obtain ⟨found, hfound, hoffset⟩ : ∃ r, findField mem headerLen (field.take 0xfff) = .ok r ∧
      ∀ valueOffset, r = some valueOffset → valueOffset ≤ headerLen := by
    unfold findField
    split
    · exact headerSearch_bounds hlen (by omega) (by omega)
    · exact ⟨none, rfl, fun _ h => by cases h⟩
  rw [hfound]
  dsimp only [bind, Except.bind]
  cases found with
  | none =>
      refine ⟨_, rfl, ?_, fun _ _ h => by cases h⟩
      dsimp only [parseHttpNotFound]
      omega
  | some valueOffset =>
      obtain ⟨start, hstart, hbound⟩ := @skipSpace_bounds mem headerLen valueOffset (headerLen + 1)
        hlen (hoffset valueOffset rfl) (by omega)
      dsimp only
      rw [hstart]
      dsimp only
      obtain ⟨r, hr, hend, hlength⟩ : ∃ r, valueEnds mem headerLen start = .ok r ∧
          r.1 ≤ headerLen ∧ r.2 ≤ headerLen := by
        unfold valueEnds
        split
        · exact valueScan_bounds hlen hbound hbound (by omega)
        · exact ⟨_, rfl, Nat.le_refl _, Nat.le_refl _⟩
      rw [hr]
      dsimp only
      refine ⟨_, rfl, ?_, ?_⟩ <;> unfold headerResult <;> split
      · exact Int.natCast_nonneg headerLen
      · exact Int.le_trans (toInt32_le _) (by exact_mod_cast hend)
      · exact fun _ _ h => by cases h
      · intro s l h
        obtain ⟨rfl, rfl⟩ := Prod.mk.inj (Option.some.inj h)
        omega

end Bounds

section Lines

/-- A newline among the characters of a value is followed by the white space of a fold. -/
def Folded : List ℕ → Prop
  | [] => True
  | c :: rest =>
      (c = chNewline → ∃ d tail, rest = d :: tail ∧ (d = chSpace ∨ d = chTab)) ∧ Folded rest

/-- A header line: its value may be folded, and is written as it stands. A carriage return in
front of a newline alone would be one that ends the line. -/
structure HeaderLine where
  name : List ℕ
  value : List ℕ
  crlf : Bool
  name_plain : ∀ c ∈ name, c ≠ chColon ∧ isAsciiSpace c = false
  value_first : ∃ c rest, value = c :: rest ∧ isAsciiSpace c = false
  value_folded : Folded value
  value_last : crlf = true ∨ value.getLast? ≠ some chReturn

/-- What stands between the separator and the newline. -/
def HeaderLine.body (l : HeaderLine) : List ℕ :=
  l.value ++ if l.crlf = true then [chReturn] else []

def HeaderLine.text (l : HeaderLine) : List ℕ :=
  l.name ++ chColon :: chSpace :: (l.body ++ [chNewline])

def blockText (lines : List HeaderLine) : List ℕ := lines.flatMap HeaderLine.text

def HeaderLine.Named (l : HeaderLine) (field : List ℕ) : Prop :=
  l.name.map toLower = field.map toLower

instance (l : HeaderLine) (field : List ℕ) : Decidable (l.Named field) :=
  inferInstanceAs (Decidable (_ = _))

theorem Folded.append {t : List ℕ} (h : Folded t) {u : List ℕ} (hu : Folded u) :
    Folded (t ++ u) := by
  induction t with
  | nil => exact hu
  | cons c t ih =>
      refine ⟨fun hc => ?_, ih h.2⟩
      obtain ⟨d, tail, rfl, hd⟩ := h.1 hc
      exact ⟨d, tail ++ u, rfl, hd⟩

theorem Folded.of_not_mem {t : List ℕ} (h : chNewline ∉ t) : Folded t := by
  induction t with
  | nil => trivial
  | cons c t ih =>
      rw [List.mem_cons, not_or] at h
      exact ⟨fun hc => absurd hc.symm h.1, ih h.2⟩

theorem HeaderLine.body_folded (l : HeaderLine) : Folded l.body := by
  refine l.value_folded.append (Folded.of_not_mem ?_)
  split <;> decide

theorem HeaderLine.name_newline (l : HeaderLine) : chNewline ∉ l.name := fun hmem =>
  absurd (l.name_plain _ hmem).2 (by decide)

theorem HeaderLine.text_eq (l : HeaderLine) :
    ∃ c t, l.text = c :: (t ++ [chNewline]) ∧ Folded (c :: t) ∧ isAsciiSpace c = false := by
  have hfolded : Folded (l.name ++ chColon :: chSpace :: l.body) := by
    refine (Folded.of_not_mem l.name_newline).append ⟨fun h => absurd h (by decide), fun h =>
      absurd h (by decide), l.body_folded⟩
  cases hname : l.name with
  | nil =>
      refine ⟨chColon, chSpace :: l.body, ?_, ?_, by decide⟩
      · unfold HeaderLine.text
        rw [hname]
        rfl
      · rwa [hname] at hfolded
  | cons c rest =>
      refine ⟨c, rest ++ chColon :: chSpace :: l.body, ?_, ?_, ?_⟩
      · unfold HeaderLine.text
        rw [hname]
        simp
      · rwa [hname] at hfolded
      · exact (l.name_plain c (by rw [hname]; exact List.mem_cons_self)).2

end Lines

section Search

variable {front rest tail field : List ℕ} {c fuel : ℕ} {atLineStart : Bool}

def Quiet : Bool → List ℕ → Prop
  | _, [] => True
  | atLineStart, c :: rest =>
      (atLineStart = true → isAsciiSpace c = true) ∧ Quiet (c == chNewline) rest

theorem Folded.quiet {t : List ℕ} (h : Folded t) {b : Bool}
    (hb : b = true → ∃ d tail, t = d :: tail ∧ (d = chSpace ∨ d = chTab)) :
    Quiet b (t ++ [chNewline]) := by
  induction t generalizing b with
  | nil => exact ⟨fun _ => by decide, trivial⟩
  | cons c t ih =>
      refine ⟨fun hstart => ?_, ih h.2 fun hc => h.1 (beq_iff_eq.1 hc)⟩
      obtain ⟨d, tail, heq, hd⟩ := hb hstart
      obtain ⟨rfl, -⟩ := List.cons.inj heq
      obtain rfl | rfl := hd <;> decide

theorem headerSearch_step
    (h : fieldAt (front ++ c :: rest) (front ++ c :: rest).length field atLineStart front.length =
      .ok false) :
    headerSearch (front ++ c :: rest) (front ++ c :: rest).length field (fuel + 1) atLineStart
        front.length =
      if rest = [] then .ok none
      else headerSearch (front ++ c :: rest) (front ++ c :: rest).length field fuel
        (c == chNewline) (front.length + 1) := by
  conv_lhs => unfold headerSearch
  rw [h, readAt_front]
  dsimp only [bind, Except.bind]
  rw [if_neg Bool.false_ne_true]
  cases rest with
  | nil => rw [if_pos (by simp), if_pos rfl]
  | cons d rest => rw [if_neg (by simp), if_neg (List.cons_ne_nil d rest)]

theorem fieldAt_quiet (h : atLineStart = true → isAsciiSpace c = true) {headerLen : ℕ} :
    fieldAt (front ++ c :: rest) headerLen field atLineStart front.length = .ok false := by
  unfold fieldAt
  cases atLineStart with
  | false => rfl
  | true =>
      unfold fieldHere
      rw [if_pos rfl, readAt_front]
      dsimp only [bind, Except.bind]
      rw [if_pos (h rfl)]

theorem headerSearch_quiet {t : List ℕ} (h : Quiet atLineStart (t ++ [chNewline])) :
    headerSearch (front ++ (t ++ chNewline :: rest)) (front ++ (t ++ chNewline :: rest)).length
        field (t.length + 1 + fuel) atLineStart front.length =
      if rest = [] then .ok none
      else headerSearch (front ++ (t ++ chNewline :: rest))
        (front ++ (t ++ chNewline :: rest)).length field fuel true
        (front.length + t.length + 1) := by
  induction t generalizing front atLineStart with
  | nil =>
      rw [List.length_nil, Nat.zero_add, Nat.add_comm 1 fuel, List.nil_append,
        headerSearch_step (fieldAt_quiet h.1)]
      rfl
  | cons c t ih =>
      have hrest := @ih (front ++ [c]) (c == chNewline) h.2
      rw [List.length_cons, Nat.add_right_comm _ 1 fuel, List.cons_append,
        headerSearch_step (fieldAt_quiet h.1), if_neg (by simp)]
      simp only [List.length_append, List.length_cons, List.length_nil, List.append_assoc,
        List.singleton_append, Nat.zero_add, Nat.add_assoc, Nat.add_comm 1]
        at hrest ⊢
      exact hrest

theorem caseInsensitiveEq_eq {s : List ℕ} (h : field.length ≤ s.length) :
    caseInsensitiveEq (front ++ s) field front.length =
      .ok (decide ((s.take field.length).map toLower = field.map toLower)) := by
  induction field generalizing front s with
  | nil => rfl
  | cons c field ih =>
      cases s with
      | nil => exact absurd h (Nat.not_succ_le_zero _)
      | cons d s =>
          have hrest := @ih (front ++ [d]) s (Nat.le_of_succ_le_succ h)
          rw [List.length_append, List.length_singleton, List.append_assoc,
            List.singleton_append] at hrest
          unfold caseInsensitiveEq
          rw [readAt_front]
          dsimp only [bind, Except.bind]
          rw [List.length_cons, List.take_succ_cons, List.map_cons, List.map_cons]
          by_cases heq : toLower c = toLower d
          · rw [if_neg (not_not.2 heq), hrest, heq]
            simp
          · rw [if_pos heq, decide_eq_false fun hcons => heq (List.cons.inj hcons).1.symm]

theorem toLower_colon {c : ℕ} (h : toLower c = chColon) : c = chColon := by
  unfold toLower chColon at *
  split at h <;> omega

theorem fieldAt_line (l : HeaderLine) (hfield : chColon ∉ field) {headerLen : ℕ}
    (hlen : headerLen = (front ++ (l.text ++ rest)).length) :
    fieldAt (front ++ (l.text ++ rest)) headerLen field true front.length =
      .ok (decide (l.Named field)) := by
  obtain ⟨first, t, htext, -, hspace⟩ := l.text_eq
  have hsplit : l.text ++ rest =
      l.name ++ chColon :: (chSpace :: (l.body ++ [chNewline]) ++ rest) := by
    unfold HeaderLine.text
    simp
  have hread : readAt (front ++ (l.text ++ rest)) front.length = .ok first := by
    rw [htext]
    exact readAt_front
  have hcolon : chColon ∉ l.name := fun hmem => (l.name_plain _ hmem).1 rfl
  unfold fieldAt fieldHere
  rw [if_pos rfl, hread]
  dsimp only [bind, Except.bind]
  rw [hspace, if_neg Bool.false_ne_true, hlen, List.length_append, Nat.add_sub_cancel_left]
  have hname : l.name.length < (l.text ++ rest).length := by
    rw [hsplit, List.length_append, List.length_cons]
    omega
  by_cases hfit : field.length < (l.text ++ rest).length
  swap
  · rw [if_neg hfit, decide_eq_false fun hnamed => ?_]
    have := congrArg List.length (show l.name.map toLower = field.map toLower from hnamed)
    rw [List.length_map, List.length_map] at this
    omega
  rw [if_pos hfit, caseInsensitiveEq_eq (Nat.le_of_lt hfit)]
  dsimp only
  by_cases hnamed : l.name.map toLower = field.map toLower
  · have hsame : l.name.length = field.length := by
      simpa using congrArg List.length hnamed
    have htake : (l.text ++ rest).take field.length = l.name := by
      rw [hsplit, ← hsame, List.take_left]
    have hbehind := @readAt_behind front (chSpace :: (l.body ++ [chNewline]) ++ rest) chColon l.name
    rw [← hsplit, hsame] at hbehind
    rw [htake, decide_eq_true hnamed, if_pos rfl, hbehind,
      decide_eq_true (p := l.Named field) hnamed]
    rfl
  rw [decide_eq_false (p := l.Named field) hnamed]
  by_cases htake : ((l.text ++ rest).take field.length).map toLower = field.map toLower
  swap
  · rw [decide_eq_false htake, if_neg Bool.false_ne_true]
  rw [decide_eq_true htake, if_pos rfl]
  -- what is behind as many characters as the field has is not the colon
  obtain ⟨d, tail, hd⟩ := List.exists_cons_of_ne_nil (l := (l.text ++ rest).drop field.length)
    (fun hnil => by have := List.drop_eq_nil_iff.1 hnil; omega)
  have hwhole : l.text ++ rest = (l.text ++ rest).take field.length ++ d :: tail := by
    rw [← hd, List.take_append_drop]
  have htakelen : ((l.text ++ rest).take field.length).length = field.length := by
    rw [List.length_take]
    omega
  have hbehind := @readAt_behind front tail d ((l.text ++ rest).take field.length)
  rw [← hwhole, htakelen] at hbehind
  rw [hbehind]
  refine congrArg Except.ok (beq_eq_false_iff_ne.2 fun hdcolon => hnamed ?_)
  have hno : chColon ∉ (l.text ++ rest).take field.length := fun hmem => by
    have hmap := List.mem_map_of_mem (f := toLower) hmem
    rw [htake] at hmap
    obtain ⟨c, hc, hlower⟩ := List.mem_map.1 hmap
    exact hfield (toLower_colon hlower ▸ hc)
  rw [hdcolon, hsplit] at hwhole
  rw [(first_eq hcolon (hsplit ▸ hno) hwhole).1, ← hsplit]
  exact htake

theorem headerSearch_line (l : HeaderLine) (hfield : chColon ∉ field) (hother : ¬l.Named field) :
    headerSearch (front ++ (l.text ++ rest)) (front ++ (l.text ++ rest)).length field
        (l.text.length + fuel) true front.length =
      if rest = [] then .ok none
      else headerSearch (front ++ (l.text ++ rest)) (front ++ (l.text ++ rest)).length field fuel
        true (front.length + l.text.length) := by
  have hfound := @fieldAt_line front rest field l hfield _ rfl
  rw [decide_eq_false hother] at hfound
  obtain ⟨first, t, htext, hfolded, -⟩ := l.text_eq
  have hmem : l.text ++ rest = first :: (t ++ chNewline :: rest) := by
    rw [htext]
    simp
  have hquiet : Quiet (first == chNewline) (t ++ [chNewline]) :=
    hfolded.2.quiet fun hnewline => hfolded.1 (beq_iff_eq.1 hnewline)
  have hlen : l.text.length = t.length + 2 := by
    rw [htext]
    simp
  have hrest := @headerSearch_quiet (front ++ [first]) rest field fuel (first == chNewline) t hquiet
  rw [hmem] at hfound ⊢
  rw [hlen, Nat.add_right_comm _ 2 fuel, headerSearch_step hfound, if_neg (by simp)]
  simp only [List.length_append, List.length_cons, List.length_nil, List.append_assoc,
    List.singleton_append, Nat.zero_add, Nat.add_assoc, Nat.add_comm 1] at hrest ⊢
  exact hrest

end Search

section Value

variable {front rest t : List ℕ} {fuel valueStart : ℕ}

theorem walkLine_eq (ht : chNewline ∉ t) (hfuel : t.length < fuel) :
    walkLine (front ++ (t ++ chNewline :: rest)) (front ++ (t ++ chNewline :: rest)).length fuel
      front.length = .ok (front.length + t.length) := by
  induction t generalizing front fuel with
  | nil =>
      obtain ⟨fuel, rfl⟩ := Nat.exists_eq_add_of_lt hfuel
      unfold walkLine
      rw [if_pos (by simp), List.nil_append, readAt_front]
      rfl
  | cons c t ih =>
      obtain ⟨fuel, rfl⟩ := Nat.exists_eq_add_of_lt hfuel
      rw [List.mem_cons, not_or] at ht
      have hrest := @ih (front ++ [c]) ((c :: t).length + fuel) ht.2
        (by rw [List.length_cons]; omega)
      unfold walkLine
      rw [if_pos (by simp), List.cons_append, readAt_front]
      dsimp only [bind, Except.bind]
      rw [if_pos (Ne.symm ht.1)]
      simp only [List.length_append, List.length_cons, List.length_nil, List.append_assoc,
        List.singleton_append, Nat.zero_add, Nat.add_assoc, Nat.add_comm 1] at hrest ⊢
      exact hrest

/-- The next line is not a continuation. -/
def Unfolded (rest : List ℕ) : Prop :=
  ∀ d tail, rest = d :: tail → d ≠ chSpace ∧ d ≠ chTab

theorem foldAt_unfolded {c : ℕ} (h : Unfolded rest) :
    foldAt (front ++ c :: rest) (front ++ c :: rest).length (front.length + 1) = .ok false := by
  unfold foldAt
  cases rest with
  | nil => exact if_neg (by simp)
  | cons d tail =>
      have hread := @readAt_behind front tail d [c]
      rw [List.length_singleton, List.singleton_append] at hread
      rw [if_pos (by simp), hread]
      refine congrArg Except.ok (Bool.or_eq_false_iff.2 ⟨?_, ?_⟩)
      · exact beq_eq_false_iff_ne.2 (h d tail rfl).1
      · exact beq_eq_false_iff_ne.2 (h d tail rfl).2

theorem foldAt_folded {c d : ℕ} (h : d = chSpace ∨ d = chTab) :
    foldAt (front ++ c :: d :: rest) (front ++ c :: d :: rest).length (front.length + 1) =
      .ok true := by
  have hread := @readAt_behind front rest d [c]
  rw [List.length_singleton, List.singleton_append] at hread
  unfold foldAt
  rw [if_pos (by simp), hread]
  refine congrArg Except.ok (Bool.or_eq_true_iff.2 ?_)
  exact h.imp beq_iff_eq.2 beq_iff_eq.2

theorem Folded.split {a b : List ℕ} (h : Folded (a ++ chNewline :: b)) :
    (∃ d tail, b = d :: tail ∧ (d = chSpace ∨ d = chTab)) ∧ Folded b := by
  induction a with
  | nil => exact ⟨h.1 rfl, h.2⟩
  | cons c a ih => exact ih h.2

theorem returnBefore_eq (hstart : valueStart < front.length) :
    returnBefore (front ++ rest) valueStart front.length =
      .ok (decide (front.getLast? = some chReturn)) := by
  obtain rfl | ⟨init, c, hfront⟩ := front.eq_nil_or_concat
  · exact absurd hstart (Nat.not_lt_zero _)
  rw [List.concat_eq_append] at hfront
  subst hfront
  have hread : readAt (init ++ [c] ++ rest) init.length = .ok c := by
    rw [List.append_assoc]
    exact readAt_front
  unfold returnBefore
  rw [if_pos hstart, List.length_append, List.length_singleton, Nat.add_sub_cancel, hread]
  refine congrArg Except.ok ?_
  rw [Bool.eq_iff_iff, beq_iff_eq, decide_eq_true_eq]
  simp

theorem valueScan_eq (ht : Folded t) (hrest : Unfolded rest) (hfuel : t.length < fuel)
    (hstart : valueStart < (front ++ t).length) (hle : valueStart ≤ front.length) :
    valueScan (front ++ (t ++ chNewline :: rest)) (front ++ (t ++ chNewline :: rest)).length
        valueStart fuel front.length =
      .ok (front.length + t.length + 1,
        if (front ++ t).getLast? = some chReturn then front.length + t.length - 1
        else front.length + t.length) := by
  induction fuel generalizing front t with
  | zero => omega
  | succ fuel ih =>
      have hmore : front.length < (front ++ (t ++ chNewline :: rest)).length := by
        simp only [List.length_append, List.length_cons]
        omega
      unfold valueScan
      by_cases hmem : chNewline ∈ t
      · obtain ⟨a, b, rfl, ha⟩ := List.eq_append_cons_of_mem hmem
        obtain ⟨⟨d, tail, rfl, hd⟩, hb⟩ := ht.split
        have hassoc : front ++ (a ++ chNewline :: d :: tail ++ chNewline :: rest) =
            front ++ (a ++ chNewline :: (d :: tail ++ chNewline :: rest)) := by simp
        have hassoc' : front ++ (a ++ chNewline :: (d :: tail ++ chNewline :: rest)) =
            front ++ a ++ chNewline :: d :: (tail ++ chNewline :: rest) := by simp
        have hwalk := @walkLine_eq front (d :: tail ++ chNewline :: rest) a
          ((front ++ (a ++ chNewline :: (d :: tail ++ chNewline :: rest))).length + 1) ha
          (by simp; omega)
        obtain ⟨saw, hsaw⟩ := @returnBefore_returns
          (front ++ (a ++ chNewline :: (d :: tail ++ chNewline :: rest)))
          (front.length + a.length) valueStart (by simp)
        have hfold := @foldAt_folded (front ++ a) (tail ++ chNewline :: rest) chNewline d hd
        have hnext := @ih (front ++ a ++ [chNewline]) (d :: tail) hb
          (by simp only [List.length_append, List.length_cons] at hfuel ⊢; omega)
          (by simpa using hstart) (by simp; omega)
        rw [if_pos hmore, hassoc, hwalk]
        dsimp only [bind, Except.bind]
        rw [if_neg (by simp), hsaw]
        dsimp only
        rw [← hassoc', show (front ++ a).length = front.length + a.length from List.length_append]
          at hfold
        rw [hfold]
        dsimp only
        have hmem' : front ++ a ++ [chNewline] ++ (d :: tail ++ chNewline :: rest) =
            front ++ (a ++ chNewline :: (d :: tail ++ chNewline :: rest)) := by simp
        have hwhole : front ++ a ++ [chNewline] ++ d :: tail =
            front ++ (a ++ chNewline :: d :: tail) := by simp
        have hpos : (front ++ a ++ [chNewline]).length = front.length + a.length + 1 := by
          rw [List.length_append, List.length_append, List.length_singleton]
        have hend : front.length + (a ++ chNewline :: d :: tail).length =
            front.length + a.length + 1 + (d :: tail).length := by
          simp only [List.length_append, List.length_cons]
          omega
        rw [hmem', hwhole, hpos] at hnext
        rw [if_pos rfl, hend, hnext]
      · have hwalk := @walkLine_eq front rest t
          ((front ++ (t ++ chNewline :: rest)).length + 1) hmem (by simp; omega)
        have hassoc : front ++ (t ++ chNewline :: rest) = front ++ t ++ chNewline :: rest := by simp
        have hfold := @foldAt_unfolded (front ++ t) rest chNewline hrest
        have hback := @returnBefore_eq (front ++ t) (chNewline :: rest) valueStart hstart
        have hpos : front.length + t.length = (front ++ t).length := by simp
        rw [if_pos hmore, hwalk]
        dsimp only [bind, Except.bind]
        rw [if_neg (by simp), hassoc, hpos, hback]
        dsimp only
        rw [hfold]
        dsimp only
        rw [if_neg Bool.false_ne_true]
        simp only [decide_eq_true_eq]

end Value

section Lookup

variable {front rest field : List ℕ} {lines skipped : List HeaderLine} {l : HeaderLine}
  {fuel : ℕ}

theorem HeaderLine.text_ne_nil (l : HeaderLine) : l.text ≠ [] := by
  unfold HeaderLine.text
  simp

theorem headerSearch_lines (hfield : chColon ∉ field) (hother : ∀ l ∈ skipped, ¬l.Named field)
    (hne : skipped ≠ []) :
    headerSearch (front ++ (blockText skipped ++ rest))
        (front ++ (blockText skipped ++ rest)).length field
        ((blockText skipped).length + fuel) true front.length =
      if rest = [] then .ok none
      else headerSearch (front ++ (blockText skipped ++ rest))
        (front ++ (blockText skipped ++ rest)).length field fuel true
        (front.length + (blockText skipped).length) := by
  induction skipped generalizing front with
  | nil => exact absurd rfl hne
  | cons l skipped ih =>
      obtain ⟨hl, htail⟩ := List.forall_mem_cons.1 hother
      have hcons : blockText (l :: skipped) = l.text ++ blockText skipped := List.flatMap_cons
      have hlen : (l.text ++ blockText skipped).length + fuel =
          l.text.length + ((blockText skipped).length + fuel) := by
        rw [List.length_append, Nat.add_assoc]
      rw [hcons, hlen, List.append_assoc, headerSearch_line l hfield hl]
      cases skipped with
      | nil => simp [blockText]
      | cons l' skipped =>
          have hnext := @ih (front ++ l.text) htail (List.cons_ne_nil l' skipped)
          have hnil : blockText (l' :: skipped) ++ rest ≠ [] := by
            unfold blockText
            rw [List.flatMap_cons]
            simp [l'.text_ne_nil]
          have hpos : (front ++ l.text).length = front.length + l.text.length :=
            List.length_append
          rw [hpos, List.append_assoc, Nat.add_assoc] at hnext
          have hsum : (l.text ++ blockText (l' :: skipped)).length =
              l.text.length + (blockText (l' :: skipped)).length := List.length_append
          rw [if_neg hnil, hnext, hsum]

theorem blockText_unfolded (lines : List HeaderLine) : Unfolded (blockText lines) := by
  intro d tail h
  cases lines with
  | nil => cases h
  | cons l lines =>
      obtain ⟨c, t, htext, -, hspace⟩ := l.text_eq
      have hcons : blockText (l :: lines) = l.text ++ blockText lines := List.flatMap_cons
      rw [hcons, htext] at h
      obtain ⟨rfl, -⟩ := List.cons.inj h
      refine ⟨?_, ?_⟩ <;> rintro rfl <;> cases hspace

theorem parseResponseHeader_none (hfield : chColon ∉ field) (hshort : field.length ≤ 0xfff)
    (hother : ∀ l ∈ lines, ¬l.Named field) :
    parseResponseHeader (blockText lines) (blockText lines).length field =
      .ok { ret := parseHttpNotFound, value := none } := by
  have hfound : findField (blockText lines) (blockText lines).length field = .ok none := by
    unfold findField
    by_cases hnil : lines = []
    · rw [hnil]
      rfl
    obtain ⟨l, tail, rfl⟩ := List.exists_cons_of_ne_nil hnil
    have hpos : (blockText (l :: tail)).length ≠ 0 := by
      unfold blockText
      rw [List.flatMap_cons]
      simp [l.text_ne_nil]
    have hsearch := @headerSearch_lines [] [] field (l :: tail) 1 hfield hother hnil
    rw [List.append_nil, List.nil_append, if_pos rfl] at hsearch
    rw [if_pos hpos]
    exact hsearch
  unfold parseResponseHeader
  rw [List.take_of_length_le hshort, hfound]
  rfl

theorem HeaderLine.body_last (l : HeaderLine) (front : List ℕ) :
    (if (front ++ l.body).getLast? = some chReturn then front.length + l.body.length - 1
      else front.length + l.body.length) = front.length + l.value.length := by
  obtain ⟨c, rest, hvalue, -⟩ := l.value_first
  unfold HeaderLine.body
  by_cases hcrlf : l.crlf = true
  · rw [if_pos hcrlf, if_pos (by simp), List.length_append, List.length_singleton]
    omega
  · have hlast := l.value_last.resolve_left hcrlf
    rw [if_neg hcrlf, List.append_nil, if_neg]
    rw [hvalue] at hlast ⊢
    rw [List.getLast?_append]
    cases hend : (c :: rest).getLast? with
    | none => simp at hend
    | some d =>
        rw [hend] at hlast
        rwa [Option.some_or]

theorem skipSpace_eq {c headerLen : ℕ} (hc : isAsciiSpace c = false)
    (hlen : headerLen = (front ++ chSpace :: c :: rest).length) (hfuel : 1 < fuel) :
    skipSpace (front ++ chSpace :: c :: rest) headerLen fuel front.length =
      .ok (front.length + 1) := by
  obtain ⟨fuel, rfl⟩ := Nat.exists_eq_add_of_lt hfuel
  have hread := @readAt_behind front rest c [chSpace]
  rw [List.length_singleton, List.singleton_append] at hread
  rw [Nat.add_comm 1 fuel, hlen]
  unfold skipSpace
  rw [if_pos (by simp), readAt_front]
  dsimp only [bind, Except.bind]
  rw [if_neg (by decide), if_neg (by decide)]
  unfold skipSpace
  rw [if_pos (by simp), hread]
  dsimp only [bind, Except.bind]
  rw [if_pos hc]

theorem findField_eq (hfield : chColon ∉ field) (hother : ∀ l ∈ skipped, ¬l.Named field)
    (hnamed : l.Named field) :
    findField (blockText skipped ++ (l.text ++ rest))
        (blockText skipped ++ (l.text ++ rest)).length field =
      .ok (some ((blockText skipped).length + l.name.length + 1)) := by
  have hsame : l.name.length = field.length := by
    simpa using congrArg List.length (show l.name.map toLower = field.map toLower from hnamed)
  have hhere : ∀ fuel, headerSearch (blockText skipped ++ (l.text ++ rest))
      (blockText skipped ++ (l.text ++ rest)).length field (fuel + 1) true
      (blockText skipped).length = .ok (some ((blockText skipped).length + field.length + 1)) := by
    intro fuel
    unfold headerSearch
    rw [fieldAt_line l hfield rfl, decide_eq_true hnamed]
    rfl
  have hne : l.text ++ rest ≠ [] := by simp [l.text_ne_nil]
  unfold findField
  rw [if_pos (by simp [l.text_ne_nil]), hsame]
  by_cases hnil : skipped = []
  · subst hnil
    exact hhere _
  · have hsearch := @headerSearch_lines [] (l.text ++ rest) field skipped
      ((l.text ++ rest).length + 1) hfield hother hnil
    rw [if_neg hne, List.nil_append, List.length_nil, Nat.zero_add, ← Nat.add_assoc,
      ← List.length_append] at hsearch
    rw [hsearch, hhere]

theorem parseResponseHeader_found (hfield : chColon ∉ field) (hshort : field.length ≤ 0xfff)
    (hother : ∀ l ∈ skipped, ¬l.Named field) (hnamed : l.Named field) :
    parseResponseHeader (blockText skipped ++ (l.text ++ blockText lines))
        (blockText skipped ++ (l.text ++ blockText lines)).length field =
      .ok {
        ret := toInt32 ((blockText skipped).length + l.text.length)
        value := some ((blockText skipped).length + l.name.length + 2, l.value.length) } := by
  obtain ⟨c, tail, hvalue, hc⟩ := l.value_first
  have hbody : ∃ tail, l.body = c :: tail := by
    unfold HeaderLine.body
    rw [hvalue]
    exact ⟨_, rfl⟩
  obtain ⟨bodytail, hbody⟩ := hbody
  have hfind := @findField_eq (blockText lines) field skipped l hfield hother hnamed
  have hskip := @skipSpace_eq (blockText skipped ++ l.name ++ [chColon])
    (bodytail ++ [chNewline] ++ blockText lines)
    ((blockText skipped ++ (l.text ++ blockText lines)).length + 1) c
    (blockText skipped ++ (l.text ++ blockText lines)).length hc
    (by unfold HeaderLine.text; rw [hbody]; simp)
    (by unfold HeaderLine.text; simp only [List.length_append, List.length_cons]; omega)
  have hscan := @valueScan_eq (blockText skipped ++ l.name ++ [chColon, chSpace])
    (blockText lines) l.body ((blockText skipped ++ (l.text ++ blockText lines)).length + 1)
    (blockText skipped ++ l.name ++ [chColon, chSpace]).length l.body_folded
    (blockText_unfolded lines)
    (by unfold HeaderLine.text; simp only [List.length_append, List.length_cons]; omega)
    (by rw [hbody]; simp) (Nat.le_refl _)
  have hmem : blockText skipped ++ l.name ++ [chColon] ++
      chSpace :: c :: (bodytail ++ [chNewline] ++ blockText lines) =
      blockText skipped ++ (l.text ++ blockText lines) := by
    unfold HeaderLine.text
    rw [hbody]
    simp
  have hmem' : blockText skipped ++ l.name ++ [chColon, chSpace] ++
      (l.body ++ chNewline :: blockText lines) =
      blockText skipped ++ (l.text ++ blockText lines) := by
    unfold HeaderLine.text
    simp
  have hpos : (blockText skipped ++ l.name ++ [chColon]).length =
      (blockText skipped).length + l.name.length + 1 := by
    rw [List.length_append, List.length_append]
    rfl
  have hpos' : (blockText skipped ++ l.name ++ [chColon, chSpace]).length =
      (blockText skipped).length + l.name.length + 2 := by
    rw [List.length_append, List.length_append]
    rfl
  have htext : l.text.length = l.name.length + 2 + l.body.length + 1 := by
    unfold HeaderLine.text
    simp only [List.length_append, List.length_cons, List.length_nil]
    omega
  rw [hmem, hpos] at hskip
  rw [hmem', l.body_last, hpos'] at hscan
  have hvaluelen : l.value.length ≠ 0 := by rw [hvalue]; simp
  unfold parseResponseHeader
  rw [List.take_of_length_le hshort, hfind]
  dsimp only [bind, Except.bind]
  rw [hskip]
  dsimp only
  unfold valueEnds
  rw [if_pos (by simp only [List.length_append]; omega), hscan]
  dsimp only
  unfold headerResult
  rw [if_neg (by omega), htext]
  congr 2
  · congr 1
    omega
  · congr 2
    omega

def namedValues (lines : List HeaderLine) (field : List ℕ) : List (List ℕ) :=
  (lines.filter fun l => decide (l.Named field)).map HeaderLine.value

/-- An `int` holds the advance of each lookup, from `distance` characters in front of the lines or
from behind the value before to the end of the next value. -/
def AdvancesFit (field : List ℕ) : ℕ → List HeaderLine → Prop
  | _, [] => True
  | distance, l :: lines =>
      if l.Named field then
        distance + l.text.length < 0x80000000 ∧ AdvancesFit field 0 lines
      else AdvancesFit field (distance + l.text.length) lines

theorem AdvancesFit.split {distance : ℕ} (h : AdvancesFit field distance (skipped ++ l :: lines))
    (hother : ∀ l ∈ skipped, ¬l.Named field) (hnamed : l.Named field) :
    distance + (blockText skipped).length + l.text.length < 0x80000000 ∧
      AdvancesFit field 0 lines := by
  induction skipped generalizing distance with
  | nil =>
      rw [List.nil_append, AdvancesFit, if_pos hnamed] at h
      exact h
  | cons l' skipped ih =>
      obtain ⟨hl', hskipped⟩ := List.forall_mem_cons.1 hother
      rw [List.cons_append, AdvancesFit, if_neg hl'] at h
      obtain ⟨hlt, hrest⟩ := ih h hskipped
      refine ⟨?_, hrest⟩
      have hlen : (blockText (l' :: skipped)).length =
          l'.text.length + (blockText skipped).length := List.length_append
      omega

theorem toInt32_eq {n : ℕ} (h : n < 0x80000000) : toInt32 n = n := by
  unfold toInt32
  rw [if_pos (by omega)]
  omega

theorem blockText_append (lines lines' : List HeaderLine) :
    blockText (lines ++ lines') = blockText lines ++ blockText lines' := List.flatMap_append

theorem first_named (lines : List HeaderLine) (field : List ℕ) :
    (∀ l ∈ lines, ¬l.Named field) ∨ ∃ skipped l rest, lines = skipped ++ l :: rest ∧
      (∀ l ∈ skipped, ¬l.Named field) ∧ l.Named field := by
  induction lines with
  | nil => exact .inl fun l hl => absurd hl List.not_mem_nil
  | cons l lines ih =>
      by_cases hnamed : l.Named field
      · exact .inr ⟨[], l, lines, rfl, fun l hl => absurd hl List.not_mem_nil, hnamed⟩
      obtain hnone | ⟨skipped, l', rest, rfl, hskipped, hl'⟩ := ih
      · exact .inl (List.forall_mem_cons.2 ⟨hnamed, hnone⟩)
      · exact .inr ⟨l :: skipped, l', rest, rfl, List.forall_mem_cons.2 ⟨hnamed, hskipped⟩, hl'⟩

theorem headerValues_eq (hfield : chColon ∉ field) (hshort : field.length ≤ 0xfff)
    (hlen : AdvancesFit field 0 lines) (hfuel : lines.length < fuel) :
    headerValues field fuel (blockText lines) = .ok (namedValues lines field) := by
  induction fuel generalizing lines with
  | zero => omega
  | succ fuel ih =>
      unfold headerValues
      obtain hnone | ⟨skipped, l, rest, rfl, hskipped, hnamed⟩ := first_named lines field
      · rw [parseResponseHeader_none hfield hshort hnone]
        dsimp only [bind, Except.bind]
        rw [if_pos rfl, namedValues, List.filter_eq_nil_iff.2 (by simpa using hnone)]
        rfl
      have hsplit : blockText (skipped ++ l :: rest) =
          blockText skipped ++ (l.text ++ blockText rest) := by
        rw [blockText_append]
        rfl
      rw [hsplit]
      obtain ⟨hwhole, hrest⟩ := hlen.split hskipped hnamed
      rw [Nat.zero_add] at hwhole
      have hend : (blockText skipped ++ (l.text ++ blockText rest)).drop
          ((blockText skipped).length + l.text.length) = blockText rest := by
        rw [← List.append_assoc, ← List.length_append, List.drop_left]
      have hstart : ((blockText skipped ++ (l.text ++ blockText rest)).drop
          ((blockText skipped).length + l.name.length + 2)).take l.value.length = l.value := by
        have hpos : (blockText skipped).length + l.name.length + 2 =
            (blockText skipped ++ l.name ++ [chColon, chSpace]).length := by
          rw [List.length_append, List.length_append]
          rfl
        have hmem : blockText skipped ++ (l.text ++ blockText rest) =
            blockText skipped ++ l.name ++ [chColon, chSpace] ++ (l.value ++
              ((if l.crlf = true then [chReturn] else []) ++ chNewline :: blockText rest)) := by
          unfold HeaderLine.text HeaderLine.body
          simp
        rw [hpos, hmem, List.drop_left, List.take_left]
      rw [parseResponseHeader_found hfield hshort hskipped hnamed]
      dsimp only [bind, Except.bind, HeaderResult.slice]
      rw [toInt32_eq hwhole, if_neg (by unfold parseHttpNotFound; omega), if_neg (by omega),
        Int.toNat_natCast, hend, hstart, ih hrest (by simp only [List.length_append, List.length_cons] at hfuel; omega)]
      dsimp only
      have hfilter :
          namedValues (skipped ++ l :: rest) field = l.value :: namedValues rest field := by
        unfold namedValues
        rw [List.filter_append, List.filter_eq_nil_iff.2 (by simpa using hskipped),
          List.nil_append, List.filter_cons_of_pos (by simpa using hnamed), List.map_cons]
      rw [hfilter]

/-- Lookups of a name that is not longer than what is compared find its values in order, if an
`int` can tell how far each of them advances; and a lookup stays within any header. -/
theorem header_values_in_order (hfield : chColon ∉ field) (hshort : field.length ≤ 0xfff)
    (hlen : AdvancesFit field 0 lines) :
    headerValues field (lines.length + 1) (blockText lines) = .ok (namedValues lines field) ∧
      ∀ header behind fieldStr : List ℕ,
        (∃ r, parseResponseHeader header header.length fieldStr = .ok r) ∧
        ∃ r, parseResponseHeader (header ++ behind) header.length fieldStr = .ok r ∧
          r.ret ≤ header.length ∧
          ∀ start len, r.value = some (start, len) → start + len ≤ header.length := by
  refine ⟨headerValues_eq hfield hshort hlen (Nat.lt_succ_self _), fun header behind fieldStr =>
    ⟨?_, parseResponseHeader_bounds (by simp)⟩⟩
  obtain ⟨r, hr, -⟩ := @parseResponseHeader_bounds header fieldStr header.length (Nat.le_refl _)
  exact ⟨r, hr⟩

/-- `a: v` and `A: w`, folded. -/
def twoLines : List HeaderLine :=
  [{ name := [0x61], value := [0x76], crlf := true
     name_plain := by decide
     value_first := ⟨0x76, [], rfl, rfl⟩
     value_folded := Folded.of_not_mem (by decide)
     value_last := .inl rfl },
   { name := [0x41], value := [0x77, 0x0a, 0x20], crlf := false
     name_plain := by decide
     value_first := ⟨0x77, _, rfl, rfl⟩
     value_folded := ⟨fun h => absurd h (by decide), fun _ => ⟨0x20, [], rfl, .inl rfl⟩,
       fun h => absurd h (by decide), trivial⟩
     value_last := .inr (by decide) }]

theorem header_values_in_order_twoLines :
    (chColon ∉ [0x61] ∧ [0x61].length ≤ 0xfff ∧ AdvancesFit [0x61] 0 twoLines) ∧
      headerValues [0x61] 3 (blockText twoLines) = .ok [[0x76], [0x77, 0x0a, 0x20]] :=
  have hfit : AdvancesFit [0x61] 0 twoLines := by simp [twoLines, AdvancesFit, HeaderLine.Named,
    HeaderLine.text, HeaderLine.body, toLower]
  ⟨⟨by decide, by decide, hfit⟩, (header_values_in_order (by decide) (by decide) hfit).1⟩

/-- A name of one character more than is compared. -/
def longName : List ℕ := List.replicate 0x1000 0x61

def longNameLine : HeaderLine where
  name := longName
  value := [0x76]
  crlf := true
  name_plain c hc := by
    obtain rfl := List.eq_of_mem_replicate hc
    decide
  value_first := ⟨0x76, [], rfl, rfl⟩
  value_folded := Folded.of_not_mem (by decide)
  value_last := .inl rfl

def longValueLine (n : ℕ) : HeaderLine where
  name := [0x61]
  value := 0x76 :: List.replicate n 0x76
  crlf := true
  name_plain := by decide
  value_first := ⟨0x76, _, rfl, rfl⟩
  value_folded := Folded.of_not_mem fun hmem => by
    obtain heq | hmem := List.mem_cons.1 hmem
    · cases heq
    · exact absurd (List.eq_of_mem_replicate hmem) (by decide)
  value_last := .inl rfl

theorem headerValues_negative {n calls : ℕ} (hneg : toInt32 (n + 6) < 0)
    (hne : toInt32 (n + 6) ≠ parseHttpNotFound) :
    headerValues [0x61] (calls + 1) (blockText [longValueLine n]) = .error .undefined := by
  have hnamed : (longValueLine n).Named [0x61] := rfl
  have hlen : (longValueLine n).text.length = n + 6 := by
    unfold HeaderLine.text HeaderLine.body longValueLine
    simp only [List.length_append, List.length_cons, List.length_nil, List.length_replicate,
      if_true]
    omega
  have hmem : blockText [longValueLine n] =
      blockText [] ++ ((longValueLine n).text ++ blockText []) := by
    simp [blockText]
  have hfound := @parseResponseHeader_found [0x61] [] [] (longValueLine n) (by decide) (by decide)
    (fun l hl => absurd hl List.not_mem_nil) hnamed
  unfold headerValues
  rw [hmem, hfound, hlen]
  dsimp only [bind, Except.bind]
  rw [show (blockText []).length + (n + 6) = n + 6 from Nat.zero_add _, if_neg hne, if_pos hneg]

/-- A longer name is not found, and behind a longer value no lookup begins. -/
theorem header_values_missed :
    (headerValues longName 2 (blockText [longNameLine]) = .ok [] ∧
      namedValues [longNameLine] longName = [[0x76]]) ∧
    headerValues [0x61] 2 (blockText [longValueLine 0x80000000]) = .error .undefined := by
  refine ⟨⟨?_, ?_⟩, ?_⟩
  · have hcut : ∀ mem headerLen, parseResponseHeader mem headerLen longName =
        parseResponseHeader mem headerLen (longName.take 0xfff) := fun mem headerLen => by
      unfold parseResponseHeader
      rw [List.take_take, Nat.min_self]
    have hother : ∀ l ∈ [longNameLine], ¬l.Named (longName.take 0xfff) := by
      intro l hl hnamed
      obtain rfl := List.mem_singleton.1 hl
      have hsame := congrArg List.length
        (show longName.map toLower = (longName.take 0xfff).map toLower from hnamed)
      rw [List.length_map, List.length_map, List.length_take, longName,
        List.length_replicate] at hsame
      omega
    have hcolon : chColon ∉ longName.take 0xfff := fun hmem =>
      absurd (List.eq_of_mem_replicate (List.mem_of_mem_take hmem)) (by decide)
    unfold headerValues
    rw [hcut, parseResponseHeader_none hcolon (by rw [List.length_take]; omega) hother]
    rfl
  · have hnamed : longNameLine.Named longName := rfl
    unfold namedValues
    rw [List.filter_cons, if_pos (decide_eq_true hnamed)]
    rfl
  · exact headerValues_negative (by decide) (by decide)

end Lookup

end OrbitConsole.Network
