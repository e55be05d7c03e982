import Mathlib.Data.List.GetD
import OrbitConsole.Core.Network.StatusLine

/-!
# Where a status line is left

The digits of a version and the search for the newline are not compared with the length. A
line that ends among them is read behind its end; every other line is parsed as it is written.
-/

namespace OrbitConsole.Network

section Reading

variable {front tail : List ℕ} {c : ℕ}

theorem readAt_front : readAt (front ++ c :: tail) front.length = .ok c := by
  unfold readAt
  rw [if_pos (by simp), List.getD_eq_getElem?_getD, List.getElem?_append_right (Nat.le_refl _)]
  simp

theorem readAt_behind (known : List ℕ) :
    readAt (front ++ (known ++ c :: tail)) (front.length + known.length) = .ok c := by
  have hread := @readAt_front (front ++ known) tail c
  rwa [List.length_append, List.append_assoc] at hread

theorem readAt_end : readAt front front.length = .error .undefined :=
  if_neg (Nat.lt_irrefl _)

theorem first_eq {a : ℕ} {xs ys s t : List ℕ} (hx : a ∉ xs) (hy : a ∉ ys)
    (h : xs ++ a :: s = ys ++ a :: t) : xs = ys ∧ s = t := by
  induction xs generalizing ys with
  | nil =>
      cases ys with
      | nil => exact ⟨rfl, (List.cons.inj h).2⟩
      | cons y ys => exact absurd ((List.cons.inj h).1 ▸ List.mem_cons_self) hy
  | cons x xs ih =>
      cases ys with
      | nil => exact absurd ((List.cons.inj h).1 ▸ List.mem_cons_self) hx
      | cons y ys =>
          obtain ⟨rfl, htail⟩ := List.cons.inj h
          obtain ⟨rfl, rfl⟩ := ih (fun hm => hx (List.mem_cons_of_mem _ hm))
            (fun hm => hy (List.mem_cons_of_mem _ hm)) htail
          exact ⟨rfl, rfl⟩

end Reading

section Digits

def Digits (ds : List ℕ) : Prop := ∀ c ∈ ds, isDigit c = true

/-- The number that digits are read as, behind those of `value`. -/
def decimalFrom (value : ℕ) (ds : List ℕ) : ℕ :=
  ds.foldl (fun value d => value * 10 + (d - 0x30)) value

theorem decimalFrom_cons (value d : ℕ) (ds : List ℕ) :
    decimalFrom value (d :: ds) = decimalFrom (value * 10 + (d - 0x30)) ds := by
  unfold decimalFrom
  rw [List.foldl_cons]

theorem decimalFrom_le (value : ℕ) (ds : List ℕ) : value ≤ decimalFrom value ds := by
  induction ds generalizing value with
  | nil => exact Nat.le_refl _
  | cons d ds ih =>
      rw [decimalFrom_cons]
      exact Nat.le_trans (by omega) (ih (value * 10 + (d - 0x30)))

theorem isDigit_lt {c : ℕ} (h : isDigit c = true) : c < 0x80 := by
  simp only [isDigit, Bool.and_eq_true, decide_eq_true_eq] at h
  omega

theorem digits_cases (l : List ℕ) : ∃ ds, Digits ds ∧
    (l = ds ∨ ∃ c tail, isDigit c = false ∧ l = ds ++ c :: tail) := by
  induction l with
  | nil => exact ⟨[], fun c hc => absurd hc List.not_mem_nil, .inl rfl⟩
  | cons d l ih =>
      by_cases hd : isDigit d = true
      swap
      · exact ⟨[], fun c hc => absurd hc List.not_mem_nil,
          .inr ⟨d, l, Bool.eq_false_iff.2 hd, rfl⟩⟩
      obtain ⟨ds, hds, hl | ⟨c, tail, hc, hl⟩⟩ := ih
      · exact ⟨d :: ds, List.forall_mem_cons.2 ⟨hd, hds⟩, .inl (by rw [hl])⟩
      · exact ⟨d :: ds, List.forall_mem_cons.2 ⟨hd, hds⟩, .inr ⟨c, tail, hc, by rw [hl]; rfl⟩⟩

variable {front ds tail : List ℕ} {d c value fuel : ℕ}

theorem versionLoop_step (hd : isDigit d = true) {next : ℕ}
    (hfit : value * 10 + (d - 0x30) ≤ int32Max) :
    versionLoop (front ++ d :: next :: tail) (fuel + 1) front.length d value =
      if 0x80 ≤ next then .ok (value * 10 + (d - 0x30), front.length + 1, true)
      else versionLoop (front ++ d :: next :: tail) fuel (front.length + 1) next
        (value * 10 + (d - 0x30)) := by
  have hnext : readAt (front ++ d :: next :: tail) (front.length + 1) = .ok next := by
    have hread := @readAt_front (front ++ [d]) tail next
    rwa [List.length_append, List.length_singleton, List.append_assoc,
      List.singleton_append] at hread
  conv_lhs => unfold versionLoop
  rw [if_pos hd, readAt_front]
  dsimp only [bind, Except.bind]
  rw [if_neg (by omega), hnext]

theorem versionLoop_ok (hds : Digits (d :: ds)) (hc : isDigit c = false)
    (hfit : decimalFrom value (d :: ds) ≤ int32Max) (hfuel : ds.length + 1 < fuel) :
    versionLoop (front ++ d :: (ds ++ c :: tail)) fuel front.length d value =
      .ok (decimalFrom value (d :: ds), front.length + ds.length + 1, decide (0x80 ≤ c)) := by
  induction ds generalizing front d value fuel with
  | nil =>
      obtain ⟨fuel, rfl⟩ := Nat.exists_eq_add_of_lt hfuel
      simp only [List.length_nil, Nat.zero_add, List.nil_append, Nat.add_zero]
      rw [Nat.add_comm 1 fuel, versionLoop_step (hds d List.mem_cons_self) hfit]
      by_cases hhigh : 0x80 ≤ c
      · rw [if_pos hhigh, decide_eq_true hhigh]
        rfl
      · rw [if_neg hhigh, decide_eq_false hhigh]
        unfold versionLoop
        rw [hc, if_neg Bool.false_ne_true]
        rfl
  | cons d' ds ih =>
      obtain ⟨hd, hds'⟩ := List.forall_mem_cons.1 hds
      obtain ⟨fuel, rfl⟩ := Nat.exists_eq_add_of_lt hfuel
      rw [decimalFrom_cons] at hfit ⊢
      have hfirst := Nat.le_trans (decimalFrom_le (value * 10 + (d - 0x30)) (d' :: ds)) hfit
      have hlt := isDigit_lt (hds' d' List.mem_cons_self)
      rw [show (d' :: ds).length + 1 + fuel + 1 = (ds.length + 2 + fuel) + 1 from rfl,
        List.cons_append, versionLoop_step hd hfirst, if_neg (by omega)]
      have hrest := @ih (front ++ [d]) d' (value * 10 + (d - 0x30)) (ds.length + 2 + fuel) hds'
        hfit (by omega)
      rw [List.length_append, List.length_singleton, List.append_assoc,
        List.singleton_append] at hrest
      rw [hrest, List.length_cons]
      congr 3
      omega

theorem versionLoop_stuck (hds : Digits (d :: ds))
    (h : tail = [] ∨ int32Max < decimalFrom value (d :: ds)) :
    versionLoop (front ++ d :: (ds ++ tail)) (fuel + ds.length + 1) front.length d value =
      .error .undefined := by
  induction ds generalizing front d value fuel with
  | nil =>
      unfold versionLoop
      rw [if_pos (hds d List.mem_cons_self), readAt_front]
      dsimp only [bind, Except.bind]
      by_cases hbig : int32Max < value * 10 + (d - 0x30)
      · rw [if_pos hbig]
      obtain rfl := h.resolve_right hbig
      have hend := @readAt_end (front ++ [d])
      rw [List.length_append, List.length_singleton] at hend
      rw [if_neg hbig, List.nil_append, hend]
  | cons d' ds ih =>
      obtain ⟨hd, hds'⟩ := List.forall_mem_cons.1 hds
      by_cases hbig : int32Max < value * 10 + (d - 0x30)
      · unfold versionLoop
        rw [if_pos hd, readAt_front]
        dsimp only [bind, Except.bind]
        rw [if_pos hbig]
      have hlt := isDigit_lt (hds' d' List.mem_cons_self)
      rw [decimalFrom_cons] at h
      have hrest := @ih (front ++ [d]) d' (value * 10 + (d - 0x30)) fuel hds' h
      rw [List.length_append, List.length_singleton, List.append_assoc,
        List.singleton_append] at hrest
      rw [List.length_cons, ← Nat.add_assoc, List.cons_append,
        versionLoop_step hd (Nat.le_of_not_lt hbig), if_neg (by omega), hrest]

end Digits

section Newline

variable {front text tail : List ℕ} {phraseStart maxScan fuel scanLen : ℕ}

theorem newlineScan_ok (hfront : front.length = phraseStart + scanLen)
    (hmax : scanLen + text.length ≤ maxScan) (hfuel : text.length < fuel)
    (htext : chNewline ∉ text) :
    newlineScan (front ++ (text ++ chNewline :: tail)) phraseStart maxScan fuel scanLen =
      .ok (some (scanLen + text.length)) := by
  induction text generalizing front fuel scanLen with
  | nil =>
      obtain ⟨fuel, rfl⟩ := Nat.exists_eq_add_of_lt hfuel
      unfold newlineScan
      rw [if_pos (Nat.le_trans (Nat.le_add_right _ _) hmax), ← hfront, List.nil_append,
        readAt_front]
      dsimp only [bind, Except.bind]
      rw [if_neg (not_not.2 rfl)]
      rfl
  | cons c text ih =>
      obtain ⟨fuel, rfl⟩ := Nat.exists_eq_add_of_lt hfuel
      rw [List.mem_cons, not_or] at htext
      rw [List.length_cons] at hmax
      unfold newlineScan
      rw [if_pos (by omega), ← hfront, List.cons_append, readAt_front]
      dsimp only [bind, Except.bind]
      have hrest := @ih (front ++ [c]) ((c :: text).length + fuel) (scanLen + 1)
        (by rw [List.length_append, List.length_singleton]; omega) (by omega)
        (by rw [List.length_cons]; omega) htext.2
      rw [List.append_assoc, List.singleton_append] at hrest
      rw [if_pos (Ne.symm htext.1), hrest, List.length_cons]
      congr 2
      omega

theorem newlineScan_end (hfront : front.length = phraseStart + scanLen)
    (hmax : scanLen + text.length ≤ maxScan) (hfuel : text.length < fuel)
    (htext : chNewline ∉ text) :
    newlineScan (front ++ text) phraseStart maxScan fuel scanLen = .error .undefined := by
  induction text generalizing front fuel scanLen with
  | nil =>
      obtain ⟨fuel, rfl⟩ := Nat.exists_eq_add_of_lt hfuel
      unfold newlineScan
      rw [if_pos (Nat.le_trans (Nat.le_add_right _ _) hmax), ← hfront, List.append_nil,
        readAt_end]
      rfl
  | cons c text ih =>
      obtain ⟨fuel, rfl⟩ := Nat.exists_eq_add_of_lt hfuel
      rw [List.mem_cons, not_or] at htext
      rw [List.length_cons] at hmax
      unfold newlineScan
      rw [if_pos (by omega), ← hfront, readAt_front]
      dsimp only [bind, Except.bind]
      have hrest := @ih (front ++ [c]) ((c :: text).length + fuel) (scanLen + 1)
        (by rw [List.length_append, List.length_singleton]; omega) (by omega)
        (by rw [List.length_cons]; omega) htext.2
      rw [List.append_assoc, List.singleton_append] at hrest
      rw [if_pos (Ne.symm htext.1), hrest]

def phraseOf (text : List ℕ) : List ℕ :=
  if text.getLast? = some chReturn then text.dropLast else text

theorem phraseLength_eq :
    phraseLength (front ++ (text ++ tail)) front.length text.length =
      .ok (phraseOf text).length := by
  unfold phraseLength phraseOf
  obtain rfl | ⟨init, c, htext⟩ := text.eq_nil_or_concat
  · rfl
  rw [List.concat_eq_append] at htext
  subst htext
  have hlast := @readAt_behind front tail c init
  have hassoc : init ++ [c] ++ tail = init ++ c :: tail := by simp
  rw [List.length_append, List.length_singleton, if_neg (Nat.succ_ne_zero _), hassoc,
    ← Nat.add_assoc, Nat.add_sub_cancel, hlast]
  dsimp only [bind, Except.bind]
  rw [List.getLast?_append, List.getLast?_singleton, Option.some_or]
  by_cases hreturn : c = chReturn
  · rw [if_pos hreturn, if_pos (by rw [hreturn]), List.dropLast_concat]
    rfl
  · rw [if_neg hreturn, if_neg fun h => hreturn (Option.some.inj h), List.length_append]
    rfl

end Newline

section Code

variable {front suffix behind : List ℕ} {out : StatusOut}

def CodeEnds (suffix : List ℕ) : Prop :=
  ∃ c₀ c₁ c₂ text, suffix = c₀ :: c₁ :: c₂ :: text ∧ Digits [c₀, c₁, c₂] ∧ chNewline ∉ text

theorem code_cases (suffix : List ℕ) :
    suffix.length < 3 ∨ ∃ c₀ c₁ c₂ text, suffix = c₀ :: c₁ :: c₂ :: text := by
  obtain _ | ⟨c₀, _ | ⟨c₁, _ | ⟨c₂, text⟩⟩⟩ := suffix
  · exact .inl (by decide)
  · exact .inl (by simp)
  · exact .inl (by simp)
  · exact .inr ⟨c₀, c₁, c₂, text, rfl⟩

theorem statusCode_digits {c₀ c₁ c₂ : ℕ} {text : List ℕ} {lineLen : ℕ}
    (hlen : 3 ≤ sub64 lineLen front.length) :
    statusCode (front ++ c₀ :: c₁ :: c₂ :: text) lineLen front.length out =
      if (isDigit c₀ && isDigit c₁ && isDigit c₂) = true then
        statusPhrase (front ++ c₀ :: c₁ :: c₂ :: text) (front.length + 3)
          (sub64 lineLen front.length - 3)
          { out with responseCode := (c₀ - 0x30) * 100 + (c₁ - 0x30) * 10 + (c₂ - 0x30) }
      else .ok (parseHttpInvalidResponse, out) := by
  have h₀ : readAt (front ++ c₀ :: c₁ :: c₂ :: text) front.length = .ok c₀ := readAt_front
  have h₁ : readAt (front ++ c₀ :: c₁ :: c₂ :: text) (front.length + 1) = .ok c₁ :=
    readAt_behind [c₀]
  have h₂ : readAt (front ++ c₀ :: c₁ :: c₂ :: text) (front.length + 2) = .ok c₂ :=
    readAt_behind [c₀, c₁]
  conv_lhs => unfold statusCode
  dsimp only
  rw [if_neg (by omega), h₀]
  dsimp only [bind, Except.bind]
  cases hd₀ : isDigit c₀ with
  | false => rfl
  | true =>
  rw [if_neg (by simp), h₁]
  dsimp only
  cases hd₁ : isDigit c₁ with
  | false => rfl
  | true =>
  rw [if_neg (by simp), h₂]
  dsimp only
  cases hd₂ : isDigit c₂ with
  | false => rfl
  | true => rfl

/-- What a call from `front` on comes to: it rejects the line, or accepts one of the given
length with the given results. -/
def Ends (x : Exec (ℤ × StatusOut)) (accepted : ℕ → StatusOut → Prop) : Prop :=
  (∃ out, x = .ok (parseHttpInvalidResponse, out)) ∨
    ∃ n out, x = .ok (toInt32 n, out) ∧ accepted n out

theorem Ends.mono {x : Exec (ℤ × StatusOut)} {accepted accepted' : ℕ → StatusOut → Prop}
    (h : Ends x accepted) (himp : ∀ n out, accepted n out → accepted' n out) :
    Ends x accepted' := by
  obtain hrejected | ⟨n, out, hx, haccepted⟩ := h
  · exact .inl hrejected
  · exact .inr ⟨n, out, hx, himp n out haccepted⟩

def AcceptedCode (front suffix : List ℕ) (out : StatusOut) (n : ℕ) (out' : StatusOut) : Prop :=
  ∃ code text tail, suffix = code ++ (text ++ chNewline :: tail) ∧ code.length = 3 ∧
    Digits code ∧ chNewline ∉ text ∧ n = front.length + 3 + text.length + 1 ∧
    out' = { out with
      responseCode := decimalFrom 0 code
      reasonPhrase := front.length + 3
      phraseLen := (phraseOf text).length }

theorem statusCode_accepts {c₀ c₁ c₂ : ℕ} {text tail : List ℕ} {lineLen : ℕ}
    (hlen : sub64 lineLen front.length = 3 + (text ++ chNewline :: tail).length)
    (hcode : Digits [c₀, c₁, c₂]) (htext : chNewline ∉ text) :
    statusCode (front ++ c₀ :: c₁ :: c₂ :: (text ++ chNewline :: (tail ++ behind))) lineLen
        front.length out =
      .ok (toInt32 (front.length + 3 + text.length + 1), { out with
        responseCode := decimalFrom 0 [c₀, c₁, c₂]
        reasonPhrase := front.length + 3
        phraseLen := (phraseOf text).length }) := by
  have hdigits : (isDigit c₀ && isDigit c₁ && isDigit c₂) = true := by
    simp only [Bool.and_eq_true]
    simpa [Digits, and_assoc] using hcode
  have hfront : (front ++ [c₀, c₁, c₂]).length = front.length + 3 := by simp
  have hassoc : front ++ c₀ :: c₁ :: c₂ :: (text ++ chNewline :: (tail ++ behind)) =
      front ++ [c₀, c₁, c₂] ++ (text ++ chNewline :: (tail ++ behind)) := by simp
  have hvalue : (c₀ - 0x30) * 100 + (c₁ - 0x30) * 10 + (c₂ - 0x30) =
      decimalFrom 0 [c₀, c₁, c₂] := by
    unfold decimalFrom
    simp only [List.foldl_cons, List.foldl_nil]
    omega
  rw [statusCode_digits (by rw [hlen]; omega), if_pos hdigits]
  unfold statusPhrase
  rw [hlen, hassoc, ← hfront, hvalue, newlineScan_ok rfl (by simp) (by simp; omega) htext]
  dsimp only [bind, Except.bind]
  rw [Nat.zero_add, phraseLength_eq]

theorem statusCode_ends (hfits : front.length + suffix.length < 18446744073709551616)
    (h : ¬CodeEnds suffix) :
    Ends (statusCode (front ++ (suffix ++ behind)) (front.length + suffix.length) front.length out)
      (AcceptedCode front suffix out) := by
  have hsub : sub64 (front.length + suffix.length) front.length = suffix.length := by
    rw [sub64_eq (Nat.le_add_right _ _) hfits, Nat.add_sub_cancel_left]
  obtain hshort | ⟨c₀, c₁, c₂, text, rfl⟩ := code_cases suffix
  · refine .inl ⟨out, ?_⟩
    unfold statusCode
    dsimp only
    rw [hsub, if_pos hshort]
  by_cases hdigits : (isDigit c₀ && isDigit c₁ && isDigit c₂) = true
  swap
  · refine .inl ⟨out, ?_⟩
    rw [List.cons_append, List.cons_append, List.cons_append,
      statusCode_digits (by rw [hsub]; simp), if_neg hdigits]
  have hcode : Digits [c₀, c₁, c₂] := by
    simp only [Bool.and_eq_true] at hdigits
    simpa [Digits, and_assoc] using hdigits
  have hmem : chNewline ∈ text := by
    by_contra hnone
    exact h ⟨c₀, c₁, c₂, text, rfl, hcode, hnone⟩
  obtain ⟨phrase, tail, rfl, hphrase⟩ := List.eq_append_cons_of_mem hmem
  refine .inr ⟨_, _, ?_, [c₀, c₁, c₂], phrase, tail, rfl, rfl, hcode, hphrase, rfl, rfl⟩
  have haccepts := @statusCode_accepts front behind out c₀ c₁ c₂ phrase tail _
    (by rw [hsub]; simp only [List.length_cons]; omega) hcode hphrase
  rw [← haccepts]
  simp

theorem statusCode_stuck (hfits : front.length + suffix.length < 18446744073709551616)
    (h : CodeEnds suffix) :
    statusCode (front ++ suffix) (front.length + suffix.length) front.length out =
      .error .undefined := by
  obtain ⟨c₀, c₁, c₂, text, rfl, hcode, htext⟩ := h
  have hsub : sub64 (front.length + (c₀ :: c₁ :: c₂ :: text).length) front.length =
      text.length + 3 := by
    rw [sub64_eq (Nat.le_add_right _ _) hfits, Nat.add_sub_cancel_left]
    rfl
  have hdigits : (isDigit c₀ && isDigit c₁ && isDigit c₂) = true := by
    simp only [Bool.and_eq_true]
    simpa [Digits, and_assoc] using hcode
  have hfront : (front ++ [c₀, c₁, c₂]).length = front.length + 3 := by simp
  have hassoc : front ++ c₀ :: c₁ :: c₂ :: text = front ++ [c₀, c₁, c₂] ++ text := by simp
  rw [statusCode_digits (by rw [hsub]; omega), if_pos hdigits]
  unfold statusPhrase
  rw [hsub, hassoc, ← hfront, newlineScan_end rfl (by simp) (by simp; omega) htext]
  rfl

end Code

section Version

variable {front suffix behind ds tail : List ℕ} {separator : ℕ} {store : ℕ → StatusOut}
  {out : StatusOut} {next : ℕ → StatusOut → Exec (ℤ × StatusOut)}

def Overflows (suffix : List ℕ) : Prop :=
  ∃ ds tail, suffix = ds ++ tail ∧ Digits ds ∧ int32Max < decimalFrom 0 ds

theorem statusVersion_next (hne : ds ≠ []) (hds : Digits ds) (hdigit : isDigit separator = false)
    (hascii : separator < 0x80) (hfit : decimalFrom 0 ds ≤ int32Max) :
    statusVersion (front ++ (ds ++ separator :: tail)) front.length 0 separator store out next =
      next (front.length + ds.length + 1) (store (decimalFrom 0 ds)) := by
  obtain ⟨d, rest, rfl⟩ := List.exists_cons_of_ne_nil hne
  have hread := @readAt_behind front tail separator (d :: rest)
  unfold statusVersion
  rw [List.cons_append, readAt_front]
  dsimp only [bind, Except.bind]
  rw [if_neg (by rw [hds d List.mem_cons_self]; exact Bool.true_eq_false.mp),
    versionLoop_ok hds hdigit hfit (by simp; omega)]
  dsimp only
  rw [if_neg (by rw [decide_eq_true_eq]; omega)]
  rw [List.cons_append, List.length_cons, ← Nat.add_assoc] at hread
  rw [hread]
  dsimp only
  rw [if_neg (not_not.2 rfl), List.length_cons, ← Nat.add_assoc]

theorem statusVersion_stuck (h : Digits suffix ∨ Overflows suffix) :
    statusVersion (front ++ suffix) front.length 0 separator store out next =
      .error .undefined := by
  obtain ⟨ds, tail, rfl, hds, hend⟩ : ∃ ds tail, suffix = ds ++ tail ∧ Digits ds ∧
      (tail = [] ∨ int32Max < decimalFrom 0 ds) := by
    obtain hds | ⟨ds, tail, hsuffix, hds, hbig⟩ := h
    · exact ⟨suffix, [], (List.append_nil suffix).symm, hds, .inl rfl⟩
    · exact ⟨ds, tail, hsuffix, hds, .inr hbig⟩
  unfold statusVersion
  cases ds with
  | nil =>
      obtain rfl | hbig := hend
      · rw [List.append_nil, List.append_nil, readAt_end]
        rfl
      · exact absurd hbig (Nat.not_lt_zero _)
  | cons d ds =>
      rw [List.cons_append, readAt_front]
      dsimp only [bind, Except.bind]
      have hlen : (front ++ d :: (ds ++ tail)).length + 1 =
          front.length + 1 + tail.length + ds.length + 1 := by
        simp only [List.length_append, List.length_cons]
        omega
      rw [if_neg (by rw [hds d List.mem_cons_self]; exact Bool.true_eq_false.mp), hlen,
        versionLoop_stuck hds hend]

theorem statusVersion_ends {accepted : ℕ → StatusOut → Prop} (hdigits : ¬Digits suffix)
    (hfits : ¬Overflows suffix) (hdigit : isDigit separator = false) (hascii : separator < 0x80)
    (hnext : ∀ ds tail, suffix = ds ++ separator :: tail → ds ≠ [] → Digits ds →
      decimalFrom 0 ds ≤ int32Max →
      Ends (next (front.length + ds.length + 1) (store (decimalFrom 0 ds))) accepted) :
    Ends (statusVersion (front ++ (suffix ++ behind)) front.length 0 separator store out next)
      accepted := by
  obtain ⟨ds, hds, hsuffix | ⟨c, tail, hc, hsuffix⟩⟩ := digits_cases suffix
  · exact absurd (hsuffix ▸ hds) hdigits
  have hfit : decimalFrom 0 ds ≤ int32Max :=
    Nat.le_of_not_lt fun hbig => hfits ⟨ds, c :: tail, hsuffix, hds, hbig⟩
  subst hsuffix
  obtain _ | ⟨d, rest⟩ := ds
  · refine .inl ⟨out, ?_⟩
    unfold statusVersion
    rw [List.nil_append, List.cons_append, readAt_front]
    dsimp only [bind, Except.bind]
    rw [if_pos hc]
  have hassoc : d :: rest ++ c :: tail ++ behind = d :: rest ++ c :: (tail ++ behind) := by simp
  by_cases hsep : c = separator
  · subst hsep
    rw [hassoc, statusVersion_next (List.cons_ne_nil d rest) hds hdigit hascii hfit]
    exact hnext (d :: rest) tail rfl (List.cons_ne_nil d rest) hds hfit
  refine .inl ⟨store (decimalFrom 0 (d :: rest)), ?_⟩
  have hread := @readAt_behind front (tail ++ behind) c (d :: rest)
  rw [List.cons_append, List.length_cons, ← Nat.add_assoc] at hread
  unfold statusVersion
  rw [hassoc, List.cons_append, readAt_front]
  dsimp only [bind, Except.bind]
  rw [if_neg (by rw [hds d List.mem_cons_self]; exact Bool.true_eq_false.mp),
    versionLoop_ok hds hc hfit (by simp; omega)]
  dsimp only
  by_cases hhigh : 0x80 ≤ c
  · rw [if_pos (decide_eq_true hhigh)]
  · rw [if_neg (by rw [decide_eq_true_eq]; exact hhigh), hread]
    dsimp only
    rw [if_pos hsep]

end Version

section Minor

variable {front suffix behind : List ℕ} {separator : ℕ} {store : ℕ → StatusOut}
  {out : StatusOut} {next : ℕ → StatusOut → Exec (ℤ × StatusOut)} {then_ : List ℕ → Prop}

def VersionThen (separator : ℕ) (then_ : List ℕ → Prop) (suffix : List ℕ) : Prop :=
  ∃ ds tail, suffix = ds ++ separator :: tail ∧ ds ≠ [] ∧ Digits ds ∧ then_ tail

theorem statusVersion_then_stuck (h : VersionThen separator then_ suffix)
    (hdigit : isDigit separator = false) (hascii : separator < 0x80)
    (hnext : ∀ ds tail, suffix = ds ++ separator :: tail → then_ tail →
      next (front.length + ds.length + 1) (store (decimalFrom 0 ds)) = .error .undefined) :
    statusVersion (front ++ suffix) front.length 0 separator store out next =
      .error .undefined := by
  obtain ⟨ds, tail, rfl, hne, hds, hthen⟩ := h
  by_cases hfit : decimalFrom 0 ds ≤ int32Max
  · rw [statusVersion_next hne hds hdigit hascii hfit, hnext ds tail rfl hthen]
  · exact statusVersion_stuck (.inr ⟨ds, separator :: tail, rfl, hds, Nat.lt_of_not_le hfit⟩)

theorem statusMinor_stuck (hfits : front.length + suffix.length < 18446744073709551616)
    (hout : out.httpMinorVer = 0)
    (h : (Digits suffix ∨ VersionThen chSpace CodeEnds suffix) ∨ Overflows suffix) :
    statusMinor (front ++ suffix) (front.length + suffix.length) front.length out =
      .error .undefined := by
  unfold statusMinor
  rw [hout]
  obtain (hdigits | hthen) | hbig := h
  · exact statusVersion_stuck (.inl hdigits)
  · refine statusVersion_then_stuck hthen (by decide) (by decide) fun ds tail hsuffix hcode => ?_
    subst hsuffix
    have hstuck := @statusCode_stuck (front ++ ds ++ [chSpace]) tail
      { out with httpMinorVer := decimalFrom 0 ds }
      (by simp only [List.length_append, List.length_cons, List.length_nil] at hfits ⊢; omega)
      hcode
    simp only [List.length_append, List.length_cons, List.length_nil, List.append_assoc,
      List.singleton_append, Nat.zero_add, Nat.add_assoc, Nat.add_comm 1] at hstuck ⊢
    exact hstuck
  · exact statusVersion_stuck (.inr hbig)

def AcceptedMinor (front suffix : List ℕ) (out : StatusOut) (n : ℕ) (out' : StatusOut) : Prop :=
  ∃ minor tail, suffix = minor ++ chSpace :: tail ∧ (minor ≠ [] ∧ Digits minor) ∧
    AcceptedCode (front ++ minor ++ [chSpace]) tail
      { out with httpMinorVer := decimalFrom 0 minor } n out'

theorem statusMinor_ends (hfits : front.length + suffix.length < 18446744073709551616)
    (hout : out.httpMinorVer = 0)
    (hends : ¬(Digits suffix ∨ VersionThen chSpace CodeEnds suffix))
    (hbig : ¬Overflows suffix) :
    Ends (statusMinor (front ++ (suffix ++ behind)) (front.length + suffix.length) front.length out)
      (AcceptedMinor front suffix out) := by
  rw [not_or] at hends
  unfold statusMinor
  rw [hout]
  refine statusVersion_ends hends.1 hbig (by decide) (by decide)
    fun minor tail hsuffix hne hminor _ => ?_
  have hcode : ¬CodeEnds tail := fun hcode =>
    hends.2 ⟨minor, tail, hsuffix, hne, hminor, hcode⟩
  subst hsuffix
  have hrest := @statusCode_ends (front ++ minor ++ [chSpace]) tail behind
    { out with httpMinorVer := decimalFrom 0 minor }
    (by simp only [List.length_append, List.length_cons, List.length_nil] at hfits ⊢; omega)
    hcode
  refine Ends.mono ?_ fun n out' haccepted => ⟨minor, tail, rfl, ⟨hne, hminor⟩, haccepted⟩
  simp only [List.length_append, List.length_cons, List.length_nil, List.append_assoc,
    List.cons_append, Nat.zero_add, Nat.add_assoc, Nat.add_comm 1] at hrest ⊢
  exact hrest

end Minor

section Line

def RunsOut (line : List ℕ) : Prop :=
  8 ≤ line.length ∧ ∃ body, line = httpSlash ++ body ∧ (Digits body ∨
    VersionThen chDot (fun minor => Digits minor ∨ VersionThen chSpace CodeEnds minor) body)

/-- A version number of the line does not fit an `int32_t`. -/
def BigVersion (line : List ℕ) : Prop :=
  8 ≤ line.length ∧ ∃ body, line = httpSlash ++ body ∧
    (Overflows body ∨ VersionThen chDot Overflows body)

def ParsedAs (line : List ℕ) (n : ℕ) (out : StatusOut) : Prop :=
  ∃ major minor code text tail,
    line = httpSlash ++ (major ++ chDot :: (minor ++ chSpace :: (code ++
      (text ++ chNewline :: tail)))) ∧
    (major ≠ [] ∧ Digits major) ∧ (minor ≠ [] ∧ Digits minor) ∧
    (code.length = 3 ∧ Digits code) ∧ chNewline ∉ text ∧
    n + tail.length = line.length ∧
    out = {
      httpMajorVer := decimalFrom 0 major
      httpMinorVer := decimalFrom 0 minor
      responseCode := decimalFrom 0 code
      reasonPhrase := n - 1 - text.length
      phraseLen := (phraseOf text).length }

def IntLength (line : List ℕ) : Prop :=
  ∀ n out, ParsedAs line n out → 0 < toInt32 n → toInt32 n = n

/-- With `line.length` bytes that may be read the call returns, and what it returns is right
whatever is behind them. -/
def Parses (line behind : List ℕ) (out : StatusOut) : Prop :=
  (∃ r, parseStatusLine line line.length out = .ok r) ∧
    ∀ r out', parseStatusLine (line ++ behind) line.length out = .ok (r, out') → 0 < r →
      r ≤ line.length ∧ ParsedAs line r.toNat out'

variable {line behind : List ℕ} {out : StatusOut}

theorem ParsedAs.unique {n n' : ℕ} {out out' : StatusOut} (h : ParsedAs line n out)
    (h' : ParsedAs line n' out') : n = n' := by
  obtain ⟨major, minor, code, text, tail, rfl, ⟨-, hmajor⟩, ⟨-, hminor⟩, ⟨hcode, -⟩, htext, hn,
    -⟩ := h
  obtain ⟨major', minor', code', text', tail', heq, ⟨-, hmajor'⟩, ⟨-, hminor'⟩, ⟨hcode', -⟩,
    htext', hn', -⟩ := h'
  have hno : ∀ {ds : List ℕ} {c : ℕ}, isDigit c = false → Digits ds → c ∉ ds := by
    intro ds c hc hds hmem
    rw [hds c hmem] at hc
    cases hc
  obtain ⟨-, hrest⟩ := first_eq (hno (by decide) hmajor) (hno (by decide) hmajor')
    (List.append_cancel_left heq)
  obtain ⟨-, hrest⟩ := first_eq (hno (by decide) hminor) (hno (by decide) hminor') hrest
  obtain ⟨-, hrest⟩ := List.append_inj hrest (hcode.trans hcode'.symm)
  obtain ⟨-, rfl⟩ := first_eq htext htext' hrest
  omega

theorem parseStatusLine_body {body : List ℕ} {lineLen : ℕ} (hlen : 8 ≤ lineLen) :
    parseStatusLine (httpSlash ++ body) lineLen out =
      statusVersion (httpSlash ++ body) httpSlash.length 0 chDot
        (fun version => { out with httpMajorVer := version, httpMinorVer := 0 })
        { out with httpMajorVer := 0, httpMinorVer := 0 }
        (statusMinor (httpSlash ++ body) lineLen) := by
  have hfive : ¬(httpSlash ++ body).length < 5 := by
    rw [List.length_append]
    exact Nat.not_lt.2 (Nat.le_add_right 5 _)
  have hhttp : (httpSlash ++ body).take 5 = httpSlash := rfl
  unfold parseStatusLine
  dsimp only
  rw [if_neg (by omega), if_neg hfive, if_neg (not_not.2 hhttp)]
  rfl

theorem parseStatusLine_stuck (hlen : line.length < 18446744073709551616)
    (h : RunsOut line ∨ BigVersion line) :
    parseStatusLine line line.length out = .error .undefined := by
  obtain ⟨height, body, rfl, hbody⟩ : 8 ≤ line.length ∧ ∃ body, line = httpSlash ++ body ∧
      ((Digits body ∨ Overflows body) ∨ VersionThen chDot (fun minor =>
        (Digits minor ∨ VersionThen chSpace CodeEnds minor) ∨ Overflows minor) body) := by
    obtain ⟨height, body, hline, hdigits | ⟨ds, tail, hbody, hne, hds, hminor⟩⟩ |
      ⟨height, body, hline, hbig | ⟨ds, tail, hbody, hne, hds, hminor⟩⟩ := h
    · exact ⟨height, body, hline, .inl (.inl hdigits)⟩
    · exact ⟨height, body, hline, .inr ⟨ds, tail, hbody, hne, hds, .inl hminor⟩⟩
    · exact ⟨height, body, hline, .inl (.inr hbig)⟩
    · exact ⟨height, body, hline, .inr ⟨ds, tail, hbody, hne, hds, .inr hminor⟩⟩
  rw [parseStatusLine_body height]
  obtain hstuck | hthen := hbody
  · exact statusVersion_stuck hstuck
  refine statusVersion_then_stuck hthen (by decide) (by decide) fun ds tail hbody hminor => ?_
  subst hbody
  have hstuck := @statusMinor_stuck (httpSlash ++ ds ++ [chDot]) tail
    { out with httpMajorVer := decimalFrom 0 ds, httpMinorVer := 0 }
    (by simp only [List.length_append, List.length_cons, List.length_nil] at hlen ⊢; omega)
    rfl hminor
  simp only [List.length_append, List.length_cons, List.length_nil, List.append_assoc,
    List.singleton_append, Nat.zero_add, Nat.add_assoc, Nat.add_comm 1] at hstuck ⊢
  exact hstuck

theorem parseStatusLine_ends (hlen : line.length < 18446744073709551616)
    (hends : ¬RunsOut line) (hbig : ¬BigVersion line) :
    Ends (parseStatusLine (line ++ behind) line.length out) (ParsedAs line) := by
  by_cases hshort : line.length < 8
  · exact .inl ⟨_, if_pos hshort⟩
  have height := Nat.le_of_not_lt hshort
  by_cases hhttp : line.take 5 = httpSlash
  swap
  · refine .inl ⟨{ out with httpMajorVer := 0, httpMinorVer := 0 }, ?_⟩
    unfold parseStatusLine
    dsimp only
    rw [if_neg hshort, if_neg (by rw [List.length_append]; omega),
      if_pos (by rwa [List.take_append_of_le_length (by omega)])]
  obtain ⟨body, rfl⟩ : ∃ body, line = httpSlash ++ body :=
    ⟨line.drop 5, by rw [← hhttp, List.take_append_drop]⟩
  rw [List.append_assoc, parseStatusLine_body height]
  have hdigits : ¬Digits body := fun hbody => hends ⟨height, body, rfl, .inl hbody⟩
  have hfits : ¬Overflows body := fun hbody => hbig ⟨height, body, rfl, .inl hbody⟩
  refine statusVersion_ends hdigits hfits (by decide) (by decide)
    fun major tail hbody hne hmajor _ => ?_
  subst hbody
  have hrest := @statusMinor_ends (httpSlash ++ major ++ [chDot]) tail behind
    { out with httpMajorVer := decimalFrom 0 major, httpMinorVer := 0 }
    (by simp only [List.length_append, List.length_cons, List.length_nil] at hlen ⊢; omega) rfl
    (fun hminor => hends ⟨height, _, rfl, .inr ⟨major, tail, rfl, hne, hmajor, hminor⟩⟩)
    (fun hminor => hbig ⟨height, _, rfl, .inr ⟨major, tail, rfl, hne, hmajor, hminor⟩⟩)
  refine @Ends.mono _ (AcceptedMinor (httpSlash ++ major ++ [chDot]) tail
    { out with httpMajorVer := decimalFrom 0 major, httpMinorVer := 0 }) _ ?_
    fun n out' haccepted => ?_
  · simp only [List.length_append, List.length_cons, List.length_nil, List.append_assoc,
      List.cons_append, Nat.zero_add, Nat.add_assoc, Nat.add_comm 1] at hrest ⊢
    exact hrest
  · obtain ⟨minor, tail', rfl, hminor, code, text, tail'', rfl, hcode, hcodes, htext, hn, rfl⟩ :=
      haccepted
    refine ⟨major, minor, code, text, tail'', rfl, ⟨hne, hmajor⟩, hminor, ⟨hcode, hcodes⟩, htext,
      ?_, ?_⟩
    · rw [hn]
      simp only [List.length_append, List.length_cons, List.length_nil]
      omega
    · rw [hn, show ∀ a b : ℕ, a + b + 1 - 1 - b = a from fun a b => by omega]

theorem parseStatusLine_accepts (hlen : line.length < 18446744073709551616)
    (hbig : ¬BigVersion line) {n : ℕ} {out' : StatusOut} (h : ParsedAs line n out') :
    parseStatusLine (line ++ behind) line.length out = .ok (toInt32 n, out') := by
  obtain ⟨major, minor, code, text, tail, hline, ⟨hmajorne, hmajor⟩, ⟨hminorne, hminor⟩,
    ⟨hcodelen, hcode⟩, htext, hn, rfl⟩ := h
  obtain ⟨c₀, c₁, c₂, rfl⟩ : ∃ c₀ c₁ c₂, code = [c₀, c₁, c₂] := by
    obtain hshort | ⟨c₀, c₁, c₂, _ | ⟨c₃, rest⟩, rfl⟩ := code_cases code
    · omega
    · exact ⟨c₀, c₁, c₂, rfl⟩
    · simp at hcodelen
  have hlength := congrArg List.length hline
  simp only [List.length_append, List.length_cons, List.length_nil] at hlength
  have hfive : httpSlash.length = 5 := rfl
  have hpos := List.length_pos_iff.2 hmajorne
  have hpos' := List.length_pos_iff.2 hminorne
  have hfit : decimalFrom 0 major ≤ int32Max := Nat.le_of_not_lt fun hover =>
    hbig ⟨by omega, _, hline, .inl ⟨major, _, rfl, hmajor, hover⟩⟩
  have hfit' : decimalFrom 0 minor ≤ int32Max := Nat.le_of_not_lt fun hover =>
    hbig ⟨by omega, _, hline, .inr ⟨major, _, rfl, hmajorne, hmajor, minor, _, rfl, hminor, hover⟩⟩
  have hcodes := @statusCode_accepts (httpSlash ++ major ++ [chDot] ++ minor ++ [chSpace]) behind
    { out with httpMajorVer := decimalFrom 0 major, httpMinorVer := decimalFrom 0 minor }
    c₀ c₁ c₂ text tail line.length (by
      simp only [List.length_append, List.length_cons, List.length_nil]
      rw [sub64_eq (by omega) hlen]
      omega) hcode htext
  have hsecond := @statusVersion_next (httpSlash ++ major ++ [chDot]) minor
    (c₀ :: c₁ :: c₂ :: (text ++ chNewline :: (tail ++ behind))) chSpace
    (fun version => { out with httpMajorVer := decimalFrom 0 major, httpMinorVer := version })
    { out with httpMajorVer := decimalFrom 0 major, httpMinorVer := 0 }
    (statusCode (line ++ behind) line.length) hminorne hminor (by decide) (by decide) hfit'
  have hmem : line ++ behind = httpSlash ++ (major ++ chDot :: (minor ++ chSpace ::
      (c₀ :: c₁ :: c₂ :: (text ++ chNewline :: (tail ++ behind))))) := by
    rw [hline]
    simp
  have hmem' : httpSlash ++ major ++ [chDot] ++ (minor ++ chSpace ::
      (c₀ :: c₁ :: c₂ :: (text ++ chNewline :: (tail ++ behind)))) = line ++ behind := by
    rw [hmem]
    simp
  have hmem'' : httpSlash ++ major ++ [chDot] ++ minor ++ [chSpace] ++
      c₀ :: c₁ :: c₂ :: (text ++ chNewline :: (tail ++ behind)) = line ++ behind := by
    rw [hmem]
    simp
  rw [hmem'] at hsecond
  rw [hmem''] at hcodes
  have hfirst := @statusVersion_next httpSlash major (minor ++ chSpace ::
    (c₀ :: c₁ :: c₂ :: (text ++ chNewline :: (tail ++ behind)))) chDot
    (fun version => { out with httpMajorVer := version, httpMinorVer := 0 })
    { out with httpMajorVer := 0, httpMinorVer := 0 } (statusMinor (line ++ behind) line.length)
    hmajorne hmajor (by decide) (by decide) hfit
  rw [← hmem] at hfirst
  have hbody := @parseStatusLine_body out (major ++ chDot :: (minor ++ chSpace ::
    (c₀ :: c₁ :: c₂ :: (text ++ chNewline :: (tail ++ behind))))) line.length (by omega)
  rw [← hmem, hfirst] at hbody
  rw [hbody]
  unfold statusMinor
  have hdot : (httpSlash ++ major ++ [chDot]).length = httpSlash.length + major.length + 1 := by
    simp only [List.length_append, List.length_cons, List.length_nil]
  have hspace : (httpSlash ++ major ++ [chDot] ++ minor ++ [chSpace]).length =
      httpSlash.length + major.length + 1 + minor.length + 1 := by
    simp only [List.length_append, List.length_cons, List.length_nil]
  rw [hdot] at hsecond
  rw [hspace] at hcodes
  rw [hsecond, hcodes]
  have hnval :
      n = httpSlash.length + major.length + 1 + minor.length + 1 + 3 + text.length + 1 := by
    omega
  rw [hnval, show ∀ a b : ℕ, a + b + 1 - 1 - b = a from fun a b => by omega]

/-- A status line is parsed within its length exactly if it does not end among the digits of a
version or without a newline behind its code, its version numbers fit an `int32_t`, and an
`int` can tell its length. -/
theorem parse_status_line_iff (line : Buffer) (behind : List ℕ) (out : StatusOut) :
    Parses line.bytes behind out ↔
      ¬RunsOut line.bytes ∧ ¬BigVersion line.bytes ∧ IntLength line.bytes := by
  have hlen := line.length_lt
  refine ⟨fun h => ?_, fun ⟨hends, hbig, hint⟩ => ⟨?_, fun r out' hr hpos => ?_⟩⟩
  · have hends : ¬(RunsOut line.bytes ∨ BigVersion line.bytes) := fun hstuck => by
      obtain ⟨r, hr⟩ := h.1
      rw [parseStatusLine_stuck hlen hstuck] at hr
      cases hr
    rw [not_or] at hends
    refine ⟨hends.1, hends.2, fun n out' hparsed hpos => ?_⟩
    obtain ⟨-, hparsed'⟩ := h.2 _ _ (parseStatusLine_accepts hlen hends.2 hparsed) hpos
    have := hparsed.unique hparsed'
    omega
  · obtain ⟨out', hr⟩ | ⟨n, out', hr, -⟩ :=
      @parseStatusLine_ends line.bytes [] out hlen hends hbig
    · exact ⟨_, by rwa [List.append_nil] at hr⟩
    · exact ⟨_, by rwa [List.append_nil] at hr⟩
  · obtain ⟨out'', hends⟩ | ⟨n, out'', hends, hparsed⟩ :=
      @parseStatusLine_ends line.bytes behind out hlen hends hbig
    · rw [hr] at hends
      cases hends
      exact absurd hpos (by decide)
    · rw [hr] at hends
      cases hends
      have hn := hint n _ hparsed hpos
      rw [hn]
      refine ⟨?_, hparsed⟩
      obtain ⟨-, -, -, -, tail, -, -, -, -, -, hle, -⟩ := hparsed
      omega

/-- `HTTP/1.1 200 OK`, which no newline ends. -/
def unterminated : Buffer :=
  ⟨[0x48, 0x54, 0x54, 0x50, 0x2f, 0x31, 0x2e, 0x31, 0x20, 0x32, 0x30, 0x30, 0x20, 0x4f, 0x4b],
    by decide⟩

/-- The newline behind the line is read, and the line is accepted with one byte more than it
has. -/
theorem status_line_read_behind :
    parseStatusLine unterminated.bytes 15 ⟨0, 0, 0, 0, 0⟩ = .error .undefined ∧
      parseStatusLine (unterminated.bytes ++ [chNewline]) 15 ⟨0, 0, 0, 0, 0⟩ =
        .ok (16, ⟨1, 1, 200, 12, 3⟩) ∧
      ¬Parses unterminated.bytes [chNewline] ⟨0, 0, 0, 0, 0⟩ := by
  have hstuck : parseStatusLine unterminated.bytes 15 ⟨0, 0, 0, 0, 0⟩ = .error .undefined := rfl
  refine ⟨hstuck, rfl, fun h => ?_⟩
  obtain ⟨r, hr⟩ := h.1
  rw [show unterminated.bytes.length = 15 from rfl, hstuck] at hr
  cases hr

end Line

end OrbitConsole.Network
