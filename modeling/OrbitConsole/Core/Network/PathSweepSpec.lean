import OrbitConsole.Core.Network.UriEscapeSpec

/-!
# The sweep normalises a path

The segments that are kept form a stack, and what is in the destination is that stack, written
out: dropping its top is a search for the slash before.
-/

namespace OrbitConsole.Network

section Stack

def keepSegment (kept : List (List ℕ)) (segment : List ℕ) : List (List ℕ) :=
  if segment = [chDot] then kept
  else if segment = [chDot, chDot] then kept.dropLast
  else kept ++ [segment]

def joined (kept : List (List ℕ)) : List ℕ := kept.flatMap (· ++ [chSlash])

/-- What is kept of what was kept before and of the rest of a path, of which the part behind
the last slash stays as it is. -/
def sweptFrom (kept : List (List ℕ)) (rest : List ℕ) : List ℕ :=
  joined ((rest.splitOn chSlash).dropLast.foldl keepSegment kept) ++
    (rest.splitOn chSlash).getLastD []

def normalised (path : List ℕ) : List ℕ := chSlash :: sweptFrom [] (path.drop 1)

theorem joined_append (kept kept' : List (List ℕ)) :
    joined (kept ++ kept') = joined kept ++ joined kept' := List.flatMap_append

theorem joined_singleton (segment : List ℕ) : joined [segment] = segment ++ [chSlash] := by
  simp [joined]

variable {kept : List (List ℕ)} {name rest : List ℕ}

theorem sweptFrom_last (h : chSlash ∉ name) : sweptFrom kept name = joined kept ++ name := by
  unfold sweptFrom
  rw [List.splitOn_eq_singleton h]
  rfl

theorem sweptFrom_segment (h : chSlash ∉ name) :
    sweptFrom kept (name ++ chSlash :: rest) = sweptFrom (keepSegment kept name) rest := by
  unfold sweptFrom
  rw [List.splitOn_append_cons_self, List.splitOn_eq_singleton h, List.singleton_append]
  obtain ⟨s, ss, hsplit⟩ := List.exists_cons_of_ne_nil (List.splitOn_ne_nil chSlash rest)
  rw [hsplit]
  rfl

theorem segment_cases (rest : List ℕ) :
    chSlash ∉ rest ∨ ∃ name tail, rest = name ++ chSlash :: tail ∧ chSlash ∉ name := by
  by_cases h : chSlash ∈ rest
  · exact .inr (List.eq_append_cons_of_mem h)
  · exact .inl h

theorem keepSegment_length (kept : List (List ℕ)) (name : List ℕ) :
    (joined (keepSegment kept name)).length ≤ (joined kept).length + name.length + 1 := by
  unfold keepSegment
  split
  · omega
  split
  · obtain rfl | ⟨init, last, hkept⟩ := kept.eq_nil_or_concat
    · exact Nat.le_add_right_of_le (Nat.le_add_right _ _)
    · rw [hkept, List.concat_eq_append, List.dropLast_concat, joined_append, List.length_append]
      omega
  · rw [joined_append, joined_singleton, List.length_append, List.length_append,
      List.length_singleton]
    omega

end Stack

section Destination

/-- The destination holds `chSlash :: written` and a terminator; the `size` bytes that may be
written end where `after` begins. -/
def Holding (size : ℕ) (after dst written : List ℕ) : Prop :=
  ∃ junk, dst = chSlash :: written ++ (0 :: junk ++ after) ∧
    written.length + junk.length + 2 = size

variable {size : ℕ} {after dst written name : List ℕ} {kept : List (List ℕ)}

theorem Holding.copy (h : Holding size after dst written)
    (hfit : written.length + name.length + 2 ≤ size) :
    ∃ dst₁ dst₂, writeAt dst (written.length + 1) name = .ok dst₁ ∧
      writeAt dst₁ (written.length + name.length + 1) [0] = .ok dst₂ ∧
      Holding size after dst₂ (written ++ name) := by
  obtain ⟨junk, rfl, hsize⟩ := h
  have hfirst := @writeAt_append (chSlash :: written) (0 :: junk ++ after) name
    (by simp only [List.length_append, List.length_cons]; omega)
  have hsecond := @writeAt_append (chSlash :: written ++ name)
    ((0 :: junk ++ after).drop name.length) [0]
    (by simp only [List.length_drop, List.length_append, List.length_cons, List.length_nil]; omega)
  refine ⟨_, _, hfirst, ?_, junk.drop name.length, rfl, ?_⟩
  · have hlen : (chSlash :: written ++ name).length = written.length + name.length + 1 := by
      simp only [List.length_append, List.length_cons]
      omega
    rw [hlen] at hsecond
    rw [hsecond, List.drop_drop, List.length_singleton,
      show 0 :: junk ++ after = 0 :: (junk ++ after) from rfl, List.drop_succ_cons,
      List.drop_append_of_le_length (by omega)]
    simp
  · simp only [List.length_append, List.length_drop]
    omega

theorem lastSlash_eq {front tail : List ℕ} (hfront : 0 ∉ front) (hname : 0 ∉ name)
    (hslash : chSlash ∉ name) :
    lastSlash (front ++ chSlash :: name ++ 0 :: tail) = .ok (some front.length) := by
  have hnul : 0 ∉ front ++ chSlash :: name := by
    simp only [List.mem_append, List.mem_cons, not_or]
    exact ⟨hfront, by decide, hname⟩
  have hend : (front ++ chSlash :: name ++ 0 :: tail).findIdx (· == 0) =
      front.length + name.length + 1 := by
    rw [List.findIdx_append, List.findIdx_eq_length_of_false, if_neg (by omega)]
    · simp only [List.findIdx_cons, BEq.rfl, cond_true, List.length_append, List.length_cons]
      omega
    · intro x hx
      exact beq_eq_false_iff_ne.2 fun hzero => hnul (hzero ▸ hx)
  unfold lastSlash
  rw [if_pos (by simp), hend, show front.length + name.length + 1 =
    (front.length + 1) + name.length by omega, List.range_add, List.range_succ,
    List.reverse_append, List.reverse_append, List.find?_append]
  -- behind that slash there is none up to the terminator
  have hnone : ((List.range name.length).map (front.length + 1 + ·)).reverse.find? (fun i =>
      (front ++ chSlash :: name ++ 0 :: tail).getD i 0 == chSlash) = none := by
    refine List.find?_eq_none.2 fun i hi => ?_
    obtain ⟨j, hj, rfl⟩ := List.mem_map.1 (List.mem_reverse.1 hi)
    have hlt := List.mem_range.1 hj
    have hget : (front ++ chSlash :: name ++ 0 :: tail).getD (front.length + 1 + j) 0 =
        name[j] := by
      rw [List.getD_eq_getElem?_getD, List.append_assoc,
        List.getElem?_append_right (by omega), show front.length + 1 + j - front.length = j + 1
          by omega, List.cons_append, List.getElem?_cons_succ, List.getElem?_append_left hlt,
        List.getElem?_eq_getElem hlt]
      rfl
    rw [hget]
    exact fun heq => hslash (beq_iff_eq.1 heq ▸ List.getElem_mem hlt)
  rw [hnone, Option.none_or, List.reverse_singleton, List.singleton_append,
    List.find?_cons_of_pos]
  rw [List.getD_eq_getElem?_getD, List.append_assoc, List.getElem?_append_right (Nat.le_refl _)]
  simp

theorem joined_front (kept : List (List ℕ)) :
    ∃ front, chSlash :: joined kept = front ++ [chSlash] ∧
      front.length = (joined kept).length ∧ ∀ c ∈ front, c ∈ chSlash :: joined kept := by
  obtain ⟨front, hfront⟩ : ∃ front, chSlash :: joined kept = front ++ [chSlash] := by
    obtain rfl | ⟨init, last, hkept⟩ := kept.eq_nil_or_concat
    · exact ⟨[], rfl⟩
    · refine ⟨chSlash :: joined init ++ last, ?_⟩
      rw [hkept, List.concat_eq_append, joined_append, joined_singleton]
      simp
  refine ⟨front, hfront, ?_, fun c hc => ?_⟩
  · have hlen := congrArg List.length hfront
    simpa using hlen.symm
  · rw [hfront]
    exact List.mem_append_left _ hc

theorem Holding.pop {init : List (List ℕ)} {last : List ℕ}
    (h : Holding size after dst (joined (init ++ [last]))) (hinit : 0 ∉ joined init)
    (hlast : 0 ∉ last) (hslash : chSlash ∉ last) :
    ∃ dst₁ dst₂, writeAt dst (joined (init ++ [last])).length [0] = .ok dst₁ ∧
      lastSlash dst₁ = .ok (some (joined init).length) ∧
      writeAt dst₁ ((joined init).length + 1) [0] = .ok dst₂ ∧
      Holding size after dst₂ (joined init) := by
  obtain ⟨junk, rfl, hsize⟩ := h
  obtain ⟨front, hfront, hlen, hmem⟩ := joined_front init
  have hnul : 0 ∉ front := fun hzero => by
    obtain hc | hc := List.mem_cons.1 (hmem 0 hzero)
    · cases hc
    · exact hinit hc
  have hall : (joined (init ++ [last])).length = (chSlash :: joined init ++ last).length := by
    rw [joined_append, joined_singleton]
    simp only [List.length_append, List.length_cons, List.length_nil]
    omega
  have hfirst := @writeAt_append (chSlash :: joined init ++ last) (chSlash :: 0 :: junk ++ after)
    [0] (by simp only [List.length_append, List.length_cons, List.length_nil]; omega)
  have hsecond := @writeAt_append (chSlash :: joined init) (last ++ 0 :: 0 :: junk ++ after)
    [0] (by simp only [List.length_append, List.length_cons, List.length_nil]; omega)
  have hstart : chSlash :: joined (init ++ [last]) ++ (0 :: junk ++ after) =
      chSlash :: joined init ++ last ++ (chSlash :: 0 :: junk ++ after) := by
    rw [joined_append, joined_singleton]
    simp
  refine ⟨chSlash :: joined init ++ (last ++ 0 :: 0 :: junk ++ after), _, ?_, ?_, hsecond,
    (last ++ 0 :: 0 :: junk).drop 1, ?_, ?_⟩
  · rw [hstart, hall, hfirst]
    simp
  · have hsearch := @lastSlash_eq last front (0 :: junk ++ after) hnul hlast hslash
    rw [hlen] at hsearch
    rw [hfront, ← hsearch]
    simp
  · rw [List.length_singleton, List.drop_append_of_le_length
      (by simp only [List.length_append, List.length_cons]; omega)]
    simp
  · rw [joined_append, joined_singleton] at hsize
    simp only [List.length_append, List.length_cons, List.length_nil] at hsize
    simp only [List.length_drop, List.length_append, List.length_cons]
    omega

end Destination

section Loop

variable {path rest name tail : List ℕ} {srcPos : ℕ}

theorem charAt_rest (hrest : path.drop srcPos = rest) (hpos : srcPos ≤ path.length) {i : ℕ}
    (hi : i ≤ rest.length) : charAt (path ++ [0]) (srcPos + i) = .ok ((rest ++ [0]).getD i 0) := by
  have hlen : rest.length = path.length - srcPos := by rw [← hrest, List.length_drop]
  unfold charAt
  rw [if_pos (by rw [List.length_append, List.length_singleton]; omega), ← hrest,
    ← List.drop_append_of_le_length hpos, List.getD_eq_getElem?_getD,
    List.getD_eq_getElem?_getD, List.getElem?_drop]

theorem lookahead (hrest : path.drop srcPos = rest) (hne : rest ≠ []) :
    ∃ c c₁ c₂, charAt (path ++ [0]) srcPos = .ok c ∧
      charIf (c = chDot) (path ++ [0]) (srcPos + 1) = .ok c₁ ∧
      charIf (c₁ = chDot) (path ++ [0]) (srcPos + 2) = .ok c₂ ∧
      (c₁ = chSlash ↔ ∃ tail, rest = [chDot] ++ chSlash :: tail) ∧
      (c₂ = chSlash ↔ ∃ tail, rest = [chDot, chDot] ++ chSlash :: tail) := by
  have hpos : srcPos ≤ path.length := by
    by_contra hge
    exact hne (hrest ▸ List.drop_eq_nil_of_le (Nat.le_of_lt (Nat.lt_of_not_le hge)))
  obtain ⟨c, t, rfl⟩ := List.exists_cons_of_ne_nil hne
  have hread : ∀ i, i ≤ (c :: t).length → _ := fun i hi => charAt_rest hrest hpos hi
  have hc : charAt (path ++ [0]) srcPos = .ok c := hread 0 (Nat.zero_le _)
  by_cases hdot : c = chDot
  swap
  · refine ⟨c, 1, 1, hc, if_neg hdot, if_neg (by decide), ?_, ?_⟩
    · exact ⟨fun h => absurd h (by decide), fun ⟨_, h⟩ => absurd (List.cons.inj h).1 hdot⟩
    · exact ⟨fun h => absurd h (by decide), fun ⟨_, h⟩ => absurd (List.cons.inj h).1 hdot⟩
  subst hdot
  have hc₁ : charAt (path ++ [0]) (srcPos + 1) = .ok ((t ++ [0]).getD 0 0) :=
    hread 1 (by simp)
  cases t with
  | nil =>
      refine ⟨chDot, 0, 1, hc, (if_pos rfl).trans hc₁, if_neg (by decide), ?_, ?_⟩ <;>
        simp [chDot, chSlash]
  | cons c₁ t =>
      by_cases hdot₁ : c₁ = chDot
      swap
      · refine ⟨chDot, c₁, 1, hc, (if_pos rfl).trans hc₁, if_neg hdot₁, ?_, ?_⟩
        · simp
        · simp [hdot₁, chSlash]
      subst hdot₁
      have hc₂ : charAt (path ++ [0]) (srcPos + 2) = .ok ((t ++ [0]).getD 0 0) :=
        hread 2 (by simp)
      refine ⟨chDot, chDot, _, hc, (if_pos rfl).trans hc₁, (if_pos rfl).trans hc₂, ?_, ?_⟩
      · simp [chDot, chSlash]
      · cases t <;> simp [chSlash]

theorem segmentLength_eq {next : ℕ} (hpos : srcPos ≤ path.length)
    (hrest : path.drop srcPos ++ [0] = name ++ next :: tail)
    (hname : ∀ c ∈ name, c ≠ chNul ∧ c ≠ chSlash) (hnext : next = chSlash ∨ next = chNul) :
    segmentLength (path ++ [0]) srcPos =
      if next = chSlash then min (name.length + 1) (path.length - srcPos)
      else path.length - srcPos := by
  have hdrop : (path ++ [0]).drop srcPos = name ++ next :: tail := by
    rw [List.drop_append_of_le_length hpos, hrest]
  have htake : ((name ++ next :: tail).takeWhile fun c => c != chSlash && c != chNul) = name := by
    rw [List.takeWhile_append_of_pos (fun c hc => by
      obtain ⟨hnul, hslash⟩ := hname c hc
      simp [hnul, hslash]), List.takeWhile_cons_of_neg (by
      obtain rfl | rfl := hnext <;> decide), List.append_nil]
  have hget : (path ++ [0]).getD (srcPos + name.length) 0 = next := by
    rw [List.getD_eq_getElem?_getD, ← List.getElem?_drop, hdrop,
      List.getElem?_append_right (Nat.le_refl _), Nat.sub_self]
    rfl
  unfold segmentLength
  dsimp only
  rw [hdrop, htake, hget, List.length_append, List.length_singleton]
  split <;> omega

variable {size : ℕ} {after dst : List ℕ} {kept : List (List ℕ)}

def Plain (kept : List (List ℕ)) : Prop := ∀ s ∈ kept, ∀ c ∈ s, c ≠ chNul ∧ c ≠ chSlash

theorem Plain.keep (h : Plain kept) (hname : ∀ c ∈ name, c ≠ chNul ∧ c ≠ chSlash) :
    Plain (keepSegment kept name) := by
  unfold keepSegment
  split
  · exact h
  split
  · exact fun s hs => h s ((List.dropLast_sublist kept).subset hs)
  · intro s hs
    obtain hs | hs := List.mem_append.1 hs
    · exact h s hs
    · exact List.mem_singleton.1 hs ▸ hname

theorem Plain.joined_nul (h : Plain kept) : 0 ∉ joined kept := by
  intro hzero
  obtain ⟨s, hs, hmem⟩ := List.mem_flatMap.1 hzero
  obtain hmem | hmem := List.mem_append.1 hmem
  · exact (h s hs 0 hmem).1 rfl
  · exact absurd (List.mem_singleton.1 hmem) (by decide)

theorem sweepLoop_eq (hpath : ∀ c ∈ path, c ≠ chNul) {fuel : ℕ}
    (hpos : srcPos ≤ path.length) (hfuel : path.length < srcPos + fuel) (hkept : Plain kept)
    (hroom : (joined kept).length + 1 ≤ srcPos) (hsize : size = path.length + 1)
    (h : Holding size after dst (joined kept)) :
    ∃ r, sweepLoop (path ++ [0]) fuel srcPos (joined kept).length dst = .ok r ∧
      Holding size after r (sweptFrom kept (path.drop srcPos)) := by
  induction fuel generalizing srcPos dst kept with
  | zero => omega
  | succ fuel ih =>
      have hlen : (path ++ [0]).length - 1 = path.length := by simp
      unfold sweepLoop
      by_cases hmore : srcPos < path.length
      swap
      · rw [hlen, if_neg hmore, List.drop_eq_nil_of_le (by omega),
          sweptFrom_last List.not_mem_nil, List.append_nil]
        exact ⟨dst, rfl, h⟩
      have hne : path.drop srcPos ≠ [] := fun hnil => by
        have := List.drop_eq_nil_iff.1 hnil
        omega
      obtain ⟨c, c₁, c₂, hc, hc₁, hc₂, hskip, hup⟩ := lookahead rfl hne
      have hrestlen : (path.drop srcPos).length = path.length - srcPos := List.length_drop
      rw [hlen, if_pos hmore, hc]
      dsimp only [bind, Except.bind]
      rw [hc₁]
      dsimp only
      rw [hc₂]
      dsimp only
      obtain hlast | ⟨name, tail, hrest, hslash⟩ := segment_cases (path.drop srcPos)
      · -- what is behind the last slash is copied, and the loop ends
        have hno : ∀ {dots tail}, path.drop srcPos ≠ dots ++ chSlash :: tail := fun heq =>
          hlast (heq ▸ List.mem_append_right _ List.mem_cons_self)
        rw [if_neg fun hs => (hskip.1 hs).elim fun _ => hno,
          if_neg fun hs => (hup.1 hs).elim fun _ => hno]
        have hseg := @segmentLength_eq path (path.drop srcPos) [] srcPos chNul hpos rfl
          (fun c hc => ⟨hpath c (List.mem_of_mem_drop hc), fun heq => hlast (heq ▸ hc)⟩)
          (.inr rfl)
        rw [if_neg (by decide)] at hseg
        obtain ⟨dst₁, dst₂, hfirst, hsecond, hdst⟩ := @Holding.copy size after dst (joined kept)
          (path.drop srcPos) h (by omega)
        have htake : ((path ++ [0]).drop srcPos).take (path.length - srcPos) =
            path.drop srcPos := by
          rw [List.drop_append_of_le_length hpos, List.take_left' hrestlen]
        obtain ⟨fuel, rfl⟩ := Nat.exists_eq_succ_of_ne_zero (by omega : fuel ≠ 0)
        rw [hrestlen] at hsecond
        rw [hseg, htake, hfirst]
        dsimp only
        rw [hsecond]
        dsimp only
        unfold sweepLoop
        rw [hlen, if_neg (by omega), sweptFrom_last hlast]
        exact ⟨dst₂, rfl, hdst⟩
      have hnamelen : name.length + 1 + tail.length = path.length - srcPos := by
        rw [← hrestlen, hrest, List.length_append, List.length_cons]
        omega
      have hname : ∀ c ∈ name, c ≠ chNul ∧ c ≠ chSlash := fun c hc =>
        ⟨hpath c (List.mem_of_mem_drop (hrest ▸ List.mem_append_left _ hc)),
          fun heq => hslash (heq ▸ hc)⟩
      have htail : path.drop (srcPos + (name.length + 1)) = tail := by
        rw [← List.drop_drop, hrest, ← List.drop_drop, List.drop_left]
        rfl
      -- the name in front of the first slash decides what the loop sees
      have hdots : ∀ {dots}, chSlash ∉ dots →
          ((∃ tail', name ++ chSlash :: tail = dots ++ chSlash :: tail') ↔ name = dots) := by
        intro dots hno
        refine ⟨fun htail' => ?_, fun heq => ⟨tail, by rw [heq]⟩⟩
        obtain ⟨tail', heq⟩ := htail'
        have hsplit := congrArg (List.splitOn chSlash) heq
        rw [List.splitOn_append_cons_self, List.splitOn_append_cons_self,
          List.splitOn_eq_singleton hslash, List.splitOn_eq_singleton hno] at hsplit
        exact (List.cons.inj hsplit).1
      rw [hrest, hdots (by decide)] at hskip hup
      have hgrow := keepSegment_length kept name
      have hnext := fun dst' =>
        @ih (srcPos + (name.length + 1)) dst' (keepSegment kept name) (by omega) (by omega)
      rw [htail] at hnext
      rw [hrest, sweptFrom_segment hslash]
      by_cases hone : name = [chDot]
      · rw [if_pos (hskip.2 hone)]
        subst hone
        exact hnext dst (hkept.keep hname) (by omega) h
      rw [if_neg fun hs => hone (hskip.1 hs)]
      by_cases htwo : name = [chDot, chDot]
      · rw [if_pos (hup.2 htwo)]
        subst htwo
        have hpop : keepSegment kept [chDot, chDot] = kept.dropLast := rfl
        rw [hpop] at hnext hgrow ⊢
        obtain rfl | ⟨init, last, hlast⟩ := kept.eq_nil_or_concat
        · exact hnext dst hkept (by omega) h
        rw [List.concat_eq_append] at hlast
        subst hlast
        rw [List.dropLast_concat] at hnext hgrow ⊢
        have hinit : Plain init := fun s hs => hkept s (List.mem_append_left _ hs)
        have hmem : ∀ c ∈ last, c ≠ chNul ∧ c ≠ chSlash :=
          hkept last (List.mem_append_right _ List.mem_cons_self)
        obtain ⟨dst₁, dst₂, hfirst, hsearch, hsecond, hdst⟩ :=
          h.pop hinit.joined_nul (fun hc => (hmem 0 hc).1 rfl) fun hc => (hmem _ hc).2 rfl
        have hne : (joined (init ++ [last])).length ≠ 0 := by
          rw [joined_append, joined_singleton]
          simp
        rw [if_neg hne, hfirst]
        dsimp only
        rw [hsearch]
        dsimp only
        rw [hsecond]
        exact hnext dst₂ hinit (by omega) hdst
      · rw [if_neg fun hs => htwo (hup.1 hs)]
        have hkeep : keepSegment kept name = kept ++ [name] := by
          unfold keepSegment
          rw [if_neg hone, if_neg htwo]
        have hjoin : joined kept ++ (name ++ [chSlash]) = joined (kept ++ [name]) := by
          rw [joined_append, joined_singleton]
        have hseg := @segmentLength_eq path name (tail ++ [0]) srcPos chSlash hpos
          (by rw [hrest]; simp) hname (.inl rfl)
        rw [if_pos rfl, Nat.min_eq_left (by omega)] at hseg
        obtain ⟨dst₁, dst₂, hfirst, hsecond, hdst⟩ := @Holding.copy size after dst (joined kept)
          (name ++ [chSlash]) h (by rw [List.length_append, List.length_singleton]; omega)
        have htake : ((path ++ [0]).drop srcPos).take (name.length + 1) = name ++ [chSlash] := by
          rw [List.drop_append_of_le_length hpos, hrest,
            show name ++ chSlash :: tail ++ [0] = name ++ [chSlash] ++ (tail ++ [0]) by simp,
            List.take_left' (by simp)]
        rw [List.length_append, List.length_singleton] at hsecond
        rw [hseg, htake, hfirst]
        dsimp only
        rw [hsecond]
        dsimp only
        rw [hkeep, ← hjoin, List.length_append, List.length_append, List.length_singleton]
          at hnext
        rw [hkeep]
        exact hnext dst₂ (hkeep ▸ hkept.keep hname) (by omega) hdst

end Loop

section Normal

variable {kept segments : List (List ℕ)} {last : List ℕ}

theorem exists_segments (rest : List ℕ) :
    ∃ segments last, rest = joined segments ++ last ∧ (∀ s ∈ segments, chSlash ∉ s) ∧
      chSlash ∉ last := by
  induction hlen : rest.length using Nat.strongRecOn generalizing rest with
  | _ n ih =>
      subst hlen
      obtain hlast | ⟨name, tail, rfl, hslash⟩ := segment_cases rest
      · exact ⟨[], rest, rfl, by simp, hlast⟩
      obtain ⟨segments, last, htail, hsegments, hlast⟩ := ih tail.length (by simp; omega) tail rfl
      refine ⟨name :: segments, last, ?_, List.forall_mem_cons.2 ⟨hslash, hsegments⟩, hlast⟩
      rw [htail]
      simp [joined]

theorem sweptFrom_joined (hsegments : ∀ s ∈ segments, chSlash ∉ s) (hlast : chSlash ∉ last) :
    sweptFrom kept (joined segments ++ last) =
      joined (segments.foldl keepSegment kept) ++ last := by
  induction segments generalizing kept with
  | nil => exact sweptFrom_last hlast
  | cons s segments ih =>
      obtain ⟨hs, hrest⟩ := List.forall_mem_cons.1 hsegments
      have hcons : joined (s :: segments) ++ last = s ++ chSlash :: (joined segments ++ last) := by
        simp [joined]
      rw [hcons, sweptFrom_segment hs, ih hrest]
      rfl

/-- A segment that is neither a dot nor two. -/
def Proper (s : List ℕ) : Prop := s ≠ [chDot] ∧ s ≠ [chDot, chDot] ∧ chSlash ∉ s

theorem foldl_keepSegment_proper (hkept : ∀ s ∈ kept, Proper s)
    (hsegments : ∀ s ∈ segments, chSlash ∉ s) :
    ∀ s ∈ segments.foldl keepSegment kept, Proper s := by
  induction segments generalizing kept with
  | nil => exact hkept
  | cons s segments ih =>
      obtain ⟨hs, hrest⟩ := List.forall_mem_cons.1 hsegments
      refine ih (fun t ht => ?_) hrest
      unfold keepSegment at ht
      split at ht
      · exact hkept t ht
      case isFalse hone =>
      split at ht
      · exact hkept t (List.dropLast_subset kept ht)
      case isFalse htwo =>
      obtain ht | ht := List.mem_append.1 ht
      · exact hkept t ht
      · obtain rfl := List.mem_singleton.1 ht
        exact ⟨hone, htwo, hs⟩

theorem foldl_keepSegment_of_proper (h : ∀ s ∈ segments, Proper s) :
    segments.foldl keepSegment kept = kept ++ segments := by
  induction segments generalizing kept with
  | nil => exact (List.append_nil kept).symm
  | cons s segments ih =>
      obtain ⟨⟨hone, htwo, -⟩, hrest⟩ := List.forall_mem_cons.1 h
      rw [List.foldl_cons, ih hrest, keepSegment, if_neg hone, if_neg htwo, List.append_assoc,
        List.singleton_append]

theorem foldl_keepSegment_length :
    (joined (segments.foldl keepSegment kept)).length ≤
      (joined kept).length + (joined segments).length := by
  induction segments generalizing kept with
  | nil => exact Nat.le_refl _
  | cons s segments ih =>
      have hcons : (joined (s :: segments)).length = s.length + 1 + (joined segments).length := by
        simp only [joined, List.flatMap_cons, List.length_append, List.length_singleton]
      have hstep := keepSegment_length kept s
      have hrest := @ih (keepSegment kept s)
      rw [List.foldl_cons]
      omega

theorem normalised_length {path : List ℕ} (h : path ≠ []) :
    (normalised path).length ≤ path.length := by
  obtain ⟨c, rest, rfl⟩ := List.exists_cons_of_ne_nil h
  obtain ⟨segments, last, hrest, hsegments, hlast⟩ := exists_segments rest
  have hle := @foldl_keepSegment_length [] segments
  unfold normalised
  rw [List.drop_one, List.tail_cons, hrest, sweptFrom_joined hsegments hlast]
  simp only [joined, List.flatMap_nil, List.length_nil, List.length_cons,
    List.length_append] at hle ⊢
  omega

theorem normalised_nul {path : List ℕ} (hpath : ∀ c ∈ path, c ≠ chNul) :
    ∀ c ∈ normalised path, c ≠ chNul := by
  obtain ⟨segments, last, hrest, hsegments, hlast⟩ := exists_segments (path.drop 1)
  have hmem : ∀ c ∈ joined segments ++ last, c ≠ chNul := fun c hc =>
    hpath c (List.mem_of_mem_drop (hrest ▸ hc))
  have hplain : Plain segments := fun s hs c hc =>
    ⟨hmem c (List.mem_append_left _ (List.mem_flatMap.2 ⟨s, hs, List.mem_append_left _ hc⟩)),
      fun heq => hsegments s hs (heq ▸ hc)⟩
  have hfold : ∀ {segments kept}, Plain segments → Plain kept →
      Plain (segments.foldl keepSegment kept) := by
    intro segments
    induction segments with
    | nil => exact fun _ hkept => hkept
    | cons s segments ih =>
        intro kept hplain hkept
        obtain ⟨hs, htail⟩ := List.forall_mem_cons.1 hplain
        exact ih htail (hkept.keep hs)
  intro c hc
  obtain rfl | hc := List.mem_cons.1 hc
  · decide
  rw [hrest, sweptFrom_joined hsegments hlast] at hc
  obtain hc | hc := List.mem_append.1 hc
  · rintro rfl
    exact (hfold hplain fun s hs => absurd hs List.not_mem_nil).joined_nul hc
  · exact hmem c (List.mem_append_right _ hc)

theorem normalised_idem (path : List ℕ) : normalised (normalised path) = normalised path := by
  obtain ⟨segments, last, hrest, hsegments, hlast⟩ := exists_segments (path.drop 1)
  have hproper := @foldl_keepSegment_proper [] segments (by simp) hsegments
  have hswept : sweptFrom [] (path.drop 1) =
      joined (segments.foldl keepSegment []) ++ last := by
    rw [hrest, sweptFrom_joined hsegments hlast]
  unfold normalised
  rw [List.drop_one, List.tail_cons, hswept, sweptFrom_joined (fun s hs => (hproper s hs).2.2)
    hlast, foldl_keepSegment_of_proper hproper, List.nil_append]

end Normal

section Sweep

variable {path block : List ℕ}

theorem sweepPath_eq (habs : path.head? = some chSlash) (hpath : ∀ c ∈ path, c ≠ chNul)
    (hblock : path.length + 1 ≤ block.length) :
    ∃ r, sweepPath block (path ++ [0]) = .ok r ∧
      Holding (path.length + 1) (block.drop (path.length + 1)) r (sweptFrom [] (path.drop 1)) := by
  obtain ⟨rest, rfl⟩ := List.head?_eq_some_iff.1 habs
  have hlen : (chSlash :: rest ++ [0]).length = rest.length + 2 := by simp
  rw [List.length_cons] at hblock ⊢
  obtain ⟨b₀, b₁, tail, rfl⟩ : ∃ b₀ b₁ tail, block = b₀ :: b₁ :: tail := by
    obtain _ | ⟨b₀, _ | ⟨b₁, tail⟩⟩ := block
    · exact absurd hblock (by simp)
    · exact absurd hblock (by simp)
    · exact ⟨b₀, b₁, tail, rfl⟩
  have hstart : writeAt (b₀ :: b₁ :: tail) 0 [chSlash, 0] = .ok (chSlash :: 0 :: tail) := by
    unfold writeAt
    rw [if_pos (by simp)]
    rfl
  have hholding : Holding (rest.length + 1 + 1) (tail.drop rest.length) (chSlash :: 0 :: tail)
      (joined []) := by
    simp only [List.length_cons] at hblock
    refine ⟨tail.take rest.length, ?_, ?_⟩
    · rw [show 0 :: tail.take rest.length ++ tail.drop rest.length =
        0 :: (tail.take rest.length ++ tail.drop rest.length) from rfl, List.take_append_drop]
      rfl
    · rw [List.length_take]
      simp only [joined, List.flatMap_nil, List.length_nil]
      omega
  unfold sweepPath
  have hfirst : ¬(chSlash :: rest ++ [0]).getD 0 0 ≠ chSlash := not_not.2 rfl
  rw [if_neg (by omega), if_neg hfirst, hstart, hlen]
  dsimp only [bind, Except.bind]
  by_cases hshort : rest.length + 2 - 1 ≤ 1
  · rw [if_pos hshort]
    have hnil : rest = [] := List.length_eq_zero_iff.1 (by omega)
    subst hnil
    exact ⟨_, rfl, hholding⟩
  · rw [if_neg hshort]
    exact @sweepLoop_eq (chSlash :: rest) 1 (rest.length + 1 + 1) (tail.drop rest.length)
      (chSlash :: 0 :: tail) [] hpath (rest.length + 2 + 1) (by simp) (by simp; omega)
      (fun s hs => absurd hs List.not_mem_nil) (by simp [joined]) rfl hholding

theorem sweepPath_writes (habs : path.head? = some chSlash) (hpath : ∀ c ∈ path, c ≠ chNul)
    (hblock : path.length + 1 ≤ block.length) :
    ∃ r, sweepPath block (path ++ [0]) = .ok r ∧ r.length = block.length ∧
      r.drop (path.length + 1) = block.drop (path.length + 1) ∧
      normalised path ++ [0] <+: r := by
  obtain ⟨r, hr, junk, hjunk, hsize⟩ := sweepPath_eq habs hpath hblock
  have hfront : (chSlash :: sweptFrom [] (path.drop 1) ++ 0 :: junk).length = path.length + 1 := by
    simp only [List.length_append, List.length_cons]
    omega
  have hsplit : r = (chSlash :: sweptFrom [] (path.drop 1) ++ 0 :: junk) ++
      block.drop (path.length + 1) := by
    rw [hjunk]
    simp
  refine ⟨r, hr, ?_, ?_, junk ++ block.drop (path.length + 1), ?_⟩
  · rw [hsplit, List.length_append, hfront, List.length_drop]
    omega
  · rw [hsplit, ← hfront, List.drop_left]
  · rw [hjunk]
    simp [normalised]

/-- The sweep of an absolute path leaves the path that the stack of its segments gives, within
the block that the path needs, and a second sweep leaves it again. -/
theorem sweep_path_normalises (s : CString) (habs : s.bytes.head? = some chSlash)
    (hblock : s.bytes.length + 1 ≤ block.length) :
    (∃ r, sweepPath block (s.bytes ++ [0]) = .ok r ∧ r.length = block.length ∧
      r.drop (s.bytes.length + 1) = block.drop (s.bytes.length + 1) ∧
      normalised s.bytes ++ [0] <+: r) ∧
    (normalised s.bytes).head? = some chSlash ∧
    (normalised s.bytes).length ≤ s.bytes.length ∧
    normalised (normalised s.bytes) = normalised s.bytes ∧
    ∃ r, sweepPath block (normalised s.bytes ++ [0]) = .ok r ∧
      normalised s.bytes ++ [0] <+: r := by
  have hne : s.bytes ≠ [] := fun hnil => by
    rw [hnil] at habs
    cases habs
  have hle := normalised_length hne
  refine ⟨sweepPath_writes habs s.ne_nul hblock, rfl, hle, normalised_idem s.bytes, ?_⟩
  obtain ⟨r, hr, -, -, hprefix⟩ := @sweepPath_writes (normalised s.bytes) block rfl
    (normalised_nul s.ne_nul) (by omega)
  rw [normalised_idem] at hprefix
  exact ⟨r, hr, hprefix⟩

/-- `/a//.b/../../c/.` becomes `/a/c/.`. -/
def dotted : CString :=
  ⟨[0x2f, 0x61, 0x2f, 0x2f, 0x2e, 0x62, 0x2f, 0x2e, 0x2e, 0x2f, 0x2e, 0x2e, 0x2f, 0x63, 0x2f,
    0x2e], by decide⟩

example : normalised dotted.bytes = [0x2f, 0x61, 0x2f, 0x63, 0x2f, 0x2e] := by decide

theorem sweep_path_normalises_dotted :
    dotted.bytes.head? = some chSlash ∧ dotted.bytes.length + 1 ≤ (List.replicate 20 7).length ∧
      ∃ r, sweepPath (List.replicate 20 7) (dotted.bytes ++ [0]) = .ok r ∧
        r.length = (List.replicate 20 7).length ∧
        r.drop (dotted.bytes.length + 1) =
          (List.replicate 20 7).drop (dotted.bytes.length + 1) ∧
        normalised dotted.bytes ++ [0] <+: r :=
  ⟨rfl, by decide, (sweep_path_normalises dotted rfl (by decide)).1⟩

end Sweep

end OrbitConsole.Network
