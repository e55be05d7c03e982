import OrbitConsole.ShaderRecompiler.FoldingSpec

/-!
# Operations that undo each other

An instruction whose operand was made by the opposite operation is replaced by what that one
started from. Bit casts, double words, extracted lanes and packed unpacked vectors get the same
bits back; packing cuts each lane to its field and a narrowing conversion rounds, so there the
value has to survive.
-/

namespace OrbitConsole.ShaderRecompiler

variable {F : Floats} {σ : ℕ → Datum} {rank : ℕ → ℕ} {fuel bound : ℕ} {p : Program Datum}
  {i j : Inst Datum} {value v : Value Datum} {ds : List Datum} {d : Datum} {op reverse : Opcode}

/-! ### Chains of lanes -/

theorem getElem?_of_mapM {α β : Type} {f : α → Option β} {xs : List α} {ys : List β}
    (h : xs.mapM f = some ys) {k : ℕ} {y : β} (hk : ys[k]? = some y) :
    ∃ x, xs[k]? = some x ∧ f x = some y := by
  induction xs generalizing ys k with
  | nil =>
      obtain rfl : [] = ys := by simpa using h
      simp at hk
  | cons x xs ih =>
      simp only [List.mapM_cons, Option.pure_def, Option.bind_eq_bind, Option.bind_eq_some_iff,
        Option.some.injEq] at h
      obtain ⟨y', hy', ys', hys', rfl⟩ := h
      cases k with
      | zero =>
          obtain rfl : y' = y := by simpa using hk
          exact ⟨x, rfl, hy'⟩
      | succ k =>
          rw [List.getElem?_cons_succ] at hk ⊢
          exact ih hys' hk

theorem constructLanes_eq {T : LaneType} {n : ℕ} (h : constructLanes T n ds = some d) :
    ∃ lanes, ds.mapM T.one? = some lanes ∧ lanes.length = n ∧ d = T.many lanes := by
  unfold constructLanes at h
  simp only [Option.bind_eq_bind, Option.bind_eq_some_iff] at h
  obtain ⟨lanes, hlanes, h⟩ := h
  split at h
  · next hlen => exact ⟨lanes, hlanes, hlen, (Option.some.inj h).symm⟩
  · cases h

theorem laneIndex_eq {k : ℕ} (h : laneIndex d = some k) : ∃ x, d = .u32 x ∧ x.toNat = k := by
  unfold laneIndex at h
  split at h
  · exact ⟨_, rfl, Option.some.inj h⟩
  · cases h

theorem extractLane_eq {T : LaneType} {n : ℕ} (h : extractLane T n ds = some d) :
    ∃ lanes k x, ds = [T.many lanes, .u32 k] ∧ lanes.length = n ∧ lanes[k.toNat]? = some x ∧
      d = T.one x := by
  unfold extractLane at h
  split at h
  · simp only [Option.bind_eq_bind, Option.bind_eq_some_iff] at h
    obtain ⟨lanes, hlanes, k, hk, h⟩ := h
    obtain ⟨k, rfl, rfl⟩ := laneIndex_eq hk
    split at h
    · next hlen =>
        obtain ⟨x, hx, rfl⟩ := Option.map_eq_some_iff.1 h
        exact ⟨lanes, k, x, by rw [T.many_eq _ _ hlanes], hlen, hx, rfl⟩
    · cases h
  · cases h

theorem insertLane_eq {T : LaneType} {n : ℕ} (h : insertLane T n ds = some d) :
    ∃ lanes x k, ds = [T.many lanes, T.one x, .u32 k] ∧ lanes.length = n ∧ k.toNat < n ∧
      d = T.many (lanes.set k.toNat x) := by
  unfold insertLane at h
  split at h
  · simp only [Option.bind_eq_bind, Option.bind_eq_some_iff] at h
    obtain ⟨lanes, hlanes, x, hx, k, hk, h⟩ := h
    obtain ⟨k, rfl, rfl⟩ := laneIndex_eq hk
    split at h
    · next hlen =>
        exact ⟨lanes, x, k, by rw [T.many_eq _ _ hlanes, T.one_eq _ _ hx], hlen.1, hlen.2,
          (Option.some.inj h).symm⟩
    · cases h
  · cases h

theorem LaneType.many_injective (T : LaneType) {l l' : List (BitVec 32)}
    (h : T.many l = T.many l') : l = l' :=
  Option.some.inj ((T.many?_many l).symm.trans (h ▸ T.many?_many l'))

theorem foldCompositeExtractImpl_spec (h : Assigned F σ rank fuel p) {T : LaneType} {n k m : ℕ}
    {construct insert : Opcode} (hc : meaning F construct = some (constructLanes T n))
    (hins : meaning F insert = some (insertLane T n)) (hj : j ∈ p.all) (hm : rank j.id < m)
    {lanes : List (BitVec 32)} {x : BitVec 32} (hlanes : σ j.id = T.many lanes)
    (hx : lanes[k]? = some x) :
    ∃ r, foldCompositeExtractImpl fuel p insert construct k m j = .ok r ∧
      ∀ v, r = some v → v.eval σ = T.one x ∧ v.Before p rank (rank j.id) := by
  induction m generalizing j lanes with
  | zero => exact absurd hm (Nat.not_lt_zero _)
  | succ m ih =>
      unfold foldCompositeExtractImpl
      by_cases hop : j.op = construct
      · rw [if_pos hop]
        obtain ⟨lanes', hmap, -, hd⟩ := constructLanes_eq (h.value j hj _ (hop ▸ hc))
        obtain rfl := T.many_injective (hlanes.symm.trans hd)
        obtain ⟨d, hd, hone⟩ := getElem?_of_mapM hmap hx
        obtain ⟨v, hv, rfl⟩ := by simpa using hd
        refine ⟨some v, by rw [hv]; rfl, ?_⟩
        rintro v' ⟨⟩
        exact ⟨T.one_eq _ _ hone, h.before j hj v (List.mem_of_getElem? hv)⟩
      by_cases hop' : j.op = insert
      · rw [if_neg hop, if_neg (by simpa using hop')]
        obtain ⟨lanes', y, q, hargs, -, hq, hd⟩ :=
          insertLane_eq (h.value j hj _ (hop' ▸ hins))
        obtain rfl := T.many_injective (hlanes.symm.trans hd)
        obtain ⟨composite, object, index, hj', hcomp, hobj, hind⟩ := args_three hargs
        rw [hj']
        rcases h.producer_arg hj (by simp [hj'] : index ∈ j.args) with ⟨d, hd, hdi⟩ | ⟨_, -, hk, -⟩
        · obtain rfl : .u32 q = d := hind.symm.trans hdi
          by_cases hkq : k = q.toNat
          · refine ⟨some object, ?_, ?_⟩
            · simp [hd, hkq, Datum.toU32, bind, Except.bind, pure, Except.pure]
            · rintro v ⟨⟩
              refine ⟨?_, h.before j hj object (by simp [hj'])⟩
              subst hkq
              have hlt : q.toNat < lanes'.length := by
                have := (List.getElem?_eq_some_iff.1 hx).1
                simpa using this
              rw [List.getElem?_set_self hlt] at hx
              rw [hobj, Option.some.inj hx]
          · rw [List.getElem?_set_ne (Ne.symm hkq)] at hx
            rcases h.producer_arg hj (by simp [hj'] : composite ∈ j.args) with
              ⟨d', hd', -⟩ | ⟨c, hcall, hprod, hcv, hcr⟩
            · refine ⟨none, ?_, nofun⟩
              simp [hd, hkq, hd', Datum.toU32, bind, Except.bind, pure, Except.pure]
            · obtain ⟨r, hr, hspec⟩ := ih hcall (by omega) (hcv.symm.trans hcomp) hx
              refine ⟨r, ?_, fun v hv => ?_⟩
              · simp [hd, hkq, hprod, hr, Datum.toU32, bind, Except.bind, pure, Except.pure]
              · obtain ⟨heval, hb⟩ := hspec v hv
                exact ⟨heval, hb.mono (Nat.le_of_lt hcr)⟩
        · refine ⟨none, ?_, nofun⟩
          simp [hk, bind, Except.bind, pure, Except.pure]
      · refine ⟨none, ?_, nofun⟩
        rw [if_neg hop, if_pos hop']
        rfl

theorem compositeOps_meaning {construct insert : Opcode}
    (hops : compositeOps op = some (construct, insert)) :
    ∃ T n, meaning F op = some (extractLane T n) ∧
      meaning F construct = some (constructLanes T n) ∧
      meaning F insert = some (insertLane T n) := by
  unfold compositeOps at hops
  split at hops
  all_goals first
    | cases hops; done
    | obtain ⟨rfl, rfl⟩ := Prod.mk.inj (Option.some.inj hops); exact ⟨_, _, rfl, rfl, rfl⟩

theorem foldCompositeExtract_sound (h : Assigned F σ rank fuel p) (hi : i ∈ p.all)
    {construct insert : Opcode} (hops : compositeOps i.op = some (construct, insert)) :
    SoundFolding F σ rank p i (foldCompositeExtract fuel p i construct insert) := by
  obtain ⟨T, n, hm, hc, hins⟩ := compositeOps_meaning (F := F) hops
  obtain ⟨lanes, k, x, hargs, hlen, hx, hval⟩ := extractLane_eq (h.value i hi _ hm)
  obtain ⟨composite, index, hi', hcomp, hind⟩ := args_two hargs
  unfold foldCompositeExtract
  rw [hi']
  rcases h.producer_arg hi (by simp [hi'] : composite ∈ i.args) with
    ⟨d, hd, -⟩ | ⟨j, hj, hprod, hjv, hjr⟩
  · refine ⟨.keep, ?_, trivial⟩
    simp [hd, bind, Except.bind, pure, Except.pure]
  rcases h.producer_arg hi (by simp [hi'] : index ∈ i.args) with ⟨d, hd, hdi⟩ | ⟨_, -, hk, -⟩
  · obtain rfl : .u32 k = d := hind.symm.trans hdi
    obtain ⟨r, hr, hspec⟩ := foldCompositeExtractImpl_spec h hc hins hj (h.bound j hj)
      (hjv.symm.trans hcomp) hx
    cases r with
    | none =>
        refine ⟨.keep, ?_, trivial⟩
        simp [hprod, hd, hr, Datum.toU32, bind, Except.bind, pure, Except.pure]
    | some v =>
        obtain ⟨heval, hb⟩ := hspec v rfl
        refine ⟨.replace v, ?_, by rw [hm]; nofun, heval.trans hval.symm,
          hb.mono (Nat.le_of_lt hjr)⟩
        simp [hprod, hd, hr, Datum.toU32, bind, Except.bind, pure, Except.pure]
  · refine ⟨.keep, ?_, trivial⟩
    simp [hprod, hk, bind, Except.bind, pure, Except.pure]

/-! ### An operation and its opposite -/

theorem foldReverse_cases (h : Assigned F σ rank fuel p) (hi : i ∈ p.all)
    {rest : List (Value Datum)} (hi' : i.args = value :: rest) {m : List Datum → Option Datum}
    (hm : meaning F reverse = some m) (hnil : m [] = none) (ofImm : Datum → Exec Edit) :
    foldReverse fuel p i reverse ofImm = ofImm (value.eval σ) ∧
        (∀ j, p.producer fuel value ≠ .ok (.inr j)) ∨
      (foldReverse fuel p i reverse ofImm = .ok .keep ∧
        ∀ j, p.producer fuel value = .ok (.inr j) → j.op ≠ reverse) ∨
      ∃ j ∈ p.all, ∃ inner rest', p.producer fuel value = .ok (.inr j) ∧ j.op = reverse ∧
        j.args = inner :: rest' ∧ foldReverse fuel p i reverse ofImm = .ok (.replace inner) ∧
        value.eval σ = σ j.id ∧ inner.Before p rank (rank i.id) := by
  unfold foldReverse
  rw [hi']
  rcases h.producer_arg hi (by simp [hi'] : value ∈ i.args) with
    ⟨d, hd, hdv⟩ | ⟨j, hj, hprod, hjv, hjr⟩
  · refine .inl ⟨by simp [hd, hdv, bind, Except.bind], fun j hj => ?_⟩
    rw [hd] at hj
    cases hj
  by_cases hop : j.op = reverse
  · have hval := h.value j hj m (hop ▸ hm)
    cases hargs : j.args with
    | nil =>
        rw [hargs, List.map_nil, hnil] at hval
        cases hval
    | cons inner rest' =>
        have hb := h.before j hj inner (by simp [hargs])
        refine .inr (.inr ⟨j, hj, inner, rest', hprod, hop, hargs, ?_, hjv,
          hb.mono (Nat.le_of_lt hjr)⟩)
        simp [hprod, hop, hargs, bind, Except.bind, pure, Except.pure]
  · refine .inr (.inl ⟨?_, fun j' hj' => ?_⟩)
    · simp [hprod, hop, bind, Except.bind, pure, Except.pure]
    · obtain rfl : j = j' := Sum.inr.inj (Except.ok.inj (hprod.symm.trans hj'))
      exact hop

theorem foldLogicalNot_sound (h : Assigned F σ rank fuel p) (hi : i ∈ p.all)
    (hop : i.op = .logicalNot) : SoundFolding F σ rank p i (foldLogicalNot fuel p i) := by
  obtain ⟨m, hm, hone, hnil⟩ : ∃ m, meaning F .logicalNot = some m ∧
      (∀ ds d, m ds = some d → ∃ a, ds = [.u1 a] ∧ d = .u1 !a) ∧ m [] = none := by
    refine ⟨_, rfl, fun ds d hd => ?_, rfl⟩
    split at hd
    · exact ⟨_, rfl, (Option.some.inj hd).symm⟩
    · cases hd
  have hne : meaning F i.op ≠ none := by rw [hop, hm]; exact Option.some_ne_none m
  have hinv : ∀ j ∈ p.all, j.op = .logicalNot →
      ∃ u a, j.args = [u] ∧ u.eval σ = .u1 a ∧ σ j.id = .u1 !a := by
    intro j hj hop
    obtain ⟨a, ha, hval⟩ := hone _ _ (h.value j hj _ (hop ▸ hm))
    obtain ⟨u, hu, hua⟩ := args_one ha
    exact ⟨u, a, hu, hua, hval⟩
  obtain ⟨u, a, hi', hu, hval⟩ := hinv i hi hop
  unfold foldLogicalNot
  rcases foldReverse_cases h hi hi' hm hnil _ with
    ⟨hfold, -⟩ | ⟨hfold, -⟩ | ⟨j, hj, inner, rest', -, hjop, hargs, hfold, hjv, hb⟩
  · refine ⟨.replace (.imm (.u1 !a)), ?_, hne, hval.symm, Value.before_imm _⟩
    rw [hfold, hu]
    rfl
  · exact ⟨.keep, hfold, trivial⟩
  · obtain ⟨w, b, hw, hwb, hjval⟩ := hinv j hj hjop
    obtain ⟨rfl, -⟩ := List.cons.inj (hargs.symm.trans hw)
    obtain rfl : a = !b := Datum.u1.inj (hu.symm.trans (hjv.trans hjval))
    exact ⟨.replace inner, hfold, hne, by rw [hwb, hval, Bool.not_not], hb⟩

theorem foldBitCast_sound (h : Assigned F σ rank fuel p) (hi : i ∈ p.all)
    {make make' : BitVec 32 → Datum} {m m' : List Datum → Option Datum}
    (hm : meaning F i.op = some m) (hm' : meaning F reverse = some m')
    (heq : ∀ ds d, m ds = some d → ∃ a, ds = [make a] ∧ d = make' a)
    (heq' : ∀ ds d, m' ds = some d → ∃ a, ds = [make' a] ∧ d = make a)
    (hinj : ∀ a b, make a = make b → a = b) (hnil : m' [] = none) {cast : Datum → Exec Datum}
    (hcast : ∀ a, cast (make a) = .ok (make' a)) :
    SoundFolding F σ rank p i (foldBitCast fuel p i cast reverse) := by
  obtain ⟨a, hargs, hval⟩ := heq _ _ (h.value i hi m hm)
  obtain ⟨u, hi', hu⟩ := args_one hargs
  unfold foldBitCast
  rcases foldReverse_cases h hi hi' hm' hnil _ with
    ⟨hfold, -⟩ | ⟨hfold, -⟩ | ⟨j, hj, inner, rest', -, hjop, hjargs, hfold, hjv, hb⟩
  · refine ⟨.replace (.imm (make' a)), ?_, by rw [hm]; nofun, hval.symm, Value.before_imm _⟩
    rw [hfold, hu, hcast]
    rfl
  · exact ⟨.keep, hfold, trivial⟩
  · obtain ⟨b, hb', hjval⟩ := heq' _ _ (h.value j hj m' (hjop ▸ hm'))
    obtain ⟨w, hw, hwb⟩ := args_one hb'
    obtain ⟨rfl, -⟩ := List.cons.inj (hjargs.symm.trans hw)
    obtain rfl := hinj _ _ (hu.symm.trans (hjv.trans hjval))
    exact ⟨.replace inner, hfold, by rw [hm]; nofun, hwb.trans hval.symm, hb⟩

/-! ### Double words -/

theorem joined_eq {make : BitVec 64 → Datum} (h : joined make ds = some d) :
    ∃ lo hi, ds = [.u32s [lo, hi]] ∧
      d = make (lo.setWidth 64 ||| (hi.setWidth 64 <<< 32)) := by
  unfold joined at h
  split at h
  · exact ⟨_, _, rfl, (Option.some.inj h).symm⟩
  · cases h

theorem halves_joined (lo hi : BitVec 32) :
    halves (lo.setWidth 64 ||| (hi.setWidth 64 <<< 32)) = .u32s [lo, hi] := by
  have hlo : (lo.setWidth 64 ||| (hi.setWidth 64 <<< 32)).setWidth 32 = lo := by
    refine BitVec.eq_of_getLsbD_eq fun k hk => ?_
    simp [hk]
  have hhi : ((lo.setWidth 64 ||| (hi.setWidth 64 <<< 32)) >>> 32).setWidth 32 = hi := by
    refine BitVec.eq_of_getLsbD_eq fun k hk => ?_
    have hhigh : lo.getLsbD (32 + k) = false := BitVec.getLsbD_of_ge _ _ (by omega)
    rw [BitVec.getLsbD_setWidth, BitVec.getLsbD_ushiftRight, BitVec.getLsbD_or,
      BitVec.getLsbD_setWidth, BitVec.getLsbD_shiftLeft, BitVec.getLsbD_setWidth, hhigh,
      Nat.add_sub_cancel_left]
    simp [hk, (by omega : k < 64), (by omega : 32 + k < 64)]
  rw [halves, hlo, hhi]

theorem foldUnpack32x2_sound (h : Assigned F σ rank fuel p) (hi : i ∈ p.all)
    {make : BitVec 64 → Datum} {m : List Datum → Option Datum} (hm : meaning F i.op = some m)
    (hm' : meaning F reverse = some (joined make))
    (heq : ∀ ds d, m ds = some d → ∃ x, ds = [make x] ∧ d = halves x)
    (hinj : ∀ a b, make a = make b → a = b) (hread : ∀ x, (make x).toU64 = .ok x) :
    SoundFolding F σ rank p i (foldUnpack32x2 fuel p i reverse) := by
  obtain ⟨x, hargs, hval⟩ := heq _ _ (h.value i hi m hm)
  obtain ⟨u, hi', hu⟩ := args_one hargs
  unfold foldUnpack32x2
  rcases foldReverse_cases h hi hi' hm' rfl _ with
    ⟨hfold, -⟩ | ⟨hfold, -⟩ | ⟨j, hj, inner, rest', -, hjop, hjargs, hfold, hjv, hb⟩
  · refine ⟨.emit .compositeConstructU32x2
        [.imm (.u32 (x.setWidth 32)), .imm (.u32 ((x >>> 32).setWidth 32))], ?_,
      by rw [hm]; nofun, constructLanes u32Lanes 2, rfl, ?_, ?_⟩
    · rw [hfold, hu, hread]
      rfl
    · rw [hval]
      rfl
    · intro v hv
      rcases List.mem_cons.1 hv with rfl | hv
      · exact Value.before_imm _
      · exact List.mem_singleton.1 hv ▸ Value.before_imm _
  · exact ⟨.keep, hfold, trivial⟩
  · obtain ⟨lo, hi₂, hb', hjval⟩ := joined_eq (h.value j hj _ (hjop ▸ hm'))
    obtain ⟨w, hw, hwb⟩ := args_one hb'
    obtain ⟨rfl, -⟩ := List.cons.inj (hjargs.symm.trans hw)
    obtain rfl := hinj _ _ (hu.symm.trans (hjv.trans hjval))
    exact ⟨.replace inner, hfold, by rw [hm]; nofun, by rw [hwb, hval, halves_joined], hb⟩

/-! ### Packed vectors and halves -/

/-- The lane fits its field: it has no bits above, or only copies of its sign. -/
def Format.Fits (F : Floats) (op reverse : Opcode) : Format → List (BitVec 32) → Prop
  | .uint sizes, lanes =>
      List.Forall₂ (fun lane size => ∀ k, size ≤ k → lane.getLsbD k = false) lanes sizes
  | .sint sizes, lanes =>
      List.Forall₂ (fun lane size => ∀ k, size ≤ k → k < 32 →
        lane.getLsbD k = lane.getLsbD (size - 1)) lanes sizes
  | .float, lanes => F.unpack op (F.pack reverse lanes) = lanes

/-- The value survives the opposite operation: the lanes fit when they were packed, and floats
are not changed by the two conversions. -/
def Survives (F : Floats) (op reverse : Opcode) : Datum → Prop
  | .f32s lanes => ∀ format, unpackFormat op = some format → format.Fits F op reverse lanes
  | .u32 x => ∀ n, packFormat op = some (.float, n) → F.pack op (F.unpack reverse x) = x
  | .f32 x => op = .convertF32F16 → F.ofHalf (F.toHalf x) = x
  | .f16 x => op = .convertF16F32 → F.toHalf (F.ofHalf x) = x
  | _ => True

/-- The fields fill the word, one for each lane. -/
def Format.Tiles (n : ℕ) : Format → Prop
  | .uint sizes | .sint sizes => sizes.length = n ∧ sizes.sum = 32 ∧ ∀ size ∈ sizes, 0 < size
  | .float => True

theorem inverseFunc_cases (hrev : inverseFunc op = some reverse) :
    (∃ format n, packFormat op = none ∧ unpackFormat op = some format ∧
      packFormat reverse = some (format, n) ∧ format.Tiles n) ∨
    (∃ format n, packFormat op = some (format, n) ∧ packFormat reverse = none ∧
      unpackFormat reverse = some format ∧ format.Tiles n) ∨
    op = .convertF32F16 ∧ reverse = .convertF16F32 ∨
    op = .convertF16F32 ∧ reverse = .convertF32F16 := by
  unfold inverseFunc at hrev
  split at hrev
  all_goals first
    | cases hrev; done
    | obtain rfl := Option.some.inj hrev
      first
        | exact .inl ⟨_, _, rfl, rfl, rfl, by simp [Format.Tiles]⟩
        | exact .inr (.inl ⟨_, _, rfl, rfl, rfl, by simp [Format.Tiles]⟩)
        | exact .inr (.inr (.inl ⟨rfl, rfl⟩))
        | exact .inr (.inr (.inr ⟨rfl, rfl⟩))

theorem meaning_pack {format : Format} {n : ℕ} (h : packFormat op = some (format, n)) :
    meaning F op = some (packed (format.pack F op) n) := by
  unfold packFormat at h
  split at h
  all_goals first
    | cases h; done
    | obtain ⟨rfl, rfl⟩ := Prod.mk.inj (Option.some.inj h); rfl

theorem meaning_unpack {format : Format} (h : unpackFormat op = some format) :
    meaning F op = some (on32 fun x => some (.f32s (format.unpack F op x))) := by
  unfold unpackFormat at h
  split at h
  all_goals first
    | cases h; done
    | obtain rfl := Option.some.inj h; rfl

theorem packed_eq {f : List (BitVec 32) → BitVec 32} {n : ℕ} (h : packed f n ds = some d) :
    ∃ lanes, ds = [.f32s lanes] ∧ lanes.length = n ∧ d = .u32 (f lanes) := by
  unfold packed at h
  split at h
  · split at h
    · next hlen => exact ⟨_, rfl, hlen, (Option.some.inj h).symm⟩
    · cases h
  · cases h

theorem zipWith_eq_left_iff {α β : Type} {f : α → β → α} {xs : List α} {ys : List β}
    (hlen : xs.length = ys.length) :
    List.zipWith f xs ys = xs ↔ List.Forall₂ (fun x y => f x y = x) xs ys := by
  induction xs generalizing ys with
  | nil =>
      cases ys with
      | nil => simp
      | cons y ys => cases hlen
  | cons x xs ih =>
      cases ys with
      | nil => cases hlen
      | cons y ys =>
          rw [List.zipWith_cons_cons, List.cons.injEq, List.forall₂_cons,
            ih (Nat.succ.inj hlen)]

theorem uextract_eq_iff {lane : BitVec 32} {size : ℕ} :
    BitField.uextract lane 0 size = lane ↔ ∀ k, size ≤ k → lane.getLsbD k = false := by
  constructor
  · intro heq k hk
    by_cases hk' : k < 32
    · rw [← heq, BitField.getLsbD_uextract hk', decide_eq_false (by omega), Bool.false_and]
    · exact BitVec.getLsbD_of_ge _ _ (by omega)
  · intro hhigh
    refine BitVec.eq_of_getLsbD_eq fun k hk => ?_
    rw [BitField.getLsbD_uextract hk, Nat.zero_add]
    by_cases hlow : k < size
    · rw [decide_eq_true hlow, Bool.true_and]
    · rw [decide_eq_false hlow, Bool.false_and, hhigh k (by omega)]

theorem sextract_eq_iff {lane : BitVec 32} {size : ℕ} (hpos : 0 < size) :
    BitField.sextract lane 0 size = lane ↔
      ∀ k, size ≤ k → k < 32 → lane.getLsbD k = lane.getLsbD (size - 1) := by
  constructor
  · intro heq k hk hk'
    have h : (BitField.sextract lane 0 size).getLsbD k = lane.getLsbD k := by rw [heq]
    rw [BitField.getLsbD_sextract hk', decide_eq_true hpos, Bool.true_and, Nat.zero_add,
      Nat.min_eq_right (by omega)] at h
    exact h.symm
  · intro hhigh
    refine BitVec.eq_of_getLsbD_eq fun k hk => ?_
    rw [BitField.getLsbD_sextract hk, decide_eq_true hpos, Bool.true_and, Nat.zero_add]
    by_cases hlow : k < size
    · rw [Nat.min_eq_left (by omega)]
    · rw [Nat.min_eq_right (by omega), hhigh k (by omega) hk]

theorem forall₂_congr_right {α β : Type} {R S : α → β → Prop} {xs : List α} {ys : List β}
    (h : ∀ x, ∀ y ∈ ys, R x y ↔ S x y) : List.Forall₂ R xs ys ↔ List.Forall₂ S xs ys := by
  induction ys generalizing xs with
  | nil =>
      cases xs with
      | nil => exact iff_of_true .nil .nil
      | cons x xs => exact iff_of_false nofun nofun
  | cons y ys ih =>
      cases xs with
      | nil => exact iff_of_false nofun nofun
      | cons x xs =>
          rw [List.forall₂_cons, List.forall₂_cons, h x y List.mem_cons_self,
            ih fun x y hy => h x y (List.mem_cons_of_mem _ hy)]

theorem unpack_pack_iff {format : Format} {lanes : List (BitVec 32)}
    (htiles : format.Tiles lanes.length) :
    format.unpack F op (format.pack F reverse lanes) = lanes ↔
      format.Fits F op reverse lanes := by
  cases format with
  | uint sizes =>
      obtain ⟨hlen, hsum, hpos⟩ := htiles
      rw [Format.unpack, Format.pack, BitField.unpack_pack BitField.reads_uextract sizes lanes hpos
        hlen.symm (by omega), zipWith_eq_left_iff hlen.symm]
      exact forall₂_congr_right fun _ _ _ => uextract_eq_iff
  | sint sizes =>
      obtain ⟨hlen, hsum, hpos⟩ := htiles
      rw [Format.unpack, Format.pack, BitField.unpack_pack BitField.reads_sextract sizes lanes hpos
        hlen.symm (by omega), zipWith_eq_left_iff hlen.symm]
      exact forall₂_congr_right fun _ size hsize => sextract_eq_iff (hpos size hsize)
  | float => exact Iff.rfl

theorem pack_unpack_iff {format : Format} {n : ℕ} {x : BitVec 32} (htiles : format.Tiles n)
    (hop : packFormat op = some (format, n)) :
    format.pack F op (format.unpack F reverse x) = x ↔ Survives F op reverse (.u32 x) := by
  have hinteger : format ≠ .float → Survives F op reverse (.u32 x) := by
    intro hne n' hop'
    rw [hop] at hop'
    exact absurd (Prod.mk.inj (Option.some.inj hop')).1 hne
  cases format with
  | uint sizes =>
      exact iff_of_true (BitField.pack_unpack BitField.reads_uextract sizes htiles.2.1)
        (hinteger nofun)
  | sint sizes =>
      exact iff_of_true (BitField.pack_unpack BitField.reads_sextract sizes htiles.2.1)
        (hinteger nofun)
  | float => exact ⟨fun heq _ _ => heq, fun hs => hs n hop⟩

theorem inverse_iff (hrev : inverseFunc op = some reverse) {m m' : List Datum → Option Datum}
    (hm : meaning F op = some m) (hm' : meaning F reverse = some m') {x y z : Datum}
    (hy : m' [x] = some y) (hz : m [y] = some z) : x = z ↔ Survives F op reverse x := by
  obtain ⟨format, n, -, hop, hreverse, htiles⟩ | ⟨format, n, hop, -, hreverse, htiles⟩ |
    ⟨rfl, rfl⟩ | ⟨rfl, rfl⟩ := inverseFunc_cases hrev
  · obtain rfl := Option.some.inj ((meaning_unpack hop).symm.trans hm)
    obtain rfl := Option.some.inj ((meaning_pack hreverse).symm.trans hm')
    obtain ⟨lanes, hx, rfl, rfl⟩ := packed_eq hy
    obtain rfl := (List.cons.inj hx).1
    obtain rfl := Option.some.inj hz
    have hiff : format.unpack F op (format.pack F reverse lanes) = lanes ↔
        format.Fits F op reverse lanes := unpack_pack_iff htiles
    constructor
    · intro heq format' hop'
      obtain rfl := Option.some.inj (hop.symm.trans hop')
      exact hiff.1 (Datum.f32s.inj heq).symm
    · intro hs
      exact congrArg Datum.f32s (hiff.2 (hs format hop)).symm
  · obtain rfl := Option.some.inj ((meaning_pack hop).symm.trans hm)
    obtain rfl := Option.some.inj ((meaning_unpack hreverse).symm.trans hm')
    obtain ⟨a, hx, hy⟩ := on32_eq hy
    obtain rfl := (List.cons.inj hx).1
    obtain rfl := Option.some.inj hy
    obtain ⟨lanes, hlanes, -, rfl⟩ := packed_eq hz
    obtain rfl := Datum.f32s.inj (List.cons.inj hlanes).1
    rw [← pack_unpack_iff htiles hop]
    exact ⟨fun heq => (Datum.u32.inj heq).symm, fun heq => congrArg Datum.u32 heq.symm⟩
  · obtain rfl := Option.some.inj hm
    obtain rfl := Option.some.inj hm'
    cases x <;> cases hy
    obtain rfl := Option.some.inj hz
    exact ⟨fun heq _ => (Datum.f32.inj heq).symm, fun hs => congrArg Datum.f32 (hs rfl).symm⟩
  · obtain rfl := Option.some.inj hm
    obtain rfl := Option.some.inj hm'
    cases x <;> cases hy
    obtain rfl := Option.some.inj hz
    exact ⟨fun heq _ => (Datum.f16.inj heq).symm, fun hs => congrArg Datum.f16 (hs rfl).symm⟩

theorem inverseFunc_meaning (hrev : inverseFunc op = some reverse) :
    ∃ m m', meaning F op = some m ∧ meaning F reverse = some m' ∧ m' [] = none ∧
      (∀ ds d, m ds = some d → ∃ x, ds = [x]) ∧ ∀ ds d, m' ds = some d → ∃ x, ds = [x] := by
  have hpack : ∀ (f : List (BitVec 32) → BitVec 32) n ds d, packed f n ds = some d →
      ∃ x, ds = [x] := fun f n ds d h => ⟨_, (packed_eq h).choose_spec.1⟩
  have hunpack : ∀ (f : BitVec 32 → Option Datum) ds d, on32 f ds = some d → ∃ x, ds = [x] :=
    fun f ds d h => ⟨_, (on32_eq h).choose_spec.1⟩
  obtain ⟨format, n, -, hop, hreverse, -⟩ | ⟨format, n, hop, -, hreverse, -⟩ |
    ⟨rfl, rfl⟩ | ⟨rfl, rfl⟩ := inverseFunc_cases hrev
  · exact ⟨_, _, meaning_unpack hop, meaning_pack hreverse, rfl, hunpack _, hpack _ _⟩
  · exact ⟨_, _, meaning_pack hop, meaning_unpack hreverse, rfl, hpack _ _, hunpack _⟩
  all_goals
    refine ⟨_, _, rfl, rfl, rfl, fun ds d h => ?_, fun ds d h => ?_⟩ <;>
      (split at h
       · exact ⟨_, rfl⟩
       · cases h)

/-- Where the opposite operation made the operand of an instruction, what it started from
survives. -/
def Lossless (F : Floats) (σ : ℕ → Datum) (fuel : ℕ) (p : Program Datum) (i : Inst Datum) : Prop :=
  ∀ reverse value j inner, inverseFunc i.op = some reverse → i.args = [value] →
    p.producer fuel value = .ok (.inr j) → j.op = reverse → j.args = [inner] →
    Survives F i.op reverse (inner.eval σ)

/-- What a folding puts in place of an instruction has its value. -/
def Edit.KeepsValue (F : Floats) (σ : ℕ → Datum) (i : Inst Datum) : Edit → Prop
  | .replace value => value.eval σ = σ i.id
  | .emit op args => ∃ m, meaning F op = some m ∧ m (args.map (·.eval σ)) = some (σ i.id)
  | _ => True

theorem Edit.Sound.keepsValue {e : Edit} (h : e.Sound F σ rank p i) : e.KeepsValue F σ i := by
  cases e with
  | replace value => exact h.2.1
  | emit op args =>
      obtain ⟨-, m, hm, hval, -⟩ := h
      exact ⟨m, hm, hval⟩
  | _ => trivial

theorem foldInverseFunc_spec (h : Assigned F σ rank fuel p) (hi : i ∈ p.all)
    (hrev : inverseFunc i.op = some reverse) :
    ∃ e, foldInverseFunc fuel p i reverse = .ok e ∧
      (e.KeepsValue F σ i ↔ Lossless F σ fuel p i) ∧
      (e.KeepsValue F σ i → e.Sound F σ rank p i) := by
  obtain ⟨m, m', hm, hm', hnil, hone, hone'⟩ := inverseFunc_meaning (F := F) hrev
  obtain ⟨x, hx⟩ := hone _ _ (h.value i hi m hm)
  obtain ⟨u, hi', hu⟩ := args_one hx
  have hval := h.value i hi m hm
  rw [hx] at hval
  have hvacuous : (∀ j, p.producer fuel u = .ok (.inr j) → j.op ≠ reverse) →
      Lossless F σ fuel p i := by
    intro hno reverse' value j inner hrev' hargs hprod hop
    obtain rfl := Option.some.inj (hrev.symm.trans hrev')
    obtain rfl := (List.cons.inj (hi'.symm.trans hargs)).1
    exact absurd hop (hno j hprod)
  unfold foldInverseFunc
  rcases foldReverse_cases h hi hi' hm' hnil _ with
    ⟨hfold, hno⟩ | ⟨hfold, hno⟩ | ⟨j, hj, inner, rest', hprod, hjop, hjargs, hfold, hjv, hb⟩
  · exact ⟨.keep, hfold, iff_of_true trivial (hvacuous fun j hj => absurd hj (hno j)),
      fun _ => trivial⟩
  · exact ⟨.keep, hfold, iff_of_true trivial (hvacuous hno), fun _ => trivial⟩
  · have hjval := h.value j hj m' (hjop ▸ hm')
    obtain ⟨y, hy⟩ := hone' _ _ hjval
    obtain ⟨w, hw, hwy⟩ := args_one hy
    obtain ⟨rfl, rfl⟩ := List.cons.inj (hjargs.symm.trans hw)
    rw [hy, ← hjv, hu, ← hwy] at hjval
    have hiff := inverse_iff hrev hm hm' hjval hval
    refine ⟨.replace inner, hfold, hiff.trans ⟨fun hs => ?_, fun hl => ?_⟩, fun heq =>
      ⟨by rw [hm]; nofun, heq, hb⟩⟩
    · intro reverse' value j' inner' hrev' hargs hprod' _ hjargs'
      obtain rfl := Option.some.inj (hrev.symm.trans hrev')
      obtain rfl := (List.cons.inj (hi'.symm.trans hargs)).1
      obtain rfl : j = j' := Sum.inr.inj (Except.ok.inj (hprod.symm.trans hprod'))
      obtain rfl := (List.cons.inj (hjargs.symm.trans hjargs')).1
      exact hs
    · exact hl reverse u j inner hrev hi' hprod hjop hjargs

/-! ### The cases of the switch -/

theorem folding_inverse {op' : Opcode} (hop : i.op = op') (hrev : inverseFunc op' = some reverse) :
    folding F fuel p i = foldInverseFunc fuel p i reverse := by
  unfold folding
  rw [hop]
  unfold inverseFunc at hrev
  split at hrev
  all_goals first
    | cases hrev; done
    | obtain rfl := Option.some.inj hrev; rfl

theorem folding_composite {op' construct insert : Opcode} (hop : i.op = op')
    (hops : compositeOps op' = some (construct, insert)) :
    folding F fuel p i = foldCompositeExtract fuel p i construct insert := by
  unfold folding
  rw [hop]
  unfold compositeOps at hops
  split at hops
  all_goals first
    | cases hops; done
    | obtain ⟨rfl, rfl⟩ := Prod.mk.inj (Option.some.inj hops); rfl

theorem on32_some {f : BitVec 32 → Datum} (h : on32 (fun a => some (f a)) ds = some d) :
    ∃ a, ds = [.u32 a] ∧ d = f a := by
  obtain ⟨a, hds, ha⟩ := on32_eq h
  exact ⟨a, hds, (Option.some.inj ha).symm⟩

theorem onF32_some {f : BitVec 32 → Datum} (h : onF32 (fun a => some (f a)) ds = some d) :
    ∃ a, ds = [.f32 a] ∧ d = f a := by
  obtain ⟨a, hds, ha⟩ := onF32_eq h
  exact ⟨a, hds, (Option.some.inj ha).symm⟩

section Casts

variable (h : Assigned F σ rank fuel p) (hi : i ∈ p.all)
include h hi

theorem bitCastF32U32_sound (hop : i.op = .bitCastF32U32) :
    SoundFolding F σ rank p i (folding F fuel p i) := by
  have hm : meaning F i.op = some (on32 fun a => some (.f32 a)) := by rw [hop]; rfl
  unfold folding
  rw [hop]
  exact foldBitCast_sound h hi hm (rfl : meaning F .bitCastU32F32 = _)
    (fun _ _ => on32_some) (fun _ _ => onF32_some) (fun _ _ => Datum.u32.inj) rfl (fun _ => rfl)

theorem bitCastU32F32_sound (hop : i.op = .bitCastU32F32) :
    SoundFolding F σ rank p i (folding F fuel p i) := by
  have hm : meaning F i.op = some (onF32 fun a => some (.u32 a)) := by rw [hop]; rfl
  unfold folding
  rw [hop]
  exact foldBitCast_sound h hi hm (rfl : meaning F .bitCastF32U32 = _)
    (fun _ _ => onF32_some) (fun _ _ => on32_some) (fun _ _ => Datum.f32.inj) rfl (fun _ => rfl)

theorem unpackUint2x32_sound (hop : i.op = .unpackUint2x32) :
    SoundFolding F σ rank p i (folding F fuel p i) := by
  unfold folding
  rw [hop]
  refine foldUnpack32x2_sound h hi (by rw [hop]; rfl)
    (rfl : meaning F .packUint2x32 = some (joined .u64)) (fun ds d hd => ?_)
    (fun _ _ => Datum.u64.inj) (fun _ => rfl)
  split at hd
  · exact ⟨_, rfl, (Option.some.inj hd).symm⟩
  · cases hd

theorem unpackDouble2x32_sound (hop : i.op = .unpackDouble2x32) :
    SoundFolding F σ rank p i (folding F fuel p i) := by
  unfold folding
  rw [hop]
  refine foldUnpack32x2_sound h hi (by rw [hop]; rfl)
    (rfl : meaning F .packDouble2x32 = some (joined .f64)) (fun ds d hd => ?_)
    (fun _ _ => Datum.f64.inj) (fun _ => rfl)
  split at hd
  · exact ⟨_, rfl, (Option.some.inj hd).symm⟩
  · cases hd

end Casts

def Opcode.Undoes (op : Opcode) : Prop :=
  op = .bitCastF32U32 ∨ op = .bitCastU32F32 ∨ op = .unpackUint2x32 ∨ op = .unpackDouble2x32 ∨
    (∃ construct insert, compositeOps op = some (construct, insert)) ∨
    ∃ reverse, inverseFunc op = some reverse

/-- A folding of an operation with the one that it undoes returns, and what it puts in place of the
instruction has its value if and only if nothing was lost by the other one: each packed lane fits
its field, and a converted float is not changed by going there and back. -/
theorem folding_keepsValue_iff (h : Assigned F σ rank fuel p) (hi : i ∈ p.all)
    (hop : i.op.Undoes) :
    ∃ e, folding F fuel p i = .ok e ∧ (e.KeepsValue F σ i ↔ Lossless F σ fuel p i) := by
  have hsound : SoundFolding F σ rank p i (folding F fuel p i) → inverseFunc i.op = none →
      ∃ e, folding F fuel p i = .ok e ∧ (e.KeepsValue F σ i ↔ Lossless F σ fuel p i) := by
    rintro ⟨e, he, hs⟩ hnone
    refine ⟨e, he, iff_of_true hs.keepsValue fun reverse value j inner hrev => ?_⟩
    rw [hnone] at hrev
    cases hrev
  rcases hop with hop | hop | hop | hop | ⟨construct, insert, hops⟩ | ⟨reverse, hrev⟩
  · exact hsound (bitCastF32U32_sound h hi hop) (by rw [hop]; rfl)
  · exact hsound (bitCastU32F32_sound h hi hop) (by rw [hop]; rfl)
  · exact hsound (unpackUint2x32_sound h hi hop) (by rw [hop]; rfl)
  · exact hsound (unpackDouble2x32_sound h hi hop) (by rw [hop]; rfl)
  · refine hsound ?_ ?_
    · rw [folding_composite rfl hops]
      exact foldCompositeExtract_sound h hi hops
    · unfold compositeOps at hops
      split at hops
      all_goals first
        | cases hops; done
        | next hop => rw [hop]; rfl
  · obtain ⟨e, he, hiff, -⟩ := foldInverseFunc_spec h hi hrev
    exact ⟨e, by rw [folding_inverse rfl hrev, he], hiff⟩

/-! ### A vector that does not fit -/

/-- Conversions for programs without floats. -/
def noFloats : Floats where
  ofU32 _ := 0
  toHalf _ := 0
  ofHalf _ := 0
  pack _ _ := 0
  unpack _ _ := []

def loadedVector : Inst Datum :=
  { id := 0, op := .loadBufferF32x2, args := [.imm (.u32 0), .imm (.u32 0)] }

def packedVector : Inst Datum := { id := 1, op := .packUint2x16, args := [.inst 0] }

def unpackedVector : Inst Datum := { id := 2, op := .unpackUint2x16, args := [.inst 1] }

def packingProgram : Program Datum where
  entry := 0
  numBlocks := 1
  insts b := if b = 0 then [loadedVector, packedVector, unpackedVector] else []
  terminator _ := .exit
  postOrderBlocks := [0]

/-- The values when the first lane has a bit above its field. -/
def packingValues : ℕ → Datum
  | 0 => .f32s [0x10000, 0]
  | 1 => .u32 0
  | _ => .f32s [0, 0]

theorem packingProgram_assigned : Assigned noFloats packingValues id 3 packingProgram := by
  have hall : packingProgram.all = [loadedVector, packedVector, unpackedVector] := rfl
  have hdef : ∀ i ∈ packingProgram.all, packingProgram.Defines i.id := by
    intro i hi
    refine ⟨i, hi, rfl, ?_⟩
    simp only [hall, List.mem_cons, List.not_mem_nil, or_false] at hi
    rcases hi with rfl | rfl | rfl <;> exact ⟨nofun, nofun⟩
  constructor <;> simp only [hall, List.forall_mem_cons, List.not_mem_nil, false_imp_iff,
    implies_true, and_true]
  · simp [loadedVector, packedVector, unpackedVector]
  · refine ⟨nofun, ?_, ?_⟩ <;> (rintro m ⟨⟩; decide +kernel)
  · exact ⟨nofun, nofun, nofun⟩
  · refine ⟨nofun, ?_, ?_⟩ <;> intro v hv <;> obtain rfl := List.mem_singleton.1 hv <;>
      rintro id ⟨⟩
    · exact ⟨by decide, hdef loadedVector (by simp [hall])⟩
    · exact ⟨by decide, hdef packedVector (by simp [hall])⟩
  · exact ⟨nofun, nofun, nofun⟩
  · exact ⟨by decide, by decide, by decide⟩

/-- The vector that was loaded takes the place of the one that was cut. -/
theorem folding_keepsValue_fails : ∃ F σ rank fuel p i e, Assigned F σ rank fuel p ∧ i ∈ p.all ∧
    i.op.Undoes ∧ folding F fuel p i = .ok e ∧ ¬ e.KeepsValue F σ i := by
  refine ⟨noFloats, packingValues, id, 3, packingProgram, unpackedVector, .replace (.inst 0),
    packingProgram_assigned, List.mem_of_getElem? (i := 2) rfl, ?_, rfl, ?_⟩
  · exact .inr (.inr (.inr (.inr (.inr ⟨.packUint2x16, rfl⟩))))
  · intro hkeeps
    have heq : packingValues 0 = packingValues 2 := hkeeps
    exact absurd heq (by decide)

theorem folding_keepsValue_sample : Assigned noFloats packingValues id 3 packingProgram ∧
    unpackedVector ∈ packingProgram.all ∧ unpackedVector.op.Undoes ∧
    ∃ e, folding noFloats 3 packingProgram unpackedVector = .ok e ∧
      (e.KeepsValue noFloats packingValues unpackedVector ↔
        Lossless noFloats packingValues 3 packingProgram unpackedVector) :=
  have hmem : unpackedVector ∈ packingProgram.all :=
    List.mem_of_getElem? (rfl : packingProgram.all[2]? = some unpackedVector)
  have hop : unpackedVector.op.Undoes :=
    .inr (.inr (.inr (.inr (.inr ⟨.packUint2x16, rfl⟩))))
  ⟨packingProgram_assigned, hmem, hop, folding_keepsValue_iff packingProgram_assigned hmem hop⟩

end OrbitConsole.ShaderRecompiler
