import OrbitConsole.Core.Rtc.Tick

/-!
# Adding months and years to a tick

`sceRtcTickAddMonths` and `sceRtcTickAddYears`, which take the date they shift from the
tick they write, unless nothing is added. Two pointers to one tick are two equal ticks.
-/

namespace OrbitConsole.Rtc

open Exec

def sceRtcTickAddMonths (pTick1 pTick2 : OrbisRtcTick) (lAdd : ℤ) : Exec (ℤ × OrbisRtcTick) :=
  if lAdd = 0 then pure (orbisOk, pTick2)
  else
    let time := sceRtcSetTick pTick1
    let s : ℤ := if 0 ≤ lAdd then 1 else -1
    let year : UInt16 := .ofInt (time.year.toNat + lAdd.tdiv 12)
    let tempMonth : ℤ := time.month.toNat + lAdd.tmod 12 - 1
    let (tempMonth, year) : ℤ × UInt16 :=
      if 11 < tempMonth ∨ tempMonth < 0 then (tempMonth - s * 12, .ofInt (year.toNat + s))
      else (tempMonth, year)
    let month : UInt16 := .ofInt (tempMonth + 1)
    let lastDay := daysInMonth year.toNat month.toNat
    let day := if lastDay < time.day.toNat then UInt16.ofNat lastDay else time.day
    let time := { time with year := year, month := month, day := day }
    let timeIsValid := sceRtcCheckValid time
    if timeIsValid = orbisOk then do
      let (_, _, tick) ← sceRtcGetTick time pTick1
      return (orbisOk, tick)
    else return (timeIsValid, pTick1)

/-- A sum of type `int`. -/
def intAdd (a b : ℤ) : Exec ℤ :=
  if -2147483648 ≤ a + b ∧ a + b < 2147483648 then pure (a + b) else throw .undefined

def sceRtcTickAddYears (pTick1 pTick2 : OrbisRtcTick) (lAdd : ℤ) : Exec (ℤ × OrbisRtcTick) :=
  if lAdd = 0 then pure (orbisOk, pTick2)
  else do
    let time := sceRtcSetTick pTick1
    let year ← intAdd time.year.toNat lAdd
    let time := { time with year := .ofInt year }
    let timeIsValid := sceRtcCheckValid time
    if timeIsValid = orbisOk then do
      let (_, _, tick) ← sceRtcGetTick time pTick1
      return (orbisOk, tick)
    else return (timeIsValid, pTick1)

/-! ### What the functions are for -/

/-- A date-time is another one shifted by some months: the day is cut to the length of the
month and the time of day is kept. -/
structure IsShift (source : OrbisRtcDateTime) (lAdd : ℤ) (target : OrbisRtcDateTime) : Prop where
  month : (12 * target.year.toNat + target.month.toNat : ℤ) =
    12 * source.year.toNat + source.month.toNat + lAdd
  day : target.day.toNat =
    min source.day.toNat (daysInMonth target.year.toNat target.month.toNat)
  hour : target.hour = source.hour
  minute : target.minute = source.minute
  second : target.second = source.second
  microsecond : target.microsecond = source.microsecond

/-- The call fails and leaves the first tick, or sets it to the date of the second one shifted. -/
def AddsMonths (pTick1 pTick2 : OrbisRtcTick) (lAdd : ℤ) : Prop :=
  ∃ code tick, sceRtcTickAddMonths pTick1 pTick2 lAdd = pure (code, tick) ∧
    (code ≠ orbisOk ∧ tick = pTick1 ∨
      code = orbisOk ∧ ∃ target, sceRtcCheckValid target = orbisOk ∧
        IsShift (sceRtcSetTick pTick2) lAdd target ∧ tick.tick.toNat = microseconds target)

/-- Years are twelve months each, as long as the second tick's date stays in the calendar. -/
def YearsAgree (pTick1 pTick2 : OrbisRtcTick) (lAdd : ℤ) : Prop :=
  1 ≤ ((sceRtcSetTick pTick2).year.toNat : ℤ) + lAdd →
    ((sceRtcSetTick pTick2).year.toNat : ℤ) + lAdd ≤ 9999 →
    sceRtcTickAddYears pTick1 pTick2 lAdd = sceRtcTickAddMonths pTick1 pTick2 (12 * lAdd)

/-! ### Dates of ticks -/

theorem exists_setTick (t : OrbisRtcTick) : ∃ year month day time,
    ValidDate year month day ∧ time < 86400000000 ∧
      sceRtcSetTick t = dateTime year month day time := by
  have ht := t.tick.toNat_lt
  obtain ⟨c, y, m, d, hmarch, hn, hdate⟩ := exists_civilDate t.tick.toNat
  have hdays : 146097 * c / 4 + 1461 * y / 4 + (153 * m + 2) / 5 + d =
      t.tick.toNat / 86400000000 + 307 := hn
  have hsplit : 86400000000 * (t.tick.toNat / 86400000000) + t.tick.toNat % 86400000000 =
      t.tick.toNat := Nat.div_add_mod _ _
  have hset := sceRtcSetTick_eq hmarch (by omega) (Nat.mod_lt t.tick.toNat (by decide)) hn
    (by rw [hsplit]; exact ht)
  rw [hsplit, UInt64.ofNat_toNat] at hset
  exact ⟨_, _, _, _, hdate, Nat.mod_lt _ (by decide), hset⟩

theorem toNat_ofNat_of_lt {n : ℕ} (h : n < 65536) : (UInt16.ofNat n).toNat = n := by
  rw [UInt16.toNat_ofNat']
  exact Nat.mod_eq_of_lt h

structure Fields (p : OrbisRtcDateTime) : Prop where
  month_pos : 1 ≤ p.month.toNat
  month_le : p.month.toNat ≤ 12
  day_pos : 1 ≤ p.day.toNat
  day_le : p.day.toNat ≤ if p.month.toNat = 2 then 29 else daysInMonth 1 p.month.toNat
  hour : p.hour.toNat < 24
  minute : p.minute.toNat < 60
  second : p.second.toNat < 60
  microsecond : p.microsecond.toNat < 1000000

theorem daysInMonth_of_ne {month : ℕ} (year year' : ℕ) (h : month ≠ 2) :
    daysInMonth year month = daysInMonth year' month := by
  rw [daysInMonth, daysInMonth, if_neg h, if_neg h]

theorem daysInMonth_le (year month : ℕ) :
    daysInMonth year month ≤ if month = 2 then 29 else daysInMonth 1 month := by
  by_cases h : month = 2
  · rw [if_pos h, h, daysInMonth, if_pos rfl]
    split <;> omega
  · rw [if_neg h, daysInMonth_of_ne year 1 h]

theorem daysInMonth_bounds (year month : ℕ) :
    28 ≤ daysInMonth year month ∧ daysInMonth year month ≤ 31 := by
  unfold daysInMonth
  split_ifs <;> omega

theorem fields_setTick (t : OrbisRtcTick) : Fields (sceRtcSetTick t) := by
  obtain ⟨year, month, day, time, hdate, htime, hset⟩ := exists_setTick t
  have hmonth := hdate.month_le
  have hbounds := daysInMonth_bounds year month
  have hday := hdate.day_le
  rw [hset, dateTime]
  have hmicro : (UInt32.ofNat (time % 1000000)).toNat = time % 1000000 := by
    rw [UInt32.toNat_ofNat']
    exact Nat.mod_eq_of_lt (by omega)
  have hm : (UInt16.ofNat month).toNat = month := toNat_ofNat_of_lt (by omega)
  have hd : (UInt16.ofNat day).toNat = day := toNat_ofNat_of_lt (by omega)
  have hh : (UInt16.ofNat (time / 3600000000)).toNat = time / 3600000000 :=
    toNat_ofNat_of_lt (by omega)
  have hmi : (UInt16.ofNat (time % 3600000000 / 60000000)).toNat = time % 3600000000 / 60000000 :=
    toNat_ofNat_of_lt (by omega)
  have hs : (UInt16.ofNat (time % 60000000 / 1000000)).toNat = time % 60000000 / 1000000 :=
    toNat_ofNat_of_lt (by omega)
  exact
    { month_pos := by
        rw [hm]
        exact hdate.month_pos
      month_le := by
        rw [hm]
        exact hmonth
      day_pos := by
        rw [hd]
        exact hdate.day_pos
      day_le := by
        rw [hm, hd]
        exact le_trans hday (daysInMonth_le year month)
      hour := by
        rw [hh]
        omega
      minute := by
        rw [hmi]
        omega
      second := by
        rw [hs]
        omega
      microsecond := by
        rw [hmicro]
        omega }

/-! ### The shifted date -/

theorem toNat_ofInt (z : ℤ) : (UInt16.ofInt z).toNat = (z % 65536).toNat := by
  simp only [UInt16.ofInt, UInt16.toNat_ofNat']
  omega

def monthsAfter (p : OrbisRtcDateTime) (lAdd : ℤ) : ℤ :=
  12 * p.year.toNat + p.month.toNat - 1 + lAdd

def shifted (p : OrbisRtcDateTime) (lAdd : ℤ) : OrbisRtcDateTime :=
  let year : UInt16 := .ofInt (monthsAfter p lAdd / 12)
  let month : UInt16 := .ofInt (monthsAfter p lAdd % 12 + 1)
  let lastDay := daysInMonth year.toNat month.toNat
  { p with
    year := year
    month := month
    day := if lastDay < p.day.toNat then UInt16.ofNat lastDay else p.day }

/-- The last part of both functions. -/
def finish (time : OrbisRtcDateTime) (pTick1 : OrbisRtcTick) : Exec (ℤ × OrbisRtcTick) :=
  let timeIsValid := sceRtcCheckValid time
  if timeIsValid = orbisOk then do
    let (_, _, tick) ← sceRtcGetTick time pTick1
    return (orbisOk, tick)
  else return (timeIsValid, pTick1)

theorem finish_eq (time : OrbisRtcDateTime) (pTick1 : OrbisRtcTick) :
    finish time pTick1 =
      if sceRtcCheckValid time = orbisOk then
        if time.minute.toNat < 36 then pure (orbisOk, ⟨.ofNat (microseconds time)⟩)
        else throw .undefined
      else pure (sceRtcCheckValid time, pTick1) := by
  unfold finish
  dsimp only
  split
  case isTrue hvalid =>
      rw [sceRtcGetTick_eq hvalid]
      split <;> rfl
  case isFalse => rfl

theorem carry {y m l a r : ℤ} (hsum : r + 12 * a = l) (hm : 1 ≤ m ∧ m ≤ 12)
    (hr : -12 < r ∧ r < 12) (hsign : 0 ≤ l → 0 ≤ r) (hsign' : l < 0 → r ≤ 0) :
    (if 11 < m + r - 1 ∨ m + r - 1 < 0 then
        (m + r - 1 - (if 0 ≤ l then 1 else -1) * 12, y + a + (if 0 ≤ l then 1 else -1))
      else (m + r - 1, y + a)) = ((12 * y + m - 1 + l) % 12, (12 * y + m - 1 + l) / 12) := by
  rcases Int.lt_or_le l 0 with hneg | hpos
  · have hle := hsign' hneg
    rw [if_neg (by omega : ¬ 0 ≤ l)]
    split <;> rw [Prod.mk.injEq] <;> omega
  · have hge := hsign hpos
    rw [if_pos hpos]
    split <;> rw [Prod.mk.injEq] <;> omega

theorem addMonths_eq (pTick1 pTick2 : OrbisRtcTick) {lAdd : ℤ} (h : lAdd ≠ 0) :
    sceRtcTickAddMonths pTick1 pTick2 lAdd =
      finish (shifted (sceRtcSetTick pTick1) lAdd) pTick1 := by
  have hfields := fields_setTick pTick1
  have hpos := hfields.month_pos
  have hle := hfields.month_le
  generalize hp : sceRtcSetTick pTick1 = p at *
  have hcarry := carry (y := p.year.toNat) (m := p.month.toNat) (l := lAdd)
    (Int.tmod_add_mul_tdiv lAdd 12) ⟨by omega, by omega⟩
    ⟨Int.lt_tmod_of_pos lAdd (by decide), Int.tmod_lt_of_pos lAdd (by decide)⟩
    (Int.tmod_nonneg 12) fun hneg => by
      have := Int.tmod_nonneg 12 (by omega : 0 ≤ -lAdd)
      rw [Int.neg_tmod] at this
      omega
  have hstep : (if 11 < (p.month.toNat : ℤ) + lAdd.tmod 12 - 1 ∨
        (p.month.toNat : ℤ) + lAdd.tmod 12 - 1 < 0 then
      ((p.month.toNat : ℤ) + lAdd.tmod 12 - 1 - (if 0 ≤ lAdd then 1 else -1) * 12,
        UInt16.ofInt ((UInt16.ofInt (p.year.toNat + lAdd.tdiv 12)).toNat +
          (if 0 ≤ lAdd then 1 else -1)))
      else ((p.month.toNat : ℤ) + lAdd.tmod 12 - 1, UInt16.ofInt (p.year.toNat + lAdd.tdiv 12))) =
        (monthsAfter p lAdd % 12, UInt16.ofInt (monthsAfter p lAdd / 12)) := by
    have hwrap : ∀ z s : ℤ, UInt16.ofInt ((UInt16.ofInt z).toNat + s) = UInt16.ofInt (z + s) := by
      intro z s
      apply UInt16.toNat.inj
      rw [toNat_ofInt, toNat_ofInt, toNat_ofInt]
      omega
    rw [hwrap]
    unfold monthsAfter
    split at hcarry <;> rename_i hc
    · rw [if_pos hc]
      rw [Prod.mk.injEq] at hcarry ⊢
      exact ⟨hcarry.1, by rw [hcarry.2]⟩
    · rw [if_neg hc]
      rw [Prod.mk.injEq] at hcarry ⊢
      exact ⟨hcarry.1, by rw [hcarry.2]⟩
  rw [sceRtcTickAddMonths, if_neg h]
  dsimp only
  rw [hp, hstep]
  rfl

def wrappedYear (p : OrbisRtcDateTime) (lAdd : ℤ) : ℤ := monthsAfter p lAdd / 12 % 65536

variable {p q : OrbisRtcDateTime} {lAdd : ℤ}

theorem shifted_year (p : OrbisRtcDateTime) (lAdd : ℤ) :
    ((shifted p lAdd).year.toNat : ℤ) = wrappedYear p lAdd := by
  rw [shifted, wrappedYear, toNat_ofInt]
  omega

theorem shifted_month (p : OrbisRtcDateTime) (lAdd : ℤ) :
    ((shifted p lAdd).month.toNat : ℤ) = monthsAfter p lAdd % 12 + 1 := by
  rw [shifted, toNat_ofInt]
  omega

theorem shifted_day (p : OrbisRtcDateTime) (lAdd : ℤ) :
    (shifted p lAdd).day.toNat = min p.day.toNat
      (daysInMonth (shifted p lAdd).year.toNat (shifted p lAdd).month.toNat) := by
  have hlast := daysInMonth_bounds (shifted p lAdd).year.toNat (shifted p lAdd).month.toNat
  change (if daysInMonth (shifted p lAdd).year.toNat (shifted p lAdd).month.toNat < p.day.toNat then
    UInt16.ofNat (daysInMonth (shifted p lAdd).year.toNat (shifted p lAdd).month.toNat)
    else p.day).toNat = _
  split
  · rw [toNat_ofNat_of_lt (by omega)]
    omega
  · omega

theorem shifted_valid_iff (h : Fields p) : sceRtcCheckValid (shifted p lAdd) = orbisOk ↔
    1 ≤ wrappedYear p lAdd ∧ wrappedYear p lAdd ≤ 9999 := by
  have hyear := shifted_year p lAdd
  have hmonth := shifted_month p lAdd
  have hday := shifted_day p lAdd
  have hlast := daysInMonth_bounds (shifted p lAdd).year.toNat (shifted p lAdd).month.toNat
  have hpos := h.day_pos
  rw [sceRtcCheckValid_iff]
  constructor
  · rintro ⟨hdate, hle, -⟩
    have hyear_pos := hdate.year_pos
    omega
  · rintro ⟨h₁, h₂⟩
    refine ⟨⟨by omega, by omega, by omega, ?_, ?_⟩, by omega, h.hour, h.minute, h.second,
      h.microsecond⟩ <;> rw [hday] <;> omega

/-! ### When the months are added right -/

/-- Two dates become the same one when they are shifted: they are in one month with the same time
of day, and on one day unless both days are behind the end of the target month. -/
structure Coincide (p q : OrbisRtcDateTime) (lAdd : ℤ) : Prop where
  year : p.year = q.year
  month : p.month = q.month
  day : min p.day.toNat (daysInMonth (monthsAfter q lAdd / 12).toNat
      (monthsAfter q lAdd % 12 + 1).toNat) =
    min q.day.toNat (daysInMonth (monthsAfter q lAdd / 12).toNat
      (monthsAfter q lAdd % 12 + 1).toNat)
  hour : p.hour = q.hour
  minute : p.minute = q.minute
  second : p.second = q.second
  microsecond : p.microsecond = q.microsecond
  range : 1 ≤ monthsAfter q lAdd / 12 ∧ monthsAfter q lAdd / 12 ≤ 9999

/-- Nothing is added, the shifted date of the first tick is out of range, or it is that of the
second tick and can be turned into a tick. -/
def MonthsRight (pTick1 pTick2 : OrbisRtcTick) (lAdd : ℤ) : Prop :=
  lAdd = 0 ∨
    ¬ (1 ≤ wrappedYear (sceRtcSetTick pTick1) lAdd ∧
      wrappedYear (sceRtcSetTick pTick1) lAdd ≤ 9999) ∨
    Coincide (sceRtcSetTick pTick1) (sceRtcSetTick pTick2) lAdd ∧
      (sceRtcSetTick pTick1).minute.toNat < 36

theorem isShift_shifted_iff (hp : Fields p) (hq : Fields q)
    (hrange : 1 ≤ wrappedYear p lAdd ∧ wrappedYear p lAdd ≤ 9999) :
    IsShift q lAdd (shifted p lAdd) ↔ Coincide p q lAdd := by
  have hyear := shifted_year p lAdd
  have hmonth := shifted_month p lAdd
  have hday := shifted_day p lAdd
  have hp₁ := hp.month_pos
  have hp₂ := hp.month_le
  have hq₁ := hq.month_pos
  have hq₂ := hq.month_le
  have hp₃ := p.year.toNat_lt
  have hq₃ := q.year.toNat_lt
  unfold wrappedYear at hyear hrange
  have hsame : (12 * (shifted p lAdd).year.toNat + (shifted p lAdd).month.toNat : ℤ) =
      12 * q.year.toNat + q.month.toNat + lAdd →
      (shifted p lAdd).year.toNat = (monthsAfter q lAdd / 12).toNat ∧
        (shifted p lAdd).month.toNat = (monthsAfter q lAdd % 12 + 1).toNat := by
    intro heq
    unfold monthsAfter at *
    omega
  constructor
  · intro h
    have hm := h.month
    have hd := h.day
    obtain ⟨hy', hm'⟩ := hsame hm
    refine
      { year := UInt16.toNat.inj ?_
        month := UInt16.toNat.inj ?_
        day := ?_
        hour := h.hour
        minute := h.minute
        second := h.second
        microsecond := h.microsecond
        range := ?_ }
    · unfold monthsAfter at *
      omega
    · unfold monthsAfter at *
      omega
    · rw [hday, hy', hm'] at hd
      exact hd
    · omega
  · intro h
    have hy := congrArg UInt16.toNat h.year
    have hmn := congrArg UInt16.toNat h.month
    have hr := h.range
    have hm : (12 * (shifted p lAdd).year.toNat + (shifted p lAdd).month.toNat : ℤ) =
        12 * q.year.toNat + q.month.toNat + lAdd := by
      unfold monthsAfter at *
      omega
    obtain ⟨hy', hm'⟩ := hsame hm
    exact
      { month := hm
        day := by
          rw [hday, hy', hm']
          exact h.day
        hour := h.hour
        minute := h.minute
        second := h.second
        microsecond := h.microsecond }

theorem microseconds_inj (hp : sceRtcCheckValid p = orbisOk) (hq : sceRtcCheckValid q = orbisOk)
    (h : microseconds p = microseconds q) : p = q := by
  rw [← sceRtcSetTick_microseconds hp, h, sceRtcSetTick_microseconds hq]

theorem setTick_spec {t : OrbisRtcTick} (h : t.tick.toNat ≤ lastTick) :
    sceRtcCheckValid (sceRtcSetTick t) = orbisOk ∧
      microseconds (sceRtcSetTick t) = t.tick.toNat := by
  obtain ⟨p, hp, hmicro⟩ := exists_microseconds h
  have hset := sceRtcSetTick_microseconds hp
  rw [hmicro, UInt64.ofNat_toNat] at hset
  exact ⟨hset ▸ hp, hset ▸ hmicro⟩

theorem addsMonths_iff {pTick1 pTick2 : OrbisRtcTick} (h : pTick2.tick.toNat ≤ lastTick)
    (lAdd : ℤ) : AddsMonths pTick1 pTick2 lAdd ↔ MonthsRight pTick1 pTick2 lAdd := by
  obtain ⟨hvalid, hmicro⟩ := setTick_spec h
  by_cases hzero : lAdd = 0
  · refine iff_of_true ⟨orbisOk, pTick2, ?_, .inr ⟨rfl, _, hvalid, ?_, hmicro.symm⟩⟩ (.inl hzero)
    · rw [sceRtcTickAddMonths, if_pos hzero]
    · have hday := ((sceRtcCheckValid_iff _).1 hvalid).1.day_le
      exact ⟨by omega, by omega, rfl, rfl, rfl, rfl⟩
  have hfields := fields_setTick pTick1
  rw [AddsMonths, MonthsRight, addMonths_eq _ _ hzero, finish_eq]
  simp only [hzero, false_or]
  by_cases hrange : 1 ≤ wrappedYear (sceRtcSetTick pTick1) lAdd ∧
      wrappedYear (sceRtcSetTick pTick1) lAdd ≤ 9999
  case neg =>
      have hinvalid := mt (shifted_valid_iff hfields).1 hrange
      rw [if_neg hinvalid]
      exact iff_of_true ⟨_, _, rfl, .inl ⟨hinvalid, rfl⟩⟩ (.inl hrange)
  have hshifted := (shifted_valid_iff hfields).2 hrange
  rw [if_pos hshifted]
  simp only [hrange, and_self, not_true_eq_false, false_or]
  change (∃ code tick, (if (sceRtcSetTick pTick1).minute.toNat < 36 then _ else _) = _ ∧ _) ↔ _
  by_cases hminute : (sceRtcSetTick pTick1).minute.toNat < 36
  case neg =>
      rw [if_neg hminute]
      refine iff_of_false ?_ fun h => hminute h.2
      rintro ⟨code, tick, htick, -⟩
      cases htick
  rw [if_pos hminute, ← isShift_shifted_iff hfields (fields_setTick pTick2) hrange]
  simp only [hminute, and_true]
  have hlt := lt_trans (microseconds_lt hshifted) (by decide : 2 ^ 62 < 2 ^ 64)
  have hto : (UInt64.ofNat (microseconds (shifted (sceRtcSetTick pTick1) lAdd))).toNat =
      microseconds (shifted (sceRtcSetTick pTick1) lAdd) := by
    rw [UInt64.toNat_ofNat']
    exact Nat.mod_eq_of_lt hlt
  constructor
  · rintro ⟨code, tick, htick, hresult⟩
    injection htick with htick
    obtain ⟨rfl, rfl⟩ := Prod.mk.inj htick
    obtain ⟨hne, -⟩ | ⟨-, target, htarget, hshift, heq⟩ := hresult
    · exact absurd rfl hne
    · rwa [microseconds_inj hshifted htarget (hto.symm.trans heq)]
  · intro hshift
    exact ⟨_, _, rfl, .inr ⟨rfl, _, hshifted, hshift, hto⟩⟩

/-! ### When years agree with months -/

/-- The date of the first tick is the 29th of February, and the years lead to a year of the
calendar without one. -/
def LeapDayLost (p : OrbisRtcDateTime) (lAdd : ℤ) : Prop :=
  p.month.toNat = 2 ∧ p.day.toNat = 29 ∧
    1 ≤ (p.year.toNat + lAdd) % 65536 ∧ (p.year.toNat + lAdd) % 65536 ≤ 9999 ∧
    ¬ IsLeap ((p.year.toNat + lAdd) % 65536).toNat

theorem addYears_eq (pTick1 pTick2 : OrbisRtcTick) (h : lAdd ≠ 0)
    (hrange : -100000 ≤ lAdd ∧ lAdd ≤ 100000) :
    sceRtcTickAddYears pTick1 pTick2 lAdd =
      finish { sceRtcSetTick pTick1 with
        year := .ofInt ((sceRtcSetTick pTick1).year.toNat + lAdd) } pTick1 := by
  have hyear := (sceRtcSetTick pTick1).year.toNat_lt
  have hadd : intAdd (sceRtcSetTick pTick1).year.toNat lAdd =
      pure ((sceRtcSetTick pTick1).year.toNat + lAdd) := if_pos (by omega)
  rw [sceRtcTickAddYears, if_neg h]
  dsimp only
  rw [hadd]
  rfl

theorem shifted_years (h : Fields p) (n : ℤ) : shifted p (12 * n) =
    { p with
      year := .ofInt (p.year.toNat + n)
      day := if daysInMonth ((p.year.toNat + n) % 65536).toNat p.month.toNat < p.day.toNat then
        UInt16.ofNat (daysInMonth ((p.year.toNat + n) % 65536).toNat p.month.toNat)
        else p.day } := by
  have hpos := h.month_pos
  have hle := h.month_le
  have hdiv : monthsAfter p (12 * n) / 12 = p.year.toNat + n := by
    unfold monthsAfter
    omega
  have hmod : monthsAfter p (12 * n) % 12 + 1 = p.month.toNat := by
    unfold monthsAfter
    omega
  have hmonth : UInt16.ofInt (p.month.toNat : ℤ) = p.month := by
    apply UInt16.toNat.inj
    rw [toNat_ofInt]
    omega
  rw [shifted, hdiv, hmod, hmonth, toNat_ofInt]

theorem finish_invalid {time : OrbisRtcDateTime} {code : ℤ} (h : sceRtcCheckValid time = code)
    (hne : code ≠ orbisOk) (pTick1 : OrbisRtcTick) : finish time pTick1 = pure (code, pTick1) := by
  rw [finish_eq, h, if_neg hne]

theorem checkValid_year {time : OrbisRtcDateTime}
    (h : ¬ (1 ≤ time.year.toNat ∧ time.year.toNat ≤ 9999)) :
    sceRtcCheckValid time = errorInvalidYear := by
  have hzero : time.year = 0 ↔ time.year.toNat = 0 := by
    rw [← UInt16.toNat_inj]
    rfl
  have hlt : 9999 < time.year ↔ 9999 < time.year.toNat := UInt16.lt_iff_toNat_lt
  rw [sceRtcCheckValid, if_pos (by rw [hzero, hlt]; omega)]

theorem yearsAgree_iff (pTick1 pTick2 : OrbisRtcTick) (n : ℤ) :
    YearsAgree pTick1 pTick2 n ↔
      n = 0 ∨ ¬ (1 ≤ ((sceRtcSetTick pTick2).year.toNat : ℤ) + n ∧
        ((sceRtcSetTick pTick2).year.toNat : ℤ) + n ≤ 9999) ∨
        ¬ LeapDayLost (sceRtcSetTick pTick1) n := by
  by_cases hzero : n = 0
  · refine iff_of_true (fun _ _ => ?_) (.inl hzero)
    rw [sceRtcTickAddYears, sceRtcTickAddMonths, if_pos hzero, if_pos (by omega)]
  by_cases hrange : 1 ≤ ((sceRtcSetTick pTick2).year.toNat : ℤ) + n ∧
      ((sceRtcSetTick pTick2).year.toNat : ℤ) + n ≤ 9999
  case neg => exact iff_of_true (fun h₁ h₂ => absurd ⟨h₁, h₂⟩ hrange) (.inr (.inl hrange))
  have hyear := (sceRtcSetTick pTick2).year.toNat_lt
  have hfields := fields_setTick pTick1
  rw [YearsAgree, addYears_eq _ _ hzero (by omega), addMonths_eq _ _ (by omega),
    shifted_years hfields]
  simp only [hrange, hzero, and_self, not_true_eq_false, false_or, forall_const]
  generalize sceRtcSetTick pTick1 = p at *
  have hwrap : ∀ d : UInt16, (OrbisRtcDateTime.year
      { p with year := .ofInt (p.year.toNat + n), day := d }).toNat =
        ((p.year.toNat + n) % 65536).toNat := fun d => toNat_ofInt _
  have hlast := daysInMonth_bounds ((p.year.toNat + n) % 65536).toNat p.month.toNat
  by_cases hday : daysInMonth ((p.year.toNat + n) % 65536).toNat p.month.toNat < p.day.toNat
  case neg =>
      rw [if_neg hday]
      refine iff_of_true rfl fun ⟨h₁, h₂, _, _, hleap⟩ => hday ?_
      rw [h₁, h₂, daysInMonth, if_pos rfl, if_neg hleap]
      decide
  rw [if_pos hday]
  have hday_le := hfields.day_le
  have hfeb : p.month.toNat = 2 := by
    by_contra hne
    rw [if_neg hne, daysInMonth_of_ne 1 ((p.year.toNat + n) % 65536).toNat hne] at hday_le
    omega
  rw [hfeb, if_pos rfl] at hday_le
  rw [hfeb, daysInMonth, if_pos rfl] at hday
  have hleap : ¬ IsLeap ((p.year.toNat + n) % 65536).toNat := fun hleap => by
    rw [if_pos hleap] at hday
    omega
  rw [if_neg hleap] at hday
  by_cases hvalid : 1 ≤ (p.year.toNat + n) % 65536 ∧ (p.year.toNat + n) % 65536 ≤ 9999
  case neg =>
      have hinvalid : ∀ d : UInt16, sceRtcCheckValid
          { p with year := .ofInt (p.year.toNat + n), day := d } = errorInvalidYear := fun d =>
        checkValid_year (by rw [hwrap]; omega)
      rw [finish_invalid (hinvalid _) (by decide), finish_invalid (hinvalid _) (by decide)]
      exact iff_of_true rfl fun h => hvalid ⟨h.2.2.1, h.2.2.2.1⟩
  refine iff_of_false (fun heq => ?_)
    (not_not_intro ⟨hfeb, by omega, hvalid.1, hvalid.2, hleap⟩)
  have hcut : sceRtcCheckValid (shifted p (12 * n)) = orbisOk := by
    refine (shifted_valid_iff hfields).2 ?_
    unfold wrappedYear monthsAfter
    omega
  rw [shifted_years hfields, if_pos (by rw [hfeb, daysInMonth, if_pos rfl, if_neg hleap]; omega)]
    at hcut
  have hlong : sceRtcCheckValid { p with year := .ofInt (p.year.toNat + n) } ≠ orbisOk := by
    intro hok
    have hle := ((sceRtcCheckValid_iff _).1 hok).1.day_le
    rw [toNat_ofInt, hfeb, daysInMonth, if_pos rfl, if_neg hleap] at hle
    exact Nat.not_le.2 hday hle
  rw [finish_eq, finish_eq, if_neg hlong, if_pos hcut] at heq
  split at heq
  · injection heq with heq
    exact hlong (congrArg Prod.fst heq)
  · cases heq

/-! ### Both functions -/

/-- The months are added to the second tick's date if and only if the first tick's date shifts to
the same one; years agree with twelve months each if and only if no leap day is lost. -/
theorem addMonths_addYears_iff (pTick1 pTick2 : OrbisRtcTick) (lAdd n : ℤ)
    (h : pTick2.tick.toNat ≤ lastTick) :
    (AddsMonths pTick1 pTick2 lAdd ↔ MonthsRight pTick1 pTick2 lAdd) ∧
      (YearsAgree pTick1 pTick2 n ↔
        n = 0 ∨ ¬ (1 ≤ ((sceRtcSetTick pTick2).year.toNat : ℤ) + n ∧
          ((sceRtcSetTick pTick2).year.toNat : ℤ) + n ≤ 9999) ∨
          ¬ LeapDayLost (sceRtcSetTick pTick1) n) :=
  ⟨addsMonths_iff h lAdd, yearsAgree_iff pTick1 pTick2 n⟩

/-- Nine months after the first of January 2000, and a year. -/
theorem addMonths_addYears_millennium :
    AddsMonths ⟨63082281600000000⟩ ⟨63082281600000000⟩ 9 ∧
      YearsAgree ⟨63082281600000000⟩ ⟨63082281600000000⟩ 1 := by
  have hset : sceRtcSetTick ⟨63082281600000000⟩ = millennium := by decide
  obtain ⟨hmonths, hyears⟩ := addMonths_addYears_iff ⟨63082281600000000⟩ ⟨63082281600000000⟩ 9 1
    (by decide)
  rw [MonthsRight, hset] at hmonths
  rw [hset] at hyears
  refine ⟨hmonths.2 (.inr (.inr ⟨?_, by decide⟩)), hyears.2 (.inr (.inr fun hlost => ?_))⟩
  · exact ⟨rfl, rfl, rfl, rfl, rfl, rfl, rfl, by decide⟩
  · exact absurd hlost.1 (by decide)

/-- A month after the first of January 2000 is written over the first of January 1, whose
February comes out. -/
theorem addMonths_first : ¬ AddsMonths ⟨0⟩ ⟨63082281600000000⟩ 1 := by
  have hset : sceRtcSetTick ⟨63082281600000000⟩ = millennium := by decide
  have hfirst : sceRtcSetTick ⟨0⟩ = { millennium with year := 1 } := by decide
  rw [addsMonths_iff (by decide), MonthsRight, hset, hfirst]
  rintro (h | h | h)
  · exact absurd h (by decide)
  · exact h (by decide)
  · exact absurd h.1.year (by decide)

end OrbitConsole.Rtc
