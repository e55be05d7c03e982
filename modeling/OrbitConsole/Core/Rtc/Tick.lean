import OrbitConsole.Common.Machine
import OrbitConsole.Core.Rtc.Calendar

/-!
# Date-times and ticks

A tick is a number of microseconds since 0001-01-01T00:00:00. `sceRtcGetTick`
converts a date-time to a tick and `sceRtcSetTick` converts back; both are given
pointers, which are not null here.
-/

namespace OrbitConsole.Rtc

open Exec

structure OrbisRtcDateTime where
  year : UInt16
  month : UInt16
  day : UInt16
  hour : UInt16
  minute : UInt16
  second : UInt16
  microsecond : UInt32
  deriving DecidableEq, Repr

structure OrbisRtcTick where
  tick : UInt64
  deriving DecidableEq, Repr

def orbisOk : ℤ := 0
def errorInvalidYear : ℤ := 0x80B50008 - 0x100000000
def errorInvalidMonth : ℤ := 0x80B50009 - 0x100000000
def errorInvalidDay : ℤ := 0x80B5000A - 0x100000000
def errorInvalidHour : ℤ := 0x80B5000B - 0x100000000
def errorInvalidMinute : ℤ := 0x80B5000C - 0x100000000
def errorInvalidSecond : ℤ := 0x80B5000D - 0x100000000
def errorInvalidMicrosecond : ℤ := 0x80B5000E - 0x100000000

def sceRtcCheckValid (pTime : OrbisRtcDateTime) : ℤ :=
  if pTime.year = 0 ∨ 9999 < pTime.year then errorInvalidYear
  else if pTime.month = 0 ∨ 12 < pTime.month then errorInvalidMonth
  else if pTime.day = 0 then errorInvalidDay
  else if daysInMonth pTime.year.toNat pTime.month.toNat < pTime.day.toNat then errorInvalidDay
  else if 24 ≤ pTime.hour then errorInvalidHour
  else if 60 ≤ pTime.minute then errorInvalidMinute
  else if 60 ≤ pTime.second then errorInvalidSecond
  else if 1000000 ≤ pTime.microsecond then errorInvalidMicrosecond
  else orbisOk

/-- A product of type `int`. The language does not define it when it is out of range. -/
def intMul (a b : ℕ) : Exec ℕ :=
  if a * b < 2147483648 then pure (a * b) else throw .undefined

/-- `sceRtcGetTick`: the returned code and what the pointers point to afterwards. -/
def sceRtcGetTick (pTime : OrbisRtcDateTime) (pTick : OrbisRtcTick) :
    Exec (ℤ × OrbisRtcDateTime × OrbisRtcTick) :=
  let isTimeValid := sceRtcCheckValid pTime
  if isTimeValid ≠ 0 then pure (isTimeValid, pTime, pTick)
  else do
    -- the year starts in March from here on, in the caller's date-time
    let pTime :=
      if 2 < pTime.month then { pTime with month := pTime.month - 3 }
      else { pTime with month := pTime.month + 9, year := pTime.year - 1 }
    let c := pTime.year.toNat / 100
    let ya := pTime.year.toNat - 100 * c
    let centuryDays ← intMul 146097 c
    let yearDays ← intMul 1461 ya
    let monthDays ← intMul 153 pTime.month.toNat
    let days : UInt64 := .ofNat
      (centuryDays >>> 2 + yearDays >>> 2 + (monthDays + 2) / 5 + pTime.day.toNat)
    let days := days - 307
    let days := days * 86400000000
    -- 3600000000 is a long, 60000000 and 1000000 are ints
    let minutes ← intMul pTime.minute.toNat 60000000
    let seconds ← intMul pTime.second.toNat 1000000
    let msec : UInt64 := .ofNat
      (pTime.hour.toNat * 3600000000 + minutes + seconds + pTime.microsecond.toNat)
    return (orbisOk, pTime, { tick := days + msec })

def sceRtcSetTick (pTick : OrbisRtcTick) : OrbisRtcDateTime :=
  let days : UInt64 := pTick.tick / 86400000000
  let msec : UInt64 := pTick.tick % 86400000000
  let days := days + 307
  let j : UInt32 := ((days <<< 2) - 1).toUInt32
  let ly : UInt32 := j / 146097
  let j := j - 146097 * ly
  let ld := j >>> 2
  let j := ((ld <<< 2) + 3) / 1461
  let ld := (((ld <<< 2) + 7) - 1461 * j) >>> 2
  let lm := (5 * ld - 3) / 153
  let ld := (5 * ld + 2 - 153 * lm) / 5
  let ly := 100 * ly + j
  let (lm, ly) := if lm < 10 then (lm + 3, ly) else (lm - 9, ly + 1)
  let hour := msec / 3600000000
  let msec := msec % 3600000000
  let minute := msec / 60000000
  let msec := msec % 60000000
  let second := msec / 1000000
  let msec := msec % 1000000
  { year := ly.toUInt16
    month := lm.toUInt16
    day := ld.toUInt16
    hour := hour.toUInt16
    minute := minute.toUInt16
    second := second.toUInt16
    microsecond := msec.toUInt32 }

/-! ### `sceRtcSetTick` -/

def dateTime (year month day time : ℕ) : OrbisRtcDateTime where
  year := .ofNat year
  month := .ofNat month
  day := .ofNat day
  hour := .ofNat (time / 3600000000)
  minute := .ofNat (time % 3600000000 / 60000000)
  second := .ofNat (time % 60000000 / 1000000)
  microsecond := .ofNat (time % 1000000)

theorem setTick_date {c y m d : ℕ} (h : MarchDate c y m d) (hc : c ≤ 5845) :
    let j : UInt32 := (((UInt64.ofNat (marchDays c y m d)) <<< 2) - 1).toUInt32
    let ld := (j - 146097 * (j / 146097)) >>> 2
    let j' := ((ld <<< 2) + 3) / 1461
    let ld' := (((ld <<< 2) + 7) - 1461 * j') >>> 2
    j / 146097 = .ofNat c ∧ j' = .ofNat y ∧ (5 * ld' - 3) / 153 = .ofNat m ∧
      (5 * ld' + 2 - 153 * ((5 * ld' - 3) / 153)) / 5 = .ofNat d := by
  obtain ⟨h₁, h₂, h₃, h₄, h₅, h₆⟩ := h.decode
  have hday := h.day_pos
  have hend := h.century_end
  have hyear := h.year_lt
  have hmonth := h.month_lt
  have hyearend := h.year_end
  generalize hr : 1461 * y / 4 + (153 * m + 2) / 5 + d = r at *
  generalize hs : (153 * m + 2) / 5 + d = s at *
  have hrle : r ≤ 36525 := by
    split at hend <;> omega
  have hsle : s ≤ 366 := by
    split at hyearend <;> omega
  have hn : marchDays c y m d = 146097 * c / 4 + r := by
    rw [marchDays, ← hr]
    omega
  generalize marchDays c y m d = n at *
  have hn₁ : 1 ≤ n := by omega
  have hn₂ : n ≤ 213550000 := by omega
  intro j ld j' ld'
  have hj : j.toNat = 4 * n - 1 := by
    simp only [j, UInt64.toNat_toUInt32, UInt64.toNat_sub, UInt64.toNat_shiftLeft,
      UInt64.toNat_ofNat', Nat.shiftLeft_eq]
    simp
    omega
  have hly : (j / 146097).toNat = c := by
    rw [UInt32.toNat_div, hj]
    exact h₁
  have hcle : 146097 * c ≤ 4 * n - 1 := by
    have := Nat.mul_div_le (4 * n - 1) 146097
    rwa [h₁] at this
  have hld : ld.toNat = r - 1 := by
    have hsub : (j - 146097 * (j / 146097)).toNat = 4 * n - 1 - 146097 * c := by
      have hmul : (146097 * (j / 146097)).toNat = 146097 * c := by
        rw [UInt32.toNat_mul, hly]
        exact Nat.mod_eq_of_lt (by simp; omega)
      rw [UInt32.toNat_sub_of_le _ _ (by rw [UInt32.le_iff_toNat_le, hmul, hj]; exact hcle),
        hmul, hj]
    rw [UInt32.toNat_shiftRight, hsub, Nat.shiftRight_eq_div_pow]
    exact h₂
  have hj' : j'.toNat = y := by
    have hadd : ((ld <<< 2) + 3).toNat = 4 * (r - 1) + 3 := by
      rw [UInt32.toNat_add, UInt32.toNat_shiftLeft, hld, Nat.shiftLeft_eq]
      simp
      omega
    rw [UInt32.toNat_div, hadd]
    exact h₃
  have hld' : ld'.toNat = s := by
    have hyle := Nat.mul_div_le (4 * (r - 1) + 3) 1461
    rw [h₃] at hyle
    have hmul : (1461 * j').toNat = 1461 * y := by
      rw [UInt32.toNat_mul, hj']
      exact Nat.mod_eq_of_lt (by simp; omega)
    have hadd : ((ld <<< 2) + 7).toNat = 4 * (r - 1) + 7 := by
      rw [UInt32.toNat_add, UInt32.toNat_shiftLeft, hld, Nat.shiftLeft_eq]
      simp
      omega
    rw [UInt32.toNat_shiftRight, UInt32.toNat_sub_of_le _ _
      (by rw [UInt32.le_iff_toNat_le, hmul, hadd]; omega), hmul, hadd,
      Nat.shiftRight_eq_div_pow]
    exact h₄
  have hlm : ((5 * ld' - 3) / 153).toNat = m := by
    have hmul : (5 * ld').toNat = 5 * s := by
      rw [UInt32.toNat_mul, hld']
      exact Nat.mod_eq_of_lt (by simp; omega)
    rw [UInt32.toNat_div, UInt32.toNat_sub_of_le _ _
      (by rw [UInt32.le_iff_toNat_le, hmul]; simp; omega), hmul]
    exact h₅
  have hd : ((5 * ld' + 2 - 153 * ((5 * ld' - 3) / 153)) / 5).toNat = d := by
    have hmle := Nat.mul_div_le (5 * s - 3) 153
    rw [h₅] at hmle
    have hmul : (153 * ((5 * ld' - 3) / 153)).toNat = 153 * m := by
      rw [UInt32.toNat_mul, hlm]
      exact Nat.mod_eq_of_lt (by simp; omega)
    have hadd : (5 * ld' + 2).toNat = 5 * s + 2 := by
      rw [UInt32.toNat_add, UInt32.toNat_mul, hld']
      simp
      omega
    rw [UInt32.toNat_div, UInt32.toNat_sub_of_le _ _
      (by rw [UInt32.le_iff_toNat_le, hmul, hadd]; omega), hmul, hadd]
    exact h₆
  have hofNat : ∀ {a : UInt32} {b : ℕ}, a.toNat = b → a = .ofNat b := fun {a b} h => by
    rw [← h, UInt32.ofNat_toNat]
  exact ⟨hofNat hly, hofNat hj', hofNat hlm, hofNat hd⟩

theorem sceRtcSetTick_eq {c y m d time : ℕ} (h : MarchDate c y m d) (hc : c ≤ 5845)
    (htime : time < 86400000000) {days : ℕ} (hdays : marchDays c y m d = days + 307)
    (hlt : 86400000000 * days + time < 2 ^ 64) :
    sceRtcSetTick ⟨.ofNat (86400000000 * days + time)⟩ =
      dateTime (civilYear c y m) (civilMonth m) d time := by
  obtain ⟨hly, hj, hlm, hld⟩ := setTick_date h hc
  have hmonth := h.month_lt
  have htick : (UInt64.ofNat (86400000000 * days + time)).toNat = 86400000000 * days + time := by
    rw [UInt64.toNat_ofNat']
    exact Nat.mod_eq_of_lt (by omega)
  have hdiv : (86400000000 * days + time) / 86400000000 = days := by omega
  have hmod : (86400000000 * days + time) % 86400000000 = time := by omega
  have hday : UInt64.ofNat (86400000000 * days + time) / 86400000000 + 307 =
      UInt64.ofNat (marchDays c y m d) := by
    apply UInt64.toNat.inj
    rw [UInt64.toNat_add, UInt64.toNat_div, htick, UInt64.toNat_ofNat', hdays]
    exact congrArg (fun n => (n + 307) % 2 ^ 64) hdiv
  have hmsec : UInt64.ofNat (86400000000 * days + time) % 86400000000 = UInt64.ofNat time := by
    apply UInt64.toNat.inj
    rw [UInt64.toNat_mod, htick, UInt64.toNat_ofNat', Nat.mod_eq_of_lt (by omega : time < 2 ^ 64)]
    exact hmod
  have htime' : (UInt64.ofNat time).toNat = time := by
    rw [UInt64.toNat_ofNat']
    exact Nat.mod_eq_of_lt (by omega)
  simp only [sceRtcSetTick, hday, hmsec]
  rw [hld, hlm, hj, hly, dateTime, OrbisRtcDateTime.mk.injEq]
  have hyear' : 100 * UInt32.ofNat c + UInt32.ofNat y = UInt32.ofNat (100 * c + y) := by
    rw [UInt32.ofNat_add, UInt32.ofNat_mul]
    rfl
  have hmarch : (if UInt32.ofNat m < 10 then
      (UInt32.ofNat m + 3, 100 * UInt32.ofNat c + UInt32.ofNat y)
      else (UInt32.ofNat m - 9, 100 * UInt32.ofNat c + UInt32.ofNat y + 1)) =
        (UInt32.ofNat (civilMonth m), UInt32.ofNat (civilYear c y m)) := by
    rw [hyear', civilYear, civilMonth]
    interval_cases m <;> simp [UInt32.ofNat_add]
  have hhour : (UInt64.ofNat time / 3600000000).toNat = time / 3600000000 := by
    rw [UInt64.toNat_div, htime']
    rfl
  have hminute : (UInt64.ofNat time % 3600000000 / 60000000).toNat =
      time % 3600000000 / 60000000 := by
    rw [UInt64.toNat_div, UInt64.toNat_mod, htime']
    rfl
  have hsecond : (UInt64.ofNat time % 3600000000 % 60000000 / 1000000).toNat =
      time % 60000000 / 1000000 := by
    rw [UInt64.toNat_div, UInt64.toNat_mod, UInt64.toNat_mod, htime']
    have hmod := Nat.mod_mod_of_dvd time (by decide : 60000000 ∣ 3600000000)
    exact congrArg (· / 1000000) hmod
  have hmicro : (UInt64.ofNat time % 3600000000 % 60000000 % 1000000).toNat =
      time % 1000000 := by
    rw [UInt64.toNat_mod, UInt64.toNat_mod, UInt64.toNat_mod, htime']
    have hmod₁ := Nat.mod_mod_of_dvd time (by decide : 60000000 ∣ 3600000000)
    have hmod₂ := Nat.mod_mod_of_dvd time (by decide : 1000000 ∣ 60000000)
    exact (congrArg (· % 1000000) hmod₁).trans hmod₂
  rw [hmarch]
  refine ⟨UInt32.toUInt16_ofNat' _, UInt32.toUInt16_ofNat' _, UInt32.toUInt16_ofNat' _,
    ?_, ?_, ?_, ?_⟩
  · rw [← hhour, ← UInt64.toUInt16_ofNat', UInt64.ofNat_toNat]
  · rw [← hminute, ← UInt64.toUInt16_ofNat', UInt64.ofNat_toNat]
  · rw [← hsecond, ← UInt64.toUInt16_ofNat', UInt64.ofNat_toNat]
  · rw [← hmicro, ← UInt64.toUInt32_ofNat', UInt64.ofNat_toNat]

/-! ### `sceRtcCheckValid` -/

theorem sceRtcCheckValid_iff (p : OrbisRtcDateTime) : sceRtcCheckValid p = orbisOk ↔
    ValidDate p.year.toNat p.month.toNat p.day.toNat ∧ p.year.toNat ≤ 9999 ∧ p.hour.toNat < 24 ∧
      p.minute.toNat < 60 ∧ p.second.toNat < 60 ∧ p.microsecond.toNat < 1000000 := by
  have hzero (a : UInt16) : a = 0 ↔ a.toNat = 0 := by
    rw [← UInt16.toNat_inj]
    rfl
  have hlt (a b : UInt16) : a < b ↔ a.toNat < b.toNat := UInt16.lt_iff_toNat_lt
  have hle (a b : UInt16) : a ≤ b ↔ a.toNat ≤ b.toNat := UInt16.le_iff_toNat_le
  have hle' (a b : UInt32) : a ≤ b ↔ a.toNat ≤ b.toNat := UInt32.le_iff_toNat_le
  have hlit : (9999 : UInt16).toNat = 9999 := rfl
  simp only [sceRtcCheckValid, hzero, hlt, hle, hle']
  simp only [UInt16.reduceToNat, UInt32.reduceToNat]
  constructor
  · intro hvalid
    split_ifs at hvalid <;> first | exact absurd hvalid (by decide) | skip
    exact ⟨⟨by omega, by omega, by omega, by omega, by omega⟩, by omega, by omega, by omega,
      by omega, by omega⟩
  · rintro ⟨⟨h₁, h₂, h₃, h₄, h₅⟩, h₆, h₇, h₈, h₉, h₁₀⟩
    rw [if_neg (by omega), if_neg (by omega), if_neg (by omega), if_neg (by omega),
      if_neg (by omega), if_neg (by omega), if_neg (by omega), if_neg (by omega)]

/-! ### `sceRtcGetTick` -/

def microseconds (p : OrbisRtcDateTime) : ℕ :=
  86400000000 * (dayNumber p.year.toNat p.month.toNat p.day.toNat) +
    (3600000000 * p.hour.toNat + 60000000 * p.minute.toNat + 1000000 * p.second.toNat +
      p.microsecond.toNat)

def marchDateTime (p : OrbisRtcDateTime) : OrbisRtcDateTime :=
  if 2 < p.month then { p with month := p.month - 3 }
  else { p with month := p.month + 9, year := p.year - 1 }

theorem intMul_eq {a b : ℕ} (h : a * b < 2147483648) : intMul a b = pure (a * b) :=
  if_pos h

theorem marchDateTime_fields {p : OrbisRtcDateTime}
    (h : ValidDate p.year.toNat p.month.toNat p.day.toNat) :
    (marchDateTime p).year.toNat = marchYear p.year.toNat p.month.toNat ∧
      (marchDateTime p).month.toNat = marchMonth p.month.toNat ∧
      (marchDateTime p).day = p.day ∧ (marchDateTime p).hour = p.hour ∧
      (marchDateTime p).minute = p.minute ∧ (marchDateTime p).second = p.second ∧
      (marchDateTime p).microsecond = p.microsecond := by
  obtain ⟨h₁, h₂, h₃, h₄, h₅⟩ := h
  have hlt : 2 < p.month ↔ 2 < p.month.toNat := UInt16.lt_iff_toNat_lt
  unfold marchDateTime marchYear marchMonth
  by_cases hmonth : 2 < p.month.toNat
  · rw [if_pos (hlt.mpr hmonth), if_pos hmonth, if_pos hmonth]
    have hsub : (p.month - 3).toNat = p.month.toNat - 3 :=
      UInt16.toNat_sub_of_le _ _ (UInt16.le_iff_toNat_le.mpr hmonth)
    exact ⟨rfl, hsub, rfl, rfl, rfl, rfl, rfl⟩
  · rw [if_neg (mt hlt.mp hmonth), if_neg hmonth, if_neg hmonth]
    have hsub : (p.year - 1).toNat = p.year.toNat - 1 :=
      UInt16.toNat_sub_of_le _ _ (UInt16.le_iff_toNat_le.mpr h₁)
    have hadd : (p.month + 9).toNat = p.month.toNat + 9 := by
      rw [UInt16.toNat_add]
      exact Nat.mod_eq_of_lt (by simp; omega)
    exact ⟨hsub, hadd, rfl, rfl, rfl, rfl, rfl⟩

theorem marchDateTime_ne {p : OrbisRtcDateTime}
    (h : ValidDate p.year.toNat p.month.toNat p.day.toNat) : marchDateTime p ≠ p := by
  intro heq
  obtain ⟨-, hmonth, -⟩ := marchDateTime_fields h
  rw [heq, marchMonth] at hmonth
  have hpos := h.month_pos
  split at hmonth <;> omega

theorem sceRtcGetTick_eq {p : OrbisRtcDateTime} (hvalid : sceRtcCheckValid p = orbisOk)
    (t : OrbisRtcTick) :
    sceRtcGetTick p t =
      if p.minute.toNat < 36 then
        pure (orbisOk, marchDateTime p, ⟨.ofNat (microseconds p)⟩)
      else throw .undefined := by
  obtain ⟨hdate, hyear, hhour, hminute, hsecond, hmicro⟩ := (sceRtcCheckValid_iff p).mp hvalid
  obtain ⟨hy, hm, hd, hh, hmi, hs, hus⟩ := marchDateTime_fields hdate
  have hmarch := dayNumber_eq_march hdate.year_pos hdate.month_pos hdate.month_le hdate.day_pos
  have hrange : marchYear p.year.toNat p.month.toNat ≤ 9999 ∧ marchMonth p.month.toNat < 12 := by
    have h₁ := hdate.month_le
    unfold marchYear marchMonth
    split <;> omega
  have hday : p.day.toNat ≤ 31 := by
    have h₁ := hdate.day_le
    unfold daysInMonth at h₁
    split_ifs at h₁ <;> omega
  simp only [sceRtcGetTick]
  rw [if_neg (fun hne => hne hvalid)]
  rw [show (if 2 < p.month then { p with month := p.month - 3 }
      else { p with month := p.month + 9, year := p.year - 1 }) = marchDateTime p from rfl]
  rw [hy, hm, hd, hh, hmi, hs, hus]
  generalize marchYear p.year.toNat p.month.toNat = y at *
  generalize marchMonth p.month.toNat = m at *
  have hya : y - 100 * (y / 100) = y % 100 := by omega
  rw [hya, intMul_eq (by omega), intMul_eq (by omega), intMul_eq (by omega),
    intMul_eq (by omega : p.second.toNat * 1000000 < 2147483648)]
  by_cases h36 : p.minute.toNat < 36
  · rw [if_pos h36, intMul_eq (by omega)]
    have htick : UInt64.ofNat ((146097 * (y / 100)) >>> 2 + (1461 * (y % 100)) >>> 2 +
        (153 * m + 2) / 5 + p.day.toNat) - 307 =
        UInt64.ofNat (dayNumber p.year.toNat p.month.toNat p.day.toNat) := by
      rw [Nat.shiftRight_eq_div_pow, Nat.shiftRight_eq_div_pow]
      rw [marchDays] at hmarch
      rw [show 2 ^ 2 = 4 from rfl, ← hmarch, UInt64.ofNat_add]
      exact UInt64.add_sub_cancel _ _
    have hmsec : UInt64.ofNat (p.hour.toNat * 3600000000 + p.minute.toNat * 60000000 +
        p.second.toNat * 1000000 + p.microsecond.toNat) =
        UInt64.ofNat (3600000000 * p.hour.toNat + 60000000 * p.minute.toNat +
          1000000 * p.second.toNat + p.microsecond.toNat) := by
      congr 1
      omega
    have htotal : UInt64.ofNat (microseconds p) =
        UInt64.ofNat (dayNumber p.year.toNat p.month.toNat p.day.toNat) * 86400000000 +
          UInt64.ofNat (3600000000 * p.hour.toNat + 60000000 * p.minute.toNat +
            1000000 * p.second.toNat + p.microsecond.toNat) := by
      rw [microseconds, UInt64.ofNat_add, UInt64.ofNat_mul,
        UInt64.mul_comm (UInt64.ofNat 86400000000)]
      rfl
    simp only [pure_bind]
    rw [htick, hmsec, htotal]
  · rw [if_neg h36]
    have hover : intMul p.minute.toNat 60000000 = throw .undefined :=
      if_neg (by omega)
    rw [hover]
    rfl

/-! ### The round trips -/

/-- 9999-12-31T23:59:59.999999. -/
def lastTick : ℕ := 315537897599999999

theorem microseconds_lt {p : OrbisRtcDateTime} (hvalid : sceRtcCheckValid p = orbisOk) :
    microseconds p < 2 ^ 62 := by
  obtain ⟨hdate, hyear, hhour, hminute, hsecond, hmicro⟩ := (sceRtcCheckValid_iff p).mp hvalid
  have hmarch := dayNumber_eq_march hdate.year_pos hdate.month_pos hdate.month_le hdate.day_pos
  have hrange := hdate.march.century_end
  have hle : marchYear p.year.toNat p.month.toNat ≤ 9999 := by
    unfold marchYear
    split <;> omega
  have hleap : (if marchYear p.year.toNat p.month.toNat / 100 % 4 = 3 then 1 else 0) ≤ 1 := by
    split <;> omega
  rw [microseconds]
  rw [marchDays] at hmarch
  omega

theorem sceRtcSetTick_microseconds {p : OrbisRtcDateTime}
    (hvalid : sceRtcCheckValid p = orbisOk) :
    sceRtcSetTick ⟨.ofNat (microseconds p)⟩ = p := by
  obtain ⟨hdate, hyear, hhour, hminute, hsecond, hmicro⟩ := (sceRtcCheckValid_iff p).mp hvalid
  have hmarch := dayNumber_eq_march hdate.year_pos hdate.month_pos hdate.month_le hdate.day_pos
  have hcentury : marchYear p.year.toNat p.month.toNat / 100 ≤ 5845 := by
    unfold marchYear
    split <;> omega
  have hlt := lt_trans (microseconds_lt hvalid) (by decide : 2 ^ 62 < 2 ^ 64)
  rw [microseconds] at hlt ⊢
  rw [sceRtcSetTick_eq hdate.march hcentury (by omega) hmarch.symm hlt,
    civilYear_march hdate.year_pos hdate.month_pos hdate.month_le,
    civilMonth_march hdate.month_pos hdate.month_le]
  cases p with
  | mk year month day hour minute second microsecond =>
      rw [dateTime, OrbisRtcDateTime.mk.injEq]
      simp only at hhour hminute hsecond hmicro
      have h₁ : (3600000000 * hour.toNat + 60000000 * minute.toNat + 1000000 * second.toNat +
          microsecond.toNat) / 3600000000 = hour.toNat := by omega
      have h₂ : (3600000000 * hour.toNat + 60000000 * minute.toNat + 1000000 * second.toNat +
          microsecond.toNat) % 3600000000 / 60000000 = minute.toNat := by omega
      have h₃ : (3600000000 * hour.toNat + 60000000 * minute.toNat + 1000000 * second.toNat +
          microsecond.toNat) % 60000000 / 1000000 = second.toNat := by omega
      have h₄ : (3600000000 * hour.toNat + 60000000 * minute.toNat + 1000000 * second.toNat +
          microsecond.toNat) % 1000000 = microsecond.toNat := by omega
      rw [h₁, h₂, h₃, h₄]
      exact ⟨UInt16.ofNat_toNat, UInt16.ofNat_toNat, UInt16.ofNat_toNat, UInt16.ofNat_toNat,
        UInt16.ofNat_toNat, UInt16.ofNat_toNat, UInt32.ofNat_toNat⟩

theorem exists_civilDate (n : ℕ) : ∃ c y m d, MarchDate c y m d ∧
    marchDays c y m d = n / 86400000000 + 307 ∧ ValidDate (civilYear c y m) (civilMonth m) d := by
  obtain ⟨c, y, m, d, hmarch, hn⟩ := exists_marchDate (n := n / 86400000000 + 307) (by omega)
  have hday := hmarch.day_pos
  have hdays : 146097 * c / 4 + 1461 * y / 4 + (153 * m + 2) / 5 + d = n / 86400000000 + 307 := hn
  refine ⟨c, y, m, d, hmarch, hn, hmarch.valid ?_⟩
  by_contra hzero
  have hle := hmarch.day_le (by omega)
  omega

theorem exists_microseconds {n : ℕ} (h : n ≤ lastTick) :
    ∃ p, sceRtcCheckValid p = orbisOk ∧ microseconds p = n := by
  rw [lastTick] at h
  obtain ⟨c, y, m, d, hmarch, hn, hdate⟩ := exists_civilDate n
  have hyear := hmarch.year_lt
  have hmonth := hmarch.month_lt
  have hday := hmarch.day_pos
  have hdays : 146097 * c / 4 + 1461 * y / 4 + (153 * m + 2) / 5 + d = n / 86400000000 + 307 := hn
  have hlast : civilYear c y m ≤ 9999 := by
    unfold civilYear
    split <;> omega
  have hdayle : d ≤ 31 := by
    have hle := hdate.day_le
    unfold daysInMonth at hle
    split_ifs at hle <;> omega
  have hmonthle := hdate.month_le
  have hto (a b : ℕ) (hab : a ≤ b) (hb : b < 65536) : (UInt16.ofNat a).toNat = a := by
    rw [UInt16.toNat_ofNat']
    exact Nat.mod_eq_of_lt (by omega)
  generalize htime : n % 86400000000 = time
  have htime' : time < 86400000000 := by omega
  have hhour := hto (time / 3600000000) 23 (by omega) (by omega)
  have hminute := hto (time % 3600000000 / 60000000) 59 (by omega) (by omega)
  have hsecond := hto (time % 60000000 / 1000000) 59 (by omega) (by omega)
  have hmicro : (UInt32.ofNat (time % 1000000)).toNat = time % 1000000 := by
    rw [UInt32.toNat_ofNat']
    exact Nat.mod_eq_of_lt (by omega)
  refine ⟨dateTime (civilYear c y m) (civilMonth m) d time, ?_, ?_⟩
  · rw [sceRtcCheckValid_iff]
    simp only [dateTime]
    rw [hto _ _ hlast (by omega), hto _ _ hmonthle (by omega), hto _ _ hdayle (by omega),
      hhour, hminute, hsecond, hmicro]
    exact ⟨hdate, hlast, by omega, by omega, by omega, by omega⟩
  · rw [microseconds]
    simp only [dateTime]
    rw [hto _ _ hlast (by omega), hto _ _ hmonthle (by omega), hto _ _ hdayle (by omega),
      hhour, hminute, hsecond, hmicro]
    have hnumber := dayNumber_eq_march hdate.year_pos hdate.month_pos hdate.month_le
      hdate.day_pos
    rw [marchYear_civil hmonth, marchMonth_civil hmonth, Nat.mul_add_div (by decide),
      Nat.mul_add_mod, Nat.div_eq_of_lt hyear, Nat.mod_eq_of_lt hyear, add_zero, hn] at hnumber
    omega

/-- What the conversions are for: a date-time stays as it is, its tick counts its microseconds,
and the tick gives the date-time back. -/
def RoundTrip (p : OrbisRtcDateTime) : Prop :=
  ∀ t, ∃ tick, sceRtcGetTick p t = pure (orbisOk, p, tick) ∧ tick.tick.toNat = microseconds p ∧
    sceRtcSetTick tick = p

/-- `sceRtcGetTick` changes every date-time it accepts. Its tick is right, and gives the
date-time back, up to minute 35; from minute 36 on `pTime->minute * 60000000` is too large for
an `int`. Ticks are turned into valid date-times, and have the same limit on the way back. -/
theorem getTick_setTick (p : OrbisRtcDateTime) (hvalid : sceRtcCheckValid p = orbisOk) :
    ¬ RoundTrip p ∧
    (∀ t, if p.minute.toNat < 36 then
        ∃ p' tick, p' ≠ p ∧ sceRtcGetTick p t = pure (orbisOk, p', tick) ∧
          tick.tick.toNat = microseconds p ∧ sceRtcSetTick tick = p
      else sceRtcGetTick p t = throw .undefined) ∧
    ∀ tick : OrbisRtcTick, tick.tick.toNat ≤ lastTick →
      sceRtcCheckValid (sceRtcSetTick tick) = orbisOk ∧
        microseconds (sceRtcSetTick tick) = tick.tick.toNat ∧
        ∀ t, (∃ p', sceRtcGetTick (sceRtcSetTick tick) t = pure (orbisOk, p', tick)) ↔
          (sceRtcSetTick tick).minute.toNat < 36 := by
  refine ⟨fun hround => ?_, fun t => ?_, fun tick htick => ?_⟩
  · obtain ⟨tick, hget, -⟩ := hround ⟨0⟩
    rw [sceRtcGetTick_eq hvalid] at hget
    split at hget
    · have hsame : marchDateTime p = p := by
        injection hget with hget
        injection hget with _ hget
        injection hget
      exact marchDateTime_ne ((sceRtcCheckValid_iff p).mp hvalid).1 hsame
    · cases hget
  · rw [sceRtcGetTick_eq hvalid]
    split
    · refine ⟨marchDateTime p, ⟨.ofNat (microseconds p)⟩,
        marchDateTime_ne ((sceRtcCheckValid_iff p).mp hvalid).1, rfl, ?_,
        sceRtcSetTick_microseconds hvalid⟩
      rw [UInt64.toNat_ofNat']
      exact Nat.mod_eq_of_lt (lt_trans (microseconds_lt hvalid) (by decide))
    · rfl
  · obtain ⟨q, hq, hmicro⟩ := exists_microseconds htick
    have hset : sceRtcSetTick tick = q := by
      have hq' := sceRtcSetTick_microseconds hq
      rwa [hmicro, UInt64.ofNat_toNat] at hq'
    rw [hset]
    refine ⟨hq, hmicro, fun t => ?_⟩
    rw [sceRtcGetTick_eq hq, hmicro, UInt64.ofNat_toNat]
    constructor
    · rintro ⟨p', hget⟩
      by_contra hminute
      rw [if_neg hminute] at hget
      cases hget
    · intro hminute
      exact ⟨_, if_pos hminute⟩

/-- 2000-01-01T00:00:00. -/
def millennium : OrbisRtcDateTime where
  year := 2000
  month := 1
  day := 1
  hour := 0
  minute := 0
  second := 0
  microsecond := 0

theorem getTick_setTick_millennium :
    sceRtcCheckValid millennium = orbisOk ∧ ¬ RoundTrip millennium :=
  ⟨by decide, (getTick_setTick millennium (by decide)).1⟩

theorem millennium_getTick : sceRtcGetTick millennium ⟨0⟩ =
    pure (orbisOk, { millennium with year := 1999, month := 10 }, ⟨63082281600000000⟩) := by
  decide

/-- The first of January 2000 comes back as the first of October 1999. -/
theorem millennium_changed : sceRtcCheckValid millennium = orbisOk ∧ ¬ RoundTrip millennium := by
  refine ⟨by decide, fun hround => ?_⟩
  obtain ⟨tick, hget, -⟩ := hround ⟨0⟩
  rw [millennium_getTick] at hget
  injection hget with hget
  injection hget with _ hget
  injection hget with hget
  exact absurd hget (by decide)

end OrbitConsole.Rtc
