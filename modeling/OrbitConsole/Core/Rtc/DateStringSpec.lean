import OrbitConsole.Core.Rtc.AddMonths
import OrbitConsole.Core.Rtc.DateString

/-!
# What the date strings give back
-/

namespace OrbitConsole.Rtc

open Exec StdString

def truncated (t : OrbisRtcTick) (unit : ℕ) : OrbisRtcTick :=
  ⟨.ofNat (t.tick.toNat / unit * unit)⟩

/-- The string of a tick is parsed to the tick in hundredths of a second, whatever is
overwritten. -/
def RoundTripRFC3339 (t : OrbisRtcTick) (iTimeZoneMinutes : ℤ) : Prop :=
  ∀ currentTick pTickUtc, ∃ s,
    sceRtcFormatRFC3339Precise currentTick (some t) iTimeZoneMinutes = pure (orbisOk, s) ∧
      sceRtcParseRFC3339 pTickUtc s = pure (orbisOk, truncated t 10000)

def RoundTripRFC2822 (t : OrbisRtcTick) (iTimeZoneMinutes : ℤ) : Prop :=
  ∀ sdkVersion currentTick pszDateTime pTickUtc, ∃ s,
    sceRtcFormatRFC2822 sdkVersion currentTick pszDateTime (some t) iTimeZoneMinutes =
        pure (orbisOk, s) ∧
      sceRtcParseDateTime pTickUtc s = pure (orbisOk, truncated t 1000000)

/-- The tick whose date is written. -/
def localTick (t : OrbisRtcTick) (iTimeZoneMinutes : ℤ) : OrbisRtcTick :=
  ⟨.ofInt (iTimeZoneMinutes * 60000000) + t.tick⟩

/-- A year of four digits is at its place in both strings. The offset is added twice, or added
and taken back when it is within the hour, where its sign is lost. The fraction is written in
up to two digits of milliseconds and read as microseconds, and one digit hides the time zone. -/
def LongYearRight (p : OrbisRtcDateTime) (iTimeZoneMinutes : ℤ) : Prop :=
  1000 ≤ p.year.toNat ∧ p.minute.toNat < 36 ∧
    (iTimeZoneMinutes = 0 ∧ p.microsecond.toNat < 1000 ∨
      -60 < iTimeZoneMinutes ∧ iTimeZoneMinutes < 0 ∧ p.microsecond.toNat = 0)

/-- A year of one digit moves every number to the place of the one before it: month, day and
hour are the same, and the local time without its hour is the time that is meant. -/
def ShortYearRight (p : OrbisRtcDateTime) (iTimeZoneMinutes : ℤ) : Prop :=
  p.year.toNat < 10 ∧ p.month.toNat = p.day.toNat ∧ p.day.toNat = p.hour.toNat ∧
    p.minute.toNat < 24 ∧ p.microsecond.toNat ≠ 0 ∧
    p.microsecond.toNat / 1000 = p.second.toNat ∧
    iTimeZoneMinutes = 60 * p.hour.toNat - 59 * p.minute.toNat - p.second.toNat ∧
    p.second.toNat = iTimeZoneMinutes.natAbs / 600 ∧
    (iTimeZoneMinutes < 0 → p.second.toNat = 0)

/-! ### The parts of the strings -/

theorem exists_pair {s : List Char} (h : s.length = 2) : ∃ a b, s = [a, b] :=
  List.length_eq_two.1 h

theorem length_toDecimal_digit {n : ℕ} (h : n < 10) : (toDecimal n).length = 1 := by
  rw [toDecimal, Nat.toDigits_of_lt_base h]
  rfl

theorem twoDigits_spec {n : ℕ} (h : n < 100) :
    ∃ a b, twoDigits n = [a, b] ∧ IsDecimal [a, b] n := by
  unfold twoDigits
  by_cases hlt : n < 10
  · obtain ⟨a, ha⟩ := List.length_eq_one_iff.1 (length_toDecimal_digit hlt)
    rw [if_pos hlt, ha]
    exact ⟨_, _, rfl, (ha ▸ isDecimal_toDecimal n).zero_cons⟩
  · obtain ⟨a, b, hab⟩ := exists_pair (length_toDecimal (k := 1) (by omega) (by omega) h)
    rw [if_neg hlt, hab]
    exact ⟨a, b, rfl, hab ▸ isDecimal_toDecimal n⟩

/-- The offset that is read: the sign of an offset within the hour is lost. -/
def readOffset (iTimeZoneMinutes : ℤ) : ℤ :=
  if iTimeZoneMinutes ≤ -60 then iTimeZoneMinutes else iTimeZoneMinutes.natAbs

theorem timeZone_spec (colon : List Char) {z : ℤ} (h : -1440 < z ∧ z < 1440) : ∃ a b r,
    timeZone colon z = (if z ≤ -60 then '-' else '+') :: a :: b :: (colon ++ r) ∧
      IsDecimal [a, b] (z.natAbs / 60) ∧ IsDecimal r (z.natAbs % 60) ∧ r.length ≤ 2 := by
  have hhours : (z.tdiv 60).natAbs = z.natAbs / 60 := Int.natAbs_tdiv z 60
  have hrest : (z.tmod 60).natAbs = z.natAbs % 60 := Int.natAbs_tmod z 60
  have hsign : z.tdiv 60 < 0 ↔ z ≤ -60 := by
    obtain hpos | hneg := Int.le_total 0 z
    · rw [Int.tdiv_eq_ediv_of_nonneg hpos]
      omega
    · rw [← Int.neg_neg z, Int.neg_tdiv, Int.tdiv_eq_ediv_of_nonneg (by omega)]
      omega
  obtain ⟨a, b, hab, hdec⟩ := twoDigits_spec (n := z.natAbs / 60) (by omega)
  have hzero : z.tmod 60 = 0 ↔ z.natAbs % 60 = 0 := by
    omega
  unfold timeZone
  dsimp only
  simp only [hhours, hrest, hsign, hzero, hab]
  by_cases hz : z.natAbs % 60 = 0
  · refine ⟨a, b, ['0', '0'], ?_, hdec, ?_, by simp⟩
    · rw [if_pos hz]
      rfl
    · rw [hz]
      exact ⟨by simp, by simp, rfl⟩
  · refine ⟨a, b, toDecimal (z.natAbs % 60), ?_, hdec, isDecimal_toDecimal _, ?_⟩
    · rw [if_neg hz]
      rfl
    · exact (Nat.length_toDigits_le_iff (by decide) (by decide)).2 (by omega)

theorem tickAddMinutes_eq (tick : OrbisRtcTick) {z : ℤ} (h : -1440 < z ∧ z < 1440) :
    sceRtcTickAddMinutes tick z = pure (orbisOk, localTick tick z) :=
  if_pos (by omega)

@[simp] theorem field_succ (c : Char) (s : List Char) (pos count : ℕ) :
    field (c :: s) (pos + 1) count = field s pos count := by
  rw [field, field, substr_succ]

@[simp] theorem field_zero (s : List Char) (count : ℕ) : field s 0 count = stoi (s.take count) := by
  rw [field, substr_zero]
  rfl

@[simp] theorem timeZoneOffset_succ (c : Char) (s : List Char) (hours minutes : ℕ) :
    timeZoneOffset (c :: s) (hours + 1) (minutes + 1) = timeZoneOffset s hours minutes := by
  rw [timeZoneOffset, timeZoneOffset, field_succ, field_succ]

/-- What is done with the time zone at the end of a string, its minutes being behind a colon
or not. -/
def addZone (pTickUtc : OrbisRtcTick) (zone : List Char) (minutes : ℕ) :
    Exec (ℤ × OrbisRtcTick) := do
  let sign ← charAt zone 0
  if sign = '-' then
    let offset ← timeZoneOffset zone 1 minutes
    let (_, pTickUtc) ← sceRtcTickAddMinutes pTickUtc (offset * -1)
    return (orbisOk, pTickUtc)
  else if sign = '+' then
    let offset ← timeZoneOffset zone 1 minutes
    let (_, pTickUtc) ← sceRtcTickAddMinutes pTickUtc offset
    return (orbisOk, pTickUtc)
  else return (orbisOk, pTickUtc)

theorem addZone_plus (tick : OrbisRtcTick) (zone : List Char) (minutes : ℕ) : (do
    let sign ← charAt zone 0
    if sign = '+' then
      let offset ← timeZoneOffset zone 1 minutes
      let (_, tick) ← sceRtcTickAddMinutes tick offset
      return (orbisOk, tick)
    else if sign = '-' then
      let offset ← timeZoneOffset zone 1 minutes
      let (_, tick) ← sceRtcTickAddMinutes tick (offset * -1)
      return (orbisOk, tick)
    else return (orbisOk, tick)) = addZone tick zone minutes := by
  unfold addZone
  congr 1
  funext sign
  by_cases hplus : sign = '+'
  · rw [if_pos hplus, hplus, if_neg (by decide), if_pos rfl]
  · rw [if_neg hplus, if_neg hplus]

theorem addZone_eq (tick : OrbisRtcTick) {z : ℤ} (h : -1440 < z ∧ z < 1440) (colon : List Char) :
    addZone tick (timeZone colon z) (colon.length + 3) =
      pure (orbisOk, localTick tick (readOffset z)) := by
  obtain ⟨a, b, r, hzone, hhours, hminutes, hlen⟩ := timeZone_spec colon h
  have hfield : field (timeZone colon z) (colon.length + 3) 2 = pure ((z.natAbs % 60 : ℕ) : ℤ) := by
    rw [hzone, field_succ, field_succ, field_succ, field, substr, if_pos (by simp),
      List.drop_left, pure_bind, List.take_of_length_le hlen]
    exact hminutes.stoi (by omega)
  have hoffset : timeZoneOffset (timeZone colon z) 1 (colon.length + 3) =
      pure (z.natAbs : ℤ) := by
    rw [timeZoneOffset, hfield, hzone, field_succ, field_zero]
    change (do let x ← stoi [a, b]; _) = _
    rw [hhours.stoi (by omega), pure_bind, pure_bind]
    congr 1
    omega
  rw [addZone, hoffset, hzone, charAt_zero, pure_bind, pure_bind]
  unfold readOffset
  by_cases hz : z ≤ -60
  · rw [if_pos hz, if_pos hz, if_pos rfl, show (z.natAbs : ℤ) * -1 = z by omega,
      tickAddMinutes_eq _ h]
    rfl
  · rw [if_neg hz, if_neg hz, if_neg (by decide), if_pos rfl, pure_bind,
      tickAddMinutes_eq _ (by omega)]
    rfl

/-! ### Years of four digits -/

theorem Fields.digits {p : OrbisRtcDateTime} (h : Fields p) :
    (∃ a b, twoDigits p.month.toNat = [a, b] ∧ IsDecimal [a, b] p.month.toNat) ∧
      (∃ a b, twoDigits p.day.toNat = [a, b] ∧ IsDecimal [a, b] p.day.toNat) ∧
      (∃ a b, twoDigits p.hour.toNat = [a, b] ∧ IsDecimal [a, b] p.hour.toNat) ∧
      (∃ a b, twoDigits p.minute.toNat = [a, b] ∧ IsDecimal [a, b] p.minute.toNat) ∧
      ∃ a b, twoDigits p.second.toNat = [a, b] ∧ IsDecimal [a, b] p.second.toNat := by
  have hmonth := h.month_le
  have hday := h.day_le
  have hbounds := daysInMonth_bounds 1 p.month.toNat
  have hday' : p.day.toNat < 100 := by
    split at hday <;> omega
  have hhour := h.hour
  have hminute := h.minute
  have hsecond := h.second
  exact ⟨twoDigits_spec (by omega), twoDigits_spec hday', twoDigits_spec (by omega),
    twoDigits_spec (by omega), twoDigits_spec (by omega)⟩

theorem ofInt_toNat (n : UInt16) : UInt16.ofInt (n.toNat : ℤ) = n := by
  apply UInt16.toNat.inj
  have hlt := n.toNat_lt
  rw [toNat_ofInt]
  omega

theorem parseRFC3339_long {p : OrbisRtcDateTime} (hp : Fields p) (hyear : 1000 ≤ p.year.toNat)
    (hyear' : p.year.toNat ≤ 9999) (c d : Char) (zone : List Char) (tick : OrbisRtcTick) :
    sceRtcParseRFC3339 tick (toDecimal p.year.toNat ++ '-' :: (twoDigits p.month.toNat ++
      '-' :: (twoDigits p.day.toNat ++ 'T' :: (twoDigits p.hour.toNat ++
        ':' :: (twoDigits p.minute.toNat ++ ':' :: (twoDigits p.second.toNat ++
          '.' :: c :: d :: zone)))))) = (do
      let microsecond ← stoi [c, d]
      let (_, _, tick) ← sceRtcGetTick { p with microsecond := .ofInt microsecond } tick
      addZone tick zone 4) := by
  obtain ⟨⟨m₁, m₂, hmonth, hm⟩, ⟨d₁, d₂, hday, hd⟩, ⟨h₁, h₂, hhour, hh⟩, ⟨i₁, i₂, hminute, hi⟩,
    s₁, s₂, hsecond, hs⟩ := hp.digits
  obtain ⟨y₁, y₂, y₃, y₄, hdigits⟩ : ∃ a b c d, toDecimal p.year.toNat = [a, b, c, d] := by
    have hlen := length_toDecimal (n := p.year.toNat) (k := 3) (by omega) (by omega) (by omega)
    match hlist : toDecimal p.year.toNat, hlen with
    | [a, b, c, d], _ => exact ⟨a, b, c, d, rfl⟩
  have hy := isDecimal_toDecimal p.year.toNat
  rw [hdigits] at hy
  have hm' := p.month.toNat_lt
  have hd' := p.day.toNat_lt
  have hh' := p.hour.toNat_lt
  have hi' := p.minute.toNat_lt
  have hs' := p.second.toNat_lt
  rw [hdigits, hmonth, hday, hhour, hminute, hsecond]
  simp only [List.cons_append, List.nil_append, sceRtcParseRFC3339, field_succ, field_zero,
    charAt_succ, charAt_zero, List.take_succ_cons, List.take_zero, hy.stoi (by omega),
    hm.stoi (by omega), hd.stoi (by omega), hh.stoi (by omega), hi.stoi (by omega),
    hs.stoi (by omega), pure_bind, if_true, timeZoneOffset_succ, ofInt_toNat]
  rfl

theorem isDecimal_pair {a b : Char} (ha : a.isDigit = true) (hb : b.isDigit = true) :
    ∃ n < 100, IsDecimal [a, b] n := by
  have hzero : '0'.toNat = 48 := rfl
  have hnine : '9'.toNat = 57 := rfl
  have ha' := Char.isDigit_iff_toNat.1 ha
  have hb' := Char.isDigit_iff_toNat.1 hb
  refine ⟨Nat.ofDigitChars 10 [a, b] 0, ?_, by simp, by simp [ha, hb], rfl⟩
  simp only [Nat.ofDigitChars_cons, Nat.ofDigitChars_nil, hzero]
  omega

theorem fraction_spec (n : ℕ) :
    n = 0 ∧ fraction n = ['.', '0', '0'] ∨
      0 < n ∧ n < 10000 ∧ (∃ c, fraction n = ['.', c] ∧ IsDecimal [c] (n / 1000)) ∨
      10000 ≤ n ∧ ∃ c d v, fraction n = ['.', c, d] ∧ IsDecimal [c, d] v ∧ v < 100 := by
  unfold fraction
  rcases Nat.eq_zero_or_pos n with hn | hn
  · exact .inl ⟨hn, if_neg (by omega)⟩
  rw [if_pos (by omega)]
  by_cases hone : n < 10000
  · obtain ⟨c, hc⟩ := List.length_eq_one_iff.1 (length_toDecimal_digit (n := n / 1000) (by omega))
    refine .inr (.inl ⟨hn, hone, c, ?_, hc ▸ isDecimal_toDecimal _⟩)
    rw [hc]
    rfl
  · refine .inr (.inr ⟨by omega, ?_⟩)
    have hdec := isDecimal_toDecimal (n / 1000)
    have hlen := mt (Nat.length_toDigits_le_iff (n := n / 1000) (k := 1) (by decide : 1 < 10)
      (by decide)).1 (by omega)
    match hlist : toDecimal (n / 1000) with
    | [] => exact absurd hlist hdec.ne_nil
    | [a] =>
        rw [toDecimal] at hlist
        rw [hlist] at hlen
        exact absurd (by simp) hlen
    | a :: b :: rest =>
        rw [hlist] at hdec
        obtain ⟨v, hv, hab⟩ := isDecimal_pair (hdec.isDigit a (by simp)) (hdec.isDigit b (by simp))
        exact ⟨a, b, v, rfl, hab, hv⟩

variable {p : OrbisRtcDateTime} {t : OrbisRtcTick} {z : ℤ}

theorem checkValid_microsecond (hvalid : sceRtcCheckValid p = orbisOk) {v : ℕ} (hv : v < 1000000) :
    sceRtcCheckValid { p with microsecond := .ofInt v } = orbisOk := by
  obtain ⟨hdate, hyear, hhour, hminute, hsecond, -⟩ := (sceRtcCheckValid_iff p).1 hvalid
  refine (sceRtcCheckValid_iff _).2 ⟨hdate, hyear, hhour, hminute, hsecond, ?_⟩
  simp only [UInt32.ofInt, UInt32.toNat_ofNat']
  omega

theorem getTick_microsecond (hvalid : sceRtcCheckValid p = orbisOk) {v : ℕ} (hv : v < 1000000)
    (tick : OrbisRtcTick) : sceRtcGetTick { p with microsecond := .ofInt v } tick =
      if p.minute.toNat < 36 then
        pure (orbisOk, marchDateTime { p with microsecond := .ofInt v },
          ⟨.ofNat (microseconds p - p.microsecond.toNat + v)⟩)
      else throw .undefined := by
  have htotal : microseconds { p with microsecond := .ofInt v } =
      microseconds p - p.microsecond.toNat + v := by
    simp only [microseconds, UInt32.ofInt, UInt32.toNat_ofNat']
    omega
  rw [sceRtcGetTick_eq (checkValid_microsecond hvalid hv), htotal]

theorem toNat_ofInt64 (n : ℤ) : (UInt64.ofInt n).toNat = (n % 18446744073709551616).toNat := by
  simp only [UInt64.ofInt, UInt64.toNat_ofNat']
  omega

def seconds (p : OrbisRtcDateTime) : ℕ :=
  86400 * dayNumber p.year.toNat p.month.toNat p.day.toNat +
    (3600 * p.hour.toNat + 60 * p.minute.toNat + p.second.toNat)

theorem microseconds_eq (p : OrbisRtcDateTime) :
    microseconds p = 1000000 * seconds p + p.microsecond.toNat := by
  rw [microseconds, seconds]
  omega

theorem exists_seconds (hmicro : p.microsecond.toNat < 1000000)
    (hlocal : (microseconds p : ℤ) = t.tick.toNat + z * 60000000) : ∃ w : ℕ,
    (w : ℤ) = seconds p - 60 * z ∧ t.tick.toNat / 1000000 * 1000000 = 1000000 * w ∧
      t.tick.toNat / 10000 * 10000 = 1000000 * w + p.microsecond.toNat / 10000 * 10000 := by
  rw [microseconds_eq] at hlocal
  obtain ⟨w, hw⟩ : ∃ w : ℕ, (w : ℤ) = seconds p - 60 * z :=
    ⟨(seconds p - 60 * z).toNat, by omega⟩
  have htick : t.tick.toNat = 1000000 * w + p.microsecond.toNat := by omega
  refine ⟨w, hw, ?_, ?_⟩
  · rw [htick, Nat.mul_add_div (by decide), Nat.div_eq_of_lt hmicro, Nat.add_zero, Nat.mul_comm]
  · rw [htick, show 1000000 * w = 10000 * (100 * w) by omega, Nat.mul_add_div (by decide),
      Nat.add_mul, Nat.mul_comm (100 * w)]

theorem localTick_eq_iff {n m : ℕ} (hn : n < 2 ^ 62) (hm : m ≤ lastTick)
    (hz : -1440 < z ∧ z < 1440) :
    localTick ⟨.ofNat n⟩ z = ⟨.ofNat m⟩ ↔ (n : ℤ) + z * 60000000 = m := by
  have hlast : lastTick = 315537897599999999 := rfl
  rw [localTick, OrbisRtcTick.mk.injEq, ← UInt64.toNat_inj, UInt64.toNat_add, toNat_ofInt64,
    UInt64.toNat_ofNat', UInt64.toNat_ofNat', Nat.mod_eq_of_lt (by omega : n < 2 ^ 64),
    Nat.mod_eq_of_lt (by omega : m < 2 ^ 64)]
  obtain hpos | hneg := Int.le_total 0 z
  · rw [Int.emod_eq_of_lt (by omega) (by omega)]
    rw [Nat.mod_eq_of_lt (by omega)]
    omega
  · have hmod : z * 60000000 % 18446744073709551616 = z * 60000000 + 18446744073709551616 ∨
        z = 0 := by
      omega
    obtain hmod | rfl := hmod
    · rw [hmod]
      omega
    · omega

theorem localTick_zero (tick : OrbisRtcTick) : localTick tick 0 = tick := by
  obtain ⟨n⟩ := tick
  rw [localTick, OrbisRtcTick.mk.injEq, ← UInt64.toNat_inj, UInt64.toNat_add, toNat_ofInt64]
  have hlt := n.toNat_lt
  dsimp only
  omega

def zoneRFC3339 (z : ℤ) : List Char := if z = 0 then ['Z'] else timeZone [':'] z

theorem addZone_zoneRFC3339 (tick : OrbisRtcTick) (hz : -1440 < z ∧ z < 1440) :
    addZone tick (zoneRFC3339 z) 4 = pure (orbisOk, localTick tick (readOffset z)) := by
  unfold zoneRFC3339
  by_cases hzero : z = 0
  · rw [if_pos hzero, hzero, show readOffset 0 = 0 from rfl, localTick_zero]
    rfl
  · rw [if_neg hzero]
    exact addZone_eq tick hz [':']

theorem exists_zoneRFC3339 (hz : -1440 < z ∧ z < 1440) : ∃ c zone, zoneRFC3339 z = c :: zone ∧
    c.isDigit = false ∧ c ≠ '.' ∧ (∃ e, charAt zone 0 = pure e ∧ e ≠ '.') ∧
      ∀ tick, addZone tick zone 4 = pure (orbisOk, tick) := by
  unfold zoneRFC3339
  by_cases hzero : z = 0
  · rw [if_pos hzero]
    exact ⟨'Z', [], rfl, by decide, by decide, ⟨_, rfl, by decide⟩, fun tick => rfl⟩
  · obtain ⟨a, b, r, hzone, hhours, -⟩ := timeZone_spec [':'] hz
    rw [if_neg hzero, hzone]
    refine ⟨_, _, rfl, ?_, ?_, ⟨a, charAt_zero .., ?_⟩, fun tick => ?_⟩
    · split <;> decide
    · split <;> decide
    · exact isDigit_ne (hhours.isDigit a (by simp)) (by decide)
    · obtain ⟨-, hminus, hplus⟩ := digit_ne (hhours.isDigit a (by simp))
      rw [addZone, charAt_zero, pure_bind, if_neg hminus, if_neg hplus]

theorem fraction_zone_spec (n : ℕ) (hz : -1440 < z ∧ z < 1440) :
    ∃ (c d e : Char) (zone : List Char) (v : ℕ) (o : ℤ),
      fraction n ++ zoneRFC3339 z = '.' :: c :: d :: zone ∧ stoi [c, d] = pure (v : ℤ) ∧
        v < 100 ∧ charAt zone 0 = pure e ∧ e ≠ '.' ∧
        (∀ tick, addZone tick zone 4 = pure (orbisOk, localTick tick o)) ∧
        (n = 0 ∧ v = 0 ∧ o = readOffset z ∨
          0 < n ∧ n < 10000 ∧ v = n / 1000 ∧ o = 0 ∨
          10000 ≤ n ∧ v < 100 ∧ o = readOffset z) := by
  obtain ⟨d, zone, hzone, hd, hd', ⟨e, hcharAt, he⟩, hnone⟩ := exists_zoneRFC3339 hz
  have hhead : charAt (zoneRFC3339 z) 0 = pure d := by
    rw [hzone, charAt_zero]
  have hadd := fun tick => addZone_zoneRFC3339 tick hz
  obtain ⟨hn, hfrac⟩ | ⟨hpos, hn, c, hfrac, hc⟩ | ⟨hn, c, c', v, hfrac, hcc, hv⟩ := fraction_spec n
  · have hzero : IsDecimal ['0', '0'] 0 := ⟨by simp, by simp, rfl⟩
    refine ⟨'0', '0', d, zoneRFC3339 z, 0, _, ?_, hzero.stoi (by omega), by omega, hhead, hd', hadd,
      .inl ⟨hn, rfl, rfl⟩⟩
    rw [hfrac]
    rfl
  · refine ⟨c, d, e, zone, n / 1000, 0, ?_, hc.stoi_append (by omega) [d] (by simp [hd]), by omega,
      hcharAt, he, fun tick => ?_, .inr (.inl ⟨hpos, hn, rfl, rfl⟩)⟩
    · rw [hfrac, hzone]
      rfl
    · rw [localTick_zero]
      exact hnone tick
  · refine ⟨c, c', d, zoneRFC3339 z, v, _, ?_, hcc.stoi (by omega), hv, hhead, hd', hadd,
      .inr (.inr ⟨hn, hv, rfl⟩)⟩
    rw [hfrac]
    rfl

theorem formatRFC3339_eq (p : OrbisRtcDateTime) (z : ℤ) :
    formatRFC3339 p z = toDecimal p.year.toNat ++ '-' :: (twoDigits p.month.toNat ++
      '-' :: (twoDigits p.day.toNat ++ 'T' :: (twoDigits p.hour.toNat ++
        ':' :: (twoDigits p.minute.toNat ++ ':' :: (twoDigits p.second.toNat ++
          (fraction p.microsecond.toNat ++ zoneRFC3339 z)))))) := rfl

theorem parse_formatRFC3339_long (hvalid : sceRtcCheckValid p = orbisOk)
    (hp : Fields p) (hyear : 1000 ≤ p.year.toNat) (hz : -1440 < z ∧ z < 1440) : ∃ v o,
    (∀ tick, sceRtcParseRFC3339 tick (formatRFC3339 p z) =
      if p.minute.toNat < 36 then
        pure (orbisOk, localTick ⟨.ofNat (microseconds p - p.microsecond.toNat + v)⟩ o)
      else throw .undefined) ∧
    (p.microsecond.toNat = 0 ∧ v = 0 ∧ o = readOffset z ∨
      0 < p.microsecond.toNat ∧ p.microsecond.toNat < 10000 ∧ v = p.microsecond.toNat / 1000 ∧
        o = 0 ∨
      10000 ≤ p.microsecond.toNat ∧ v < 100 ∧ o = readOffset z) := by
  have hyear' := ((sceRtcCheckValid_iff p).1 hvalid).2.1
  obtain ⟨c, d, e, zone, v, o, hstring, hread, hv, -, -, hadd, hcases⟩ :=
    fraction_zone_spec p.microsecond.toNat hz
  refine ⟨v, o, fun tick => ?_, hcases⟩
  rw [formatRFC3339_eq, hstring, parseRFC3339_long hp hyear hyear', hread, pure_bind,
    getTick_microsecond hvalid (by omega)]
  split
  · exact hadd _
  · rfl

theorem weekDayName_spec (hvalid : sceRtcCheckValid p = orbisOk) (sdkVersion : ℤ) : ∃ a b c,
    weekDayName (sceRtcGetDayOfWeek sdkVersion p.year.toNat p.month.toNat p.day.toNat) =
      [a, b, c, ',', ' '] := by
  obtain ⟨hdate, hyear, -⟩ := (sceRtcCheckValid_iff p).1 hvalid
  obtain ⟨h₁, h₂, h₃, h₄, h₅⟩ := hdate
  have hdays : sceRtcGetDaysInMonth p.year.toNat p.month.toNat =
      daysInMonth p.year.toNat p.month.toNat := by
    rw [sceRtcGetDaysInMonth, if_neg (by omega), if_neg (by omega)]
    rfl
  rw [sceRtcGetDayOfWeek, if_neg (by omega), if_neg (by omega), hdays, if_neg (by omega)]
  have hlt := Nat.mod_lt (dayNumber (p.year.toNat : ℤ).toNat (p.month.toNat : ℤ).toNat
    (p.day.toNat : ℤ).toNat + 1) (by decide : 0 < 7)
  generalize (dayNumber _ _ _ + 1) % 7 = n at *
  interval_cases n <;> exact ⟨_, _, _, rfl⟩

theorem monthName_spec {month : ℕ} (h : 1 ≤ month ∧ month ≤ 12) : ∃ a b c,
    monthName month = [a, b, c, ' '] ∧ getMonthFromString [a, b, c] = month ∧
      ∀ s, stoi (a :: s) = throw (.assertion "std::invalid_argument") := by
  obtain ⟨h₁, h₂⟩ := h
  interval_cases month <;>
    exact ⟨_, _, _, rfl, rfl, stoi_invalid (by decide) (by decide) (by decide) (by decide)⟩

theorem formatRFC2822_eq (hvalid : sceRtcCheckValid p = orbisOk) (sdkVersion : ℤ) (z : ℤ) :
    ∃ a b c, formatRFC2822 sdkVersion p z = a :: b :: c :: ',' :: ' ' ::
      (twoDigits p.day.toNat ++ ' ' :: (monthName p.month.toNat ++
        (toDecimal p.year.toNat ++ ' ' :: (twoDigits p.hour.toNat ++
          ':' :: (twoDigits p.minute.toNat ++ ':' :: (twoDigits p.second.toNat ++
            ' ' :: timeZone [] z)))))) := by
  obtain ⟨a, b, c, hname⟩ := weekDayName_spec hvalid sdkVersion
  have hzone : (if z = 0 then ['+', '0', '0', '0', '0'] else timeZone [] z) = timeZone [] z := by
    by_cases hz : z = 0
    · rw [if_pos hz, hz]
      rfl
    · rw [if_neg hz]
  rw [formatRFC2822, hname, hzone]
  exact ⟨a, b, c, rfl⟩

theorem parse_formatRFC2822_long (hvalid : sceRtcCheckValid p = orbisOk)
    (hp : Fields p) (hyear : 1000 ≤ p.year.toNat) (hz : -1440 < z ∧ z < 1440) (sdkVersion : ℤ)
    (tick : OrbisRtcTick) : sceRtcParseDateTime tick (formatRFC2822 sdkVersion p z) =
      if p.minute.toNat < 36 then
        pure (orbisOk, localTick ⟨.ofNat (microseconds p - p.microsecond.toNat)⟩ (readOffset z))
      else throw .undefined := by
  have hyear' := ((sceRtcCheckValid_iff p).1 hvalid).2.1
  obtain ⟨⟨m₁, m₂, -, -⟩, ⟨d₁, d₂, hday, hd⟩, ⟨h₁, h₂, hhour, hh⟩, ⟨i₁, i₂, hminute, hi⟩,
    s₁, s₂, hsecond, hs⟩ := hp.digits
  obtain ⟨y₁, y₂, y₃, y₄, hdigits⟩ : ∃ a b c d, toDecimal p.year.toNat = [a, b, c, d] := by
    have hlen := length_toDecimal (n := p.year.toNat) (k := 3) (by omega) (by omega) (by omega)
    match hlist : toDecimal p.year.toNat, hlen with
    | [a, b, c, d], _ => exact ⟨a, b, c, d, rfl⟩
  have hy := isDecimal_toDecimal p.year.toNat
  rw [hdigits] at hy
  obtain ⟨n₁, n₂, n₃, hname, hmonth, -⟩ := monthName_spec ⟨hp.month_pos, hp.month_le⟩
  obtain ⟨w₁, w₂, w₃, hstring⟩ := formatRFC2822_eq hvalid sdkVersion z
  have hd' := p.day.toNat_lt
  have hh' := p.hour.toNat_lt
  have hi' := p.minute.toNat_lt
  have hs' := p.second.toNat_lt
  have hget := getTick_microsecond hvalid (v := 0) (by omega) tick
  rw [hstring, hday, hname, hdigits, hhour, hminute, hsecond]
  simp only [List.cons_append, List.nil_append, sceRtcParseDateTime, parseRFC2822, field_succ,
    field_zero, substr_succ, substr_zero, charAt_succ, charAt_zero, List.take_succ_cons,
    List.take_zero, hy.stoi (by omega), hmonth, hd.stoi (by omega), hh.stoi (by omega),
    hi.stoi (by omega), hs.stoi (by omega), pure_bind, timeZoneOffset_succ, ofInt_toNat, if_true]
  rw [if_neg (by decide)]
  refine (congrArg (· >>= _) hget).trans ?_
  split
  · exact (addZone_plus _ _ _).trans (addZone_eq _ hz [])
  · rfl

/-! ### Years of one digit -/

/-- The date that is read when the numbers are one place off. -/
def movedRFC3339 (p : OrbisRtcDateTime) (second : ℤ) : OrbisRtcDateTime where
  year := p.year
  month := p.day
  day := p.hour
  hour := p.minute
  minute := p.second
  second := .ofInt second
  microsecond := 0

theorem parseRFC3339_short (hp : Fields p) (hyear : p.year.toNat < 10) (c d : Char)
    {e : Char} {zone : List Char} (hzone : charAt zone 0 = pure e) (he : e ≠ '.')
    (tick : OrbisRtcTick) :
    sceRtcParseRFC3339 tick (toDecimal p.year.toNat ++ '-' :: (twoDigits p.month.toNat ++
      '-' :: (twoDigits p.day.toNat ++ 'T' :: (twoDigits p.hour.toNat ++
        ':' :: (twoDigits p.minute.toNat ++ ':' :: (twoDigits p.second.toNat ++
          '.' :: c :: d :: zone)))))) = (do
      let second ← stoi [c, d]
      let (_, _, tick) ← sceRtcGetTick (movedRFC3339 p second) tick
      addZone tick zone 4) := by
  obtain ⟨⟨m₁, m₂, hmonth, hm⟩, ⟨d₁, d₂, hday, hd⟩, ⟨h₁, h₂, hhour, hh⟩, ⟨i₁, i₂, hminute, hi⟩,
    s₁, s₂, hsecond, hs⟩ := hp.digits
  obtain ⟨y, hdigits⟩ := List.length_eq_one_iff.1 (length_toDecimal_digit hyear)
  have hy := isDecimal_toDecimal p.year.toNat
  rw [hdigits] at hy
  have hd' := p.day.toNat_lt
  have hh' := p.hour.toNat_lt
  have hi' := p.minute.toNat_lt
  have hs' := p.second.toNat_lt
  have hy' : stoi [y, '-', m₁, m₂] = pure (p.year.toNat : ℤ) :=
    hy.stoi_append (by omega) ['-', m₁, m₂] (by simp)
  rw [hdigits, hmonth, hday, hhour, hminute, hsecond]
  simp only [List.cons_append, List.nil_append, sceRtcParseRFC3339, field_succ, field_zero,
    charAt_succ, hzone, List.take_succ_cons, List.take_zero, hy',
    hd.stoi (by omega), hh.stoi (by omega), hi.stoi (by omega), hs.stoi (by omega), pure_bind, he,
    if_false, timeZoneOffset_succ, ofInt_toNat]
  simp only [addZone, hzone, pure_bind]
  rfl

theorem parse_formatRFC3339_short (hp : Fields p) (hyear : p.year.toNat < 10)
    (hz : -1440 < z ∧ z < 1440) : ∃ (v : ℕ) (o : ℤ),
    (∀ tick, sceRtcParseRFC3339 tick (formatRFC3339 p z) = (do
      let (_, _, tick) ← sceRtcGetTick (movedRFC3339 p v) tick
      return (orbisOk, localTick tick o))) ∧
    (p.microsecond.toNat = 0 ∧ v = 0 ∧ o = readOffset z ∨
      0 < p.microsecond.toNat ∧ p.microsecond.toNat < 10000 ∧ v = p.microsecond.toNat / 1000 ∧
        o = 0 ∨
      10000 ≤ p.microsecond.toNat ∧ v < 100 ∧ o = readOffset z) := by
  obtain ⟨c, d, e, zone, v, o, hstring, hread, -, hcharAt, he, hadd, hcases⟩ :=
    fraction_zone_spec p.microsecond.toNat hz
  refine ⟨v, o, fun tick => ?_, hcases⟩
  rw [formatRFC3339_eq, hstring, parseRFC3339_short hp hyear c d hcharAt he, hread, pure_bind]
  simp only [hadd]

/-- The second that is read from the sign and the first digit of the offset. -/
def readSecond (z : ℤ) : ℤ := if z ≤ -60 then -(z.natAbs / 600 : ℕ) else (z.natAbs / 600 : ℕ)

def movedRFC2822 (p : OrbisRtcDateTime) (z : ℤ) : OrbisRtcDateTime :=
  { p with hour := p.minute, minute := p.second, second := .ofInt (readSecond z), microsecond := 0 }

theorem parse_formatRFC2822_short (hvalid : sceRtcCheckValid p = orbisOk)
    (hp : Fields p) (hyear : p.year.toNat < 10) (hz : -1440 < z ∧ z < 1440) (sdkVersion : ℤ)
    (tick : OrbisRtcTick) : sceRtcParseDateTime tick (formatRFC2822 sdkVersion p z) = (do
      let (_, _, tick) ← sceRtcGetTick (movedRFC2822 p z) tick
      return (orbisOk, tick)) := by
  obtain ⟨⟨m₁, m₂, -, -⟩, ⟨d₁, d₂, hday, hd⟩, ⟨h₁, h₂, hhour, hh⟩, ⟨i₁, i₂, hminute, hi⟩,
    s₁, s₂, hsecond, hs⟩ := hp.digits
  obtain ⟨y, hdigits⟩ := List.length_eq_one_iff.1 (length_toDecimal_digit hyear)
  have hy := isDecimal_toDecimal p.year.toNat
  rw [hdigits] at hy
  obtain ⟨n₁, n₂, n₃, hname, hmonth, -⟩ := monthName_spec ⟨hp.month_pos, hp.month_le⟩
  obtain ⟨w₁, w₂, w₃, hstring⟩ := formatRFC2822_eq hvalid sdkVersion z
  obtain ⟨a, b, r, hzone, hhours, hrest, -⟩ := timeZone_spec [] hz
  obtain ⟨e, r, rfl⟩ := List.exists_cons_of_ne_nil hrest.ne_nil
  have hd' := p.day.toNat_lt
  have hi' := p.minute.toNat_lt
  have hs' := p.second.toNat_lt
  have hy' : stoi [y, ' ', h₁, h₂] = pure (p.year.toNat : ℤ) :=
    hy.stoi_append (by omega) [' ', h₁, h₂] (by simp)
  have hsign : stoi [if z ≤ -60 then '-' else '+', a] = pure (readSecond z) := by
    have hdiv : z.natAbs / 60 / 10 = z.natAbs / 600 := Nat.div_div_eq_div_mul ..
    have htens := hdiv ▸ hhours.head
    obtain ⟨hplus, hminus⟩ := htens.stoi_sign (by omega)
    unfold readSecond
    split
    · exact hminus
    · exact hplus
  have hplus : e ≠ '+' := isDigit_ne (hrest.isDigit e (by simp)) (by decide)
  have hminus : e ≠ '-' := isDigit_ne (hrest.isDigit e (by simp)) (by decide)
  rw [hstring, hday, hname, hdigits, hhour, hminute, hsecond, hzone]
  simp only [List.cons_append, List.nil_append, sceRtcParseDateTime, parseRFC2822, field_succ,
    field_zero, substr_succ, substr_zero, charAt_succ, charAt_zero, List.take_succ_cons,
    List.take_zero, hy', hmonth, hd.stoi (by omega), hi.stoi (by omega), hs.stoi (by omega),
    hsign, pure_bind, ofInt_toNat, if_true, hplus, hminus, if_false]
  rw [if_neg (by decide)]
  rfl

theorem getTick_invalid {q : OrbisRtcDateTime} (h : sceRtcCheckValid q ≠ orbisOk)
    (tick : OrbisRtcTick) : sceRtcGetTick q tick = pure (sceRtcCheckValid q, q, tick) :=
  if_pos h

theorem forall_getTick_iff (q : OrbisRtcDateTime) (o : ℤ) (result : OrbisRtcTick) :
    (∀ tick, (do
      let (_, _, tick) ← sceRtcGetTick q tick
      return (orbisOk, localTick tick o) : Exec (ℤ × OrbisRtcTick)) = pure (orbisOk, result)) ↔
      sceRtcCheckValid q = orbisOk ∧ q.minute.toNat < 36 ∧
        localTick ⟨.ofNat (microseconds q)⟩ o = result := by
  by_cases hvalid : sceRtcCheckValid q = orbisOk
  · simp only [sceRtcGetTick_eq hvalid, hvalid, true_and]
    by_cases hminute : q.minute.toNat < 36
    · simp only [hminute, true_and]
      refine ⟨fun h => ?_, fun h tick => by rw [← h]; rfl⟩
      injection h ⟨0⟩ with h
      exact congrArg Prod.snd h
    · simp only [hminute, false_and, iff_false]
      intro h
      cases h ⟨0⟩
  · refine iff_of_false (fun h => ?_) fun h => hvalid h.1
    -- the tick that was there stays
    have hkeep : ∀ tick : OrbisRtcTick, localTick tick o = result := fun tick => by
      have hrun := h tick
      rw [getTick_invalid hvalid, pure_bind] at hrun
      injection hrun with hrun
      exact congrArg Prod.snd hrun
    have hsame := (hkeep ⟨0⟩).trans (hkeep ⟨1⟩).symm
    rw [localTick, localTick, OrbisRtcTick.mk.injEq] at hsame
    exact absurd ((UInt64.add_right_inj _).1 hsame) (by decide)

theorem toNat_readSecond (h : (UInt16.ofInt (readSecond z)).toNat < 60)
    (hz : -1440 < z ∧ z < 1440) :
    (UInt16.ofInt (readSecond z)).toNat = z.natAbs / 600 ∧ (z ≤ -60 → z.natAbs / 600 = 0) := by
  rw [toNat_ofInt] at h ⊢
  unfold readSecond at *
  split at h <;> omega

theorem readOffset_bounds (hz : -1440 < z ∧ z < 1440) :
    -1440 < readOffset z ∧ readOffset z < 1440 := by
  unfold readOffset
  split <;> omega

theorem short_rfc3339_iff (hp : Fields p) (hyear : p.year.toNat < 10)
    (hz : -1440 < z ∧ z < 1440) (ht : t.tick.toNat ≤ lastTick) : ∃ (v : ℕ) (o : ℤ),
    ((∀ tick, sceRtcParseRFC3339 tick (formatRFC3339 p z) =
      pure (orbisOk, truncated t 10000)) ↔ sceRtcCheckValid (movedRFC3339 p v) = orbisOk ∧
        p.second.toNat < 36 ∧ (microseconds (movedRFC3339 p v) : ℤ) + o * 60000000 =
          (t.tick.toNat / 10000 * 10000 : ℕ)) ∧
    v < 100 ∧
    (p.microsecond.toNat = 0 ∧ v = 0 ∧ o = readOffset z ∨
      0 < p.microsecond.toNat ∧ p.microsecond.toNat < 10000 ∧ v = p.microsecond.toNat / 1000 ∧
        o = 0 ∨
      10000 ≤ p.microsecond.toNat) := by
  obtain ⟨v, o, hparse, hcases⟩ := parse_formatRFC3339_short hp hyear hz
  have hread := readOffset_bounds hz
  refine ⟨v, o, ?_, by omega, by omega⟩
  simp only [hparse]
  refine (forall_getTick_iff _ _ _).trans (and_congr_right fun hq => and_congr_right fun _ => ?_)
  exact localTick_eq_iff (microseconds_lt hq) (by omega) (by omega)

theorem short_rfc2822_iff (hvalid : sceRtcCheckValid p = orbisOk) (hp : Fields p)
    (hyear : p.year.toNat < 10) (hz : -1440 < z ∧ z < 1440) (ht : t.tick.toNat ≤ lastTick) :
    (∀ sdkVersion tick, sceRtcParseDateTime tick (formatRFC2822 sdkVersion p z) =
      pure (orbisOk, truncated t 1000000)) ↔ sceRtcCheckValid (movedRFC2822 p z) = orbisOk ∧
        p.second.toNat < 36 ∧ (microseconds (movedRFC2822 p z) : ℤ) =
          (t.tick.toNat / 1000000 * 1000000 : ℕ) := by
  simp only [parse_formatRFC2822_short hvalid hp hyear hz, forall_const]
  have hget := forall_getTick_iff (movedRFC2822 p z) 0 (truncated t 1000000)
  simp only [localTick_zero] at hget
  refine hget.trans (and_congr_right fun hq => and_congr_right fun _ => ?_)
  rw [← localTick_zero ⟨.ofNat (microseconds (movedRFC2822 p z))⟩, truncated,
    localTick_eq_iff (microseconds_lt hq) (by omega) (by omega)]
  omega

theorem seconds_movedRFC3339 {v : ℕ} (hv : v < 100) : seconds (movedRFC3339 p v) =
    86400 * dayNumber p.year.toNat p.day.toNat p.hour.toNat +
      (3600 * p.minute.toNat + 60 * p.second.toNat + v) := by
  have hto : (UInt16.ofInt (v : ℤ)).toNat = v := by
    rw [toNat_ofInt]
    omega
  change _ * dayNumber p.year.toNat p.day.toNat p.hour.toNat + (_ * p.minute.toNat +
    _ * p.second.toNat + (UInt16.ofInt (v : ℤ)).toNat) = _
  rw [hto]

theorem seconds_movedRFC2822 {n : ℕ} (hn : (UInt16.ofInt (readSecond z)).toNat = n) :
    seconds (movedRFC2822 p z) = 86400 * dayNumber p.year.toNat p.month.toNat p.day.toNat +
      (3600 * p.minute.toNat + 60 * p.second.toNat + n) := by
  rw [← hn]
  rfl

theorem readOffset_eq_zero (h : readOffset z = 0) : z = 0 := by
  unfold readOffset at h
  split at h <;> omega

theorem shortYearRight_of_eq (hyear : p.year.toNat < 10) (hz : -1440 < z ∧ z < 1440)
    (hp : Fields p) (hlocal : (microseconds p : ℤ) = t.tick.toNat + z * 60000000)
    {v : ℕ} {o : ℤ} (hv : v < 100)
    (hcases : p.microsecond.toNat = 0 ∧ v = 0 ∧ o = readOffset z ∨
      0 < p.microsecond.toNat ∧ p.microsecond.toNat < 10000 ∧ v = p.microsecond.toNat / 1000 ∧
        o = 0 ∨
      10000 ≤ p.microsecond.toNat)
    (hq₃ : sceRtcCheckValid (movedRFC3339 p v) = orbisOk)
    (h₃ : (microseconds (movedRFC3339 p v) : ℤ) + o * 60000000 =
      (t.tick.toNat / 10000 * 10000 : ℕ))
    (hq₂ : sceRtcCheckValid (movedRFC2822 p z) = orbisOk)
    (h₂ : (microseconds (movedRFC2822 p z) : ℤ) = (t.tick.toNat / 1000000 * 1000000 : ℕ)) :
    ShortYearRight p z := by
  obtain ⟨hdate₃, -⟩ := (sceRtcCheckValid_iff _).1 hq₃
  obtain ⟨-, -, hhour₂, -, hsecond₂, -⟩ := (sceRtcCheckValid_iff _).1 hq₂
  have hpos : 1 ≤ p.hour.toNat := hdate₃.day_pos
  change p.minute.toNat < 24 at hhour₂
  obtain ⟨hread, hneg⟩ := toNat_readSecond hsecond₂ hz
  have hm₂ := seconds_movedRFC2822 (p := p) hread
  have hm₃ := seconds_movedRFC3339 (p := p) hv
  obtain ⟨w, hw, hfloor, hfloor'⟩ := exists_seconds hp.microsecond hlocal
  have h₂' : seconds (movedRFC2822 p z) = w := by
    rw [hfloor, microseconds_eq] at h₂
    change ((1000000 * seconds (movedRFC2822 p z) + 0 : ℕ) : ℤ) = _ at h₂
    omega
  have h₃' : (1000000 * seconds (movedRFC3339 p v) : ℤ) + o * 60000000 =
      1000000 * w + (p.microsecond.toNat / 10000 * 10000 : ℕ) := by
    rw [hfloor', microseconds_eq] at h₃
    change ((1000000 * seconds (movedRFC3339 p v) + 0 : ℕ) : ℤ) + _ = _ at h₃
    omega
  have hsecond := hp.second
  have htime : (3600 * p.minute.toNat + 60 * p.second.toNat + z.natAbs / 600 : ℕ) =
      (3600 * p.hour.toNat + 60 * p.minute.toNat + p.second.toNat - 60 * z : ℤ) := by
    rw [← h₂', hm₂, seconds] at hw
    omega
  have hs : p.second.toNat = z.natAbs / 600 := by omega
  have hoff : z = 60 * p.hour.toNat - 59 * p.minute.toNat - p.second.toNat := by omega
  have hsign : z < 0 → p.second.toNat = 0 := fun hz' => by
    by_cases hle : z ≤ -60
    · exact hs.trans (hneg hle)
    · rw [hs]
      omega
  obtain ⟨hus, rfl, ho'⟩ | ⟨hus, hus', hv', rfl⟩ | hus := hcases
  · -- whole days lie between the two dates, so the offset is zero
    exfalso
    have hbounds := readOffset_bounds hz
    have hzero : o = 0 := by
      rw [hus, hm₃, ← h₂', hm₂] at h₃'
      omega
    have hz' := readOffset_eq_zero (ho' ▸ hzero)
    omega
  · have hmicro : microseconds (movedRFC2822 p z) = microseconds (movedRFC3339 p v) := by
      rw [microseconds_eq, microseconds_eq, h₂']
      change 1000000 * w + 0 = 1000000 * seconds (movedRFC3339 p v) + 0
      omega
    have heq : movedRFC2822 p z = movedRFC3339 p v := microseconds_inj hq₂ hq₃ hmicro
    have hmonth : p.month = p.day := congrArg OrbisRtcDateTime.month heq
    have hday : p.day = p.hour := congrArg OrbisRtcDateTime.day heq
    have hsec : (UInt16.ofInt (readSecond z)).toNat = (UInt16.ofInt (v : ℤ)).toNat :=
      congrArg (fun q => q.second.toNat) heq
    rw [hread, ← hs, toNat_ofInt, Int.emod_eq_of_lt (by omega) (by omega), Int.toNat_natCast,
      hv'] at hsec
    exact ⟨hyear, congrArg _ hmonth, congrArg _ hday, hhour₂, hus.ne', hsec.symm, hoff, hs, hsign⟩
  · have hmicro := hp.microsecond
    omega

theorem short_iff (hvalid : sceRtcCheckValid p = orbisOk) (hp : Fields p)
    (hyear : p.year.toNat < 10) (hz : -1440 < z ∧ z < 1440) (ht : t.tick.toNat ≤ lastTick)
    (hlocal : (microseconds p : ℤ) = t.tick.toNat + z * 60000000) :
    ((∀ tick, sceRtcParseRFC3339 tick (formatRFC3339 p z) = pure (orbisOk, truncated t 10000)) ∧
      ∀ sdkVersion tick, sceRtcParseDateTime tick (formatRFC2822 sdkVersion p z) =
        pure (orbisOk, truncated t 1000000)) ↔ ShortYearRight p z := by
  obtain ⟨v, o, hiff₃, hv, hcases⟩ := short_rfc3339_iff hp hyear hz ht
  rw [hiff₃, short_rfc2822_iff hvalid hp hyear hz ht]
  constructor
  · rintro ⟨⟨hq₃, -, h₃⟩, hq₂, -, h₂⟩
    exact shortYearRight_of_eq hyear hz hp hlocal hv hcases hq₃ h₃ hq₂ h₂
  · rintro ⟨-, hmonth, hday, hhour, hne, hus, hoff, hs, hneg⟩
    obtain ⟨hdate, hyear', -, -, hsecond, -⟩ := (sceRtcCheckValid_iff p).1 hvalid
    have hread : (UInt16.ofInt (readSecond z)).toNat = z.natAbs / 600 := by
      rw [toNat_ofInt, readSecond]
      split <;> omega
    have hvo : v = p.second.toNat ∧ o = 0 := by omega
    obtain ⟨w, hw, hfloor, hfloor'⟩ := exists_seconds hp.microsecond hlocal
    rw [seconds, ← hday, ← hmonth] at hw
    have h₂ : microseconds (movedRFC2822 p z) = 1000000 * w + 0 := by
      rw [microseconds_eq, seconds_movedRFC2822 hread, ← hmonth]
      change _ + 0 = _
      omega
    have h₃ : microseconds (movedRFC3339 p v) = 1000000 * w + 0 := by
      rw [microseconds_eq, seconds_movedRFC3339 hv, ← hday, ← hmonth]
      change _ + 0 = _
      omega
    rw [h₂, h₃, hfloor, hfloor', hvo.2]
    have hmoved : ValidDate p.year.toNat p.day.toNat p.hour.toNat := by
      rw [← hday, ← hmonth]
      rwa [← hmonth] at hdate
    refine ⟨⟨(sceRtcCheckValid_iff _).2 ⟨hmoved, hyear', hhour, hsecond, ?_, ?_⟩, by omega,
        by omega⟩,
      (sceRtcCheckValid_iff _).2 ⟨hdate, hyear', hhour, hsecond, ?_, ?_⟩, by omega, by omega⟩
    · change (UInt16.ofInt (v : ℤ)).toNat < 60
      rw [toNat_ofInt]
      omega
    · exact Nat.zero_lt_succ _
    · change (UInt16.ofInt (readSecond z)).toNat < 60
      omega
    · exact Nat.zero_lt_succ _

theorem parse_formatRFC2822_middle (hvalid : sceRtcCheckValid p = orbisOk) (hp : Fields p)
    (hyear : 10 ≤ p.year.toNat) (hyear' : p.year.toNat < 1000) (sdkVersion : ℤ)
    (tick : OrbisRtcTick) : sceRtcParseDateTime tick (formatRFC2822 sdkVersion p z) =
      throw (.assertion "std::invalid_argument") := by
  obtain ⟨-, ⟨d₁, d₂, hday, -⟩, ⟨h₁, h₂, hhour, -⟩, ⟨i₁, i₂, hminute, hi⟩, -⟩ := hp.digits
  obtain ⟨n₁, n₂, n₃, hname, -, hstoi⟩ := monthName_spec ⟨hp.month_pos, hp.month_le⟩
  obtain ⟨w₁, w₂, w₃, hstring⟩ := formatRFC2822_eq hvalid sdkVersion z
  have hrun : ∀ (c : Char) (s : List Char), c.isDigit = true →
      charAt (w₁ :: w₂ :: w₃ :: ',' :: ' ' :: d₁ :: d₂ :: ' ' :: n₁ :: n₂ :: s) 19 = pure c →
      sceRtcParseDateTime tick (w₁ :: w₂ :: w₃ :: ',' :: ' ' :: d₁ :: d₂ :: ' ' :: n₁ :: n₂ :: s) =
        throw (.assertion "std::invalid_argument") := by
    intro c s hc hkey
    have hne : ∀ d : Char, d.isDigit = false → c ≠ d := fun d => isDigit_ne hc
    rw [sceRtcParseDateTime, hkey, pure_bind, if_neg, if_neg (hne ':' (by decide)), parseAsctime]
    · simp only [substr_succ, substr_zero, field_succ, field_zero, pure_bind, List.take_succ_cons,
        hstoi]
      rfl
    · rintro (h | h | h | h) <;> exact hne _ (by decide) h
  rw [hstring, hday, hname, hhour, hminute]
  by_cases hlen : p.year.toNat < 100
  · obtain ⟨a, b, hab⟩ := exists_pair (length_toDecimal (n := p.year.toNat) (k := 1) (by omega)
      (by omega) (by omega))
    rw [hab]
    exact hrun i₂ _ (hi.isDigit _ (by simp)) (by simp)
  · obtain ⟨a, b, c, habc⟩ := List.length_eq_three.1 (length_toDecimal (n := p.year.toNat) (k := 2)
      (by omega) (by omega) (by omega))
    rw [habc]
    exact hrun i₁ _ (hi.isDigit _ (by simp)) (by simp)

theorem long_iff (hvalid : sceRtcCheckValid p = orbisOk) (hp : Fields p)
    (hyear : 1000 ≤ p.year.toNat) (hz : -1440 < z ∧ z < 1440) (ht : t.tick.toNat ≤ lastTick)
    (hlocal : (microseconds p : ℤ) = t.tick.toNat + z * 60000000) :
    ((∀ tick, sceRtcParseRFC3339 tick (formatRFC3339 p z) = pure (orbisOk, truncated t 10000)) ∧
      ∀ sdkVersion tick, sceRtcParseDateTime tick (formatRFC2822 sdkVersion p z) =
        pure (orbisOk, truncated t 1000000)) ↔ LongYearRight p z := by
  obtain ⟨v, o, hrfc3339, hcases⟩ := parse_formatRFC3339_long hvalid hp hyear hz
  have hlt := microseconds_lt hvalid
  have hus := ((sceRtcCheckValid_iff p).1 hvalid).2.2.2.2.2
  obtain ⟨w, hw, hfloor, hfloor'⟩ := exists_seconds hus hlocal
  have hread : readOffset z = -z ↔ -60 < z ∧ z ≤ 0 := by
    unfold readOffset
    split <;> omega
  have hrange := readOffset_bounds hz
  have hne : Nonempty OrbisRtcTick := ⟨⟨0⟩⟩
  simp only [hrfc3339, parse_formatRFC2822_long hvalid hp hyear hz, forall_const]
  unfold LongYearRight
  by_cases hminute : p.minute.toNat < 36
  case neg =>
      simp only [hminute, if_false, false_and, and_false, iff_false]
      rintro ⟨h, -⟩
      cases h
  simp only [hminute, if_true, true_and, hyear]
  have hiff : ∀ {n m : ℕ} {o : ℤ}, n < 2 ^ 62 → m ≤ lastTick → -1440 < o ∧ o < 1440 →
      ((pure (orbisOk, localTick ⟨.ofNat n⟩ o) : Exec (ℤ × OrbisRtcTick)) =
        pure (orbisOk, ⟨.ofNat m⟩) ↔ (n : ℤ) + o * 60000000 = m) := by
    intro n m o hn hmle ho
    rw [← localTick_eq_iff hn hmle ho]
    refine ⟨fun h => ?_, fun h => by rw [h]⟩
    injection h with h
    exact congrArg Prod.snd h
  rw [truncated, truncated, hiff (by omega) (by omega) (by omega),
    hiff (by omega) (by omega) hrange, hfloor, hfloor', microseconds_eq, Nat.add_sub_cancel]
  have hsecond : ((1000000 * seconds p : ℕ) : ℤ) + readOffset z * 60000000 = (1000000 * w : ℕ) ↔
      -60 < z ∧ z ≤ 0 := by
    rw [← hread]
    omega
  rw [hsecond]
  clear hrfc3339 hlocal ht hlt hfloor hfloor' hsecond
  obtain ⟨hcase, rfl, rfl⟩ | ⟨hcase, hcase', rfl, rfl⟩ | ⟨hcase, hcase', rfl⟩ := hcases
  · rw [hcase]
    omega
  · omega
  · omega


/-! ### Every year -/

theorem toNat_localTick (ht : t.tick.toNat ≤ lastTick) (hz : -1440 < z ∧ z < 1440)
    (hlocal : 0 ≤ t.tick.toNat + z * 60000000 ∧ t.tick.toNat + z * 60000000 ≤ lastTick) :
    ((localTick t z).tick.toNat : ℤ) = t.tick.toNat + z * 60000000 := by
  have hlast : lastTick = 315537897599999999 := rfl
  obtain ⟨m, hm⟩ := Int.eq_ofNat_of_zero_le hlocal.1
  have htick : localTick ⟨.ofNat t.tick.toNat⟩ z = ⟨.ofNat m⟩ :=
    (localTick_eq_iff (by omega) (by omega) hz).2 hm
  rw [UInt64.ofNat_toNat] at htick
  rw [hm, htick, UInt64.toNat_ofNat', Nat.mod_eq_of_lt (by omega)]

/-- Both strings of a tick are parsed to the tick if and only if its local date has a year of
four digits and an offset and a fraction that survive, or is one of a few in the first years. -/
theorem dateStrings_roundTrip_iff (t : OrbisRtcTick) (iTimeZoneMinutes : ℤ)
    (ht : t.tick.toNat ≤ lastTick) (hz : -1440 < iTimeZoneMinutes ∧ iTimeZoneMinutes < 1440)
    (hlocal : 0 ≤ t.tick.toNat + iTimeZoneMinutes * 60000000 ∧
      t.tick.toNat + iTimeZoneMinutes * 60000000 ≤ lastTick) :
    (RoundTripRFC3339 t iTimeZoneMinutes ∧ RoundTripRFC2822 t iTimeZoneMinutes) ↔
      LongYearRight (sceRtcSetTick (localTick t iTimeZoneMinutes)) iTimeZoneMinutes ∨
        ShortYearRight (sceRtcSetTick (localTick t iTimeZoneMinutes)) iTimeZoneMinutes := by
  have htick := toNat_localTick ht hz hlocal
  obtain ⟨hvalid, hmicro⟩ := setTick_spec (t := localTick t iTimeZoneMinutes) (by omega)
  have hfields := fields_setTick (localTick t iTimeZoneMinutes)
  have hadd := tickAddMinutes_eq t hz
  generalize hp : sceRtcSetTick (localTick t iTimeZoneMinutes) = p at *
  have hrfc3339 : RoundTripRFC3339 t iTimeZoneMinutes ↔
      ∀ tick, sceRtcParseRFC3339 tick (formatRFC3339 p iTimeZoneMinutes) =
        pure (orbisOk, truncated t 10000) := by
    have hformat : ∀ currentTick, sceRtcFormatRFC3339Precise currentTick (some t)
        iTimeZoneMinutes = pure (orbisOk, formatRFC3339 p iTimeZoneMinutes) := fun _ => by
      rw [sceRtcFormatRFC3339Precise, Option.getD_some, hadd, ← hp]
      rfl
    refine ⟨fun h tick => ?_, fun h currentTick tick => ⟨_, hformat currentTick, h tick⟩⟩
    obtain ⟨s, hs, hparse⟩ := h t tick
    rw [hformat] at hs
    injection hs with hs
    have hstring : formatRFC3339 p iTimeZoneMinutes = s := congrArg Prod.snd hs
    rwa [hstring]
  have hrfc2822 : RoundTripRFC2822 t iTimeZoneMinutes ↔
      ∀ sdkVersion tick, sceRtcParseDateTime tick (formatRFC2822 sdkVersion p iTimeZoneMinutes) =
        pure (orbisOk, truncated t 1000000) := by
    have hformat : ∀ sdkVersion currentTick pszDateTime, sceRtcFormatRFC2822 sdkVersion currentTick
        pszDateTime (some t) iTimeZoneMinutes =
          pure (orbisOk, formatRFC2822 sdkVersion p iTimeZoneMinutes) := fun _ _ _ => by
      rw [sceRtcFormatRFC2822, Option.getD_some, hadd, pure_bind]
      dsimp only
      rw [hp, hvalid, if_pos (by decide)]
    refine ⟨fun h sdkVersion tick => ?_, fun h sdkVersion currentTick pszDateTime tick =>
      ⟨_, hformat sdkVersion currentTick pszDateTime, h sdkVersion tick⟩⟩
    obtain ⟨s, hs, hparse⟩ := h sdkVersion t [] tick
    rw [hformat] at hs
    injection hs with hs
    have hstring : formatRFC2822 sdkVersion p iTimeZoneMinutes = s := congrArg Prod.snd hs
    rwa [hstring]
  rw [hrfc3339, hrfc2822]
  have hlocal' : (microseconds p : ℤ) = t.tick.toNat + iTimeZoneMinutes * 60000000 := by
    rw [hmicro, htick]
  by_cases hlong : 1000 ≤ p.year.toNat
  · rw [long_iff hvalid hfields hlong hz ht hlocal']
    refine (or_iff_left fun h => ?_).symm
    have hyear := h.1
    omega
  by_cases hshort : p.year.toNat < 10
  · rw [short_iff hvalid hfields hshort hz ht hlocal']
    exact (or_iff_right fun h => hlong h.1).symm
  · refine iff_of_false (fun h => ?_) fun h => h.elim (fun h => hlong h.1) fun h => hshort h.1
    have hrun := h.2 0 ⟨0⟩
    rw [parse_formatRFC2822_middle hvalid hfields (by omega) (by omega)] at hrun
    cases hrun

/-- The first of January 2000, at Greenwich. -/
theorem dateStrings_roundTrip_millennium :
    RoundTripRFC3339 ⟨63082281600000000⟩ 0 ∧ RoundTripRFC2822 ⟨63082281600000000⟩ 0 := by
  have hset : sceRtcSetTick (localTick ⟨63082281600000000⟩ 0) = millennium := by decide +kernel
  have hiff := dateStrings_roundTrip_iff ⟨63082281600000000⟩ 0 (by decide) (by decide) (by decide)
  rw [hset] at hiff
  exact hiff.2 (.inl ⟨by decide, by decide, .inl ⟨rfl, by decide⟩⟩)

/-- Ten hours east of Greenwich, the strings of the first of January 2000 come back twenty hours
late. -/
theorem dateStrings_east :
    ¬ (RoundTripRFC3339 ⟨63082281600000000⟩ 600 ∧ RoundTripRFC2822 ⟨63082281600000000⟩ 600) ∧
      sceRtcParseDateTime ⟨0⟩ (formatRFC2822 0 (sceRtcSetTick
        (localTick ⟨63082281600000000⟩ 600)) 600) = pure (orbisOk, ⟨63082353600000000⟩) := by
  have hrun : sceRtcParseDateTime ⟨0⟩ (formatRFC2822 0 (sceRtcSetTick
      (localTick ⟨63082281600000000⟩ 600)) 600) = pure (orbisOk, ⟨63082353600000000⟩) := by
    decide +kernel
  refine ⟨fun h => ?_, hrun⟩
  obtain ⟨s, hs, hparse⟩ := h.2 0 ⟨0⟩ [] ⟨0⟩
  have hformat : sceRtcFormatRFC2822 0 ⟨0⟩ [] (some ⟨63082281600000000⟩) 600 = pure (orbisOk,
      formatRFC2822 0 (sceRtcSetTick (localTick ⟨63082281600000000⟩ 600)) 600) := by
    decide +kernel
  rw [hformat] at hs
  injection hs with hs
  rw [← (Prod.mk.inj hs).2, hrun] at hparse
  injection hparse with hparse
  exact absurd (congrArg Prod.snd hparse) (by decide)

end OrbitConsole.Rtc
