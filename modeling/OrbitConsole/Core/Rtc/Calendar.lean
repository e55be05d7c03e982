import Mathlib.Data.Nat.Notation
import Mathlib.Tactic.Common
import Mathlib.Tactic.IntervalCases

/-!
# The proleptic Gregorian calendar

Days are numbered from 0001-01-01 on by counting the days of the years and
months before. The same number comes out of a formula without loops when years
start in March, so that the leap day is the last day of a year:
`dayNumber_eq_march`. The second half of the file inverts this formula.
-/

namespace OrbitConsole.Rtc

def IsLeap (year : ℕ) : Prop := year % 4 = 0 ∧ (year % 100 ≠ 0 ∨ year % 400 = 0)

instance (year : ℕ) : Decidable (IsLeap year) := inferInstanceAs (Decidable (_ ∧ _))

def daysInMonth (year month : ℕ) : ℕ :=
  if month = 2 then if IsLeap year then 29 else 28
  else if month = 4 ∨ month = 6 ∨ month = 9 ∨ month = 11 then 30
  else 31

def daysInYear (year : ℕ) : ℕ := if IsLeap year then 366 else 365

def daysOfYears : ℕ → ℕ
  | 0 => 0
  | n + 1 => daysOfYears n + daysInYear (n + 1)

def daysOfMonths (year : ℕ) : ℕ → ℕ
  | 0 => 0
  | n + 1 => daysOfMonths year n + daysInMonth year (n + 1)

def dayNumber (year month day : ℕ) : ℕ :=
  daysOfYears (year - 1) + daysOfMonths year (month - 1) + (day - 1)

theorem daysOfYears_eq (n : ℕ) : daysOfYears n + n / 100 = 365 * n + n / 4 + n / 400 := by
  induction n with
  | zero => rfl
  | succ n ih =>
      have hdvd (k : ℕ) : k ∣ n + 1 ↔ (n + 1) % k = 0 := Nat.dvd_iff_mod_eq_zero
      rw [daysOfYears, daysInYear, Nat.succ_div, Nat.succ_div, Nat.succ_div]
      simp only [hdvd]
      have hleap : IsLeap (n + 1) ↔
        (n + 1) % 4 = 0 ∧ ((n + 1) % 100 ≠ 0 ∨ (n + 1) % 400 = 0) := Iff.rfl
      simp only [hleap]
      by_cases h400 : (n + 1) % 400 = 0
      · rw [if_pos h400, if_pos (by omega : (n + 1) % 100 = 0), if_pos (by omega),
          if_pos (by omega)]
        omega
      rw [if_neg h400]
      by_cases h100 : (n + 1) % 100 = 0
      · rw [if_pos h100, if_neg (by omega), if_pos (by omega)]
        omega
      rw [if_neg h100]
      by_cases h4 : (n + 1) % 4 = 0
      · rw [if_pos h4, if_pos ⟨h4, .inl h100⟩]
        omega
      · rw [if_neg h4, if_neg fun h => h4 h.1]
        omega

theorem daysInYear_eq (year : ℕ) : daysInYear year = 337 + daysInMonth year 2 := by
  simp only [daysInYear, daysInMonth, if_true]
  split <;> rfl

theorem daysOfMonths_march {year month : ℕ} (h : month < 10) :
    daysOfMonths year (month + 2) = 31 + daysInMonth year 2 + (153 * month + 2) / 5 := by
  have hfeb : daysOfMonths year 2 = 31 + daysInMonth year 2 := by
    simp [daysOfMonths, daysInMonth]
  induction month with
  | zero => simpa using hfeb
  | succ month ih =>
      have hstep : daysOfMonths year (month + 1 + 2) =
          daysOfMonths year (month + 2) + daysInMonth year (month + 3) := rfl
      have hlen : daysInMonth year (month + 3) + (153 * month + 2) / 5 =
          (153 * (month + 1) + 2) / 5 := by
        have hmonth : month < 9 := by omega
        interval_cases month <;> rfl
      rw [hstep, ih (by omega), ← hlen]
      omega

/-! ### Years that start in March -/

/-- The day number of a date of the year `100 * century + year` that starts in March, plus
307. Months and days count from 0 and 1. -/
def marchDays (century year month day : ℕ) : ℕ :=
  146097 * century / 4 + 1461 * year / 4 + (153 * month + 2) / 5 + day

theorem marchDays_year (year month day : ℕ) :
    marchDays (year / 100) (year % 100) month day =
      daysOfYears year + (153 * month + 2) / 5 + day := by
  have hyears := daysOfYears_eq year
  have hcentury : 146097 * (year / 100) / 4 = 36524 * (year / 100) + year / 400 := by omega
  have hyear : 1461 * (year % 100) / 4 = 365 * (year % 100) + year % 100 / 4 := by omega
  have hquarter : year / 4 = 25 * (year / 100) + year % 100 / 4 := by omega
  have hsplit : year = 100 * (year / 100) + year % 100 := by omega
  rw [marchDays, hcentury, hyear]
  omega

def marchYear (year month : ℕ) : ℕ := if 2 < month then year else year - 1

/-- The number of a month in such a year. -/
def marchMonth (month : ℕ) : ℕ := if 2 < month then month - 3 else month + 9

theorem dayNumber_eq_march {year month day : ℕ} (hyear : 1 ≤ year) (hmonth : 1 ≤ month)
    (hmonth' : month ≤ 12) (hday : 1 ≤ day) :
    dayNumber year month day + 307 =
      marchDays (marchYear year month / 100) (marchYear year month % 100) (marchMonth month)
        day := by
  obtain ⟨y, rfl⟩ : ∃ y, year = y + 1 := ⟨year - 1, by omega⟩
  have hnext : daysOfYears (y + 1) = daysOfYears y + (337 + daysInMonth (y + 1) 2) := by
    rw [daysOfYears, daysInYear_eq]
  rw [dayNumber, marchDays_year, marchYear, marchMonth, Nat.add_sub_cancel y 1]
  by_cases hmarch : 2 < month
  · obtain ⟨m, rfl⟩ : ∃ m, month = m + 3 := ⟨month - 3, by omega⟩
    rw [if_pos hmarch, if_pos hmarch, hnext, show m + 3 - 1 = m + 2 by omega,
      daysOfMonths_march (by omega), Nat.add_sub_cancel m 3]
    omega
  rw [if_neg hmarch, if_neg hmarch]
  obtain rfl | rfl : month = 1 ∨ month = 2 := by omega
  · have hjan : daysOfMonths (y + 1) (1 - 1) = 0 := rfl
    rw [hjan]
    omega
  · have hfeb : daysOfMonths (y + 1) (2 - 1) = 31 := rfl
    rw [hfeb]
    omega

structure MarchDate (century year month day : ℕ) : Prop where
  year_lt : year < 100
  month_lt : month < 12
  day_pos : 1 ≤ day
  day_le : month < 11 → (153 * month + 2) / 5 + day ≤ (153 * (month + 1) + 2) / 5
  year_end : (153 * month + 2) / 5 + day ≤ 365 + if year % 4 = 3 then 1 else 0
  century_end : 1461 * year / 4 + (153 * month + 2) / 5 + day ≤
    36524 + if century % 4 = 3 then 1 else 0

theorem MarchDate.decode {century year month day : ℕ} (h : MarchDate century year month day) :
    let r := 1461 * year / 4 + (153 * month + 2) / 5 + day
    let s := (153 * month + 2) / 5 + day
    (4 * marchDays century year month day - 1) / 146097 = century ∧
      (4 * marchDays century year month day - 1 - 146097 * century) / 4 = r - 1 ∧
      (4 * (r - 1) + 3) / 1461 = year ∧ (4 * (r - 1) + 7 - 1461 * year) / 4 = s ∧
      (5 * s - 3) / 153 = month ∧ (5 * s + 2 - 153 * month) / 5 = day := by
  obtain ⟨hyear, hmonth, hday, hday', hyearend, hcenturyend⟩ := h
  have hcentury : 4 * (146097 * century / 4) + century % 4 = 146097 * century := by omega
  have hyear4 : 4 * (1461 * year / 4) + year % 4 = 1461 * year := by omega
  have hleapc : (if century % 4 = 3 then 1 else 0) ≤ 1 ∧
      (century % 4 ≠ 3 → (if century % 4 = 3 then 1 else 0) = 0) := by
    split <;> omega
  have hleapy : (if year % 4 = 3 then 1 else 0) ≤ 1 ∧
      (year % 4 ≠ 3 → (if year % 4 = 3 then 1 else 0) = 0) := by
    split <;> omega
  have hmonthday : (5 * ((153 * month + 2) / 5 + day) - 3) / 153 = month ∧
      (5 * ((153 * month + 2) / 5 + day) + 2 - 153 * month) / 5 = day := by
    interval_cases month <;> omega
  intro r s
  simp only [marchDays]
  refine ⟨?_, ?_, ?_, ?_, hmonthday.1, hmonthday.2⟩
  · omega
  · omega
  · omega
  · omega

theorem exists_marchDate {n : ℕ} (hn : 1 ≤ n) : ∃ century year month day,
    MarchDate century year month day ∧ marchDays century year month day = n := by
  obtain ⟨c, r, hr, hr', hn⟩ : ∃ c r, 1 ≤ r ∧
      r ≤ 36524 + (if c % 4 = 3 then 1 else 0) ∧ 146097 * c / 4 + r = n := by
    refine ⟨(4 * n - 1) / 146097, n - 146097 * ((4 * n - 1) / 146097) / 4, ?_⟩
    generalize hc : (4 * n - 1) / 146097 = c
    have hle : 146097 * c ≤ 4 * n - 1 := by omega
    have hlt : 4 * n - 1 < 146097 * c + 146097 := by omega
    have hfour : 4 * (146097 * c / 4) + c % 4 = 146097 * c := by omega
    split <;> omega
  obtain ⟨y, s, hy, hs, hs', hr⟩ : ∃ y s, y < 100 ∧ 1 ≤ s ∧
      s ≤ 365 + (if y % 4 = 3 then 1 else 0) ∧ 1461 * y / 4 + s = r := by
    have hr'' : r ≤ 36525 := by
      split at hr' <;> omega
    refine ⟨(4 * r - 1) / 1461, r - 1461 * ((4 * r - 1) / 1461) / 4, ?_⟩
    generalize hy : (4 * r - 1) / 1461 = y
    have hle : 1461 * y ≤ 4 * r - 1 := by omega
    have hlt : 4 * r - 1 < 1461 * y + 1461 := by omega
    have hfour : 4 * (1461 * y / 4) + y % 4 = 1461 * y := by omega
    split <;> omega
  have hs'' : s ≤ 366 := by
    split at hs' <;> omega
  obtain ⟨m, hm, hle, hlt⟩ : ∃ m < 12, 153 * m ≤ 5 * s - 3 ∧ 5 * s - 3 < 153 * m + 153 :=
    ⟨(5 * s - 3) / 153, by omega, by omega, by omega⟩
  have hday : (153 * m + 2) / 5 + 1 ≤ s := by
    interval_cases m <;> omega
  have hday' : s ≤ (153 * (m + 1) + 2) / 5 := by
    interval_cases m <;> omega
  refine ⟨c, y, m, s - (153 * m + 2) / 5, ⟨hy, hm, by omega, fun _ => by omega, by omega, ?_⟩, ?_⟩
  · omega
  · rw [marchDays]
    omega

/-! ### Dates -/

structure ValidDate (year month day : ℕ) : Prop where
  year_pos : 1 ≤ year
  month_pos : 1 ≤ month
  month_le : month ≤ 12
  day_pos : 1 ≤ day
  day_le : day ≤ daysInMonth year month

/-- The calendar year of a date of a year that starts in March. -/
def civilYear (century year month : ℕ) : ℕ :=
  if month < 10 then 100 * century + year else 100 * century + year + 1

def civilMonth (month : ℕ) : ℕ := if month < 10 then month + 3 else month - 9

theorem daysInMonth_february (century year : ℕ) (h : year < 100) :
    daysInMonth (100 * century + year + 1) 2 =
      28 + if year % 4 = 3 ∧ (year ≠ 99 ∨ century % 4 = 3) then 1 else 0 := by
  have hleap : IsLeap (100 * century + year + 1) ↔
      year % 4 = 3 ∧ (year ≠ 99 ∨ century % 4 = 3) := by
    unfold IsLeap
    omega
  simp only [daysInMonth, if_true, hleap]
  split <;> rfl

theorem daysInMonth_march (century year : ℕ) {month : ℕ} (h : month < 11) :
    daysInMonth (civilYear century year month) (civilMonth month) + (153 * month + 2) / 5 =
      (153 * (month + 1) + 2) / 5 := by
  interval_cases month <;> rfl

theorem MarchDate.valid {century year month day : ℕ} (h : MarchDate century year month day)
    (hyear : 10 ≤ month ∨ 1 ≤ 100 * century + year) :
    ValidDate (civilYear century year month) (civilMonth month) day := by
  have hmonth := h.month_lt
  refine ⟨?_, ?_, ?_, h.day_pos, ?_⟩
  · unfold civilYear
    split <;> omega
  · unfold civilMonth
    split <;> omega
  · unfold civilMonth
    split <;> omega
  · by_cases hlast : month < 11
    · have hlen := daysInMonth_march century year hlast
      have := h.day_le hlast
      omega
    · obtain rfl : month = 11 := by omega
      have hlen := daysInMonth_february century year h.year_lt
      have hyearend := h.year_end
      have hcenturyend := h.century_end
      have hlt := h.year_lt
      change day ≤ daysInMonth (100 * century + year + 1) 2
      rw [hlen]
      split_ifs at hyearend hcenturyend ⊢ <;> omega

theorem civilYear_march {year month : ℕ} (hyear : 1 ≤ year) (hmonth : 1 ≤ month)
    (hmonth' : month ≤ 12) :
    civilYear (marchYear year month / 100) (marchYear year month % 100) (marchMonth month) =
      year := by
  unfold civilYear marchYear marchMonth
  split <;> split <;> omega

theorem civilMonth_march {month : ℕ} (hmonth : 1 ≤ month) (hmonth' : month ≤ 12) :
    civilMonth (marchMonth month) = month := by
  unfold civilMonth marchMonth
  split <;> split <;> omega

theorem marchYear_civil {century year month : ℕ} (h : month < 12) :
    marchYear (civilYear century year month) (civilMonth month) = 100 * century + year := by
  unfold marchYear civilYear civilMonth
  split <;> split <;> omega

theorem marchMonth_civil {month : ℕ} (h : month < 12) :
    marchMonth (civilMonth month) = month := by
  unfold marchMonth civilMonth
  split <;> split <;> omega

theorem ValidDate.march {year month day : ℕ} (h : ValidDate year month day) :
    MarchDate (marchYear year month / 100) (marchYear year month % 100) (marchMonth month)
      day := by
  obtain ⟨hyear, hmonth, hmonth', hday, hday'⟩ := h
  have hcivil := civilYear_march hyear hmonth hmonth'
  have hcivil' := civilMonth_march hmonth hmonth'
  have hlt : marchMonth month < 12 := by
    unfold marchMonth
    split <;> omega
  generalize marchYear year month / 100 = c at *
  have hy : marchYear year month % 100 < 100 := Nat.mod_lt _ (by omega)
  generalize marchYear year month % 100 = y at *
  generalize marchMonth month = m at *
  by_cases hlast : m < 11
  · have hlen := daysInMonth_march c y hlast
    rw [hcivil, hcivil'] at hlen
    have hend : (153 * m + 2) / 5 + day ≤ (153 * (m + 1) + 2) / 5 := by omega
    have hyearend : (153 * (m + 1) + 2) / 5 ≤ 337 := by omega
    refine ⟨hy, hlt, hday, fun _ => hend, by omega, ?_⟩
    omega
  · obtain rfl : m = 11 := by omega
    have hyear' : year = 100 * c + y + 1 := hcivil.symm
    have hmonth2 : month = 2 := hcivil'.symm
    rw [hyear', hmonth2, daysInMonth_february c y hy] at hday'
    refine ⟨hy, hlt, hday, fun h => absurd h hlast, ?_, ?_⟩
    · split_ifs at hday' ⊢ <;> omega
    · split_ifs at hday' ⊢ <;> omega

end OrbitConsole.Rtc
