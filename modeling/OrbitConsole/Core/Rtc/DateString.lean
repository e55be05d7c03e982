import OrbitConsole.Common.StdString
import OrbitConsole.Core.Rtc.Tick

/-!
# Date strings

`sceRtcFormatRFC2822`, `sceRtcFormatRFC3339Precise`, and the functions that parse what
they write. A string in memory is the characters in front of its null character; the
pointers to strings and ticks that are written are not null.
-/

namespace OrbitConsole.Rtc

open Exec StdString

/-- `sceRtcTickAddMinutes`: the returned code and the tick of `pTick1` afterwards. The product
is of type `int64_t`. -/
def sceRtcTickAddMinutes (pTick2 : OrbisRtcTick) (lAdd : ℤ) : Exec (ℤ × OrbisRtcTick) :=
  if -9223372036854775808 ≤ lAdd * 60000000 ∧ lAdd * 60000000 < 9223372036854775808 then
    pure (orbisOk, ⟨.ofInt (lAdd * 60000000) + pTick2.tick⟩)
  else throw .undefined

def sceRtcGetDaysInMonth (year month : ℤ) : ℤ :=
  if year ≤ 0 then errorInvalidYear
  else if month ≤ 0 ∨ 12 < month then errorInvalidMonth
  else daysInMonth year.toNat month.toNat

/-- `sceRtcGetDayOfWeek`. `sdkVersion` is the version the program was compiled for, 0 when it is
not known. The first day of the year 1 is a Monday. -/
def sceRtcGetDayOfWeek (sdkVersion year month day : ℤ) : ℤ :=
  if year < 1 ∨ 0x3000000 ≤ sdkVersion ∧ 9999 < year then errorInvalidYear
  else if 12 < month ∨ month ≤ 0 then errorInvalidMonth
  else if day ≤ 0 ∨ sceRtcGetDaysInMonth year month < day then errorInvalidDay
  else ((dayNumber year.toNat month.toNat day.toNat + 1) % 7 : ℕ)

/-! ### Writing -/

/-- A number with a zero in front when it has one digit. -/
def twoDigits (n : ℕ) : List Char := if n < 10 then '0' :: toDecimal n else toDecimal n

def timeZone (colon : List Char) (iTimeZoneMinutes : ℤ) : List Char :=
  let timeZoneHours := iTimeZoneMinutes.tdiv 60
  let timeZoneRemainder := iTimeZoneMinutes.tmod 60
  (if timeZoneHours < 0 then '-' else '+') :: twoDigits timeZoneHours.natAbs ++
    (colon ++ if timeZoneRemainder = 0 then ['0', '0'] else toDecimal timeZoneRemainder.natAbs)

def weekDayName (weekDay : ℤ) : List Char :=
  if weekDay = 0 then ['S', 'u', 'n', ',', ' ']
  else if weekDay = 1 then ['M', 'o', 'n', ',', ' ']
  else if weekDay = 2 then ['T', 'u', 'e', ',', ' ']
  else if weekDay = 3 then ['W', 'e', 'd', ',', ' ']
  else if weekDay = 4 then ['T', 'h', 'u', ',', ' ']
  else if weekDay = 5 then ['F', 'r', 'i', ',', ' ']
  else if weekDay = 6 then ['S', 'a', 't', ',', ' ']
  else []

def monthName : ℕ → List Char
  | 1 => ['J', 'a', 'n', ' ']
  | 2 => ['F', 'e', 'b', ' ']
  | 3 => ['M', 'a', 'r', ' ']
  | 4 => ['A', 'p', 'r', ' ']
  | 5 => ['M', 'a', 'y', ' ']
  | 6 => ['J', 'u', 'n', ' ']
  | 7 => ['J', 'u', 'l', ' ']
  | 8 => ['A', 'u', 'g', ' ']
  | 9 => ['S', 'e', 'p', ' ']
  | 10 => ['O', 'c', 't', ' ']
  | 11 => ['N', 'o', 'v', ' ']
  | 12 => ['D', 'e', 'c', ' ']
  | _ => []

def formatRFC2822 (sdkVersion : ℤ) (formatTime : OrbisRtcDateTime) (iTimeZoneMinutes : ℤ) :
    List Char :=
  weekDayName (sceRtcGetDayOfWeek sdkVersion formatTime.year.toNat formatTime.month.toNat
      formatTime.day.toNat) ++
    (twoDigits formatTime.day.toNat ++ ' ' :: (monthName formatTime.month.toNat ++
      (toDecimal formatTime.year.toNat ++ ' ' :: (twoDigits formatTime.hour.toNat ++
        ':' :: (twoDigits formatTime.minute.toNat ++ ':' :: (twoDigits formatTime.second.toNat ++
          ' ' :: if iTimeZoneMinutes = 0 then ['+', '0', '0', '0', '0']
            else timeZone [] iTimeZoneMinutes))))))

/-- `sceRtcFormatRFC2822`: the returned code and the string of `pszDateTime` afterwards.
`currentTick` is the tick of the clock. -/
def sceRtcFormatRFC2822 (sdkVersion : ℤ) (currentTick : OrbisRtcTick) (pszDateTime : List Char)
    (pTickUtc : Option OrbisRtcTick) (iTimeZoneMinutes : ℤ) : Exec (ℤ × List Char) := do
  let formatTick := pTickUtc.getD currentTick
  let (_, formatTick) ← sceRtcTickAddMinutes formatTick iTimeZoneMinutes
  let formatTime := sceRtcSetTick formatTick
  let validTime := sceRtcCheckValid formatTime
  if 0 ≤ validTime then
    return (orbisOk, formatRFC2822 sdkVersion formatTime iTimeZoneMinutes)
  else return (orbisOk, pszDateTime)

/-- The fraction of `sceRtcFormatRFC3339Precise`. -/
def fraction (microsecond : ℕ) : List Char :=
  if microsecond ≠ 0 then '.' :: (toDecimal (microsecond / 1000)).take 2 else ['.', '0', '0']

def formatRFC3339 (formatTime : OrbisRtcDateTime) (iTimeZoneMinutes : ℤ) : List Char :=
  toDecimal formatTime.year.toNat ++ '-' :: (twoDigits formatTime.month.toNat ++
    '-' :: (twoDigits formatTime.day.toNat ++ 'T' :: (twoDigits formatTime.hour.toNat ++
      ':' :: (twoDigits formatTime.minute.toNat ++ ':' :: (twoDigits formatTime.second.toNat ++
        (fraction formatTime.microsecond.toNat ++
          if iTimeZoneMinutes = 0 then ['Z'] else timeZone [':'] iTimeZoneMinutes))))))

def sceRtcFormatRFC3339Precise (currentTick : OrbisRtcTick) (pTickUtc : Option OrbisRtcTick)
    (iTimeZoneMinutes : ℤ) : Exec (ℤ × List Char) := do
  let formatTick := pTickUtc.getD currentTick
  let (_, formatTick) ← sceRtcTickAddMinutes formatTick iTimeZoneMinutes
  let formatTime := sceRtcSetTick formatTick
  return (orbisOk, formatRFC3339 formatTime iTimeZoneMinutes)

/-! ### Parsing -/

def getMonthFromString (monthStr : List Char) : ℤ :=
  if monthStr = ['J', 'a', 'n'] then 1
  else if monthStr = ['F', 'e', 'b'] then 2
  else if monthStr = ['M', 'a', 'r'] then 3
  else if monthStr = ['A', 'p', 'r'] then 4
  else if monthStr = ['M', 'a', 'y'] then 5
  else if monthStr = ['J', 'u', 'n'] then 6
  else if monthStr = ['J', 'u', 'l'] then 7
  else if monthStr = ['A', 'u', 'g'] then 8
  else if monthStr = ['S', 'e', 'p'] then 9
  else if monthStr = ['O', 'c', 't'] then 10
  else if monthStr = ['N', 'o', 'v'] then 11
  else if monthStr = ['D', 'e', 'c'] then 12
  else 1

/-- The number in a part of the string. -/
def field (dateTimeString : List Char) (pos count : ℕ) : Exec ℤ := do
  stoi (← substr dateTimeString pos count)

def timeZoneOffset (dateTimeString : List Char) (hours minutes : ℕ) : Exec ℤ := do
  let timeZoneOffset := (← field dateTimeString hours 2) * 60
  return timeZoneOffset + (← field dateTimeString minutes 2)

def sceRtcParseRFC3339 (pTickUtc : OrbisRtcTick) (pszDateTime : List Char) :
    Exec (ℤ × OrbisRtcTick) := do
  let year ← field pszDateTime 0 4
  let month ← field pszDateTime 5 2
  let day ← field pszDateTime 8 2
  let hour ← field pszDateTime 11 2
  let minute ← field pszDateTime 14 2
  let second ← field pszDateTime 17 2
  let (timezonePos, microsecond) ←
    if (← charAt pszDateTime 19) = '.' then do
      let microsecond ← field pszDateTime 20 2
      pure (22, microsecond)
    else pure (19, 0)
  let dateTime : OrbisRtcDateTime :=
    { year := .ofInt year, month := .ofInt month, day := .ofInt day, hour := .ofInt hour
      minute := .ofInt minute, second := .ofInt second, microsecond := .ofInt microsecond }
  let (_, _, pTickUtc) ← sceRtcGetTick dateTime pTickUtc
  let sign ← charAt pszDateTime timezonePos
  if sign = '-' then
    let offset ← timeZoneOffset pszDateTime (timezonePos + 1) (timezonePos + 4)
    let (_, pTickUtc) ← sceRtcTickAddMinutes pTickUtc (offset * -1)
    return (orbisOk, pTickUtc)
  else if sign = '+' then
    let offset ← timeZoneOffset pszDateTime (timezonePos + 1) (timezonePos + 4)
    let (_, pTickUtc) ← sceRtcTickAddMinutes pTickUtc offset
    return (orbisOk, pTickUtc)
  else return (orbisOk, pTickUtc)

def parseRFC2822 (pTickUtc : OrbisRtcTick) (dateTimeString : List Char) :
    Exec (ℤ × OrbisRtcTick) := do
  let day ← field dateTimeString 5 2
  let month := getMonthFromString (← substr dateTimeString 8 3)
  let year ← field dateTimeString 12 4
  let hour ← field dateTimeString 17 2
  let minute ← field dateTimeString 20 2
  let second ← field dateTimeString 23 2
  let dateTime : OrbisRtcDateTime :=
    { year := .ofInt year, month := .ofInt month, day := .ofInt day, hour := .ofInt hour
      minute := .ofInt minute, second := .ofInt second, microsecond := 0 }
  let (_, _, pTickUtc) ← sceRtcGetTick dateTime pTickUtc
  let sign ← charAt dateTimeString 26
  if sign = '+' then
    let offset ← timeZoneOffset dateTimeString 27 29
    let (_, pTickUtc) ← sceRtcTickAddMinutes pTickUtc offset
    return (orbisOk, pTickUtc)
  else if sign = '-' then
    let offset ← timeZoneOffset dateTimeString 27 29
    let (_, pTickUtc) ← sceRtcTickAddMinutes pTickUtc (offset * -1)
    return (orbisOk, pTickUtc)
  else return (orbisOk, pTickUtc)

def parseAsctime (pTickUtc : OrbisRtcTick) (dateTimeString : List Char) :
    Exec (ℤ × OrbisRtcTick) := do
  let month := getMonthFromString (← substr dateTimeString 4 3)
  let day ← field dateTimeString 8 2
  let hour ← field dateTimeString 11 2
  let minute ← field dateTimeString 14 2
  let second ← field dateTimeString 17 2
  let year ← field dateTimeString 20 4
  let dateTime : OrbisRtcDateTime :=
    { year := .ofInt year, month := .ofInt month, day := .ofInt day, hour := .ofInt hour
      minute := .ofInt minute, second := .ofInt second, microsecond := 0 }
  let (_, _, pTickUtc) ← sceRtcGetTick dateTime pTickUtc
  return (orbisOk, pTickUtc)

def sceRtcParseDateTime (pTickUtc : OrbisRtcTick) (pszDateTime : List Char) :
    Exec (ℤ × OrbisRtcTick) := do
  let formatKey ← charAt pszDateTime 19
  if formatKey = 'Z' ∨ formatKey = '-' ∨ formatKey = '+' ∨ formatKey = '.' then do
    let (_, pTickUtc) ← sceRtcParseRFC3339 pTickUtc pszDateTime
    return (orbisOk, pTickUtc)
  else if formatKey = ':' then parseRFC2822 pTickUtc pszDateTime
  else parseAsctime pTickUtc pszDateTime

end OrbitConsole.Rtc
