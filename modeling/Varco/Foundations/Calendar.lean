import Varco.Foundations.Python

/-!
# Dates and wall-clock times

`datetime.date` and naive `datetime` values of Python. A date is its proleptic Gregorian ordinal,
the day 1 of January of the year 1 being 1; a wall-clock time is the number of microseconds since
the midnight at which that day begins. The calendar goes on in both directions, whereas Python's
ends with the years 1 and 9999.
-/

namespace Varco

/-! ## Dates -/

/-- A `date`: its ordinal. -/
abbrev Date := ℤ

def daysBeforeMonth (month : ℤ) : ℤ :=
  [0, 0, 31, 59, 90, 120, 151, 181, 212, 243, 273, 304, 334].getD month.toNat 0

def daysInMonth (month : ℤ) : ℤ :=
  [0, 31, 28, 31, 30, 31, 30, 31, 31, 30, 31, 30, 31].getD month.toNat 0

/-- A year, a month and a day of it. -/
structure YearMonthDay where
  year : ℤ
  month : ℤ
  day : ℤ
  deriving DecidableEq

/-- The month and the day of the day `n` of a year, counted from 0. -/
def monthAndDay (n : ℤ) (leapYear : Bool) : ℤ × ℤ :=
  let month := (n + 50) / 32
  let preceding := daysBeforeMonth month + (if 2 < month ∧ leapYear then 1 else 0)
  if n < preceding then
    let month := month - 1
    let preceding := preceding - (daysInMonth month + (if month = 2 ∧ leapYear then 1 else 0))
    (month, n - preceding + 1)
  else (month, n - preceding + 1)

/-- `_ord2ymd` -/
def Date.yearMonthDay (ordinal : Date) : YearMonthDay :=
  let n := ordinal - 1
  let n400 := n / 146097
  let n := n % 146097
  let n100 := n / 36524
  let n := n % 36524
  let n4 := n / 1461
  let n := n % 1461
  let n1 := n / 365
  let n := n % 365
  let year := n400 * 400 + 1 + n100 * 100 + n4 * 4 + n1
  if n1 = 4 ∨ n100 = 4 then ⟨year - 1, 12, 31⟩
  else
    let leapYear : Bool := n1 = 3 ∧ (n4 ≠ 24 ∨ n100 = 3)
    let md := monthAndDay n leapYear
    ⟨year, md.1, md.2⟩

def Date.month (d : Date) : ℤ := d.yearMonthDay.month

def Date.day (d : Date) : ℤ := d.yearMonthDay.day

/-- `date.weekday()`: Monday is 0. -/
def Date.weekday (d : Date) : ℤ := (d + 6) % 7

/-- `repr(date)` -/
def Date.repr (d : Date) : String :=
  let ymd := d.yearMonthDay
  s!"datetime.date({ymd.year}, {ymd.month}, {ymd.day})"

theorem monthAndDay_bounds {n : ℤ} (h : 0 ≤ n ∧ n < 365) (leapYear : Bool) :
    (1 ≤ (monthAndDay n leapYear).1 ∧ (monthAndDay n leapYear).1 ≤ 12) ∧
      1 ≤ (monthAndDay n leapYear).2 ∧ (monthAndDay n leapYear).2 ≤ 31 := by
  have hall : ∀ k < 365, ∀ b : Bool,
      (1 ≤ (monthAndDay (k : ℕ) b).1 ∧ (monthAndDay (k : ℕ) b).1 ≤ 12) ∧
        1 ≤ (monthAndDay (k : ℕ) b).2 ∧ (monthAndDay (k : ℕ) b).2 ≤ 31 := by
    decide +kernel
  have hn := hall n.toNat (by omega) leapYear
  rwa [Int.toNat_of_nonneg h.1] at hn

theorem Date.month_day_bounds (d : Date) :
    (1 ≤ d.month ∧ d.month ≤ 12) ∧ 1 ≤ d.day ∧ d.day ≤ 31 := by
  unfold Date.month Date.day Date.yearMonthDay
  simp only
  split_ifs with hlast
  · simp
  · exact monthAndDay_bounds (by omega) _

/-! ## Wall-clock times -/

/-- A naive `datetime`, in microseconds. -/
abbrev Wall := ℤ

namespace Wall

/-- `datetime(year, month, day, hour, minute)`, for the date of the year, month and day. -/
def ofDate (d : Date) (hour minute : ℤ) : Wall :=
  (d - 1) * 86400000000 + (hour * 60 + minute) * 60000000

/-- `wall.date()` -/
def date (w : Wall) : Date := w / 86400000000 + 1

def minuteOfDay (w : Wall) : ℤ := w % 86400000000 / 60000000

def hour (w : Wall) : ℤ := w.minuteOfDay / 60

def minute (w : Wall) : ℤ := w.minuteOfDay % 60

/-- `wall.replace(second=0, microsecond=0)` -/
def truncate (w : Wall) : Wall := w - w % 60000000

def isoformat (w : Wall) : String :=
  let ymd := w.date.yearMonthDay
  let micros := (w % 60000000).toNat
  zeroPad 4 ymd.year.toNat ++ "-" ++ zeroPad 2 ymd.month.toNat ++ "-" ++ zeroPad 2 ymd.day.toNat ++
    "T" ++ zeroPad 2 w.hour.toNat ++ ":" ++ zeroPad 2 w.minute.toNat ++ ":" ++
    zeroPad 2 (micros / 1000000) ++
    (if micros % 1000000 = 0 then "" else "." ++ zeroPad 6 (micros % 1000000))

/-- `repr(wall)`: the seconds and the microseconds only if they are not zero. -/
def repr (w : Wall) : String :=
  let ymd := w.date.yearMonthDay
  let micros := (w % 60000000).toNat
  s!"datetime.datetime({ymd.year}, {ymd.month}, {ymd.day}, {w.hour}, {w.minute}" ++
    (if micros = 0 then "" else s!", {micros / 1000000}") ++
    (if micros % 1000000 = 0 then "" else s!", {micros % 1000000}") ++ ")"

variable {w w' : Wall} {d : Date} {h m : ℤ}

theorem truncate_le (w : Wall) : w.truncate ≤ w := by
  unfold truncate Wall
  omega

theorem truncate_of_dvd (h : w % 60000000 = 0) : w.truncate = w := by
  unfold Wall at *
  unfold truncate
  omega

theorem ofDate_date_hour_minute (h : w % 60000000 = 0) :
    Wall.ofDate w.date w.hour w.minute = w := by
  unfold Wall at *
  unfold Wall.ofDate date hour minute minuteOfDay
  omega

theorem hour_bounds (w : Wall) : 0 ≤ w.hour ∧ w.hour < 24 := by
  unfold hour minuteOfDay
  omega

theorem minute_bounds (w : Wall) : 0 ≤ w.minute ∧ w.minute < 60 := by
  unfold minute
  omega

section

variable (hh : 0 ≤ h ∧ h < 24) (hm : 0 ≤ m ∧ m < 60)

include hh hm

theorem date_ofDate : (Wall.ofDate d h m).date = d := by
  unfold Wall.ofDate Wall Date date
  omega

theorem minuteOfDay_ofDate : (Wall.ofDate d h m).minuteOfDay = h * 60 + m := by
  unfold Wall.ofDate Wall Date minuteOfDay
  omega

theorem hour_ofDate : (Wall.ofDate d h m).hour = h := by
  rw [hour, minuteOfDay_ofDate hh hm]
  omega

theorem minute_ofDate : (Wall.ofDate d h m).minute = m := by
  rw [minute, minuteOfDay_ofDate hh hm]
  omega

end

theorem ofDate_mod (d : Date) (h m : ℤ) : Wall.ofDate d h m % 60000000 = 0 := by
  unfold Wall.ofDate Wall Date
  omega

end Wall

end Varco
