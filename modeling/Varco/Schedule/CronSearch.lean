import Varco.Schedule.CronGrammar

/-!
# How exact the search of a cron expression is

The documentation of `varco_core.schedule.cron` promises two things of the search that
`Varco.Schedule.Cron` models. The day of the month and the day of the week are alternatives "when
neither is a bare `*`" (`DayRule`), whereas the code asks whether their sets are full
(`dayMatches`). And no expression needs more days than the search looks through, whereas two 29
February can be eight years apart.

`cron_search_exact` says when that matters: an expression is searched exactly from every time iff
none of its day fields is full but spelled out (`SpelledOut`) and it does not fall on 29 February
only (`OnlyLeapDays`); and from one time iff the occurrence to be found is on a day that the code
accepts and reaches (`InReach`).
-/

namespace Varco

open List

/-! ## Years -/

/-- The days of a year, from the day `s` on. -/
def YearStart (s : Date) (leapYear : Bool) : Prop :=
  ∀ n : ℤ, 0 ≤ n → n < 365 + (if leapYear then 1 else 0) →
    (s + n : Date).month = (monthAndDay n leapYear).1 ∧
      (s + n : Date).day = (monthAndDay n leapYear).2

/-- The last day of a leap year is the one day that the count of whole years leaves over. -/
theorem lastOfLeapYear {d : Date}
    (h : (d - 1) % 146097 % 36524 % 1461 = 1460 ∨ (d - 1) % 146097 = 146096) :
    d.month = 12 ∧ d.day = 31 := by
  have hlast : (d - 1) % 146097 % 36524 % 1461 / 365 = 4 ∨ (d - 1) % 146097 / 36524 = 4 := by
    unfold Date at *
    omega
  simp only [Date.month, Date.day, Date.yearMonthDay, if_pos hlast]
  exact ⟨trivial, trivial⟩

theorem yearStart_of {a b c e : ℤ} (hb : 0 ≤ b ∧ b < 4) (hc : 0 ≤ c ∧ c < 25) (he : 0 ≤ e ∧ e < 4) :
    YearStart (a * 146097 + b * 36524 + c * 1461 + e * 365 + 1)
      (e = 3 ∧ (c ≠ 24 ∨ b = 3) : Bool) := by
  intro n h0 hn
  by_cases hlast : n = 365
  · have hleap : e = 3 ∧ (c ≠ 24 ∨ b = 3) := by
      by_contra hnot
      simp only [hnot, decide_false, Bool.false_eq_true, if_false] at hn
      omega
    subst hlast
    simp only [hleap]
    refine lastOfLeapYear ?_
    have h4 : (a * 146097 + b * 36524 + c * 1461 + 3 * 365 + 1 + 365 - 1 : ℤ) % 146097 =
        b * 36524 + c * 1461 + 1460 := by omega
    rw [h4]
    unfold Date
    rcases eq_or_ne c 24 with hc24 | hc24
    · right
      omega
    · have h3 : (b * 36524 + c * 1461 + 1460) / 36524 = b := by omega
      left
      omega
  · have hn : n < 365 := by
      split_ifs at hn <;> omega
    have h4 : (a * 146097 + b * 36524 + c * 1461 + e * 365 + 1 + n - 1) % 146097 =
        b * 36524 + c * 1461 + e * 365 + n := by omega
    have h3 : (b * 36524 + c * 1461 + e * 365 + n) / 36524 = b := by omega
    have h3' : (b * 36524 + c * 1461 + e * 365 + n) % 36524 = c * 1461 + e * 365 + n := by omega
    have h2 : (c * 1461 + e * 365 + n) / 1461 = c := by omega
    have h2' : (c * 1461 + e * 365 + n) % 1461 = e * 365 + n := by omega
    have h1 : (e * 365 + n) / 365 = e := by omega
    have h1' : (e * 365 + n) % 365 = n := by omega
    have hlast : ¬(e = 4 ∨ b = 4) := by omega
    simp only [Date.month, Date.day, Date.yearMonthDay, h4, h3, h3', h2, h2', h1, h1', if_neg hlast]
    exact ⟨trivial, trivial⟩

theorem exists_yearStart (d : Date) : ∃ (s : Date) (leapYear : Bool), s ≤ d ∧ d ≤ s + 365 ∧
    YearStart s leapYear := by
  let n := d - 1
  let b := min 3 (n % 146097 / 36524)
  let c := (n % 146097 - b * 36524) / 1461
  let e := min 3 ((n % 146097 - b * 36524) % 1461 / 365)
  refine ⟨_, _, ?_, ?_, yearStart_of (a := n / 146097) (b := b) (c := c) (e := e)
    ⟨by omega, by omega⟩ ⟨by omega, by omega⟩ ⟨by omega, by omega⟩⟩
  · unfold Date at *
    omega
  · unfold Date at *
    omega

theorem exists_next_yearStart (d : Date) : ∃ (s : Date) (leapYear : Bool), d ≤ s ∧ s ≤ d + 365 ∧
    YearStart s leapYear := by
  obtain ⟨s, leapYear, hle, hge, hs⟩ := exists_yearStart (d + 365 : ℤ)
  refine ⟨s, leapYear, ?_, hle, hs⟩
  unfold Date at *
  omega

def monthStart (m : ℤ) (leapYear : Bool) : ℤ :=
  daysBeforeMonth m + (if 2 < m ∧ leapYear then 1 else 0)

variable {m : ℤ}

theorem monthStart_spec {k : ℤ} (hm : 1 ≤ m ∧ m ≤ 12) (hk : 1 ≤ k ∧ k ≤ daysInMonth m)
    (leapYear : Bool) :
    (0 ≤ monthStart m leapYear ∧ monthStart m leapYear + k ≤ 365 + (if leapYear then 1 else 0)) ∧
      monthAndDay (monthStart m leapYear + k - 1) leapYear = (m, k) := by
  have hall : ∀ m : ℕ, m < 13 → ∀ k : ℕ, k < 32 → 1 ≤ m ∧ 1 ≤ k ∧ (k : ℤ) ≤ daysInMonth m →
      ∀ b : Bool,
      (0 ≤ monthStart (m : ℕ) b ∧ monthStart (m : ℕ) b + (k : ℕ) ≤ 365 + (if b then 1 else 0)) ∧
        monthAndDay (monthStart (m : ℕ) b + (k : ℕ) - 1) b = ((m : ℤ), ((k : ℕ) : ℤ)) := by
    decide +kernel
  have hmonth : daysInMonth m ≤ 31 := by
    obtain ⟨h1, h12⟩ := hm
    interval_cases m <;> decide
  have h := hall m.toNat (by omega) k.toNat (by omega)
  rw [Int.toNat_of_nonneg (by omega), Int.toNat_of_nonneg (by omega)] at h
  exact h ⟨by omega, by omega, hk.2⟩ leapYear

/-- A day of a month comes every year, if every year has it. -/
theorem exists_monthDay (d : Date) {k : ℤ} (hm : 1 ≤ m ∧ m ≤ 12)
    (hk : 1 ≤ k ∧ k ≤ daysInMonth m) :
    ∃ n < 732, (d + (n : ℕ) : Date).month = m ∧ (d + (n : ℕ) : Date).day = k := by
  obtain ⟨s, leapYear, hle, hge, hs⟩ := exists_next_yearStart d
  obtain ⟨⟨h0, hlast⟩, hmd⟩ := monthStart_spec hm hk leapYear
  obtain ⟨hmonth, hday⟩ := hs (monthStart m leapYear + k - 1) (by omega) (by omega)
  have hn : d + ((s + (monthStart m leapYear + k - 1) - d).toNat : ℕ) =
      s + (monthStart m leapYear + k - 1) := by
    unfold Date at *
    omega
  refine ⟨(s + (monthStart m leapYear + k - 1) - d).toNat,
    by split_ifs at hlast <;> unfold Date at * <;> omega, ?_⟩
  rw [hn, hmonth, hday, hmd]
  exact ⟨rfl, rfl⟩

theorem seven_le_daysInMonth (hm : 1 ≤ m ∧ m ≤ 12) : 7 ≤ daysInMonth m := by
  obtain ⟨h1, h12⟩ := hm
  interval_cases m <;> decide

/-- Every month of every year has every day of the week. -/
theorem exists_month_dow (d : Date) {j : ℤ} (hm : 1 ≤ m ∧ m ≤ 12) (hj : 0 ≤ j ∧ j < 7) :
    ∃ n < 732, (d + (n : ℕ) : Date).month = m ∧ cronDow (d + (n : ℕ) : Date) = j := by
  obtain ⟨s, leapYear, hle, hge, hs⟩ := exists_next_yearStart d
  -- the day among the first seven of the month
  let i := (j - cronDow (s + monthStart m leapYear)) % 7
  have hi : 1 ≤ i + 1 ∧ i + 1 ≤ daysInMonth m := by
    have := seven_le_daysInMonth hm
    omega
  obtain ⟨⟨h0, hlast⟩, hmd⟩ := monthStart_spec hm hi leapYear
  obtain ⟨hmonth, -⟩ := hs (monthStart m leapYear + (i + 1) - 1) (by omega) (by omega)
  have hn : d + ((s + (monthStart m leapYear + (i + 1) - 1) - d).toNat : ℕ) =
      s + (monthStart m leapYear + (i + 1) - 1) := by
    unfold Date at *
    omega
  refine ⟨(s + (monthStart m leapYear + (i + 1) - 1) - d).toNat,
    by split_ifs at hlast <;> unfold Date at * <;> omega, ?_⟩
  rw [hn, hmonth, hmd]
  refine ⟨rfl, ?_⟩
  simp only [i, cronDow, Date.weekday]
  unfold Date at *
  omega

def longestMonth (m : ℤ) : ℤ := daysInMonth m + if m = 2 then 1 else 0

theorem monthAndDay_valid {n : ℤ} (h : 0 ≤ n ∧ n < 365) (leapYear : Bool) :
    (monthAndDay n leapYear).2 ≤ longestMonth (monthAndDay n leapYear).1 := by
  have hall : ∀ k < 365, ∀ b : Bool,
      (monthAndDay (k : ℕ) b).2 ≤ longestMonth (monthAndDay (k : ℕ) b).1 := by
    decide +kernel
  have hn := hall n.toNat (by omega) leapYear
  rwa [Int.toNat_of_nonneg h.1] at hn

theorem Date.day_le_longestMonth (d : Date) : d.day ≤ longestMonth d.month := by
  unfold Date.month Date.day Date.yearMonthDay
  simp only
  split_ifs with hlast
  · change (31 : ℤ) ≤ longestMonth 12
    decide
  · exact monthAndDay_valid (by omega) _

/-! ## What the documentation says an expression matches -/

/-- The times of `datetime`: the years 1 to 9999. -/
def Wall.InCalendar (w : Wall) : Prop := 0 ≤ w ∧ w < 3652059 * 86400000000

namespace CronSchedule

def fieldText (c : CronSchedule) (i : ℕ) : String := (pySplitSpace c.expr).getD i ""

/-- The day rule of the documentation: either day field if neither is a bare `*`, and otherwise
both. -/
def DayRule (c : CronSchedule) (d : Date) : Prop :=
  if c.fieldText 2 ≠ "*" ∧ c.fieldText 4 ≠ "*" then d.day ∈ c.day.values ∨ cronDow d ∈ c.dow.values
  else d.day ∈ c.day.values ∧ cronDow d ∈ c.dow.values

/-- A minute of the calendar that matches by month, hour, minute and the documented day rule. -/
structure Matches (c : CronSchedule) (u : Wall) : Prop where
  whole : u % 60000000 = 0
  inCalendar : u.InCalendar
  month : u.date.month ∈ c.month.values
  day : c.DayRule u.date
  hour : u.hour ∈ c.hour.values
  minute : u.minute ∈ c.minute.values

def laterMatches (c : CronSchedule) (t : Wall) : Set Wall := {u | c.Matches u ∧ t.truncate < u}

def earlierMatches (c : CronSchedule) (t : Wall) : Set Wall := {u | c.Matches u ∧ u ≤ t.truncate}

/-- The search from a time finds the nearest matching minute in both directions. -/
structure Exact (c : CronSchedule) (t : Wall) : Prop where
  next : (c.laterMatches t).Nonempty →
    ∃ v, c.nextAfter t = .ok v ∧ IsLeast (c.laterMatches t) v
  previous : (c.earlierMatches t).Nonempty →
    ∃ v, c.atOrBefore t = some v ∧ IsGreatest (c.earlierMatches t) v

/-! ## When the search is exact -/

/-- A day field is full without being a bare `*`, and the other one leaves out a day. -/
def SpelledOut (c : CronSchedule) : Prop :=
  (c.day.values = fullRange 1 31 ∧ c.fieldText 2 ≠ "*" ∧ c.dow.values ≠ fullRange 0 7) ∨
    (c.dow.values = fullRange 0 7 ∧ c.fieldText 4 ≠ "*" ∧
      ∃ m ∈ c.month.values, ∃ k, 1 ≤ k ∧ k ≤ longestMonth m ∧ k ∉ c.day.values)

def OnlyLeapDays (c : CronSchedule) : Prop :=
  c.dow.values = fullRange 0 7 ∧ c.month.values = [2] ∧ 29 ∈ c.day.values ∧
    ∀ k ∈ c.day.values, 29 ≤ k

/-- The first day of which `nextAfter` can take a time: the day of the time, unless its own times
are over. -/
def firstDay (c : CronSchedule) (t : Wall) : Date :=
  let cursor : Wall := t.truncate + 60000000
  if c.dateMatches cursor.date ∧ c.earliestTimeOnOrAfter (some (cursor.hour, cursor.minute)) = none
  then cursor.date + 1 else cursor.date

/-- The last day of which `atOrBefore` can take a time. -/
def lastDay (c : CronSchedule) (t : Wall) : Date :=
  let cursor := t.truncate
  if c.dateMatches cursor.date ∧ c.latestTimeOnOrBefore (some (cursor.hour, cursor.minute)) = none
  then cursor.date - 1 else cursor.date

/-- The nearest matching minutes are on days that the code accepts and reaches. -/
structure InReach (c : CronSchedule) (t : Wall) : Prop where
  next : ∀ u, IsLeast (c.laterMatches t) u →
    c.dateMatches u.date = true ∧ u.date < c.firstDay t + maxDaySearch
  previous : ∀ u, IsGreatest (c.earlierMatches t) u →
    c.dateMatches u.date = true ∧ c.lastDay t - maxDaySearch < u.date

variable {c : CronSchedule} {s : String} {t u v w : Wall} {d : Date}

theorem nextMatchingDate_isOk {start : Date} : (∃ d, c.nextMatchingDate start = .ok d) ↔
    ∃ d, start ≤ d ∧ d < start + maxDaySearch ∧ c.dateMatches d = true := by
  constructor
  · rintro ⟨d, hd⟩
    obtain ⟨k, hk, rfl, hm, -⟩ := search_eq_some.mp (nextMatchingDate_eq_ok.mp hd)
    refine ⟨start + k * 1, ?_, ?_, hm⟩ <;> unfold Date at * <;> omega
  · rintro ⟨d, hle, hlt, hm⟩
    have hj : start + ((d - start).toNat : ℕ) * 1 = d := by
      unfold Date at *
      omega
    obtain ⟨e, he⟩ : ∃ e, search 1 c.dateMatches maxDaySearch start = some e := by
      refine search_isSome (k := (d - start).toNat) (by unfold Date at *; omega) ?_
      rwa [hj]
    exact ⟨e, nextMatchingDate_eq_ok.mpr he⟩

theorem previousMatchingDate_isOk {start : Date} : (∃ d, c.previousMatchingDate start = .ok d) ↔
    ∃ d, d ≤ start ∧ start - maxDaySearch < d ∧ c.dateMatches d = true := by
  constructor
  · rintro ⟨d, hd⟩
    obtain ⟨k, hk, rfl, hm, -⟩ := search_eq_some.mp (previousMatchingDate_eq_ok.mp hd)
    refine ⟨start + k * (-1), ?_, ?_, hm⟩ <;> unfold Date at * <;> omega
  · rintro ⟨d, hle, hlt, hm⟩
    have hj : start + ((start - d).toNat : ℕ) * (-1) = d := by
      unfold Date at *
      omega
    obtain ⟨e, he⟩ : ∃ e, search (-1) c.dateMatches maxDaySearch start = some e := by
      refine search_isSome (k := (start - d).toNat) (by unfold Date at *; omega) ?_
      rwa [hj]
    exact ⟨e, previousMatchingDate_eq_ok.mpr he⟩

/-- **What `nextAfter` reaches**: it finds a time iff a day from the first one on matches, within
the days that it looks at. -/
theorem nextAfter_isOk : (∃ v, c.nextAfter t = .ok v) ↔
    ∃ d, c.firstDay t ≤ d ∧ d < c.firstDay t + maxDaySearch ∧ c.dateMatches d = true := by
  rw [← nextMatchingDate_isOk]
  unfold nextAfter firstDay
  simp only [nextLoop]
  generalize (t.truncate + 60000000 : Wall) = cursor
  cases hd : c.nextMatchingDate cursor.date with
  | error e =>
    have hnot : ¬c.dateMatches cursor.date = true := fun hm => by
      obtain ⟨d, hd'⟩ := nextMatchingDate_isOk.mpr
        ⟨cursor.date, le_rfl, by unfold maxDaySearch Date; omega, hm⟩
      rw [hd] at hd'
      cases hd'
    simp [hnot, hd]
  | ok d =>
    obtain ⟨hle, hm, hfirst⟩ := nextMatchingDate_spec hd
    by_cases he : d = cursor.date
    · subst he
      cases ht : c.earliestTimeOnOrAfter (some (cursor.hour, cursor.minute)) with
      | some time => simp [hd, hm, ht]
      | none =>
        simp only [hm, ht, if_true, and_self]
        cases hd' : c.nextMatchingDate (cursor.date + 1) with
        | error e => simp
        | ok d' => simp [earliestTimeOnOrAfter]
    · have hnot : ¬c.dateMatches cursor.date = true := fun hm' =>
        he (le_antisymm (hfirst _ le_rfl hm') hle)
      simp [hnot, hd, he, earliestTimeOnOrAfter]

/-- **What `atOrBefore` reaches.** -/
theorem atOrBefore_isSome : (∃ v, c.atOrBefore t = some v) ↔
    ∃ d, d ≤ c.lastDay t ∧ c.lastDay t - maxDaySearch < d ∧ c.dateMatches d = true := by
  rw [← previousMatchingDate_isOk]
  unfold atOrBefore lastDay
  simp only [previousLoop]
  generalize t.truncate = cursor
  cases hd : c.previousMatchingDate cursor.date with
  | error e =>
    have hnot : ¬c.dateMatches cursor.date = true := fun hm => by
      obtain ⟨d, hd'⟩ := previousMatchingDate_isOk.mpr
        ⟨cursor.date, le_rfl, by unfold maxDaySearch Date; omega, hm⟩
      rw [hd] at hd'
      cases hd'
    simp [hnot, hd]
  | ok d =>
    obtain ⟨hle, hm, hlast⟩ := previousMatchingDate_spec hd
    by_cases he : d = cursor.date
    · subst he
      cases ht : c.latestTimeOnOrBefore (some (cursor.hour, cursor.minute)) with
      | some time => simp [hd, hm, ht]
      | none =>
        simp only [hm, ht, if_true, and_self]
        cases hd' : c.previousMatchingDate (cursor.date - 1) with
        | error e => simp
        | ok d' => simp [latestTimeOnOrBefore]
    · have hnot : ¬c.dateMatches cursor.date = true := fun hm' =>
        he (le_antisymm hle (hlast _ le_rfl hm'))
      simp [hnot, hd, he, latestTimeOnOrBefore]

/-- A bare `*` is the full set. -/
def StarsFull (c : CronSchedule) : Prop :=
  (c.fieldText 2 = "*" → c.day.values = fullRange 1 31) ∧
    (c.fieldText 4 = "*" → c.dow.values = fullRange 0 7)

theorem day_mem_full (d : Date) : d.day ∈ fullRange 1 31 := by
  have := (Date.month_day_bounds d).2
  rw [mem_fullRange]
  omega

theorem cronDow_mem_full (d : Date) : cronDow d ∈ fullRange 0 7 := by
  rw [mem_fullRange]
  unfold cronDow
  omega

theorem DayRule.of_dayMatches (hstar : c.StarsFull) (h : c.dayMatches d = true) : c.DayRule d := by
  unfold DayRule
  simp only [dayMatches] at h
  split_ifs with hboth
  · split_ifs at h <;> simp_all
  · split_ifs at h with hr
    · simp only [Bool.and_eq_true, decide_eq_true_eq] at hr
      exact absurd ⟨fun h2 => hr.1 (hstar.1 h2), fun h4 => hr.2 (hstar.2 h4)⟩ hboth
    · simpa using h

/-- The rules are the same on the days of an expression that does not spell a full field out. -/
theorem dayMatches_of_dayRule (hspell : ¬c.SpelledOut) (hmonth : d.month ∈ c.month.values)
    (h : c.DayRule d) : c.dayMatches d = true := by
  unfold DayRule at h
  unfold dayMatches
  by_cases hdom : c.day.values = fullRange 1 31
  · by_cases hdow : c.dow.values = fullRange 0 7
    · simp [hdom, hdow, day_mem_full, cronDow_mem_full]
    · have h2 : c.fieldText 2 = "*" := by
        by_contra h2
        exact hspell (.inl ⟨hdom, h2, hdow⟩)
      rw [if_neg (by simp [h2])] at h
      simp [hdom, day_mem_full, h.2]
  · by_cases hdow : c.dow.values = fullRange 0 7
    · have hday : d.day ∈ c.day.values := by
        by_cases h4 : c.fieldText 4 = "*"
        · rw [if_neg (by simp [h4])] at h
          exact h.1
        · by_contra hday
          exact hspell (.inr ⟨hdow, h4, d.month, hmonth, d.day, (Date.month_day_bounds d).2.1,
            Date.day_le_longestMonth d, hday⟩)
      simp [hdow, cronDow_mem_full, hday]
    · have hor : d.day ∈ c.day.values ∨ cronDow d ∈ c.dow.values := by
        split_ifs at h
        · exact h
        · exact .inl h.1
      simpa [hdom, hdow] using hor

theorem Occurs.matches (hstar : c.StarsFull) (h : c.Occurs u) (hu : u.InCalendar) :
    c.Matches u where
  whole := h.whole
  inCalendar := hu
  month := by
    have := h.date
    simp only [dateMatches, Bool.and_eq_true, decide_eq_true_eq] at this
    exact this.1
  day := by
    have := h.date
    simp only [dateMatches, Bool.and_eq_true, decide_eq_true_eq] at this
    exact .of_dayMatches hstar this.2
  hour := h.hour
  minute := h.minute

theorem Matches.occurs (h : c.Matches u) (hd : c.dateMatches u.date = true) : c.Occurs u :=
  ⟨h.whole, hd, h.hour, h.minute⟩

theorem Matches.dateMatches (hspell : ¬c.SpelledOut) (h : c.Matches u) :
    c.dateMatches u.date = true := by
  simp only [CronSchedule.dateMatches, Bool.and_eq_true, decide_eq_true_eq]
  exact ⟨h.month, dayMatches_of_dayRule hspell h.month h.day⟩

theorem lt_of_truncate_lt (hu : u % 60000000 = 0) : t.truncate < u ↔ t < u := by
  unfold Wall.truncate Wall at *
  omega

theorem le_truncate (hu : u % 60000000 = 0) : u ≤ t.truncate ↔ u ≤ t := by
  unfold Wall.truncate Wall at *
  omega

/-- Some matching minute later than a time is the earliest one. -/
theorem exists_isLeast (h : (c.laterMatches t).Nonempty) : ∃ u, IsLeast (c.laterMatches t) u := by
  obtain ⟨u, hu, hleast⟩ := Int.exists_least_of_bdd (P := (· ∈ c.laterMatches t))
    ⟨t.truncate, fun u hu => hu.2.le⟩ h
  exact ⟨u, hu, hleast⟩

theorem exists_isGreatest (h : (c.earlierMatches t).Nonempty) :
    ∃ u, IsGreatest (c.earlierMatches t) u := by
  obtain ⟨u, hu, hgreatest⟩ := Int.exists_greatest_of_bdd (P := (· ∈ c.earlierMatches t))
    ⟨t.truncate, fun u hu => hu.2⟩ h
  exact ⟨u, hu, hgreatest⟩

/-- What `nextAfter` finds is the earliest match, if the code accepts a match up to it. -/
theorem isLeast_of_nextAfter (hstar : c.StarsFull) (ht : t.InCalendar) (hv : c.nextAfter t = .ok v)
    (hu : IsLeast (c.laterMatches t) u) (hd : c.dateMatches u.date = true) : v = u := by
  obtain ⟨hocc, hlt, hmin⟩ := nextAfter_spec hv
  have hvu : v ≤ u := hmin u (hu.1.1.occurs hd) ((lt_of_truncate_lt hu.1.1.whole).mp hu.1.2)
  have hcal : v.InCalendar := ⟨ht.1.trans hlt.le, hvu.trans_lt hu.1.1.inCalendar.2⟩
  exact le_antisymm hvu
    (hu.2 ⟨hocc.matches hstar hcal, (lt_of_truncate_lt hocc.whole).mpr hlt⟩)

theorem isGreatest_of_atOrBefore (hstar : c.StarsFull) (ht : t.InCalendar)
    (hv : c.atOrBefore t = some v) (hu : IsGreatest (c.earlierMatches t) u)
    (hd : c.dateMatches u.date = true) : v = u := by
  obtain ⟨hocc, hle, hmax⟩ := atOrBefore_spec hv
  have huv : u ≤ v := hmax u (hu.1.1.occurs hd) ((le_truncate hu.1.1.whole).mp hu.1.2)
  have hcal : v.InCalendar := ⟨hu.1.1.inCalendar.1.trans huv, hle.trans_lt ht.2⟩
  exact le_antisymm (hu.2 ⟨hocc.matches hstar hcal, (le_truncate hocc.whole).mpr hle⟩) huv

theorem date_lt_of_ofTime_lt (hle : v ≤ u)
    (hlt : ofTime (u.hour, u.minute) < ofTime (v.hour, v.minute)) : v.date < u.date := by
  unfold ofTime Wall.hour Wall.minute Wall.minuteOfDay at hlt
  unfold Wall.date Wall Date at *
  omega

theorem date_le_of_le (hle : v ≤ u) : v.date ≤ u.date := by
  unfold Wall.date Wall Date at *
  omega

/-- The first day is not after the date of a match that the code accepts. -/
theorem firstDay_le (hu : c.Occurs u) (hlt : t.truncate < u) : c.firstDay t ≤ u.date := by
  have hcursor : (t.truncate + 60000000 : Wall) ≤ u := by
    have := hu.whole
    unfold Wall.truncate Wall at *
    omega
  unfold firstDay
  simp only
  split_ifs with hover
  · obtain ⟨_, ⟨⟩, hover⟩ := earliestTime_none (fun b hb => (isTime_of_wall _ b hb).2) hover.2
    exact date_lt_of_ofTime_lt hcursor (not_le.mp (hover _ hu.time))
  · exact date_le_of_le hcursor

theorem le_lastDay (hu : c.Occurs u) (hle : u ≤ t.truncate) : u.date ≤ c.lastDay t := by
  unfold lastDay
  simp only
  split_ifs with hover
  · obtain ⟨_, ⟨⟩, hover⟩ := latestTime_none (fun b hb => (isTime_of_wall _ b hb).2) hover.2
    exact Int.le_sub_one_of_lt (date_lt_of_ofTime_lt hle (not_le.mp (hover _ hu.time)))
  · exact date_le_of_le hle

theorem exists_occurs (hd : c.dateMatches d = true) : ∃ u, c.Occurs u ∧ u.date = d := by
  have htime : c.TimeMatches (c.hour.values.head c.hour.ne_nil,
      c.minute.values.head c.minute.ne_nil) :=
    ⟨head_mem _, head_mem _⟩
  exact ⟨_, occurs_ofDate hd htime, Wall.date_ofDate htime.bounds.1 htime.bounds.2⟩

theorem le_ofDate_of_ofTime_le {p : ℤ × ℤ} (hu : u % 60000000 = 0)
    (h : ofTime (u.hour, u.minute) ≤ ofTime p) : u ≤ Wall.ofDate u.date p.1 p.2 := by
  unfold ofTime Wall.hour Wall.minute Wall.minuteOfDay at h
  unfold Wall.ofDate Wall.date Wall Date at *
  omega

theorem ofDate_le_of_ofTime_le {p : ℤ × ℤ} (hu : u % 60000000 = 0)
    (h : ofTime p ≤ ofTime (u.hour, u.minute)) : Wall.ofDate u.date p.1 p.2 ≤ u := by
  unfold ofTime Wall.hour Wall.minute Wall.minuteOfDay at h
  unfold Wall.ofDate Wall.date Wall Date at *
  omega

/-- A day that matches, from the first day on, has an occurrence later than the time. -/
theorem exists_occurs_after (hd : c.dateMatches d = true) (hle : c.firstDay t ≤ d) :
    ∃ u, c.Occurs u ∧ t < u ∧ u.date = d := by
  have hcursor : t < (t.truncate + 60000000 : Wall) := by
    unfold Wall.truncate Wall
    omega
  have hwhole : (t.truncate + 60000000 : Wall) % 60000000 = 0 := by
    unfold Wall.truncate Wall
    omega
  unfold firstDay at hle
  simp only at hle
  generalize (t.truncate + 60000000 : Wall) = cursor at hle hcursor hwhole
  by_cases hlt : cursor.date < d
  · obtain ⟨u, hu, rfl⟩ := exists_occurs hd
    exact ⟨u, hu, hcursor.trans (lt_of_not_ge fun hge => (date_le_of_le hge).not_gt hlt), rfl⟩
  · split_ifs at hle with hover
    · exact absurd (Int.lt_of_add_one_le hle) hlt
    · obtain rfl : cursor.date = d := le_antisymm hle (not_lt.mp hlt)
      obtain ⟨p, hp⟩ := Option.ne_none_iff_exists'.mp fun hnone => hover ⟨hd, hnone⟩
      obtain ⟨htime, hfloor, -⟩ := earliestTime_spec (fun b hb => (isTime_of_wall cursor b hb).2) hp
      exact ⟨_, occurs_ofDate hd htime, hcursor.trans_le (le_ofDate_of_ofTime_le hwhole hfloor),
        Wall.date_ofDate htime.bounds.1 htime.bounds.2⟩

theorem exists_occurs_before (hd : c.dateMatches d = true) (hle : d ≤ c.lastDay t) :
    ∃ u, c.Occurs u ∧ u ≤ t ∧ u.date = d := by
  have hcursor := t.truncate_le
  have hwhole : t.truncate % 60000000 = 0 := by
    unfold Wall.truncate Wall
    omega
  unfold lastDay at hle
  simp only at hle
  generalize t.truncate = cursor at hle hcursor hwhole
  by_cases hlt : d < cursor.date
  · obtain ⟨u, hu, rfl⟩ := exists_occurs hd
    exact ⟨u, hu, (le_of_not_ge fun hge => (date_le_of_le hge).not_gt hlt).trans hcursor, rfl⟩
  · split_ifs at hle with hover
    · exact absurd (Int.lt_of_le_sub_one hle) hlt
    · obtain rfl : d = cursor.date := le_antisymm hle (not_lt.mp hlt)
      obtain ⟨p, hp⟩ := Option.ne_none_iff_exists'.mp fun hnone => hover ⟨hd, hnone⟩
      obtain ⟨htime, hceiling, -⟩ := latestTime_spec (fun b hb => (isTime_of_wall cursor b hb).2) hp
      exact ⟨_, occurs_ofDate hd htime, (ofDate_le_of_ofTime_le hwhole hceiling).trans hcursor,
        Wall.date_ofDate htime.bounds.1 htime.bounds.2⟩

/-- **When the search from a time is exact.** -/
theorem exact_iff_inReach (hstar : c.StarsFull) (ht : t.InCalendar) : c.Exact t ↔ c.InReach t := by
  constructor
  · intro h
    refine ⟨fun u hu => ?_, fun u hu => ?_⟩
    · obtain ⟨v, hv, hleast⟩ := h.next ⟨u, hu.1⟩
      obtain rfl := hu.unique hleast
      obtain ⟨hocc, hlt, hmin⟩ := nextAfter_spec hv
      obtain ⟨d, hle, hd, hm⟩ := nextAfter_isOk.mp ⟨u, hv⟩
      obtain ⟨w, hw, htw, rfl⟩ := exists_occurs_after hm hle
      exact ⟨hocc.date, (date_le_of_le (hmin w hw htw)).trans_lt hd⟩
    · obtain ⟨v, hv, hgreatest⟩ := h.previous ⟨u, hu.1⟩
      obtain rfl := hu.unique hgreatest
      obtain ⟨hocc, hle, hmax⟩ := atOrBefore_spec hv
      obtain ⟨d, hdle, hd, hm⟩ := atOrBefore_isSome.mp ⟨u, hv⟩
      obtain ⟨w, hw, htw, rfl⟩ := exists_occurs_before hm hdle
      exact ⟨hocc.date, hd.trans_le (date_le_of_le (hmax w hw htw))⟩
  · intro h
    refine ⟨fun hne => ?_, fun hne => ?_⟩
    · obtain ⟨u, hu⟩ := exists_isLeast hne
      obtain ⟨hd, hreach⟩ := h.next u hu
      obtain ⟨v, hv⟩ := nextAfter_isOk.mpr
        ⟨u.date, firstDay_le (hu.1.1.occurs hd) hu.1.2, hreach, hd⟩
      exact ⟨u, isLeast_of_nextAfter hstar ht hv hu hd ▸ hv, hu⟩
    · obtain ⟨u, hu⟩ := exists_isGreatest hne
      obtain ⟨hd, hreach⟩ := h.previous u hu
      obtain ⟨v, hv⟩ := atOrBefore_isSome.mpr
        ⟨u.date, le_lastDay (hu.1.1.occurs hd) hu.1.2, hreach, hd⟩
      exact ⟨u, isGreatest_of_atOrBefore hstar ht hv hu hd ▸ hv, hu⟩

/-- The months of an expression are months, and so are the days of the week. -/
theorem month_bounds (hm : m ∈ c.month.values) : 1 ≤ m ∧ m ≤ 12 := c.month.bounds m hm

/-- Two years hold a match, if a day of the week in a month matches. -/
theorem dense_of_dow (hdow : c.day.values = fullRange 1 31 ∨ c.dow.values ≠ fullRange 0 7) :
    c.Dense := by
  obtain ⟨m, hm⟩ := exists_mem_of_ne_nil _ c.month.ne_nil
  obtain ⟨j, hj⟩ := exists_mem_of_ne_nil _ c.dow.ne_nil
  intro d
  have hj7 := c.dow.bounds j hj
  obtain ⟨n, hn, hmonth, hweek⟩ := exists_month_dow d (month_bounds hm) (j := j) (by omega)
  refine ⟨n, by unfold maxDaySearch; omega, ?_⟩
  simp only [CronSchedule.dateMatches, Bool.and_eq_true, decide_eq_true_eq]
  refine ⟨hmonth ▸ hm, ?_⟩
  rw [← hweek] at hj
  unfold dayMatches
  by_cases hfull : c.day.values = fullRange 1 31
  · simp [hfull, day_mem_full, hj]
  · simp [hfull, hdow.resolve_left hfull, hj]

/-- Two years hold a match, if a day of a month matches that every year has. -/
theorem dense_of_day {k : ℤ} (hdow : c.dow.values = fullRange 0 7) (hm : m ∈ c.month.values)
    (hk : k ∈ c.day.values) (hvalid : k ≤ daysInMonth m) : c.Dense := by
  intro d
  obtain ⟨n, hn, hmonth, hday⟩ := exists_monthDay d (month_bounds hm)
    ⟨(c.day.bounds k hk).1, hvalid⟩
  refine ⟨n, by unfold maxDaySearch; omega, ?_⟩
  simp only [CronSchedule.dateMatches, Bool.and_eq_true, decide_eq_true_eq]
  refine ⟨hmonth ▸ hm, ?_⟩
  rw [← hday] at hk
  simp [dayMatches, hdow, cronDow_mem_full, hk]

theorem eq_singleton_of_pairwise {l : List ℤ} {x : ℤ} (h : l.Pairwise (· < ·)) (hx : x ∈ l)
    (hall : ∀ y ∈ l, y = x) : l = [x] := by
  cases l with
  | nil => cases hx
  | cons y ys =>
    obtain rfl := hall y mem_cons_self
    cases ys with
    | nil => rfl
    | cons z zs =>
      have hlt := (pairwise_cons.mp h).1 z mem_cons_self
      rw [hall z (.tail _ mem_cons_self)] at hlt
      exact absurd hlt (lt_irrefl y)

theorem twentyNine_le_daysInMonth (hm : 1 ≤ m ∧ m ≤ 12) (hne : m ≠ 2) :
    29 ≤ daysInMonth m := by
  obtain ⟨h1, h12⟩ := hm
  interval_cases m <;> first | decide | exact absurd rfl hne

/-- **An expression that matches at all matches every two years**, unless it matches 29 February
only. -/
theorem dense_of_dateMatches (hleap : ¬c.OnlyLeapDays) (h : c.dateMatches d = true) : c.Dense := by
  by_cases hdow : c.dow.values = fullRange 0 7
  · simp only [CronSchedule.dateMatches, Bool.and_eq_true, decide_eq_true_eq] at h
    obtain ⟨hmonth, hday⟩ := h
    replace hday : d.day ∈ c.day.values := by
      simpa [dayMatches, hdow, cronDow_mem_full] using hday
    by_cases hvalid : d.day ≤ daysInMonth d.month
    · exact dense_of_day hdow hmonth hday hvalid
    · have hlong := Date.day_le_longestMonth d
      unfold longestMonth at hlong
      obtain ⟨hm2, h29⟩ : d.month = 2 ∧ d.day = 29 := by
        split_ifs at hlong with hm2
        · refine ⟨hm2, ?_⟩
          rw [hm2, show daysInMonth 2 = 28 by decide] at hlong hvalid
          omega
        · omega
      rw [hm2] at hmonth
      rw [h29] at hday
      by_contra hnot
      refine hleap ⟨hdow, eq_singleton_of_pairwise c.month.sorted hmonth fun m hm => ?_, hday,
        fun k hk => ?_⟩
      · by_contra hne
        exact hnot (dense_of_day hdow hm hday (twentyNine_le_daysInMonth (month_bounds hm) hne))
      · by_contra hlt
        refine hnot (dense_of_day hdow hmonth hk ?_)
        rw [show daysInMonth 2 = 28 by decide]
        omega
  · exact dense_of_dow (.inr hdow)

def year2000 : Date := 730120

theorem exists_day_2000 {k : ℤ} (hm : 1 ≤ m ∧ m ≤ 12) (hk : 1 ≤ k ∧ k ≤ longestMonth m) :
    ∃ n < 366, (year2000 + (n : ℕ) : Date).month = m ∧ (year2000 + (n : ℕ) : Date).day = k := by
  have hall : ∀ m : ℕ, m < 13 → ∀ k : ℕ, k < 32 → 1 ≤ m ∧ 1 ≤ k ∧ (k : ℤ) ≤ longestMonth m →
      (year2000 + (monthStart m true + k - 1) : Date).month = m ∧
        (year2000 + (monthStart m true + k - 1) : Date).day = k ∧
        0 ≤ monthStart m true ∧ monthStart m true + k ≤ 366 := by
    decide +kernel
  have hlong : longestMonth m ≤ 31 := by
    obtain ⟨h1, h12⟩ := hm
    interval_cases m <;> decide
  have h := hall m.toNat (by omega) k.toNat (by omega)
  rw [Int.toNat_of_nonneg (by omega), Int.toNat_of_nonneg (by omega)] at h
  obtain ⟨hmonth, hday, h0, hlast⟩ := h ⟨by omega, by omega, hk.2⟩
  have hn : year2000 + ((monthStart m true + k - 1).toNat : ℕ) =
      year2000 + (monthStart m true + k - 1) := by
    unfold Date at *
    omega
  refine ⟨(monthStart m true + k - 1).toNat, by omega, ?_⟩
  rw [hn]
  exact ⟨hmonth, hday⟩

/-- The search back from an occurrence that only the documented rule accepts misses it. -/
theorem not_exact_of_dayRule {p : ℤ × ℤ} (htime : c.TimeMatches p)
    (hmonth : d.month ∈ c.month.values)
    (hrule : c.DayRule d) (hd : c.dayMatches d = false) (hcal : 1 ≤ d ∧ d ≤ 3652059) :
    (Wall.ofDate d p.1 p.2).InCalendar ∧ ¬c.Exact (Wall.ofDate d p.1 p.2) := by
  obtain ⟨hp1, hp2⟩ := htime.bounds
  have hdate := Wall.date_ofDate (d := d) hp1 hp2
  have hin : (Wall.ofDate d p.1 p.2).InCalendar := by
    unfold Wall.InCalendar Wall.ofDate
    unfold Wall Date at *
    omega
  have hmatch : c.Matches (Wall.ofDate d p.1 p.2) := by
    refine ⟨Wall.ofDate_mod d p.1 p.2, hin, by rwa [hdate], by rwa [hdate], ?_, ?_⟩
    · rw [Wall.hour_ofDate hp1 hp2]
      exact htime.1
    · rw [Wall.minute_ofDate hp1 hp2]
      exact htime.2
  refine ⟨hin, fun hexact => ?_⟩
  have htrunc := Wall.truncate_of_dvd (Wall.ofDate_mod d p.1 p.2)
  obtain ⟨v, hv, hgreatest⟩ := hexact.previous ⟨_, hmatch, htrunc.ge⟩
  have hve : v = Wall.ofDate d p.1 p.2 :=
    le_antisymm (hgreatest.1.2.trans htrunc.le) (hgreatest.2 ⟨hmatch, htrunc.ge⟩)
  have hocc := (atOrBefore_spec hv).1.date
  rw [hve, hdate] at hocc
  simp [CronSchedule.dateMatches, hd] at hocc

theorem exists_not_mem_of_ne_fullRange {lo hi : ℤ} {n : ℕ} (f : CronField lo hi)
    (hn : hi < lo + n) (h : f.values ≠ fullRange lo n) :
    ∃ v, (lo ≤ v ∧ v < lo + n) ∧ v ∉ f.values := by
  by_contra hall
  simp only [not_exists, not_and, not_not] at hall
  have hsorted : (fullRange lo n).Pairwise (· < ·) := by
    rw [fullRange, pairwise_map]
    exact pairwise_lt_range.imp fun hab => by omega
  refine h (List.Perm.eq_of_pairwise (fun a b _ _ => le_antisymm)
    (f.sorted.imp le_of_lt) (hsorted.imp le_of_lt) ?_)
  refine (perm_ext_iff_of_nodup (f.sorted.imp ne_of_lt) (hsorted.imp ne_of_lt)).mpr fun v => ?_
  rw [mem_fullRange]
  refine ⟨fun hv => ?_, hall v⟩
  have := f.bounds v hv
  omega

/-- **A full day field that is spelled out** hides days that the documentation promises. -/
theorem not_exact_of_spelledOut (hstar : c.StarsFull) (h : c.SpelledOut) :
    ∃ t, t.InCalendar ∧ ¬c.Exact t := by
  have htime : c.TimeMatches (c.hour.values.head c.hour.ne_nil,
      c.minute.values.head c.minute.ne_nil) :=
    ⟨head_mem _, head_mem _⟩
  rcases h with ⟨hday, h2, hdow⟩ | ⟨hdow, h4, m, hm, k, hk, hlong, hmem⟩
  · obtain ⟨m, hm⟩ := exists_mem_of_ne_nil _ c.month.ne_nil
    obtain ⟨j, hj, hmem⟩ := exists_not_mem_of_ne_fullRange c.dow (by omega) hdow
    obtain ⟨n, hn, hmonth, hweek⟩ := exists_month_dow year2000 (month_bounds hm) (j := j) (by omega)
    have h4 : c.fieldText 4 ≠ "*" := fun h4 => hdow (hstar.2 h4)
    refine ⟨_, not_exact_of_dayRule (d := year2000 + (n : ℕ)) htime (hmonth ▸ hm) ?_ ?_ ?_⟩
    · rw [DayRule, if_pos ⟨h2, h4⟩, hday]
      exact .inl (day_mem_full _)
    · simp [dayMatches, hday, day_mem_full, hweek, hmem]
    · unfold year2000 Date
      omega
  · obtain ⟨n, hn, hmonth, hday⟩ := exists_day_2000 (month_bounds hm) ⟨hk, hlong⟩
    have h2 : c.fieldText 2 ≠ "*" := by
      intro h2
      refine hmem ?_
      have hb := month_bounds hm
      have h31 : longestMonth m ≤ 31 := by
        obtain ⟨h1, h12⟩ := hb
        interval_cases m <;> decide
      rw [hstar.1 h2, mem_fullRange]
      omega
    refine ⟨_, not_exact_of_dayRule (d := year2000 + (n : ℕ)) htime (hmonth ▸ hm) ?_ ?_ ?_⟩
    · rw [DayRule, if_pos ⟨h2, h4⟩, hdow]
      exact .inr (cronDow_mem_full _)
    · simp [dayMatches, hdow, cronDow_mem_full, hday, hmem]
    · unfold year2000 Date
      omega

def march2096 : Date := 765244

def leapDay2104 : Date := 768164

/-- The days of a year, those from March on if it is a leap year, are not 29 February. -/
theorem YearStart.no_leapDay {b : Date} {leapYear : Bool} (hb : YearStart b leapYear)
    (hle : b ≤ d) (hlt : d < b + (365 + if leapYear then 1 else 0))
    (hmarch : leapYear = true → b + 60 ≤ d) : ¬(d.month = 2 ∧ 29 ≤ d.day) := by
  have hall : ∀ k < 366, ∀ b : Bool, (b = true → 60 ≤ k) →
      ¬((monthAndDay (k : ℕ) b).1 = 2 ∧ 29 ≤ (monthAndDay (k : ℕ) b).2) := by
    decide +kernel
  have h := hall (d - b).toNat (by unfold Date at *; split_ifs at hlt <;> omega) leapYear
    fun hleap => by
      have := hmarch hleap
      unfold Date at *
      omega
  obtain ⟨hmonth, hday⟩ := hb (d - b) (Int.sub_nonneg.mpr hle) (Int.sub_left_lt_of_lt_add hlt)
  rw [Int.toNat_of_nonneg (Int.sub_nonneg.mpr hle), ← hmonth, ← hday] at h
  have hd : b + (d - b) = d := add_sub_cancel b d
  rwa [hd] at h

theorem no_leapDay (hle : march2096 ≤ d) (hlt : d < march2096 + 1475) :
    ¬(d.month = 2 ∧ 29 ≤ d.day) := by
  -- 2096 ends a block of four years, and 2100 a block of a hundred
  have h2096 : YearStart (765184 : ℤ) true :=
    yearStart_of (a := 5) (b := 0) (c := 23) (e := 3) (by omega) (by omega) (by omega)
  have hcommon : ∀ e : ℤ, 0 ≤ e ∧ e < 4 →
      YearStart (5 * 146097 + 0 * 36524 + 24 * 1461 + e * 365 + 1)
      false := fun e he => by
    simpa using yearStart_of (a := 5) (b := 0) (c := 24) (e := e) (by omega) (by omega) he
  unfold march2096 at hle hlt
  rcases lt_or_ge d 765550 with hd | hd
  · exact YearStart.no_leapDay h2096 (by unfold Date at *; omega) (by unfold Date at *; simp; omega)
      fun _ => by unfold Date at *; omega
  · exact YearStart.no_leapDay (hcommon ((d - 765550) / 365) (by unfold Date at *; omega))
      (by unfold Date at *; omega) (by unfold Date at *; simp; omega) (by simp)

/-- **29 February alone** is out of reach after 2096. -/
theorem not_exact_of_onlyLeapDays (h : c.OnlyLeapDays) : ¬c.Exact (Wall.ofDate march2096 0 0) := by
  obtain ⟨hdow, hmonth, hday, hleap⟩ := h
  have hdate : c.dateMatches leapDay2104 = true := by
    have hm : leapDay2104.month = 2 ∧ leapDay2104.day = 29 := by decide
    simp [CronSchedule.dateMatches, dayMatches, hdow, hmonth, hm, hday, cronDow_mem_full]
  obtain ⟨u, hu, hud⟩ := exists_occurs hdate
  intro hexact
  have hrule : c.DayRule u.date := by
    unfold DayRule
    split_ifs
    · exact .inr (hdow ▸ cronDow_mem_full _)
    · have hm : leapDay2104.day = 29 := by decide
      exact ⟨by rw [hud, hm]; exact hday, hdow ▸ cronDow_mem_full _⟩
  have hm : leapDay2104.month = 2 := by decide
  have hmon : u.date.month ∈ c.month.values := by
    rw [hud, hm, hmonth]
    exact mem_singleton_self 2
  have hlater : u ∈ c.laterMatches (Wall.ofDate march2096 0 0) := by
    unfold Wall.date leapDay2104 at hud
    refine ⟨⟨hu.whole, ?_, hmon, hrule, hu.hour, hu.minute⟩, ?_⟩
    · unfold Wall.InCalendar
      unfold Wall Date at *
      omega
    · unfold Wall.truncate Wall.ofDate march2096
      unfold Wall Date at *
      omega
  obtain ⟨v, hv, -⟩ := hexact.next ⟨u, hlater⟩
  obtain ⟨d, hle, hlt, hd⟩ := nextAfter_isOk.mp ⟨v, hv⟩
  have hfirst : march2096 ≤ c.firstDay (Wall.ofDate march2096 0 0) ∧
      c.firstDay (Wall.ofDate march2096 0 0) ≤ march2096 + 1 := by
    have hcursor : ((Wall.ofDate march2096 0 0).truncate + 60000000 : Wall).date = march2096 := by
      decide
    unfold firstDay
    simp only [hcursor]
    split_ifs
    · unfold Date
      omega
    · unfold Date
      omega
  have hno : ¬(d.month = 2 ∧ 29 ≤ d.day) := by
    refine no_leapDay (hfirst.1.trans hle) ?_
    unfold maxDaySearch at hlt
    unfold Date at *
    omega
  simp only [CronSchedule.dateMatches, hmonth, mem_singleton, Bool.and_eq_true,
    decide_eq_true_eq] at hd
  have hmem : d.day ∈ c.day.values := by
    simpa [dayMatches, hdow, cronDow_mem_full] using hd.2
  exact hno ⟨hd.1, hleap _ hmem⟩

/-- **When the search is exact from every time.** -/
theorem exact_iff (hstar : c.StarsFull) :
    (∀ t, t.InCalendar → c.Exact t) ↔ ¬c.SpelledOut ∧ ¬c.OnlyLeapDays := by
  constructor
  · intro h
    refine ⟨fun hspell => ?_, fun hleap => ?_⟩
    · obtain ⟨t, ht, hnot⟩ := not_exact_of_spelledOut hstar hspell
      exact hnot (h t ht)
    · refine not_exact_of_onlyLeapDays hleap (h _ ?_)
      unfold Wall.InCalendar
      decide
  · rintro ⟨hspell, hleap⟩ t ht
    refine ⟨fun hne => ?_, fun hne => ?_⟩
    · obtain ⟨u, hu⟩ := exists_isLeast hne
      have hd := hu.1.1.dateMatches hspell
      obtain ⟨v, hv⟩ := (dense_of_dateMatches hleap hd).nextAfter t
      exact ⟨u, isLeast_of_nextAfter hstar ht hv hu hd ▸ hv, hu⟩
    · obtain ⟨u, hu⟩ := exists_isGreatest hne
      have hd := hu.1.1.dateMatches hspell
      obtain ⟨v, hv⟩ := (dense_of_dateMatches hleap hd).atOrBefore t
      exact ⟨u, isGreatest_of_atOrBefore hstar ht hv hu hd ▸ hv, hu⟩

theorem starsFull_of_parseCron (h : parseCron s = .ok c) : c.StarsFull := by
  obtain ⟨minute, hour, day, month, dow, hs, -, -, hday, -, hdow, hexpr⟩ := parseCron_eq_ok.mp h
  unfold StarsFull fieldText
  rw [hexpr, hs]
  refine ⟨fun h2 => ?_, fun h4 => ?_⟩
  · have hstar : (parseField (by decide : (1 : ℤ) ≤ 31) "day-of-month" "*").toOption.map
        (·.values) = some (fullRange 1 31) := by decide +kernel
    obtain rfl : day = "*" := h2
    rw [hday] at hstar
    exact Option.some.inj hstar
  · have hstar : (parseField (by decide : (0 : ℤ) ≤ 6) "day-of-week" "*").toOption.map
        (·.values) = some (fullRange 0 7) := by decide +kernel
    obtain rfl : dow = "*" := h4
    rw [hdow] at hstar
    exact Option.some.inj hstar

end CronSchedule

open CronSchedule

/-- **How exact the search of a parsed expression is**: from every time iff no full day field is
spelled out and not only 29 February matches; from one time iff the matches next to it are on days
that the code accepts and reaches. -/
theorem cron_search_exact {s : String} {c : CronSchedule} (h : parseCron s = .ok c) :
    ((∀ t : Wall, t.InCalendar → c.Exact t) ↔ ¬c.SpelledOut ∧ ¬c.OnlyLeapDays) ∧
      ∀ t : Wall, t.InCalendar → (c.Exact t ↔ c.InReach t) :=
  ⟨exact_iff (starsFull_of_parseCron h), fun _ ht =>
    exact_iff_inReach (starsFull_of_parseCron h) ht⟩

/-- Nine o'clock on working days is found from every time. -/
theorem cron_search_exact_workdays : ∃ c, parseCron "0 9 * * 1-5" = .ok c ∧
    ∀ t : Wall, t.InCalendar → c.Exact t := by
  have hvalues : ((parseCron "0 9 * * 1-5").toOption.map fun c => (c.dow.values, c.fieldText 2)) =
      some ([1, 2, 3, 4, 5], "*") := by
    decide +kernel
  cases hc : parseCron "0 9 * * 1-5" with
  | error e =>
    rw [hc] at hvalues
    cases hvalues
  | ok c =>
    rw [hc] at hvalues
    have hpair := Option.some.inj hvalues
    have hdow : c.dow.values ≠ fullRange 0 7 := by
      rw [(Prod.mk.inj hpair).1]
      decide
    refine ⟨c, rfl, (cron_search_exact hc).1.mpr ⟨?_, fun h => hdow h.1⟩⟩
    rintro (⟨-, h2, -⟩ | ⟨h, -⟩)
    · exact h2 (Prod.mk.inj hpair).2
    · exact hdow h

/-- From March 2096 on, 29 February is not found; and the days 1 to 31, or Mondays, are the
Mondays: not Tuesday, the fourth of January 2000. -/
theorem cron_search_inexact :
    (∃ c, parseCron "0 0 29 2 *" = .ok c ∧ (Wall.ofDate march2096 0 0).InCalendar ∧
      ¬c.Exact (Wall.ofDate march2096 0 0)) ∧
    ∃ c, parseCron "0 0 1-31 * 1" = .ok c ∧ (Wall.ofDate 730123 0 0).InCalendar ∧
      ¬c.Exact (Wall.ofDate 730123 0 0) := by
  constructor
  · have hvalues : ((parseCron "0 0 29 2 *").toOption.map fun c =>
        (c.dow.values, c.month.values, c.day.values)) = some (fullRange 0 7, [2], [29]) := by
      decide +kernel
    cases hc : parseCron "0 0 29 2 *" with
    | error e =>
      rw [hc] at hvalues
      cases hvalues
    | ok c =>
      rw [hc] at hvalues
      obtain ⟨hdow, hrest⟩ := Prod.mk.inj (Option.some.inj hvalues)
      obtain ⟨hmonth, hday⟩ := Prod.mk.inj hrest
      refine ⟨c, rfl, by unfold Wall.InCalendar; decide, not_exact_of_onlyLeapDays
        ⟨hdow, hmonth, by simp [hday], fun k hk => ?_⟩⟩
      rw [hday, mem_singleton] at hk
      exact hk.ge
  · have hvalues : ((parseCron "0 0 1-31 * 1").toOption.map fun c =>
        ((c.dow.values, c.month.values, c.day.values), c.hour.values, c.minute.values,
          c.fieldText 2, c.fieldText 4)) =
        some (([1], fullRange 1 12, fullRange 1 31), [0], [0], "1-31", "1") := by
      decide +kernel
    cases hc : parseCron "0 0 1-31 * 1" with
    | error e =>
      rw [hc] at hvalues
      cases hvalues
    | ok c =>
      rw [hc] at hvalues
      simp only [Except.toOption, Option.map_some, Option.some.injEq, Prod.mk.injEq] at hvalues
      obtain ⟨⟨hdow, hmonth, hday⟩, hhour, hminute, h2, h4⟩ := hvalues
      refine ⟨c, rfl, not_exact_of_dayRule (p := (0, 0)) ⟨?_, ?_⟩ ?_ ?_ ?_ (by decide)⟩
      · simp [hhour]
      · simp [hminute]
      · rw [hmonth]
        decide
      · rw [DayRule, if_pos (by rw [h2, h4]; decide), hday]
        exact .inl (day_mem_full _)
      · unfold dayMatches
        rw [hday, hdow]
        decide

end Varco
