import Varco.Foundations.Calendar
import Varco.Foundations.Search
import Varco.Foundations.Text

/-!
# Cron expressions

`varco_core.schedule.cron`: the parser of five-field cron expressions, and the search for the
occurrence after a wall-clock time (`nextAfter`) and at or before it (`atOrBefore`). The search
looks for a day first, over a bounded number of days, and then for a time of that day; both
directions are one pattern, and the lemmas about it are stated once for either order of times.

`nextAfter_spec` and `atOrBefore_spec` say that what is found is the nearest occurrence;
`Dense.nextAfter` and `Dense.atOrBefore` that something is found, if the days that match are never
further apart than the search looks.
-/

namespace Varco

/-! ## Sets of integers -/

def insertValue (x : ℤ) : List ℤ → List ℤ
  | [] => [x]
  | y :: ys => if x < y then x :: y :: ys else if x = y then y :: ys else y :: insertValue x ys

theorem mem_insertValue {x y : ℤ} {l : List ℤ} : y ∈ insertValue x l ↔ y = x ∨ y ∈ l := by
  induction l with
  | nil => simp [insertValue]
  | cons z zs ih =>
    unfold insertValue
    split_ifs with h₁ h₂
    · exact List.mem_cons
    · subst h₂
      simp
    · rw [List.mem_cons, ih, List.mem_cons]
      tauto

theorem pairwise_insertValue {x : ℤ} {l : List ℤ} (h : l.Pairwise (· < ·)) :
    (insertValue x l).Pairwise (· < ·) := by
  induction l with
  | nil => simp [insertValue]
  | cons z zs ih =>
    obtain ⟨hz, hzs⟩ := List.pairwise_cons.mp h
    unfold insertValue
    split_ifs with h₁ h₂
    · refine List.pairwise_cons.mpr ⟨fun w hw => ?_, h⟩
      rcases List.mem_cons.mp hw with rfl | hw
      · exact h₁
      · exact h₁.trans (hz w hw)
    · exact h
    · refine List.pairwise_cons.mpr ⟨fun w hw => ?_, ih hzs⟩
      rcases mem_insertValue.mp hw with rfl | hw
      · omega
      · exact hz w hw

/-- `values.update(xs)` -/
def updateValues (values xs : List ℤ) : List ℤ := xs.foldl (fun vs x => insertValue x vs) values

theorem mem_updateValues {values xs : List ℤ} {y : ℤ} :
    y ∈ updateValues values xs ↔ y ∈ xs ∨ y ∈ values := by
  induction xs generalizing values with
  | nil => simp [updateValues]
  | cons x xs ih =>
    change y ∈ updateValues (insertValue x values) xs ↔ _
    rw [ih, mem_insertValue, List.mem_cons]
    tauto

theorem pairwise_updateValues {values xs : List ℤ} (h : values.Pairwise (· < ·)) :
    (updateValues values xs).Pairwise (· < ·) := by
  induction xs generalizing values with
  | nil => exact h
  | cons x xs ih => exact ih (pairwise_insertValue h)

/-! ## Parsing -/

/-- The set of a field: in ascending order, not empty, and within the bounds of the field. -/
structure CronField (lo hi : ℤ) where
  values : List ℤ
  sorted : values.Pairwise (· < ·)
  ne_nil : values ≠ []
  bounds : ∀ v ∈ values, lo ≤ v ∧ v ≤ hi

/-- One item of a field: the values from `first` to `last`, `step` apart. -/
structure CronItem (lo hi : ℤ) where
  first : ℤ
  last : ℤ
  step : ℕ
  first_le_last : first ≤ last
  step_pos : 0 < step
  le_first : lo ≤ first
  last_le : last ≤ hi

/-- `range(first, last + 1, step)` -/
def CronItem.range {lo hi : ℤ} (item : CronItem lo hi) : List ℤ :=
  (List.range (((item.last - item.first) / item.step).toNat + 1)).map
    fun k : ℕ => item.first + k * item.step

def parseStep (name item : String) : Except PyException (String × {n : ℕ // 0 < n}) :=
  if '/' ∈ item.toList then
    let parts := pyPartition '/' item
    let invalid := PyException.valueError (name ++ " field has an invalid step: " ++ pyRepr item)
    if !pyIsDigit parts.2 then .error invalid
    else do
      let step ← intOfDigits parts.2
      if h : 0 < step then pure (parts.1, ⟨step, h⟩) else .error invalid
  else .ok (item, ⟨1, Nat.one_pos⟩)

def parseBase {lo hi : ℤ} (hle : lo ≤ hi) (name item base : String) :
    Except PyException {r : ℤ × ℤ // r.1 ≤ r.2} :=
  if base = "*" then .ok ⟨(lo, hi), hle⟩
  else if '-' ∈ base.toList then
    let parts := pyPartition '-' base
    if !(pyIsDigit parts.1 && pyIsDigit parts.2) then
      .error (.valueError (name ++ " field has an invalid range: " ++ pyRepr item))
    else do
      let first ← intOfDigits parts.1
      let last ← intOfDigits parts.2
      if h : first ≤ last then pure ⟨(first, last), Int.ofNat_le.mpr h⟩
      else .error (.valueError (name ++ " field range is inverted: " ++ pyRepr item))
  else if pyIsDigit base then do
    let value ← intOfDigits base
    pure ⟨(value, value), le_rfl⟩
  else .error (.valueError (name ++ " field has an invalid value: " ++ pyRepr item))

/-- One pass of the loop of `_parse_field`. -/
def parseItem {lo hi : ℤ} (hle : lo ≤ hi) (name text item : String) :
    Except PyException (CronItem lo hi) :=
  if item = "" then
    .error (.valueError (name ++ " field has an empty list element: " ++ pyRepr text))
  else do
    let (base, step) ← parseStep name item
    let ⟨(first, last), hfl⟩ ← parseBase hle name item base
    if h : first < lo ∨ hi < last then
      .error (.valueError (name ++ " field value " ++ pyRepr item ++ " is out of range [" ++
        toString lo ++ ", " ++ toString hi ++ "]"))
    else
      pure ⟨first, last, step.1, hfl, step.2, not_lt.mp fun hl => h (.inl hl),
        not_lt.mp fun hl => h (.inr hl)⟩

theorem CronItem.mem_range {lo hi v : ℤ} {item : CronItem lo hi} (h : v ∈ item.range) :
    lo ≤ v ∧ v ≤ hi := by
  obtain ⟨k, hk, rfl⟩ := List.mem_map.mp h
  have hs : (0 : ℤ) < item.step := Int.natCast_pos.mpr item.step_pos
  have hd : 0 ≤ item.last - item.first := Int.sub_nonneg.mpr item.first_le_last
  have hk' : (k : ℤ) ≤ (item.last - item.first) / item.step := by
    have := List.mem_range.mp hk
    have := Int.ediv_nonneg hd hs.le
    omega
  have hmul : (k : ℤ) * item.step ≤ item.last - item.first :=
    (Int.mul_le_mul_of_nonneg_right hk' hs.le).trans (Int.ediv_mul_le _ hs.ne')
  have hnonneg : 0 ≤ (k : ℤ) * item.step := Int.mul_nonneg (Int.natCast_nonneg k) hs.le
  have hfirst := item.le_first
  have hlast := item.last_le
  omega

def CronField.ofItems {lo hi : ℤ} (item : CronItem lo hi) (items : List (CronItem lo hi)) :
    CronField lo hi where
  values := updateValues [] ((item :: items).flatMap CronItem.range)
  sorted := pairwise_updateValues List.Pairwise.nil
  ne_nil h := by
    have hfirst : item.first ∈ updateValues [] ((item :: items).flatMap CronItem.range) := by
      refine mem_updateValues.mpr (.inl (List.mem_flatMap.mpr ⟨item, List.mem_cons_self, ?_⟩))
      exact List.mem_map.mpr ⟨0, List.mem_range.mpr (Nat.succ_pos _), by simp⟩
    rw [h] at hfirst
    exact List.not_mem_nil hfirst
  bounds v hv := by
    rcases mem_updateValues.mp hv with hv | hv
    · obtain ⟨i, -, hi⟩ := List.mem_flatMap.mp hv
      exact CronItem.mem_range hi
    · exact absurd hv List.not_mem_nil

def parseField {lo hi : ℤ} (hle : lo ≤ hi) (name text : String) :
    Except PyException (CronField lo hi) :=
  if text = "" then .error (.valueError (name ++ " field must not be empty"))
  else do
    match ← (pySplit ',' text).mapM (parseItem hle name text) with
    | [] => .error (.valueError (name ++ " field resolved to no values: " ++ pyRepr text))
    | item :: items => pure (.ofItems item items)

/-- A parsed cron expression. -/
structure CronSchedule where
  minute : CronField 0 59
  hour : CronField 0 23
  day : CronField 1 31
  month : CronField 1 12
  dow : CronField 0 6
  expr : String

def parseCron (expr : String) : Except PyException CronSchedule :=
  match pySplitSpace expr with
  | [minute, hour, day, month, dow] => do
    let minute ← parseField (by decide) "minute" minute
    let hour ← parseField (by decide) "hour" hour
    let day ← parseField (by decide) "day-of-month" day
    let month ← parseField (by decide) "month" month
    let dow ← parseField (by decide) "day-of-week" dow
    pure ⟨minute, hour, day, month, dow, expr⟩
  | fields =>
    .error (.valueError ("cron expression must have exactly 5 fields, got " ++
      toString fields.length ++ ": " ++ pyRepr expr))

example : ((parseCron "*/30 9-17/4 1,15 * 1-5").toOption.map fun c =>
      (c.minute.values, c.hour.values, c.day.values, c.month.values, c.dow.values)) =
    some ([0, 30], [9, 13, 17], [1, 15], [1, 2, 3, 4, 5, 6, 7, 8, 9, 10, 11, 12],
      [1, 2, 3, 4, 5]) := by
  decide +kernel

/-! ## The search for an occurrence -/

/-- `_cron_dow`: Sunday is 0. -/
def cronDow (d : Date) : ℤ := (d.weekday + 1) % 7

def maxDaySearch : ℕ := 1474

/-- `frozenset(range(lo, lo + n))` -/
def fullRange (lo : ℤ) (n : ℕ) : List ℤ := (List.range n).map fun k : ℕ => lo + k

/-- The first time of day, hour by hour and minute by minute, that is not before `bound`. -/
def firstTime (before : ℤ → ℤ → Prop) [DecidableRel before] (hours minutes : List ℤ)
    (bound : ℤ × ℤ) : Option (ℤ × ℤ) :=
  hours.findSome? fun hour =>
    if before hour bound.1 then none
    else (minutes.find? fun minute => ¬(hour = bound.1 ∧ before minute bound.2)).map (hour, ·)

namespace CronSchedule

/-- The day of the month and the day of the week, either one if both are restricted. -/
def dayMatches (c : CronSchedule) (d : Date) : Bool :=
  let domRestricted : Bool := c.day.values ≠ fullRange 1 31
  let dowRestricted : Bool := c.dow.values ≠ fullRange 0 7
  let domMatch : Bool := d.day ∈ c.day.values
  let dowMatch : Bool := cronDow d ∈ c.dow.values
  if domRestricted && dowRestricted then domMatch || dowMatch else domMatch && dowMatch

def dateMatches (c : CronSchedule) (d : Date) : Bool := d.month ∈ c.month.values && c.dayMatches d

/-- The first date from `start` on that matches. -/
def nextMatchingDate (c : CronSchedule) (start : Date) : Except PyException Date :=
  match search 1 c.dateMatches maxDaySearch start with
  | some d => .ok d
  | none =>
    .error (.valueError ("no matching date found for cron " ++ pyRepr c.expr ++ " within " ++
      toString maxDaySearch ++ " days — the expression may be self-contradictory " ++
      "(e.g. day-of-month=31 with month=2)"))

/-- The last date up to `start` that matches. -/
def previousMatchingDate (c : CronSchedule) (start : Date) : Except PyException Date :=
  match search (-1) c.dateMatches maxDaySearch start with
  | some d => .ok d
  | none =>
    .error (.valueError ("no matching date found for cron " ++ pyRepr c.expr ++ " within " ++
      toString maxDaySearch ++ " days before " ++ start.repr))

def earliestTimeOnOrAfter (c : CronSchedule) : Option (ℤ × ℤ) → Option (ℤ × ℤ)
  | none => some (c.hour.values.head c.hour.ne_nil, c.minute.values.head c.minute.ne_nil)
  | some floor => firstTime (· < ·) c.hour.values c.minute.values floor

def latestTimeOnOrBefore (c : CronSchedule) : Option (ℤ × ℤ) → Option (ℤ × ℤ)
  | none => some (c.hour.values.getLast c.hour.ne_nil, c.minute.values.getLast c.minute.ne_nil)
  | some ceiling => firstTime (· > ·) c.hour.values.reverse c.minute.values.reverse ceiling

/-- The passes of the loop of `next_after`: on the day of the cursor with its floor, then on any day
without one. -/
def nextLoop (c : CronSchedule) (after : Wall) : ℕ → Date → Option (ℤ × ℤ) → Except PyException Wall
  | 0, _, _ =>
    .error (.valueError ("no matching time found for cron " ++ pyRepr c.expr ++ " after " ++
      after.repr))
  | n + 1, cursor, floor =>
    match c.nextMatchingDate cursor with
    | .error e => .error e
    | .ok matched =>
      match c.earliestTimeOnOrAfter (if matched = cursor then floor else none) with
      | some (hour, minute) => .ok (Wall.ofDate matched hour minute)
      | none => nextLoop c after n (matched + 1) none

/-- The earliest occurrence strictly after `after`. -/
def nextAfter (c : CronSchedule) (after : Wall) : Except PyException Wall :=
  let cursor : Wall := after.truncate + 60000000
  c.nextLoop after 2 cursor.date (some (cursor.hour, cursor.minute))

/-- The passes of the loop of `at_or_before`. -/
def previousLoop (c : CronSchedule) : ℕ → Date → Option (ℤ × ℤ) → Option Wall
  | 0, _, _ => none
  | n + 1, cursor, ceiling =>
    match c.previousMatchingDate cursor with
    | .error _ => none
    | .ok matched =>
      match c.latestTimeOnOrBefore (if matched = cursor then ceiling else none) with
      | some (hour, minute) => some (Wall.ofDate matched hour minute)
      | none => previousLoop c n (matched - 1) none

/-- The latest occurrence at or before `before`. -/
def atOrBefore (c : CronSchedule) (before : Wall) : Option Wall :=
  let cursor := before.truncate
  c.previousLoop 2 cursor.date (some (cursor.hour, cursor.minute))

/-- A minute that the expression matches. -/
structure Occurs (c : CronSchedule) (w : Wall) : Prop where
  whole : w % 60000000 = 0
  date : c.dateMatches w.date = true
  hour : w.hour ∈ c.hour.values
  minute : w.minute ∈ c.minute.values

instance (c : CronSchedule) (w : Wall) : Decidable (c.Occurs w) :=
  decidable_of_iff (w % 60000000 = 0 ∧ c.dateMatches w.date = true ∧ w.hour ∈ c.hour.values ∧
      w.minute ∈ c.minute.values)
    ⟨fun h => ⟨h.1, h.2.1, h.2.2.1, h.2.2.2⟩, fun h => ⟨h.whole, h.date, h.hour, h.minute⟩⟩

/-- Among as many days in a row as the search looks at, one matches. -/
def Dense (c : CronSchedule) : Prop := ∀ d : Date, ∃ k < maxDaySearch, c.dateMatches (d + k) = true

end CronSchedule

/-! ## Times of day -/

section

variable {r : ℤ → ℤ → Prop} [DecidableRel r] {hours minutes : List ℤ} {b t t' : ℤ × ℤ}

def TimeBefore (r : ℤ → ℤ → Prop) (t t' : ℤ × ℤ) : Prop := r t.1 t'.1 ∨ t.1 = t'.1 ∧ r t.2 t'.2

omit [DecidableRel r] in
/-- In a list in order, what is before an element stands before it. -/
theorem mem_left_of_pairwise [Std.Asymm r] {l₁ l₂ : List ℤ} {x y : ℤ}
    (h : (l₁ ++ y :: l₂).Pairwise r) (hx : x ∈ l₁ ++ y :: l₂) (hr : r x y) : x ∈ l₁ := by
  rcases List.mem_append.mp hx with hx | hx
  · exact hx
  · have hy := (List.pairwise_cons.mp (List.pairwise_append.mp h).2.1).1
    rcases List.mem_cons.mp hx with rfl | hx
    · exact absurd hr (Std.Asymm.asymm _ _ hr)
    · exact absurd hr (Std.Asymm.asymm _ _ (hy x hx))

/-- The times of an hour at which the search finds none are before the bound. -/
theorem timeBefore_of_passed {hour : ℤ} (hm : t.2 ∈ minutes) (he : t.1 = hour)
    (h : (if r hour b.1 then none
      else (minutes.find? fun minute => ¬(hour = b.1 ∧ r minute b.2)).map (hour, ·)) = none) :
    TimeBefore r t b := by
  subst he
  by_cases hr : r t.1 b.1
  · exact .inl hr
  · rw [if_neg hr, Option.map_eq_none_iff, List.find?_eq_none] at h
    have hlast := h t.2 hm
    simp only [decide_eq_true_eq, not_not] at hlast
    exact .inr hlast

theorem firstTime_eq_none (h : firstTime r hours minutes b = none) (hh : t.1 ∈ hours)
    (hm : t.2 ∈ minutes) : TimeBefore r t b :=
  timeBefore_of_passed hm rfl (List.findSome?_eq_none_iff.mp h t.1 hh)

/-- **The first time of day that is not before the bound.** -/
theorem firstTime_eq_some [Std.Asymm r] (hp : hours.Pairwise r) (hq : minutes.Pairwise r)
    (h : firstTime r hours minutes b = some t) :
    t.1 ∈ hours ∧ t.2 ∈ minutes ∧ ¬TimeBefore r t b ∧
      ∀ t' : ℤ × ℤ, t'.1 ∈ hours → t'.2 ∈ minutes → ¬TimeBefore r t' b → ¬TimeBefore r t' t := by
  obtain ⟨l₁, hour, l₂, rfl, hf, hl₁⟩ := List.findSome?_eq_some_iff.mp h
  split_ifs at hf with hr
  obtain ⟨minute, hm, rfl⟩ := Option.map_eq_some_iff.mp hf
  obtain ⟨hbound, m₁, m₂, rfl, hm₁⟩ := List.find?_eq_some_iff_append.mp hm
  simp only [decide_eq_true_eq] at hbound
  refine ⟨by simp, by simp, ?_, ?_⟩
  · rintro (h₁ | h₂)
    · exact hr h₁
    · exact hbound h₂
  · rintro t' hh' hm' hb (h₁ | ⟨h₁, h₂⟩)
    · -- an earlier hour was passed over
      exact hb (timeBefore_of_passed hm' rfl (hl₁ _ (mem_left_of_pairwise hp hh' h₁)))
    · -- an earlier minute of the hour was passed over
      have hpast := hm₁ _ (mem_left_of_pairwise hq hm' h₂)
      simp only [Bool.not_eq_eq_eq_not, Bool.not_true, decide_eq_false_iff_not, not_not] at hpast
      change t'.1 = hour at h₁
      rw [← h₁] at hpast
      exact hb (.inr hpast)

end

namespace CronSchedule

variable {c : CronSchedule} {t : ℤ × ℤ}

def ofTime (t : ℤ × ℤ) : ℤ := t.1 * 60 + t.2

def TimeMatches (c : CronSchedule) (t : ℤ × ℤ) : Prop := t.1 ∈ c.hour.values ∧ t.2 ∈ c.minute.values

theorem TimeMatches.bounds (h : c.TimeMatches t) : (0 ≤ t.1 ∧ t.1 < 24) ∧ 0 ≤ t.2 ∧ t.2 < 60 := by
  have hh := c.hour.bounds _ h.1
  have hm := c.minute.bounds _ h.2
  omega

theorem head_le_of_pairwise {l : List ℤ} (h : l.Pairwise (· < ·)) (hl : l ≠ []) {v : ℤ}
    (hv : v ∈ l) : l.head hl ≤ v := by
  cases l with
  | nil => exact absurd rfl hl
  | cons x xs =>
    rcases List.mem_cons.mp hv with rfl | hv
    · exact le_rfl
    · exact ((List.pairwise_cons.mp h).1 v hv).le

theorem le_getLast_of_pairwise {l : List ℤ} (h : l.Pairwise (· < ·)) (hl : l ≠ []) {v : ℤ}
    (hv : v ∈ l) : v ≤ l.getLast hl := by
  rw [← List.dropLast_concat_getLast hl] at h hv
  rcases List.mem_append.mp hv with hv | hv
  · exact ((List.pairwise_append.mp h).2.2 v hv _ (List.mem_singleton_self _)).le
  · exact (List.mem_singleton.mp hv).le

theorem not_timeBefore_lt {t t' : ℤ × ℤ} (ht : 0 ≤ t.2 ∧ t.2 < 60) (ht' : 0 ≤ t'.2 ∧ t'.2 < 60) :
    ¬TimeBefore (· < ·) t t' ↔ ofTime t' ≤ ofTime t := by
  unfold TimeBefore ofTime
  omega

theorem not_timeBefore_gt {t t' : ℤ × ℤ} (ht : 0 ≤ t.2 ∧ t.2 < 60) (ht' : 0 ≤ t'.2 ∧ t'.2 < 60) :
    ¬TimeBefore (· > ·) t t' ↔ ofTime t ≤ ofTime t' := by
  unfold TimeBefore ofTime
  omega

variable {bound : Option (ℤ × ℤ)}

section

variable (hb : ∀ b ∈ bound, 0 ≤ b.2 ∧ b.2 < 60)

include hb

/-- **The earliest time of day**, from a floor on; no floor is midnight. -/
theorem earliestTime_spec (h : c.earliestTimeOnOrAfter bound = some t) :
    c.TimeMatches t ∧ ofTime (bound.getD (0, 0)) ≤ ofTime t ∧
      ∀ t', c.TimeMatches t' → ofTime (bound.getD (0, 0)) ≤ ofTime t' → ofTime t ≤ ofTime t' := by
  cases bound with
  | none =>
    cases h
    have ht : c.TimeMatches (c.hour.values.head c.hour.ne_nil,
        c.minute.values.head c.minute.ne_nil) :=
      ⟨List.head_mem _, List.head_mem _⟩
    refine ⟨ht, ?_, fun t' ht' _ => ?_⟩
    · have := ht.bounds
      simp only [ofTime, Option.getD_none]
      omega
    · have hh := head_le_of_pairwise c.hour.sorted c.hour.ne_nil ht'.1
      have hm := head_le_of_pairwise c.minute.sorted c.minute.ne_nil ht'.2
      simp only [ofTime]
      omega
  | some b =>
    obtain ⟨hh, hm, hnot, hmin⟩ := firstTime_eq_some c.hour.sorted c.minute.sorted h
    have hb := hb b rfl
    have ht : c.TimeMatches t := ⟨hh, hm⟩
    refine ⟨ht, (not_timeBefore_lt ht.bounds.2 hb).mp hnot, fun t' ht' hle => ?_⟩
    have hb' := (not_timeBefore_lt ht'.bounds.2 hb).mpr hle
    exact (not_timeBefore_lt ht'.bounds.2 ht.bounds.2).mp (hmin t' ht'.1 ht'.2 hb')

/-- With no time found, there is a floor, and every time of the day is before it. -/
theorem earliestTime_none (h : c.earliestTimeOnOrAfter bound = none) :
    ∃ b, bound = some b ∧ ∀ t, c.TimeMatches t → ¬ofTime b ≤ ofTime t := by
  cases bound with
  | none => cases h
  | some b =>
    refine ⟨b, rfl, fun t ht hle => ?_⟩
    exact (not_timeBefore_lt ht.bounds.2 (hb b rfl)).mpr hle (firstTime_eq_none h ht.1 ht.2)

/-- **The latest time of day**, up to a ceiling; no ceiling is the last minute of the day. -/
theorem latestTime_spec (h : c.latestTimeOnOrBefore bound = some t) :
    c.TimeMatches t ∧ ofTime t ≤ ofTime (bound.getD (23, 59)) ∧
      ∀ t', c.TimeMatches t' → ofTime t' ≤ ofTime (bound.getD (23, 59)) → ofTime t' ≤ ofTime t := by
  cases bound with
  | none =>
    cases h
    have ht : c.TimeMatches
        (c.hour.values.getLast c.hour.ne_nil, c.minute.values.getLast c.minute.ne_nil) :=
      ⟨List.getLast_mem _, List.getLast_mem _⟩
    refine ⟨ht, ?_, fun t' ht' _ => ?_⟩
    · have := ht.bounds
      simp only [ofTime, Option.getD_none]
      omega
    · have hh := le_getLast_of_pairwise c.hour.sorted c.hour.ne_nil ht'.1
      have hm := le_getLast_of_pairwise c.minute.sorted c.minute.ne_nil ht'.2
      simp only [ofTime]
      omega
  | some b =>
    have hrev : ∀ {l : List ℤ}, l.Pairwise (· < ·) → l.reverse.Pairwise (· > ·) := fun hl =>
      List.pairwise_reverse.mpr hl
    obtain ⟨hh, hm, hnot, hmax⟩ := firstTime_eq_some (hrev c.hour.sorted) (hrev c.minute.sorted) h
    have hb := hb b rfl
    have ht : c.TimeMatches t := ⟨List.mem_reverse.mp hh, List.mem_reverse.mp hm⟩
    refine ⟨ht, (not_timeBefore_gt ht.bounds.2 hb).mp hnot, fun t' ht' hle => ?_⟩
    have hb' := (not_timeBefore_gt ht'.bounds.2 hb).mpr hle
    exact (not_timeBefore_gt ht'.bounds.2 ht.bounds.2).mp
      (hmax t' (List.mem_reverse.mpr ht'.1) (List.mem_reverse.mpr ht'.2) hb')

/-- With no time found, there is a ceiling, and every time of the day is after it. -/
theorem latestTime_none (h : c.latestTimeOnOrBefore bound = none) :
    ∃ b, bound = some b ∧ ∀ t, c.TimeMatches t → ¬ofTime b ≥ ofTime t := by
  cases bound with
  | none => cases h
  | some b =>
    refine ⟨b, rfl, fun t ht hle => ?_⟩
    exact (not_timeBefore_gt ht.bounds.2 (hb b rfl)).mpr hle
      (firstTime_eq_none h (List.mem_reverse.mpr ht.1) (List.mem_reverse.mpr ht.2))

end

/-! ## Dates -/

variable {d start : Date} {w v u : Wall}

theorem nextMatchingDate_eq_ok :
    c.nextMatchingDate start = .ok d ↔ search 1 c.dateMatches maxDaySearch start = some d := by
  unfold nextMatchingDate
  split <;> simp_all

theorem previousMatchingDate_eq_ok :
    c.previousMatchingDate start = .ok d ↔
      search (-1) c.dateMatches maxDaySearch start = some d := by
  unfold previousMatchingDate
  split <;> simp_all

/-- **The first date that matches.** -/
theorem nextMatchingDate_spec (h : c.nextMatchingDate start = .ok d) :
    start ≤ d ∧ c.dateMatches d = true ∧
      ∀ e : Date, start ≤ e → c.dateMatches e = true → d ≤ e := by
  obtain ⟨k, -, rfl, hm, hfirst⟩ := search_eq_some.mp (nextMatchingDate_eq_ok.mp h)
  refine ⟨by unfold Date; omega, hm, fun e hle he => ?_⟩
  by_contra hlt
  have hj : start + ((e - start).toNat : ℕ) * 1 = e := by
    unfold Date at *
    omega
  have hfalse := hfirst (e - start).toNat (by unfold Date at *; omega)
  rw [hj, he] at hfalse
  exact Bool.noConfusion hfalse

/-- **The last date that matches.** -/
theorem previousMatchingDate_spec (h : c.previousMatchingDate start = .ok d) :
    d ≤ start ∧ c.dateMatches d = true ∧
      ∀ e : Date, e ≤ start → c.dateMatches e = true → e ≤ d := by
  obtain ⟨k, -, rfl, hm, hfirst⟩ := search_eq_some.mp (previousMatchingDate_eq_ok.mp h)
  refine ⟨by unfold Date; omega, hm, fun e hle he => ?_⟩
  by_contra hlt
  have hj : start + ((start - e).toNat : ℕ) * (-1) = e := by
    unfold Date at *
    omega
  have hfalse := hfirst (start - e).toNat (by unfold Date at *; omega)
  rw [hj, he] at hfalse
  exact Bool.noConfusion hfalse

theorem Dense.next (h : c.Dense) (start : Date) : ∃ d, c.nextMatchingDate start = .ok d := by
  obtain ⟨k, hk, hm⟩ := h start
  have hs : ∃ d, search 1 c.dateMatches maxDaySearch start = some d :=
    search_isSome hk (by simpa using hm)
  obtain ⟨d, hd⟩ := hs
  exact ⟨d, nextMatchingDate_eq_ok.mpr hd⟩

theorem Dense.previous (h : c.Dense) (start : Date) :
    ∃ d, c.previousMatchingDate start = .ok d := by
  obtain ⟨k, hk, hm⟩ := h (start - 1473)
  have hj : start - 1473 + k = start + ((1473 - k : ℕ) : ℤ) * (-1) := by
    unfold maxDaySearch at hk
    unfold Date at *
    omega
  rw [hj] at hm
  have hs : ∃ d, search (-1) c.dateMatches maxDaySearch start = some d :=
    search_isSome (by unfold maxDaySearch; omega) hm
  obtain ⟨d, hd⟩ := hs
  exact ⟨d, previousMatchingDate_eq_ok.mpr hd⟩

/-! ## Occurrences -/

theorem Occurs.time (h : c.Occurs w) : c.TimeMatches (w.hour, w.minute) := ⟨h.hour, h.minute⟩

/-- A date and a time of it that match are an occurrence. -/
theorem occurs_ofDate (hd : c.dateMatches d = true) (ht : c.TimeMatches t) :
    c.Occurs (Wall.ofDate d t.1 t.2) where
  whole := Wall.ofDate_mod d t.1 t.2
  date := by rwa [Wall.date_ofDate ht.bounds.1 ht.bounds.2]
  hour := by
    rw [Wall.hour_ofDate ht.bounds.1 ht.bounds.2]
    exact ht.1
  minute := by
    rw [Wall.minute_ofDate ht.bounds.1 ht.bounds.2]
    exact ht.2

def IsTime (t : ℤ × ℤ) : Prop := (0 ≤ t.1 ∧ t.1 < 24) ∧ 0 ≤ t.2 ∧ t.2 < 60

/-- Where a pass of `next_after` starts: at the floor, or at midnight. -/
def floorWall (start : Date) (bound : Option (ℤ × ℤ)) : Wall :=
  Wall.ofDate start (bound.getD (0, 0)).1 (bound.getD (0, 0)).2

/-- Where a pass of `at_or_before` starts: at the ceiling, or at the last minute of the day. -/
def ceilingWall (start : Date) (bound : Option (ℤ × ℤ)) : Wall :=
  Wall.ofDate start (bound.getD (23, 59)).1 (bound.getD (23, 59)).2

theorem isTime_getD {a : ℤ × ℤ} (ha : IsTime a) (hb : ∀ b ∈ bound, IsTime b) :
    IsTime (bound.getD a) := by
  cases bound with
  | none => exact ha
  | some b => exact hb b rfl

/-- A direction of the search: the order in which it comes to the times, the first time of a day,
and the next day. Whole minutes are ordered by the date, then by the time of day. -/
structure Direction (r : ℤ → ℤ → Prop) (first : ℤ × ℤ) (next : ℤ → ℤ) : Prop where
  refl : ∀ x, r x x
  isTime : IsTime first
  first : ∀ t, IsTime t → r (ofTime first) (ofTime t)
  next : ∀ d e, r (next d) e ↔ r d e ∧ d ≠ e
  wall : ∀ (d : Date) (t : ℤ × ℤ) (u : Wall), u % 60000000 = 0 → IsTime t →
    (r (Wall.ofDate d t.1 t.2) u ↔
      r d u.date ∧ d ≠ u.date ∨ d = u.date ∧ r (ofTime t) (ofTime (u.hour, u.minute)))

theorem forward : Direction (· ≤ ·) (0, 0) (· + 1) where
  refl := le_refl
  isTime := by unfold IsTime; omega
  first := by
    intro t ht
    unfold IsTime ofTime at *
    omega
  next := by omega
  wall := by
    intro d t u hu ht
    unfold IsTime Wall.ofDate ofTime Wall.date Wall.hour Wall.minute Wall.minuteOfDay Wall Date at *
    omega

theorem backward : Direction (· ≥ ·) (23, 59) (· - 1) where
  refl := le_refl
  isTime := by unfold IsTime; omega
  first := by
    intro t ht
    unfold IsTime ofTime at *
    omega
  next := by omega
  wall := by
    intro d t u hu ht
    unfold IsTime Wall.ofDate ofTime Wall.date Wall.hour Wall.minute Wall.minuteOfDay Wall Date at *
    omega

theorem isTime_of_pass (hb : ∀ b ∈ bound, IsTime b) :
    ∀ b ∈ (if matched = start then bound else none), 0 ≤ b.2 ∧ b.2 < 60 := by
  intro b hmem
  split_ifs at hmem
  · exact (hb b hmem).2
  · cases hmem

section

variable {r : ℤ → ℤ → Prop} {first : ℤ × ℤ} {next : ℤ → ℤ} {matched : Date}

/-- A pass that finds a time finds the first occurrence, in its direction, from where it starts. -/
theorem Direction.found (hdir : Direction r first next) (hb : ∀ b ∈ bound, IsTime b)
    (hd : r start matched ∧ c.dateMatches matched = true ∧
      ∀ e : Date, r start e → c.dateMatches e = true → r matched e)
    (ht : c.TimeMatches t ∧
      r (ofTime ((if matched = start then bound else none).getD first)) (ofTime t) ∧
      ∀ t', c.TimeMatches t' →
        r (ofTime ((if matched = start then bound else none).getD first)) (ofTime t') →
          r (ofTime t) (ofTime t')) :
    c.Occurs (Wall.ofDate matched t.1 t.2) ∧
      r (Wall.ofDate start (bound.getD first).1 (bound.getD first).2)
        (Wall.ofDate matched t.1 t.2) ∧
      ∀ u, c.Occurs u → r (Wall.ofDate start (bound.getD first).1 (bound.getD first).2) u →
        r (Wall.ofDate matched t.1 t.2) u := by
  obtain ⟨hle, hmatch, hfirst⟩ := hd
  obtain ⟨htime, hlow, hmin⟩ := ht
  have hocc := occurs_ofDate hmatch htime
  have hstart : ∀ u, c.Occurs u → (r (Wall.ofDate start (bound.getD first).1
      (bound.getD first).2) u ↔ _) := fun u hu =>
    hdir.wall _ _ u hu.whole (isTime_getD hdir.isTime hb)
  refine ⟨hocc, ?_, fun u hu hlu => ?_⟩
  · rw [hstart _ hocc, Wall.date_ofDate htime.bounds.1 htime.bounds.2,
      Wall.hour_ofDate htime.bounds.1 htime.bounds.2,
      Wall.minute_ofDate htime.bounds.1 htime.bounds.2]
    rcases eq_or_ne matched start with he | hne
    · rw [if_pos he] at hlow
      exact .inr ⟨he.symm, hlow⟩
    · exact .inl ⟨hle, hne.symm⟩
  · rw [hstart u hu] at hlu
    rw [hdir.wall _ _ u hu.whole htime.bounds]
    have hdate : r start u.date := by
      rcases hlu with ⟨hdate, -⟩ | ⟨he, -⟩
      · exact hdate
      · exact he ▸ hdir.refl _
    rcases eq_or_ne matched u.date with he | hne
    · refine .inr ⟨he, hmin _ hu.time ?_⟩
      split_ifs with hsame
      · exact (hlu.resolve_left fun hlt => hlt.2 (hsame ▸ he)).2
      · exact hdir.first _ hu.time.bounds
    · exact .inl ⟨hfirst u.date hdate hu.date, hne⟩

/-- A pass that finds no time looked at the rest of its first day, which has none. -/
theorem Direction.empty (hdir : Direction r first next) (hb : ∀ b ∈ bound, IsTime b)
    (ht : ∃ b, (if matched = start then bound else none) = some b ∧
      ∀ t', c.TimeMatches t' → ¬r (ofTime b) (ofTime t')) :
    matched = start ∧ ∀ u, c.Occurs u →
      (r (Wall.ofDate start (bound.getD first).1 (bound.getD first).2) u ↔
        r (Wall.ofDate (next matched) first.1 first.2) u) := by
  obtain ⟨b, hbound, hover⟩ := ht
  split_ifs at hbound with hstart
  refine ⟨hstart, fun u hu => ?_⟩
  rw [hdir.wall _ _ u hu.whole (isTime_getD hdir.isTime hb), hdir.wall _ _ u hu.whole hdir.isTime,
    hstart, hbound, Option.getD_some]
  have hlater := hdir.next start u.date
  constructor
  · rintro (hlt | ⟨-, hle⟩)
    · rcases eq_or_ne (next start) u.date with he | hne
      · exact .inr ⟨he, hdir.first _ hu.time.bounds⟩
      · exact .inl ⟨hlater.mpr hlt, hne⟩
    · exact absurd hle (hover _ hu.time)
  · rintro (⟨hle, -⟩ | ⟨he, -⟩)
    · exact .inl (hlater.mp hle)
    · exact .inl (hlater.mp (he ▸ hdir.refl _))

end

/-- **What the loop of `next_after` returns** is the first occurrence from the floor on. -/
theorem nextLoop_spec {after : Wall} {n : ℕ} (hb : ∀ b ∈ bound, IsTime b)
    (h : c.nextLoop after n start bound = .ok v) :
    c.Occurs v ∧ floorWall start bound ≤ v ∧
      ∀ u, c.Occurs u → floorWall start bound ≤ u → v ≤ u := by
  induction n generalizing start bound with
  | zero => cases h
  | succ n ih =>
    simp only [nextLoop] at h
    split at h
    · cases h
    · rename_i matched hd
      split at h
      · rename_i hour minute ht
        cases h
        exact forward.found hb (nextMatchingDate_spec hd) (earliestTime_spec (isTime_of_pass hb) ht)
      · rename_i ht
        obtain ⟨-, hiff⟩ := forward.empty hb (earliestTime_none (isTime_of_pass hb) ht)
        obtain ⟨hocc, hlow, hmin⟩ := ih (by simp) h
        refine ⟨hocc, (hiff v hocc).mpr hlow, fun u hu hlu => ?_⟩
        exact hmin u hu ((hiff u hu).mp hlu)

/-- **What the loop of `at_or_before` returns** is the last occurrence up to the ceiling. -/
theorem previousLoop_spec {n : ℕ} (hb : ∀ b ∈ bound, IsTime b)
    (h : c.previousLoop n start bound = some v) :
    c.Occurs v ∧ v ≤ ceilingWall start bound ∧
      ∀ u, c.Occurs u → u ≤ ceilingWall start bound → u ≤ v := by
  induction n generalizing start bound with
  | zero => cases h
  | succ n ih =>
    simp only [previousLoop] at h
    split at h
    · cases h
    · rename_i matched hd
      split at h
      · rename_i hour minute ht
        cases h
        exact backward.found hb (previousMatchingDate_spec hd)
          (latestTime_spec (isTime_of_pass hb) ht)
      · rename_i ht
        obtain ⟨-, hiff⟩ := backward.empty hb (latestTime_none (isTime_of_pass hb) ht)
        obtain ⟨hocc, hhigh, hmax⟩ := ih (by simp) h
        refine ⟨hocc, (hiff v hocc).mpr hhigh, fun u hu hlu => ?_⟩
        exact hmax u hu ((hiff u hu).mp hlu)

theorem isTime_of_wall (w : Wall) : ∀ b ∈ some (w.hour, w.minute), IsTime b := by
  rintro b ⟨⟩
  exact ⟨w.hour_bounds, w.minute_bounds⟩

/-- **The next occurrence** is the first one after a time. -/
theorem nextAfter_spec (h : c.nextAfter w = .ok v) :
    c.Occurs v ∧ w < v ∧ ∀ u, c.Occurs u → w < u → v ≤ u := by
  obtain ⟨hocc, hlow, hmin⟩ := nextLoop_spec (isTime_of_wall _) h
  have hcursor : floorWall (w.truncate + 60000000 : Wall).date
      (some ((w.truncate + 60000000 : Wall).hour, (w.truncate + 60000000 : Wall).minute)) =
      w.truncate + 60000000 := by
    apply Wall.ofDate_date_hour_minute
    unfold Wall.truncate Wall at *
    omega
  rw [hcursor] at hlow hmin
  refine ⟨hocc, ?_, fun u hu hlt => hmin u hu ?_⟩
  · unfold Wall.truncate Wall at *
    omega
  · have hwhole := hu.whole
    unfold Wall.truncate Wall at *
    omega

/-- **The occurrence at or before a time** is the last one up to it. -/
theorem atOrBefore_spec (h : c.atOrBefore w = some v) :
    c.Occurs v ∧ v ≤ w ∧ ∀ u, c.Occurs u → u ≤ w → u ≤ v := by
  obtain ⟨hocc, hhigh, hmax⟩ := previousLoop_spec (isTime_of_wall _) h
  have hcursor : ceilingWall w.truncate.date (some (w.truncate.hour, w.truncate.minute)) =
      w.truncate := by
    apply Wall.ofDate_date_hour_minute
    unfold Wall.truncate Wall at *
    omega
  rw [hcursor] at hhigh hmax
  refine ⟨hocc, hhigh.trans w.truncate_le, fun u hu hle => hmax u hu ?_⟩
  have hwhole := hu.whole
  unfold Wall.truncate Wall at *
  omega

/-- The second pass has no floor, so it finds a time on the first date that matches. -/
theorem Dense.nextAfter (h : c.Dense) (w : Wall) : ∃ v, c.nextAfter w = .ok v := by
  unfold CronSchedule.nextAfter CronSchedule.nextLoop
  obtain ⟨d, hd⟩ := h.next (w.truncate + 60000000 : Wall).date
  simp only [hd]
  split
  · exact ⟨_, rfl⟩
  · obtain ⟨d', hd'⟩ := h.next (d + 1)
    simp only [nextLoop, hd', ite_self, earliestTimeOnOrAfter]
    exact ⟨_, rfl⟩

theorem Dense.atOrBefore (h : c.Dense) (w : Wall) : ∃ v, c.atOrBefore w = some v := by
  unfold CronSchedule.atOrBefore CronSchedule.previousLoop
  obtain ⟨d, hd⟩ := h.previous w.truncate.date
  simp only [hd]
  split
  · exact ⟨_, rfl⟩
  · obtain ⟨d', hd'⟩ := h.previous (d - 1)
    simp only [previousLoop, hd', ite_self, latestTimeOnOrBefore]
    exact ⟨_, rfl⟩

theorem mem_fullRange {lo v : ℤ} {n : ℕ} : v ∈ fullRange lo n ↔ lo ≤ v ∧ v < lo + n := by
  simp only [fullRange, List.mem_map, List.mem_range]
  constructor
  · rintro ⟨k, hk, rfl⟩
    omega
  · rintro ⟨hlo, hhi⟩
    exact ⟨(v - lo).toNat, by omega, by omega⟩

theorem dense_of_full (hday : c.day.values = fullRange 1 31)
    (hmonth : c.month.values = fullRange 1 12)
    (hdow : c.dow.values = fullRange 0 7) : c.Dense := by
  intro d
  refine ⟨0, by decide, ?_⟩
  obtain ⟨⟨hm, hm'⟩, hd, hd'⟩ := Date.month_day_bounds (d + (0 : ℕ))
  have hweek : 0 ≤ cronDow (d + (0 : ℕ)) ∧ cronDow (d + (0 : ℕ)) < 7 := by
    unfold cronDow
    omega
  simp only [dateMatches, dayMatches, hday, hmonth, hdow, ne_eq, not_true_eq_false, decide_false,
    Bool.and_false, Bool.false_eq_true, if_false, Bool.and_eq_true, decide_eq_true_eq,
    mem_fullRange]
  omega

end CronSchedule

end Varco
