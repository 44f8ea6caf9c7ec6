import Varco.Foundations.Calendar
import Varco.Foundations.Text

/-!
# Values as text

A date is determined by its year, month and day (`Date.yearMonthDay_inj`), a time by what
`isoformat()` writes of it (`Wall.isoformat_inj`), from the year 0 on, and an identifier by its
`str()` (`UUID.str_inj`).
-/

namespace Varco

open List

/-! ## Dates -/

def dayOfYear (month day : ℤ) (leapYear : Bool) : ℤ :=
  daysBeforeMonth month + (if 2 < month ∧ leapYear then 1 else 0) + day - 1

theorem dayOfYear_monthAndDay {n : ℤ} (h : 0 ≤ n ∧ n < 365) (leapYear : Bool) :
    dayOfYear (monthAndDay n leapYear).1 (monthAndDay n leapYear).2 leapYear = n := by
  have hall : ∀ k < 365, ∀ b : Bool,
      dayOfYear (monthAndDay (k : ℕ) b).1 (monthAndDay (k : ℕ) b).2 b = (k : ℕ) := by
    decide +kernel
  have hn := hall n.toNat (by omega) leapYear
  rwa [Int.toNat_of_nonneg h.1] at hn

def isLeap (year : ℤ) : Bool := year % 4 = 0 ∧ (year % 100 ≠ 0 ∨ year % 400 = 0)

/-- `_ymd2ord` -/
def YearMonthDay.ordinal (x : YearMonthDay) : Date :=
  (x.year - 1) * 365 + (x.year - 1) / 4 - (x.year - 1) / 100 + (x.year - 1) / 400 +
    dayOfYear x.month x.day (isLeap x.year) + 1

/-- The leap years before the year that begins `n400`, `n100`, `n4` and `n1` periods after the
first. -/
theorem leap_years (n400 n100 n4 n1 y : ℤ) (h100 : 0 ≤ n100 ∧ n100 ≤ 3) (h4 : 0 ≤ n4 ∧ n4 ≤ 24)
    (h1 : 0 ≤ n1 ∧ n1 ≤ 3) (hy : y = n400 * 400 + n100 * 100 + n4 * 4 + n1) :
    y / 4 = n400 * 100 + n100 * 25 + n4 ∧ y / 100 = n400 * 4 + n100 ∧ y / 400 = n400 := by
  omega

theorem isLeap_eq (n400 n100 n4 n1 : ℤ) (h100 : 0 ≤ n100 ∧ n100 ≤ 3) (h4 : 0 ≤ n4 ∧ n4 ≤ 24)
    (h1 : 0 ≤ n1 ∧ n1 ≤ 3) : isLeap (n400 * 400 + 1 + n100 * 100 + n4 * 4 + n1) =
      decide (n1 = 3 ∧ (n4 ≠ 24 ∨ n100 = 3)) := by
  unfold isLeap
  rw [decide_eq_decide]
  have h4' : (n400 * 400 + 1 + n100 * 100 + n4 * 4 + n1) % 4 = 0 ↔ n1 = 3 := by omega
  have h100' : (n400 * 400 + 1 + n100 * 100 + n4 * 4 + n1) % 100 = 0 ↔ n4 = 24 ∧ n1 = 3 := by omega
  have h400' : (n400 * 400 + 1 + n100 * 100 + n4 * 4 + n1) % 400 = 0 ↔
      n100 = 3 ∧ n4 = 24 ∧ n1 = 3 := by omega
  rw [h4', Ne, h100', h400']
  omega

theorem Date.ordinal_yearMonthDay (d : Date) : d.yearMonthDay.ordinal = d := by
  unfold Date.yearMonthDay
  simp only
  generalize h400 : (d - 1) / 146097 = n400
  generalize hr400 : (d - 1) % 146097 = r400
  generalize h100 : r400 / 36524 = n100
  generalize hr100 : r400 % 36524 = r100
  generalize h4 : r100 / 1461 = n4
  generalize hr4 : r100 % 1461 = r4
  generalize h1 : r4 / 365 = n1
  generalize hr1 : r4 % 365 = r1
  unfold Date at *
  have hd : d - 1 = n400 * 146097 + n100 * 36524 + n4 * 1461 + n1 * 365 + r1 := by omega
  split_ifs with hlast
  · have hday : ∀ b, dayOfYear 12 31 b = 364 + if b then 1 else 0 := by decide
    unfold YearMonthDay.ordinal
    simp only
    rw [hday]
    by_cases h : n100 = 4
    · -- the last day of a period of 400 years
      have hyears := leap_years n400 3 24 3 (n400 * 400 + 1 + n100 * 100 + n4 * 4 + n1 - 1 - 1)
        (by omega) (by omega) (by omega)
        (by omega)
      have hleap := isLeap_eq n400 3 24 3 (by omega) (by omega)
        (by omega)
      have hyear : n400 * 400 + 1 + n100 * 100 + n4 * 4 + n1 - 1 =
          n400 * 400 + 1 + 3 * 100 + 24 * 4 + 3 := by omega
      rw [hyears.1, hyears.2.1, hyears.2.2, hyear, hleap]
      simp only [ne_eq, not_true_eq_false, or_true, and_self, decide_true, if_true]
      omega
    · -- the last day of a leap year
      have hyears := leap_years n400 n100 n4 3 (n400 * 400 + 1 + n100 * 100 + n4 * 4 + n1 - 1 - 1)
        (by omega) (by omega) (by omega)
        (by omega)
      have hleap := isLeap_eq n400 n100 n4 3 (by omega)
        (by omega) (by omega)
      have hyear : n400 * 400 + 1 + n100 * 100 + n4 * 4 + n1 - 1 =
          n400 * 400 + 1 + n100 * 100 + n4 * 4 + 3 := by omega
      have h24 : n4 ≠ 24 := by omega
      rw [hyears.1, hyears.2.1, hyears.2.2, hyear, hleap]
      simp only [h24, ne_eq, not_false_eq_true, true_or, and_self, decide_true, if_true]
      omega
  · have hyears := leap_years n400 n100 n4 n1 (n400 * 400 + 1 + n100 * 100 + n4 * 4 + n1 - 1)
      (by omega) (by omega) (by omega) (by omega)
    unfold YearMonthDay.ordinal
    simp only
    rw [isLeap_eq _ _ _ _ (by omega) (by omega) (by omega), dayOfYear_monthAndDay (by omega),
      hyears.1,
      hyears.2.1, hyears.2.2]
    omega

theorem YearMonthDay.ext {x y : YearMonthDay} (hyear : x.year = y.year)
    (hmonth : x.month = y.month) (hday : x.day = y.day) : x = y := by
  obtain ⟨year, month, day⟩ := x
  cases hyear
  cases hmonth
  cases hday
  rfl

theorem Date.yearMonthDay_inj {d d' : Date} (h : d.yearMonthDay = d'.yearMonthDay) : d = d' := by
  rw [← d.ordinal_yearMonthDay, h, d'.ordinal_yearMonthDay]

/-! ## Digits -/

theorem toList_zeroPad (width n : ℕ) : (zeroPad width n).toList =
    List.replicate (width - (toString n).length) '0' ++ Nat.toDigits 10 n := by
  unfold zeroPad
  rw [String.toList_append, String.toList_ofList]
  congr 1
  exact Nat.toList_repr

theorem zeroPad_inj {width m n : ℕ} (h : (zeroPad width m).toList = (zeroPad width n).toList) :
    m = n := by
  rw [toList_zeroPad, toList_zeroPad] at h
  have hvalue := congrArg (fun l => Nat.ofDigitChars 10 l 0) h
  simpa [Nat.ofDigitChars_append] using hvalue

theorem isDigit_of_mem_zeroPad {width n : ℕ} {c : Char} (h : c ∈ (zeroPad width n).toList) :
    c.isDigit = true := by
  rw [toList_zeroPad] at h
  rcases mem_append.mp h with h | h
  · rw [eq_of_mem_replicate h]
    rfl
  · exact Nat.isDigit_of_mem_toDigits (by decide) (by decide) h

/-- A number in decimal ends where another character comes. -/
theorem zeroPad_join_inj {width m n : ℕ} {c : Char} (hc : c.isDigit = false) {s t : List Char}
    (h : (zeroPad width m).toList ++ c :: s = (zeroPad width n).toList ++ c :: t) :
    m = n ∧ s = t := by
  have hnot : ∀ k, c ∉ (zeroPad width k).toList := by
    intro k hm
    rw [isDigit_of_mem_zeroPad hm] at hc
    cases hc
  obtain ⟨hpad, hrest⟩ := join_inj (hnot m) (hnot n) h
  exact ⟨zeroPad_inj hpad, hrest⟩

/-! ## Times -/

namespace Wall

variable {w w' : Wall}

/-- The seconds as they are written: with the microseconds, if there are any. -/
def secondsText (micros : ℕ) : List Char :=
  (zeroPad 2 (micros / 1000000)).toList ++
    (if micros % 1000000 = 0 then [] else '.' :: (zeroPad 6 (micros % 1000000)).toList)

theorem secondsText_inj {m n : ℕ} (h : secondsText m = secondsText n) : m = n := by
  have hpoint : ∀ {k : ℕ} {l l' : List Char}, (zeroPad 2 k).toList ≠ l ++ '.' :: l' := by
    intro k l l' h
    have hdigit : ('.' : Char).isDigit = true := by
      have hm : '.' ∈ (zeroPad 2 k).toList := h ▸ mem_append_right _ mem_cons_self
      exact isDigit_of_mem_zeroPad hm
    exact absurd hdigit (by decide)
  unfold secondsText at h
  split_ifs at h with hm hn hn
  · rw [append_nil, append_nil] at h
    have hsecond := zeroPad_inj h
    omega
  · rw [append_nil] at h
    exact absurd h hpoint
  · rw [append_nil] at h
    exact absurd h.symm hpoint
  · obtain ⟨hsecond, hmicro⟩ := zeroPad_join_inj (by decide) h
    have hmicro := zeroPad_inj hmicro
    omega

theorem toList_isoformat (w : Wall) : w.isoformat.toList =
    (zeroPad 4 w.date.yearMonthDay.year.toNat).toList ++ '-' ::
      ((zeroPad 2 w.date.yearMonthDay.month.toNat).toList ++ '-' ::
        ((zeroPad 2 w.date.yearMonthDay.day.toNat).toList ++ 'T' ::
          ((zeroPad 2 w.hour.toNat).toList ++ ':' ::
            ((zeroPad 2 w.minute.toNat).toList ++ ':' ::
              secondsText (w % 60000000).toNat)))) := by
  unfold isoformat secondsText
  dsimp only
  split_ifs <;> simp [String.toList_append]

/-- **A time is determined by its text.** -/
theorem isoformat_inj (hw : 0 ≤ w.date.yearMonthDay.year) (hw' : 0 ≤ w'.date.yearMonthDay.year)
    (h : w.isoformat = w'.isoformat) : w = w' := by
  have htext := congrArg String.toList h
  rw [toList_isoformat, toList_isoformat] at htext
  obtain ⟨hyear, htext⟩ := zeroPad_join_inj (by decide) htext
  obtain ⟨hmonth, htext⟩ := zeroPad_join_inj (by decide) htext
  obtain ⟨hday, htext⟩ := zeroPad_join_inj (by decide) htext
  obtain ⟨hhour, htext⟩ := zeroPad_join_inj (by decide) htext
  obtain ⟨hminute, htext⟩ := zeroPad_join_inj (by decide) htext
  have hmicros := secondsText_inj htext
  have hbounds := w.date.month_day_bounds
  have hbounds' := w'.date.month_day_bounds
  unfold Date.month Date.day at hbounds hbounds'
  have hdate : w.date = w'.date := by
    apply Date.yearMonthDay_inj
    have hy : w.date.yearMonthDay.year = w'.date.yearMonthDay.year := by omega
    have hm : w.date.yearMonthDay.month = w'.date.yearMonthDay.month := by omega
    have hd : w.date.yearMonthDay.day = w'.date.yearMonthDay.day := by omega
    exact YearMonthDay.ext hy hm hd
  have hh := w.hour_bounds
  have hh' := w'.hour_bounds
  have hm := w.minute_bounds
  have hm' := w'.minute_bounds
  unfold Wall Date at *
  unfold date hour minute minuteOfDay at *
  omega

end Wall

/-! ## Identifiers -/

def ofHex (l : List Char) : ℕ :=
  l.foldl (fun n c => 16 * n + if c.toNat < 58 then c.toNat - 48 else c.toNat - 87) 0

theorem ofHex_append_digit (l : List Char) {k : ℕ} (h : k < 16) :
    ofHex (l ++ [Nat.digitChar k]) = 16 * ofHex l + k := by
  have hall : ∀ j < 16, (if (Nat.digitChar j).toNat < 58 then (Nat.digitChar j).toNat - 48
      else (Nat.digitChar j).toNat - 87) = j := by decide +kernel
  unfold ofHex
  rw [foldl_append, foldl_cons, foldl_nil, hall k h]

theorem ofHex_toDigits (n : ℕ) : ofHex (Nat.toDigits 16 n) = n := by
  induction n using Nat.strong_induction_on with
  | _ n ih =>
    by_cases h : n < 16
    · rw [Nat.toDigits_of_lt_base h]
      exact (ofHex_append_digit [] h).trans (by simp [ofHex])
    · rw [Nat.toDigits_of_base_le (by decide) (by omega), ofHex_append_digit _ (by omega),
        ih (n / 16) (by omega)]
      omega

theorem ofHex_zeros (k : ℕ) (l : List Char) : ofHex (List.replicate k '0' ++ l) = ofHex l := by
  induction k with
  | zero => rfl
  | succ k ih =>
    rw [replicate_succ, cons_append, ← ih]
    rfl

theorem isHex_of_mem_toDigits {n : ℕ} {c : Char} (h : c ∈ Nat.toDigits 16 n) : c ≠ '-' := by
  have hall : ∀ j < 16, Nat.digitChar j ≠ '-' := by decide +kernel
  induction n using Nat.strong_induction_on with
  | _ n ih =>
    by_cases hn : n < 16
    · rw [Nat.toDigits_of_lt_base hn, mem_singleton] at h
      exact h ▸ hall n hn
    · rw [Nat.toDigits_of_base_le (by decide) (by omega), mem_append, mem_singleton] at h
      rcases h with h | rfl
      · exact ih (n / 16) (by omega) h
      · exact hall (n % 16) (by omega)

namespace UUID

variable {u v : UUID}

theorem length_digits (u : UUID) : u.digits.length = 32 := by
  have hlen : (Nat.toDigits 16 u.toNat).length ≤ 32 := by
    rw [Nat.length_toDigits_le_iff (by decide) (by decide)]
    exact u.isLt
  rw [digits, length_append, length_replicate]
  omega

theorem digits_inj (h : u.digits = v.digits) : u = v := by
  have hvalue := congrArg ofHex h
  rw [digits, digits, ofHex_zeros, ofHex_zeros, ofHex_toDigits, ofHex_toDigits] at hvalue
  exact BitVec.eq_of_toNat_eq hvalue

theorem ne_dash_of_mem_digits {c : Char} (h : c ∈ u.digits) : c ≠ '-' := by
  rcases mem_append.mp h with h | h
  · rw [eq_of_mem_replicate h]
    decide
  · exact isHex_of_mem_toDigits h

theorem filter_str (u : UUID) : u.str.toList.filter (· ≠ '-') = u.digits := by
  have htext : u.str.toList = u.digits.take 8 ++ '-' :: ((u.digits.drop 8).take 4 ++
      '-' :: ((u.digits.drop 12).take 4 ++ '-' :: ((u.digits.drop 16).take 4 ++
        '-' :: (u.digits.drop 20).take 12))) := by
    change ((((((((String.ofList _ ++ "-") ++ String.ofList _) ++ "-") ++ String.ofList _) ++
      "-") ++
      String.ofList _) ++ "-") ++ String.ofList _).toList = _
    simp only [String.toList_append, String.toList_ofList, drop_zero, append_assoc]
    rfl
  have hgroup : ∀ l : List Char, l ⊆ u.digits → l.filter (· ≠ '-') = l := fun l hl =>
    filter_eq_self.mpr fun c hc => by simpa using ne_dash_of_mem_digits (hl hc)
  have hsub : ∀ i n, (u.digits.drop i).take n ⊆ u.digits := fun i n c hc =>
    drop_subset _ _ (take_subset _ _ hc)
  rw [htext]
  simp only [filter_append, filter_cons, ne_eq, not_true_eq_false, decide_false,
    Bool.false_eq_true, if_false]
  have h₀ := hgroup _ (hsub 0 8)
  rw [drop_zero] at h₀
  simp only [ne_eq] at hgroup h₀
  rw [h₀, hgroup _ (hsub 8 4), hgroup _ (hsub 12 4), hgroup _ (hsub 16 4), hgroup _ (hsub 20 12)]
  have hlast : (u.digits.drop 20).take 12 = u.digits.drop 20 :=
    take_of_length_le (by rw [length_drop, length_digits])
  have hstep : ∀ i n, (u.digits.drop i).take n ++ u.digits.drop (i + n) = u.digits.drop i :=
    fun i n => by rw [← drop_drop, take_append_drop]
  rw [hlast, hstep 16 4, hstep 12 4, hstep 8 4, take_append_drop]

/-- **An identifier is determined by its text.** -/
theorem str_inj (h : u.str = v.str) : u = v := by
  apply digits_inj
  rw [← filter_str, h, filter_str]

end UUID
end Varco
