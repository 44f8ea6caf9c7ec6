import Varco.Foundations.Calendar
import Varco.Foundations.Search

/-!
# Wall-clock times in a zone

`varco_core.tz.schedule`: which wall-clock times exist in a zone, which of them occur twice, and the
instant that a schedule means by one of them. A zone is what a `datetime` asks of its `ZoneInfo`:
the offset of a wall-clock time with a fold, and the wall-clock time of an instant. Nothing else is
assumed of the two, so what is proved here holds under any time-zone data; `ofTransitions` is the
`ZoneInfo` of a list of transitions.

A time that exists round-trips through UTC, which is all that the comparisons below need: two
different times that exist are two different instants (`instant_inj`).
-/

namespace Varco

/-- A `ZoneInfo`. -/
structure ZoneInfo where
  key : String
  /-- `utcoffset()` of a wall-clock time with a fold. -/
  utcoffset : Wall → ℤ → Duration
  /-- `fromutc()` -/
  fromUtc : Instant → Wall

namespace ZoneInfo

/-- `repr(zone)` -/
def repr (zone : ZoneInfo) : String := "zoneinfo.ZoneInfo(key='" ++ zone.key ++ "')"

/-- The offset at an instant, from the offset before the first transition on. -/
def offsetAt (before : Duration) : List (Instant × Duration) → Instant → Duration
  | [], _ => before
  | (t, offset) :: rest, now => if now < t then before else offsetAt offset rest now

/-- The offset of a wall-clock time. With fold 0 a transition happens when the wall-clock time has
passed its later reading, with fold 1 its earlier one. -/
def localOffset (fold : ℤ) (before : Duration) : List (Instant × Duration) → Wall → Duration
  | [], _ => before
  | (t, offset) :: rest, wall =>
    let reading := t + (if fold = 0 then max before offset else min before offset)
    if wall < reading then before else localOffset fold offset rest wall

/-- The zone of a list of transitions: an instant and the offset from it on, oldest first. -/
def ofTransitions (key : String) (before : Duration) (transitions : List (Instant × Duration)) :
    ZoneInfo where
  key := key
  utcoffset wall fold := localOffset fold before transitions wall
  fromUtc now := now + offsetAt before transitions now

end ZoneInfo

/-- How to resolve a wall-clock time that does not exist. -/
inductive GapPolicy
  | nextValid
  | previousValid
  | skip
  | error
  deriving DecidableEq

def GapPolicy.value : GapPolicy → String
  | nextValid => "next_valid"
  | previousValid => "previous_valid"
  | skip => "skip"
  | error => "error"

/-- How to resolve a wall-clock time that occurs twice. -/
inductive OverlapPolicy
  | first
  | last
  deriving DecidableEq

/-- An aware `datetime` in a zone: the wall-clock time and its fold. -/
structure ZonedTime where
  wall : Wall
  fold : ℤ := 0
  deriving DecidableEq

/-- `astimezone(UTC)` -/
def ZonedTime.toUtc (t : ZonedTime) (zone : ZoneInfo) : Instant :=
  t.wall - zone.utcoffset t.wall t.fold

/-- The round trip through UTC and back gives the same wall-clock time. -/
def datetimeExists (zone : ZoneInfo) (wall : Wall) : Bool :=
  zone.fromUtc (ZonedTime.toUtc { wall := wall } zone) = wall

def datetimeAmbiguous (zone : ZoneInfo) (wall : Wall) : Bool :=
  zone.utcoffset wall 0 ≠ zone.utcoffset wall 1

def maxGapSearchMinutes : ℕ := 1440

def scheduleGapError (message : String) : PyException := ⟨"ScheduleGapError", message⟩

/-- `timedelta(minutes=1)`, or its negative. -/
def gapStep (forward : Bool) : Duration := if forward then 60000000 else -60000000

/-- The nearest wall-clock time that exists, a whole number of minutes away. -/
def searchValid (zone : ZoneInfo) (wall : Wall) (forward : Bool) : Except PyException Wall :=
  let step := gapStep forward
  match search step (datetimeExists zone) maxGapSearchMinutes (wall + step) with
  | some candidate => .ok candidate
  | none =>
    .error (scheduleGapError ("No valid wall-clock time found within " ++
      toString maxGapSearchMinutes ++ " minutes of " ++ wall.repr ++ " in zone " ++ zone.repr ++
      " — this indicates a corrupt tzdata database, not a normal DST gap."))

/-- `wall.replace(tzinfo=zone, fold=fold)` -/
def replaceFold (wall : Wall) (fold : ℤ) : Except PyException ZonedTime :=
  if fold = 0 ∨ fold = 1 then .ok ⟨wall, fold⟩
  else .error (.valueError "fold must be either 0 or 1")

def resolveZoned (zone : ZoneInfo) (wall : Wall) (fold : ℤ) (gap : GapPolicy)
    (overlap : OverlapPolicy) : Except PyException ZonedTime :=
  if !datetimeExists zone wall then
    if gap = .skip ∨ gap = .error then
      .error (scheduleGapError (wall.repr ++ " does not exist in zone " ++ zone.repr ++
        " (DST spring-forward gap) and GapPolicy='" ++ gap.value ++ "' refuses to resolve it."))
    else
      let forward := decide (gap ≠ .previousValid)
      (searchValid zone wall forward).map fun resolvedWall => { wall := resolvedWall }
  else
    let effectiveFold :=
      if datetimeAmbiguous zone wall then (if overlap = .last then 1 else 0) else fold
    replaceFold wall effectiveFold

def rome : ZoneInfo :=
  .ofTransitions "Europe/Rome" 3600000000
    [(63847443600000000, 7200000000), (63865587600000000, 3600000000)]

/-! ## What a time resolves to -/

variable {zone : ZoneInfo} {wall wall' : Wall} {fold : ℤ} {gap : GapPolicy}
  {overlap : OverlapPolicy}

theorem datetimeExists_iff :
    datetimeExists zone wall = true ↔ zone.fromUtc (wall - zone.utcoffset wall 0) = wall :=
  decide_eq_true_iff

theorem datetimeAmbiguous_iff :
    datetimeAmbiguous zone wall = true ↔ zone.utcoffset wall 0 ≠ zone.utcoffset wall 1 :=
  decide_eq_true_iff

/-- **Times that exist are different instants.** -/
theorem instant_inj (h : datetimeExists zone wall = true) (h' : datetimeExists zone wall' = true)
    (he : wall - zone.utcoffset wall 0 = wall' - zone.utcoffset wall' 0) : wall = wall' := by
  rw [← datetimeExists_iff.mp h, ← datetimeExists_iff.mp h', he]

theorem searchValid_eq_ok {forward : Bool} :
    searchValid zone wall forward = .ok wall' ↔
      search (gapStep forward) (datetimeExists zone) maxGapSearchMinutes
        (wall + gapStep forward) = some wall' := by
  simp only [searchValid]
  split <;> simp_all

/-- What the search finds exists, and lies in the direction of the search. -/
theorem searchValid_spec {forward : Bool} (h : searchValid zone wall forward = .ok wall') :
    datetimeExists zone wall' = true ∧ if forward then wall < wall' else wall' < wall := by
  obtain ⟨k, -, rfl, hp, -⟩ := search_eq_some.mp (searchValid_eq_ok.mp h)
  refine ⟨hp, ?_⟩
  have hk : (0 : ℤ) ≤ k := Int.natCast_nonneg k
  unfold gapStep Wall
  cases forward
  · simp only [Bool.false_eq_true, if_false]
    omega
  · simp only [if_true]
    omega

/-- The search finds something as soon as there is something to be found. -/
theorem searchValid_isOk {forward : Bool} {k : ℕ} (hk : k < maxGapSearchMinutes)
    (h : datetimeExists zone (wall + gapStep forward + k * gapStep forward) = true) :
    ∃ wall', searchValid zone wall forward = .ok wall' := by
  obtain ⟨wall', hw⟩ := search_isSome hk h
  exact ⟨wall', searchValid_eq_ok.mpr hw⟩

theorem resolveZoned_of_exists (h : datetimeExists zone wall = true) :
    resolveZoned zone wall fold gap overlap = replaceFold wall
      (if datetimeAmbiguous zone wall then (if overlap = .last then 1 else 0) else fold) := by
  rw [resolveZoned, if_neg (by simp [h])]

theorem resolveZoned_of_refused (h : datetimeExists zone wall = false)
    (hg : gap = .skip ∨ gap = .error) :
    ∃ message, resolveZoned zone wall fold gap overlap = .error (scheduleGapError message) := by
  rw [resolveZoned, if_pos (by simp [h]), if_pos hg]
  exact ⟨_, rfl⟩

theorem resolveZoned_of_gap (h : datetimeExists zone wall = false)
    (hg : ¬(gap = .skip ∨ gap = .error)) :
    resolveZoned zone wall fold gap overlap =
      (searchValid zone wall (gap ≠ .previousValid)).map fun w => { wall := w } := by
  rw [resolveZoned, if_pos (by simp [h]), if_neg hg]

theorem replaceFold_eq_ok {t : ZonedTime} (h : replaceFold wall fold = .ok t) :
    t = ⟨wall, fold⟩ := by
  unfold replaceFold at h
  split_ifs at h
  cases h
  rfl

/-- The forward search succeeds exactly if one of the minutes it looks at exists. -/
theorem searchValid_forward_isOk :
    (∃ wall', searchValid zone wall true = .ok wall') ↔
      ∃ k < maxGapSearchMinutes, datetimeExists zone (wall + (k + 1) * 60000000) = true := by
  have hstep : ∀ k : ℕ, wall + gapStep true + k * gapStep true = wall + (k + 1) * 60000000 := by
    intro k
    show wall + 60000000 + k * 60000000 = wall + (k + 1) * 60000000
    unfold Wall at *
    omega
  constructor
  · rintro ⟨wall', h⟩
    obtain ⟨k, hk, rfl, hp, -⟩ := search_eq_some.mp (searchValid_eq_ok.mp h)
    exact ⟨k, hk, by rwa [← hstep]⟩
  · rintro ⟨k, hk, hp⟩
    exact searchValid_isOk hk (by rwa [hstep])

/-- The policies resolve a wall-clock time as the default policies do: a time that occurs twice is
not asked for the second time, and a time in a gap is not moved back, unless there is none to move
forward to. -/
def PlainAt (zone : ZoneInfo) (gap : GapPolicy) (overlap : OverlapPolicy) (wall : Wall) : Prop :=
  ¬(datetimeExists zone wall = true ∧ datetimeAmbiguous zone wall = true ∧ overlap = .last) ∧
    ¬(datetimeExists zone wall = false ∧ gap = .previousValid ∧
      ∃ k < maxGapSearchMinutes, datetimeExists zone (wall + (k + 1) * 60000000) = true)

/-- A time that exists comes to the same instant, resolved again with its fold under the default
policies, unless it is the second of two. -/
theorem resolveZoned_again_of_exists {t : ZonedTime} (hex : datetimeExists zone wall = true)
    (h : resolveZoned zone wall 0 gap overlap = .ok t) :
    (∀ t', resolveZoned zone wall t.fold .nextValid .first = .ok t' →
      t'.toUtc zone = t.toUtc zone) ↔
      PlainAt zone gap overlap wall := by
  rw [resolveZoned_of_exists hex] at h ⊢
  obtain rfl := replaceFold_eq_ok h
  have hplain : PlainAt zone gap overlap wall ↔
      ¬(datetimeAmbiguous zone wall = true ∧ overlap = .last) := by
    simp [PlainAt, hex]
  rw [hplain]
  cases hamb : datetimeAmbiguous zone wall with
  | false =>
    refine ⟨by simp, fun _ t' ht' => ?_⟩
    rw [replaceFold_eq_ok ht']
    simp
  | true =>
    cases overlap with
    | first =>
      refine ⟨by simp, fun _ t' ht' => ?_⟩
      rw [replaceFold_eq_ok ht']
      simp
    | last =>
      refine ⟨fun hsame => ?_, fun hnot => absurd ⟨rfl, rfl⟩ hnot⟩
      have hutc : wall - zone.utcoffset wall 0 = wall - zone.utcoffset wall 1 := hsame ⟨wall, 0⟩ rfl
      exact absurd (sub_right_injective hutc) (datetimeAmbiguous_iff.mp hamb)

/-- A time in a gap comes to the same instant under the default policies, unless it was moved
back. -/
theorem resolveZoned_again_of_gap {t : ZonedTime} (hex : datetimeExists zone wall = false)
    (h : resolveZoned zone wall 0 gap overlap = .ok t) :
    (∀ t', resolveZoned zone wall t.fold .nextValid .first = .ok t' →
      t'.toUtc zone = t.toUtc zone) ↔
      PlainAt zone gap overlap wall := by
  have hgap : ¬(gap = .skip ∨ gap = .error) := by
    intro hg
    have hrefused : ∃ message,
        resolveZoned zone wall 0 gap overlap = .error (scheduleGapError message) :=
      resolveZoned_of_refused hex hg
    obtain ⟨message, he⟩ := hrefused
    rw [he] at h
    cases h
  have hplain : PlainAt zone gap overlap wall ↔
      ¬(gap = .previousValid ∧ ∃ wall', searchValid zone wall true = .ok wall') := by
    rw [searchValid_forward_isOk]
    simp [PlainAt, hex]
  rw [resolveZoned_of_gap hex hgap] at h
  rw [hplain, resolveZoned_of_gap hex (by decide)]
  obtain ⟨w, hw, rfl⟩ := exists_of_map_ok h
  by_cases hprev : gap = .previousValid
  · subst hprev
    obtain ⟨hwex, hback⟩ := searchValid_spec hw
    constructor
    · rintro hsame ⟨-, w', hw'⟩
      -- the two resolutions exist, on either side of the gap
      obtain ⟨hwex', hahead⟩ := searchValid_spec hw'
      have hutc := hsame { wall := w' } (by simp [hw', Except.map])
      have he := instant_inj hwex' hwex hutc
      simp only [ne_eq, not_true_eq_false, decide_false, Bool.false_eq_true, if_false] at hback
      simp only [if_true] at hahead
      exact absurd (hback.trans hahead) (by rw [he]; exact lt_irrefl _)
    · intro hnot t' ht'
      obtain ⟨w', hw', -⟩ := exists_of_map_ok ht'
      exact absurd ⟨rfl, w', hw'⟩ hnot
  · refine ⟨fun _ hboth => hprev hboth.1, fun _ t' ht' => ?_⟩
    obtain ⟨w', hw', rfl⟩ := exists_of_map_ok ht'
    have hdir : decide (gap ≠ .previousValid) = true := decide_eq_true hprev
    rw [hdir] at hw
    have hforward : searchValid zone wall true = .ok w' := hw'
    rw [hw] at hforward
    cases hforward
    rfl

/-- **Resolving again**, with the fold that came out and under the default policies, comes to the
same instant exactly if the policies are plain. -/
theorem resolveZoned_again {t : ZonedTime} (h : resolveZoned zone wall 0 gap overlap = .ok t) :
    (∀ t', resolveZoned zone wall t.fold .nextValid .first = .ok t' →
      t'.toUtc zone = t.toUtc zone) ↔
      PlainAt zone gap overlap wall := by
  cases hex : datetimeExists zone wall with
  | true => exact resolveZoned_again_of_exists hex h
  | false => exact resolveZoned_again_of_gap hex h

end Varco
