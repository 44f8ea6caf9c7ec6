import Varco.Schedule.Zone

/-!
# What a wall-clock time in a zone stands for

A zone by its transitions, which are whole minutes, are at least as far apart as the offset changes
at either of them, and change the offset by a day at most. The times that the zone shows are found
by their round trip through UTC (`datetimeExists_iff_occurs`), the two folds are the first and the
last instant at which a time is shown (`first_instant`, `last_instant`), and the times that are not
shown lie in gaps of at most a day, with a minute of times that are shown on either side
(`exists_gap`). `resolve_zoned_exact` says from this what `resolve_zoned` comes to.
-/

namespace Varco

/-- `timedelta(minutes=1)` -/
def minute : Duration := 60000000

/-- `timedelta(hours=24)` -/
def day : Duration := 86400000000

/-- Two numbers are no further apart than `d`. -/
def Within (a b d : ℤ) : Prop := a - b ≤ d ∧ b - a ≤ d

instance (a b d : ℤ) : Decidable (Within a b d) := inferInstanceAs (Decidable (_ ∧ _))

/-- Transitions from the offset `before` on: in whole minutes, of at most a day each, and no closer
than the changes of the offset. -/
def Spaced : ℤ → List (ℤ × ℤ) → Prop
  | _, [] => True
  | before, (t, offset) :: rest =>
    t % minute = 0 ∧ Within offset before day ∧
      (∀ x ∈ rest.head?, t < x.1 ∧ Within offset before (x.1 - t) ∧
        Within x.2 offset (x.1 - t)) ∧ Spaced offset rest

/-- A zone by its transitions. -/
structure TransitionZone where
  key : String
  before : Duration
  transitions : List (Instant × Duration)
  spaced : Spaced before transitions

/-- Its `ZoneInfo`. -/
def TransitionZone.info (z : TransitionZone) : ZoneInfo :=
  .ofTransitions z.key z.before z.transitions

def ZoneInfo.Occurs (zone : ZoneInfo) (wall : Wall) : Prop := ∃ now, zone.fromUtc now = wall

namespace ZoneInfo

variable {before offset t u wall : ℤ} {transitions rest : List (ℤ × ℤ)}

theorem spaced_cons {x y : ℤ × ℤ} (h : Spaced before (x :: y :: rest)) :
    x.1 + 60000000 ≤ y.1 ∧ (x.2 - before ≤ y.1 - x.1 ∧ before - x.2 ≤ y.1 - x.1) ∧
      (y.2 - x.2 ≤ y.1 - x.1 ∧ x.2 - y.2 ≤ y.1 - x.1) ∧ Spaced x.2 (y :: rest) := by
  obtain ⟨hx, -, hnext, hrest⟩ := h
  obtain ⟨hlt, hbefore, hafter⟩ := hnext y rfl
  have hy : y.1 % 60000000 = 0 := hrest.1
  have hx : x.1 % 60000000 = 0 := hx
  exact ⟨by omega, hbefore, hafter, hrest⟩

theorem offsetAt_before (hu : u < t) : offsetAt before ((t, offset) :: rest) u = before := if_pos hu

theorem offsetAt_after (hu : t ≤ u) :
    offsetAt before ((t, offset) :: rest) u = offsetAt offset rest u :=
  if_neg (not_lt.mpr hu)

/-- The offset of a transition lasts until the next one. -/
theorem offsetAt_of_lt (h : Spaced before ((t, offset) :: rest)) (hu : u < t + 60000000) :
    offsetAt offset rest u = offset := by
  cases rest with
  | nil => rfl
  | cons x rest =>
    obtain ⟨hlt, -⟩ := spaced_cons h
    exact offsetAt_before (by omega)

/-- The times of an overlap are shown after its transition. -/
theorem offsetAt_of_overlap (h : Spaced before ((t, offset) :: rest))
    (hu : u < t + before - offset) : offsetAt offset rest u = offset := by
  cases rest with
  | nil => rfl
  | cons x rest =>
    obtain ⟨hlt, hclose, -⟩ := spaced_cons h
    exact offsetAt_before (by omega)

/-- From a transition on, no time is shown that is before the reading of the transition. -/
theorem reading_le (h : Spaced before ((t, offset) :: rest)) (hu : t ≤ u) :
    t + offset ≤ u + offsetAt offset rest u := by
  induction rest generalizing before t offset with
  | nil =>
    change t + offset ≤ u + offset
    omega
  | cons x rest ih =>
    obtain ⟨hlt, -, hclose, hrest⟩ := spaced_cons h
    obtain ⟨t', offset'⟩ := x
    by_cases hx : u < t'
    · rw [offsetAt_before hx]
      omega
    · have hreading := ih hrest (not_lt.mp hx)
      rw [offsetAt_after (not_lt.mp hx)]
      dsimp only at hclose
      omega

/-- **The first instant.** With fold 0, a time that is shown goes to the first instant at which it
is. -/
theorem first_of_transitions (h : Spaced before transitions)
    (hu : u + offsetAt before transitions u = wall) :
    (wall - localOffset 0 before transitions wall) +
        offsetAt before transitions (wall - localOffset 0 before transitions wall) = wall ∧
      wall - localOffset 0 before transitions wall ≤ u := by
  induction transitions generalizing before with
  | nil =>
    change u + before = wall at hu
    change wall - before + before = wall ∧ wall - before ≤ u
    omega
  | cons x rest ih =>
    obtain ⟨t, offset⟩ := x
    simp only [localOffset, if_true]
    by_cases hwall : wall < t + max before offset
    · rw [if_pos hwall]
      -- in a gap the time would not be shown
      have hshown : wall < t + before := by
        by_cases hlate : u < t
        · rw [offsetAt_before hlate] at hu
          omega
        · rw [offsetAt_after (not_lt.mp hlate)] at hu
          have hreading := reading_le h (not_lt.mp hlate)
          omega
      rw [offsetAt_before (by omega)]
      by_cases hlate : u < t
      · rw [offsetAt_before hlate] at hu
        omega
      · omega
    · rw [if_neg hwall]
      have hlate : t ≤ u := by
        by_contra hlt
        rw [offsetAt_before (not_le.mp hlt)] at hu
        omega
      rw [offsetAt_after hlate] at hu
      obtain ⟨hshown, hle⟩ := ih h.2.2.2 hu
      -- before the transition, the rest shows earlier times
      have hlate' : t ≤ wall - localOffset 0 offset rest wall := by
        by_contra hlt
        rw [offsetAt_of_lt h (by omega)] at hshown
        omega
      rw [offsetAt_after hlate']
      exact ⟨hshown, hle⟩

/-- **The last instant.** With fold 1, a time that is shown goes to the last instant at which it
is. -/
theorem last_of_transitions (h : Spaced before transitions)
    (hu : u + offsetAt before transitions u = wall) :
    (wall - localOffset 1 before transitions wall) +
        offsetAt before transitions (wall - localOffset 1 before transitions wall) = wall ∧
      u ≤ wall - localOffset 1 before transitions wall := by
  induction transitions generalizing before u with
  | nil =>
    change u + before = wall at hu
    change wall - before + before = wall ∧ u ≤ wall - before
    omega
  | cons x rest ih =>
    obtain ⟨t, offset⟩ := x
    simp only [localOffset, one_ne_zero, if_false]
    by_cases hwall : wall < t + min before offset
    · rw [if_pos hwall, offsetAt_before (by omega)]
      by_cases hlate : u < t
      · rw [offsetAt_before hlate] at hu
        omega
      · rw [offsetAt_after (not_lt.mp hlate)] at hu
        have hreading := reading_le h (not_lt.mp hlate)
        omega
    · rw [if_neg hwall]
      -- the rest shows the time as well: it begins before an overlap ends
      have hshown : ∃ v, t ≤ v ∧ v + offsetAt offset rest v = wall ∧ u ≤ v := by
        by_cases hlate : u < t
        · rw [offsetAt_before hlate] at hu
          refine ⟨wall - offset, by omega, ?_, by omega⟩
          rw [offsetAt_of_overlap h (by omega)]
          omega
        · rw [offsetAt_after (not_lt.mp hlate)] at hu
          exact ⟨u, not_lt.mp hlate, hu, le_rfl⟩
      obtain ⟨v, hv, hshows, hle⟩ := hshown
      obtain ⟨hagain, hlast⟩ := ih h.2.2.2 hshows
      rw [offsetAt_after (by omega)]
      exact ⟨hagain, by omega⟩

/-- **A gap.** A time that is not shown lies among times that are not, for at most a day, and the
minutes before and after them are shown. -/
theorem gap_of_transitions (h : Spaced before transitions)
    (hnever : ∀ u : ℤ, u + offsetAt before transitions u ≠ wall) :
    ∃ s e : ℤ, (s ≤ wall ∧ wall < e ∧ e - s ≤ 86400000000) ∧
      (∀ w, s ≤ w → w < e → ∀ u : ℤ, u + offsetAt before transitions u ≠ w) ∧
      (∀ w, s - 60000000 ≤ w → w < s → ∃ u : ℤ, u + offsetAt before transitions u = w) ∧
      (∀ w, e ≤ w → w < e + 60000000 → ∃ u : ℤ, u + offsetAt before transitions u = w) ∧
      (∀ x ∈ transitions.head?, x.1 + before ≤ s) ∧ ∃ x ∈ transitions, e = x.1 + x.2 := by
  induction transitions generalizing before with
  | nil => exact absurd (sub_add_cancel wall before) (hnever (wall - before))
  | cons x rest ih =>
    obtain ⟨t, offset⟩ := x
    have hwall : t + before ≤ wall := by
      by_contra hlt
      refine hnever (wall - before) ?_
      rw [offsetAt_before (by omega), sub_add_cancel]
    by_cases hgap : wall < t + offset
    · -- the gap of this transition
      have hsize : offset - before ≤ 86400000000 := h.2.1.1
      refine ⟨t + before, t + offset, ⟨hwall, hgap, by omega⟩, fun w hs he u hu => ?_,
        fun w _ hw => ⟨w - before, ?_⟩, fun w he hw => ⟨w - offset, ?_⟩, ?_,
        ⟨_, List.mem_cons_self, rfl⟩⟩
      · by_cases hlate : u < t
        · rw [offsetAt_before hlate] at hu
          omega
        · rw [offsetAt_after (not_lt.mp hlate)] at hu
          have hreading := reading_le h (not_lt.mp hlate)
          omega
      · rw [offsetAt_before (by omega), sub_add_cancel]
      · rw [offsetAt_after (by omega), offsetAt_of_lt h (by omega), sub_add_cancel]
      · rintro x hx
        cases hx
        exact le_rfl
    · -- a gap of the rest
      have hrest : ∀ u : ℤ, u + offsetAt offset rest u ≠ wall := by
        intro u hu
        by_cases hlate : u < t
        · rw [offsetAt_of_lt h (by omega)] at hu
          omega
        · exact hnever u ((congrArg (u + ·) (offsetAt_after (not_lt.mp hlate))).trans hu)
      obtain ⟨s, e, hwithin, hnone, hbefore, hafter, hhead, y', hy', he⟩ := ih h.2.2.2 hrest
      cases rest with
      | nil => exact absurd (sub_add_cancel wall offset) (hrest (wall - offset))
      | cons y rest =>
        obtain ⟨hlt, hclose, -⟩ := spaced_cons h
        have hs := hhead y rfl
        dsimp only at hlt hclose
        have hshown : ∀ w, s - 60000000 ≤ w → ∀ u : ℤ, u + offsetAt offset (y :: rest) u = w →
            u + offsetAt before ((t, offset) :: y :: rest) u = w := by
          intro w hw u hu
          by_cases hlate : u < t
          · rw [offsetAt_of_lt h (by omega)] at hu
            omega
          · rw [offsetAt_after (not_lt.mp hlate), hu]
        refine ⟨s, e, hwithin, fun w hs' he u hu => ?_, fun w hw hw' => ?_, fun w hw hw' => ?_, ?_,
          ⟨y', List.mem_cons_of_mem _ hy', he⟩⟩
        · by_cases hlate : u < t
          · rw [offsetAt_before hlate] at hu
            omega
          · rw [offsetAt_after (not_lt.mp hlate)] at hu
            exact hnone w hs' he u hu
        · obtain ⟨u, hu⟩ := hbefore w hw hw'
          exact ⟨u, hshown w hw u hu⟩
        · obtain ⟨u, hu⟩ := hafter w hw hw'
          exact ⟨u, hshown w (by omega) u hu⟩
        · rintro x hx
          cases hx
          dsimp only
          omega

end ZoneInfo

/-! ## The zone -/

/-- The zone shows the time at `now`, and not before. -/
def ZoneInfo.FirstInstant (zone : ZoneInfo) (wall : Wall) (now : Instant) : Prop :=
  zone.fromUtc now = wall ∧ ∀ u, zone.fromUtc u = wall → now ≤ u

/-- The zone shows the time at `now`, and at no other instant or at one before it. -/
def ZoneInfo.SecondInstant (zone : ZoneInfo) (wall : Wall) (now : Instant) : Prop :=
  zone.fromUtc now = wall ∧ ((∀ u, zone.fromUtc u = wall → u = now) ∨
    ∃ first, zone.FirstInstant wall first ∧ first < now ∧
      ∀ u, zone.fromUtc u = wall → u = first ∨ now ≤ u)

def ZoneInfo.Thrice (zone : ZoneInfo) (wall : Wall) : Prop :=
  ∃ u v w, u < v ∧ v < w ∧ zone.fromUtc u = wall ∧ zone.fromUtc v = wall ∧ zone.fromUtc w = wall

/-- The first time after `wall` that the zone shows. -/
def ZoneInfo.NextShown (zone : ZoneInfo) (wall w : Wall) : Prop :=
  wall < w ∧ zone.Occurs w ∧ ∀ w' : Wall, wall < w' → w' < w → ¬zone.Occurs w'

/-- The time in the last minute before `wall` that the zone shows, whole minutes before it. -/
def ZoneInfo.LastMinute (zone : ZoneInfo) (wall w : Wall) : Prop :=
  w < wall ∧ zone.Occurs w ∧ (wall - w) % minute = 0 ∧
    ∀ w', w' < wall → zone.Occurs w' → w' < w + minute

namespace TransitionZone

variable (z : TransitionZone) {wall u : ℤ}

theorem first_instant (hu : z.info.fromUtc u = wall) :
    z.info.FirstInstant wall (ZonedTime.toUtc ⟨wall, 0⟩ z.info) :=
  ⟨(ZoneInfo.first_of_transitions z.spaced hu).1,
    fun _ hv => (ZoneInfo.first_of_transitions z.spaced hv).2⟩

theorem last_instant (hu : z.info.fromUtc u = wall) :
    z.info.fromUtc (ZonedTime.toUtc ⟨wall, 1⟩ z.info) = wall ∧
      ∀ v, z.info.fromUtc v = wall → v ≤ ZonedTime.toUtc ⟨wall, 1⟩ z.info :=
  ⟨(ZoneInfo.last_of_transitions z.spaced hu).1,
    fun _ hv => (ZoneInfo.last_of_transitions z.spaced hv).2⟩

/-- **The round trip through UTC** finds the times that the zone shows. -/
theorem datetimeExists_iff_occurs : datetimeExists z.info wall = true ↔ z.info.Occurs wall := by
  rw [datetimeExists_iff]
  exact ⟨fun h => ⟨_, h⟩, fun ⟨_, hu⟩ => (z.first_instant hu).1⟩

theorem datetimeExists_eq_false : datetimeExists z.info wall = false ↔ ¬z.info.Occurs wall := by
  rw [← z.datetimeExists_iff_occurs, Bool.not_eq_true]

/-- **A time that is not shown** lies in a gap of a day at most. -/
theorem exists_gap (h : ¬z.info.Occurs wall) :
    ∃ s e : ℤ, (s ≤ wall ∧ wall < e ∧ e - s ≤ 86400000000) ∧
      (∀ w, s ≤ w → w < e → ¬z.info.Occurs w) ∧
      (∀ w, s - 60000000 ≤ w → w < s → z.info.Occurs w) ∧
      (∀ w, e ≤ w → w < e + 60000000 → z.info.Occurs w) ∧
      ∃ x ∈ z.transitions, e = x.1 + x.2 := by
  obtain ⟨s, e, hwithin, hnone, hbefore, hafter, -, hend⟩ :=
    ZoneInfo.gap_of_transitions z.spaced fun u hu => h ⟨u, hu⟩
  exact ⟨s, e, hwithin, fun w hs he ⟨u, hu⟩ => hnone w hs he u hu, hbefore, hafter, hend⟩

/-- What the search comes to, `m` minutes away. -/
theorem searchValid_eq {forward : Bool} {m : ℕ} (hm : m < maxGapSearchMinutes)
    (hfound : z.info.Occurs (wall + gapStep forward + m * gapStep forward))
    (hfirst : ∀ j < m, ¬z.info.Occurs (wall + gapStep forward + j * gapStep forward)) :
    searchValid z.info wall forward = .ok (wall + gapStep forward + m * gapStep forward) :=
  searchValid_eq_ok.mpr (search_eq_some.mpr ⟨m, hm, rfl, z.datetimeExists_iff_occurs.mpr hfound,
    fun j hj => z.datetimeExists_eq_false.mpr (hfirst j hj)⟩)

/-- **Forward**, the search comes to the first minute after the gap. -/
theorem search_forward (h : ¬z.info.Occurs wall) :
    ∃ w e : ℤ, searchValid z.info wall true = .ok w ∧ z.info.NextShown wall e ∧ e ≤ w ∧
      w < e + 60000000 ∧ (w - wall) % 60000000 = 0 ∧ ∃ x ∈ z.transitions, e = x.1 + x.2 := by
  obtain ⟨s, e, ⟨hs, he, hsize⟩, hnone, -, hafter, hend⟩ := z.exists_gap h
  obtain ⟨m, hm⟩ : ∃ m : ℕ, (m : ℤ) = (e - wall - 1) / 60000000 :=
    ⟨((e - wall - 1) / 60000000).toNat, by omega⟩
  have hstep : ∀ j : ℕ, wall + gapStep true + j * gapStep true = wall + (j + 1) * 60000000 := by
    intro j
    change wall + 60000000 + j * 60000000 = wall + (j + 1) * 60000000
    ring
  have hfound := hafter (wall + (m + 1) * 60000000) (by omega) (by omega)
  refine ⟨wall + (m + 1) * 60000000, e, ?_, ?_, by omega, by omega, by omega, hend⟩
  · rw [← hstep]
    refine z.searchValid_eq (by unfold maxGapSearchMinutes; omega) ?_ fun j hj => ?_
    · rwa [hstep]
    · rw [hstep]
      exact hnone _ (by omega) (by omega)
  · exact ⟨he, hafter e le_rfl (by omega), fun w' hw hw' => hnone w' (hs.trans hw.le) hw'⟩

/-- **Backward**, it comes to the last minute before the gap. -/
theorem search_backward (h : ¬z.info.Occurs wall) :
    ∃ w, searchValid z.info wall false = .ok w ∧ z.info.LastMinute wall w := by
  obtain ⟨s, e, ⟨hs, he, hsize⟩, hnone, hbefore, -⟩ := z.exists_gap h
  obtain ⟨m, hm⟩ : ∃ m : ℕ, (m : ℤ) = (wall - s) / 60000000 :=
    ⟨((wall - s) / 60000000).toNat, by omega⟩
  have hstep : ∀ j : ℕ, wall + gapStep false + j * gapStep false = wall - (j + 1) * 60000000 := by
    intro j
    change wall + -60000000 + j * -60000000 = wall - (j + 1) * 60000000
    ring
  have hfound := hbefore (wall - (m + 1) * 60000000) (by omega) (by omega)
  refine ⟨wall - (m + 1) * 60000000, ?_, ?_⟩
  · rw [← hstep]
    refine z.searchValid_eq (by unfold maxGapSearchMinutes; omega) ?_ fun j hj => ?_
    · rwa [hstep]
    · rw [hstep]
      exact hnone _ (by omega) (by omega)
  · refine ⟨?_, hfound, ?_, fun (w' : ℤ) hw hoccurs => ?_⟩
    · change wall - (m + 1) * 60000000 < wall
      omega
    · change (wall - (wall - (m + 1) * 60000000)) % 60000000 = 0
      omega
    · change w' < wall - (m + 1) * 60000000 + 60000000
      have hlt : w' < s := not_le.mp fun hle => hnone w' hle (hw.trans he) hoccurs
      omega

end TransitionZone

/-! ## What a time resolves to -/

/-- **A time is resolved**: one that is shown to its first or its second instant, one that is not
as the policy says. -/
structure Resolved (zone : ZoneInfo) (wall : Wall) (gap : GapPolicy) (overlap : OverlapPolicy)
    (result : Except PyException ZonedTime) : Prop where
  shown : zone.Occurs wall → ∃ fold, result = .ok ⟨wall, fold⟩ ∧
    match overlap with
    | .first => zone.FirstInstant wall (ZonedTime.toUtc ⟨wall, fold⟩ zone)
    | .last => zone.SecondInstant wall (ZonedTime.toUtc ⟨wall, fold⟩ zone)
  refused : ¬zone.Occurs wall → gap = .skip ∨ gap = .error →
    ∃ message, result = .error (scheduleGapError message)
  next : ¬zone.Occurs wall → gap = .nextValid →
    ∃ w, result = .ok { wall := w } ∧ zone.NextShown wall w
  previous : ¬zone.Occurs wall → gap = .previousValid →
    ∃ w, result = .ok { wall := w } ∧ zone.LastMinute wall w

/-- What a time needs to be resolved: a fold that is one where the policy does not choose it, no
third instant where the last one is taken, and whole minutes to the end of the gap where the next
time is. -/
structure Resolvable (zone : ZoneInfo) (wall : Wall) (fold : ℤ) (gap : GapPolicy)
    (overlap : OverlapPolicy) : Prop where
  fold : (∃! now, zone.fromUtc now = wall) → fold = 0 ∨ fold = 1
  twice : overlap = .last → ¬zone.Thrice wall
  minutes : ¬zone.Occurs wall → gap = .nextValid →
    ∀ w, zone.NextShown wall w → (w - wall) % minute = 0

namespace TransitionZone

variable (z : TransitionZone) {wall : ℤ} {fold : ℤ} {gap : GapPolicy} {overlap : OverlapPolicy}

theorem nextShown_unique {zone : ZoneInfo} {w w' : Wall} (h : zone.NextShown wall w)
    (h' : zone.NextShown wall w') : w = w' := by
  rcases lt_trichotomy w w' with hlt | heq | hlt
  · exact absurd h.2.1 (h'.2.2 w h.1 hlt)
  · exact heq
  · exact absurd h'.2.1 (h.2.2 w' h'.1 hlt)

/-- Of a time that is shown at two instants, the last one is the second unless there are three. -/
theorem second_iff {zone : ZoneInfo} {first last : Instant} (hfirst : zone.FirstInstant wall first)
    (hlast : zone.fromUtc last = wall ∧ ∀ v, zone.fromUtc v = wall → v ≤ last)
    (hlt : first < last) : zone.SecondInstant wall last ↔ ¬zone.Thrice wall := by
  constructor
  · rintro ⟨-, hsecond⟩ ⟨u, v, w, huv, hvw, hu, hv, hw⟩
    rcases hsecond with honly | ⟨first', hfirst', -, hnext⟩
    · exact absurd (honly first hfirst.1) hlt.ne
    · rcases hnext v hv with rfl | hle
      · exact absurd (hfirst'.2 u hu) (not_le.mpr huv)
      · exact absurd (hle.trans_lt hvw) (not_lt.mpr (hlast.2 w hw))
  · intro hthrice
    refine ⟨hlast.1, .inr ⟨first, hfirst, hlt, fun u hu => ?_⟩⟩
    rcases eq_or_lt_of_le (hfirst.2 u hu) with heq | hbetween
    · exact .inl heq.symm
    · refine .inr (not_lt.mp fun hlate => hthrice ?_)
      exact ⟨first, u, last, hbetween, hlate, hfirst.1, hu, hlast.1⟩

/-- A time that is shown is resolved to its first instant or to its last. -/
theorem resolved_of_shown (hshown : z.info.Occurs wall) :
    Resolved z.info wall gap overlap (resolveZoned z.info wall fold gap overlap) ↔
      Resolvable z.info wall fold gap overlap := by
  have hiff : ∀ result, Resolved z.info wall gap overlap result ↔
      ∃ fold, result = .ok ⟨wall, fold⟩ ∧
        match overlap with
        | .first => z.info.FirstInstant wall (ZonedTime.toUtc ⟨wall, fold⟩ z.info)
        | .last => z.info.SecondInstant wall (ZonedTime.toUtc ⟨wall, fold⟩ z.info) :=
    fun result => ⟨fun h => h.shown hshown, fun h => ⟨fun _ => h, fun hnot => absurd hshown hnot,
      fun hnot => absurd hshown hnot, fun hnot => absurd hshown hnot⟩⟩
  obtain ⟨u, hu⟩ := hshown
  have hfirst := z.first_instant hu
  have hlast := z.last_instant hu
  rw [resolveZoned_of_exists (z.datetimeExists_iff_occurs.mpr ⟨u, hu⟩), hiff]
  by_cases hambiguous : datetimeAmbiguous z.info wall = true
  · -- there are two instants at least, and the policy chooses the fold
    have hne : ZonedTime.toUtc ⟨wall, 0⟩ z.info ≠ ZonedTime.toUtc ⟨wall, 1⟩ z.info :=
      fun heq => datetimeAmbiguous_iff.mp hambiguous (sub_right_injective heq)
    have htwo : ¬∃! now, z.info.fromUtc now = wall :=
      fun h => hne (h.unique hfirst.1 hlast.1)
    rw [if_pos hambiguous]
    cases overlap with
    | first =>
      refine iff_of_true ⟨0, rfl, hfirst⟩ ⟨fun h => absurd h htwo, nofun, fun hnot => ?_⟩
      exact absurd ⟨u, hu⟩ hnot
    | last =>
      have hsecond := second_iff hfirst hlast (lt_of_le_of_ne (hfirst.2 _ hlast.1) hne)
      constructor
      · rintro ⟨fold', hresult, hinstant⟩
        cases hresult
        exact ⟨fun h => absurd h htwo, fun _ => hsecond.mp hinstant,
          fun hnot => absurd ⟨u, hu⟩ hnot⟩
      · exact fun h => ⟨1, rfl, hsecond.mpr (h.twice rfl)⟩
  · -- there is one instant, whatever the fold
    have heq : ZonedTime.toUtc ⟨wall, 0⟩ z.info = ZonedTime.toUtc ⟨wall, 1⟩ z.info := by
      rw [datetimeAmbiguous_iff, not_not] at hambiguous
      exact congrArg (wall - ·) hambiguous
    have honly : ∀ v, z.info.fromUtc v = wall → v = ZonedTime.toUtc ⟨wall, 0⟩ z.info := fun v hv =>
      le_antisymm (heq ▸ hlast.2 v hv) (hfirst.2 v hv)
    have honce : ∃! now, z.info.fromUtc now = wall := ⟨_, hfirst.1, honly⟩
    rw [if_neg hambiguous]
    by_cases hfold : fold = 0 ∨ fold = 1
    · have hinstant : ZonedTime.toUtc ⟨wall, fold⟩ z.info = ZonedTime.toUtc ⟨wall, 0⟩ z.info := by
        rcases hfold with rfl | rfl
        exacts [rfl, heq.symm]
      refine iff_of_true ⟨fold, if_pos hfold, ?_⟩ ⟨fun _ => hfold, fun _ => ?_, fun hnot => ?_⟩
      · cases overlap with
        | first => exact hinstant ▸ hfirst
        | last => exact ⟨hinstant ▸ hfirst.1, .inl fun v hv => hinstant ▸ honly v hv⟩
      · rintro ⟨v, w, -, hvw, -, hv, hw, -⟩
        exact absurd (honce.unique hv hw) hvw.ne
      · exact absurd ⟨u, hu⟩ hnot
    · refine iff_of_false ?_ fun h => hfold (h.fold honce)
      rintro ⟨fold', hresult, -⟩
      rw [replaceFold, if_neg hfold] at hresult
      cases hresult

/-- A time in a gap is refused, or resolved by the search. -/
theorem resolved_of_gap (hgap : ¬z.info.Occurs wall) :
    Resolved z.info wall gap overlap (resolveZoned z.info wall fold gap overlap) ↔
      Resolvable z.info wall fold gap overlap := by
  have hexists := z.datetimeExists_eq_false.mpr hgap
  have honce : ¬∃! now, z.info.fromUtc now = wall := fun ⟨u, hu, _⟩ => hgap ⟨u, hu⟩
  have htwice : ¬z.info.Thrice wall := fun ⟨u, _, _, _, _, hu, _⟩ => hgap ⟨u, hu⟩
  have hresolvable : Resolvable z.info wall fold gap overlap ↔
      (gap = .nextValid → ∀ w, z.info.NextShown wall w → (w - wall) % minute = 0) :=
    ⟨fun h => h.minutes hgap, fun h => ⟨fun hu => absurd hu honce, fun _ => htwice, fun _ => h⟩⟩
  rw [hresolvable]
  cases gap with
  | skip | error =>
    exact iff_of_true ⟨fun h => absurd h hgap, fun _ hg => resolveZoned_of_refused hexists hg,
      fun _ => nofun, fun _ => nofun⟩ nofun
  | previousValid =>
    obtain ⟨w, hw, hlast⟩ := z.search_backward hgap
    have hresult : resolveZoned z.info wall fold .previousValid overlap = .ok { wall := w } := by
      rw [resolveZoned_of_gap hexists (by decide)]
      exact congrArg (Except.map _) hw
    exact iff_of_true ⟨fun h => absurd h hgap, fun _ => by simp, fun _ => nofun,
      fun _ _ => ⟨w, hresult, hlast⟩⟩ nofun
  | nextValid =>
    obtain ⟨w, e, hw, hnext, hle, hlt, hminutes, -⟩ := z.search_forward hgap
    have hresult : resolveZoned z.info wall fold .nextValid overlap = .ok { wall := w } := by
      rw [resolveZoned_of_gap hexists (by decide)]
      exact congrArg (Except.map _) hw
    constructor
    · intro h _ w' hw'
      obtain ⟨v, hv, hnextv⟩ := h.next hgap rfl
      rw [hresult] at hv
      cases hv
      rw [← nextShown_unique hnextv hw']
      exact hminutes
    · intro h
      have he : (e - wall) % 60000000 = 0 := h rfl e hnext
      have heq : w = e := by omega
      exact ⟨fun h => absurd h hgap, fun _ => by simp, fun _ _ => ⟨w, hresult, heq ▸ hnext⟩,
        fun _ => nofun⟩

def romeRules : TransitionZone where
  key := "Europe/Rome"
  before := 3600000000
  transitions := [(63847443600000000, 7200000000), (63865587600000000, 3600000000)]
  spaced := by
    refine ⟨by decide, by decide, ?_, by decide, by decide, nofun, trivial⟩
    rintro x hx
    cases hx
    exact ⟨by decide, by decide, by decide⟩

end TransitionZone

end Varco
