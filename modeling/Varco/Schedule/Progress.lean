import Varco.Schedule.Materializer

/-!
# A schedule is neither doubled nor stuck

The calls of `materialize` for one schedule, one after the other: the caller moves
`last_materialized_at` to the latest wall-clock time that a call returned, and other clients may do
to the store what they like in between, except delete a row or store one for an occurrence.

An occurrence is never materialized twice (`Materializations.unique`). A schedule gets stuck if a
call looks at an occurrence that it cannot resolve, for then the call raises and
`last_materialized_at` does not move: the occurrences that a call looks at are `Looks`, those that
can be resolved `Resolvable`. If calls go on at or past an occurrence with nothing in the way, then
`last_materialized_at` gets there, because every such call moves it.
-/

namespace Varco

open List

namespace Schedule

variable {schedule : Schedule} {cron : CronSchedule} {nowWall occ w : Wall} {lower : Option Wall}
  {l : List Wall}

/-! ## The occurrences that a call looks at -/

def Latest (cron : CronSchedule) (nowWall w : Wall) : Prop :=
  cron.Occurs w ∧ w ≤ nowWall ∧ ∀ u, cron.Occurs u → u ≤ nowWall → u ≤ w

/-- What the catch-up policy looks at: the last occurrence, if there is no lower bound or missed
ones are skipped; or else the first one after the bound, or all of them. -/
def Looks (schedule : Schedule) (cron : CronSchedule) (nowWall : Wall) :
    Option Wall → Wall → Prop
  | none, w => Latest cron nowWall w
  | some bound, w =>
    bound < w ∧
      match schedule.catchupPolicy with
      | .skip => Latest cron nowWall w
      | .fireOnce =>
        cron.Occurs w ∧ w ≤ nowWall ∧ ∀ u, cron.Occurs u → bound < u → w ≤ u
      | .backfillAll => cron.Occurs w ∧ w ≤ nowWall

def Resolvable (zone : ZoneInfo) (gap : GapPolicy) (w : Wall) : Prop :=
  datetimeExists zone w = true ∨
    (gap = .nextValid ∧
      ∃ k < maxGapSearchMinutes, datetimeExists zone (w + (k + 1) * 60000000) = true) ∨
    (gap = .previousValid ∧
      ∃ k < maxGapSearchMinutes, datetimeExists zone (w - (k + 1) * 60000000) = true)

theorem Looks.occurs (h : schedule.Looks cron nowWall lower w) : cron.Occurs w ∧ w ≤ nowWall := by
  cases lower with
  | none => exact ⟨h.1, h.2.1⟩
  | some bound =>
    obtain ⟨-, h⟩ := h
    cases hp : schedule.catchupPolicy with
    | skip | fireOnce =>
      rw [hp] at h
      exact ⟨h.1, h.2.1⟩
    | backfillAll =>
      rw [hp] at h
      exact h

theorem Looks.after {bound : Wall} (h : schedule.Looks cron nowWall (some bound) w) :
    bound < w := h.1

/-- The occurrences of a backfill, besides those it had already, lie after the cursor and up to
now. -/
theorem backfillLoop_spec {n : ℕ} {cursor : Wall} {acc : List Wall}
    (h : backfillLoop cron nowWall n cursor acc = .ok l) :
    ∃ new, l = acc ++ new ∧ ∀ w ∈ new, cron.Occurs w ∧ cursor < w ∧ w ≤ nowWall := by
  induction n generalizing cursor acc with
  | zero =>
    cases h
    exact ⟨[], by simp, by simp⟩
  | succ n ih =>
    unfold backfillLoop at h
    split at h
    · cases h
    · rename_i nxt hnxt
      obtain ⟨hocc, hlt, -⟩ := CronSchedule.nextAfter_spec hnxt
      split_ifs at h with hnow
      · cases h
        exact ⟨[], by simp, by simp⟩
      · obtain ⟨new, he, hnew⟩ := ih h
        refine ⟨nxt :: new, by rw [he]; simp, fun w hw => ?_⟩
        rcases mem_cons.mp hw with rfl | hw
        · exact ⟨hocc, hlt, not_lt.mp hnow⟩
        · obtain ⟨hwocc, hwlt, hwle⟩ := hnew w hw
          exact ⟨hwocc, hlt.trans hwlt, hwle⟩

theorem backfillLoop_isOk (hd : cron.Dense) (n : ℕ) (cursor : Wall) (acc : List Wall) :
    ∃ l, backfillLoop cron nowWall n cursor acc = .ok l := by
  induction n generalizing cursor acc with
  | zero => exact ⟨acc, rfl⟩
  | succ n ih =>
    obtain ⟨nxt, hnxt⟩ := hd.nextAfter cursor
    unfold backfillLoop
    simp only [hnxt]
    split_ifs
    · exact ⟨acc, rfl⟩
    · exact ih nxt (acc ++ [nxt])

/-- A backfill finds something if an occurrence has been missed. -/
theorem backfillLoop_ne_nil {n : ℕ} {cursor : Wall} (hn : 0 < n) (hocc : cron.Occurs occ)
    (hlt : cursor < occ) (hle : occ ≤ nowWall)
    (h : backfillLoop cron nowWall n cursor [] = .ok l) : l ≠ [] := by
  obtain ⟨m, rfl⟩ := Nat.exists_eq_succ_of_ne_zero hn.ne'
  unfold backfillLoop at h
  split at h
  · cases h
  · rename_i nxt hnxt
    have hfirst := (CronSchedule.nextAfter_spec hnxt).2.2 occ hocc hlt
    rw [if_neg (not_lt.mpr (hfirst.trans hle))] at h
    obtain ⟨new, rfl, -⟩ := backfillLoop_spec h
    simp

/-- **What is due** is among the occurrences that the policy looks at. -/
theorem looks_of_due (h : schedule.dueOccurrences cron nowWall lower = .ok l) (hw : w ∈ l) :
    schedule.Looks cron nowWall lower w := by
  unfold dueOccurrences at h
  cases hp : schedule.catchupPolicy with
  | skip =>
    simp only [hp] at h
    split at h
    · cases h
      cases hw
    · rename_i latest hl
      have hlatest := CronSchedule.atOrBefore_spec hl
      split_ifs at h with hbound <;> cases h
      · cases hw
      · obtain rfl := mem_singleton.mp hw
        cases lower with
        | none => exact hlatest
        | some bound =>
          simp only [Option.any_some, decide_eq_true_eq, not_le] at hbound
          refine ⟨hbound, ?_⟩
          rw [hp]
          exact hlatest
  | fireOnce =>
    simp only [hp] at h
    obtain ⟨c, hc, rfl⟩ := exists_of_map_ok h
    obtain ⟨hmem, hle⟩ := mem_filter.mp hw
    obtain rfl := Option.mem_toList.mp hmem
    simp only [decide_eq_true_eq] at hle
    cases lower with
    | none => exact CronSchedule.atOrBefore_spec (Except.ok.inj hc)
    | some bound =>
      obtain ⟨v, hv, he⟩ := exists_of_map_ok hc
      cases he
      obtain ⟨hocc, hlt, hfirst⟩ := CronSchedule.nextAfter_spec hv
      refine ⟨hlt, ?_⟩
      rw [hp]
      exact ⟨hocc, hle, hfirst⟩
  | backfillAll =>
    simp only [hp] at h
    cases lower with
    | some bound =>
      obtain ⟨all, hall, rfl⟩ := exists_of_map_ok h
      obtain ⟨new, rfl, hnew⟩ := backfillLoop_spec hall
      obtain ⟨hocc, hlt, hle⟩ := hnew w (by simpa using mem_of_mem_take hw)
      refine ⟨hlt, ?_⟩
      rw [hp]
      exact ⟨hocc, hle⟩
    | none =>
      simp only at h
      split at h
      · cases h
        cases hw
      · rename_i first hf
        have hlatest := CronSchedule.atOrBefore_spec hf
        obtain ⟨all, hall, rfl⟩ := exists_of_map_ok h
        obtain ⟨new, rfl, hnew⟩ := backfillLoop_spec hall
        rcases mem_append.mp (mem_of_mem_take hw) with hw | hw
        · rwa [mem_singleton.mp hw]
        · -- nothing follows the last occurrence up to now
          obtain ⟨hocc, hlt, hle⟩ := hnew w hw
          exact absurd (hlatest.2.2 w hocc hle) (not_le.mpr hlt)

theorem due_isOk (hd : cron.Dense) (nowWall : Wall) (lower : Option Wall) :
    ∃ l, schedule.dueOccurrences cron nowWall lower = .ok l := by
  obtain ⟨latest, hl⟩ := hd.atOrBefore nowWall
  unfold dueOccurrences
  cases schedule.catchupPolicy with
  | skip =>
    simp only [hl]
    split_ifs <;> exact ⟨_, rfl⟩
  | fireOnce =>
    cases lower with
    | none => exact ⟨_, rfl⟩
    | some bound =>
      obtain ⟨v, hv⟩ := hd.nextAfter bound
      simp only [hv]
      exact ⟨_, rfl⟩
  | backfillAll =>
    have hok : ∀ n cursor acc, ∃ l, backfillLoop cron nowWall n cursor acc = .ok l :=
      backfillLoop_isOk hd
    cases lower with
    | some bound =>
      obtain ⟨l, hl⟩ := hok (max schedule.maxBackfill 0).toNat bound []
      simp only [hl]
      exact ⟨_, rfl⟩
    | none =>
      obtain ⟨l, hback⟩ := hok ((max schedule.maxBackfill 0).toNat - 1) latest [latest]
      simp only [hl, hback]
      exact ⟨_, rfl⟩

/-- **Something is due** when an occurrence after the lower bound has been reached. -/
theorem due_ne_nil (hd : cron.Dense)
    (hmax : schedule.catchupPolicy = .backfillAll → 1 ≤ schedule.maxBackfill)
    (hocc : cron.Occurs occ) (hle : occ ≤ nowWall) (hlower : ∀ bound ∈ lower, bound < occ) :
    ∃ w rest, schedule.dueOccurrences cron nowWall lower = .ok (w :: rest) := by
  obtain ⟨latest, hl⟩ := hd.atOrBefore nowWall
  have hlatest := (CronSchedule.atOrBefore_spec hl).2.2 occ hocc hle
  unfold dueOccurrences
  cases hp : schedule.catchupPolicy with
  | skip =>
    simp only [hl]
    have hnot : ¬lower.any (latest ≤ ·) = true := by
      cases lower with
      | none => simp
      | some bound => simpa using (hlower bound rfl).trans_le hlatest
    rw [if_neg hnot]
    exact ⟨latest, [], rfl⟩
  | fireOnce =>
    cases lower with
    | none =>
      have hnow := (CronSchedule.atOrBefore_spec hl).2.1
      exact ⟨latest, [], by simp [hl, Except.map, hnow]⟩
    | some bound =>
      obtain ⟨v, hv⟩ := hd.nextAfter bound
      have hnow := ((CronSchedule.nextAfter_spec hv).2.2 occ hocc (hlower bound rfl)).trans hle
      exact ⟨v, [], by simp [hv, Except.map, hnow]⟩
  | backfillAll =>
    have hpos : ∃ n, (max schedule.maxBackfill 0).toNat = n + 1 := by
      refine Nat.exists_eq_succ_of_ne_zero ?_
      have := hmax hp
      omega
    obtain ⟨n, hn⟩ := hpos
    cases lower with
    | some bound =>
      have hok : ∃ l, backfillLoop cron nowWall (n + 1) bound [] = .ok l := backfillLoop_isOk hd ..
      obtain ⟨l, hl⟩ := hok
      have hne := backfillLoop_ne_nil (Nat.succ_pos n) hocc (hlower bound rfl) hle hl
      obtain ⟨w, rest, rfl⟩ := exists_cons_of_ne_nil hne
      exact ⟨w, rest.take n, by simp [hn, hl, Except.map]⟩
    | none =>
      have hok : ∃ l, backfillLoop cron nowWall n latest [latest] = .ok l := backfillLoop_isOk hd ..
      obtain ⟨l, hback⟩ := hok
      obtain ⟨new, rfl, -⟩ := backfillLoop_spec hback
      exact ⟨latest, new.take n, by simp [hl, hn, hback, Except.map]⟩

/-! ## Occurrences that can be resolved -/

variable {zone : ZoneInfo} {gap : GapPolicy} {overlap : OverlapPolicy} {tz : TzData}
  {uuid5 : String → UUID} {clock now : Instant} {store store' : InMemoryJobStore}

theorem Resolvable.resolveZoned (h : Resolvable zone gap w) :
    ∃ t, Varco.resolveZoned zone w 0 gap overlap = .ok t := by
  cases hex : datetimeExists zone w with
  | true =>
    rw [resolveZoned_of_exists hex]
    unfold replaceFold
    rw [if_pos]
    · exact ⟨_, rfl⟩
    · split_ifs <;> simp
  | false =>
    have hback : ∀ k : ℕ, w + gapStep false + k * gapStep false = w - (k + 1) * 60000000 := by
      intro k
      show w + -60000000 + k * (-60000000) = w - (k + 1) * 60000000
      unfold Wall at *
      omega
    have hfound : ¬(gap = .skip ∨ gap = .error) ∧
        ∃ w', searchValid zone w (gap ≠ .previousValid) = .ok w' := by
      rcases h with h | ⟨rfl, hnext⟩ | ⟨rfl, k, hk, hprevious⟩
      · rw [hex] at h
        cases h
      · exact ⟨by decide, searchValid_forward_isOk.mpr hnext⟩
      · rw [← hback] at hprevious
        exact ⟨by decide, searchValid_isOk hk hprevious⟩
    obtain ⟨hgap, w', hw'⟩ := hfound
    rw [resolveZoned_of_gap hex hgap, hw']
    exact ⟨_, rfl⟩

theorem Resolvable.buildJob (hz : tz schedule.timezone = .ok zone)
    (h : Resolvable zone schedule.gapPolicy w) :
    ∃ job, schedule.buildJob tz uuid5 clock w = .ok job := by
  have hok : ∃ t, Varco.resolveZoned zone w 0 schedule.gapPolicy schedule.overlapPolicy = .ok t :=
    h.resolveZoned
  obtain ⟨t, ht⟩ := hok
  cases hb : schedule.buildJob tz uuid5 clock w with
  | ok job => exact ⟨job, rfl⟩
  | error e =>
    rw [Schedule.buildJob, hz] at hb
    change (Varco.resolveZoned zone w 0 schedule.gapPolicy schedule.overlapPolicy >>= _) = _ at hb
    rw [ht] at hb
    cases hb

section

variable (he : schedule.enabled = true) (hz : tz schedule.timezone = .ok zone)
  (hc : parseCron schedule.cronExpr = .ok cron)

include he hz hc

/-- A call, with the time-zone data and the parsed expression at hand. -/
theorem materialize_eq
    (hdue : schedule.dueOccurrences cron (zone.fromUtc now)
      (asNaiveWall zone schedule.lastMaterializedAt) = .ok l) :
    schedule.materialize tz uuid5 clock now store =
      materializeLoop (schedule.buildJob tz uuid5 clock) l store [] := by
  have hl : schedule.computeOccurrences tz now = .ok l := by
    simp only [computeOccurrences, hc, hz]
    exact hdue
  simp [materialize, he, hl]

theorem materialize_isOk (hd : cron.Dense)
    (hclear : ∀ w, schedule.Looks cron (zone.fromUtc now)
      (asNaiveWall zone schedule.lastMaterializedAt) w → Resolvable zone schedule.gapPolicy w) :
    ∃ jobs, (schedule.materialize tz uuid5 clock now store).1 = .ok jobs := by
  have hok : ∃ l, schedule.dueOccurrences cron (zone.fromUtc now)
      (asNaiveWall zone schedule.lastMaterializedAt) = .ok l := due_isOk hd ..
  obtain ⟨l, hdue⟩ := hok
  have hbuild : ∀ w ∈ l, ∃ job, schedule.buildJob tz uuid5 clock w = .ok job :=
    fun w hw => (hclear w (looks_of_due hdue hw)).buildJob hz
  obtain ⟨jobs, hjobs, -⟩ := @materializeLoop_isOk _ _ store [] hbuild
  rw [materialize_eq he hz hc hdue]
  exact ⟨jobs, hjobs⟩

/-- **A call with nothing in its way**: it returns a job, if an occurrence after
`last_materialized_at` has been reached. -/
theorem materialize_progress (hd : cron.Dense)
    (hmax : schedule.catchupPolicy = .backfillAll → 1 ≤ schedule.maxBackfill)
    (hocc : cron.Occurs occ) (hle : occ ≤ zone.fromUtc now)
    (hlower : ∀ bound ∈ asNaiveWall zone schedule.lastMaterializedAt, bound < occ)
    (hclear : ∀ w, schedule.Looks cron (zone.fromUtc now)
      (asNaiveWall zone schedule.lastMaterializedAt) w → Resolvable zone schedule.gapPolicy w)
    (hfresh : ∀ w, cron.Occurs w → w ≤ zone.fromUtc now →
      (∀ bound ∈ asNaiveWall zone schedule.lastMaterializedAt, bound < w) →
        store.get (occurrenceJobId uuid5 schedule.scheduleId w) = none) :
    ∃ jobs w, (schedule.materialize tz uuid5 clock now store).1 = .ok jobs ∧
      schedule.Looks cron (zone.fromUtc now) (asNaiveWall zone schedule.lastMaterializedAt) w ∧
      ∃ job ∈ jobs, job.runAtWall = some w := by
  obtain ⟨w, rest, hdue⟩ := due_ne_nil hd hmax hocc hle hlower
  have hlooks : ∀ v ∈ w :: rest, schedule.Looks cron (zone.fromUtc now)
      (asNaiveWall zone schedule.lastMaterializedAt) v := fun v hv => looks_of_due hdue hv
  have hbuild : ∀ v ∈ w :: rest, ∃ job, schedule.buildJob tz uuid5 clock v = .ok job :=
    fun v hv => (hclear v (hlooks v hv)).buildJob hz
  obtain ⟨job, hjob⟩ := hbuild w mem_cons_self
  obtain ⟨zone', t, -, -, rfl⟩ := buildJob_eq_ok hjob
  obtain ⟨jobs, hjobs, -, hfirst⟩ := @materializeLoop_isOk _ _ store [] hbuild
  rw [materialize_eq he hz hc hdue]
  refine ⟨jobs, w, hjobs, hlooks w mem_cons_self, _, hfirst w rest _ rfl hjob ?_, rfl⟩
  have hw := hlooks w mem_cons_self
  refine hfresh w hw.occurs.1 hw.occurs.2 ?_
  intro bound hb
  rw [Option.mem_def.mp hb] at hw
  exact hw.after

end

theorem get_materialize {id : UUID} {job : Job} (hg : store.get id = some job) :
    (schedule.materialize tz uuid5 clock now store).2.get id = some job := by
  unfold materialize
  split_ifs
  · exact hg
  · split
    · exact hg
    · exact get_materializeLoop rfl hg

/-- **What a call returns**: jobs of different occurrences, none of which was stored before; nothing
else is new in the store, and each is an occurrence that was looked at. -/
theorem materialize_spec {jobs : List Job}
    (h : (schedule.materialize tz uuid5 clock now store).1 = .ok jobs) :
    (jobs.map Job.jobId).Nodup ∧
      (∀ job ∈ jobs, (∃ w, job.runAtWall = some w ∧
          job.jobId = occurrenceJobId uuid5 schedule.scheduleId w ∧
          ∀ zone cron, tz schedule.timezone = .ok zone → parseCron schedule.cronExpr = .ok cron →
            schedule.Looks cron (zone.fromUtc now)
              (asNaiveWall zone schedule.lastMaterializedAt) w) ∧
        store.get job.jobId = none ∧
        (schedule.materialize tz uuid5 clock now store).2.get job.jobId = some job) ∧
      ∀ id, store.get id = none → (schedule.materialize tz uuid5 clock now store).2.get id ≠ none →
        ∃ job ∈ jobs, job.jobId = id := by
  have hnil : ∀ {s : InMemoryJobStore}, s = store → jobs = [] →
      (∀ id, store.get id = none → s.get id ≠ none → ∃ job ∈ jobs, job.jobId = id) := by
    rintro s rfl - id hn hs
    exact absurd hn hs
  cases hm : schedule.materialize tz uuid5 clock now store with
  | mk res s' =>
    rw [hm] at h
    simp only at h
    subst h
    unfold materialize at hm
    split_ifs at hm with he
    · cases hm
      exact ⟨nodup_nil, by simp, hnil rfl rfl⟩
    · split at hm
      · cases hm
      · rename_i l hl
        obtain ⟨new, hnew, hnodup, hspec, honly⟩ := materializeLoop_spec hm
        rw [nil_append] at hnew
        subst hnew
        refine ⟨hnodup, fun job hj => ?_, honly⟩
        obtain ⟨⟨w, hw, hb⟩, hn, hg⟩ := hspec job hj
        obtain ⟨zone, t, -, -, rfl⟩ := buildJob_eq_ok hb
        refine ⟨⟨w, rfl, rfl, fun zone cron hz hc => ?_⟩, hn, hg⟩
        simp only [computeOccurrences, hc, hz] at hl
        exact looks_of_due hl hw

theorem length_due_le_one (hp : schedule.catchupPolicy ≠ .backfillAll)
    (h : schedule.dueOccurrences cron nowWall lower = .ok l) : l.length ≤ 1 := by
  unfold dueOccurrences at h
  cases hc : schedule.catchupPolicy with
  | skip =>
    simp only [hc] at h
    split at h
    · cases h
      simp
    · split_ifs at h <;> cases h <;> simp
  | fireOnce =>
    simp only [hc] at h
    obtain ⟨c, -, rfl⟩ := exists_of_map_ok h
    refine (length_filter_le _ _).trans ?_
    cases c <;> simp
  | backfillAll => exact absurd hc hp

/-- A call that raises while it looks at one occurrence has stored nothing. -/
theorem materialize_error {e : PyException} (hp : schedule.catchupPolicy ≠ .backfillAll)
    (h : (schedule.materialize tz uuid5 clock now store).1 = .error e) :
    (schedule.materialize tz uuid5 clock now store).2 = store := by
  unfold materialize at h ⊢
  split_ifs at h ⊢ with he
  split
  · rfl
  · rename_i l hl
    rw [hl] at h
    simp only at h
    have hlen : l.length ≤ 1 := by
      unfold computeOccurrences at hl
      cases hc : parseCron schedule.cronExpr with
      | error e =>
        rw [hc] at hl
        cases hl
      | ok cron =>
        cases hz : tz schedule.timezone with
        | error e =>
          rw [hc, hz] at hl
          cases hl
        | ok zone =>
          rw [hc, hz] at hl
          exact length_due_le_one hp hl
    cases l with
    | nil => rfl
    | cons w rest =>
      cases rest with
      | cons v rest =>
        simp only [length_cons] at hlen
        omega
      | nil =>
        cases hb : schedule.buildJob tz uuid5 clock w with
        | error e => simp [materializeLoop, hb]
        | ok job =>
          simp only [materializeLoop, hb] at h
          split_ifs at h

end Schedule

/-! ## All calls for a schedule -/

def latestReturned (res : Except PyException (List Job)) : Option Wall :=
  match res with
  | .ok jobs => (jobs.filterMap Job.runAtWall).max?
  | .error _ => none

/-- One call, for the value of `last_materialized_at` that the caller has set. -/
def Schedule.callAt (schedule : Schedule) (tz : TzData) (uuid5 : String → UUID)
    (clock now : Instant) (last : Option Timestamp) (store : InMemoryJobStore) :
    Except PyException (List Job) × InMemoryJobStore :=
  { schedule with lastMaterializedAt := last }.materialize tz uuid5 clock now store

/-- The calls for one schedule: at the instants `now`, which do not decrease, with the value `last`
of `last_materialized_at`, on the stores `store`. After a call that returns jobs the caller sets
`last_materialized_at` to the latest of their wall-clock times; between two calls no row is
deleted. -/
structure Materializations (schedule : Schedule) (tz : TzData) (uuid5 : String → UUID) where
  clock : ℕ → Instant
  now : ℕ → Instant
  last : ℕ → Option Timestamp
  store : ℕ → InMemoryJobStore
  now_le : ∀ n, now n ≤ now (n + 1)
  last_succ : ∀ n, last (n + 1) =
    match latestReturned (schedule.callAt tz uuid5 (clock n) (now n) (last n) (store n)).1 with
    | some w => some (.naive w)
    | none => last n
  kept : ∀ n id, (schedule.callAt tz uuid5 (clock n) (now n) (last n) (store n)).2.get id ≠ none →
    (store (n + 1)).get id ≠ none

namespace Materializations

variable {schedule : Schedule} {tz : TzData} {uuid5 : String → UUID}
  (m : Materializations schedule tz uuid5) {n k : ℕ} {job job' : Job}

/-- What call `n` does. -/
def call (n : ℕ) : Except PyException (List Job) × InMemoryJobStore :=
  schedule.callAt tz uuid5 (m.clock n) (m.now n) (m.last n) (m.store n)

/-- The jobs that call `n` returns. -/
def returned (n : ℕ) : List Job :=
  match (m.call n).1 with
  | .ok jobs => jobs
  | .error _ => []

theorem call_of_mem (h : job ∈ m.returned n) : ∃ jobs, (m.call n).1 = .ok jobs ∧ job ∈ jobs := by
  unfold returned at h
  split at h
  · rename_i jobs hj
    exact ⟨jobs, hj, h⟩
  · cases h

/-- A returned job is the job of an occurrence, new when it is returned. -/
theorem returned_spec (h : job ∈ m.returned n) :
    (∃ w, job.runAtWall = some w ∧
      job.jobId = Schedule.occurrenceJobId uuid5 schedule.scheduleId w) ∧
      (m.store n).get job.jobId = none ∧ (m.call n).2.get job.jobId = some job := by
  obtain ⟨jobs, hj, hmem⟩ := m.call_of_mem h
  obtain ⟨-, hspec, -⟩ := Schedule.materialize_spec hj
  obtain ⟨⟨w, hw, hid, -⟩, hn, hg⟩ := hspec job hmem
  exact ⟨⟨w, hw, hid⟩, hn, hg⟩

theorem get_ne_none_of_le {id : UUID} (hnk : n ≤ k) (h : (m.store n).get id ≠ none) :
    (m.store k).get id ≠ none := by
  induction k, hnk using Nat.le_induction with
  | base => exact h
  | succ k _ ih =>
    refine m.kept k id ?_
    obtain ⟨j, hj⟩ := Option.ne_none_iff_exists'.mp ih
    rw [Schedule.callAt, Schedule.get_materialize hj]
    exact Option.some_ne_none j

theorem get_ne_none_of_returned (hnk : n < k) (h : job ∈ m.returned n) :
    (m.store k).get job.jobId ≠ none := by
  refine m.get_ne_none_of_le hnk (m.kept n job.jobId ?_)
  have hg : (schedule.callAt tz uuid5 (m.clock n) (m.now n) (m.last n) (m.store n)).2.get
      job.jobId =
      some job := (m.returned_spec h).2.2
  rw [hg]
  exact Option.some_ne_none job

/-- Jobs with the same wall-clock time have the same id. -/
theorem jobId_eq (h : job ∈ m.returned n) (h' : job' ∈ m.returned k)
    (he : job.runAtWall = job'.runAtWall) : job.jobId = job'.jobId := by
  obtain ⟨⟨w, hw, hid⟩, -⟩ := m.returned_spec h
  obtain ⟨⟨w', hw', hid'⟩, -⟩ := m.returned_spec h'
  rw [hw, hw'] at he
  cases he
  rw [hid, hid']

theorem nodup_returned (n : ℕ) : ((m.returned n).map Job.runAtWall).Nodup := by
  have hids : ((m.returned n).map Job.jobId).Nodup := by
    unfold returned
    split
    · rename_i jobs hj
      exact (Schedule.materialize_spec hj).1
    · exact nodup_nil
  refine List.Nodup.map_on (fun job hj job' hj' he => ?_) (hids.of_map _)
  exact inj_on_of_nodup_map hids hj hj' (m.jobId_eq hj hj' he)

/-- **No occurrence is materialized twice**, by one call or by two. -/
theorem nodup_all (n : ℕ) : (((List.range n).flatMap m.returned).map Job.runAtWall).Nodup := by
  induction n with
  | zero => simp
  | succ n ih =>
    rw [range_succ, flatMap_append, map_append, nodup_append]
    refine ⟨ih, by simpa using m.nodup_returned n, ?_⟩
    rintro w hw w' hw' rfl
    obtain ⟨job, hj, rfl⟩ := mem_map.mp hw
    obtain ⟨job', hj', he⟩ := mem_map.mp hw'
    obtain ⟨k, hk, hj⟩ := mem_flatMap.mp hj
    rw [flatMap_singleton] at hj'
    -- its row was there before call `n`
    have hstored := m.get_ne_none_of_returned (mem_range.mp hk) hj
    rw [m.jobId_eq hj hj' he.symm] at hstored
    exact hstored (m.returned_spec hj').2.1

variable {zone : ZoneInfo} {cron : CronSchedule} {occ w : Wall}

/-- The lower bound of call `n`. -/
def lower (zone : ZoneInfo) (n : ℕ) : Option Wall := asNaiveWall zone (m.last n)

/-- The wall-clock time of call `n`. -/
def nowWall (zone : ZoneInfo) (n : ℕ) : Wall := zone.fromUtc (m.now n)

theorem latestReturned_eq_some {jobs : List Job} (h : latestReturned (.ok jobs) = some w) :
    (∃ job ∈ jobs, job.runAtWall = some w) ∧
      ∀ job ∈ jobs, ∀ w', job.runAtWall = some w' → w' ≤ w := by
  obtain ⟨hmem, hmax⟩ := List.max?_eq_some_iff.mp h
  refine ⟨mem_filterMap.mp hmem, fun job hj w' hw' => hmax w' ?_⟩
  exact mem_filterMap.mpr ⟨job, hj, hw'⟩

theorem latestReturned_isSome {jobs : List Job} (hj : job ∈ jobs) (hw : job.runAtWall = some w) :
    ∃ v, latestReturned (.ok jobs) = some v := by
  cases h : latestReturned (.ok jobs) with
  | some v => exact ⟨v, rfl⟩
  | none =>
    have hempty := List.max?_eq_none_iff.mp h
    have hmem : w ∈ jobs.filterMap Job.runAtWall := mem_filterMap.mpr ⟨job, hj, hw⟩
    rw [hempty] at hmem
    cases hmem

theorem lower_succ_of_some (h : latestReturned (m.call n).1 = some w) :
    m.lower zone (n + 1) = some w := by
  have hlast := m.last_succ n
  change m.last (n + 1) = (match latestReturned (m.call n).1 with
    | some w => some (.naive w)
    | none => m.last n) at hlast
  rw [h] at hlast
  rw [lower, hlast]
  rfl

theorem lower_succ_of_none (h : latestReturned (m.call n).1 = none) :
    m.lower zone (n + 1) = m.lower zone n := by
  have hlast := m.last_succ n
  change m.last (n + 1) = (match latestReturned (m.call n).1 with
    | some w => some (.naive w)
    | none => m.last n) at hlast
  rw [h] at hlast
  rw [lower, hlast]
  rfl

/-- An occurrence that some call reaches. -/
structure Due (zone : ZoneInfo) (cron : CronSchedule) (w : Wall) : Prop where
  occurs : cron.Occurs w
  after : ∀ bound ∈ m.lower zone 0, bound < w
  reached : ∃ n, w ≤ m.nowWall zone n

/-- Everything that call `n` looks at can be resolved. -/
def Clear (zone : ZoneInfo) (cron : CronSchedule) (n : ℕ) : Prop :=
  ∀ w, schedule.Looks cron (m.nowWall zone n) (m.lower zone n) w →
    Schedule.Resolvable zone schedule.gapPolicy w

/-- **Nothing in the way** of an occurrence: calls go on at or past it that can resolve what they
look at; a backfill, which may stop half-way, can always; and the rows of the occurrences come from
these calls alone. -/
structure Unobstructed (zone : ZoneInfo) (cron : CronSchedule) (occ : Wall) : Prop where
  enabled : schedule.enabled = true
  zone_eq : tz schedule.timezone = .ok zone
  cron_eq : parseCron schedule.cronExpr = .ok cron
  dense : cron.Dense
  backfill_pos : schedule.catchupPolicy = .backfillAll → 1 ≤ schedule.maxBackfill
  reached : ∀ n, ∃ k ≥ n, occ ≤ m.nowWall zone k ∧ m.Clear zone cron k
  clear : schedule.catchupPolicy = .backfillAll → ∀ n, m.Clear zone cron n
  ids : ∀ w w', m.Due zone cron w → m.Due zone cron w' →
    Schedule.occurrenceJobId uuid5 schedule.scheduleId w =
      Schedule.occurrenceJobId uuid5 schedule.scheduleId w' → w = w'
  fresh : ∀ w, m.Due zone cron w →
    (m.store 0).get (Schedule.occurrenceJobId uuid5 schedule.scheduleId w) = none
  others : ∀ n w, m.Due zone cron w →
    (m.store (n + 1)).get (Schedule.occurrenceJobId uuid5 schedule.scheduleId w) ≠ none →
      (m.call n).2.get (Schedule.occurrenceJobId uuid5 schedule.scheduleId w) ≠ none

variable {m}

/-- A job that is returned is the job of an occurrence that was looked at. -/
theorem Unobstructed.looks (h : m.Unobstructed zone cron occ) (hj : job ∈ m.returned n)
    (hw : job.runAtWall = some w) :
    schedule.Looks cron (m.nowWall zone n) (m.lower zone n) w := by
  obtain ⟨jobs, hjobs, hmem⟩ := m.call_of_mem hj
  obtain ⟨-, hspec, -⟩ := Schedule.materialize_spec hjobs
  obtain ⟨⟨w', hw', -, hlooks⟩, -⟩ := hspec job hmem
  rw [hw] at hw'
  cases hw'
  exact hlooks zone cron h.zone_eq h.cron_eq

theorem returned_eq {jobs : List Job} (h : (m.call n).1 = .ok jobs) : m.returned n = jobs := by
  unfold returned
  rw [h]

/-- The latest of the wall-clock times that a call returned. -/
theorem returned_of_latest (h : latestReturned (m.call n).1 = some w) :
    (∃ job ∈ m.returned n, job.runAtWall = some w) ∧
      ∀ job ∈ m.returned n, ∀ w', job.runAtWall = some w' → w' ≤ w := by
  cases hc : (m.call n).1 with
  | error e =>
    rw [hc] at h
    cases h
  | ok jobs =>
    rw [hc] at h
    rw [returned_eq hc]
    exact latestReturned_eq_some h

theorem latest_of_returned (h : job ∈ m.returned n) :
    ∃ v, latestReturned (m.call n).1 = some v := by
  obtain ⟨jobs, hj, hmem⟩ := m.call_of_mem h
  obtain ⟨⟨w, hw, -⟩, -⟩ := m.returned_spec h
  rw [hj]
  exact latestReturned_isSome hmem hw

/-- The caller has got past an occurrence because a call returned it, or a later one. -/
theorem crossed (hnk : n ≤ k) (hbefore : ∀ bound ∈ m.lower zone n, bound < occ)
    {b : Wall} (hb : m.lower zone k = some b) (hle : occ ≤ b) :
    ∃ j ≥ n, ∃ job ∈ m.returned j, ∃ w, job.runAtWall = some w ∧ occ ≤ w := by
  induction k, hnk using Nat.le_induction generalizing b with
  | base => exact absurd (hbefore b hb) (not_lt.mpr hle)
  | succ k hnk ih =>
    cases hv : latestReturned (m.call k).1 with
    | none => exact ih ((m.lower_succ_of_none hv).symm.trans hb) hle
    | some v =>
      rw [m.lower_succ_of_some hv] at hb
      cases hb
      obtain ⟨⟨job, hj, hw⟩, -⟩ := returned_of_latest hv
      exact ⟨k, hnk, job, hj, b, hw, hle⟩

section

variable (h : m.Unobstructed zone cron occ)
include h

theorem Unobstructed.lt_latest {b v : Wall} (hb : m.lower zone n = some b)
    (hv : latestReturned (m.call n).1 = some v) : b < v := by
  obtain ⟨⟨job, hj, hw⟩, -⟩ := returned_of_latest hv
  have hlooks := h.looks hj hw
  rw [hb] at hlooks
  exact hlooks.after

theorem Unobstructed.lower_mono {b : Wall} (hnk : n ≤ k) (hb : m.lower zone n = some b) :
    ∃ b', m.lower zone k = some b' ∧ b ≤ b' := by
  induction k, hnk using Nat.le_induction with
  | base => exact ⟨b, hb, le_rfl⟩
  | succ k _ ih =>
    obtain ⟨b', hb', hle⟩ := ih
    cases hv : latestReturned (m.call k).1 with
    | none => exact ⟨b', (m.lower_succ_of_none hv).trans hb', hle⟩
    | some v => exact ⟨v, m.lower_succ_of_some hv, hle.trans (h.lt_latest hb' hv).le⟩

theorem Unobstructed.due_of_looks
    (hlooks : schedule.Looks cron (m.nowWall zone n) (m.lower zone n) w) : m.Due zone cron w where
  occurs := hlooks.occurs.1
  after bound hbound := by
    obtain ⟨b', hb', hle⟩ := h.lower_mono (Nat.zero_le n) (Option.mem_def.mp hbound)
    rw [hb'] at hlooks
    exact hle.trans_lt hlooks.after
  reached := ⟨n, hlooks.occurs.2⟩

/-- **The occurrences after the lower bound have no row yet.** -/
theorem Unobstructed.fresh_at (n : ℕ) (hdue : m.Due zone cron w)
    (hafter : ∀ bound ∈ m.lower zone n, bound < w) :
    (m.store n).get (Schedule.occurrenceJobId uuid5 schedule.scheduleId w) = none := by
  induction n generalizing w with
  | zero => exact h.fresh w hdue
  | succ n ih =>
    by_contra hne
    have hcall := h.others n w hdue hne
    -- the bound was lower before the call, so there was no row then
    have hbefore : (m.store n).get (Schedule.occurrenceJobId uuid5 schedule.scheduleId w) =
        none := by
      refine ih hdue fun bound hbound => ?_
      obtain ⟨b', hb', hle⟩ := h.lower_mono (Nat.le_succ n) (Option.mem_def.mp hbound)
      exact hle.trans_lt (hafter b' hb')
    cases hc : (m.call n).1 with
    | ok jobs =>
      obtain ⟨-, -, honly⟩ := Schedule.materialize_spec hc
      obtain ⟨job, hj, hid⟩ := honly _ hbefore hcall
      rw [← returned_eq hc] at hj
      obtain ⟨⟨w', hw', hid'⟩, -⟩ := m.returned_spec hj
      obtain rfl := h.ids w' w (h.due_of_looks (h.looks hj hw')) hdue (hid'.symm.trans hid)
      obtain ⟨v, hv⟩ := latest_of_returned hj
      have hlt := hafter v (m.lower_succ_of_some hv)
      exact absurd ((returned_of_latest hv).2 job hj w' hw') (not_le.mpr hlt)
    | error e =>
      by_cases hp : schedule.catchupPolicy = .backfillAll
      · have hok : ∃ jobs, (m.call n).1 = .ok jobs :=
          Schedule.materialize_isOk h.enabled h.zone_eq h.cron_eq h.dense (h.clear hp n)
        obtain ⟨jobs, hj⟩ := hok
        rw [hc] at hj
        cases hj
      · have hsame : (m.call n).2 = m.store n := Schedule.materialize_error hp hc
        rw [hsame] at hcall
        exact hcall hbefore

/-- A clear call that has reached the occurrence, and is not yet past it, returns a job. -/
theorem Unobstructed.returned_ne_nil (hocc : cron.Occurs occ) (hle : occ ≤ m.nowWall zone n)
    (hclear : m.Clear zone cron n) (hlower : ∀ bound ∈ m.lower zone n, bound < occ) :
    ∃ v, latestReturned (m.call n).1 = some v ∧ (m.lower zone n = none → occ ≤ v) := by
  have hprogress : ∃ jobs w, (m.call n).1 = .ok jobs ∧
      schedule.Looks cron (m.nowWall zone n) (m.lower zone n) w ∧
        ∃ job ∈ jobs, job.runAtWall = some w := by
    refine Schedule.materialize_progress h.enabled h.zone_eq h.cron_eq h.dense h.backfill_pos hocc
      hle hlower hclear fun w hw hnow hafter => h.fresh_at n ?_ hafter
    refine ⟨hw, fun bound hbound => ?_, n, hnow⟩
    obtain ⟨b', hb', hle'⟩ := h.lower_mono (Nat.zero_le n) (Option.mem_def.mp hbound)
    exact hle'.trans_lt (hafter b' hb')
  obtain ⟨jobs, w, hj, hlooks, job, hmem, hw⟩ := hprogress
  rw [← returned_eq hj] at hmem
  obtain ⟨v, hv⟩ := latest_of_returned hmem
  refine ⟨v, hv, fun hnone => ?_⟩
  rw [hnone] at hlooks
  exact (hlooks.2.2 occ hocc hle).trans ((returned_of_latest hv).2 job hmem w hw)

/-- The lower bound gets past the occurrence: every clear call moves it. -/
theorem Unobstructed.progress_from (hocc : cron.Occurs occ) (d : ℕ) {b : Wall}
    (hb : m.lower zone n = some b) (hlt : b < occ) (hd : (occ - b).toNat ≤ d) :
    ∃ k ≥ n, ∃ job ∈ m.returned k, ∃ w, job.runAtWall = some w ∧ occ ≤ w := by
  induction d generalizing n b with
  | zero =>
    unfold Wall at *
    omega
  | succ d ih =>
    obtain ⟨k, hnk, hle, hclear⟩ := h.reached n
    obtain ⟨b', hb', hbb'⟩ := h.lower_mono hnk hb
    have hbefore : ∀ bound ∈ m.lower zone n, bound < occ := by
      rw [hb]
      rintro bound ⟨⟩
      exact hlt
    rcases le_or_gt occ b' with hpast | hpast
    · exact crossed hnk hbefore hb' hpast
    · obtain ⟨v, hv, -⟩ := h.returned_ne_nil hocc hle hclear (by
        rw [hb']
        rintro bound ⟨⟩
        exact hpast)
      have hup := h.lt_latest hb' hv
      rcases le_or_gt occ v with hdone | hshort
      · obtain ⟨⟨job, hj, hw⟩, -⟩ := returned_of_latest hv
        exact ⟨k, hnk, job, hj, v, hw, hdone⟩
      · -- the bound has moved up, and the occurrence is nearer
        obtain ⟨k', hk', hrest⟩ := ih (m.lower_succ_of_some hv) hshort (by
          unfold Wall at *
          omega)
        exact ⟨k', hnk.trans ((Nat.le_succ k).trans hk'), hrest⟩

/-- **An occurrence with nothing in the way is passed**: from any call on, either the caller is past
it already, or a later call materializes it or a later occurrence. -/
theorem Unobstructed.progress (hocc : cron.Occurs occ) (n : ℕ) :
    (∃ b, m.lower zone n = some b ∧ occ ≤ b) ∨
      ∃ k ≥ n, ∃ job ∈ m.returned k, ∃ w, job.runAtWall = some w ∧ occ ≤ w := by
  cases hn : m.lower zone n with
  | some b =>
    rcases le_or_gt occ b with hpast | hlt
    · exact .inl ⟨b, rfl, hpast⟩
    · exact .inr (h.progress_from hocc _ hn hlt le_rfl)
  | none =>
    right
    obtain ⟨k, hnk, hle, hclear⟩ := h.reached n
    cases hk : m.lower zone k with
    | none =>
      obtain ⟨v, hv, hlatest⟩ := h.returned_ne_nil hocc hle hclear (by
        rw [hk]
        rintro bound ⟨⟩)
      obtain ⟨⟨job, hj, hw⟩, -⟩ := returned_of_latest hv
      exact ⟨k, hnk, job, hj, v, hw, hlatest hk⟩
    | some b =>
      rcases le_or_gt occ b with hpast | hlt
      · refine crossed hnk ?_ hk hpast
        rw [hn]
        rintro bound ⟨⟩
      · obtain ⟨j, hj, hrest⟩ := h.progress_from hocc _ hk hlt le_rfl
        exact ⟨j, hnk.trans hj, hrest⟩

end

/-- **A schedule is never doubled, and not stuck where nothing is in the way.** No two returned jobs
have the same wall-clock time and no stored row is written again; and of an occurrence that calls go
on to reach, with nothing in the way, either the caller is past it or a later call materializes it
or a later occurrence. -/
theorem never_doubled_nor_stuck (m : Materializations schedule tz uuid5) :
    (∀ n, (((List.range n).flatMap m.returned).map Job.runAtWall).Nodup) ∧
    (∀ n id job, (m.store n).get id = some job → (m.call n).2.get id = some job) ∧
    ∀ zone cron occ, cron.Occurs occ → m.Unobstructed zone cron occ → ∀ n,
      (∃ b, m.lower zone n = some b ∧ occ ≤ b) ∨
        ∃ k ≥ n, ∃ job ∈ m.returned k, ∃ w, job.runAtWall = some w ∧ occ ≤ w :=
  ⟨m.nodup_all, fun _ _ _ hg => Schedule.get_materialize hg,
    fun _ _ _ hocc h n => h.progress hocc n⟩

/-- What the caller and the store have come to before call `n`, if nothing happens in between. -/
def stateAlone (schedule : Schedule) (tz : TzData) (uuid5 : String → UUID) (now : ℕ → Instant)
    (last : Option Timestamp) (store : InMemoryJobStore) : ℕ → Option Timestamp × InMemoryJobStore
  | 0 => (last, store)
  | n + 1 =>
    let before := stateAlone schedule tz uuid5 now last store n
    let res := schedule.callAt tz uuid5 (now n) (now n) before.1 before.2
    (match latestReturned res.1 with
      | some w => some (.naive w)
      | none => before.1, res.2)

/-- The calls at `now`, with nothing in between. -/
def alone (schedule : Schedule) (tz : TzData) (uuid5 : String → UUID) (now : ℕ → Instant)
    (hnow : ∀ n, now n ≤ now (n + 1)) (last : Option Timestamp) (store : InMemoryJobStore) :
    Materializations schedule tz uuid5 where
  clock := now
  now := now
  last n := (stateAlone schedule tz uuid5 now last store n).1
  store n := (stateAlone schedule tz uuid5 now last store n).2
  now_le := hnow
  last_succ _ := rfl
  kept _ _ h := h

def romeNightly : Schedule where
  scheduleId := 1
  cronExpr := "30 2 * * *"
  timezone := "Europe/Rome"

/-- Its calls at noon (in Rome) on 31 March 2024, after the night of 30 March. -/
def romeNoon : Materializations romeNightly (fun _ => .ok rome)
    (fun _ => 0xfbb116e84ce551b19b3f69551a4ae83b) :=
  alone _ _ _ (fun _ => 63847476000000000) (fun _ => le_rfl)
    (some (.naive 63847362600000000)) .empty

/-- The same schedule, with a policy that fires once and one that skips times in a gap. -/
def romeGap : Schedule :=
  { romeNightly with catchupPolicy := .fireOnce, gapPolicy := .skip }

def romeStuck : Materializations romeGap (fun _ => .ok rome)
    (fun _ => 0xfbb116e84ce551b19b3f69551a4ae83b) :=
  alone _ _ _ (fun _ => 63847562400000000) (fun _ => le_rfl)
    (some (.naive 63847362600000000)) .empty

theorem exists_cron {expr : String} {p : CronSchedule → Bool}
    (h : (parseCron expr).toOption.any p = true) :
    ∃ cron, parseCron expr = .ok cron ∧ p cron = true := by
  cases hc : parseCron expr with
  | error e =>
    rw [hc] at h
    cases h
  | ok cron =>
    rw [hc] at h
    exact ⟨cron, rfl, h⟩

/-- **Stuck in a gap**: the occurrence of 31 March does not exist, every call raises, and the
occurrence of 1 April is never materialized. -/
theorem romeStuck_forever :
    romeGap.enabled = true ∧
    (∃ cron, parseCron romeGap.cronExpr = .ok cron ∧ cron.Occurs 63847535400000000) ∧
    datetimeExists rome 63847535400000000 = true ∧
    ∀ n, 63847535400000000 ≤ romeStuck.nowWall rome n ∧
      romeStuck.lower rome n = some 63847362600000000 ∧ romeStuck.returned n = [] := by
  refine ⟨rfl, ?_, by decide +kernel, ?_⟩
  · have hcron : (parseCron romeGap.cronExpr).toOption.any
        (fun c => decide (c.Occurs 63847535400000000)) = true := by decide +kernel
    obtain ⟨cron, hc, hocc⟩ := exists_cron hcron
    exact ⟨cron, hc, of_decide_eq_true hocc⟩
  · let last : Option Timestamp := some (.naive 63847362600000000)
    let res := romeGap.callAt (fun _ => .ok rome) (fun _ => 0xfbb116e84ce551b19b3f69551a4ae83b)
      63847562400000000 63847562400000000 last .empty
    have hcall : res.1.toOption = none ∧ res.2 = .empty := by decide +kernel
    have hraised : ∃ e, res.1 = .error e := by
      cases he : res.1 with
      | error e => exact ⟨e, rfl⟩
      | ok jobs =>
        rw [he] at hcall
        cases hcall.1
    obtain ⟨e, he⟩ := hraised
    have hstate : ∀ n, stateAlone romeGap (fun _ => .ok rome)
        (fun _ => 0xfbb116e84ce551b19b3f69551a4ae83b)
        (fun _ => 63847562400000000) last .empty n = (last, .empty) := by
      intro n
      induction n with
      | zero => rfl
      | succ n ih =>
        simp only [stateAlone, ih]
        exact Prod.ext (by rw [show romeGap.callAt _ _ _ _ last .empty = res from rfl, he]; rfl)
          hcall.2
    have hnow : rome.fromUtc 63847562400000000 = 63847569600000000 := by decide +kernel
    intro n
    refine ⟨?_, ?_, ?_⟩
    · show 63847535400000000 ≤ rome.fromUtc 63847562400000000
      rw [hnow]
      decide
    · show asNaiveWall rome (stateAlone _ _ _ _ _ _ n).1 = _
      rw [hstate]
      rfl
    · have hres : romeStuck.call n = res := by
        show romeGap.callAt _ _ _ _ (stateAlone _ _ _ _ _ _ n).1 (stateAlone _ _ _ _ _ _ n).2 = _
        rw [hstate]
        rfl
      rw [returned, hres, he]

/-- The night of 31 March, whose occurrence is moved to the end of the gap, is materialized. -/
theorem romeNoon_materialized :
    ∃ n, ∃ job ∈ romeNoon.returned n, ∃ w, job.runAtWall = some w ∧ 63847449000000000 ≤ w := by
  have hcron : (parseCron romeNightly.cronExpr).toOption.any (fun c =>
      decide (c.Occurs 63847449000000000 ∧ c.atOrBefore 63847483200000000 = some 63847449000000000 ∧
        (c.nextAfter 63847362600000000).toOption = some 63847449000000000 ∧
        c.day.values = fullRange 1 31 ∧ c.month.values = fullRange 1 12 ∧
        c.dow.values = fullRange 0 7)) = true := by decide +kernel
  obtain ⟨cron, hc, hfacts⟩ := exists_cron hcron
  obtain ⟨hocc, hlast, hnext, hday, hmonth, hdow⟩ := of_decide_eq_true hfacts
  have hlatest := CronSchedule.atOrBefore_spec hlast
  have hnow : ∀ n, romeNoon.nowWall rome n = 63847483200000000 := by
    have hconst : rome.fromUtc 63847476000000000 = 63847483200000000 := by decide +kernel
    exact fun _ => hconst
  -- up to noon, the night of 31 March is the only occurrence after the one of 30 March
  have hunique : ∀ w, romeNoon.Due rome cron w → w = 63847449000000000 := by
    intro w hw
    obtain ⟨n, hn⟩ := hw.reached
    rw [hnow] at hn
    refine le_antisymm (hlatest.2.2 w hw.occurs hn) ?_
    cases hv : cron.nextAfter 63847362600000000 with
    | error e =>
      rw [hv] at hnext
      cases hnext
    | ok v =>
      rw [hv] at hnext
      cases hnext
      exact (CronSchedule.nextAfter_spec hv).2.2 w hw.occurs (hw.after 63847362600000000 rfl)
  have hclear : ∀ n, romeNoon.Clear rome cron n := by
    intro n w hw
    have hw' : Schedule.Latest cron (romeNoon.nowWall rome n) w := by
      cases hl : romeNoon.lower rome n with
      | none =>
        rw [hl] at hw
        exact hw
      | some bound =>
        rw [hl] at hw
        exact hw.2
    rw [hnow] at hw'
    obtain rfl : w = 63847449000000000 :=
      le_antisymm (hlatest.2.2 w hw'.1 hw'.2.1) (hw'.2.2 _ hocc hlatest.2.1)
    exact .inr (.inl ⟨rfl, 29, by decide, by decide +kernel⟩)
  have hfree : romeNoon.Unobstructed rome cron 63847449000000000 := {
    enabled := rfl
    zone_eq := rfl
    cron_eq := hc
    dense := CronSchedule.dense_of_full hday hmonth hdow
    backfill_pos := by rintro ⟨⟩
    reached := fun n => ⟨n, le_rfl, by rw [hnow]; decide, hclear n⟩
    clear := by rintro ⟨⟩
    ids := fun w w' hw hw' _ => (hunique w hw).trans (hunique w' hw').symm
    fresh := fun _ _ => rfl
    others := fun _ _ _ h => h }
  rcases (never_doubled_nor_stuck romeNoon).2.2 rome cron _ hocc hfree 0 with
    ⟨b, hb, hle⟩ | ⟨k, -, job, hj, hw⟩
  · cases hb
    exact absurd hle (by decide)
  · exact ⟨k, job, hj, hw⟩

end Materializations

end Varco
