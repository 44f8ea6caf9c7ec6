import Varco.Job.Memory
import Varco.Schedule.Cron
import Varco.Schedule.Zone

/-!
# Materializing a schedule

`Schedule` and `ScheduleMaterializer` of `varco_core.schedule`: the occurrences of a schedule that
are due, according to its catch-up policy, and the jobs that `materialize` stores for them. The id
of a job is computed from the schedule and the wall-clock time of the occurrence (`uuid5`), and an
occurrence whose id is stored already is passed over. A call that raises keeps the jobs stored so
far.

The time-zone data are the argument `tz`, what `ZoneInfo(key)` returns or raises; `clock` is the
reading of the clock that becomes `created_at`. The calls of one process for one schedule do not
overlap, by its lock, so a call is one function of the store.
-/

namespace Varco

open List

/-- What `ZoneInfo(key)` returns or raises. -/
abbrev TzData := String → Except PyException ZoneInfo

/-- What to do about missed occurrences. -/
inductive CatchUpPolicy
  | skip
  | fireOnce
  | backfillAll
  deriving DecidableEq

/-- A `datetime`, naive or aware. -/
inductive Timestamp
  | naive (wall : Wall)
  | aware (instant : Instant)
  deriving DecidableEq

/-- A recurring schedule. -/
structure Schedule where
  scheduleId : UUID
  cronExpr : String
  timezone : String
  enabled : Bool := true
  gapPolicy : GapPolicy := .nextValid
  overlapPolicy : OverlapPolicy := .first
  catchupPolicy : CatchUpPolicy := .skip
  maxBackfill : ℤ := 100
  lastMaterializedAt : Option Timestamp := none
  callbackUrl : Option String := none
  deriving DecidableEq

/-! ## The occurrences that are due -/

def asNaiveWall (zone : ZoneInfo) : Option Timestamp → Option Wall
  | none => none
  | some (.aware t) => some (zone.fromUtc t)
  | some (.naive wall) => some wall

/-- The loop of BACKFILL_ALL, for as many occurrences as are missing to the limit. -/
def backfillLoop (cron : CronSchedule) (nowWall : Wall) :
    ℕ → Wall → List Wall → Except PyException (List Wall)
  | 0, _, occurrences => .ok occurrences
  | n + 1, cursor, occurrences =>
    match cron.nextAfter cursor with
    | .error e => .error e
    | .ok nxt =>
      if nowWall < nxt then .ok occurrences
      else backfillLoop cron nowWall n nxt (occurrences ++ [nxt])

namespace Schedule

/-- The occurrences of a parsed expression that are due at a wall-clock time. -/
def dueOccurrences (schedule : Schedule) (cron : CronSchedule) (nowWall : Wall)
    (lowerBound : Option Wall) : Except PyException (List Wall) :=
  match schedule.catchupPolicy with
  | .skip =>
    match cron.atOrBefore nowWall with
    | none => .ok []
    | some latest => if lowerBound.any (latest ≤ ·) then .ok [] else .ok [latest]
  | .fireOnce =>
    let candidate : Except PyException (Option Wall) :=
      match lowerBound with
      | some bound => (cron.nextAfter bound).map some
      | none => .ok (cron.atOrBefore nowWall)
    candidate.map fun c => c.toList.filter (· ≤ nowWall)
  | .backfillAll =>
    let maxTotal := (max schedule.maxBackfill 0).toNat
    match lowerBound with
    | some bound => (backfillLoop cron nowWall maxTotal bound []).map (·.take maxTotal)
    | none =>
      match cron.atOrBefore nowWall with
      | none => .ok []
      | some first =>
        (backfillLoop cron nowWall (maxTotal - 1) first [first]).map (·.take maxTotal)

def computeOccurrences (schedule : Schedule) (tz : TzData) (now : Instant) :
    Except PyException (List Wall) := do
  let cron ← parseCron schedule.cronExpr
  let zone ← tz schedule.timezone
  schedule.dueOccurrences cron (zone.fromUtc now) (asNaiveWall zone schedule.lastMaterializedAt)

/-! ## The jobs -/

/-- `_occurrence_job_id`, for `uuid5` in the namespace of URLs. -/
def occurrenceJobId (uuid5 : String → UUID) (scheduleId : UUID) (wall : Wall) : UUID :=
  uuid5 ("varco:schedule:" ++ scheduleId.str ++ ":" ++ wall.isoformat)

def buildJob (schedule : Schedule) (tz : TzData) (uuid5 : String → UUID) (clock : Instant)
    (wall : Wall) : Except PyException Job := do
  let zone ← tz schedule.timezone
  let resolved ← resolveZoned zone wall 0 schedule.gapPolicy schedule.overlapPolicy
  pure {
    jobId := occurrenceJobId uuid5 schedule.scheduleId wall
    createdAt := clock
    runAt := some (resolved.toUtc zone)
    runAtWall := some wall
    runAtTz := some schedule.timezone
    runAtFold := resolved.fold
    callbackUrl := schedule.callbackUrl }

/-- The loop of `materialize`: an occurrence that is stored already is passed over. -/
def materializeLoop (build : Wall → Except PyException Job) :
    List Wall → InMemoryJobStore → List Job → Except PyException (List Job) × InMemoryJobStore
  | [], store, jobs => (.ok jobs, store)
  | wall :: rest, store, jobs =>
    match build wall with
    | .error e => (.error e, store)
    | .ok job =>
      if (store.get job.jobId).isSome then materializeLoop build rest store jobs
      else materializeLoop build rest (store.save job none).2 (jobs ++ [job])

/-- `ScheduleMaterializer.materialize` -/
def materialize (schedule : Schedule) (tz : TzData) (uuid5 : String → UUID) (clock now : Instant)
    (store : InMemoryJobStore) : Except PyException (List Job) × InMemoryJobStore :=
  if !schedule.enabled then (.ok [], store)
  else
    match schedule.computeOccurrences tz now with
    | .error e => (.error e, store)
    | .ok occurrences =>
      materializeLoop (schedule.buildJob tz uuid5 clock) occurrences store []

/-! ## What a job is built from -/

variable {schedule : Schedule} {tz : TzData} {uuid5 : String → UUID} {clock : Instant} {wall : Wall}
  {job : Job}

/-- **What a job is built from.** -/
theorem buildJob_eq_ok (h : schedule.buildJob tz uuid5 clock wall = .ok job) :
    ∃ zone resolved, tz schedule.timezone = .ok zone ∧
      resolveZoned zone wall 0 schedule.gapPolicy schedule.overlapPolicy = .ok resolved ∧
      job = {
        jobId := occurrenceJobId uuid5 schedule.scheduleId wall
        createdAt := clock
        runAt := some (resolved.toUtc zone)
        runAtWall := some wall
        runAtTz := some schedule.timezone
        runAtFold := resolved.fold
        callbackUrl := schedule.callbackUrl } := by
  unfold buildJob at h
  cases hz : tz schedule.timezone with
  | error e =>
    rw [hz] at h
    cases h
  | ok zone =>
    rw [hz] at h
    change (resolveZoned zone wall 0 schedule.gapPolicy schedule.overlapPolicy >>= _) = _ at h
    cases hr : resolveZoned zone wall 0 schedule.gapPolicy schedule.overlapPolicy with
    | error e =>
      rw [hr] at h
      cases h
    | ok resolved =>
      rw [hr] at h
      cases h
      exact ⟨zone, resolved, rfl, hr, rfl⟩

/-! ## What a call stores -/

section

variable {build : Wall → Except PyException Job} {l : List Wall} {s s' : InMemoryJobStore}
  {acc : List Job} {r : Except PyException (List Job)}

theorem get_materializeLoop {id : UUID} (h : materializeLoop build l s acc = (r, s'))
    (hg : s.get id = some job) : s'.get id = some job := by
  induction l generalizing s acc with
  | nil =>
    cases h
    exact hg
  | cons wall rest ih =>
    unfold materializeLoop at h
    split at h
    · cases h
      exact hg
    · rename_i new hb
      split_ifs at h with hstored
      · exact ih h hg
      · refine ih h ?_
        show (s.put new).get id = some job
        rw [InMemoryJobStore.get_put, if_neg, hg]
        rintro rfl
        exact hstored (by rw [hg]; rfl)

/-- **The jobs a call returns**, besides those it had already: each is the job of an occurrence, and
was not stored before; they have different ids; and no other job is new in the store. -/
theorem materializeLoop_spec {jobs : List Job}
    (h : materializeLoop build l s acc = (.ok jobs, s')) :
    ∃ new, jobs = acc ++ new ∧ (new.map Job.jobId).Nodup ∧
      (∀ j ∈ new, (∃ wall ∈ l, build wall = .ok j) ∧ s.get j.jobId = none ∧
        s'.get j.jobId = some j) ∧
      ∀ id, s.get id = none → s'.get id ≠ none → ∃ j ∈ new, j.jobId = id := by
  induction l generalizing s acc with
  | nil =>
    cases h
    exact ⟨[], by simp, nodup_nil, by simp, fun id hn hs => absurd hn hs⟩
  | cons wall rest ih =>
    unfold materializeLoop at h
    split at h
    · cases h
    · rename_i first hb
      split_ifs at h with hstored
      · obtain ⟨new, he, hnodup, hnew, honly⟩ := ih h
        refine ⟨new, he, hnodup, fun j hj => ?_, honly⟩
        obtain ⟨⟨w, hw, hbw⟩, hrest⟩ := hnew j hj
        exact ⟨⟨w, mem_cons_of_mem wall hw, hbw⟩, hrest⟩
      · obtain ⟨new, he, hnodup, hnew, honly⟩ := ih h
        have hput : ∀ id, (s.save first none).2.get id =
            if id = first.jobId then some first else s.get id := s.get_put first
        have hnone : s.get first.jobId = none := by
          rwa [Bool.not_eq_true, Option.isSome_eq_false_iff, Option.isNone_iff_eq_none] at hstored
        have hfirst : s'.get first.jobId = some first := by
          refine get_materializeLoop h ?_
          rw [hput, if_pos rfl]
        have hne : ∀ j ∈ new, j.jobId ≠ first.jobId := by
          intro j hj hid
          have hj' := (hnew j hj).2.1
          rw [hput, if_pos hid] at hj'
          cases hj'
        refine ⟨first :: new, by rw [he]; simp, ?_, fun j hj => ?_, fun id hn hs => ?_⟩
        · rw [map_cons, nodup_cons]
          refine ⟨fun hm => ?_, hnodup⟩
          obtain ⟨j, hj, hid⟩ := mem_map.mp hm
          exact hne j hj hid
        · rcases mem_cons.mp hj with rfl | hj
          · exact ⟨⟨wall, mem_cons_self, hb⟩, hnone, hfirst⟩
          · obtain ⟨⟨w, hw, hbw⟩, hn, hg⟩ := hnew j hj
            rw [hput, if_neg (hne j hj)] at hn
            exact ⟨⟨w, mem_cons_of_mem wall hw, hbw⟩, hn, hg⟩
        · by_cases hid : id = first.jobId
          · exact ⟨first, mem_cons_self, hid.symm⟩
          · obtain ⟨j, hj, hjid⟩ := honly id (by rw [hput, if_neg hid, hn]) hs
            exact ⟨j, mem_cons_of_mem first hj, hjid⟩

/-- If every job can be built, the call returns; and the first job is returned if it is new. -/
theorem materializeLoop_isOk (hb : ∀ wall ∈ l, ∃ j, build wall = .ok j) :
    ∃ jobs, (materializeLoop build l s acc).1 = .ok jobs ∧ acc ⊆ jobs ∧
      ∀ wall rest j, l = wall :: rest → build wall = .ok j → s.get j.jobId = none → j ∈ jobs := by
  induction l generalizing s acc with
  | nil => exact ⟨acc, rfl, List.Subset.refl acc, by rintro wall rest j ⟨⟩⟩
  | cons wall rest ih =>
    obtain ⟨first, hfirst⟩ := hb wall mem_cons_self
    have hrest : ∀ w ∈ rest, ∃ j, build w = .ok j := fun w hw => hb w (mem_cons_of_mem wall hw)
    unfold materializeLoop
    simp only [hfirst]
    by_cases hstored : (s.get first.jobId).isSome = true
    · obtain ⟨jobs, he, hacc, -⟩ := @ih s acc hrest
      rw [if_pos hstored]
      refine ⟨jobs, he, hacc, ?_⟩
      rintro w rest' j ⟨⟩ hj hn
      rw [hfirst] at hj
      cases hj
      rw [hn] at hstored
      cases hstored
    · obtain ⟨jobs, he, hacc, -⟩ := @ih (s.save first none).2 (acc ++ [first]) hrest
      rw [if_neg hstored]
      refine ⟨jobs, he, fun j hj => hacc (mem_append_left _ hj), ?_⟩
      rintro w rest' j ⟨⟩ hj -
      rw [hfirst] at hj
      cases hj
      exact hacc (mem_append_right _ (mem_singleton_self _))

end

end Schedule

end Varco
