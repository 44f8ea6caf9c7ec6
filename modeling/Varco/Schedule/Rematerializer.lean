import Varco.Job.Fencing
import Varco.Schedule.Materializer

/-!
# The re-materialization of zoned jobs

`ScheduleRematerializer` of `varco_core.job.reschedule`: a sweep reads the pending jobs with a zoned
schedule, recomputes their `run_at` under the current time-zone data and writes back those whose
value changed, fenced on the lease epoch of the copy it read.

The recomputation knows neither the gap policy nor the overlap policy that the job was built with:
`buildJob_asScheduled` says exactly when it comes to the same instant under the same data. The fence
only notices an update that changes the epoch: `SweepSystem` runs the sweep beside any other calls
on the store, and `sweep_keeps_jobs` is that a sweep changes at most `run_at` as long as no other
call updates a job, which the sweep has read and is about to write, at the same epoch.
-/

namespace Varco

open List InMemoryJobStore

def InMemoryJobStore.listPendingZoned (s : InMemoryJobStore) (before : Instant) (limit : ℕ) :
    List Job :=
  ((s.listByStatus .pending (max limit 1000)).filter fun job =>
    job.runAtTz.isSome && job.runAt.any (· < before)).take limit

def recomputedRunAt (tz : TzData) (key : String) (wall : Wall) (fold : ℤ) :
    Except PyException Instant := do
  let zone ← tz key
  let resolved ← resolveZoned zone wall fold .nextValid .first
  pure (resolved.toUtc zone)

/-- `dataclasses.replace(job, run_at=newRunAt)` -/
def Job.withRunAt (job : Job) (newRunAt : Instant) : Job := { job with runAt := some newRunAt }

/-- `_reconcile_one`: whether the job was written. -/
def reconcileOne (tz : TzData) (job : Job) (store : InMemoryJobStore) :
    Except PyException ℕ × InMemoryJobStore :=
  match job.runAtTz, job.runAtWall with
  | some key, some wall =>
    match recomputedRunAt tz key wall job.runAtFold with
    | .error e => (.error e, store)
    | .ok newRunAt =>
      if job.runAt = some newRunAt then (.ok 0, store)
      else
        match store.save (job.withRunAt newRunAt) (some job.leaseEpoch) with
        | (.ok _, store') => (.ok 1, store')
        | (.error e, store') =>
          if e.typeName = "StaleLeaseError" then (.ok 0, store') else (.error e, store')
  | _, _ => (.ok 0, store)

/-- The loop of `sweep_once`. -/
def sweepLoop (tz : TzData) :
    List Job → ℕ → InMemoryJobStore → Except PyException ℕ × InMemoryJobStore
  | [], changed, store => (.ok changed, store)
  | job :: rest, changed, store =>
    match reconcileOne tz job store with
    | (.error e, store') => (.error e, store')
    | (.ok n, store') => sweepLoop tz rest (changed + n) store'

/-- `sweep_once`, if nothing comes between its reads and its writes. -/
def sweepOnce (tz : TzData) (now : Instant) (horizon : Duration) (store : InMemoryJobStore) :
    Except PyException ℕ × InMemoryJobStore :=
  sweepLoop tz (store.listPendingZoned (now + horizon) 100) 0 store

/-! ## Jobs that a sweep leaves alone -/

/-- The value that a sweep would write over the `run_at` of a job. -/
def Job.rewrite? (tz : TzData) (job : Job) : Option Instant :=
  match job.runAtTz, job.runAtWall with
  | some key, some wall =>
    match recomputedRunAt tz key wall job.runAtFold with
    | .error _ => none
    | .ok newRunAt => if job.runAt = some newRunAt then none else some newRunAt
  | _, _ => none

variable {tz : TzData} {job j : Job} {s s' : InMemoryJobStore} {id : UUID} {t r : Instant}

theorem recomputedRunAt_eq {key : String} {zone : ZoneInfo} {wall : Wall} {fold : ℤ}
    (hz : tz key = .ok zone) :
    recomputedRunAt tz key wall fold =
      (resolveZoned zone wall fold .nextValid .first).map (·.toUtc zone) := by
  simp only [recomputedRunAt, hz]
  change (resolveZoned zone wall fold .nextValid .first >>= _) = _
  cases resolveZoned zone wall fold .nextValid .first <;> rfl

theorem rewrite?_eq_some :
    job.rewrite? tz = some t ↔ ∃ key wall, job.runAtTz = some key ∧ job.runAtWall = some wall ∧
      recomputedRunAt tz key wall job.runAtFold = .ok t ∧ job.runAt ≠ some t := by
  unfold Job.rewrite?
  split
  · rename_i key wall hkey hwall
    split
    · rename_i e he
      simp [hkey, hwall, he]
    · rename_i newRunAt hnew
      constructor
      · intro h
        split_ifs at h with hrun
        cases h
        exact ⟨key, wall, hkey, hwall, hnew, hrun⟩
      · rintro ⟨key', wall', hkey', hwall', hnew', hrun⟩
        rw [hkey] at hkey'
        rw [hwall] at hwall'
        cases hkey'
        cases hwall'
        rw [hnew] at hnew'
        cases hnew'
        rw [if_neg hrun]
  · rename_i hnone
    constructor
    · intro h
      cases h
    · rintro ⟨key, wall, hkey, hwall, -⟩
      exact absurd hwall (hnone key wall hkey)

theorem reconcileOne_of_none (h : job.rewrite? tz = none) : (reconcileOne tz job s).2 = s := by
  unfold reconcileOne
  split
  · rename_i key wall hkey hwall
    split
    · rfl
    · rename_i newRunAt hnew
      split_ifs with hrun
      · rfl
      · have hsome := rewrite?_eq_some.mpr ⟨key, wall, hkey, hwall, hnew, hrun⟩
        rw [h] at hsome
        cases hsome
  · rfl

/-- **What a sweep writes**: nothing, or the job with another `run_at`, over a job at the same
epoch. -/
theorem reconcileOne_of_some (h : job.rewrite? tz = some t) :
    (reconcileOne tz job s).2 = s ∨ ∃ current, s.get job.jobId = some current ∧
      current.leaseEpoch = job.leaseEpoch ∧
        (reconcileOne tz job s).2 = s.put (job.withRunAt t) := by
  obtain ⟨key, wall, hkey, hwall, hnew, hrun⟩ := rewrite?_eq_some.mp h
  simp only [reconcileOne, hkey, hwall, hnew, if_neg hrun]
  cases hs : s.save (job.withRunAt t) (some job.leaseEpoch) with
  | mk res s' =>
    cases res with
    | error e =>
      obtain rfl := save_error hs
      left
      dsimp only
      split_ifs <;> rfl
    | ok u =>
      obtain ⟨current, hg, he, rfl⟩ := save_some_ok.mp hs
      exact .inr ⟨current, hg, he, rfl⟩

/-! ## Jobs as they were built -/

/-- **The recomputation of `run_at`** comes to the instant that a job was built with, or to none,
exactly if the policies are plain at its wall-clock time. -/
theorem rewrite?_of_buildJob {schedule : Schedule} {uuid5 : String → UUID} {clock : Instant}
    {wall : Wall} {zone : ZoneInfo} (hz : tz schedule.timezone = .ok zone)
    (h : schedule.buildJob tz uuid5 clock wall = .ok job) :
    job.rewrite? tz = none ↔ PlainAt zone schedule.gapPolicy schedule.overlapPolicy wall := by
  obtain ⟨zone', resolved, hz', hr, rfl⟩ := Schedule.buildJob_eq_ok h
  rw [hz] at hz'
  cases hz'
  rw [← resolveZoned_again hr, Option.eq_none_iff_forall_ne_some]
  constructor
  · intro hnone t' ht'
    by_contra hne
    refine hnone (t'.toUtc zone)
      (rewrite?_eq_some.mpr ⟨schedule.timezone, wall, rfl, rfl, ?_, fun he => hne ?_⟩)
    · rw [recomputedRunAt_eq hz, ht']
      rfl
    · exact (Option.some.inj he).symm
  · intro hsame t ht
    obtain ⟨key, wall', hkey, hwall, hnew, hrun⟩ := rewrite?_eq_some.mp ht
    cases hkey
    cases hwall
    rw [recomputedRunAt_eq hz] at hnew
    obtain ⟨t', ht', rfl⟩ := exists_of_map_ok hnew
    exact hrun (congrArg some (hsame t' ht').symm)

/-! ## One sweep on its own -/

theorem get_reconcileOne_of_ne (h : id ≠ job.jobId) :
    (reconcileOne tz job s).2.get id = s.get id := by
  cases hw : job.rewrite? tz with
  | none => rw [reconcileOne_of_none hw]
  | some t =>
    rcases reconcileOne_of_some (s := s) hw with he | ⟨current, -, -, he⟩
    · rw [he]
    · rw [he, get_put]
      exact if_neg h

/-- A loop over jobs none of which it would write under `id` leaves the job of `id` alone. -/
theorem get_sweepLoop {l : List Job} {n : ℕ}
    (h : ∀ j ∈ l, j.jobId = id → j.rewrite? tz = none) :
    (sweepLoop tz l n s).2.get id = s.get id := by
  induction l generalizing n s with
  | nil => rfl
  | cons j rest ih =>
    have hone : (reconcileOne tz j s).2.get id = s.get id := by
      by_cases hid : j.jobId = id
      · rw [reconcileOne_of_none (h j mem_cons_self hid)]
      · exact get_reconcileOne_of_ne (Ne.symm hid)
    unfold sweepLoop
    cases hr : reconcileOne tz j s with
    | mk res s' =>
      rw [hr] at hone
      cases res with
      | error e => exact hone
      | ok m => exact (ih fun j' hj' => h j' (mem_cons_of_mem j hj')).trans hone

theorem InMemoryJobStore.mem_listByStatus {status : JobStatus} {limit : ℤ}
    (h : job ∈ s.listByStatus status limit) : s.get job.jobId = some job := by
  obtain ⟨l, hl, he⟩ := listLoop_sublist status limit s.jobs.values []
  rw [listByStatus, he, nil_append] at h
  exact mem_values.mp (hl.mem h)

theorem InMemoryJobStore.mem_listPendingZoned {before : Instant} {limit : ℕ}
    (h : job ∈ s.listPendingZoned before limit) : s.get job.jobId = some job :=
  mem_listByStatus (mem_filter.mp (mem_of_mem_take h)).1

theorem InMemoryJobStore.nodup_listPendingZoned (s : InMemoryJobStore) (before : Instant)
    (limit : ℕ) : ((s.listPendingZoned before limit).map Job.jobId).Nodup := by
  refine (s.nodup_jobId_listByStatus .pending (max limit 1000)).sublist (List.Sublist.map _ ?_)
  exact (take_sublist ..).trans filter_sublist

/-- A sweep leaves a stored job alone if it has no other value for it. -/
theorem get_sweepOnce {now : Instant} {horizon : Duration} (hg : s.get id = some job)
    (h : job.rewrite? tz = none) : (sweepOnce tz now horizon s).2.get id = some job := by
  rw [sweepOnce, get_sweepLoop, hg]
  intro j hj hid
  have hstored := mem_listPendingZoned hj
  rw [hid, hg] at hstored
  cases hstored
  exact h

/-- Alone in the store, a pending job that has another value is written. -/
theorem get_sweepOnce_alone (hp : job.status = .pending) (hr : job.runAt = some r)
    (h : job.rewrite? tz = some t) :
    (sweepOnce tz r 1 (empty.put job)).2.get job.jobId =
      some (job.withRunAt t) := by
  obtain ⟨key, wall, hkey, hwall, hnew, hrun⟩ := rewrite?_eq_some.mp h
  have hlist : (empty.put job).listPendingZoned (r + 1) 100 = [job] := by
    have hvalues : (empty.put job).jobs.values = [job] := rfl
    simp [listPendingZoned, listByStatus, hvalues,
      listLoop, hp, hkey, hr]
  have hsave : (empty.put job).save (job.withRunAt t) (some job.leaseEpoch) =
      (.ok (), (empty.put job).put (job.withRunAt t)) :=
    save_some_ok.mpr
      ⟨job, get_put_self _ job, rfl, rfl⟩
  have hone : reconcileOne tz job (empty.put job) =
      (.ok 1, (empty.put job).put (job.withRunAt t)) := by
    simp only [reconcileOne, hkey, hwall, hnew, if_neg hrun, hsave]
  simp only [sweepOnce, hlist, sweepLoop, hone]
  exact get_put_self _ (job.withRunAt t)

/-! ## A sweep beside other clients -/

/-- Two jobs that differ in `run_at` only. -/
def Job.EqUpToRunAt (job job' : Job) : Prop := job.withRunAt 0 = job'.withRunAt 0

/-- The store, and the candidates that a sweep under way has not yet looked at. -/
structure SweepSystem where
  store : InMemoryJobStore
  sweep : Option (List Job)

/-- What happens: a sweep reads its candidates, looks at the next one or ends; or another client
calls the store. -/
inductive SweepAction
  | read (now : Instant)
  | reconcile
  | stop
  | other (e : InMemoryJobStore.Event)

/-- One step. The computation of `_reconcile_one` is local, so it takes place when its write does;
an exception ends the sweep, and so does a cancellation. -/
inductive SweepStep (tz : TzData) (horizon : Duration) :
    SweepSystem → SweepAction → SweepSystem → Prop
  | read {s : InMemoryJobStore} {now : Instant} :
      SweepStep tz horizon ⟨s, none⟩ (.read now) ⟨s, some (s.listPendingZoned (now + horizon) 100)⟩
  | reconcile {s s' : InMemoryJobStore} {job : Job} {rest : List Job} {n : ℕ} :
      reconcileOne tz job s = (.ok n, s') →
      SweepStep tz horizon ⟨s, some (job :: rest)⟩ .reconcile ⟨s', some rest⟩
  | raised {s s' : InMemoryJobStore} {job : Job} {rest : List Job} {e : PyException} :
      reconcileOne tz job s = (.error e, s') →
      SweepStep tz horizon ⟨s, some (job :: rest)⟩ .reconcile ⟨s', none⟩
  | stop {s : InMemoryJobStore} {rest : List Job} :
      SweepStep tz horizon ⟨s, some rest⟩ .stop ⟨s, none⟩
  | other {s s' : InMemoryJobStore} {sweep : Option (List Job)} {e : InMemoryJobStore.Event} :
      InMemoryJobStore.Step s e s' → SweepStep tz horizon ⟨s, sweep⟩ (.other e) ⟨s', sweep⟩

/-- A job that a sweep is about to write is not updated behind its back: it is as the sweep read it
but for `run_at`, or the fence will notice. -/
def Noticed (job : Job) (stored : Option Job) : Prop :=
  ∀ current, stored = some current →
    current.leaseEpoch ≠ job.leaseEpoch ∨ current.EqUpToRunAt job

/-- Another call either does not touch the jobs that the sweep is about to write, or is noticed. -/
def FencedCall (tz : TzData) (t : SweepSystem) : SweepAction → Prop
  | .other e => ∀ rest, t.sweep = some rest → ∀ job ∈ rest, (job.rewrite? tz).isSome →
      (t.store.exec e.clock e.call).2.get job.jobId = t.store.get job.jobId ∨
        Noticed job ((t.store.exec e.clock e.call).2.get job.jobId)
  | _ => True

/-- The candidates of a sweep have different ids, and those that it is about to write are noticed.
-/
def SweepInv (tz : TzData) (t : SweepSystem) : Prop :=
  ∀ rest, t.sweep = some rest → (rest.map Job.jobId).Nodup ∧
    ∀ job ∈ rest, (job.rewrite? tz).isSome → Noticed job (t.store.get job.jobId)

variable {horizon : Duration} {x x' : SweepSystem} {a : SweepAction}

theorem sweepInv_of_step (h : SweepStep tz horizon x a x') (hok : FencedCall tz x a)
    (hinv : SweepInv tz x) : SweepInv tz x' := by
  cases h with
  | read =>
    rintro rest ⟨⟩
    refine ⟨nodup_listPendingZoned .., fun job hj _ current hc => ?_⟩
    rw [mem_listPendingZoned hj] at hc
    cases hc
    exact .inr rfl
  | @reconcile s s' j rest n hr =>
    rintro rest ⟨⟩
    obtain ⟨hnodup, hnoticed⟩ := hinv _ rfl
    rw [map_cons, nodup_cons] at hnodup
    refine ⟨hnodup.2, fun job hj hw => ?_⟩
    have hne : job.jobId ≠ j.jobId := fun he => hnodup.1 (he ▸ mem_map_of_mem hj)
    have hframe : (reconcileOne tz j s).2.get job.jobId = s.get job.jobId :=
      get_reconcileOne_of_ne hne
    rw [hr] at hframe
    rw [hframe]
    exact hnoticed job (mem_cons_of_mem _ hj) hw
  | raised => rintro rest ⟨⟩
  | stop => rintro rest ⟨⟩
  | other hs =>
    intro rest hrest
    obtain ⟨hnodup, hnoticed⟩ := hinv rest hrest
    refine ⟨hnodup, fun job hj hw => ?_⟩
    have hok := hok rest hrest job hj hw
    rw [hs] at hok
    rcases hok with he | hn
    · rw [he]
      exact hnoticed job hj hw
    · exact hn

/-- The fields from which `run_at` is computed. -/
theorem Job.EqUpToRunAt.schedule {job' : Job} (h : job.EqUpToRunAt job') :
    job.runAtTz = job'.runAtTz ∧ job.runAtWall = job'.runAtWall ∧
      job.runAtFold = job'.runAtFold := by
  have htz : (job.withRunAt 0).runAtTz = (job'.withRunAt 0).runAtTz := congrArg Job.runAtTz h
  have hwall : (job.withRunAt 0).runAtWall = (job'.withRunAt 0).runAtWall :=
    congrArg Job.runAtWall h
  have hfold : (job.withRunAt 0).runAtFold = (job'.withRunAt 0).runAtFold :=
    congrArg Job.runAtFold h
  exact ⟨htz, hwall, hfold⟩

theorem Job.EqUpToRunAt.withRunAt {job' : Job} (h : job.EqUpToRunAt job') (t : Instant) :
    job.withRunAt t = job'.withRunAt t := by
  have ht : ∀ j : Job, j.withRunAt t = (j.withRunAt 0).withRunAt t := fun _ => rfl
  rw [ht job, ht job', h]

theorem Job.withRunAt_of_eq (h : job.runAt = some t) : job.withRunAt t = job := by
  cases job
  cases h
  rfl

/-- What a sweep does to the job of an id: nothing, or it writes the value it has computed for the
stored job into its `run_at`. -/
def Reconciled (tz : TzData) (stored stored' : Option Job) : Prop :=
  stored' = stored ∨ ∃ current newRunAt, stored = some current ∧
    current.rewrite? tz = some newRunAt ∧ stored' = some (current.withRunAt newRunAt)

/-- **A candidate that is noticed** is reconciled. -/
theorem reconciled_of_noticed
    (hn : (job.rewrite? tz).isSome → Noticed job (s.get job.jobId)) (id : UUID) :
    Reconciled tz (s.get id) ((reconcileOne tz job s).2.get id) := by
  by_cases hid : id = job.jobId
  · subst hid
    cases hw : job.rewrite? tz with
    | none =>
      rw [reconcileOne_of_none hw]
      exact .inl rfl
    | some t =>
      rcases reconcileOne_of_some (s := s) hw with he | ⟨current, hg, hepoch, he⟩
      · rw [he]
        exact .inl rfl
      · -- the write went through, so the stored job is the copy but for `run_at`
        have heq := (hn (by rw [hw]; rfl) current hg).resolve_left (not_not_intro hepoch)
        have hput : (s.put (job.withRunAt t)).get job.jobId = some (current.withRunAt t) := by
          rw [heq.withRunAt t]
          exact get_put_self s (job.withRunAt t)
        rw [he, hput, hg]
        by_cases hrun : current.runAt = some t
        · rw [Job.withRunAt_of_eq hrun]
          exact .inl rfl
        · obtain ⟨key, wall, hkey, hwall, hnew, -⟩ := rewrite?_eq_some.mp hw
          obtain ⟨htz, hwl, hfold⟩ := heq.schedule
          refine .inr ⟨current, t, rfl, rewrite?_eq_some.mpr ⟨key, wall, ?_, ?_, ?_, hrun⟩, rfl⟩
          · rw [htz, hkey]
          · rw [hwl, hwall]
          · rw [hfold, hnew]
  · exact .inl (get_reconcileOne_of_ne hid)

def SweepAction.isSweep : SweepAction → Bool
  | .other _ => false
  | _ => true

/-- **One step of a sweep.** -/
theorem reconciled_of_step (h : SweepStep tz horizon x a x') (ha : a.isSweep = true)
    (hinv : SweepInv tz x) (id : UUID) : Reconciled tz (x.store.get id) (x'.store.get id) := by
  cases h with
  | read => exact .inl rfl
  | @reconcile s s' j rest n hr =>
    have hone := reconciled_of_noticed ((hinv _ rfl).2 j mem_cons_self) id
    rwa [hr] at hone
  | @raised s s' j rest e hr =>
    have hone := reconciled_of_noticed ((hinv _ rfl).2 j mem_cons_self) id
    rwa [hr] at hone
  | stop => exact .inl rfl
  | other => cases ha

/-- The job has the schedule that `built` was built with. -/
def Job.ScheduledAs (job built : Job) : Prop :=
  job.runAt = built.runAt ∧ job.runAtTz = built.runAtTz ∧ job.runAtWall = built.runAtWall ∧
    job.runAtFold = built.runAtFold

theorem rewrite?_of_scheduledAs {built : Job} (h : job.ScheduledAs built) :
    job.rewrite? tz = built.rewrite? tz := by
  obtain ⟨hrun, htz, hwall, hfold⟩ := h
  simp only [Job.rewrite?, hrun, htz, hwall, hfold]

/-- A job that was not resolved plainly is rewritten by a sweep that finds it alone. -/
theorem exists_sweepOnce_runAt_ne {schedule : Schedule} {uuid5 : String → UUID} {clock : Instant}
    {wall : Wall} (h : schedule.buildJob tz uuid5 clock wall = .ok job)
    (hw : job.rewrite? tz = some t) :
    ∃ now store, store.get job.jobId = some job ∧
      ((sweepOnce tz now 1 store).2.get job.jobId).bind Job.runAt ≠ job.runAt := by
  obtain ⟨zone, resolved, -, -, he⟩ := Schedule.buildJob_eq_ok h
  obtain ⟨key, wall, -, -, -, hrun⟩ := rewrite?_eq_some.mp hw
  refine ⟨resolved.toUtc zone, _, get_put_self .empty job, ?_⟩
  rw [get_sweepOnce_alone (by rw [he]) (by rw [he]) hw]
  exact Ne.symm hrun

/-- **What re-materialization disturbs.** Under the data that a job was built with, a sweep leaves
its `run_at` alone in every store exactly if the policies of its schedule are plain at its
wall-clock time. Beside any other calls that are noticed by the fence, a step of a sweep changes at
most the `run_at` of a job, to the value recomputed for the job that is stored; and it leaves alone
every job that still has a schedule that was resolved plainly. -/
theorem sweep_disturbs_iff (tz : TzData) :
    (∀ (schedule : Schedule) (uuid5 : String → UUID) (clock : Instant) (wall : Wall)
      (zone : ZoneInfo) (job : Job), tz schedule.timezone = .ok zone →
      schedule.buildJob tz uuid5 clock wall = .ok job →
      ((∀ now horizon store, store.get job.jobId = some job →
          ((sweepOnce tz now horizon store).2.get job.jobId).bind Job.runAt = job.runAt) ↔
        PlainAt zone schedule.gapPolicy schedule.overlapPolicy wall)) ∧
    (∀ horizon s l x a x', Guarded (SweepStep tz horizon) (fun _ => FencedCall tz) ⟨s, none⟩ l x →
      SweepStep tz horizon x a x' → a.isSweep = true → ∀ id,
      Reconciled tz (x.store.get id) (x'.store.get id) ∧
        ∀ (schedule : Schedule) (uuid5 : String → UUID) (clock : Instant) (wall : Wall)
          (zone : ZoneInfo) (built current : Job), tz schedule.timezone = .ok zone →
          schedule.buildJob tz uuid5 clock wall = .ok built →
          PlainAt zone schedule.gapPolicy schedule.overlapPolicy wall →
          current.ScheduledAs built → x.store.get id = some current →
          x'.store.get id = some current) := by
  refine ⟨fun schedule uuid5 clock wall zone job hz hb => ?_, ?_⟩
  · rw [← rewrite?_of_buildJob hz hb]
    constructor
    · intro hkeep
      by_contra hne
      obtain ⟨t, ht⟩ := Option.ne_none_iff_exists'.mp hne
      obtain ⟨now, store, hg, hrun⟩ := exists_sweepOnce_runAt_ne hb ht
      exact hrun (hkeep now 1 store hg)
    · intro hnone now horizon store hg
      rw [get_sweepOnce hg hnone]
      rfl
  · intro horizon s l x a x' hrun hstep ha id
    have hinv : SweepInv tz x := by
      refine hrun.invariant (I := fun _ x => SweepInv tz x) (by rintro rest ⟨⟩) ?_
      intro l t b t' _ hok hst hinv
      exact sweepInv_of_step hst hok hinv
    have hrec := reconciled_of_step hstep ha hinv id
    refine ⟨hrec, fun schedule uuid5 clock wall zone built current hz hb hplain hsame hg => ?_⟩
    rcases hrec with he | ⟨current', newRunAt, hg', hw, -⟩
    · rw [he, hg]
    · rw [hg] at hg'
      cases hg'
      rw [rewrite?_of_scheduledAs hsame, (rewrite?_of_buildJob hz hb).mpr hplain] at hw
      cases hw

def romeLast : Schedule where
  scheduleId := 1
  cronExpr := "30 2 * * *"
  timezone := "Europe/Rome"
  overlapPolicy := .last

def romeJob : Job where
  jobId := 0x73b2f3029c615527b3f33b81b4118417
  runAt := some 63865589400000000
  runAtWall := some 63865593000000000
  runAtTz := some "Europe/Rome"
  runAtFold := 1

/-- A sweep that finds the job alone in the store reads it. -/
theorem romeJob_read :
    SweepStep (fun _ => .ok rome) 1 ⟨.put .empty romeJob, none⟩ (.read 63865589400000000)
      ⟨.put .empty romeJob, some [romeJob]⟩ := by
  have hread : (put .empty romeJob).listPendingZoned (63865589400000000 + 1) 100 =
      [romeJob] := by decide +kernel
  rw [← hread]
  exact .read

/-- The sweep moves the job an hour forward; and having read it, the sweep puts it back to PENDING
after a runner has claimed it without a lease. -/
theorem sweep_disturbs_romeJob :
    romeLast.buildJob (fun _ => .ok rome) (fun _ => romeJob.jobId) 0 63865593000000000 =
      .ok romeJob ∧
    ((sweepOnce (fun _ => .ok rome) 63865589400000000 1 (.put .empty romeJob)).2.get
      romeJob.jobId).bind Job.runAt = some 63865585800000000 ∧
    ∃ x x', Run (SweepStep (fun _ => .ok rome) 1) ⟨.put .empty romeJob, none⟩
        [.read 63865589400000000, .other ⟨63865589400000000, .tryClaim romeJob.jobId none none,
          some (romeJob.claimed none none 63865589400000000)⟩] x ∧
      SweepStep (fun _ => .ok rome) 1 x .reconcile x' ∧
      (x.store.get romeJob.jobId).map Job.status = some .running ∧
      (x'.store.get romeJob.jobId).map Job.status = some .pending := by
  refine ⟨by decide +kernel, by decide +kernel, ?_⟩
  let claimed : InMemoryJobStore :=
    .put (.put .empty romeJob) (romeJob.claimed none none 63865589400000000)
  refine ⟨⟨claimed, some [romeJob]⟩,
    ⟨claimed.put (romeJob.withRunAt 63865585800000000), some []⟩,
    .cons romeJob_read (.single (.other ?_)), ?_, by decide +kernel, by decide +kernel⟩
  · show (put .empty romeJob).tryClaim romeJob.jobId none none 63865589400000000 =
      (some (romeJob.claimed none none 63865589400000000), claimed)
    exact tryClaim_some.mpr
      ⟨romeJob, get_put_self _ romeJob, rfl, by decide +kernel, rfl, rfl⟩
  · exact SweepStep.reconcile (show reconcileOne (fun _ => .ok rome) romeJob claimed =
      (.ok 1, claimed.put (romeJob.withRunAt 63865585800000000)) by decide +kernel)

/-- Asked for the first time, the job stays as it is in every sweep; and a sweep that nothing
interrupts writes the job for the second time as computed. -/
theorem sweep_disturbs_iff_rome :
    (∀ now horizon (store : InMemoryJobStore),
      store.get romeJob.jobId =
        some { romeJob with runAt := some 63865585800000000, runAtFold := 0 } →
      ((sweepOnce (fun _ => .ok rome) now horizon store).2.get romeJob.jobId).bind Job.runAt =
        some 63865585800000000) ∧
    Reconciled (fun _ => .ok rome) (some romeJob)
      ((reconcileOne (fun _ => .ok rome) romeJob (.put .empty romeJob)).2.get romeJob.jobId) := by
  constructor
  · intro now horizon store hg
    refine ((sweep_disturbs_iff fun _ => .ok rome).1 { romeLast with overlapPolicy := .first }
      (fun _ => romeJob.jobId) 0 63865593000000000 rome
      { romeJob with runAt := some 63865585800000000, runAtFold := 0 } rfl
      (by decide +kernel)).mpr ?_ now horizon store hg
    constructor
    · rintro ⟨-, -, h⟩
      cases h
    · rintro ⟨h, -⟩
      exact absurd h (by decide +kernel)
  · have hrun : Guarded (SweepStep (fun _ => .ok rome) 1) (fun _ => FencedCall fun _ => .ok rome)
        ⟨.put .empty romeJob, none⟩ [.read 63865589400000000]
        ⟨.put .empty romeJob, some [romeJob]⟩ :=
      .snoc (l := []) .nil trivial romeJob_read
    exact ((sweep_disturbs_iff fun _ => .ok rome).2 1 _ _ _ .reconcile
      ⟨(reconcileOne (fun _ => .ok rome) romeJob (.put .empty romeJob)).2, some []⟩ hrun
      (.reconcile (n := 1) (by decide +kernel)) rfl romeJob.jobId).1

end Varco
