import Varco.Job.Asyncio

/-!
# The job runner and the job poller

`JobRunner` of `varco_fastapi.job.runner` and `JobPoller` of `varco_fastapi.job.poller`, as programs
over the commands of `Varco.Job.Asyncio`. `_run_job` and `_run_claimed_job` end in the same `try`
statement; it is `runCoro` here. The variable `job` of that statement is reassigned to the completed
job before it is saved, so what is raised from there on is handled with the completed job.

Tracing spans and log messages are left out: neither reads or writes what is modelled.
-/

namespace Varco

abbrev Py (α : Type) := ExceptT Exc (Prog Cmd Cmd.Res) α

namespace Py

def call (c : Cmd) : Py c.Res := Prog.call c

def await {α : Type} (c : Cmd) (g : c.Res → Except Exc α) : Py α := Prog.await c g

/-- `datetime.now(UTC)`. -/
def now : Py Instant := call .now

def store (c : InMemoryJobStore.Call) : Py c.Res := await (.store c) id

def ofExcept {α : Type} : Except PyException α → Py α
  | .ok a => pure a
  | .error e => throw (.error e)

/-- `await self._store.save(job)`. -/
def save (job : Job) : Py Unit := do
  let r ← store (.save job none)
  ofExcept r

/-- What gets out of `try: ... except Exception: log`: only a cancellation. -/
def swallowed : Except Exc Unit → Except Exc Unit
  | .error .cancelled => .error .cancelled
  | _ => .ok ()

/-- What a `try` body does, with what it raised as a value. -/
def attempt {α : Type} (p : Py α) : Py (Except Exc α) := Prog.attempt p

/-! ### Rules

One for each of the primitives, in the form in which a proof goes through a program: what the
command needs, and what is left for every answer. -/

variable {α β : Type} {Φ : List (Entry Choice Cmd Cmd.Res) → Cmd → Prop}
  {log : List (Entry Choice Cmd Cmd.Res)}

/-- `Spec Φ Ψ p log`: after the log `log`, every command of `p` satisfies `Φ` and every way in which
`p` ends satisfies `Ψ`, for the answers that the world gives. -/
def Spec (Φ : List (Entry Choice Cmd Cmd.Res) → Cmd → Prop)
    (Ψ : List (Entry Choice Cmd Cmd.Res) → Except Exc α → Prop) (p : Py α)
    (log : List (Entry Choice Cmd Cmd.Res)) : Prop :=
  Prog.Local (fun _ c r => c.Answer r) Φ Ψ p.run log

variable {Ψ : List (Entry Choice Cmd Cmd.Res) → Except Exc α → Prop}
  {Ψ' : List (Entry Choice Cmd Cmd.Res) → Except Exc β → Prop}

theorem spec_pure {a : α} (h : Ψ log (.ok a)) : Spec Φ Ψ (pure a) log := .pure_ok h

theorem spec_throw {e : Exc} (h : Ψ log (.error e)) : Spec Φ Ψ (throw e) log := .throw h

theorem spec_bind {p : Py α} {f : α → Py β}
    (h : Spec Φ (fun l r => match r with
      | .ok a => Spec Φ Ψ' (f a) l
      | .error e => Ψ' l (.error e)) p log) : Spec Φ Ψ' (p >>= f) log := by
  refine Prog.Local.bindExcept (Prog.Local.mono h fun l r hr => ?_)
  cases r with
  | ok a => exact hr
  | error e => exact hr

theorem spec_mono {Θ : List (Entry Choice Cmd Cmd.Res) → Except Exc α → Prop} {p : Py α}
    (h : Spec Φ Θ p log) (hΨ : ∀ l r, Θ l r → Ψ l r) : Spec Φ Ψ p log :=
  Prog.Local.mono h hΨ

theorem spec_call {c : Cmd} {f : c.Res → Py β} (hΦ : Φ log c)
    (h : ∀ x r, Spec Φ Ψ' (f r) (log ++ [⟨x, c, r⟩])) : Spec Φ Ψ' (call c >>= f) log :=
  Prog.Local.call hΦ fun x r _ => h x r

theorem spec_now {f : Instant → Py β} (hΦ : Φ log .now)
    (h : ∀ x t, Spec Φ Ψ' (f t) (log ++ [⟨x, .now, t⟩])) : Spec Φ Ψ' (now >>= f) log :=
  spec_call hΦ h

theorem spec_await {c : Cmd} {g : c.Res → Except Exc α} (hΦ : Φ log c)
    (h : ∀ x r, c.Answer r → Ψ (log ++ [⟨x, c, r⟩]) (g r)) : Spec Φ Ψ (await c g) log :=
  Prog.Local.await hΦ h

theorem spec_store {c : InMemoryJobStore.Call} {f : c.Res → Py β} (hΦ : Φ log (.store c))
    (hok : ∀ x r, Cmd.Answer (.store c) (.ok r) →
      Spec Φ Ψ' (f r) (log ++ [⟨x, .store c, .ok r⟩]))
    (herr : ∀ x e, Ψ' (log ++ [⟨x, .store c, .error e⟩]) (.error e)) :
    Spec Φ Ψ' (store c >>= f) log := by
  apply Prog.Local.bindAwait hΦ
  · intro x r a hr hg
    obtain rfl : r = .ok a := hg
    exact hok x a hr
  · intro x r e hg
    obtain rfl : r = .error e := hg
    exact herr x e

theorem spec_ofExcept {r : Except PyException α} {f : α → Py β}
    (hok : ∀ a, r = .ok a → Spec Φ Ψ' (f a) log)
    (herr : ∀ e, r = .error e → Ψ' log (.error (.error e))) :
    Spec Φ Ψ' (ofExcept r >>= f) log := by
  cases r with
  | ok a => exact hok a rfl
  | error e => exact herr e rfl

theorem spec_save {job : Job} (hΦ : Φ log (.store (.save job none)))
    {Ψ : List (Entry Choice Cmd Cmd.Res) → Except Exc Unit → Prop}
    (hok : ∀ x, Ψ (log ++ [⟨x, .store (.save job none), .ok (.ok ())⟩]) (.ok ()))
    (herr : ∀ x r e, Ψ (log ++ [⟨x, .store (.save job none), r⟩]) (.error e)) :
    Spec Φ Ψ (save job) log := by
  refine spec_store hΦ (fun x r _ => ?_) (fun x e => herr x _ e)
  cases r with
  | ok u => exact hok x
  | error e => exact herr x _ (.error e)

theorem spec_attempt {p : Py α} {f : Except Exc α → Py β}
    (h : Spec Φ (fun l r => Spec Φ Ψ' (f r) l) p log) : Spec Φ Ψ' (attempt p >>= f) log :=
  Prog.Local.attempt h

end Py

open Py

/-- The bytes stored as the result of a job. `json.dumps` is given up for `str` on a `TypeError` or
a `ValueError`. -/
def resultBytes : Option CoroResult → Except PyException (Option Bytes)
  | none => .ok none
  | some v =>
    match v.dumps with
    | .ok b => .ok (some b)
    | .error e =>
      if e.typeName = "TypeError" ∨ e.typeName = "ValueError" then v.str.map some else .error e

namespace JobRunner

def publishProgress (r : JobRunner) (id : UUID) (status : JobStatus) (error : Option String) :
    Py Unit :=
  if r.eventBus then await (.publish id status error) swallowed else pure ()

theorem spec_publishProgress {Φ : List (Entry Choice Cmd Cmd.Res) → Cmd → Prop}
    {Ψ : List (Entry Choice Cmd Cmd.Res) → Except Exc Unit → Prop}
    {log : List (Entry Choice Cmd Cmd.Res)} {r : JobRunner} {id : UUID} {status : JobStatus}
    {error : Option String}
    (hΦ : Φ log (.publish id status error)) (hpure : Ψ log (.ok ()))
    (h : ∀ x res e, Ψ (log ++ [⟨x, .publish id status error, res⟩]) e) :
    Spec Φ Ψ (r.publishProgress id status error) log := by
  unfold publishProgress
  split_ifs
  · exact spec_await hΦ fun x res _ => h x res _
  · exact spec_pure hpure

def fireCallback (job : Job) : Py Unit :=
  if job.callbackUrl = none ∨ job.callbackUrl = some "" then pure ()
  else await (.fireCallback job) swallowed

def deadLetterEntry (job : Job) (exc : PyException) : DeadLetterEntry where
  channel := ""
  handlerName := "JobRunner"
  errorType := exc.typeName
  errorMessage := exc.message
  attempts := job.attempt + 1
  source := .job
  sourceRef := some job.jobId.str

def handleJobFailure (r : JobRunner) (job : Job) (exc : PyException) : Py Unit := do
  let errorMsg := exc.message
  if r.retryPolicy ∧ job.attempt + 1 < job.maxAttempts then
    let delay ← call (.computeDelay job.attempt)
    let delay ← ofExcept delay
    let t ← now
    let retried ← ofExcept (job.asRetry (t + delay))
    save retried
    r.publishProgress job.jobId .pending (some errorMsg)
  else if r.dlq then
    let t ← now
    let dead ← ofExcept (job.asDead errorMsg t)
    save dead
    await (.push (deadLetterEntry job exc)) id
    r.publishProgress job.jobId .dead (some errorMsg)
  else
    let t ← now
    let failed ← ofExcept (job.asFailed errorMsg t)
    save failed
    r.publishProgress job.jobId .failed (some errorMsg)

/-- The `except` clauses. -/
def handle (r : JobRunner) (job : Job) : Exc → Py Unit
  | .cancelled => do
    let t ← now
    let cancelled ← ofExcept (job.asCancelled t)
    save cancelled
    r.publishProgress job.jobId .cancelled none
    throw .cancelled
  | .error exc => r.handleJobFailure job exc

def complete (job : Job) : Py Job := do
  let result ← await (.awaitCoro job.jobId) id
  let bytes ← ofExcept (resultBytes result)
  let t ← now
  ofExcept (job.asCompleted bytes t)

def report (r : JobRunner) (job : Job) : Py Unit := do
  save job
  r.publishProgress job.jobId .completed none
  fireCallback job

/-- The `try` statement of `_run_job` and `_run_claimed_job`, for a RUNNING job. -/
def runCoro (r : JobRunner) (job : Job) : Py Unit := do
  call (.startCoro job.jobId)
  match ← attempt (complete job) with
  | .error e => r.handle job e
  | .ok completed =>
    match ← attempt (r.report completed) with
    | .error e => r.handle completed e
    | .ok () => pure ()

def runJob (r : JobRunner) (id : UUID) : Py Unit := do
  match ← store (.get id) with
  | none => pure ()
  | some job =>
    let t ← now
    let job ← ofExcept (job.asRunning t)
    save job
    r.publishProgress id .running none
    r.runCoro job

def runClaimedJob (r : JobRunner) (job : Job) : Py Unit := r.runCoro job

/-- The time arguments of `enqueue`, with what `resolve_zoned` makes of a wall-clock time in a
zone. -/
structure Schedule where
  runAt : Option Instant := none
  delay : Option Duration := none
  runAtWall : Option Instant := none
  tz : Option String := none
  resolved : Except PyException Instant := .ok 0

/-- `_prepare_zoned_job`, for a store that supports zoned schedules. -/
def prepareZonedJob (job : Job) (s : Schedule) (runAt : Option Instant) : Except PyException Job :=
  if runAt ≠ none ∧ (s.runAtWall ≠ none ∨ s.tz ≠ none) then
    .error (.valueError ("enqueue() received both run_at= and run_at_wall=/tz= — " ++
      "these are mutually exclusive (D-7: run_at is the " ++
      "materialization, run_at_wall/tz is the intent)."))
  else if s.tz = none then
    match runAt with
    | some t => .ok { job with runAt := some t }
    | none => .ok job
  else if s.runAtWall = none then
    .error (.valueError
      "enqueue() received tz= without run_at_wall= — a zoned schedule requires both.")
  else s.resolved.map fun t => { job with runAt := some t }

def submit (r : JobRunner) (id : UUID) : Py Unit := do
  let _ ← call (.createTask (.runJob r id))

def enqueue (r : JobRunner) (job : Job) (s : Schedule) : Py Unit := do
  if s.runAt ≠ none ∧ s.delay ≠ none then
    throw (.error (.valueError "enqueue() received both run_at= and delay="))
  let runAt ← match s.delay with
    | some d => do
      let t ← now
      pure (some (t + d))
    | none => pure s.runAt
  let job ← ofExcept (prepareZonedJob job s runAt)
  save job
  r.submit job.jobId

def cancel (r : JobRunner) (id : UUID) : Py Bool := call (.cancelTask r.name id)

/-- The task registry: the registered names, and what creating the coroutine of a payload raises. -/
structure TaskRegistry where
  registered : String → Bool
  invoke : TaskPayload → Except PyException Unit

/-- The loop of `recover`. -/
def recoverLoop (r : JobRunner) (registry : TaskRegistry) : List Job → ℕ → Py ℕ
  | [], recovered => pure recovered
  | job :: rest, recovered => do
    match ← store (.tryClaim job.jobId none none) with
    | none => r.recoverLoop registry rest recovered
    | some claimed =>
      match claimed.taskPayload with
      | none => throw (.error ⟨"AttributeError", "'NoneType' object has no attribute 'task_name'"⟩)
      | some payload =>
        if registry.registered payload.taskName then
          ofExcept (registry.invoke payload)
          let _ ← call (.createTask (.runClaimedJob r claimed))
          r.recoverLoop registry rest (recovered + 1)
        else r.recoverLoop registry rest recovered

def recover (r : JobRunner) (registry : TaskRegistry) : Py ℕ := do
  let pending ← store (.listByStatus .pending 100)
  r.recoverLoop registry (pending.filter (·.taskPayload.isSome)) 0

end JobRunner

/-- The configuration of a job poller. -/
structure JobPoller where
  staleThreshold : Duration
  batchSize : ℤ := 100
  leaseAware : Bool := true
  retentionSweep : Bool := false
  retentionBatchSize : ℤ := 100

namespace JobPoller

def staleMessage (p : JobPoller) : String :=
  "stale_job_timeout: job was RUNNING for more than " ++ p.staleThreshold.str

/-- The age check of the sweep: no lease, and started before the cutoff. -/
def isStale (job : Job) (cutoff : Instant) : Bool :=
  job.leaseExpiresAt.isNone && job.startedAt.any (· < cutoff)

/-- The loop of `_recover_stale_jobs_by_age`. -/
def ageLoop (p : JobPoller) (cutoff : Instant) : List Job → Py Unit
  | [] => pure ()
  | job :: rest =>
    if isStale job cutoff then do
      let t ← now
      let failed ← ofExcept (job.asFailed p.staleMessage t)
      match ← attempt (save failed) with
      | .error .cancelled => throw .cancelled
      | _ => p.ageLoop cutoff rest
    else p.ageLoop cutoff rest

def recoverStaleJobsByAge (p : JobPoller) : Py Unit := do
  let t ← now
  let running ← store (.listByStatus .running p.batchSize)
  p.ageLoop (t - p.staleThreshold) running

/-- Delete the jobs past their `expires_at`. -/
def runRetentionSweep (p : JobPoller) : Py Unit := do
  let t ← now
  let r ← store (.deleteWhere { expiresBefore := some t } (some p.retentionBatchSize))
  let _ ← ofExcept r

def recoverStaleJobs (p : JobPoller) : Py Unit := do
  (if p.leaseAware then do
    let _ ← store (.reapExpiredLeases none p.batchSize)
    pure ()
  else pure ())
  p.recoverStaleJobsByAge
  (if p.retentionSweep then p.runRetentionSweep else pure ())

end JobPoller

/-! ## Clients -/

/-- What a thread does: a task of the event loop, or a caller. -/
inductive Client
  | task
  | enqueue (r : JobRunner) (job : Job) (s : JobRunner.Schedule)
  | cancel (r : JobRunner) (id : UUID)
  | recover (r : JobRunner) (registry : JobRunner.TaskRegistry)
  | poll (p : JobPoller)

def runTask : Py Unit := do
  let task ← await .begin id
  let r ← attempt (match task with
    | .runJob r id => r.runJob id
    | .runClaimedJob r job => r.runClaimedJob job)
  call (.finish task.key.1 task.key.2)
  match r with
  | .ok () => pure ()
  | .error e => throw e

def Client.run : Client → Py Unit
  | .task => runTask
  | .enqueue r job s => r.enqueue job s
  | .cancel r id => do let _ ← r.cancel id
  | .recover r registry => do let _ ← r.recover registry
  | .poll p => p.recoverStaleJobs

end Varco
