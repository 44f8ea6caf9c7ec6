import Varco.Foundations.Calendar

/-!
# Jobs and their transitions

The value type `Job` of `varco_core.job.base` and the methods that return a job in its next
lifecycle state. A job is immutable: a transition builds a new one, and raises `ValueError` when the
state it starts from does not allow it. Each transition reads the clock; here the reading is the
argument `now`.

The fields that no modelled function reads (the authentication snapshot, the free-form metadata and
the request-token references) are left out.
-/

namespace Varco

/-- The lifecycle states of a background job. -/
inductive JobStatus
  | pending
  | running
  | completed
  | failed
  | cancelled
  | dead
  deriving DecidableEq, Repr

namespace JobStatus

def value : JobStatus → String
  | pending => "pending"
  | running => "running"
  | completed => "completed"
  | failed => "failed"
  | cancelled => "cancelled"
  | dead => "dead"

def name : JobStatus → String
  | pending => "PENDING"
  | running => "RUNNING"
  | completed => "COMPLETED"
  | failed => "FAILED"
  | cancelled => "CANCELLED"
  | dead => "DEAD"

/-- `repr(status)`. -/
def repr (s : JobStatus) : String := "<JobStatus." ++ s.name ++ ": '" ++ s.value ++ "'>"

def isTerminal (s : JobStatus) : Bool := s ∈ [completed, failed, cancelled, dead]

theorem isTerminal_iff {s : JobStatus} : s.isTerminal = true ↔ s ≠ pending ∧ s ≠ running := by
  cases s <;> decide

end JobStatus

/-- The serialized invocation of a named task. -/
structure TaskPayload where
  taskName : String
  deriving DecidableEq

/-- One background job. -/
structure Job where
  jobId : UUID
  status : JobStatus := .pending
  createdAt : Instant := 0
  startedAt : Option Instant := none
  completedAt : Option Instant := none
  result : Option Bytes := none
  error : Option String := none
  callbackUrl : Option String := none
  requestToken : Option String := none
  taskPayload : Option TaskPayload := none
  runAt : Option Instant := none
  runAtWall : Option Wall := none
  runAtTz : Option String := none
  runAtFold : ℤ := 0
  attempt : ℤ := 0
  maxAttempts : ℤ := 1
  ownerId : Option String := none
  leaseExpiresAt : Option Instant := none
  leaseEpoch : ℤ := 0
  expiresAt : Option Instant := none
  deriving DecidableEq

namespace Job

/-- The error of a transition that only `only` allows. -/
def cannotTransition (job : Job) (target only : String) : PyException :=
  .valueError ("Cannot transition job " ++ job.jobId.str ++ " to " ++ target ++ " from " ++
    job.status.repr ++ ". " ++ only)

def asRunning (job : Job) (now : Instant) : Except PyException Job :=
  if job.status ≠ .pending then
    .error (job.cannotTransition "RUNNING" "Only PENDING jobs can be started.")
  else .ok { job with status := .running, startedAt := some now }

def asCompleted (job : Job) (result : Option Bytes) (now : Instant) : Except PyException Job :=
  if job.status ≠ .running then
    .error (job.cannotTransition "COMPLETED" "Only RUNNING jobs can complete.")
  else .ok { job with status := .completed, result := result, completedAt := some now }

def asFailed (job : Job) (error : String) (now : Instant) : Except PyException Job :=
  if job.status ≠ .running then
    .error (job.cannotTransition "FAILED" "Only RUNNING jobs can fail.")
  else .ok { job with status := .failed, error := some error, completedAt := some now }

def asCancelled (job : Job) (now : Instant) : Except PyException Job :=
  if job.status.isTerminal then
    .error (.valueError ("Cannot cancel job " ++ job.jobId.str ++
      ": already in terminal state " ++ job.status.repr ++ "."))
  else .ok { job with status := .cancelled, completedAt := some now }

/-- RUNNING back to PENDING, scheduled for `nextRunAt`. The lease fields are not touched. -/
def asRetry (job : Job) (nextRunAt : Instant) : Except PyException Job :=
  if job.status ≠ .running then
    .error (job.cannotTransition "a retry" "Only RUNNING jobs can be retried.")
  else .ok { job with status := .pending, runAt := some nextRunAt, attempt := job.attempt + 1 }

def asDead (job : Job) (error : String) (now : Instant) : Except PyException Job :=
  if job.status ≠ .running then
    .error (job.cannotTransition "DEAD" "Only RUNNING jobs can be dead-lettered.")
  else .ok { job with status := .dead, error := some error, completedAt := some now }

/-! ## Leases

The copies that every job store makes of a job when it is claimed, renewed or reaped. -/

/-- The RUNNING copy of a claimed PENDING job, with a lease if `leaseTtl` is given. -/
def claimed (job : Job) (ownerId : Option String) (leaseTtl : Option Duration) (now : Instant) :
    Job :=
  let running := { job with status := .running, startedAt := some now }
  match leaseTtl with
  | none => running
  | some ttl =>
    { running with
      ownerId := ownerId
      leaseExpiresAt := some (now + ttl)
      leaseEpoch := job.leaseEpoch + 1 }

/-- The copy of a job whose lease runs for `leaseTtl` from `now`. -/
def renewed (job : Job) (leaseTtl : Duration) (now : Instant) : Job :=
  { job with leaseExpiresAt := some (now + leaseTtl) }

/-- The PENDING copy of a job taken from a holder whose lease expired. -/
def reaped (job : Job) : Job :=
  { job with
    status := .pending
    leaseEpoch := job.leaseEpoch + 1
    ownerId := none
    leaseExpiresAt := none }

/-- RUNNING with a lease that has expired at `current`. No lease is not an expired lease. -/
def leaseExpired (job : Job) (current : Instant) : Bool :=
  job.status = .running && job.leaseExpiresAt.any (· ≤ current)

/-- The refusal of a fenced write, by a store that reports a missing job as `missing`. -/
def staleLeaseError (missing : String) (job : Job) (expectedEpoch : ℤ) (current : Option Job) :
    PyException where
  typeName := "StaleLeaseError"
  message := "save() refused for job " ++ job.jobId.str ++ ": expected_epoch=" ++
    toString expectedEpoch ++ " does not match stored lease_epoch (" ++
    (match current with
      | some c => toString c.leaseEpoch
      | none => missing) ++ ")."

/-- The schedule allows a claim at `now`. -/
def due (job : Job) (now : Instant) : Bool := job.runAt.all (· ≤ now)

/-! ## What a transition does -/

variable {j j' : Job} {now : Instant}

theorem asRunning_eq_ok :
    j.asRunning now = .ok j' ↔
      j.status = .pending ∧ j' = { j with status := .running, startedAt := some now } := by
  unfold asRunning
  split_ifs with h <;> simp_all [eq_comm]

theorem asCompleted_eq_ok {r : Option Bytes} :
    j.asCompleted r now = .ok j' ↔ j.status = .running ∧
      j' = { j with status := .completed, result := r, completedAt := some now } := by
  unfold asCompleted
  split_ifs with h <;> simp_all [eq_comm]

theorem asFailed_eq_ok {e : String} :
    j.asFailed e now = .ok j' ↔ j.status = .running ∧
      j' = { j with status := .failed, error := some e, completedAt := some now } := by
  unfold asFailed
  split_ifs with h <;> simp_all [eq_comm]

theorem asCancelled_eq_ok :
    j.asCancelled now = .ok j' ↔ j.status.isTerminal = false ∧
      j' = { j with status := .cancelled, completedAt := some now } := by
  unfold asCancelled
  split_ifs with h
  · simp [h]
  · simp [h, eq_comm]

theorem asRetry_eq_ok {t : Instant} :
    j.asRetry t = .ok j' ↔ j.status = .running ∧
      j' = { j with status := .pending, runAt := some t, attempt := j.attempt + 1 } := by
  unfold asRetry
  split_ifs with h <;> simp_all [eq_comm]

theorem asDead_eq_ok {e : String} :
    j.asDead e now = .ok j' ↔ j.status = .running ∧
      j' = { j with status := .dead, error := some e, completedAt := some now } := by
  unfold asDead
  split_ifs with h <;> simp_all [eq_comm]

@[simp] theorem claimed_jobId (j : Job) (o : Option String) (ttl : Option Duration)
    (now : Instant) : (j.claimed o ttl now).jobId = j.jobId := by
  cases ttl <;> rfl

@[simp] theorem claimed_status (j : Job) (o : Option String) (ttl : Option Duration)
    (now : Instant) : (j.claimed o ttl now).status = .running := by
  cases ttl <;> rfl

@[simp] theorem claimed_some_leaseEpoch (j : Job) (o : Option String) (ttl : Duration)
    (now : Instant) : (j.claimed o (some ttl) now).leaseEpoch = j.leaseEpoch + 1 := rfl

@[simp] theorem claimed_none_leaseEpoch (j : Job) (o : Option String) (now : Instant) :
    (j.claimed o none now).leaseEpoch = j.leaseEpoch := rfl

theorem le_claimed_leaseEpoch (j : Job) (o : Option String) (ttl : Option Duration)
    (now : Instant) : j.leaseEpoch ≤ (j.claimed o ttl now).leaseEpoch := by
  cases ttl with
  | none => exact Int.le_refl _
  | some t => rw [claimed_some_leaseEpoch]; omega

@[simp] theorem renewed_leaseEpoch (j : Job) (ttl : Duration) (now : Instant) :
    (j.renewed ttl now).leaseEpoch = j.leaseEpoch := rfl

@[simp] theorem reaped_leaseEpoch (j : Job) : j.reaped.leaseEpoch = j.leaseEpoch + 1 := rfl

theorem leaseExpired_iff {j : Job} {current : Instant} :
    j.leaseExpired current = true ↔
      j.status = .running ∧ ∃ e, j.leaseExpiresAt = some e ∧ e ≤ current := by
  simp [leaseExpired, Option.any_eq_true]

/-- The transitions of a claimed job. -/
inductive Successor (j : Job) : Job → Prop
  | completed {r : Option Bytes} {now : Instant} {j' : Job} :
      j.asCompleted r now = .ok j' → Successor j j'
  | failed {e : String} {now : Instant} {j' : Job} : j.asFailed e now = .ok j' → Successor j j'
  | cancelled {now : Instant} {j' : Job} : j.asCancelled now = .ok j' → Successor j j'
  | retry {t : Instant} {j' : Job} : j.asRetry t = .ok j' → Successor j j'
  | dead {e : String} {now : Instant} {j' : Job} : j.asDead e now = .ok j' → Successor j j'

/-- The transitions of a job. -/
inductive Next (j : Job) : Job → Prop
  | running {now : Instant} {j' : Job} : j.asRunning now = .ok j' → Next j j'
  | successor {j' : Job} : j.Successor j' → Next j j'

/-- A transition leaves the id alone, and there is none from a terminal state. -/
theorem Next.spec {j j' : Job} (h : j.Next j') :
    j'.jobId = j.jobId ∧ j.status.isTerminal = false := by
  cases h with
  | running h => obtain ⟨hs, rfl⟩ := asRunning_eq_ok.mp h; exact ⟨rfl, by rw [hs]; rfl⟩
  | successor h =>
    cases h with
    | completed h => obtain ⟨hs, rfl⟩ := asCompleted_eq_ok.mp h; exact ⟨rfl, by rw [hs]; rfl⟩
    | failed h => obtain ⟨hs, rfl⟩ := asFailed_eq_ok.mp h; exact ⟨rfl, by rw [hs]; rfl⟩
    | cancelled h => obtain ⟨hs, rfl⟩ := asCancelled_eq_ok.mp h; exact ⟨rfl, hs⟩
    | retry h => obtain ⟨hs, rfl⟩ := asRetry_eq_ok.mp h; exact ⟨rfl, by rw [hs]; rfl⟩
    | dead h => obtain ⟨hs, rfl⟩ := asDead_eq_ok.mp h; exact ⟨rfl, by rw [hs]; rfl⟩

end Job

end Varco
