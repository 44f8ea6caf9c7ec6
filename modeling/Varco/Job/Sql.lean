import Varco.Foundations.Transaction
import Varco.Job.Base

/-!
# The SQL job store

`SAJobStore` of `varco_sa.job_store`: one row for each job, with `job_id` as the primary key. Every
method is one transaction; its statements are separate steps. A row holds all fields of a job, so a
row is modelled by the job it encodes.
-/

namespace Varco

open Sql

/-- The store over an engine. -/
structure SAJobStore where
  /-- `engine.dialect.name` -/
  dialect : String := "postgresql"

namespace SAJobStore

abbrev Method (β : Type) := Sq Job.jobId β

def staleLeaseError : Job → ℤ → Option Job → PyException := Job.staleLeaseError "row not found"

/-- `SELECT ... WHERE job_id = :id`, and `fetchone()`. -/
def fetchOne (id : UUID) : Method (Option Job) := do
  let rows ← execute (.select (fun j => j.jobId = id) none)
  pure rows.head?

/-- Write the row of a job by `DELETE` and `INSERT`. -/
def replaceRow (job : Job) : Method Unit := do
  let _ ← execute (.delete job.jobId)
  execute (.insert job)

/-- Save a job; with `expectedEpoch`, only over a row at that epoch. -/
def save (job : Job) (expectedEpoch : Option ℤ) : Method Unit :=
  transaction do
    match expectedEpoch with
    | none => replaceRow job
    | some e =>
      match ← fetchOne job.jobId with
      | none => throw (staleLeaseError job e none)
      | some current =>
        if current.leaseEpoch ≠ e then throw (staleLeaseError job e (some current))
        else replaceRow job

/-- The columns that a claim sets. The epoch is that of the row which was read. -/
def claimUpdate (read : Job) (ownerId : Option String) (leaseTtl : Option Duration) (now : Instant)
    (row : Job) : Job :=
  let running := { row with status := .running, startedAt := some now }
  match leaseTtl with
  | none => running
  | some ttl =>
    { running with
      ownerId := ownerId
      leaseExpiresAt := some (now + ttl)
      leaseEpoch := read.leaseEpoch + 1 }

theorem claimUpdate_jobId (read : Job) (ownerId : Option String) (leaseTtl : Option Duration)
    (now : Instant) (row : Job) :
    (claimUpdate read ownerId leaseTtl now row).jobId = row.jobId := by
  cases leaseTtl <;> rfl

/-- The read of a claim, which locks the row where the dialect can skip locked rows. -/
def selectForClaim (store : SAJobStore) (id : UUID) : Method (Option Job) :=
  if store.dialect = "postgresql" then execute (.selectForUpdate id) else fetchOne id

def claimRow (store : SAJobStore) (id : UUID) (ownerId : Option String) (leaseTtl : Option Duration)
    (now : Instant) : Method (Option Job) := do
  match ← store.selectForClaim id with
  | none => pure none
  | some row =>
    if row.status ≠ .pending then pure none
    else if row.runAt.any (now < ·) then pure none
    else do
      let _ ← execute (.update id (fun _ => true) (claimUpdate row ownerId leaseTtl now)
        (claimUpdate_jobId row ownerId leaseTtl now))
      pure (some row)

/-- Claim a PENDING job that is due. The job it returns is built from the row: its `started_at` is
read off the clock again. -/
def tryClaim (store : SAJobStore) (id : UUID) (ownerId : Option String)
    (leaseTtl : Option Duration) : Method (Option Job) := do
  let t ← now
  match ← transaction (store.claimRow id ownerId leaseTtl t) with
  | none => pure none
  | some row =>
    let started ← now
    pure (some { claimUpdate row ownerId leaseTtl t row with startedAt := some started })

/-- Extend a lease that is held by `ownerId` at `epoch`. -/
def renew (id : UUID) (ownerId : String) (epoch : ℤ) (leaseTtl : Duration) :
    Method (Option Job) := do
  let t ← now
  transaction do
    let count ← execute (.update id (fun j => j.ownerId = some ownerId && j.leaseEpoch = epoch)
      (fun j => { j with leaseExpiresAt := some (t + leaseTtl) }) fun _ => rfl)
    if count = 0 then pure none else fetchOne id

/-- The columns that a reap sets; the epoch is computed from the row which was read. -/
def reapUpdate (read row : Job) : Job :=
  { row with
    status := .pending
    leaseEpoch := read.leaseEpoch + 1
    ownerId := none
    leaseExpiresAt := none }

/-- The loop of `reap_expired_leases`: the rows are updated by id alone. -/
def reapLoop : List Job → List Job → Method (List Job)
  | [], reaped => pure reaped
  | row :: rows, reaped => do
    let _ ← execute (.update row.jobId (fun _ => true) (reapUpdate row) fun _ => rfl)
    reapLoop rows (reaped ++ [row.reaped])

/-- The transaction of `reap_expired_leases`. -/
def reapRows (current : Instant) (limit : ℤ) : Method (List Job) :=
  transaction do
    let rows ← execute (.select (fun j => j.leaseExpired current) (some limit))
    reapLoop rows []

/-- Return the RUNNING jobs with an expired lease to PENDING, at the next epoch. -/
def reapExpiredLeases (now : Option Instant) (limit : ℤ) : Method (List Job) :=
  match now with
  | some current => reapRows current limit
  | none => do
    let current ← Sql.now
    reapRows current limit

/-! ## Clients -/

/-- The calls that clients make. -/
inductive Client
  | save (job : Job) (expectedEpoch : Option ℤ)
  | tryClaim (id : UUID) (ownerId : Option String) (leaseTtl : Option Duration)
  | renew (id : UUID) (ownerId : String) (epoch : ℤ) (leaseTtl : Duration)
  | reap (now : Option Instant) (limit : ℤ)

def Client.run (store : SAJobStore) : Client → Method (List Job)
  | .save job e => do
    SAJobStore.save job e
    pure []
  | .tryClaim id o ttl => do
    let claimed ← store.tryClaim id o ttl
    pure claimed.toList
  | .renew id o e ttl => do
    let renewed ← SAJobStore.renew id o e ttl
    pure renewed.toList
  | .reap now limit => reapExpiredLeases now limit

end SAJobStore

end Varco
