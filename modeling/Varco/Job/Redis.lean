import Mathlib.Data.List.Sort
import Varco.Foundations.Dict
import Varco.Foundations.KeyedMap
import Varco.Foundations.Pool
import Varco.Job.Base

/-!
# The Redis job store

`RedisJobStore` of `varco_redis.job_store`: a job is a JSON string under its own key, with a sorted
set of ids for each status and a guard key with a time to live for each claim. The methods are
programs over the Redis commands they send; a command is atomic, and so is a `MULTI`/`EXEC`
transaction, which goes through only if the key that the connection watches was not written since.

A stored string is modelled by the job it encodes. The encoding drops `run_at_wall`, its zone and
its fold, which the store does not read; the model keeps them.
-/

namespace Varco

open Function

/-- The commands that the store sends, and the clock it reads. -/
inductive RedisCmd
  /-- `datetime.now(UTC)` -/
  | now
  /-- `GET` of a job key. -/
  | get (id : UUID)
  /-- `SET` of the key of a job. -/
  | set (job : Job)
  /-- `ZADD` to a status index. -/
  | zadd (status : JobStatus) (id : UUID) (score : Instant)
  /-- `ZREM` from a status index. -/
  | zrem (status : JobStatus) (id : UUID)
  /-- `ZRANGE` of a status index. -/
  | zrange (status : JobStatus) (start stop : ℤ)
  /-- `SET claim_key "1" NX EX ttl` -/
  | setClaim (id : UUID) (ttl : Duration)
  /-- `DEL claim_key` -/
  | delClaim (id : UUID)
  /-- `WATCH` of a job key. -/
  | watch (id : UUID)
  /-- `UNWATCH`, by `Pipeline.reset()`. -/
  | unwatch
  /-- `EXEC` of the transaction that sets a job and moves it from one status index to another. -/
  | exec (oldStatus : JobStatus) (job : Job)

abbrev RedisCmd.Res : RedisCmd → Type
  | .now => Instant
  | .get _ => Option Job
  | .zrange .. => List UUID
  | .setClaim .. => Bool
  | .exec .. => Bool
  | _ => Unit

def RedisCmd.written : (c : RedisCmd) → c.Res → Option Job
  | .set job, _ => some job
  | .exec _ job, true => some job
  | _, _ => none

/-- Only `SET` and `EXEC` write a job. -/
theorem RedisCmd.eq_of_written {c : RedisCmd} {r : c.Res} {job : Job} (h : c.written r = some job) :
    c = .set job ∨ ∃ old, c = .exec old job := by
  cases c with
  | set job' =>
    cases h
    exact Or.inl rfl
  | exec old job' =>
    cases r with
    | false => cases h
    | true =>
      cases h
      exact Or.inr ⟨old, rfl⟩
  | _ => cases h

/-- The state of the server, with what each connection watches. -/
structure RedisServer (ι : Type) where
  jobs : KeyedMap Job.jobId
  clock : Instant := 0
  /-- The status indexes: the score of each member. -/
  index : JobStatus → Dict UUID Instant := fun _ => .empty
  /-- When each guard key expires. -/
  claims : UUID → Option Instant := fun _ => none
  /-- The watched key of a connection, and whether it was written since. -/
  watched : ι → Option (UUID × Bool) := fun _ => none

/-- The elements from `start` to `stop`, both included; negative positions count from the end. -/
def zrangeSlice {α : Type} (start stop : ℤ) (l : List α) : List α :=
  let first := if start < 0 then max (l.length + start) 0 else start
  let last := if stop < 0 then l.length + stop else stop
  (l.drop first.toNat).take (last - first + 1).toNat

/-- The order of a sorted set: by score, and by member where the scores are equal. -/
def zsetLe (p q : UUID × Instant) : Prop := p.2 < q.2 ∨ p.2 = q.2 ∧ p.1 ≤ q.1

instance : DecidableRel zsetLe := fun _ _ => inferInstanceAs (Decidable (_ ∨ _))

namespace RedisServer

variable {ι : Type}

def members (s : RedisServer ι) (status : JobStatus) : List UUID :=
  ((s.index status).entries.insertionSort zsetLe).map Prod.fst

def write (s : RedisServer ι) (job : Job) : RedisServer ι :=
  { s with
    jobs := s.jobs.put job
    watched := fun i => (s.watched i).map fun (k, touched) => (k, touched || k = job.jobId) }

def zadd (s : RedisServer ι) (status : JobStatus) (id : UUID) (score : Instant) : RedisServer ι :=
  { s with index := update s.index status ((s.index status).set id score) }

def zrem (s : RedisServer ι) (status : JobStatus) (id : UUID) : RedisServer ι :=
  { s with index := update s.index status ((s.index status).erase id) }

/-- The connection of `i` watches what `k` says. -/
def setWatch [DecidableEq ι] (s : RedisServer ι) (i : ι) (k : Option (UUID × Bool)) :
    RedisServer ι :=
  { s with watched := update s.watched i k }

def commit (s : RedisServer ι) (oldStatus : JobStatus) (job : Job) : RedisServer ι :=
  let s := s.write job
  let s := if oldStatus ≠ job.status then s.zrem oldStatus job.jobId else s
  s.zadd job.status job.jobId job.createdAt

theorem jobs_commit (s : RedisServer ι) (oldStatus : JobStatus) (job : Job) :
    (s.commit oldStatus job).jobs = s.jobs.put job := by
  unfold commit
  split_ifs <;> rfl

theorem watched_commit (s : RedisServer ι) (oldStatus : JobStatus) (job : Job) :
    (s.commit oldStatus job).watched = (s.write job).watched := by
  unfold commit
  split_ifs <;> rfl

theorem nodup_members (s : RedisServer ι) (status : JobStatus) : (s.members status).Nodup := by
  have hperm := (List.perm_insertionSort zsetLe (s.index status).entries).map Prod.fst
  exact hperm.nodup_iff.mpr (s.index status).nodup

variable [DecidableEq ι]

/-- What a command of connection `i` does. -/
def perform (i : ι) : (c : RedisCmd) → RedisServer ι → c.Res × RedisServer ι
  | .now, s => (s.clock, s)
  | .get id, s => (s.jobs.get id, s)
  | .set job, s => ((), s.write job)
  | .zadd status id score, s => ((), s.zadd status id score)
  | .zrem status id, s => ((), s.zrem status id)
  | .zrange status start stop, s => (zrangeSlice start stop (s.members status), s)
  | .setClaim id ttl, s =>
    if (s.claims id).any (s.clock < ·) then (false, s)
    else (true, { s with claims := update s.claims id (some (s.clock + ttl)) })
  | .delClaim id, s => ((), { s with claims := update s.claims id none })
  | .watch id, s => ((), s.setWatch i (some (id, false)))
  | .unwatch, s => ((), s.setWatch i none)
  | .exec oldStatus job, s =>
    match s.watched i with
    | some (_, true) => (false, s.setWatch i none)
    | _ => (true, (s.commit oldStatus job).setWatch i none)

/-- One command at the time `t`; the clock never goes back. -/
def exec (i : ι) (t : Instant) (c : RedisCmd) (s : RedisServer ι) :
    Option (c.Res × RedisServer ι) :=
  if t < s.clock then none else some (perform i c { s with clock := t })

variable {i : ι} {t : Instant} {c : RedisCmd} {r : c.Res} {s s' : RedisServer ι}

theorem perform_of_exec (h : exec i t c s = some (r, s')) :
    perform i c { s with clock := t } = (r, s') := by
  unfold exec at h
  split_ifs at h
  exact Option.some.inj h

/-- A command that writes no job leaves the stored jobs as they are. -/
theorem jobs_of_exec (h : exec i t c s = some (r, s')) :
    s'.jobs = match c.written r with
      | some job => s.jobs.put job
      | none => s.jobs := by
  have hp := perform_of_exec h
  cases c with
  | setClaim id ttl =>
    simp only [perform] at hp
    split_ifs at hp <;> (cases hp; rfl)
  | exec old job =>
    simp only [perform] at hp
    split at hp
    · cases hp
      rfl
    · cases hp
      exact jobs_commit ..
  | _ =>
    cases hp
    rfl

/-- What a connection watches changes only by its own commands; a write of the key is noted. -/
theorem watched_of_exec {j : ι} (hj : j ≠ i) (h : exec i t c s = some (r, s')) :
    s'.watched j = match c.written r with
      | some job => (s.watched j).map fun (k, touched) => (k, touched || k = job.jobId)
      | none => s.watched j := by
  have hp := perform_of_exec h
  cases c with
  | setClaim id ttl =>
    simp only [perform] at hp
    split_ifs at hp <;> (cases hp; rfl)
  | watch id =>
    cases hp
    exact update_of_ne hj ..
  | unwatch =>
    cases hp
    exact update_of_ne hj ..
  | exec old job =>
    simp only [perform] at hp
    split at hp
    · cases hp
      exact update_of_ne hj ..
    · cases hp
      refine (update_of_ne hj ..).trans ?_
      rw [watched_commit]
      rfl
  | _ =>
    cases hp
    rfl

/-- What every answer satisfies: jobs are stored under their id, and an index lists an id once. -/
def Answer : (c : RedisCmd) → c.Res → Prop
  | .get id, some job => job.jobId = id
  | .zrange .., ids => ids.Nodup
  | _, _ => True

theorem answer_of_exec (h : exec i t c s = some (r, s')) : Answer c r := by
  have hp := perform_of_exec h
  cases c with
  | get id =>
    cases r with
    | none => trivial
    | some job => exact s.jobs.keyed (congrArg Prod.fst hp)
  | zrange status start stop =>
    cases hp
    exact (nodup_members _ status).sublist ((List.take_sublist ..).trans (List.drop_sublist ..))
  | _ => trivial

end RedisServer

/-! ## The methods of the store -/

abbrev Rd (α : Type) := ExceptT PyException (Prog RedisCmd RedisCmd.Res) α

def send (c : RedisCmd) : Rd c.Res := Prog.call c

/-- The configuration of the store. -/
structure RedisJobStore where
  claimTtl : Duration := 30000000

namespace RedisJobStore

def staleLeaseError : Job → ℤ → Option Job → PyException := Job.staleLeaseError "row not found"

def racedError (job : Job) (expectedEpoch : ℤ) : PyException where
  typeName := "StaleLeaseError"
  message := "save() refused for job " ++ job.jobId.str ++ ": expected_epoch=" ++
    toString expectedEpoch ++ " — a concurrent write raced this " ++
    "fenced save (WATCH detected a change)."

/-- `save(job)`. -/
def saveUnfenced (job : Job) : Rd Unit := do
  let existing ← send (.get job.jobId)
  let oldStatus := existing.map Job.status
  send (.set job)
  match oldStatus with
  | some old =>
    if old ≠ job.status then
      send (.zrem old job.jobId)
      send (.zadd job.status job.jobId job.createdAt)
    else send (.zadd job.status job.jobId job.createdAt)
  | none => send (.zadd job.status job.jobId job.createdAt)

/-- `save(job, expected_epoch=...)`. -/
def saveFenced (job : Job) (expectedEpoch : ℤ) : Rd Unit := do
  send (.watch job.jobId)
  match ← send (.get job.jobId) with
  | none => do
    send .unwatch
    throw (staleLeaseError job expectedEpoch none)
  | some current =>
    if current.leaseEpoch ≠ expectedEpoch then do
      send .unwatch
      throw (staleLeaseError job expectedEpoch (some current))
    else do
      let done ← send (.exec current.status job)
      if done then pure () else throw (racedError job expectedEpoch)

def runningCopy (job : Job) (started : Instant) : Job :=
  { job with status := .running, startedAt := some started }

def leasedCopy (job : Job) (ownerId : Option String) (started expires : Instant) : Job :=
  { runningCopy job started with
    ownerId := ownerId
    leaseExpiresAt := some expires
    leaseEpoch := job.leaseEpoch + 1 }

/-- The `finally` clause of a claim that failed. -/
def releaseClaim (id : UUID) : Rd (Option Job) := do
  send (.delClaim id)
  pure none

def finishClaim (job : Job) (ownerId : Option String) (leaseTtl : Option Duration) :
    Rd (Option Job) := do
  let started ← send .now
  match leaseTtl with
  | none =>
    saveUnfenced (runningCopy job started)
    pure (some (runningCopy job started))
  | some ttl =>
    let now ← send .now
    let leased := leasedCopy job ownerId started (now + ttl)
    saveUnfenced leased
    pure (some leased)

def tryClaim (store : RedisJobStore) (id : UUID) (ownerId : Option String)
    (leaseTtl : Option Duration) : Rd (Option Job) := do
  let acquired ← send (.setClaim id store.claimTtl)
  if acquired then
    match ← send (.get id) with
    | none => releaseClaim id
    | some job =>
      if job.status ≠ .pending then releaseClaim id
      else
        match job.runAt with
        | none => finishClaim job ownerId leaseTtl
        | some runAt =>
          let now ← send .now
          if now < runAt then releaseClaim id else finishClaim job ownerId leaseTtl
  else pure none

/-- Extend the lease of a job that is still held by `ownerId` at `epoch`. -/
def renew (id : UUID) (ownerId : String) (epoch : ℤ) (leaseTtl : Duration) : Rd (Option Job) := do
  match ← send (.get id) with
  | none => pure none
  | some job =>
    if job.ownerId ≠ some ownerId ∨ job.leaseEpoch ≠ epoch then pure none
    else
      let now ← send .now
      let renewed := job.renewed leaseTtl now
      saveUnfenced renewed
      pure (some renewed)

/-- The reads of `list_by_status`. -/
def getAll : List UUID → List Job → Rd (List Job)
  | [], jobs => pure jobs
  | id :: rest, jobs => do
    match ← send (.get id) with
    | none => getAll rest jobs
    | some job => getAll rest (jobs ++ [job])

def listByStatus (status : JobStatus) (limit : ℤ) : Rd (List Job) := do
  let ids ← send (.zrange status 0 (limit - 1))
  getAll ids []

/-- The loop of `reap_expired_leases`. The status of a job is not looked at again. -/
def reapLoop (current : Instant) : List Job → List Job → Rd (List Job)
  | [], reaped => pure reaped
  | job :: rest, reaped =>
    if job.leaseExpiresAt.any (· ≤ current) then do
      saveUnfenced job.reaped
      send (.delClaim job.jobId)
      reapLoop current rest (reaped ++ [job.reaped])
    else reapLoop current rest reaped

/-- Return the jobs of the RUNNING index with an expired lease to PENDING, at the next epoch. -/
def reapExpiredLeases (now : Option Instant) (limit : ℤ) : Rd (List Job) :=
  match now with
  | some current => do
    let running ← listByStatus .running limit
    reapLoop current running []
  | none => do
    let current ← send .now
    let running ← listByStatus .running limit
    reapLoop current running []

/-! ## Clients -/

/-- The calls that clients make. -/
inductive Client
  | save (job : Job) (expectedEpoch : ℤ)
  | tryClaim (id : UUID) (ownerId : Option String) (leaseTtl : Option Duration)
  | renew (id : UUID) (ownerId : String) (epoch : ℤ) (leaseTtl : Duration)
  | reap (now : Option Instant) (limit : ℤ)

def Client.run (store : RedisJobStore) : Client → Rd (List Job)
  | .save job e => do
    saveFenced job e
    pure []
  | .tryClaim id o ttl => do
    let claimed ← store.tryClaim id o ttl
    pure claimed.toList
  | .renew id o e ttl => do
    let renewed ← RedisJobStore.renew id o e ttl
    pure renewed.toList
  | .reap now limit => reapExpiredLeases now limit

end RedisJobStore

end Varco
