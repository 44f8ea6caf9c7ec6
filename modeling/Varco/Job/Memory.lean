import Varco.Foundations.Dict
import Varco.Job.Base

/-!
# The in-memory job store

`InMemoryJobStore` of `varco_fastapi.job.store`: jobs in a dictionary keyed by their id, in
insertion order. Every method body runs under one lock and never suspends while it holds it, so a
call is one atomic step: a function of the store and of the clock. A call returns its outcome
together with the store it leaves behind, also when it raises.

`Call` lists the methods, `Call.Res` what each returns and `exec` runs one. The lemmas
`get_*` say what each method does to the job stored under an id; they are all the later modules use.
-/

namespace Varco

open List

/-- Jobs by id, in insertion order; every job is stored under its own id. -/
structure InMemoryJobStore where
  jobs : Dict UUID Job
  keyed : ∀ {k : UUID} {j : Job}, jobs.get? k = some j → j.jobId = k

namespace InMemoryJobStore

instance : DecidableEq InMemoryJobStore := fun s s' =>
  decidable_of_iff (s.jobs = s'.jobs)
    ⟨fun h => by cases s; cases s'; cases h; rfl, fun h => h ▸ rfl⟩

def empty : InMemoryJobStore := ⟨.empty, by simp⟩

/-- The job stored under `id`. -/
def get (s : InMemoryJobStore) (id : UUID) : Option Job := s.jobs.get? id

/-- `self._jobs[job.job_id] = job`. -/
def put (s : InMemoryJobStore) (job : Job) : InMemoryJobStore where
  jobs := s.jobs.set job.jobId job
  keyed {k j} h := by
    rw [Dict.get?_set] at h
    split_ifs at h with hk
    · cases h
      exact hk.symm
    · exact s.keyed h

def delete (s : InMemoryJobStore) (id : UUID) : InMemoryJobStore where
  jobs := s.jobs.erase id
  keyed {k j} h := by
    rw [Dict.get?_erase] at h
    split_ifs at h with hk
    exact s.keyed h

def staleLeaseError : Job → ℤ → Option Job → PyException := Job.staleLeaseError "job not found"

/-- Write a job; with an expected epoch, only over a job that still carries it. -/
def save (s : InMemoryJobStore) (job : Job) (expectedEpoch : Option ℤ) :
    Except PyException Unit × InMemoryJobStore :=
  match expectedEpoch with
  | none => (.ok (), s.put job)
  | some e =>
    match s.get job.jobId with
    | none => (.error (staleLeaseError job e none), s)
    | some current =>
      if current.leaseEpoch ≠ e then (.error (staleLeaseError job e (some current)), s)
      else (.ok (), s.put job)

/-- The scan of `list_by_status`: the limit is looked at after each match. -/
def listLoop (status : JobStatus) (limit : ℤ) : List Job → List Job → List Job
  | [], results => results
  | job :: rest, results =>
    if job.status = status then
      let results := results ++ [job]
      if limit ≤ results.length then results else listLoop status limit rest results
    else listLoop status limit rest results

def listByStatus (s : InMemoryJobStore) (status : JobStatus) (limit : ℤ) : List Job :=
  listLoop status limit s.jobs.values []

/-- The predicate of a bulk delete. -/
structure DeleteFilter where
  status : Option (List JobStatus) := none
  completedBefore : Option Instant := none
  expiresBefore : Option Instant := none
  deriving DecidableEq

def DeleteFilter.matches (f : DeleteFilter) (job : Job) : Bool :=
  f.status.all (job.status ∈ ·) &&
  f.completedBefore.all (fun t => job.completedAt.any (· < t)) &&
  f.expiresBefore.all (fun t => job.expiresAt.any (· < t))

/-- The scan of `delete_where`: the ids to delete. -/
def deleteLoop (f : DeleteFilter) (limit : Option ℤ) : List Job → List UUID → List UUID
  | [], ids => ids
  | job :: rest, ids =>
    if f.matches job then
      let ids := ids ++ [job.jobId]
      if limit.any (· ≤ (ids.length : ℤ)) then ids else deleteLoop f limit rest ids
    else deleteLoop f limit rest ids

def noPredicate : PyException :=
  .valueError ("delete_where() requires at least one predicate (status, " ++
    "completed_before, or expires_before) — refusing to delete " ++
    "every row in the store. Pass an explicit predicate, e.g. " ++
    "delete_where(status=JobStatus.COMPLETED).")

/-- Delete the jobs that match a predicate, at most `limit` of them; returns how many. -/
def deleteWhere (s : InMemoryJobStore) (f : DeleteFilter) (limit : Option ℤ) :
    Except PyException ℕ × InMemoryJobStore :=
  if f = {} then (.error noPredicate, s)
  else
    let ids := deleteLoop f limit s.jobs.values []
    (.ok ids.length, ids.foldl delete s)

def tryClaim (s : InMemoryJobStore) (id : UUID) (ownerId : Option String)
    (leaseTtl : Option Duration) (now : Instant) : Option Job × InMemoryJobStore :=
  match s.get id with
  | none => (none, s)
  | some job =>
    if job.status ≠ .pending then (none, s)
    else if ¬job.due now then (none, s)
    else
      let claimed := job.claimed ownerId leaseTtl now
      (some claimed, s.put claimed)

def firstDue (current : Instant) (jobs : List Job) : Option Job :=
  jobs.find? fun job => job.status = .pending && job.due current

def claimNext (s : InMemoryJobStore) (ownerId : Option String) (leaseTtl : Option Duration)
    (current : Instant) : Option Job × InMemoryJobStore :=
  match firstDue current s.jobs.values with
  | none => (none, s)
  | some job =>
    let claimed := job.claimed ownerId leaseTtl current
    (some claimed, s.put claimed)

/-- Extend the lease of a job that is still held by `ownerId` at `epoch`. -/
def renew (s : InMemoryJobStore) (id : UUID) (ownerId : String) (epoch : ℤ) (leaseTtl : Duration)
    (now : Instant) : Option Job × InMemoryJobStore :=
  match s.get id with
  | none => (none, s)
  | some job =>
    if job.ownerId ≠ some ownerId ∨ job.leaseEpoch ≠ epoch then (none, s)
    else
      let renewed := job.renewed leaseTtl now
      (some renewed, s.put renewed)

/-- The loop of `reap_expired_leases` over a snapshot of the values: the limit is looked at after
each job reaped. -/
def reapLoop (current : Instant) (limit : ℤ) :
    List Job → InMemoryJobStore → List Job → List Job × InMemoryJobStore
  | [], s, reaped => (reaped, s)
  | job :: rest, s, reaped =>
    if job.leaseExpired current then
      let s := s.put job.reaped
      let reaped := reaped ++ [job.reaped]
      if limit ≤ reaped.length then (reaped, s) else reapLoop current limit rest s reaped
    else reapLoop current limit rest s reaped

/-- Return the RUNNING jobs with an expired lease to PENDING, at the next epoch. -/
def reapExpiredLeases (s : InMemoryJobStore) (current : Instant) (limit : ℤ) :
    List Job × InMemoryJobStore :=
  reapLoop current limit s.jobs.values s []

/-- The methods of the store. -/
inductive Call
  | save (job : Job) (expectedEpoch : Option ℤ)
  | get (id : UUID)
  | listByStatus (status : JobStatus) (limit : ℤ)
  | delete (id : UUID)
  | deleteWhere (filter : DeleteFilter) (limit : Option ℤ)
  | tryClaim (id : UUID) (ownerId : Option String) (leaseTtl : Option Duration)
  | claimNext (ownerId : Option String) (leaseTtl : Option Duration) (now : Option Instant)
  | renew (id : UUID) (ownerId : String) (epoch : ℤ) (leaseTtl : Duration)
  | reapExpiredLeases (now : Option Instant) (limit : ℤ)

abbrev Call.Res : Call → Type
  | .save .. => Except PyException Unit
  | .get _ => Option Job
  | .listByStatus .. => List Job
  | .delete _ => Unit
  | .deleteWhere .. => Except PyException ℕ
  | .tryClaim .. => Option Job
  | .claimNext .. => Option Job
  | .renew .. => Option Job
  | .reapExpiredLeases .. => List Job

/-- Run one call at the clock reading `clock`. -/
def exec (clock : Instant) (s : InMemoryJobStore) : (c : Call) → c.Res × InMemoryJobStore
  | .save job e => s.save job e
  | .get id => (s.get id, s)
  | .listByStatus status limit => (s.listByStatus status limit, s)
  | .delete id => ((), s.delete id)
  | .deleteWhere f limit => s.deleteWhere f limit
  | .tryClaim id o ttl => s.tryClaim id o ttl clock
  | .claimNext o ttl now => s.claimNext o ttl (now.getD clock)
  | .renew id o epoch ttl => s.renew id o epoch ttl clock
  | .reapExpiredLeases now limit => s.reapExpiredLeases (now.getD clock) limit

/-! ## What each method does to the job of an id -/

variable {s s' : InMemoryJobStore} {id : UUID} {job c : Job} {now : Instant}

theorem get_put (s : InMemoryJobStore) (job : Job) (id : UUID) :
    (s.put job).get id = if id = job.jobId then some job else s.get id :=
  s.jobs.get?_set job.jobId id job

@[simp] theorem get_put_self (s : InMemoryJobStore) (job : Job) :
    (s.put job).get job.jobId = some job :=
  s.jobs.get?_set_self job.jobId job

theorem get_delete (s : InMemoryJobStore) (id id' : UUID) :
    (s.delete id).get id' = if id' = id then none else s.get id' :=
  s.jobs.get?_erase id id'

theorem jobId_of_get (h : s.get id = some job) : job.jobId = id := s.keyed h

theorem mem_values : job ∈ s.jobs.values ↔ s.get job.jobId = some job := by
  rw [Dict.mem_values]
  constructor
  · rintro ⟨k, hk⟩
    rwa [s.keyed hk]
  · exact fun h => ⟨_, h⟩

theorem save_some_ok {e : ℤ} :
    s.save job (some e) = (.ok (), s') ↔
      ∃ current, s.get job.jobId = some current ∧ current.leaseEpoch = e ∧ s' = s.put job := by
  simp only [save]
  cases hg : s.get job.jobId with
  | none => simp
  | some current =>
    by_cases he : current.leaseEpoch = e
    · simp [he, eq_comm]
    · simp [he]

theorem save_error {e : Option ℤ} {err : PyException} (h : s.save job e = (.error err, s')) :
    s' = s := by
  unfold save at h
  split at h
  · cases h
  · split at h
    · cases h
      rfl
    · split_ifs at h
      · cases h
        rfl
      · cases h

theorem get_of_save_ok {e : Option ℤ} (h : s.save job e = (.ok (), s')) :
    s'.get job.jobId = some job := by
  rcases e with _ | e
  · rw [← (Prod.mk.inj h).2]
    exact get_put_self s job
  · obtain ⟨-, -, -, rfl⟩ := save_some_ok.mp h
    exact get_put_self s job

variable {o : Option String} {ttl : Option Duration}

theorem tryClaim_some :
    s.tryClaim id o ttl now = (some c, s') ↔
      ∃ job, s.get id = some job ∧ job.status = .pending ∧ job.due now ∧
        c = job.claimed o ttl now ∧ s' = s.put c := by
  constructor
  · intro h
    unfold tryClaim at h
    split at h
    · cases h
    · rename_i job hg
      split_ifs at h with hp hd
      · cases h
      · cases h
        exact ⟨job, hg, not_not.mp hp, hd, rfl, rfl⟩
      · cases h
  · rintro ⟨job, hg, hp, hd, rfl, rfl⟩
    simp [tryClaim, hg, hp, hd]

theorem tryClaim_none (h : s.tryClaim id o ttl now = (none, s')) : s' = s := by
  unfold tryClaim at h
  split at h
  · cases h
    rfl
  · split_ifs at h <;> cases h <;> rfl

theorem claimNext_some (h : s.claimNext o ttl now = (some c, s')) :
    ∃ job, s.get job.jobId = some job ∧ job.status = .pending ∧ job.due now ∧
      c = job.claimed o ttl now ∧ s' = s.put c := by
  unfold claimNext at h
  split at h
  · cases h
  · rename_i job hf
    cases h
    have hm := mem_of_find?_eq_some hf
    have hp := List.find?_some hf
    simp only [Bool.and_eq_true, decide_eq_true_eq] at hp
    exact ⟨job, mem_values.mp hm, hp.1, hp.2, rfl, rfl⟩

theorem claimNext_none (h : s.claimNext o ttl now = (none, s')) : s' = s := by
  unfold claimNext at h
  split at h
  · cases h
    rfl
  · cases h

theorem renew_some {o : String} {e : ℤ} {ttl : Duration} :
    s.renew id o e ttl now = (some c, s') ↔
      ∃ job, s.get id = some job ∧ job.ownerId = some o ∧ job.leaseEpoch = e ∧
        c = job.renewed ttl now ∧ s' = s.put c := by
  constructor
  · intro h
    unfold renew at h
    split at h
    · cases h
    · rename_i job hg
      split_ifs at h with hm
      · cases h
      · cases h
        rw [not_or, not_not, not_not] at hm
        exact ⟨job, hg, hm.1, hm.2, rfl, rfl⟩
  · rintro ⟨job, hg, ho, he, rfl, rfl⟩
    simp [renew, hg, ho, he]

theorem renew_none {o : String} {e : ℤ} {ttl : Duration}
    (h : s.renew id o e ttl now = (none, s')) : s' = s := by
  unfold renew at h
  split at h
  · cases h
    rfl
  · split_ifs at h
    · cases h
      rfl
    · cases h

theorem not_leaseExpired_reaped (job : Job) (now : Instant) : ¬job.reaped.leaseExpired now := by
  simp [Job.leaseExpired, Job.reaped]

theorem nodup_jobId_values (s : InMemoryJobStore) : (s.jobs.values.map Job.jobId).Nodup := by
  have h : s.jobs.values.map Job.jobId = s.jobs.entries.map Prod.fst := by
    rw [Dict.values, map_map]
    refine map_congr_left fun p hp => ?_
    exact s.keyed (Dict.mem_entries.mp hp)
  rw [h]
  exact s.jobs.nodup

/-- The scan of `list_by_status` keeps some of the jobs, in order. -/
theorem listLoop_sublist (status : JobStatus) (limit : ℤ) (jobs acc : List Job) :
    ∃ l, l.Sublist jobs ∧ listLoop status limit jobs acc = acc ++ l := by
  induction jobs generalizing acc with
  | nil => exact ⟨[], List.Sublist.refl [], by simp [listLoop]⟩
  | cons job rest ih =>
    simp only [listLoop]
    split_ifs
    · exact ⟨[job], by simp, rfl⟩
    · obtain ⟨l, hl, he⟩ := ih (acc ++ [job])
      exact ⟨job :: l, hl.cons_cons job, by simp [he]⟩
    · obtain ⟨l, hl, he⟩ := ih acc
      exact ⟨l, hl.cons job, he⟩

theorem nodup_jobId_listByStatus (s : InMemoryJobStore) (status : JobStatus) (limit : ℤ) :
    ((s.listByStatus status limit).map Job.jobId).Nodup := by
  obtain ⟨l, hl, he⟩ := listLoop_sublist status limit s.jobs.values []
  rw [listByStatus, he, nil_append]
  exact s.nodup_jobId_values.sublist (hl.map _)

/-- What the loop does to the job of one id, as long as the snapshot still agrees with the store on
the jobs not yet visited. -/
theorem get_reapLoop {limit : ℤ} {rest acc l : List Job} (id : UUID)
    (hs : ∀ j ∈ rest, s.get j.jobId = some j) (hn : (rest.map Job.jobId).Nodup)
    (h : reapLoop now limit rest s acc = (l, s')) :
    ∃ done, l = acc ++ done ∧
      ((s'.get id = s.get id ∧ ∀ r ∈ done, r.jobId ≠ id) ∨
        ∃ j, s.get id = some j ∧ j.leaseExpired now ∧ s'.get id = some j.reaped ∧
          j.reaped ∈ done) := by
  induction rest generalizing s acc with
  | nil =>
    cases h
    exact ⟨[], by simp, Or.inl ⟨rfl, by simp⟩⟩
  | cons job rest ih =>
    rw [map_cons, nodup_cons] at hn
    have hjob : s.get job.jobId = some job := hs job mem_cons_self
    have hrest : ∀ j ∈ rest, s.get j.jobId = some j := fun j hj => hs j (mem_cons_of_mem _ hj)
    have hset : ∀ i, (s.put job.reaped).get i =
        if i = job.jobId then some job.reaped else s.get i :=
      get_put s job.reaped
    simp only [reapLoop] at h
    split_ifs at h with hexp _
    · cases h
      refine ⟨[job.reaped], rfl, ?_⟩
      by_cases hid : id = job.jobId
      · subst hid
        exact Or.inr ⟨job, hjob, hexp, by rw [hset, if_pos rfl], by simp⟩
      · refine Or.inl ⟨by rw [hset, if_neg hid], fun r hr => ?_⟩
        rw [mem_singleton.mp hr]
        exact Ne.symm hid
    · -- the job is reaped and the loop goes on: later jobs have other ids
      have hput : ∀ j ∈ rest, (s.put job.reaped).get j.jobId = some j := by
        intro j hj
        rw [hset, if_neg, hrest j hj]
        intro he
        exact hn.1 (mem_map.mpr ⟨j, hj, he⟩)
      obtain ⟨done, rfl, hdone⟩ := ih hput hn.2 h
      refine ⟨job.reaped :: done, by simp, ?_⟩
      rw [hset] at hdone
      by_cases hid : id = job.jobId
      · subst hid
        rw [if_pos rfl] at hdone
        refine Or.inr ⟨job, hjob, hexp, ?_, by simp⟩
        rcases hdone with ⟨hget, -⟩ | ⟨j, hj, hjexp, -⟩
        · exact hget
        · cases hj
          exact absurd hjexp (not_leaseExpired_reaped job now)
      · rw [if_neg hid] at hdone
        rcases hdone with ⟨hget, hne⟩ | ⟨j, hj, hjexp, hget, hmem⟩
        · refine Or.inl ⟨hget, fun r hr => ?_⟩
          rcases mem_cons.mp hr with rfl | hr
          · exact Ne.symm hid
          · exact hne r hr
        · exact Or.inr ⟨j, hj, hjexp, hget, mem_cons_of_mem _ hmem⟩
    · exact ih hrest hn.2 h

/-- **A reap leaves a job alone or takes it from an expired lease.** -/
theorem get_reapExpiredLeases {limit : ℤ} {l : List Job} (id : UUID)
    (h : s.reapExpiredLeases now limit = (l, s')) :
    (s'.get id = s.get id ∧ ∀ r ∈ l, r.jobId ≠ id) ∨
      ∃ j, s.get id = some j ∧ j.leaseExpired now ∧ s'.get id = some j.reaped ∧ j.reaped ∈ l := by
  obtain ⟨done, rfl, hdone⟩ :=
    get_reapLoop id (fun j hj => mem_values.mp hj) s.nodup_jobId_values h
  simpa using hdone

/-! ## What a call does to the job of an id -/

theorem get_foldl_delete (ids : List UUID) (s : InMemoryJobStore) (id : UUID) :
    (ids.foldl delete s).get id = s.get id ∨ (ids.foldl delete s).get id = none := by
  induction ids generalizing s with
  | nil => exact Or.inl rfl
  | cons i ids ih =>
    rcases ih (s.delete i) with h | h
    · rw [foldl_cons, h, get_delete]
      split_ifs
      · exact Or.inr rfl
      · exact Or.inl rfl
    · exact Or.inr h

theorem get_deleteWhere (s : InMemoryJobStore) (f : DeleteFilter) (limit : Option ℤ) (id : UUID) :
    (s.deleteWhere f limit).2.get id = s.get id ∨ (s.deleteWhere f limit).2.get id = none := by
  unfold deleteWhere
  split_ifs
  · exact Or.inl rfl
  · exact get_foldl_delete _ s id

/-- The ways in which a call can change the job of `id`. -/
inductive Effect (clock : Instant) (call : Call) (id : UUID) (s s' : InMemoryJobStore) : Prop
  | same (h : s'.get id = s.get id)
  | deleted (h : s'.get id = none)
  | saved {job : Job} {e : Option ℤ} (hc : call = .save job e) (hid : job.jobId = id)
      (h : s'.get id = some job)
  | claimed {job : Job} {o : Option String} {ttl : Option Duration} {now : Instant}
      (hg : s.get id = some job) (hp : job.status = .pending)
      (h : s'.get id = some (job.claimed o ttl now))
  | renewed {job : Job} {ttl : Duration} (hg : s.get id = some job)
      (h : s'.get id = some (job.renewed ttl clock))
  | reaped {job : Job} {now : Option Instant} {limit : ℤ}
      (hc : call = .reapExpiredLeases now limit) (hg : s.get id = some job)
      (he : job.leaseExpired (now.getD clock)) (h : s'.get id = some job.reaped)

theorem effect_of_put {clock : Instant} {call : Call} {job : Job}
    (h : (s.put job).get job.jobId = some job → Effect clock call job.jobId s (s.put job))
    (id : UUID) :
    Effect clock call id s (s.put job) := by
  by_cases hid : id = job.jobId
  · subst hid
    exact h (get_put_self s job)
  · refine .same ?_
    rw [get_put, if_neg hid]

theorem effect_of_claimed {clock : Instant} {call : Call}
    (hg : s.get job.jobId = some job) (hp : job.status = .pending)
    (id : UUID) : Effect clock call id s (s.put (job.claimed o ttl now)) := by
  refine effect_of_put (fun h => ?_) id
  rw [Job.claimed_jobId] at h ⊢
  exact .claimed hg hp h

/-- **What a call does**: one of the effects, at every id. -/
theorem effect_of_exec (clock : Instant) (s : InMemoryJobStore) (call : Call) (id : UUID) :
    Effect clock call id s (s.exec clock call).2 := by
  cases call with
  | save job e =>
    cases hs : s.save job e with
    | mk res s' =>
      simp only [exec, hs]
      rcases res with err | u
      · rw [save_error hs]
        exact .same rfl
      · have hput : s' = s.put job := by
          rcases e with _ | e
          · exact (Prod.mk.inj hs).2.symm
          · obtain ⟨-, -, -, hput⟩ := save_some_ok.mp hs
            exact hput
        rw [hput]
        exact effect_of_put (fun h => .saved rfl rfl h) id
  | get id' => exact .same rfl
  | listByStatus status limit => exact .same rfl
  | delete id' =>
    by_cases hid : id = id'
    · exact .deleted (by simp only [exec, get_delete, if_pos hid])
    · exact .same (by simp only [exec, get_delete, if_neg hid])
  | deleteWhere f limit =>
    rcases get_deleteWhere s f limit id with h | h
    · exact .same h
    · exact .deleted h
  | tryClaim id' o ttl =>
    cases hs : s.tryClaim id' o ttl clock with
    | mk res s' =>
      simp only [exec, hs]
      rcases res with _ | c
      · rw [tryClaim_none hs]
        exact .same rfl
      · obtain ⟨job, hg, hp, -, rfl, rfl⟩ := tryClaim_some.mp hs
        obtain rfl := jobId_of_get hg
        exact effect_of_claimed hg hp id
  | claimNext o ttl now =>
    cases hs : s.claimNext o ttl (now.getD clock) with
    | mk res s' =>
      simp only [exec, hs]
      rcases res with _ | c
      · rw [claimNext_none hs]
        exact .same rfl
      · obtain ⟨job, hg, hp, -, rfl, rfl⟩ := claimNext_some hs
        exact effect_of_claimed hg hp id
  | renew id' o epoch ttl =>
    cases hs : s.renew id' o epoch ttl clock with
    | mk res s' =>
      simp only [exec, hs]
      rcases res with _ | c
      · rw [renew_none hs]
        exact .same rfl
      · obtain ⟨job, hg, -, -, rfl, rfl⟩ := renew_some.mp hs
        obtain rfl := jobId_of_get hg
        refine effect_of_put (fun h => ?_) id
        exact .renewed hg h
  | reapExpiredLeases now limit =>
    cases hs : s.reapExpiredLeases (now.getD clock) limit with
    | mk l s' =>
      simp only [exec, hs]
      rcases get_reapExpiredLeases id hs with ⟨h, -⟩ | ⟨job, hg, he, h, -⟩
      · exact .same h
      · exact .reaped rfl hg he h

end InMemoryJobStore

end Varco
