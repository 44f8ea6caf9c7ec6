import Mathlib.Data.Int.ConditionallyCompleteOrder
import Mathlib.Order.ConditionallyCompleteLattice.Basic
import Varco.Job.Redis

/-!
# Lease fencing of the Redis job store

Any number of clients claim, renew, reap and save jobs at once. A fenced save is guarded by `WATCH`:
it goes through only over the job whose epoch it checked (`exec_base`). The other calls read a job,
decide, and write it back without a guard, so their fence holds as long as nobody else writes the
job between the two. `NoOverlap` is that condition; `redis_lease_fencing` proves from it that epochs
never decrease, that leased claims of a job return different epochs, and that a renewal or a reap
writes over the very job it read. `renewal_overtaken` is the interleaving in which a renewal writes
over a reaped job and takes its epoch back.
-/

namespace Varco

open List

namespace RedisJobStore

open RedisServer (Answer)

abbrev LogEntry := Entry Instant RedisCmd RedisCmd.Res

/-- The command writes the key of the job `id`. -/
def Writes (id : UUID) (e : LogEntry) : Prop :=
  ∃ job, e.cmd.written e.res = some job ∧ job.jobId = id

/-- The copy `job` that a call of `client` makes of the job `base`. -/
def Client.Copies (base job : Job) : Client → Prop
  | .save .. => False
  | .tryClaim _ _ none => base.status = .pending ∧ ∃ started, job = runningCopy base started
  | .tryClaim _ o (some _) =>
    base.status = .pending ∧ ∃ started expires, job = leasedCopy base o started expires
  | .renew _ o e ttl =>
    base.ownerId = some o ∧ base.leaseEpoch = e ∧ ∃ now, job = base.renewed ttl now
  | .reap .. => base.leaseExpiresAt ≠ none ∧ job = base.reaped

def Read (base : Job) (log : List LogEntry) : Prop :=
  ∃ pre x post, log = pre ++ ⟨x, .get base.jobId, some base⟩ :: post ∧
    ∀ y ∈ post, ¬Writes base.jobId y

/-- What a call of `client` may send after the log `log`. -/
def Issued (client : Client) (log : List LogEntry) : RedisCmd → Prop
  | .set job => ∃ base, base.jobId = job.jobId ∧ Read base log ∧ client.Copies base job
  | .exec _ job => ∃ e x x' current, client = .save job e ∧
      log = [⟨x, .watch job.jobId, ()⟩, ⟨x', .get job.jobId, some current⟩] ∧
      current.leaseEpoch = e
  | _ => True

def Returned (client : Client) (log : List LogEntry) : Except PyException (List Job) → Prop
  | .ok jobs => ∀ id o ttl, client = .tryClaim id o ttl →
      ∀ job ∈ jobs, job.jobId = id ∧ ∃ x, ⟨x, .set job, ()⟩ ∈ log
  | .error _ => True

variable {client : Client} {log : List LogEntry} {base job : Job} {x : Instant}

theorem Read.of_get : Read base (log ++ [⟨x, .get base.jobId, some base⟩]) :=
  ⟨log, x, [], rfl, by simp⟩

theorem Read.snoc (h : Read base log) {y : LogEntry} (hy : ¬Writes base.jobId y) :
    Read base (log ++ [y]) := by
  obtain ⟨pre, x, post, rfl, hpost⟩ := h
  refine ⟨pre, x, post ++ [y], by simp, fun z hz => ?_⟩
  rcases mem_append.mp hz with hz | hz
  · exact hpost z hz
  · rwa [mem_singleton.mp hz]

variable {id : UUID}

theorem not_writes {y : LogEntry} (h : y.cmd.written y.res = none) : ¬Writes id y := by
  rintro ⟨job, hjob, -⟩
  cases h.symm.trans hjob

theorem not_writes_of_ne (h : job.jobId ≠ id) :
    ¬Writes id ⟨x, .set job, ()⟩ := by
  rintro ⟨job', hjob, hid⟩
  cases hjob
  exact h hid

/-! ## What the methods send -/

abbrev Spec {α : Type} (client : Client) (Ψ : List LogEntry → Except PyException α → Prop)
    (p : Rd α) (log : List LogEntry) : Prop :=
  Prog.Local (fun _ c r => Answer c r) (Issued client) Ψ p log

theorem spec_send {α : Type} {Ψ : List LogEntry → Except PyException α → Prop} {c : RedisCmd}
    {f : c.Res → Rd α} (hΦ : Issued client log c)
    (h : ∀ x r, Answer c r → Spec client Ψ (f r) (log ++ [⟨x, c, r⟩])) :
    Spec client Ψ (send c >>= f) log :=
  Prog.Local.call hΦ h

/-- An unfenced save of a copy of a job that was read. The job is then in the log as written, and
what was read of other jobs stays read. -/
theorem spec_saveUnfenced {α : Type} {Ψ : List LogEntry → Except PyException α → Prop}
    {f : Unit → Rd α} (hread : Read base log) (hid : base.jobId = job.jobId)
    (hcopy : client.Copies base job)
    (h : ∀ l, (∃ x, ⟨x, .set job, ()⟩ ∈ l) →
      (∀ b : Job, b.jobId ≠ job.jobId → Read b log → Read b l) → Spec client Ψ (f ()) l) :
    Spec client Ψ (saveUnfenced job >>= f) log := by
  refine Prog.Local.bindExcept (spec_send trivial fun x existing _ => ?_)
  have hread₁ : Read base (log ++ [⟨x, .get job.jobId, existing⟩]) :=
    hread.snoc (not_writes rfl)
  refine spec_send ⟨base, hid, hread₁, hcopy⟩ fun x₁ _ _ => ?_
  -- the updates of the status indexes
  have hzadd : ∀ l, (∃ x, ⟨x, .set job, ()⟩ ∈ l) →
      (∀ b : Job, b.jobId ≠ job.jobId → Read b log → Read b l) →
      Prog.Local (fun _ c r => Answer c r) (Issued client) (fun l a => match a with
        | .ok a => Prog.Local (fun _ c r => Answer c r) (Issued client) Ψ (f a) l
        | .error e => Ψ l (.error e))
        (send (.zadd job.status job.jobId job.createdAt) : Rd Unit) l := by
    intro l hset hother
    refine ⟨trivial, fun x₂ _ _ => h _ ?_ fun b hb hr => ?_⟩
    · obtain ⟨y, hy⟩ := hset
      exact ⟨y, mem_append_left _ hy⟩
    · exact (hother b hb hr).snoc (not_writes rfl)
  have hset : ∃ y, ⟨y, .set job, ()⟩ ∈ log ++ [⟨x, .get job.jobId, existing⟩] ++
      [⟨x₁, .set job, ()⟩] := ⟨x₁, by simp⟩
  have hother : ∀ b : Job, b.jobId ≠ job.jobId → Read b log →
      Read b (log ++ [⟨x, .get job.jobId, existing⟩] ++ [⟨x₁, .set job, ()⟩]) := by
    intro b hb hr
    exact (hr.snoc (not_writes rfl)).snoc (not_writes_of_ne (Ne.symm hb))
  cases existing with
  | none => exact hzadd _ hset hother
  | some old =>
    simp only [Option.map_some]
    split_ifs
    · refine spec_send trivial fun x₂ _ _ => hzadd _ ?_ fun b hb hr => ?_
      · exact ⟨x₁, by simp⟩
      · exact (hother b hb hr).snoc (not_writes rfl)
    · exact hzadd _ hset hother

theorem spec_releaseClaim :
    Spec client (fun _ a => a = .ok none) (releaseClaim id) log :=
  spec_send trivial fun _ _ _ => Prog.Local.pure_ok rfl

def ClaimReturned (id : UUID) (log : List LogEntry) : Except PyException (Option Job) → Prop
  | .ok (some job) => job.jobId = id ∧ ∃ x, ⟨x, .set job, ()⟩ ∈ log
  | _ => True

theorem spec_finishClaim {o : Option String} {ttl : Option Duration}
    (hid : base.jobId = id) (hread : Read base log) (hpending : base.status = .pending) :
    Spec (.tryClaim id o ttl) (ClaimReturned id) (finishClaim base o ttl) log := by
  refine spec_send trivial fun x started _ => ?_
  have hread₁ : Read base (log ++ [⟨x, .now, started⟩]) := hread.snoc (not_writes rfl)
  cases ttl with
  | none =>
    refine spec_saveUnfenced hread₁ rfl ⟨hpending, started, rfl⟩ fun l hset _ => ?_
    exact Prog.Local.pure_ok ⟨hid, hset⟩
  | some d =>
    refine spec_send trivial fun x' now _ => ?_
    have hread₂ := hread₁.snoc (y := ⟨x', .now, now⟩) (not_writes rfl)
    refine spec_saveUnfenced hread₂ rfl ⟨hpending, started, now + d, rfl⟩ fun l hset _ => ?_
    exact Prog.Local.pure_ok ⟨hid, hset⟩

theorem claimReturned_none {l : List LogEntry} {a : Except PyException (Option Job)}
    (h : a = .ok none) : ClaimReturned id l a := by
  rw [h]
  trivial

theorem spec_tryClaim {store : RedisJobStore} {o : Option String}
    {ttl : Option Duration} :
    Spec (.tryClaim id o ttl) (ClaimReturned id) (store.tryClaim id o ttl) [] := by
  refine spec_send trivial fun x acquired _ => ?_
  split_ifs
  · refine spec_send trivial fun x' found hfound => ?_
    cases found with
    | none => exact spec_releaseClaim.mono fun _ _ => claimReturned_none
    | some job =>
      obtain rfl : job.jobId = id := hfound
      have hread : Read job ([⟨x, .setClaim job.jobId store.claimTtl, acquired⟩] ++
          [⟨x', .get job.jobId, some job⟩]) := Read.of_get
      simp only
      split_ifs with hpending
      · exact spec_releaseClaim.mono fun _ _ => claimReturned_none
      · rw [not_not] at hpending
        cases job.runAt with
        | none => exact spec_finishClaim rfl hread hpending
        | some runAt =>
          refine spec_send trivial fun x'' now _ => ?_
          split_ifs
          · exact spec_releaseClaim.mono fun _ _ => claimReturned_none
          · exact spec_finishClaim rfl (hread.snoc (not_writes rfl)) hpending
  · exact Prog.Local.pure_ok trivial

theorem spec_renew {o : String} {e : ℤ} {ttl : Duration} :
    Spec (.renew id o e ttl) (fun _ _ => True) (renew id o e ttl) [] := by
  refine spec_send trivial fun x found hfound => ?_
  cases found with
  | none => exact Prog.Local.pure_ok trivial
  | some job =>
    obtain rfl : job.jobId = id := hfound
    simp only
    split_ifs with hheld
    · exact Prog.Local.pure_ok trivial
    · rw [not_or, not_not, not_not] at hheld
      refine spec_send trivial fun x' now _ => ?_
      have hread : Read job ([] ++ [⟨x, .get job.jobId, some job⟩] ++ [⟨x', .now, now⟩]) :=
        Read.of_get.snoc (not_writes rfl)
      refine spec_saveUnfenced hread rfl ⟨hheld.1, hheld.2, now, rfl⟩ fun l _ _ => ?_
      exact Prog.Local.pure_ok trivial

/-- What the list of a reap holds: jobs with different ids, all read and not written since. -/
def Listed (ids : List UUID) (jobs : List Job) (log : List LogEntry) : Prop :=
  (jobs.map Job.jobId ++ ids).Nodup ∧ ∀ j ∈ jobs, Read j log

theorem spec_getAll {ids : List UUID} {jobs : List Job} (h : Listed ids jobs log) :
    Spec client (fun l a => ∀ js, a = .ok js → Listed [] js l) (getAll ids jobs) log := by
  induction ids generalizing jobs log with
  | nil =>
    refine Prog.Local.pure_ok fun js hjs => ?_
    cases hjs
    exact h
  | cons id ids ih =>
    obtain ⟨hnodup, hread⟩ := h
    refine spec_send trivial fun x found hfound => ?_
    have hkeep : ∀ j ∈ jobs, Read j (log ++ [⟨x, .get id, found⟩]) :=
      fun j hj => (hread j hj).snoc (not_writes rfl)
    cases found with
    | none => exact ih ⟨hnodup.sublist (by simp), hkeep⟩
    | some job =>
      obtain rfl : job.jobId = id := hfound
      refine ih ⟨by simpa using hnodup, fun j hj => ?_⟩
      rcases mem_append.mp hj with hj | hj
      · exact hkeep j hj
      · rw [mem_singleton.mp hj]
        exact Read.of_get

theorem spec_listByStatus {status : JobStatus} {limit : ℤ} :
    Spec client (fun l a => ∀ js, a = .ok js → Listed [] js l) (listByStatus status limit) log := by
  refine spec_send trivial fun x ids hids => ?_
  have hnodup : ids.Nodup := hids
  exact spec_getAll ⟨by simpa using hnodup, by simp⟩

/-- The loop writes each job of the list once, so the jobs that are left stay read. -/
theorem spec_reapLoop {now : Option Instant} {limit : ℤ} {current : Instant}
    {jobs reaped : List Job} (h : Listed [] jobs log) :
    Spec (.reap now limit) (fun _ _ => True) (reapLoop current jobs reaped) log := by
  induction jobs generalizing reaped log with
  | nil => exact Prog.Local.pure_ok trivial
  | cons job jobs ih =>
    obtain ⟨hnodup, hread⟩ := h
    rw [append_nil, map_cons, nodup_cons] at hnodup
    have hrest : ∀ j ∈ jobs, Read j log := fun j hj => hread j (mem_cons_of_mem _ hj)
    unfold reapLoop
    split_ifs with hexpired
    · have hleased : job.leaseExpiresAt ≠ none := by
        intro hnone
        simp [hnone] at hexpired
      refine spec_saveUnfenced (hread job mem_cons_self) rfl ⟨hleased, rfl⟩
        fun l _ hother => ?_
      refine spec_send trivial fun x _ _ => ih ⟨by simpa using hnodup.2, fun j hj => ?_⟩
      have hne : j.jobId ≠ job.jobId := fun he => hnodup.1 (mem_map.mpr ⟨j, hj, he⟩)
      exact (hother j hne (hrest j hj)).snoc (not_writes rfl)
    · exact ih ⟨by simpa using hnodup.2, hrest⟩

theorem spec_reapExpiredLeases {now : Option Instant} {limit : ℤ} :
    Spec (.reap now limit) (fun _ _ => True) (reapExpiredLeases now limit) [] := by
  have hsweep : ∀ current l, Spec (.reap now limit) (fun _ _ => True)
      (listByStatus .running limit >>= fun running => reapLoop current running []) l := by
    intro current l
    refine Prog.Local.bindExcept (spec_listByStatus.mono fun l' a ha => ?_)
    cases a with
    | ok jobs => exact spec_reapLoop (ha jobs rfl)
    | error e => trivial
  cases now with
  | some current => exact hsweep current []
  | none => exact spec_send trivial fun x current _ => hsweep current _

theorem spec_saveFenced {e : ℤ} :
    Spec (.save job e) (fun _ _ => True) (saveFenced job e) [] := by
  refine spec_send trivial fun x _ _ => spec_send trivial fun x' found _ => ?_
  cases found with
  | none => exact spec_send trivial fun _ _ _ => Prog.Local.throw trivial
  | some current =>
    simp only
    split_ifs with hepoch
    · exact spec_send trivial fun _ _ _ => Prog.Local.throw trivial
    · rw [not_not] at hepoch
      refine spec_send ⟨e, x, x', current, rfl, rfl, hepoch⟩ fun _ done _ => ?_
      split_ifs
      · exact Prog.Local.pure_ok trivial
      · exact Prog.Local.throw trivial

/-- **What every client sends and returns.** -/
theorem spec_run (store : RedisJobStore) (client : Client) :
    Spec client (Returned client) (client.run store) [] := by
  cases client with
  | save job e =>
    refine Prog.Local.bindExcept (spec_saveFenced.mono fun l a _ => ?_)
    cases a with
    | ok u => exact Prog.Local.pure_ok (by simp [Returned])
    | error e => trivial
  | tryClaim id o ttl =>
    refine Prog.Local.bindExcept (spec_tryClaim.mono fun l a ha => ?_)
    rcases a with e | _ | claimed
    · trivial
    · exact Prog.Local.pure_ok (by simp [Returned])
    · refine Prog.Local.pure_ok fun id' o' ttl' hc job hj => ?_
      cases hc
      rw [Option.toList_some, mem_singleton] at hj
      rw [hj]
      exact ha
  | renew id o e ttl =>
    refine Prog.Local.bindExcept (spec_renew.mono fun l a _ => ?_)
    cases a with
    | ok renewed => exact Prog.Local.pure_ok (by simp [Returned])
    | error e => trivial
  | reap now limit =>
    refine spec_reapExpiredLeases.mono fun l a _ => ?_
    cases a with
    | ok jobs => exact fun id o ttl hc => by cases hc
    | error e => trivial

/-! ## The clients over one server -/

section

variable {ι : Type} [DecidableEq ι]

/-- The calls of the clients, each on its own connection, over one server. -/
def redisPool (store : RedisJobStore) (server : RedisServer ι) (clients : ι → Client) :
    Pool ι (RedisServer ι) RedisCmd RedisCmd.Res (Except PyException (List Job)) :=
  ⟨server, fun i => (clients i).run store⟩

abbrev RedisStep : Pool ι (RedisServer ι) RedisCmd RedisCmd.Res (Except PyException (List Job)) →
    Event ι Instant RedisCmd RedisCmd.Res →
    Pool ι (RedisServer ι) RedisCmd RedisCmd.Res (Except PyException (List Job)) → Prop :=
  Pool.Step RedisServer.exec

variable {store : RedisJobStore} {server : RedisServer ι} {clients : ι → Client} {id : UUID} {i : ι}
  {e : Event ι Instant RedisCmd RedisCmd.Res}
  {l l₁ l₂ : List (Event ι Instant RedisCmd RedisCmd.Res)}
  {P P' : Pool ι (RedisServer ι) RedisCmd RedisCmd.Res (Except PyException (List Job))}

/-- **What any interleaving sends.** -/
theorem sent_of_run (h : Run RedisStep (redisPool store server clients) (l₁ ++ e :: l₂) P) :
    Issued (clients e.thread) (Pool.log e.thread l₁) e.cmd :=
  Pool.issued (P := redisPool store server clients) (Φ := fun i => Issued (clients i))
    (Ψ := fun i => Returned (clients i)) (fun _ _ _ _ _ _ => RedisServer.answer_of_exec)
    (fun i => spec_run store (clients i)) h

theorem returned_of_run (h : Run RedisStep (redisPool store server clients) l P)
    {a : Except PyException (List Job)} (ha : P.prog i = .ret a) :
    Returned (clients i) (Pool.log i l) a :=
  Pool.returned (P := redisPool store server clients) (Φ := fun i => Issued (clients i))
    (Ψ := fun i => Returned (clients i)) (fun _ _ _ _ _ _ => RedisServer.answer_of_exec)
    (fun i => spec_run store (clients i)) h ha

theorem get_of_step (hst : RedisStep P e P') (h : ¬Writes id e.toEntry) :
    P'.shared.jobs.get id = P.shared.jobs.get id := by
  have hjobs := RedisServer.jobs_of_exec hst.exec_eq
  cases hw : e.cmd.written e.res with
  | none =>
    rw [hw] at hjobs
    rw [hjobs]
  | some job =>
    rw [hw] at hjobs
    have hne : job.jobId ≠ id := fun hid => h ⟨job, hw, hid⟩
    rw [hjobs, KeyedMap.get_put_ne _ hne]

theorem get_of_written (hst : RedisStep P e P') (h : e.cmd.written e.res = some job) :
    P'.shared.jobs.get job.jobId = some job := by
  have hjobs := RedisServer.jobs_of_exec hst.exec_eq
  rw [h] at hjobs
  rw [hjobs, KeyedMap.get_put_self]

/-- A `GET` answers what is stored. -/
theorem get_of_get (hst : RedisStep P e P') {found : Option Job}
    (he : e.toEntry = ⟨x, .get id, found⟩) :
    P.shared.jobs.get id = found ∧ P'.shared.jobs.get id = found := by
  obtain ⟨⟨x', c, r⟩, j⟩ := e
  cases he
  have hp := RedisServer.perform_of_exec hst.exec_eq
  have hP : P.shared.jobs.get id = found := congrArg Prod.fst hp
  exact ⟨hP, (get_of_step hst (not_writes rfl)).trans hP⟩

/-- Connection `i` watches `id`, and what is stored there is `v` unless the key was written. -/
def Watching (i : ι) (id : UUID) (v : Option Job) (s : RedisServer ι) : Prop :=
  ∃ touched, s.watched i = some (id, touched) ∧ (touched = false → s.jobs.get id = v)

theorem Watching.step {v : Option Job} (h : Watching i id v P.shared) (hst : RedisStep P e P')
    (hne : e.thread ≠ i) : Watching i id v P'.shared := by
  obtain ⟨touched, hw, hv⟩ := h
  have hwatched := RedisServer.watched_of_exec (Ne.symm hne) hst.exec_eq
  cases hc : e.cmd.written e.res with
  | none =>
    rw [hc] at hwatched
    refine ⟨touched, hwatched.trans hw, fun ht => ?_⟩
    rw [get_of_step hst (not_writes hc), hv ht]
  | some job =>
    rw [hc] at hwatched
    refine ⟨touched || id = job.jobId, by rw [hwatched, hw]; rfl, fun ht => ?_⟩
    rw [Bool.or_eq_false_iff, decide_eq_false_iff_not] at ht
    have hother : ¬Writes id e.toEntry := by
      rintro ⟨job', hjob', hid⟩
      cases hc.symm.trans hjob'
      exact ht.2 hid.symm
    rw [get_of_step hst hother, hv ht.1]

theorem Watching.run {v : Option Job} (h : Watching i id v P.shared) (hrun : Run RedisStep P l P')
    (hl : Pool.log i l = []) : Watching i id v P'.shared := by
  refine hrun.invariant (I := fun P => Watching i id v P.shared) (fun Q a Q' ha hst hQ => ?_) h
  refine hQ.step hst fun hi => ?_
  have hmem := Pool.mem_log.mpr ⟨a, ha, hi, rfl⟩
  rw [hl] at hmem
  cases hmem

theorem Watching.of_watch (hst : RedisStep P e P') (he : e.toEntry = ⟨x, .watch id, ()⟩) :
    Watching e.thread id (P'.shared.jobs.get id) P'.shared := by
  obtain ⟨⟨y, c, r⟩, j⟩ := e
  cases he
  have hp := congrArg Prod.snd (RedisServer.perform_of_exec hst.exec_eq)
  have hw : P'.shared.watched j = Function.update P.shared.watched j (some (id, false)) j :=
    (congrFun (congrArg RedisServer.watched hp) j).symm
  rw [Function.update_self] at hw
  exact ⟨false, hw, fun _ => rfl⟩

/-- A `GET` of the watched key. -/
theorem Watching.get {v found : Option Job} (h : Watching i id v P.shared)
    (hst : RedisStep P e P') (he : e.toEntry = ⟨x, .get id, found⟩) :
    Watching i id found P'.shared := by
  have hfound := (get_of_get hst he).2
  obtain ⟨touched, hw, -⟩ := h
  obtain ⟨⟨y, c, r⟩, j⟩ := e
  cases he
  have hp := congrArg Prod.snd (RedisServer.perform_of_exec hst.exec_eq)
  have hw' : P'.shared.watched = P.shared.watched := (congrArg RedisServer.watched hp).symm
  exact ⟨touched, by rw [hw', hw], fun _ => hfound⟩

/-- `EXEC` is refused if the key was written. -/
theorem Watching.exec {v : Option Job} {old : JobStatus} (h : Watching e.thread id v P.shared)
    (hst : RedisStep P e P') (he : e.cmd = .exec old job)
    (hwritten : e.cmd.written e.res = some job) : P.shared.jobs.get id = v := by
  obtain ⟨touched, hw, hv⟩ := h
  refine hv ?_
  obtain ⟨⟨y, c, r⟩, j⟩ := e
  cases he
  cases touched with
  | false => rfl
  | true =>
    have hp := RedisServer.perform_of_exec hst.exec_eq
    have hj : P.shared.watched j = some (id, true) := hw
    simp only [RedisServer.perform, hj] at hp
    obtain rfl : false = r := congrArg Prod.fst hp
    cases hwritten

/-- **`EXEC` goes through only over the job that was checked.** -/
theorem exec_base {old : JobStatus} (h : Run RedisStep (redisPool store server clients) l P)
    (hrun : Run RedisStep (redisPool store server clients) (l ++ [e]) P') (hst : RedisStep P e P')
    (he : e.cmd = .exec old job) (hwritten : e.cmd.written e.res = some job) :
    ∃ current ep, clients e.thread = .save job ep ∧ current.leaseEpoch = ep ∧
      P.shared.jobs.get job.jobId = some current := by
  have hsent := sent_of_run hrun
  rw [he] at hsent
  obtain ⟨ep, x, x', current, hclient, hlog, hepoch⟩ := hsent
  refine ⟨current, ep, hclient, hepoch, ?_⟩
  -- from the `WATCH` to the `GET`, and from there to here
  rw [← nil_append [_, _]] at hlog
  obtain ⟨l₁, w, l₂, rfl, hwt, hw, -, hlog₂⟩ := Pool.split_log hlog
  rw [← nil_append [_]] at hlog₂
  obtain ⟨l₃, g, l₄, rfl, -, hg, hlog₃, hlog₄⟩ := Pool.split_log hlog₂
  obtain ⟨P₁, P₂, -, hstw, hrest⟩ := h.at_label
  obtain ⟨P₃, P₄, hrun₃, hstg, hrun₄⟩ := hrest.at_label
  have hwatch := Watching.of_watch hstw hw
  rw [hwt] at hwatch
  have hcurrent := ((hwatch.run hrun₃ hlog₃).get hstg hg).run hrun₄ hlog₄
  exact hcurrent.exec hst he hwritten

/-- Between the first read of a job by a call and the call's own `SET` of it, no other client writes
the job. -/
def NoOverlap (past : List (Event ι Instant RedisCmd RedisCmd.Res))
    (_ : Pool ι (RedisServer ι) RedisCmd RedisCmd.Res (Except PyException (List Job)))
    (e : Event ι Instant RedisCmd RedisCmd.Res) : Prop :=
  ∀ job, e.cmd = .set job → ∀ l₁ g (l₂ : List (Event ι _ RedisCmd _)), past = l₁ ++ g :: l₂ →
    g.thread = e.thread → g.cmd = .get job.jobId →
    ∀ a ∈ l₂, a.thread ≠ e.thread → ¬Writes job.jobId a.toEntry

/-- **An undisturbed `SET` goes over the job that was read.** -/
theorem set_base (h : Run RedisStep (redisPool store server clients) l P)
    (hrun : Run RedisStep (redisPool store server clients) (l ++ [e]) P') (hok : NoOverlap l P e)
    (he : e.cmd = .set job) :
    ∃ base x, base.jobId = job.jobId ∧ ⟨x, .get base.jobId, some base⟩ ∈ Pool.log e.thread l ∧
      P.shared.jobs.get job.jobId = some base ∧ (clients e.thread).Copies base job := by
  have hsent := sent_of_run hrun
  rw [he] at hsent
  obtain ⟨base, hid, ⟨pre, x, post, hlog, hpost⟩, hcopy⟩ := hsent
  refine ⟨base, x, hid, by rw [hlog]; simp, ?_, hcopy⟩
  obtain ⟨l₁, g, l₂, rfl, hgt, hg, -, hlog₂⟩ := Pool.split_log hlog
  obtain ⟨P₁, P₂, -, hstg, hrest⟩ := h.at_label
  have hread : P₂.shared.jobs.get base.jobId = some base := (get_of_get hstg hg).2
  -- nothing has written the job since: not this thread, and no other
  have hsame : P.shared.jobs.get base.jobId = P₂.shared.jobs.get base.jobId := by
    refine hrest.eq_of_step (f := fun Q => Q.shared.jobs.get base.jobId) fun Q a Q' ha hst => ?_
    refine get_of_step hst ?_
    by_cases hi : a.thread = e.thread
    · refine hpost a.toEntry ?_
      rw [← hlog₂]
      exact Pool.mem_log.mpr ⟨a, ha, hi, rfl⟩
    · rw [hid]
      refine hok job he l₁ g l₂ rfl hgt ?_ a ha hi
      rw [show g.cmd = g.toEntry.cmd from rfl, hg, hid]
  rw [← hid, hsame, hread]

/-! ## Fencing -/

/-- The epoch of a stored job, `⊥` if there is none. -/
def epoch (s : RedisServer ι) (id : UUID) : WithBot ℤ := (s.jobs.get id).map Job.leaseEpoch

omit [DecidableEq ι] in
theorem epoch_eq {s : RedisServer ι} (h : s.jobs.get id = some job) :
    epoch s id = job.leaseEpoch := by
  unfold epoch
  rw [h]
  rfl

theorem Client.Copies.epoch_le (h : client.Copies base job) : base.leaseEpoch ≤ job.leaseEpoch := by
  rcases client with _ | ⟨_, _, _ | _⟩ | _ | _
  · exact absurd h not_false
  · obtain ⟨-, started, rfl⟩ := h
    exact le_rfl
  · obtain ⟨-, started, expires, rfl⟩ := h
    exact Int.le_of_lt (Int.lt_succ _)
  · obtain ⟨-, -, now, rfl⟩ := h
    exact le_rfl
  · obtain ⟨-, rfl⟩ := h
    exact Int.le_of_lt (Int.lt_succ _)

/-- The clients pass to a fenced save a job that is not behind the epoch they expect. -/
def SavesForward (clients : ι → Client) : Prop :=
  ∀ i job e, clients i = .save job e → e ≤ job.leaseEpoch

variable {P₁ P₂ : Pool ι (RedisServer ι) RedisCmd RedisCmd.Res (Except PyException (List Job))}

theorem epoch_le_of_step (hsave : SavesForward clients)
    (h : Run RedisStep (redisPool store server clients) l P)
    (hrun : Run RedisStep (redisPool store server clients) (l ++ [e]) P') (hok : NoOverlap l P e)
    (hst : RedisStep P e P') (id : UUID) : epoch P.shared id ≤ epoch P'.shared id := by
  by_cases hw : Writes id e.toEntry
  · obtain ⟨job, hjob, rfl⟩ := hw
    have hnew := epoch_eq (get_of_written hst hjob)
    have hbase : ∃ base, P.shared.jobs.get job.jobId = some base ∧
        base.leaseEpoch ≤ job.leaseEpoch := by
      rcases RedisCmd.eq_of_written hjob with hc | ⟨old, hc⟩
      · obtain ⟨base, x, -, -, hget, hcopy⟩ := set_base h hrun hok hc
        exact ⟨base, hget, hcopy.epoch_le⟩
      · obtain ⟨current, ep, hclient, hepoch, hget⟩ := exec_base h hrun hst hc hjob
        exact ⟨current, hget, hepoch.trans_le (hsave _ _ _ hclient)⟩
    obtain ⟨base, hget, hle⟩ := hbase
    rw [hnew, epoch_eq hget]
    exact WithBot.coe_le_coe.mpr hle
  · have hsame : epoch P'.shared id = epoch P.shared id := by
      unfold epoch
      rw [get_of_step hst hw]
    exact hsame.ge

theorem epoch_le_of_run (hsave : SavesForward clients)
    (h : Guarded RedisStep NoOverlap (redisPool store server clients) (l₁ ++ l₂) P₂)
    (h₁ : Run RedisStep (redisPool store server clients) l₁ P₁) (id : UUID) :
    epoch P₁.shared id ≤ epoch P₂.shared id :=
  h.le (f := fun P => epoch P.shared id) (fun _ _ _ _ => Pool.Step.det) h₁
    fun _ _ _ _ h' hl hok hst => epoch_le_of_step hsave hl.run h'.run hok hst id

/-- The job that a leased claim writes after another write of the job has a later epoch. -/
theorem epoch_lt_of_claim (hsave : SavesForward clients) {l₃ : List _}
    {a b : Event ι _ RedisCmd RedisCmd.Res} {c d : Job} {o : Option String} {ttl : Duration}
    (h : Guarded RedisStep NoOverlap (redisPool store server clients)
      (l₁ ++ a :: (l₂ ++ b :: l₃)) P)
    (ha : a.cmd.written a.res = some c) (hb : b.cmd = .set d) (hid : c.jobId = d.jobId)
    (hclient : clients b.thread = .tryClaim id o (some ttl)) : c.leaseEpoch < d.leaseEpoch := by
  rw [append_cons, ← append_assoc] at h
  obtain ⟨P₂, P₃, h₂, hok, -, h₃, -⟩ := h.at_label
  obtain ⟨P₁, h₁, -⟩ := h₂.split
  obtain ⟨P₀, h₀, -, hst₀⟩ := h₁.snoc_inv
  have hle := epoch_le_of_run hsave h₂ h₁.run d.jobId
  have hc : epoch P₁.shared d.jobId = c.leaseEpoch := hid ▸ epoch_eq (get_of_written hst₀ ha)
  obtain ⟨base, x, -, -, hget, hcopy⟩ := set_base h₂.run h₃.run hok hb
  rw [hclient] at hcopy
  obtain ⟨-, started, expires, rfl⟩ := hcopy
  rw [hc, epoch_eq hget, WithBot.coe_le_coe] at hle
  exact Int.lt_add_one_of_le hle

/-- **Lease fencing**, in the runs without overlap: epochs never decrease, the leased claims of a
job return different epochs, and what a call writes without a guard goes over the job it has
read. -/
theorem redis_lease_fencing (hsave : SavesForward clients)
    (h : Guarded RedisStep NoOverlap (redisPool store server clients) l P) :
    (∀ l₁ l₂ P₁, l = l₁ ++ l₂ → Run RedisStep (redisPool store server clients) l₁ P₁ →
      ∀ id, epoch P₁.shared id ≤ epoch P.shared id) ∧
    (∀ i j id o o' ttl ttl' c d, i ≠ j → clients i = .tryClaim id o (some ttl) →
      clients j = .tryClaim id o' (some ttl') → P.prog i = .ret (.ok [c]) →
      P.prog j = .ret (.ok [d]) → c.leaseEpoch ≠ d.leaseEpoch) ∧
    (∀ l₁ (e : Event ι _ RedisCmd _) l₂ P₁ job, l = l₁ ++ e :: l₂ → e.cmd = .set job →
      Run RedisStep (redisPool store server clients) l₁ P₁ →
      ∃ base x, ⟨x, .get job.jobId, some base⟩ ∈ Pool.log e.thread l₁ ∧
        P₁.shared.jobs.get job.jobId = some base ∧ (clients e.thread).Copies base job) := by
  refine ⟨?_, ?_, ?_⟩
  · rintro l₁ l₂ P₁ rfl h₁ id
    exact epoch_le_of_run hsave h h₁ id
  · intro i j id o o' ttl ttl' c d hij hi hj hretc hretd
    obtain ⟨hcid, x, hc⟩ := returned_of_run h.run hretc id o (some ttl) hi c (by simp)
    obtain ⟨hdid, y, hd⟩ := returned_of_run h.run hretd id o' (some ttl') hj d (by simp)
    obtain ⟨a, ha, rfl, hac⟩ := Pool.mem_log.mp hc
    obtain ⟨b, hb, rfl, hbd⟩ := Pool.mem_log.mp hd
    have hne : a ≠ b := fun he => hij (congrArg Event.thread he)
    have hsetc : a.cmd = .set c := congrArg Entry.cmd hac
    have hsetd : b.cmd = .set d := congrArg Entry.cmd hbd
    -- the claim that is written first has the earlier epoch
    rcases order_of_mem ha hb hne with ⟨l₁, l₂, l₃, rfl⟩ | ⟨l₁, l₂, l₃, rfl⟩
    · exact (epoch_lt_of_claim hsave h (by rw [hac]; rfl) hsetd (hcid.trans hdid.symm) hj).ne
    · exact (epoch_lt_of_claim hsave h (by rw [hbd]; rfl) hsetc (hdid.trans hcid.symm) hi).ne'
  · rintro l₁ e l₂ P₁ job rfl hset h₁
    obtain ⟨P₂, P₃, h₂, hok, -, h₃, -⟩ := h.at_label
    obtain rfl := h₁.det (fun _ _ _ _ => Pool.Step.det) h₂.run
    obtain ⟨base, x, hid, hread, hget, hcopy⟩ := set_base h₂.run h₃.run hok hset
    exact ⟨base, x, hid ▸ hread, hget, hcopy⟩

end

/-! ## A renewal that is overtaken -/

def oneJob : RedisServer ℕ where
  jobs := KeyedMap.empty.put { jobId := 1 }
  index
    | .pending => Dict.empty.set 1 0
    | _ => .empty

/-- Three workers claim the job, the first of them renews its lease, and two reapers run. -/
def overtakenClients : ℕ → Client
  | 0 => .tryClaim 1 (some "a") (some 10000000)
  | 1 => .renew 1 "a" 1 10000000
  | 2 => .reap none 100
  | 3 => .tryClaim 1 (some "b") (some 10000000)
  | 4 => .reap none 100
  | 5 => .tryClaim 1 (some "c") (some 10000000)
  | _ => .reap none 100

/-- Worker a claims the job and starts to renew its lease, which has then expired: the job is reaped
and claimed by worker b. -/
def claimReapClaim : List (ℕ × Instant) :=
  List.replicate 8 (0, 0) ++ List.replicate 2 (1, 9000000) ++ List.replicate 8 (2, 20000000) ++
    List.replicate 8 (3, 20000000)

def finishRenewal : List (ℕ × Instant) := List.replicate 3 (1, 21000000)

def reapClaim : List (ℕ × Instant) :=
  List.replicate 8 (4, 40000000) ++ List.replicate 8 (5, 40000000)

/-- **The renewal of a writes over the job that b has claimed**: the epoch goes back from 3 to 1,
and the next claim returns the epoch that b was given. -/
theorem renewal_overtaken :
    ∃ l₁ l₂ l₃ P₁ P₂ P₃ b c,
      Run RedisStep (redisPool {} oneJob overtakenClients) l₁ P₁ ∧ Run RedisStep P₁ l₂ P₂ ∧
      Run RedisStep P₂ l₃ P₃ ∧ epoch P₂.shared 1 < epoch P₁.shared 1 ∧
      P₁.shared.jobs.get 1 = some b ∧ b.ownerId = some "b" ∧
      P₃.prog 3 = .ret (.ok [b]) ∧ P₃.prog 5 = .ret (.ok [c]) ∧ b.leaseEpoch = c.leaseEpoch := by
  refine ⟨_, _, _, _, _, _, _, _, Pool.run_of_sched (q := claimReapClaim) rfl,
    Pool.run_of_sched (q := finishRenewal) rfl, Pool.run_of_sched (q := reapClaim) rfl,
    WithBot.coe_lt_coe.mpr (by decide : (1 : ℤ) < 3), rfl, rfl, rfl, rfl, rfl⟩

/-- In turn: a claims the job and renews its lease, the job is reaped, and b claims it. -/
def inTurn : List (ℕ × Instant) :=
  List.replicate 8 (0, 0) ++ List.replicate 5 (1, 9000000) ++ List.replicate 8 (2, 20000000) ++
    List.replicate 8 (3, 20000000)

/-- Nobody is overtaken: the epoch has gone up to 3, and a and b were given different ones. -/
theorem redis_lease_fencing_inTurn :
    ∃ l P a b, Guarded RedisStep NoOverlap (redisPool {} oneJob overtakenClients) l P ∧
      P.prog 0 = .ret (.ok [a]) ∧ P.prog 3 = .ret (.ok [b]) ∧ epoch P.shared 1 = (3 : ℤ) ∧
      epoch oneJob 1 ≤ epoch P.shared 1 ∧ a.leaseEpoch ≠ b.leaseEpoch := by
  have hsave : SavesForward overtakenClients := by
    intro i job e hi
    rcases i with _ | _ | _ | _ | _ | _ | i <;> cases hi
  obtain ⟨l, P, a, b, hrun, ha, hb, hepoch, hturns⟩ : ∃ l P a b,
      Run RedisStep (redisPool {} oneJob overtakenClients) l P ∧
        P.prog 0 = .ret (.ok [a]) ∧ P.prog 3 = .ret (.ok [b]) ∧ epoch P.shared 1 = (3 : ℤ) ∧
        (l.map Event.thread).Pairwise (· ≤ ·) :=
    ⟨_, _, _, _, Pool.run_of_sched (q := inTurn) rfl, rfl, rfl, rfl, by decide⟩
  have hguard : Guarded RedisStep NoOverlap (redisPool {} oneJob overtakenClients) l P := by
    refine .of_run hrun ?_
    rintro _ e l₃ Q rfl - job - l₁ g l₂ rfl hg - x hx hne
    exact absurd (Pool.thread_of_between hturns hg hx) hne
  obtain ⟨hle, hne, -⟩ := redis_lease_fencing hsave hguard
  exact ⟨l, P, a, b, hguard, ha, hb, hepoch, hle [] l _ rfl (.nil _) 1,
    hne 0 3 1 _ _ _ _ a b (by decide) rfl rfl ha hb⟩

end RedisJobStore

end Varco
