import Varco.Job.Runner

/-!
# What the tasks issue

The runners and pollers as threads of one pool, and what each of their programs issues, in terms of
its own log: a job that is saved is a transition of the copy the thread saw last (`Issued`), except
for the one that `enqueue` stores; the coroutine of a job is started once for each time the thread
was handed the job or stored it RUNNING; and a claimed job is handed to one task for each claim.
`issued_of_run` carries this to every interleaving.
-/

namespace Varco

open List Py

abbrev LogEntry := Entry Choice Cmd Cmd.Res

/-- The copy of the job `id` that an answer shows to its thread. -/
def LogEntry.shows (id : UUID) : LogEntry → Option Job
  | ⟨_, .store (.get _), .ok (some job)⟩ => if job.jobId = id then some job else none
  | ⟨_, .store (.listByStatus ..), .ok jobs⟩ => jobs.find? (·.jobId = id)
  | ⟨_, .store (.save job _), .ok (.ok _)⟩ => if job.jobId = id then some job else none
  | ⟨_, .begin, .ok (.runClaimedJob _ job)⟩ => if job.jobId = id then some job else none
  | _ => none

/-- The copy of the job `id` that a thread saw last: read, was handed, or wrote. -/
def lastSeen (id : UUID) (log : List LogEntry) : Option Job :=
  log.foldl (fun seen e => (e.shows id).or seen) none

theorem lastSeen_snoc (id : UUID) (log : List LogEntry) (e : LogEntry) :
    lastSeen id (log ++ [e]) = (e.shows id).or (lastSeen id log) := by
  simp [lastSeen]

/-- The coroutine of the job `id` starts. -/
def LogEntry.starts (id : UUID) : LogEntry → Bool
  | ⟨_, .startCoro id', _⟩ => id' = id
  | _ => false

/-- A task begins with the claimed job `id`. -/
def LogEntry.begins (id : UUID) : LogEntry → Bool
  | ⟨_, .begin, .ok (.runClaimedJob _ job)⟩ => job.jobId = id
  | _ => false

/-- The job `id` is stored RUNNING. -/
def LogEntry.savesRunning (id : UUID) : LogEntry → Bool
  | ⟨_, .store (.save job _), .ok (.ok _)⟩ => job.jobId = id && job.status = .running
  | _ => false

/-- The thread takes the job `id` up: it is handed the claimed job, or stores it RUNNING. -/
def LogEntry.takes (id : UUID) (e : LogEntry) : Bool := e.begins id || e.savesRunning id

/-- A task is created for the claimed job `id`. -/
def LogEntry.creates (id : UUID) : LogEntry → Bool
  | ⟨_, .createTask (.runClaimedJob _ job), _⟩ => job.jobId = id
  | _ => false

/-- The job `id` is claimed. -/
def LogEntry.claims (id : UUID) : LogEntry → Bool
  | ⟨_, .store (.tryClaim ..), .ok (some job)⟩ => job.jobId = id
  | _ => false

/-- The job that an `enqueue` stores: the one it was given, with its schedule. -/
def Client.Enqueues (client : Client) (job : Job) : Prop :=
  ∃ r job₀ s runAt, client = .enqueue r job₀ s ∧ JobRunner.prepareZonedJob job₀ s runAt = .ok job

/-- What a thread may issue after the log `log`. -/
def Issued (client : Client) (log : List LogEntry) : Cmd → Prop
  | .store (.save job e) => e = none ∧
      (client.Enqueues job ∧ lastSeen job.jobId log = none ∨
        ∃ base, lastSeen job.jobId log = some base ∧ base.Next job)
  | .store (.tryClaim _ o ttl) => o = none ∧ ttl = none
  | .store (.claimNext ..) => False
  | .store (.renew ..) => False
  | .store (.delete _) => False
  | .startCoro id => log.countP (LogEntry.starts id) < log.countP (LogEntry.takes id)
  | .createTask (.runClaimedJob _ job) =>
      log.countP (LogEntry.creates job.jobId) < log.countP (LogEntry.claims job.jobId)
  | _ => True

/-- The job that an answer hands to its thread to run: a claim, the claimed job of a task, or a
PENDING job that was read. -/
def LogEntry.handed : LogEntry → Option Job
  | ⟨_, .store (.tryClaim ..), .ok claimed⟩ => claimed
  | ⟨_, .begin, .ok (.runClaimedJob _ job)⟩ => some job
  | ⟨_, .store (.get _), .ok (some job)⟩ => if job.status = .pending then some job else none
  | _ => none

/-- The job `job`, up to its state, was handed to the thread. -/
def Handed (log : List LogEntry) (job : Job) : Prop :=
  ∃ e ∈ log, ∃ j, e.handed = some j ∧ j.runAt = job.runAt

def Backed (log : List LogEntry) : Cmd → Prop
  | .startCoro id => ∃ job, lastSeen id log = some job ∧ Handed log job
  | .createTask (.runClaimedJob _ job) => Handed log job
  | _ => True

theorem Handed.snoc {log : List LogEntry} {job : Job} (h : Handed log job) (e : LogEntry) :
    Handed (log ++ [e]) job := by
  obtain ⟨e', he, j, hj, hrun⟩ := h
  exact ⟨e', mem_append_left _ he, j, hj, hrun⟩

theorem Handed.congr {log : List LogEntry} {job job' : Job} (h : Handed log job)
    (hrun : job.runAt = job'.runAt) : Handed log job' := by
  obtain ⟨e, he, j, hj, hj'⟩ := h
  exact ⟨e, he, j, hj, hj'.trans hrun⟩

theorem handed_snoc {log : List LogEntry} {job : Job} {e : LogEntry} (h : e.handed = some job) :
    Handed (log ++ [e]) job :=
  ⟨e, by simp, job, h, rfl⟩

def Warranted (client : Client) (log : List LogEntry) (c : Cmd) : Prop :=
  Issued client log c ∧ Backed log c

/-! ## Program by program -/

open LogEntry

variable {client : Client} {log : List LogEntry} {r : JobRunner} {job : Job} {exc : PyException}

theorem spec_publish {id : UUID} {status : JobStatus} {error : Option String} :
    Spec (Warranted client) (fun _ _ => True) (r.publishProgress id status error) log :=
  JobRunner.spec_publishProgress ⟨trivial, trivial⟩ trivial fun _ _ _ => trivial

/-- A save of a transition of the copy seen last, and what follows it. -/
theorem spec_save_next (base : Job) {f : Unit → Py Unit}
    (hseen : lastSeen base.jobId log = some base) (hnext : base.Next job)
    (hf : ∀ l, Spec (Warranted client) (fun _ _ => True) (f ()) l) :
    Spec (Warranted client) (fun _ _ => True) (save job >>= f) log := by
  refine spec_bind (spec_save ⟨⟨rfl, Or.inr ⟨base, ?_, hnext⟩⟩, trivial⟩ (fun x => hf _)
    fun _ _ _ => trivial)
  rw [hnext.spec.1, hseen]

theorem spec_handleJobFailure_seen
    (hseen : job.status = .running → lastSeen job.jobId log = some job) :
    Spec (Warranted client) (fun _ _ => True) (r.handleJobFailure job exc) log := by
  unfold JobRunner.handleJobFailure
  split_ifs
  · refine spec_call ⟨trivial, trivial⟩ fun x d => spec_ofExcept (fun d _ => ?_) fun _ _ => trivial
    refine spec_now ⟨trivial, trivial⟩ fun x t => spec_ofExcept (fun retried hj => ?_)
      fun _ _ => trivial
    refine spec_save_next job ?_ (.successor (.retry hj)) fun l => spec_publish
    rw [lastSeen_snoc, lastSeen_snoc]
    exact hseen (Job.asRetry_eq_ok.mp hj).1
  · refine spec_now ⟨trivial, trivial⟩ fun x t => spec_ofExcept (fun dead hj => ?_)
      fun _ _ => trivial
    refine spec_save_next job ?_ (.successor (.dead hj)) fun l => ?_
    · rw [lastSeen_snoc]
      exact hseen (Job.asDead_eq_ok.mp hj).1
    · refine spec_bind (spec_await ⟨trivial, trivial⟩ fun x res _ => ?_)
      cases res with
      | ok u => exact spec_publish
      | error e => trivial
  · refine spec_now ⟨trivial, trivial⟩ fun x t => spec_ofExcept (fun failed hj => ?_)
      fun _ _ => trivial
    refine spec_save_next job ?_ (.successor (.failed hj)) fun l => spec_publish
    rw [lastSeen_snoc]
    exact hseen (Job.asFailed_eq_ok.mp hj).1

/-- The `except` clauses save a transition of the copy seen last, and nothing if it is terminal. -/
theorem spec_handle {e : Exc}
    (hseen : job.status.isTerminal = false → lastSeen job.jobId log = some job) :
    Spec (Warranted client) (fun _ _ => True) (r.handle job e) log := by
  cases e with
  | cancelled =>
    refine spec_now ⟨trivial, trivial⟩ fun x t => spec_ofExcept (fun cancelled hj => ?_)
      fun _ _ => trivial
    refine spec_save_next job ?_ (.successor (.cancelled hj)) fun l => ?_
    · rw [lastSeen_snoc]
      exact hseen (Job.asCancelled_eq_ok.mp hj).1
    · exact spec_bind (spec_mono spec_publish fun l res _ => by cases res <;> trivial)
  | error exc =>
    refine spec_handleJobFailure_seen fun hrun => hseen ?_
    rw [hrun]
    rfl

/-- The coroutine is awaited without touching the store. -/
theorem spec_complete {Ψ : List LogEntry → Except Exc Job → Prop}
    (hok : ∀ l b t j, lastSeen job.jobId l = lastSeen job.jobId log →
      job.asCompleted b t = .ok j → Ψ l (.ok j))
    (herr : ∀ l e, lastSeen job.jobId l = lastSeen job.jobId log → Ψ l (.error e)) :
    Spec (Warranted client) Ψ (JobRunner.complete job) log := by
  refine spec_bind (spec_await ⟨trivial, trivial⟩ fun x res _ => ?_)
  have hawait : lastSeen job.jobId (log ++ [⟨x, .awaitCoro job.jobId, res⟩]) =
      lastSeen job.jobId log := by
    rw [lastSeen_snoc]
    rfl
  cases res with
  | error e => exact herr _ e hawait
  | ok result =>
    refine spec_ofExcept (fun b _ => ?_) fun e _ => herr _ _ hawait
    refine spec_now ⟨trivial, trivial⟩ fun x' t => ?_
    have hnow : lastSeen job.jobId (log ++ [⟨x, .awaitCoro job.jobId, .ok result⟩] ++
        [⟨x', .now, t⟩]) = lastSeen job.jobId log := by
      rw [lastSeen_snoc, hawait]
      rfl
    cases hc : job.asCompleted b t with
    | ok j => exact hok _ b t j hnow hc
    | error e => exact herr _ _ hnow

theorem spec_report {base : Job} (hseen : lastSeen base.jobId log = some base)
    (hnext : base.Next job) :
    Spec (Warranted client) (fun _ _ => True) (r.report job) log := by
  refine spec_save_next base hseen hnext fun l => ?_
  refine spec_bind (spec_mono spec_publish fun l res _ => ?_)
  cases res with
  | error e => trivial
  | ok u =>
    change Spec _ _ (JobRunner.fireCallback job) l
    unfold JobRunner.fireCallback
    split_ifs
    · exact spec_pure trivial
    · exact spec_await ⟨trivial, trivial⟩ fun _ _ _ => trivial

/-- The thread holds the job as it saw it last, and has not started it yet. -/
structure Ready (job : Job) (log : List LogEntry) : Prop where
  seen : lastSeen job.jobId log = some job
  count : log.countP (starts job.jobId) < log.countP (takes job.jobId)

theorem Ready.snoc (h : Ready job log) {e : LogEntry} (hshows : e.shows job.jobId = none)
    (hstarts : e.starts job.jobId = false) : Ready job (log ++ [e]) := by
  constructor
  · rw [lastSeen_snoc, hshows, Option.none_or, h.seen]
  · have hcount := h.count
    simp only [countP_append, countP_singleton, hstarts]
    simp only [Bool.false_eq_true, if_false, Nat.add_zero]
    omega

/-- The `try` statement of a task, for the copy it saw last. -/
theorem spec_runCoro (h : Ready job log) (hhanded : Handed log job) :
    Spec (Warranted client) (fun _ _ => True) (r.runCoro job) log := by
  have hseen := h.seen
  refine spec_call ⟨h.count, job, hseen, hhanded⟩ fun x _ => spec_attempt (spec_complete ?_ ?_)
  · intro l b t completed hl hc
    have hseen' : lastSeen job.jobId l = some job := by
      rw [hl, lastSeen_snoc, hseen]
      rfl
    refine spec_attempt (spec_mono (spec_report hseen' (.successor (.completed hc))) ?_)
    intro l' res _
    cases res with
    | ok u => exact spec_pure trivial
    | error e =>
      -- the completed copy is terminal: nothing is saved from here on
      refine spec_handle fun hterm => ?_
      obtain ⟨-, rfl⟩ := Job.asCompleted_eq_ok.mp hc
      cases hterm
  · intro l e hl
    refine spec_handle fun _ => ?_
    rw [hl, lastSeen_snoc, hseen]
    rfl

theorem ready_of_save (x : Choice) (log : List LogEntry) (hrun : job.status = .running)
    (hcount : log.countP (starts job.jobId) ≤ log.countP (takes job.jobId)) :
    Ready job (log ++ [⟨x, .store (.save job none), .ok (.ok ())⟩]) := by
  constructor
  · rw [lastSeen_snoc]
    simp [shows]
  · simp only [countP_append, countP_singleton]
    simp [starts, takes, begins, savesRunning, hrun]
    omega

theorem spec_runJob {id : UUID}
    (hcount : log.countP (starts id) ≤ log.countP (takes id)) :
    Spec (Warranted client) (fun _ _ => True) (r.runJob id) log := by
  refine spec_store ⟨trivial, trivial⟩ (fun x found hid => ?_) fun _ _ => trivial
  cases found with
  | none => exact spec_pure trivial
  | some job =>
    have hid : job.jobId = id := hid
    subst hid
    refine spec_now ⟨trivial, trivial⟩ fun x₁ t => spec_ofExcept (fun running hj => ?_)
      fun _ _ => trivial
    have hnext : job.Next running := .running hj
    have hseen : lastSeen running.jobId (log ++ [⟨x, .store (.get job.jobId), .ok (some job)⟩] ++
        [⟨x₁, .now, t⟩]) = some job := by
      rw [hnext.spec.1, lastSeen_snoc, lastSeen_snoc]
      simp [shows]
    have hrun : running.status = .running := by
      obtain ⟨-, rfl⟩ := Job.asRunning_eq_ok.mp hj
      rfl
    refine spec_bind (spec_save ⟨⟨rfl, Or.inr ⟨job, hseen, hnext⟩⟩, trivial⟩ (fun x₂ => ?_)
      fun _ _ _ => trivial)
    have hready := ready_of_save x₂ (log ++ [⟨x, .store (.get job.jobId), .ok (some job)⟩] ++
      [⟨x₁, .now, t⟩]) hrun (by
        rw [hnext.spec.1]
        simpa [countP_append, starts, takes, begins,
          savesRunning] using hcount)
    -- the read that found the job PENDING stands behind the start
    have hread : Handed (log ++ [⟨x, .store (.get job.jobId), .ok (some job)⟩]) running := by
      obtain ⟨hpending, rfl⟩ := Job.asRunning_eq_ok.mp hj
      have hgot : handed ⟨x, .store (.get job.jobId), .ok (some job)⟩ = some job :=
        if_pos hpending
      exact (handed_snoc hgot).congr rfl
    have hsaved := (hread.snoc ⟨x₁, .now, t⟩).snoc
      ⟨x₂, .store (.save running none), .ok (.ok ())⟩
    refine spec_bind
      (JobRunner.spec_publishProgress (Φ := Warranted client) ⟨trivial, trivial⟩ ?_ ?_)
    · exact spec_runCoro hready hsaved
    · intro x₃ res e
      cases e with
      | error e => trivial
      | ok u => exact spec_runCoro (hready.snoc rfl rfl) (hsaved.snoc _)

theorem spec_runTask : Spec (Warranted client) (fun _ _ => True) runTask [] := by
  refine spec_bind (spec_await ⟨trivial, trivial⟩ fun x task _ => ?_)
  cases task with
  | error e => trivial
  | ok task =>
    refine spec_attempt (spec_mono (Θ := fun _ _ => True) ?_ fun l res _ => ?_)
    · cases task with
      | runJob r id => exact spec_runJob (by simp [starts])
      | runClaimedJob r job =>
        refine spec_runCoro ⟨?_, ?_⟩ (handed_snoc rfl)
        · simp [lastSeen, shows]
        · simp [starts, takes, begins]
    · refine spec_call ⟨trivial, trivial⟩ fun x _ => ?_
      cases res with
      | ok u => exact spec_pure trivial
      | error e => exact spec_throw trivial

theorem spec_enqueue {s : JobRunner.Schedule} :
    Spec (Warranted (.enqueue r job s)) (fun _ _ => True) (r.enqueue job s) [] := by
  -- from the schedule on: the job is saved and its task created
  have hrest : ∀ l runAt, (∀ id, lastSeen id l = none) →
      Spec (Warranted (.enqueue r job s)) (fun _ _ => True) (do
        let job ← ofExcept (JobRunner.prepareZonedJob job s runAt)
        save job
        r.submit job.jobId) l := by
    intro l runAt hl
    refine spec_ofExcept (fun job' hj => ?_) fun _ _ => trivial
    refine spec_bind (spec_save ⟨⟨rfl, Or.inl ⟨⟨r, job, s, runAt, rfl, hj⟩, hl _⟩⟩, trivial⟩
      (fun x => ?_)
      fun _ _ _ => trivial)
    exact spec_call ⟨trivial, trivial⟩ fun _ _ => spec_pure trivial
  unfold JobRunner.enqueue
  split_ifs
  · exact spec_bind (spec_throw trivial)
  · refine spec_bind (spec_pure ?_)
    cases s.delay with
    | none => exact spec_bind (spec_pure (hrest [] _ fun _ => rfl))
    | some d =>
      refine spec_bind (spec_now ⟨trivial, trivial⟩ fun x t => spec_pure (hrest _ _ fun id => ?_))
      rfl

/-- A task was created for a claimed job at most once for each claim. -/
def CreatesClaimed (log : List LogEntry) : Prop :=
  ∀ id, log.countP (creates id) ≤ log.countP (claims id)

theorem countP_snoc (p : LogEntry → Bool) (log : List LogEntry) (e : LogEntry) :
    (log ++ [e]).countP p = log.countP p + if p e then 1 else 0 := by
  rw [countP_append, countP_singleton]

theorem CreatesClaimed.snoc (h : CreatesClaimed log) {e : LogEntry}
    (he : ∀ id, e.creates id = false) : CreatesClaimed (log ++ [e]) := by
  intro id
  have hid := h id
  rw [countP_snoc, countP_snoc, he id]
  simp only [Bool.false_eq_true, if_false]
  omega

/-- The claim `e` and the task `e'` created for it. -/
theorem CreatesClaimed.snoc_snoc (h : CreatesClaimed log) {e e' : LogEntry}
    (he : ∀ id, e.creates id = false) (hpair : ∀ id, e'.creates id = e.claims id) :
    CreatesClaimed (log ++ [e] ++ [e']) := by
  intro id
  have hid := h id
  rw [countP_snoc, countP_snoc, countP_snoc, countP_snoc, he id, hpair id]
  simp only [Bool.false_eq_true, if_false]
  omega

theorem spec_recoverLoop {registry : JobRunner.TaskRegistry} {jobs : List Job} {n : ℕ}
    (hcount : CreatesClaimed log) :
    Spec (Warranted client) (fun _ _ => True) (r.recoverLoop registry jobs n) log := by
  induction jobs generalizing log n with
  | nil => exact spec_pure trivial
  | cons job jobs ih =>
    refine spec_store ⟨⟨rfl, rfl⟩, trivial⟩ (fun x found _ => ?_) fun _ _ => trivial
    cases found with
    | none => exact ih (hcount.snoc fun id => rfl)
    | some claimed =>
      dsimp only
      cases hpay : claimed.taskPayload with
      | none => exact spec_throw trivial
      | some payload =>
        simp only
        split_ifs
        · refine spec_ofExcept (fun _ _ => ?_) fun _ _ => trivial
          refine spec_call ⟨?_, handed_snoc rfl⟩ fun x' m =>
            ih (hcount.snoc_snoc (fun id => rfl) fun id => rfl)
          -- the claim just made answers for the task
          have hid := hcount claimed.jobId
          change List.countP _ _ < List.countP _ _
          rw [countP_snoc, countP_snoc]
          simp only [creates, claims, decide_true, Bool.false_eq_true, if_false,
            if_true]
          omega
        · exact ih (hcount.snoc fun id => rfl)

theorem spec_recover {registry : JobRunner.TaskRegistry} :
    Spec (Warranted client) (fun _ _ => True) (r.recover registry) [] := by
  refine spec_store ⟨trivial, trivial⟩ (fun x pending _ => ?_) fun _ _ => trivial
  exact spec_recoverLoop fun id => Nat.le_refl 0

/-- The sweep saves each job of its list as it was listed: the ids are distinct, so what it saves
does not touch the jobs that are left. -/
theorem spec_ageLoop {p : JobPoller} {cutoff : Instant} {jobs : List Job}
    (hnodup : (jobs.map Job.jobId).Nodup) (hseen : ∀ j ∈ jobs, lastSeen j.jobId log = some j) :
    Spec (Warranted client) (fun _ _ => True) (p.ageLoop cutoff jobs) log := by
  induction jobs generalizing log with
  | nil => exact spec_pure trivial
  | cons job jobs ih =>
    rw [map_cons, nodup_cons] at hnodup
    have hjob : lastSeen job.jobId log = some job := hseen job mem_cons_self
    have hrest : ∀ j ∈ jobs, lastSeen j.jobId log = some j :=
      fun j hj => hseen j (mem_cons_of_mem _ hj)
    unfold JobPoller.ageLoop
    split_ifs
    · refine spec_now ⟨trivial, trivial⟩ fun x t => spec_ofExcept (fun failed hf => ?_)
        fun _ _ => trivial
      have hnext : job.Next failed := .successor (.failed hf)
      have hne : ∀ j ∈ jobs, failed.jobId ≠ j.jobId := by
        intro j hj he
        rw [hnext.spec.1] at he
        exact hnodup.1 (mem_map.mpr ⟨j, hj, he.symm⟩)
      have hnow : ∀ id, lastSeen id (log ++ [⟨x, .now, t⟩]) = lastSeen id log := by
        intro id
        rw [lastSeen_snoc]
        rfl
      have hbase : lastSeen failed.jobId (log ++ [⟨x, .now, t⟩]) = some job := by
        rw [hnext.spec.1, hnow, hjob]
      refine spec_attempt (spec_save ⟨⟨rfl, Or.inr ⟨job, hbase, hnext⟩⟩, trivial⟩ (fun x' => ?_)
        fun x' res e => ?_)
      · refine ih hnodup.2 fun j hj => ?_
        rw [lastSeen_snoc, hnow, hrest j hj]
        simp [shows, hne j hj]
      · cases e with
        | cancelled => exact spec_throw trivial
        | error e =>
          refine ih hnodup.2 fun j hj => ?_
          rw [lastSeen_snoc, hnow, hrest j hj]
          rcases res with _ | _ | _ <;> simp [shows, hne j hj]
    · exact ih hnodup.2 hrest

/-- In a list with distinct ids, looking up the id of a member finds it. -/
theorem find?_jobId_of_nodup {jobs : List Job} (hnodup : (jobs.map Job.jobId).Nodup) {j : Job}
    (hj : j ∈ jobs) : jobs.find? (fun j' => j'.jobId = j.jobId) = some j := by
  induction jobs with
  | nil => cases hj
  | cons job jobs ih =>
    rw [map_cons, nodup_cons] at hnodup
    rcases mem_cons.mp hj with rfl | hmem
    · simp
    · have hne : job.jobId ≠ j.jobId := fun he => hnodup.1 (mem_map.mpr ⟨j, hmem, he.symm⟩)
      rw [List.find?_cons_of_neg (by simpa using hne)]
      exact ih hnodup.2 hmem

theorem spec_recoverStaleJobsByAge {p : JobPoller} :
    Spec (Warranted client) (fun _ _ => True) p.recoverStaleJobsByAge log := by
  refine spec_now ⟨trivial, trivial⟩ fun x t => ?_
  refine spec_store ⟨trivial, trivial⟩ (fun x' jobs hnodup => ?_) fun _ _ => trivial
  refine spec_ageLoop hnodup fun j hj => ?_
  rw [lastSeen_snoc]
  simp [shows, find?_jobId_of_nodup hnodup hj]

theorem spec_recoverStaleJobs {p : JobPoller} :
    Spec (Warranted client) (fun _ _ => True) p.recoverStaleJobs [] := by
  refine spec_bind (spec_mono (Θ := fun _ _ => True) ?_ fun l res _ => ?_)
  · split_ifs
    · exact spec_store ⟨trivial, trivial⟩ (fun _ _ _ => spec_pure trivial) fun _ _ => trivial
    · exact spec_pure trivial
  · cases res with
    | error e => trivial
    | ok u =>
      refine spec_bind (spec_mono spec_recoverStaleJobsByAge fun l res _ => ?_)
      cases res with
      | error e => trivial
      | ok u =>
        simp only
        split_ifs
        · refine spec_now ⟨trivial, trivial⟩ fun x t => ?_
          refine spec_store ⟨trivial, trivial⟩ (fun x' n _ => ?_) fun _ _ => trivial
          exact spec_ofExcept (fun _ _ => spec_pure trivial) fun _ _ => trivial
        · exact spec_pure trivial

/-- **Every client issues only what `Issued` allows**, with what stands behind it. -/
theorem spec_run (client : Client) : Spec (Warranted client) (fun _ _ => True) client.run [] := by
  cases client with
  | task => exact spec_runTask
  | enqueue r job s => exact spec_enqueue
  | cancel r id => exact spec_call ⟨trivial, trivial⟩ fun _ _ => spec_pure trivial
  | recover r registry =>
    refine spec_bind (spec_mono spec_recover fun l res _ => ?_)
    cases res with
    | ok n => exact spec_pure trivial
    | error e => trivial
  | poll p => exact spec_recoverStaleJobs

/-! ## The pool -/

section

variable {ι : Type} [DecidableEq ι]

def taskPool (w : World ι) (clients : ι → Client) :
    Pool ι (World ι) Cmd Cmd.Res (Except Exc Unit) :=
  ⟨w, fun i => (clients i).run⟩

abbrev TaskStep : Pool ι (World ι) Cmd Cmd.Res (Except Exc Unit) → Event ι Choice Cmd Cmd.Res →
    Pool ι (World ι) Cmd Cmd.Res (Except Exc Unit) → Prop :=
  Pool.Step World.exec

variable {w : World ι} {clients : ι → Client} {e : Event ι Choice Cmd Cmd.Res}
  {P : Pool ι (World ι) Cmd Cmd.Res (Except Exc Unit)}

theorem careful_of_run {l₁ l₂ : List (Event ι Choice Cmd Cmd.Res)}
    (h : Run TaskStep (taskPool w clients) (l₁ ++ e :: l₂) P) :
    Warranted (clients e.thread) (Pool.log e.thread l₁) e.cmd :=
  Pool.issued (P := taskPool w clients) (Φ := fun i => Warranted (clients i))
    (Ψ := fun _ _ _ => True) (fun _ _ _ _ _ _ => World.answer_of_exec)
    (fun i => spec_run (clients i)) h

/-- **What any interleaving issues.** -/
theorem issued_of_run {l₁ l₂ : List (Event ι Choice Cmd Cmd.Res)}
    (h : Run TaskStep (taskPool w clients) (l₁ ++ e :: l₂) P) :
    Issued (clients e.thread) (Pool.log e.thread l₁) e.cmd :=
  (careful_of_run h).1

variable {id : UUID} {l past : List (Event ι Choice Cmd Cmd.Res)}

/-- The event is a save of the job `id`. -/
def Event.Saves (id : UUID) (e : Event ι Choice Cmd Cmd.Res) : Prop :=
  ∃ job epoch, e.cmd = .store (.save job epoch) ∧ job.jobId = id

/-- Nothing has been stored under `id` yet, in a run that started with the store `s₀`. -/
def Fresh (s₀ : InMemoryJobStore) (past : List (Event ι Choice Cmd Cmd.Res)) (id : UUID) : Prop :=
  s₀.get id = none ∧ ∀ a ∈ past, ¬a.Saves id

omit [DecidableEq ι] in
theorem Fresh.of_snoc {s₀ : InMemoryJobStore} (h : Fresh s₀ (past ++ [e]) id) : Fresh s₀ past id :=
  ⟨h.1, fun a ha => h.2 a (mem_append_left _ ha)⟩

theorem get_of_fresh (h : Run TaskStep (taskPool w clients) l P) (hfresh : Fresh w.store l id) :
    P.shared.store.get id = none := by
  refine h.history (I := fun l P => Fresh w.store l id → P.shared.store.get id = none)
    (fun hf => hf.1) ?_ hfresh
  intro l P e P' _ _ hst ih hf
  have hnone := ih hf.of_snoc
  rcases World.get_of_exec hst.exec_eq id with hsame | ⟨call, hcall, heff⟩
  · rw [hsame, hnone]
  · cases heff with
    | same h => rw [h, hnone]
    | deleted h => exact h
    | saved hc hid h => exact absurd ⟨_, _, hc ▸ hcall, hid⟩ (hf.2 e (by simp))
    | claimed hg => cases hg.symm.trans hnone
    | renewed hg => cases hg.symm.trans hnone
    | reaped hc hg => cases hg.symm.trans hnone

end

end Varco
