import Varco.Job.Tasks

/-!
# When a scheduled job starts

A job may carry a `run_at`. `try_claim` looks at it: a job that `recover` claims is due, and stays
due, since the clock never goes back. `_run_job`, the task that `enqueue` creates for the job it has
just stored, reads the job, makes its RUNNING copy and starts it, without looking.

`Backed` says what stands behind a start in the log of its thread: the job was handed to the thread,
by a claim, as the claimed job of its task, or by a read that found it PENDING. `ReadDue` are the
runs in which no such read comes before the `run_at` of what it finds. `never_early` is that no
interleaving of those starts a job early; `started_at_once` enqueues one for later.
-/

namespace Varco

open Py

/-! ## The pool -/

section

variable {ι : Type} [DecidableEq ι] {w : World ι} {clients : ι → Client} {i : ι} {x : Choice}
  {P P' : Pool ι (World ι) Cmd Cmd.Res (Except Exc Unit)}
  {l past : List (Event ι Choice Cmd Cmd.Res)} {e : Event ι Choice Cmd Cmd.Res}

theorem backed_of_run {l₁ l₂ : List (Event ι Choice Cmd Cmd.Res)}
    (h : Run TaskStep (taskPool w clients) (l₁ ++ e :: l₂) P) :
    Backed (Pool.log e.thread l₁) e.cmd :=
  (careful_of_run h).2

omit [DecidableEq ι] in
@[simp] theorem World.deliver_clock (w : World ι) (i : ι) : (w.deliver i).clock = w.clock := by
  unfold World.deliver
  split <;> rfl

omit [DecidableEq ι] in
theorem World.await_clock {β : Type} {r r' : Except Exc β} {w w₁ w' : World ι}
    (h : World.await x i w r w₁ = some (r', w')) (hclock : w₁.clock = w.clock) :
    w'.clock = w.clock := by
  rcases World.await_cases h with ⟨-, -, rfl⟩ | ⟨-, ⟨-, rfl⟩ | ⟨-, rfl⟩⟩
  · exact World.deliver_clock w i
  · exact hclock
  · exact (World.deliver_clock w₁ i).trans hclock

/-- **The clock never goes back**: a command moves it to the reading of its choice. -/
theorem World.exec_clock {c : Cmd} {r : c.Res} {w' : World ι}
    (h : World.exec i x c w = some (r, w')) : w.clock ≤ x.clock ∧ w'.clock = x.clock := by
  have hle : w.clock ≤ x.clock := by
    unfold World.exec at h
    split_ifs at h with hlt
    exact Int.not_lt.mp hlt
  refine ⟨hle, ?_⟩
  have h := World.perform_of_exec h
  cases c with
  | store call => exact World.await_clock h rfl
  | push entry => exact World.await_clock h rfl
  | awaitCoro id => exact World.await_clock h rfl
  | publish id st e => exact World.await_clock h rfl
  | fireCallback job => exact World.await_clock h rfl
  | cancelTask r id =>
    simp only [World.perform] at h
    split at h <;> cases h <;> rfl
  | begin =>
    simp only [World.perform] at h
    split at h
    · cases h
    · split_ifs at h <;> cases h <;> rfl
  | now => cases h; rfl
  | computeDelay a => cases h; rfl
  | startCoro id => cases h; rfl
  | createTask t => cases h; rfl
  | finish r id => cases h; rfl

theorem Job.claimed_runAt (job : Job) (o : Option String) (ttl : Option Duration)
    (now : Instant) : (job.claimed o ttl now).runAt = job.runAt := by
  cases ttl <;> rfl

theorem Job.due_mono {job : Job} {t t' : Instant} (h : job.due t) (hle : t ≤ t') :
    job.due t' := by
  unfold Job.due at *
  cases hr : job.runAt with
  | none => rfl
  | some at_ =>
    rw [hr] at h
    simp only [Option.all_some, decide_eq_true_eq] at *
    exact Int.le_trans h hle

theorem Job.due_congr {job job' : Job} {t : Instant} (h : job.due t)
    (hrun : job.runAt = job'.runAt) : job'.due t := by
  unfold Job.due at *
  rwa [← hrun]

/-- The task that reads a PENDING job does not read it before its `run_at`. -/
def ReadDue (P : Pool ι (World ι) Cmd Cmd.Res (Except Exc Unit))
    (e : Event ι Choice Cmd Cmd.Res) : Prop :=
  ∀ id job, e.cmd = .store (.get id) → P.shared.store.get id = some job → job.status = .pending →
    job.due e.choice.clock

def World.ClaimedDue (w : World ι) : Prop :=
  ∀ n r job, (n, Task.runClaimedJob r job) ∈ w.scheduled → job.due w.clock

/-- What was handed out is due, and so are the claimed jobs of the scheduled tasks. -/
structure DueSoFar (l : List (Event ι Choice Cmd Cmd.Res))
    (P : Pool ι (World ι) Cmd Cmd.Res (Except Exc Unit)) : Prop where
  handed : ∀ e ∈ l, ∀ job, LogEntry.handed e.toEntry = some job → job.due P.shared.clock
  scheduled : P.shared.ClaimedDue

theorem handed_due (hclaimed : P.shared.ClaimedDue) (hread : ReadDue P e) (hst : TaskStep P e P')
    {job : Job} (h : LogEntry.handed e.toEntry = some job) : job.due e.choice.clock := by
  have hexec := hst.exec_eq
  obtain ⟨hle, -⟩ := World.exec_clock hexec
  obtain ⟨⟨x, c, r⟩, i⟩ := e
  cases c with
  | store call =>
    cases call with
    | tryClaim id o ttl =>
      rcases r with _ | _ | claimed
      · cases h
      · cases h
      · cases h
        have hs : P.shared.store.tryClaim id o ttl x.clock = (some job, P'.shared.store) :=
          World.exec_store_ok hexec
        obtain ⟨j, -, -, hdue, rfl, -⟩ := InMemoryJobStore.tryClaim_some.mp hs
        exact Job.due_congr hdue (Job.claimed_runAt ..).symm
    | get id =>
      rcases r with _ | _ | found
      · cases h
      · cases h
      · have hg : P.shared.store.exec x.clock (.get id) = (some found, P'.shared.store) :=
          World.exec_store_ok hexec
        have h : (if found.status = .pending then some found else none) = some job := h
        split_ifs at h with hpending
        cases h
        exact hread id job rfl (Prod.mk.inj hg).1 hpending
    | _ => cases h
  | begin =>
    obtain ⟨n, task, hpick, -, hr⟩ := World.exec_begin hexec
    rcases r with _ | task'
    · cases h
    · cases task' with
      | runJob r id => cases h
      | runClaimedJob r job' =>
        cases h
        rcases hr with hr | hr
        · cases hr
          exact Job.due_mono (hclaimed n r _ (List.mem_of_getElem? hpick)) hle
        · cases hr
  | _ => cases h

/-- **One step**: what is handed out is due when it is handed out, and stays due. -/
theorem DueSoFar.step (h : DueSoFar l P) (hread : ReadDue P e) (hst : TaskStep P e P')
    (hbacked : Backed (Pool.log e.thread l) e.cmd) : DueSoFar (l ++ [e]) P' := by
  have hexec := hst.exec_eq
  obtain ⟨hle, hclock⟩ := World.exec_clock hexec
  have hpast : ∀ a ∈ l, ∀ job, LogEntry.handed a.toEntry = some job → job.due P'.shared.clock := by
    intro a ha job hj
    rw [hclock]
    exact Job.due_mono (h.handed a ha job hj) hle
  refine ⟨fun a ha job hj => ?_, fun n r job hmem => ?_⟩
  · rcases List.mem_append.mp ha with ha | ha
    · exact hpast a ha job hj
    · obtain rfl := List.mem_singleton.mp ha
      rw [hclock]
      exact handed_due h.scheduled hread hst hj
  · obtain ⟨-, -, hsched⟩ := World.exec_effect hexec
    have hold : (n, Task.runClaimedJob r job) ∈ P.shared.scheduled → job.due P'.shared.clock := by
      intro hmem
      rw [hclock]
      exact Job.due_mono (h.scheduled n r job hmem) hle
    rw [hsched] at hmem
    cases hc : e.cmd with
    | createTask task =>
      rw [hc] at hmem hbacked
      rcases List.mem_append.mp hmem with hmem | hmem
      · exact hold hmem
      · -- the task is backed by a job that was handed to its creator
        cases List.mem_singleton.mp hmem
        obtain ⟨a, ha, j, hj, hrun⟩ := hbacked
        obtain ⟨b, hb, -, rfl⟩ := Pool.mem_log.mp ha
        exact Job.due_congr (hpast b hb j hj) hrun
    | begin =>
      rw [hc] at hmem
      exact hold (List.mem_of_mem_eraseIdx hmem)
    | _ =>
      rw [hc] at hmem
      exact hold hmem

/-- No coroutine is entered before the `run_at` of the copy that its task holds. -/
def NeverEarly (l : List (Event ι Choice Cmd Cmd.Res)) : Prop :=
  ∀ l₁ (e : Event ι Choice Cmd Cmd.Res) l₂ id, l = l₁ ++ e :: l₂ → e.cmd = .startCoro id →
    ∃ job, lastSeen id (Pool.log e.thread l₁) = some job ∧ job.due e.choice.clock

/-- **A scheduled job never runs early** in an interleaving of enqueues, tasks, recoveries and
polls in which no task reads a PENDING job before its `run_at`. -/
theorem never_early (hw : w.ClaimedDue)
    (h : Guarded TaskStep (fun _ => ReadDue) (taskPool w clients) l P) : NeverEarly l := by
  intro l₁ e l₂ id hl hcmd
  subst hl
  obtain ⟨t, t', h₁, -, hst, h₂, -⟩ := h.at_label
  have hinv : DueSoFar l₁ t := by
    refine h₁.invariant ⟨fun a ha => (List.not_mem_nil ha).elim, hw⟩ ?_
    intro l P a P' hP hread hst hinv
    exact hinv.step hread hst (backed_of_run (hP.run.append (.single hst)))
  have hbacked := backed_of_run h.run
  rw [hcmd] at hbacked
  obtain ⟨job, hseen, a, ha, j, hj, hrun⟩ := hbacked
  obtain ⟨b, hb, -, rfl⟩ := Pool.mem_log.mp ha
  refine ⟨job, hseen, ?_⟩
  exact Job.due_mono (Job.due_congr (hinv.handed b hb j hj) hrun) (World.exec_clock hst.exec_eq).1

theorem readDue_of_no_get {P₀ : Pool ι (World ι) Cmd Cmd.Res (Except Exc Unit)}
    (h : Run TaskStep P₀ l P) (hl : ∀ e ∈ l, ∀ id, e.cmd ≠ .store (.get id)) :
    Guarded TaskStep (fun _ => ReadDue) P₀ l P := by
  refine .of_run h fun l₁ e l₂ t hsplit _ id job hc => ?_
  exact absurd hc (hl e (by simp [hsplit]) id)

end

/-! ## A job enqueued for later -/

/-- Thread 0 enqueues a job for the time 100, thread 1 runs its task; thread 2 recovers and thread 3
runs the task of what was claimed. -/
def laterClients : ℕ → Client
  | 0 => .enqueue {} { jobId := 1 } { runAt := some 100 }
  | 1 => .task
  | 2 => .recover {} ⟨fun _ => true, fun _ => .ok ()⟩
  | 3 => .task
  | _ => .cancel {} 0

/-- The job is saved and its task created, and the task goes on, all at the time 0. -/
def startNow : List (ℕ × Choice) :=
  [(0, { clock := 0 }), (0, { clock := 0 }), (1, { clock := 0 }), (1, { clock := 0 }),
    (1, { clock := 0 }), (1, { clock := 0 }), (1, { clock := 0 })]

/-- **A job is started at once**: it was enqueued for the time 100. -/
theorem started_at_once :
    ∃ l P, Run TaskStep (taskPool { store := .empty, clock := 0 } laterClients) l P ∧
      ¬NeverEarly l := by
  have hrun : ∃ l P, Run TaskStep (taskPool { store := .empty, clock := 0 } laterClients) l P ∧
      ∃ e, l.drop 6 = [e] ∧ e.cmd = .startCoro 1 ∧ e.choice.clock = 0 ∧
        lastSeen 1 (Pool.log e.thread (l.take 6)) =
          some { jobId := 1, status := .running, startedAt := some 0, runAt := some 100 } :=
    ⟨_, _, Pool.run_of_sched (q := startNow) rfl, _, rfl, rfl, rfl, rfl⟩
  obtain ⟨l, P, h, e, hlast, hcmd, hclock, hseen⟩ := hrun
  refine ⟨l, P, h, fun hearly => ?_⟩
  have hl : l = l.take 6 ++ e :: [] := by rw [← hlast, List.take_append_drop]
  obtain ⟨job, hjob, hdue⟩ := hearly (l.take 6) e [] 1 hl hcmd
  cases hseen.symm.trans hjob
  rw [hclock] at hdue
  cases hdue

def dueAtTwo : World ℕ :=
  { store := InMemoryJobStore.empty.put
      { jobId := 1, taskPayload := some ⟨"report"⟩, runAt := some 2 }, clock := 0 }

def recoverDue : List (ℕ × Choice) :=
  [(2, { clock := 1 }), (2, { clock := 2 }), (2, { clock := 2 }), (3, { clock := 3 }),
    (3, { clock := 3 })]

theorem never_early_recoverDue :
    ∃ l P, Run TaskStep (taskPool dueAtTwo laterClients) l P ∧
      0 < l.countP (fun e => LogEntry.starts 1 e.toEntry) ∧ NeverEarly l := by
  have hrun : ∃ l P, Run TaskStep (taskPool dueAtTwo laterClients) l P ∧
      0 < l.countP (fun e => LogEntry.starts 1 e.toEntry) ∧
      ∀ e ∈ l, ∀ id, e.cmd ≠ .store (.get id) := by
    refine ⟨_, _, Pool.run_of_sched (q := recoverDue) rfl, Nat.one_pos, ?_⟩
    simp
  obtain ⟨l, P, h, hpos, hl⟩ := hrun
  refine ⟨l, P, h, hpos, never_early (fun n r job hmem => ?_) (readDue_of_no_get h hl)⟩
  exact (List.not_mem_nil hmem).elim

end Varco
