import Varco.Job.Tasks

/-!
# A job is started once

A runner takes a job up in two ways: `recover` claims it with the atomic `try_claim` and hands it to
a task, while the task that `enqueue` created reads it, makes its RUNNING copy and saves that, as
three commands. `NoReturn` are the runs in which the job does not become PENDING a second time (no
retry, no reap, no re-enqueue), and `StillPending` asks that the task of `enqueue` still finds the
job PENDING when it saves the RUNNING copy. `started_at_most_once` is that then no interleaving
starts the coroutine of the job twice; `claimed_in_between` is the interleaving in which a claim
falls between the read and the save.

The proof counts, along the run: starts are at most takings (`LogEntry.takes`), takings of claimed
jobs are at most claims, and claims and RUNNING saves together are at most one, since each of them
finds the job PENDING and leaves it RUNNING.
-/

namespace Varco

open LogEntry

variable {ι : Type} [DecidableEq ι] {w : World ι} {clients : ι → Client} {id : UUID}
  {P P' : Pool ι (World ι) Cmd Cmd.Res (Except Exc Unit)}
  {l past : List (Event ι Choice Cmd Cmd.Res)} {e : Event ι Choice Cmd Cmd.Res}

/-- The job `id` does not become PENDING again: what is saved as PENDING is new, and no expired
lease is reaped. -/
def NoReturn (id : UUID) (s₀ : InMemoryJobStore) (past : List (Event ι Choice Cmd Cmd.Res))
    (P : Pool ι (World ι) Cmd Cmd.Res (Except Exc Unit)) (e : Event ι Choice Cmd Cmd.Res) : Prop :=
  (∀ job epoch, e.cmd = .store (.save job epoch) → job.jobId = id → job.status = .pending →
    Fresh s₀ past id) ∧
  (∀ now limit job, e.cmd = .store (.reapExpiredLeases now limit) →
    P.shared.store.get id = some job → ¬job.leaseExpired (now.getD e.choice.clock))

/-- The RUNNING copy of the job `id` is saved over a PENDING one. -/
def StillPending (id : UUID) (P : Pool ι (World ι) Cmd Cmd.Res (Except Exc Unit))
    (e : Event ι Choice Cmd Cmd.Res) : Prop :=
  ∀ job epoch, e.cmd = .store (.save job epoch) → job.jobId = id → job.status = .running →
    ∃ j, P.shared.store.get id = some j ∧ j.status = .pending

/-! ## Starts and takings -/

def occurrences (p : LogEntry → Bool) (l : List (Event ι Choice Cmd Cmd.Res)) : ℕ :=
  l.countP fun e => p e.toEntry

omit [DecidableEq ι] in
theorem occurrences_snoc (p : LogEntry → Bool) (l : List (Event ι Choice Cmd Cmd.Res))
    (e : Event ι Choice Cmd Cmd.Res) :
    occurrences p (l ++ [e]) = occurrences p l + if p e.toEntry then 1 else 0 := by
  rw [occurrences, List.countP_append, List.countP_singleton, occurrences]

theorem starts_le_takes (h : Run TaskStep (taskPool w clients) l P) :
    occurrences (starts id) l ≤ occurrences (takes id) l := by
  refine Pool.countP_le_of_issued fun l₁ e l₂ hl hp => ?_
  subst hl
  have hissued := issued_of_run h
  obtain ⟨⟨x, c, r⟩, i⟩ := e
  cases c with
  | startCoro id' =>
    obtain rfl := of_decide_eq_true hp
    exact hissued
  | _ => cases hp

omit [DecidableEq ι] in
theorem takes_le (id : UUID) (l : List (Event ι Choice Cmd Cmd.Res)) :
    occurrences (takes id) l ≤
      occurrences (begins id) l + occurrences (savesRunning id) l := by
  induction l using List.reverseRecOn with
  | nil => exact Nat.le_refl 0
  | append_singleton l e ih =>
    rw [occurrences_snoc, occurrences_snoc, occurrences_snoc, takes]
    cases begins id e.toEntry <;> cases savesRunning id e.toEntry <;> simp
      <;> omega

theorem creates_le_claims (id : UUID) (h : Run TaskStep (taskPool w clients) l P) :
    occurrences (creates id) l ≤ occurrences (claims id) l := by
  refine Pool.countP_le_of_issued fun l₁ e l₂ hl hp => ?_
  subst hl
  have hissued := issued_of_run h
  obtain ⟨⟨x, c, r⟩, i⟩ := e
  cases c with
  | createTask task =>
    cases task with
    | runJob r id' => cases hp
    | runClaimedJob r job =>
      obtain rfl := of_decide_eq_true hp
      exact hissued
  | _ => cases hp

/-- The task is one for the claimed job `id`. -/
def Task.isClaimed (id : UUID) : ℕ × Task → Bool
  | (_, .runClaimedJob _ job) => job.jobId = id
  | _ => false

theorem countP_eraseIdx_add {α : Type} (p : α → Bool) {l : List α} {n : ℕ} {a : α}
    (h : l[n]? = some a) : (l.eraseIdx n).countP p + (if p a then 1 else 0) = l.countP p := by
  induction l generalizing n with
  | nil => simp at h
  | cons b l ih =>
    cases n with
    | zero =>
      cases h
      rw [List.eraseIdx_cons_zero, List.countP_cons]
    | succ n =>
      have hl := ih (n := n) h
      rw [List.eraseIdx_cons_succ, List.countP_cons, List.countP_cons]
      omega

/-- **A task that begins was created**, and is scheduled no more. -/
theorem begins_le_creates (id : UUID) (hw : w.scheduled = [])
    (h : Run TaskStep (taskPool w clients) l P) :
    occurrences (begins id) l + P.shared.scheduled.countP (Task.isClaimed id) ≤
      occurrences (creates id) l := by
  refine h.history (I := fun l P => occurrences (begins id) l +
    P.shared.scheduled.countP (Task.isClaimed id) ≤ occurrences (creates id) l) ?_ ?_
  · change _ + w.scheduled.countP _ ≤ _
    rw [hw]
    exact Nat.le_refl 0
  · intro l P e P' _ _ hst ih
    have hexec := hst.exec_eq
    obtain ⟨-, -, hsched⟩ := World.exec_effect hexec
    rw [occurrences_snoc, occurrences_snoc, hsched]
    obtain ⟨⟨x, c, r⟩, i⟩ := e
    cases c with
    | createTask task =>
      simp only [World.scheduledAfter, List.countP_append, List.countP_singleton]
      cases task with
      | runJob r id' =>
        simpa [begins, creates, Task.isClaimed] using ih
      | runClaimedJob r job =>
        simp only [begins, creates, Task.isClaimed]
        by_cases hid : job.jobId = id <;> simp [hid] <;> omega
    | begin =>
      obtain ⟨n, task, hpick, -, hr⟩ := World.exec_begin hexec
      have hcount := countP_eraseIdx_add (Task.isClaimed id) hpick
      have hbegins : (if begins id ⟨x, .begin, r⟩ then 1 else 0) ≤
          if Task.isClaimed id (n, task) then 1 else 0 := by
        rcases hr with hr | hr
        · change r = _ at hr
          rw [hr]
          cases task <;> exact Nat.le_refl _
        · change r = _ at hr
          rw [hr]
          exact Nat.zero_le _
      simp only [World.scheduledAfter, creates] at *
      simp only [Bool.false_eq_true, if_false]
      omega
    | _ =>
      simp only [World.scheduledAfter, begins, creates]
      simpa using ih

/-! ## Claims and RUNNING saves -/

/-- A claim finds the job PENDING and leaves it RUNNING. -/
theorem claims_spec {w w' : World ι} {i : ι} {x : Choice} {c : Cmd} {r : c.Res}
    (hc : claims id ⟨x, c, r⟩ = true) (h : World.exec i x c w = some (r, w')) :
    (∃ j, w.store.get id = some j ∧ j.status = .pending) ∧
      ∃ j, w'.store.get id = some j ∧ j.status = .running := by
  cases c with
  | store call =>
    cases call with
    | tryClaim id' o ttl =>
      rcases r with _ | _ | claimed
      · cases hc
      · cases hc
      · have hs : w.store.tryClaim id' o ttl x.clock = (some claimed, w'.store) :=
          World.exec_store_ok h
        obtain ⟨job, hg, hp, -, rfl, hput⟩ := InMemoryJobStore.tryClaim_some.mp hs
        obtain rfl := InMemoryJobStore.jobId_of_get hg
        have hid : (job.claimed o ttl x.clock).jobId = id := of_decide_eq_true hc
        rw [← hid]
        refine ⟨⟨job, by rwa [Job.claimed_jobId], hp⟩, job.claimed o ttl x.clock, ?_, by simp⟩
        rw [hput]
        exact InMemoryJobStore.get_put_self _ _
    | _ => cases hc
  | _ => cases hc

theorem savesRunning_spec {w w' : World ι} {i : ι} {x : Choice} {c : Cmd} {r : c.Res}
    (hs : savesRunning id ⟨x, c, r⟩ = true) (h : World.exec i x c w = some (r, w')) :
    (∃ job epoch, c = .store (.save job epoch) ∧ job.jobId = id ∧ job.status = .running) ∧
      ∃ j, w'.store.get id = some j ∧ j.status = .running := by
  cases c with
  | store call =>
    cases call with
    | save job epoch =>
      rcases r with _ | _ | _
      · cases hs
      · cases hs
      · have hsave : w.store.save job epoch = (.ok (), w'.store) := World.exec_store_ok h
        have hspec : job.jobId = id ∧ job.status = .running := by
          simpa [savesRunning] using hs
        refine ⟨⟨job, epoch, rfl, hspec⟩, job, ?_, hspec.2⟩
        rw [← hspec.1]
        exact InMemoryJobStore.get_of_save_ok hsave
    | _ => cases hs
  | _ => cases hs

/-- The job `id` is not stored as PENDING. -/
def NotPending (id : UUID) (s : InMemoryJobStore) : Prop :=
  ∀ j, s.get id = some j → j.status ≠ .pending

/-- **A job that is not PENDING does not become PENDING**, except by what `NoReturn` rules out. -/
theorem NotPending.step (h : NotPending id P.shared.store) (hst : TaskStep P e P')
    (hok : NoReturn id w.store past P e) (hknown : ¬Fresh w.store past id) :
    NotPending id P'.shared.store := by
  intro j hj
  rcases World.get_of_exec hst.exec_eq id with hsame | ⟨call, hcall, heff⟩
  · exact h j (hsame ▸ hj)
  · cases heff with
    | same hsame => exact h j (hsame ▸ hj)
    | deleted hnone => cases hnone.symm.trans hj
    | saved hc hid hsaved =>
      cases hsaved.symm.trans hj
      intro hp
      exact hknown (hok.1 _ _ (hc ▸ hcall) hid hp)
    | claimed hg hp => exact absurd hp (h _ hg)
    | @renewed job ttl hg hr =>
      cases hr.symm.trans hj
      exact h job hg
    | reaped hc hg he => exact absurd he (hok.2 _ _ _ (hc ▸ hcall) hg)

/-- What holds after the events `l`: the job was taken at most once, and once it was it is not
PENDING any more. -/
structure TakenOnce (id : UUID) (w : World ι) (l : List (Event ι Choice Cmd Cmd.Res))
    (P : Pool ι (World ι) Cmd Cmd.Res (Except Exc Unit)) : Prop where
  le_one : occurrences (claims id) l + occurrences (savesRunning id) l ≤ 1
  notPending : 0 < occurrences (claims id) l + occurrences (savesRunning id) l →
    ¬Fresh w.store l id ∧ NotPending id P.shared.store

theorem not_claims_and_savesRunning (x : LogEntry) (hc : claims id x = true) :
    savesRunning id x = false := by
  obtain ⟨q, c, r⟩ := x
  cases c with
  | store call => cases call <;> first | rfl | cases hc
  | _ => rfl

omit [DecidableEq ι] in
/-- Taking the job: it was PENDING, so it had not been taken. -/
theorem TakenOnce.take (hinv : TakenOnce id w l P) (hknown : ¬Fresh w.store (l ++ [e]) id)
    (hcount : (if claims id e.toEntry then 1 else 0) +
      (if savesRunning id e.toEntry then 1 else 0) ≤ 1)
    (hbefore : ∃ j, P.shared.store.get id = some j ∧ j.status = .pending)
    (hafter : ∃ j, P'.shared.store.get id = some j ∧ j.status = .running) :
    TakenOnce id w (l ++ [e]) P' := by
  obtain ⟨j, hj, hp⟩ := hbefore
  obtain ⟨j', hj', hr⟩ := hafter
  have hzero : occurrences (claims id) l +
      occurrences (savesRunning id) l = 0 := by
    by_contra hne
    exact (hinv.notPending (Nat.pos_of_ne_zero hne)).2 j hj hp
  refine ⟨?_, fun _ => ⟨hknown, fun j'' hj'' => ?_⟩⟩
  · rw [occurrences_snoc, occurrences_snoc]
    omega
  · cases hj''.symm.trans hj'
    rw [hr]
    decide

theorem TakenOnce.step (hinv : TakenOnce id w l P)
    (hrun : Run TaskStep (taskPool w clients) l P) (hst : TaskStep P e P')
    (hret : NoReturn id w.store l P e) (hpend : StillPending id P e) :
    TakenOnce id w (l ++ [e]) P' := by
  -- a job that is stored was stored under no fresh id
  have hknown : (∃ j, P.shared.store.get id = some j ∧ j.status = .pending) →
      ¬Fresh w.store (l ++ [e]) id := by
    rintro ⟨j, hj, -⟩ hfresh
    cases (get_of_fresh hrun hfresh.of_snoc).symm.trans hj
  by_cases hc : claims id e.toEntry = true
  · obtain ⟨hbefore, hafter⟩ := claims_spec hc hst.exec_eq
    refine hinv.take (hknown hbefore) ?_ hbefore hafter
    rw [not_claims_and_savesRunning _ hc]
    simp [hc]
  · by_cases hs : savesRunning id e.toEntry = true
    · obtain ⟨⟨job, epoch, hcmd, hid, hstatus⟩, hafter⟩ := savesRunning_spec hs hst.exec_eq
      have hbefore := hpend job epoch hcmd hid hstatus
      refine hinv.take (hknown hbefore) ?_ hbefore hafter
      simp [hc, hs]
    · refine ⟨?_, fun hpos => ?_⟩
      · rw [occurrences_snoc, occurrences_snoc, if_neg hc, if_neg hs]
        exact hinv.le_one
      · rw [occurrences_snoc, occurrences_snoc, if_neg hc, if_neg hs] at hpos
        obtain ⟨hfresh, hnot⟩ := hinv.notPending hpos
        exact ⟨fun h => hfresh h.of_snoc, hnot.step hst hret hfresh⟩

/-- **A job is started at most once** in any interleaving of runners, pollers and their callers in
which it does not become PENDING a second time and a RUNNING copy is saved over a PENDING one. -/
theorem started_at_most_once (hw : w.scheduled = [])
    (h : Guarded TaskStep (fun past P e => NoReturn id w.store past P e ∧ StillPending id P e)
      (taskPool w clients) l P) :
    occurrences (starts id) l ≤ 1 := by
  have hinv : TakenOnce id w l P := by
    refine h.invariant (I := fun l P => TakenOnce id w l P) ?_ ?_
    · exact ⟨Nat.zero_le 1, fun hpos => absurd hpos (Nat.lt_irrefl 0)⟩
    · intro l P e P' hP hok hst hinv
      exact hinv.step hP.run hst hok.1 hok.2
  calc occurrences (starts id) l
      ≤ occurrences (takes id) l := starts_le_takes h.run
    _ ≤ occurrences (begins id) l + occurrences (savesRunning id) l :=
        takes_le id l
    _ ≤ occurrences (claims id) l + occurrences (savesRunning id) l := by
        have hbegin := begins_le_creates id hw h.run
        have hcreate := creates_le_claims id h.run
        omega
    _ ≤ 1 := hinv.le_one

/-! ## A claim between the read and the save -/

/-- The job `id` is stored PENDING. -/
def LogEntry.savesPending (id : UUID) : LogEntry → Bool
  | ⟨_, .store (.save job _), _⟩ => job.jobId = id && job.status = .pending
  | _ => false

def LogEntry.reaps : LogEntry → Bool
  | ⟨_, .store (.reapExpiredLeases ..), _⟩ => true
  | _ => false

def everyTask : JobRunner.TaskRegistry := ⟨fun _ => true, fun _ => .ok ()⟩

/-- Thread 0 enqueues a recoverable job on runner 1, thread 1 runs a task, thread 2 recovers on
runner 2 and thread 3 runs another task. -/
def recoverClients : ℕ → Client
  | 0 => .enqueue { name := 1 } { jobId := 1, taskPayload := some ⟨"report"⟩ } {}
  | 1 => .task
  | 2 => .recover { name := 2 } everyTask
  | 3 => .task
  | _ => .cancel {} 0

/-- The task of runner 1 reads the PENDING job; runner 2 lists it, claims it and creates a task for
it; then both tasks go on. -/
def claimBetween : List (ℕ × Choice) :=
  [(0, { clock := 0 }), (0, { clock := 0 }), (1, { clock := 1 }), (1, { clock := 1 }),
    (2, { clock := 1 }), (2, { clock := 1 }), (2, { clock := 1 }), (1, { clock := 2 }),
    (1, { clock := 2 }), (1, { clock := 2 }), (3, { clock := 3 }), (3, { clock := 3 })]

def emptyStore : World ℕ := { store := .empty, clock := 0 }

/-- **A job is started twice**: it was enqueued once, never retried and never reaped. -/
theorem claimed_in_between :
    ∃ l P, Run TaskStep (taskPool { store := .empty, clock := 0 } recoverClients) l P ∧
      occurrences (savesPending 1) l = 1 ∧ occurrences reaps l = 0 ∧
      occurrences (starts 1) l = 2 := by
  exact ⟨_, _, Pool.run_of_sched (q := claimBetween) rfl, rfl, rfl, rfl⟩

/-- A guarded run goes on without saves and reaps. -/
theorem guarded_of_no_save {P₀ : Pool ι (World ι) Cmd Cmd.Res (Except Exc Unit)}
    {s₀ : InMemoryJobStore} {l' : List (Event ι Choice Cmd Cmd.Res)}
    (h : Guarded TaskStep (fun past P e => NoReturn id s₀ past P e ∧ StillPending id P e) P₀ l P)
    (hrun : Run TaskStep P l' P')
    (hl : ∀ e ∈ l', (∀ job epoch, e.cmd ≠ .store (.save job epoch)) ∧
      ∀ now limit, e.cmd ≠ .store (.reapExpiredLeases now limit)) :
    Guarded TaskStep (fun past P e => NoReturn id s₀ past P e ∧ StillPending id P e) P₀ (l ++ l')
      P' := by
  refine h.extend hrun fun l₁ e l₂ t hsplit _ => ?_
  have he := hl e (by simp [hsplit])
  refine ⟨⟨fun job epoch hc => absurd hc (he.1 job epoch), fun now limit job hc => ?_⟩,
    fun job epoch hc => absurd hc (he.1 job epoch)⟩
  exact absurd hc (he.2 now limit)

/-- A job is enqueued, its task saves it as RUNNING and starts it, and runner 2 recovers nothing. -/
theorem started_at_most_once_enqueued :
    ∃ l P, Run TaskStep (taskPool emptyStore recoverClients) l P ∧
      P.prog 2 = .ret (.ok ()) ∧ occurrences (savesRunning 1) l = 1 ∧
      0 < occurrences (starts 1) l ∧ occurrences (starts 1) l ≤ 1 := by
  obtain ⟨l, P, hguard, hdone, hsaves, hstarts⟩ : ∃ l P,
      Guarded TaskStep (fun past P e => NoReturn 1 emptyStore.store past P e ∧ StillPending 1 P e)
        (taskPool emptyStore recoverClients) l P ∧
      P.prog 2 = .ret (.ok ()) ∧ occurrences (savesRunning 1) l = 1 ∧
      0 < occurrences (starts 1) l := by
    refine ⟨_, _, guarded_of_no_save (.snoc (guarded_of_no_save (.snoc .nil ⟨⟨?_, ?_⟩, ?_⟩
      (Pool.step_of_stepSched (i := 0) (x := { clock := 0 }) rfl))
      (Pool.run_of_sched (q := (0, { clock := 0 }) :: List.replicate 3 (1, { clock := 1 })) rfl)
      (by simp)) ⟨⟨?_, ?_⟩, ?_⟩ (Pool.step_of_stepSched (i := 1) (x := { clock := 1 }) rfl))
      (Pool.run_of_sched (q := [(1, { clock := 1 }), (2, { clock := 2 })]) rfl) (by simp),
      rfl, rfl, Nat.one_pos⟩
    · exact fun _ _ _ _ _ => ⟨rfl, by simp⟩
    · rintro _ _ _ ⟨⟩
    · rintro _ _ ⟨⟩ _ ⟨⟩
    · rintro _ _ ⟨⟩ _ ⟨⟩
    · rintro _ _ _ ⟨⟩
    · rintro _ _ ⟨⟩ _ _
      exact ⟨_, rfl, rfl⟩
  exact ⟨l, P, hguard.run, hdone, hsaves, hstarts, started_at_most_once rfl hguard⟩

end Varco
