import Varco.Job.Tasks

/-!
# Terminal jobs

Runners and pollers read a job, make its next version and save it later, most of the time without a
fence. A job that has ended stays as it ended as long as no two of them work on it at once:
`Undisturbed` asks that a save finds the copy that its thread saw last still stored, and that a job
is enqueued under a new id. `terminal_absorbing` is that this is enough, in every interleaving of
the threads of any number of runners and pollers; `stale_sweep_overtaken` is the poller's age sweep
ending a job that is still running, which the runner then ends once more.
-/

namespace Varco

variable {ι : Type} [DecidableEq ι] {w : World ι} {clients : ι → Client} {id : UUID}
  {P P₁ P₂ : Pool ι (World ι) Cmd Cmd.Res (Except Exc Unit)}
  {l l₁ l₂ past : List (Event ι Choice Cmd Cmd.Res)} {e : Event ι Choice Cmd Cmd.Res}

/-- The condition on a save after the events `past`: the store still holds the copy of the job that
the thread saw last, or, for a thread that has not seen the job, nothing was ever stored under its
id. -/
def Undisturbed (s₀ : InMemoryJobStore) (past : List (Event ι Choice Cmd Cmd.Res))
    (P : Pool ι (World ι) Cmd Cmd.Res (Except Exc Unit)) (e : Event ι Choice Cmd Cmd.Res) : Prop :=
  ∀ job epoch, e.cmd = .store (.save job epoch) →
    match lastSeen job.jobId (Pool.log e.thread past) with
    | some base => P.shared.store.get job.jobId = some base
    | none => Fresh s₀ past job.jobId

/-- The job of `id` is gone or has the status `status`. -/
def Kept (id : UUID) (status : JobStatus) (s : InMemoryJobStore) : Prop :=
  ∀ j, s.get id = some j → j.status = status

/-- **One step keeps a terminal status.** -/
theorem Kept.step {status : JobStatus} (h : Kept id status P₁.shared.store)
    (hterm : status.isTerminal = true) (hst : TaskStep P₁ e P₂)
    (hissued : Issued (clients e.thread) (Pool.log e.thread past) e.cmd)
    (hok : Undisturbed w.store past P₁ e) (hknown : ¬Fresh w.store past id) :
    Kept id status P₂.shared.store := by
  intro j hj
  have hpending : status ≠ .pending ∧ status ≠ .running := JobStatus.isTerminal_iff.mp hterm
  rcases World.get_of_exec hst.exec_eq id with hsame | ⟨call, hcall, heff⟩
  · exact h j (hsame ▸ hj)
  · cases heff with
    | same hsame => exact h j (hsame ▸ hj)
    | deleted hnone => cases hnone.symm.trans hj
    | @saved job epoch hc hid hsaved =>
      -- the copy that the saved job was made from is the stored one, and it is terminal
      subst hc hid
      rw [hcall] at hissued
      obtain ⟨-, hissued⟩ := hissued
      have hok := hok job epoch hcall
      rcases hissued with ⟨-, hnone⟩ | ⟨base, hseen, hnext⟩
      · rw [hnone] at hok
        exact absurd hok hknown
      · rw [hseen] at hok
        have hterm' := hnext.spec.2
        rw [h base hok, hterm] at hterm'
        cases hterm'
    | claimed hg hp => exact absurd (h _ hg ▸ hp) hpending.1
    | @renewed job ttl hg hr =>
      cases hr.symm.trans hj
      exact h job hg
    | @reaped job now limit hc hg he hr =>
      obtain ⟨hrun, -⟩ := Job.leaseExpired_iff.mp he
      exact absurd (h _ hg ▸ hrun) hpending.2

/-- **Terminal states are absorbing**, in the runs whose saves are undisturbed: a job that was
stored as ended is stored with the same status ever after, or deleted by the retention sweep. -/
theorem terminal_absorbing {j j' : Job}
    (h : Guarded TaskStep (Undisturbed w.store) (taskPool w clients) (l₁ ++ l₂) P₂)
    (h₁ : Run TaskStep (taskPool w clients) l₁ P₁) (hj : P₁.shared.store.get id = some j)
    (hterm : j.status.isTerminal = true) (hj' : P₂.shared.store.get id = some j') :
    j'.status = j.status := by
  have hknown : ∀ l, l₁ <+: l → ¬Fresh w.store l id := by
    rintro l ⟨l', rfl⟩ hfresh
    have hfresh₁ : Fresh w.store l₁ id :=
      ⟨hfresh.1, fun a ha => hfresh.2 a (List.mem_append_left _ ha)⟩
    cases (get_of_fresh h₁ hfresh₁).symm.trans hj
  have hstart : Kept id j.status P₁.shared.store := by
    intro j'' hj''
    cases hj''.symm.trans hj
    rfl
  have hkept : Kept id j.status P₂.shared.store := by
    refine h.invariant_from (I := fun _ P => Kept id j.status P.shared.store)
      (fun _ _ _ _ => Pool.Step.det) h₁ hstart ?_
    intro l P e P' h' _ hok hst hpre hkept
    exact hkept.step hterm hst (issued_of_run h'.run) hok (hknown l hpre)
  exact hkept j' hj'

/-! ## A job that ends twice -/

/-- A job is enqueued by thread 0 and run by thread 1; thread 2 is a poller that gives up jobs after
five minutes. -/
def sweepClients : ℕ → Client
  | 0 => .enqueue {} { jobId := 1 } {}
  | 1 => .task
  | 2 => .poll { staleThreshold := 300000000 }
  | _ => .cancel {} 0

def emptyWorld : World ℕ := { store := .empty, clock := 0 }

/-- The job is enqueued and started; ten minutes later the poller finds it too old. -/
def startAndSweep : List (ℕ × Choice) :=
  [(0, { clock := 0 }), (0, { clock := 0 }), (1, { clock := 0 }), (1, { clock := 0 }),
    (1, { clock := 0 }), (1, { clock := 0 }), (1, { clock := 0 }),
    (2, { clock := 600000000 }), (2, { clock := 600000000 }), (2, { clock := 600000000 }),
    (2, { clock := 600000000 }), (2, { clock := 600000000 })]

/-- The coroutine of the job returns, and the runner saves what it made of it. -/
def finishJob : List (ℕ × Choice) :=
  [(1, { clock := 600000001 }), (1, { clock := 600000001 }), (1, { clock := 600000001 })]

/-- **The age sweep ends a job that is still running, and its runner ends it again**: FAILED becomes
COMPLETED. -/
theorem stale_sweep_overtaken :
    ∃ l₁ l₂ P₁ P₂ j j', Run TaskStep (taskPool emptyWorld sweepClients) l₁ P₁ ∧
      Run TaskStep P₁ l₂ P₂ ∧ P₁.shared.store.get 1 = some j ∧ j.status = .failed ∧
      P₂.shared.store.get 1 = some j' ∧ j'.status = .completed := by
  refine ⟨_, _, _, _, _, _, Pool.run_of_sched (q := startAndSweep) rfl,
    Pool.run_of_sched (q := finishJob) rfl, rfl, rfl, rfl, rfl⟩

/-- Another runner has completed the job, and a task for it is still scheduled. -/
def doneWorld : World ℕ :=
  { store := InMemoryJobStore.empty.put { jobId := 2, status := .completed }, clock := 0,
    scheduled := [(0, .runJob {} 2)] }

/-- The task reads the job and gives up, and the poller makes its pass. -/
def readAndPoll : List (ℕ × Choice) :=
  List.replicate 4 (1, { clock := 1 }) ++ List.replicate 3 (2, { clock := 600000000 })

/-- Another job is enqueued beside the completed one, which a task and a poller leave as it is. -/
theorem terminal_absorbing_read :
    ∃ l P e, Guarded TaskStep (Undisturbed doneWorld.store) (taskPool doneWorld sweepClients) l P ∧
      P.prog 1 = .ret (.error e) ∧ P.prog 2 = .ret (.ok ()) ∧
      ∀ j, P.shared.store.get 2 = some j → j.status = .completed := by
  have hfresh : Fresh (ι := ℕ) doneWorld.store [] 1 := ⟨rfl, by simp⟩
  obtain ⟨l₁, P₁, h₁, l₂, P, h₂, e, hraised, hpolled, hsaves⟩ : ∃ l₁ P₁,
      Guarded TaskStep (Undisturbed doneWorld.store) (taskPool doneWorld sweepClients) l₁ P₁ ∧
      ∃ l₂ P, Run TaskStep P₁ l₂ P ∧ ∃ e, P.prog 1 = .ret (.error e) ∧ P.prog 2 = .ret (.ok ()) ∧
        ∀ a ∈ l₂, ∀ job epoch, a.cmd ≠ .store (.save job epoch) := by
    refine ⟨_, _, .snoc .nil ?_ (Pool.step_of_stepSched (i := 0) (x := { clock := 0 }) rfl), _, _,
      Pool.run_of_sched (q := readAndPoll) rfl, _, rfl, rfl, by simp⟩
    intro job epoch hsave
    cases hsave
    exact hfresh
  have hguard : Guarded TaskStep _ _ ([] ++ (l₁ ++ l₂)) P :=
    h₁.extend h₂ fun l₃ a l₄ _ hl _ job epoch hsave =>
      absurd hsave (hsaves a (by simp [hl]) job epoch)
  refine ⟨_, P, e, hguard, hraised, hpolled, fun j hj => ?_⟩
  have hdone : (taskPool doneWorld sweepClients).shared.store.get 2 =
      some { jobId := 2, status := .completed } := rfl
  exact terminal_absorbing hguard (.nil _) hdone rfl hj

end Varco
