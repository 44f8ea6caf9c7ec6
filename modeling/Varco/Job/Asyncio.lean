import Varco.Event.DeadLetter
import Varco.Foundations.Pool
import Varco.Job.Memory

/-!
# The event loop under the job runner

The tasks of any number of job runners and pollers over one `InMemoryJobStore`. What they do is
a program (`Varco.Job.Runner`) whose commands are listed here: the awaits on the store, the event
bus, the dead letter queue and the job's own coroutine, the readings of the clock, and the creation
and cancellation of asyncio tasks. `World.exec` says what a command does to the world they share.

An await is where another task may run, and where a cancellation arrives: before the awaited call
has taken effect or after it. The clock never goes back.
-/

namespace Varco

/-- The return value of a job's coroutine, through what the runner asks of it: `json.dumps(value)`
and `str(value)`, encoded. -/
structure CoroResult where
  dumps : Except PyException Bytes
  str : Except PyException Bytes

/-- The configuration of a job runner: its identity, whether it has an event bus, a retry policy and
a dead letter queue. -/
structure JobRunner where
  name : ℕ := 0
  eventBus : Bool := false
  retryPolicy : Bool := false
  dlq : Bool := false
  deriving DecidableEq

/-- The coroutines that the runner hands to `asyncio.create_task`. -/
inductive Task
  | runJob (runner : JobRunner) (id : UUID)
  | runClaimedJob (runner : JobRunner) (job : Job)
  deriving DecidableEq

/-- What runners and pollers do one at a time. -/
inductive Cmd
  /-- `datetime.now(UTC)` -/
  | now
  /-- A call of the job store. -/
  | store (call : InMemoryJobStore.Call)
  /-- `retry_policy.compute_delay(attempt)`: an exponential with a random jitter. -/
  | computeDelay (attempt : ℤ)
  /-- The body of the job's coroutine starts. -/
  | startCoro (id : UUID)
  /-- The body of the job's coroutine ends. -/
  | awaitCoro (id : UUID)
  /-- `event_bus.publish(JobProgressEvent(...))` -/
  | publish (id : UUID) (status : JobStatus) (error : Option String)
  /-- The POST to the callback URL of a job. -/
  | fireCallback (job : Job)
  /-- `dlq.push(entry)` -/
  | push (entry : DeadLetterEntry)
  /-- `asyncio.create_task`, with the entry in the runner's registry. -/
  | createTask (task : Task)
  /-- `task.cancel()` for the task registered for a job. -/
  | cancelTask (runner : ℕ) (id : UUID)
  /-- The event loop starts a task. -/
  | begin
  /-- The done callback of a task. -/
  | finish (runner : ℕ) (id : UUID)

abbrev Cmd.Res : Cmd → Type
  | .now => Instant
  | .store call => Except Exc call.Res
  | .computeDelay _ => Except PyException Duration
  | .startCoro _ => Unit
  | .awaitCoro _ => Except Exc (Option CoroResult)
  | .publish .. => Except Exc Unit
  | .fireCallback _ => Except Exc Unit
  | .push _ => Except Exc Unit
  | .createTask _ => ℕ
  | .cancelTask .. => Bool
  | .begin => Except Exc Task
  | .finish .. => Unit

def Cmd.Answer : (c : Cmd) → c.Res → Prop
  | .store (.get id), .ok (some job) => job.jobId = id
  | .store (.listByStatus ..), .ok jobs => (jobs.map Job.jobId).Nodup
  | .store (.tryClaim id ..), .ok (some job) => job.jobId = id
  | _, _ => True

/-- What the environment decides at a step: the clock, a cancellation, the end of a coroutine or of
a network call, whether a dead letter entry is stored, and which scheduled task is next. -/
structure Choice where
  clock : Instant
  interrupt : Interrupt := .none
  coro : Except Exc (Option CoroResult) := .ok none
  network : Except Exc Unit := .ok ()
  pushed : Bool := true
  delay : Except PyException Duration := .ok 0
  pick : ℕ := 0

/-- The shared state of the threads `ι`. -/
structure World (ι : Type) where
  store : InMemoryJobStore
  clock : Instant
  /-- Tasks created and not yet started. -/
  scheduled : List (ℕ × Task) := []
  nextTask : ℕ := 0
  /-- The registries `_tasks` of the runners. -/
  tasks : Dict (ℕ × UUID) ℕ := .empty
  /-- Tasks with a cancellation that has not been delivered. -/
  cancelling : List ℕ := []
  /-- The task that a thread runs; none for a caller from outside. -/
  running : ι → Option ℕ := fun _ => none
  dlq : List DeadLetterEntry := []

def Task.key : Task → ℕ × UUID
  | runJob r id => (r.name, id)
  | runClaimedJob r job => (r.name, job.jobId)

namespace World

section

variable {ι : Type}

/-- A cancellation may reach thread `i`: its task was cancelled, or it is a caller that its own
caller may cancel. -/
def mayCancel (w : World ι) (i : ι) : Bool :=
  match w.running i with
  | some n => n ∈ w.cancelling
  | none => true

/-- The cancellation of the task of thread `i` is delivered. -/
def deliver (w : World ι) (i : ι) : World ι :=
  match w.running i with
  | some n => { w with cancelling := w.cancelling.erase n }
  | none => w

/-- An await of a call that would answer `r` and leave `w'` behind. -/
def await {β : Type} (x : Choice) (i : ι) (w : World ι) (r : Except Exc β) (w' : World ι) :
    Option (Except Exc β × World ι) :=
  match x.interrupt with
  | .none => some (r, w')
  | .before => if w.mayCancel i then some (.error .cancelled, w.deliver i) else none
  | .after => if w.mayCancel i then some (.error .cancelled, w'.deliver i) else none

variable {i : ι} {x : Choice} {w w' : World ι}

@[simp] theorem deliver_store (w : World ι) (i : ι) : (w.deliver i).store = w.store := by
  unfold deliver
  split <;> rfl

@[simp] theorem deliver_scheduled (w : World ι) (i : ι) :
    (w.deliver i).scheduled = w.scheduled := by
  unfold deliver
  split <;> rfl

@[simp] theorem deliver_dlq (w : World ι) (i : ι) : (w.deliver i).dlq = w.dlq := by
  unfold deliver
  split <;> rfl

/-- **What an await does**: it is cancelled before the call, or the call takes effect and the await
answers as it does or with a cancellation. -/
theorem await_cases {β : Type} {r r' : Except Exc β} {w₁ : World ι}
    (h : await x i w r w₁ = some (r', w')) :
    (x.interrupt = .before ∧ r' = .error .cancelled ∧ w' = w.deliver i) ∨
    (x.interrupt ≠ .before ∧ (r' = r ∧ w' = w₁ ∨ r' = .error .cancelled ∧ w' = w₁.deliver i)) := by
  unfold await at h
  split at h
  · rename_i hx
    cases h
    exact Or.inr ⟨by simp [hx], Or.inl ⟨rfl, rfl⟩⟩
  · rename_i hx
    split_ifs at h
    cases h
    exact Or.inl ⟨hx, rfl, rfl⟩
  · rename_i hx
    split_ifs at h
    cases h
    exact Or.inr ⟨by simp [hx], Or.inr ⟨rfl, rfl⟩⟩

/-- An await on something outside changes none of the three. -/
theorem await_same {β : Type} {r r' : Except Exc β}
    (h : await x i { w with clock := x.clock } r { w with clock := x.clock } = some (r', w')) :
    w'.store = w.store ∧ w'.dlq = w.dlq ∧ w'.scheduled = w.scheduled := by
  rcases await_cases h with ⟨-, -, rfl⟩ | ⟨-, ⟨-, rfl⟩ | ⟨-, rfl⟩⟩
  · exact ⟨deliver_store _ i, deliver_dlq _ i, deliver_scheduled _ i⟩
  · exact ⟨rfl, rfl, rfl⟩
  · exact ⟨deliver_store _ i, deliver_dlq _ i, deliver_scheduled _ i⟩

end

variable {ι : Type} [DecidableEq ι]

/-- What a command does at the clock reading of `w`. -/
def perform (i : ι) (x : Choice) : (c : Cmd) → World ι → Option (c.Res × World ι)
  | .now, w => some (w.clock, w)
  | .store call, w =>
    let out := w.store.exec w.clock call
    await x i w (.ok out.1) { w with store := out.2 }
  | .computeDelay _, w => some (x.delay, w)
  | .startCoro _, w => some ((), w)
  | .awaitCoro _, w => await x i w x.coro w
  | .publish .., w => await x i w x.network w
  | .fireCallback _, w => await x i w x.network w
  | .push entry, w =>
    await x i w x.network { w with dlq := if x.pushed then w.dlq ++ [entry] else w.dlq }
  | .createTask task, w =>
    some (w.nextTask,
      { w with
        scheduled := w.scheduled ++ [(w.nextTask, task)]
        nextTask := w.nextTask + 1
        tasks := w.tasks.set task.key w.nextTask })
  | .cancelTask r id, w =>
    match w.tasks.get? (r, id) with
    | none => some (false, w)
    | some n => some (true, { w with cancelling := n :: w.cancelling })
  | .begin, w =>
    match w.scheduled[x.pick]? with
    | none => none
    | some (n, task) =>
      let scheduled := w.scheduled.eraseIdx x.pick
      -- a task cancelled before its first step never runs its body
      if n ∈ w.cancelling then
        some (.error .cancelled,
          { w with scheduled := scheduled, cancelling := w.cancelling.erase n })
      else
        some (.ok task,
          { w with scheduled := scheduled, running := Function.update w.running i (some n) })
  | .finish r id, w => some ((), { w with tasks := w.tasks.erase (r, id) })

/-- One command of thread `i`; the clock never goes back. -/
def exec (i : ι) (x : Choice) (c : Cmd) (w : World ι) : Option (c.Res × World ι) :=
  if x.clock < w.clock then none else perform i x c { w with clock := x.clock }

/-! ## What a command does -/

def storeAfter (x : Choice) (w : World ι) : Cmd → InMemoryJobStore
  | .store call => if x.interrupt = .before then w.store else (w.store.exec x.clock call).2
  | _ => w.store

def dlqAfter (x : Choice) (w : World ι) : Cmd → List DeadLetterEntry
  | .push entry => if x.pushed ∧ x.interrupt ≠ .before then w.dlq ++ [entry] else w.dlq
  | _ => w.dlq

def scheduledAfter (x : Choice) (w : World ι) : Cmd → List (ℕ × Task)
  | .createTask task => w.scheduled ++ [(w.nextTask, task)]
  | .begin => w.scheduled.eraseIdx x.pick
  | _ => w.scheduled

variable {i : ι} {x : Choice} {w w' : World ι}

theorem perform_of_exec {c : Cmd} {r : c.Res} (h : exec i x c w = some (r, w')) :
    perform i x c { w with clock := x.clock } = some (r, w') := by
  unfold exec at h
  split_ifs at h
  exact h

/-- **The effect of a command** on the store, the dead letter queue and the scheduled tasks. -/
theorem exec_effect {c : Cmd} {r : c.Res} (h : exec i x c w = some (r, w')) :
    w'.store = storeAfter x w c ∧ w'.dlq = dlqAfter x w c ∧
      w'.scheduled = scheduledAfter x w c := by
  have h := perform_of_exec h
  cases c with
  | store call =>
    rcases await_cases h with ⟨hx, -, rfl⟩ | ⟨hx, ⟨-, rfl⟩ | ⟨-, rfl⟩⟩
    · simp [storeAfter, dlqAfter, scheduledAfter, hx]
    · simp [storeAfter, dlqAfter, scheduledAfter, hx]
    · simp [storeAfter, dlqAfter, scheduledAfter, hx]
  | push entry =>
    rcases await_cases h with ⟨hx, -, rfl⟩ | ⟨hx, ⟨-, rfl⟩ | ⟨-, rfl⟩⟩
    · simp [storeAfter, dlqAfter, scheduledAfter, hx]
    · simp [storeAfter, dlqAfter, scheduledAfter, hx]
    · simp [storeAfter, dlqAfter, scheduledAfter, hx]
  | awaitCoro id => exact await_same h
  | publish id st e => exact await_same h
  | fireCallback job => exact await_same h
  | cancelTask r id =>
    simp only [perform] at h
    split at h <;> cases h <;> exact ⟨rfl, rfl, rfl⟩
  | begin =>
    simp only [perform] at h
    split at h
    · cases h
    · split_ifs at h <;> cases h <;> exact ⟨rfl, rfl, rfl⟩
  | now => cases h; exact ⟨rfl, rfl, rfl⟩
  | computeDelay a => cases h; exact ⟨rfl, rfl, rfl⟩
  | startCoro id => cases h; exact ⟨rfl, rfl, rfl⟩
  | createTask t => cases h; exact ⟨rfl, rfl, rfl⟩
  | finish r id => cases h; exact ⟨rfl, rfl, rfl⟩

theorem get_of_exec {c : Cmd} {r : c.Res} (h : exec i x c w = some (r, w')) (id : UUID) :
    w'.store.get id = w.store.get id ∨
      ∃ call, c = .store call ∧ InMemoryJobStore.Effect x.clock call id w.store w'.store := by
  obtain ⟨hstore, -, -⟩ := exec_effect h
  cases c with
  | store call =>
    simp only [storeAfter] at hstore
    split_ifs at hstore
    · exact Or.inl (by rw [hstore])
    · exact Or.inr ⟨call, rfl, hstore ▸ InMemoryJobStore.effect_of_exec x.clock w.store call id⟩
  | _ => exact Or.inl (by rw [hstore]; rfl)

/-- A store call answers with its result or a cancellation. -/
theorem exec_store_res {call : InMemoryJobStore.Call} {r : Except Exc call.Res}
    (h : exec i x (.store call) w = some (r, w')) :
    r = .error .cancelled ∨
      x.interrupt ≠ .before ∧ r = .ok (w.store.exec x.clock call).1 := by
  rcases await_cases (perform_of_exec h) with ⟨-, rfl, -⟩ | ⟨hx, ⟨rfl, -⟩ | ⟨rfl, -⟩⟩
  · exact Or.inl rfl
  · exact Or.inr ⟨hx, rfl⟩
  · exact Or.inl rfl

theorem exec_store_ok {call : InMemoryJobStore.Call} {v : call.Res}
    (h : exec i x (.store call) w = some (.ok v, w')) :
    w.store.exec x.clock call = (v, w'.store) := by
  obtain ⟨hstore, -, -⟩ := exec_effect h
  rcases exec_store_res h with hr | ⟨hx, hr⟩
  · cases hr
  · cases hr
    simp only [storeAfter, if_neg hx] at hstore
    rw [hstore]

/-- A task that begins is one of the scheduled ones, unless it was cancelled before. -/
theorem exec_begin {r : Except Exc Task} (h : exec i x .begin w = some (r, w')) :
    ∃ n task, w.scheduled[x.pick]? = some (n, task) ∧
      w'.scheduled = w.scheduled.eraseIdx x.pick ∧ (r = .ok task ∨ r = .error .cancelled) := by
  have h := perform_of_exec h
  simp only [perform] at h
  split at h
  · cases h
  · rename_i n task hpick
    refine ⟨n, task, hpick, ?_⟩
    split_ifs at h
    · cases h
      exact ⟨rfl, Or.inr rfl⟩
    · cases h
      exact ⟨rfl, Or.inl rfl⟩

theorem answer_of_exec {c : Cmd} {r : c.Res} (h : exec i x c w = some (r, w')) : c.Answer r := by
  cases c with
  | store call =>
    rcases exec_store_res h with rfl | ⟨-, rfl⟩
    · cases call <;> trivial
    · cases call with
      | get id =>
        change Cmd.Answer (.store (.get id)) (.ok (w.store.get id))
        cases hg : w.store.get id with
        | none => trivial
        | some job => exact InMemoryJobStore.jobId_of_get hg
      | listByStatus status limit => exact w.store.nodup_jobId_listByStatus status limit
      | tryClaim id o ttl =>
        change Cmd.Answer (.store (.tryClaim id o ttl)) (.ok (w.store.tryClaim id o ttl x.clock).1)
        cases hs : w.store.tryClaim id o ttl x.clock with
        | mk res s' =>
          cases res with
          | none => trivial
          | some job =>
            obtain ⟨j, hg, -, -, rfl, -⟩ := InMemoryJobStore.tryClaim_some.mp hs
            exact (Job.claimed_jobId ..).trans (InMemoryJobStore.jobId_of_get hg)
      | _ => trivial
  | _ => trivial

end World

end Varco
