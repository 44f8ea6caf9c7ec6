import Varco.Foundations.Dict
import Varco.Foundations.Python
import Varco.Foundations.Tasks

/-!
# The fan-out supervisor

`TenantFanoutSupervisor`: one child for each registered tenant, and one supervising task that calls
the child's `start` until it returns. A child is the number of the call of the factory that returned
it. No section under `_lock` awaits anything, so the lock is always free when it is asked for; a
call is suspended only where it awaits a supervising task or a child's `stop`, and a supervising
task at its sleeps and in the child's `start`, any of which may take any time. The await of a task
that has ended does not suspend.
-/

namespace Varco

namespace TenantFanoutSupervisor

/-! ## The supervisor -/

/-- The arguments `enabled` and `max_entries`. -/
structure Config where
  enabled : Bool := true
  maxEntries : ℤ := 50

/-- Where a supervising task is. -/
inductive Stage
  /-- It has not run yet. -/
  | created
  /-- `asyncio.sleep(stagger_index * _STAGGER_STEP_S)`. -/
  | staggering
  /-- `await child.start()`. -/
  | starting
  /-- `asyncio.sleep(backoff)`. -/
  | backingOff
  | done
  deriving DecidableEq

/-- A task that runs `_run_child`. `cancelling` says that it is to be cancelled when it goes on. -/
structure Job where
  child : ℕ
  staggerIndex : ℕ
  stage : Stage := .created
  cancelling : Bool := false
  deriving DecidableEq

/-- A method of a child is entered. -/
inductive Entered
  | start (child : ℕ)
  | stop (child : ℕ)
  deriving DecidableEq

/-- `_children`, `_tasks`, `_order`, `_started`, `_stopped`; the tenants for which children were
made, the tasks that were created, and the calls to the children's methods, in order. -/
structure State where
  children : Dict String ℕ := .empty
  tasks : Dict String ℕ := .empty
  order : List String := []
  started : Bool := false
  stopped : Bool := false
  made : List String := []
  jobs : List Job := []
  entered : List Entered := []

/-- The methods of the supervisor. The factory may raise. -/
inductive Call
  | onTenantActivated (tenantId : String) (fault : Option Exc)
  | onTenantDeactivated (tenantId : String)
  | start
  | stop
  deriving DecidableEq

/-- Where a call is. `made` is the number of children that there were when `on_tenant_deactivated`
was called, and `left` the number of places before the iterator of `stop`. -/
inductive Phase
  | idle
  /-- `on_tenant_deactivated` awaits the task of the child it has removed. -/
  | deactivating (tenantId : String) (made : ℕ) (child : Option ℕ) (task : ℕ)
  /-- `on_tenant_deactivated` awaits the child's `stop`. -/
  | stoppingChild (tenantId : String) (made : ℕ)
  /-- `on_tenant_deactivated` has returned. -/
  | deactivated (tenantId : String) (made : ℕ)
  /-- `stop` awaits the task of a tenant. -/
  | awaitingTask (tenantId : String) (left : ℕ) (task : ℕ)
  /-- `stop` awaits a child's `stop`. -/
  | awaitingChild (left : ℕ)
  /-- `stop` has returned. -/
  | stopReturned
  | returned
  | raised (e : Exc)
  /-- `start` found no child for a tenant. -/
  | keyError (tenantId : String)
  deriving DecidableEq

/-! ## Supervising tasks -/

/-- `task.cancel()`, which does nothing to a task that has ended. -/
def Job.cancel (job : Job) : Job :=
  if job.stage = .done then job else { job with cancelling := true }

/-- `task.cancel()`. -/
def cancel (task : ℕ) (s : State) : State := { s with jobs := s.jobs.modify task Job.cancel }

def State.Live (s : State) (task : ℕ) : Prop := ∃ job ∈ s.jobs[task]?, job.stage ≠ .done

instance (s : State) (task : ℕ) : Decidable (s.Live task) :=
  inferInstanceAs (Decidable (∃ job ∈ s.jobs[task]?, job.stage ≠ .done))

def spawn (tenantId : String) (child staggerIndex : ℕ) (s : State) : State :=
  { s with
    jobs := s.jobs ++ [{ child := child, staggerIndex := staggerIndex }]
    tasks := s.tasks.set tenantId s.jobs.length }

def enter (e : Entered) (s : State) : State := { s with entered := s.entered ++ [e] }

def setJob (task : ℕ) (job : Job) (s : State) : State := { s with jobs := s.jobs.set task job }

/-- A supervising task goes on from an await that has ended with an outcome: that of the child's
`start`, if it was there, which a cancellation is thrown into. -/
def goOn (task : ℕ) (outcome : Option Exc) (s : State) : Option State :=
  match s.jobs[task]? with
  | none => none
  | some job =>
    match job.stage with
    | .created =>
      if job.cancelling then some (setJob task { job with stage := .done } s)
      else if job.staggerIndex ≠ 0 then some (setJob task { job with stage := .staggering } s)
      else some (enter (.start job.child) (setJob task { job with stage := .starting } s))
    | .staggering | .backingOff =>
      if job.cancelling then some (setJob task { job with stage := .done } s)
      else some (enter (.start job.child) (setJob task { job with stage := .starting } s))
    | .starting =>
      match outcome with
      | some (.error _) =>
        some (setJob task { job with stage := .backingOff, cancelling := false } s)
      | none | some .cancelled =>
        some (setJob task { job with stage := .done, cancelling := false } s)
    | .done => none

def register (tenantId : String) (s : State) : State :=
  { s with
    children := s.children.set tenantId s.made.length
    order := s.order ++ [tenantId]
    made := s.made ++ [tenantId] }

/-- `on_tenant_activated`. -/
def activate (cfg : Config) (tenantId : String) (fault : Option Exc) (s : State) : State × Phase :=
  if !cfg.enabled then (s, .returned)
  else if (s.children.get? tenantId).isSome then (s, .returned)
  else if cfg.maxEntries ≤ s.children.entries.length then (s, .returned)
  else match fault with
    | some e => (s, .raised e)
    | none =>
      if s.started then (spawn tenantId s.made.length 0 (register tenantId s), .returned)
      else (register tenantId s, .returned)

def remove (tenantId : String) (s : State) : State :=
  { s with
    children := s.children.erase tenantId
    order := s.order.erase tenantId
    tasks := s.tasks.erase tenantId }

/-- `on_tenant_deactivated` after its task. -/
def stopRemoved (tenantId : String) (made : ℕ) (child : Option ℕ) (s : State) : State × Phase :=
  match child with
  | some child => (enter (.stop child) s, .stoppingChild tenantId made)
  | none => (s, .deactivated tenantId made)

/-- `on_tenant_deactivated`. -/
def deactivate (tenantId : String) (s : State) : State × Phase :=
  let child := s.children.get? tenantId
  match s.tasks.get? tenantId with
  | some task =>
    if s.Live task then
      (cancel task (remove tenantId s), .deactivating tenantId s.made.length child task)
    else stopRemoved tenantId s.made.length child (remove tenantId s)
  | none => stopRemoved tenantId s.made.length child (remove tenantId s)

/-- `start` goes through the registered tenants. -/
def spawnAll : List String → ℕ → State → State × Phase
  | [], _, s => (s, .returned)
  | tenantId :: order, index, s =>
    match s.children.get? tenantId with
    | none => (s, .keyError tenantId)
    | some child => spawnAll order (index + 1) (spawn tenantId child index s)

def start (cfg : Config) (s : State) : State × Phase :=
  if s.started || !cfg.enabled then ({ s with started := true }, .returned)
  else spawnAll s.order 0 { s with started := true }

/-- The loop of `stop` is over. -/
def clear (s : State) : State := { s with children := .empty, order := [], tasks := .empty }

/-- `stop` passes on to the child of a tenant, or else to the next tenant. -/
def stopChild (tenantId : String) (left : ℕ) (s : State) (rest : State × Phase) : State × Phase :=
  match s.children.get? tenantId with
  | some child => (enter (.stop child) s, .awaitingChild left)
  | none => rest

/-- The loop of `stop` over `reversed(self._order)`, with the iterator at a place: it ends where the
list has become shorter than that. -/
def stopLoop (s : State) : ℕ → State × Phase
  | 0 => (clear s, .stopReturned)
  | left + 1 =>
    match s.order[left]? with
    | none => (clear s, .stopReturned)
    | some tenantId =>
      let popped := { s with tasks := s.tasks.erase tenantId }
      match s.tasks.get? tenantId with
      | some task =>
        if s.Live task then (cancel task popped, .awaitingTask tenantId left task)
        else stopChild tenantId left popped (stopLoop popped left)
      | none => stopChild tenantId left popped (stopLoop popped left)

def stop (s : State) : State × Phase :=
  if s.stopped then (s, .stopReturned)
  else stopLoop { s with stopped := true } s.order.length

def begin (cfg : Config) (s : State) : Call → State × Phase
  | .onTenantActivated tenantId fault => activate cfg tenantId fault s
  | .onTenantDeactivated tenantId => deactivate tenantId s
  | .start => start cfg s
  | .stop => stop s

/-- A child's `stop` has ended: `_safe_stop` keeps what it raises, unless that is a cancellation. -/
def afterChild (outcome : Option Exc) (s : State) (q : State × Phase) : State × Phase :=
  if outcome = some .cancelled then (s, .raised .cancelled) else q

def resume (outcome : Option Exc) (s : State) : Phase → Option (State × Phase)
  | .deactivating tenantId made child task =>
    if s.Live task then none else some (stopRemoved tenantId made child s)
  | .stoppingChild tenantId made => some (afterChild outcome s (s, .deactivated tenantId made))
  | .awaitingTask tenantId left task =>
    if s.Live task then none else some (stopChild tenantId left s (stopLoop s left))
  | .awaitingChild left => some (afterChild outcome s (stopLoop s left))
  | _ => none

/-- A call that is cancelled while it awaits a task cancels the task, and is not cancelled itself.
-/
def interrupt (s : State) : Phase → Option (State × Phase)
  | .deactivating tenantId made child task =>
    some (cancel task s, .deactivating tenantId made child task)
  | .awaitingTask tenantId left task => some (cancel task s, .awaitingTask tenantId left task)
  | _ => none

/-- A call is made, goes on, or is cancelled at the await of a task; or a supervising task goes on.
-/
inductive Input
  | call (c : Call)
  | resume (outcome : Option Exc)
  | interrupt
  | task (task : ℕ) (outcome : Option Exc)
  deriving DecidableEq

def next (cfg : Config) (x : Input) (s : State) (p : Phase) : Option (State × Phase) :=
  match x, p with
  | .call c, .idle => some (begin cfg s c)
  | .task task outcome, .idle => (goOn task outcome s).map (·, .idle)
  | .resume outcome, p => resume outcome s p
  | .interrupt, p => interrupt s p
  | _, _ => none

abbrev Callers (ι : Type) : Type := Tasks ι State Phase

def fresh (ι : Type) : Callers ι := ⟨{}, fun _ => .idle⟩

abbrev Step {ι : Type} [DecidableEq ι] (cfg : Config) : Callers ι → ι × Input → Callers ι → Prop :=
  Tasks.Step (next cfg)

end TenantFanoutSupervisor

end Varco
