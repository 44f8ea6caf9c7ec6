import Varco.Foundations.Crash
import Varco.Foundations.Dict
import Varco.Foundations.Text

/-!
# Sagas

`SagaOrchestrator` of `varco_core.service.saga`. A step is a callable: what it does to the world is
not seen here, only that it was executed or compensated, whether it raised, and the context that it
left behind. The commands of the orchestrator are its awaits, on the steps and on the repository.

The repository keeps one state for each saga, as `AbstractSagaRepository` says: a save replaces what
was there.
-/

namespace Varco

/-! ## States -/

inductive SagaStatus
  | pending
  | running
  | completed
  | compensating
  | compensated
  | failed
  deriving DecidableEq, Repr

/-- The statuses in which `resume` has nothing to do. -/
def SagaStatus.terminal (status : SagaStatus) : Bool :=
  status = .completed || status = .compensated || status = .failed

/-- `SagaState`, with contexts of any type. -/
structure SagaState (Γ : Type) where
  sagaId : UUID
  status : SagaStatus := .pending
  completedSteps : ℕ := 0
  context : Γ
  error : Option String := none
  deriving DecidableEq

/-- `SagaStep`: the callables are known by their place in the list of steps. -/
structure SagaStep where
  name : String

/-! ## Commands -/

/-- What the orchestrator awaits. -/
inductive SagaCmd (Γ : Type)
  /-- `repo.load(saga_id)` -/
  | load (sagaId : UUID)
  /-- `repo.save(state)` -/
  | save (state : SagaState Γ)
  /-- `steps[i].execute(context)` -/
  | execute (i : ℕ) (context : Γ)
  /-- `steps[i].compensate(context)` -/
  | compensate (i : ℕ) (context : Γ)

/-- What a command answers: of a callable, whether it raised, and the context as it left it. -/
abbrev SagaCmd.Res {Γ : Type} : SagaCmd Γ → Type
  | .load _ => Option (SagaState Γ)
  | .save _ => Unit
  | .execute .. => Except PyException Unit × Γ
  | .compensate .. => Except PyException Unit × Γ

abbrev Saga (Γ α : Type) := ExceptT PyException (Prog (SagaCmd Γ) SagaCmd.Res) α

namespace Saga

variable {Γ : Type}

def load (sagaId : UUID) : Saga Γ (Option (SagaState Γ)) := Prog.call (SagaCmd.load sagaId)

def save (state : SagaState Γ) : Saga Γ Unit := Prog.call (SagaCmd.save state)

def execute (i : ℕ) (context : Γ) : Saga Γ (Except PyException Unit × Γ) :=
  Prog.call (SagaCmd.execute i context)

def compensate (i : ℕ) (context : Γ) : Saga Γ (Except PyException Unit × Γ) :=
  Prog.call (SagaCmd.compensate i context)

end Saga

/-! ## The orchestrator -/

/-- `SagaOrchestrator`, over its repository. -/
structure SagaOrchestrator where
  steps : List SagaStep
  nonempty : steps ≠ []

namespace SagaOrchestrator

variable {Γ : Type}

/-- `IndexError` of a list. -/
def indexError : PyException := ⟨"IndexError", "list index out of range"⟩

/-- The loop of `_compensate` over `reversed(range(n))`: the context after it, and whether a
compensation has raised. -/
def compensateLoop (o : SagaOrchestrator) : ℕ → Γ → Bool → Saga Γ (Γ × Bool)
  | 0, context, failed => pure (context, failed)
  | i + 1, context, failed =>
    match o.steps[i]? with
    | none => throw indexError
    | some _ => do
      let (result, context) ← Saga.compensate i context
      match result with
      | .ok () => o.compensateLoop i context failed
      | .error _ => o.compensateLoop i context true

def compensate (o : SagaOrchestrator) (state : SagaState Γ) (error : String) :
    Saga Γ (SagaState Γ) := do
  let (context, failed) ← o.compensateLoop state.completedSteps state.context false
  let finalState := { state with
    status := if failed then .failed else .compensated, context := context, error := some error }
  Saga.save finalState
  return finalState

def stepError (i : ℕ) (step : SagaStep) (exc : PyException) : String :=
  "Step [" ++ toString i ++ "] " ++ pyRepr step.name ++ " failed: " ++ exc.message

/-- The loop of `_execute_steps` over the steps from place `i` on. -/
def executeLoop (o : SagaOrchestrator) :
    List SagaStep → ℕ → SagaState Γ → Γ → Saga Γ (SagaState Γ)
  | [], _, state, context => do
    let state : SagaState Γ :=
      { sagaId := state.sagaId, status := .completed, completedSteps := o.steps.length,
        context := context }
    Saga.save state
    return state
  | step :: rest, i, state, context =>
    if i < state.completedSteps then o.executeLoop rest (i + 1) state context
    else do
      let (result, context) ← Saga.execute i context
      match result with
      | .error exc =>
        let error := stepError i step exc
        let state : SagaState Γ :=
          { sagaId := state.sagaId, status := .compensating, completedSteps := i,
            context := context, error := some error }
        Saga.save state
        o.compensate state error
      | .ok () =>
        let state : SagaState Γ :=
          { sagaId := state.sagaId, status := .running, completedSteps := i + 1,
            context := context }
        Saga.save state
        o.executeLoop rest (i + 1) state context

def executeSteps (o : SagaOrchestrator) (state : SagaState Γ) : Saga Γ (SagaState Γ) :=
  o.executeLoop o.steps 0 state state.context

/-- `run`, under the id that was given or drawn. -/
def run (o : SagaOrchestrator) (context : Γ) (sagaId : UUID) : Saga Γ (SagaState Γ) := do
  Saga.save { sagaId := sagaId, status := .pending, context := context }
  let state : SagaState Γ :=
    { sagaId := sagaId, status := .running, completedSteps := 0, context := context }
  Saga.save state
  o.executeSteps state

/-- `state.error or "Resumed during compensation"` -/
def resumeError (error : Option String) : String :=
  match error with
  | none => "Resumed during compensation"
  | some text => if text = "" then "Resumed during compensation" else text

def resume (o : SagaOrchestrator) (sagaId : UUID) : Saga Γ (Option (SagaState Γ)) := do
  match ← Saga.load sagaId with
  | none => return none
  | some state =>
    if state.status.terminal then return some state
    else if state.status = .compensating then
      return some (← o.compensate state (resumeError state.error))
    else return some (← o.executeSteps state)

end SagaOrchestrator

/-- What a step does when it is called: whether it raises, and the context it leaves. -/
structure SagaChoice (Γ : Type) where
  result : Except PyException Unit := .ok ()
  context : Γ

abbrev SagaRepository (Γ : Type) := Dict UUID (SagaState Γ)

def SagaRepository.exec {Γ : Type} (x : SagaChoice Γ) (c : SagaCmd Γ) (repo : SagaRepository Γ) :
    c.Res × SagaRepository Γ :=
  match c with
  | .load sagaId => (repo.get? sagaId, repo)
  | .save state => ((), repo.set state.sagaId state)
  | .execute _ _ => ((x.result, x.context), repo)
  | .compensate _ _ => ((x.result, x.context), repo)

/-! ## Effects -/

abbrev SagaEntry (Γ : Type) := Entry (SagaChoice Γ) (SagaCmd Γ) SagaCmd.Res

/-- A call of a step, and whether it succeeded. -/
inductive Effect
  | executed (i : ℕ) (ok : Bool)
  | compensated (i : ℕ) (ok : Bool)
  deriving DecidableEq

def succeeded {Γ : Type} (res : Except PyException Unit × Γ) : Bool := res.1.toBool

def SagaEntry.effect {Γ : Type} : SagaEntry Γ → Option Effect
  | ⟨_, .execute i _, res⟩ => some (.executed i (succeeded res))
  | ⟨_, .compensate i _, res⟩ => some (.compensated i (succeeded res))
  | ⟨_, .load _, _⟩ => none
  | ⟨_, .save _, _⟩ => none

def effects {Γ : Type} (log : List (SagaEntry Γ)) : List Effect := log.filterMap SagaEntry.effect

section

variable {Γ : Type} (log : List (SagaEntry Γ)) (x : SagaChoice Γ)

@[simp] theorem effects_nil : effects ([] : List (SagaEntry Γ)) = [] := rfl

@[simp] theorem effects_append (log' : List (SagaEntry Γ)) :
    effects (log ++ log') = effects log ++ effects log' := List.filterMap_append ..

@[simp] theorem effects_load (sagaId : UUID) (res : Option (SagaState Γ)) :
    effects ([⟨x, .load sagaId, res⟩] : List (SagaEntry Γ)) = [] := rfl

@[simp] theorem effects_save (state : SagaState Γ) (res : Unit) :
    effects ([⟨x, .save state, res⟩] : List (SagaEntry Γ)) = [] := rfl

@[simp] theorem effects_execute (i : ℕ) (context : Γ) (res : Except PyException Unit × Γ) :
    effects ([⟨x, .execute i context, res⟩] : List (SagaEntry Γ)) =
      [.executed i (succeeded res)] := rfl

@[simp] theorem effects_compensate (i : ℕ) (context : Γ) (res : Except PyException Unit × Γ) :
    effects ([⟨x, .compensate i context, res⟩] : List (SagaEntry Γ)) =
      [.compensated i (succeeded res)] := rfl

end

/-! ## Reasoning about effects -/

namespace Saga

variable {Γ α β : Type} {J : List Effect → SagaRepository Γ → Prop} {fx : List Effect}
  {repo : SagaRepository Γ}

/-- Safety in terms of the calls of steps so far and of the repository. -/
def Safe (J : List Effect → SagaRepository Γ → Prop)
    (Ψ : List Effect → Except PyException α → SagaRepository Γ → Prop) (p : Saga Γ α)
    (fx : List Effect) (repo : SagaRepository Γ) : Prop :=
  ∀ log : List (SagaEntry Γ), effects log = fx →
    Prog.Safe SagaRepository.exec (fun l r => J (effects l) r) (fun l a r => Ψ (effects l) a r)
      p.run log repo

namespace Safe

theorem mono {Ψ Ψ' : List Effect → Except PyException α → SagaRepository Γ → Prop} {p : Saga Γ α}
    (h : Safe J Ψ p fx repo) (hΨ : ∀ fx' res repo', Ψ fx' res repo' → Ψ' fx' res repo') :
    Safe J Ψ' p fx repo :=
  fun log hlog => (h log hlog).mono fun l res r _ => hΨ (effects l) res r

theorem pure {Ψ : List Effect → Except PyException α → SagaRepository Γ → Prop} {a : α}
    (hJ : J fx repo) (h : Ψ fx (.ok a) repo) : Safe J Ψ (pure a) fx repo := by
  rintro log rfl
  exact ⟨hJ, h⟩

variable {Ψ : List Effect → Except PyException β → SagaRepository Γ → Prop}

theorem load {sagaId : UUID} {f : Option (SagaState Γ) → Saga Γ β} (hJ : J fx repo)
    (h : Safe J Ψ (f (repo.get? sagaId)) fx repo) : Safe J Ψ (Saga.load sagaId >>= f) fx repo := by
  rintro log rfl
  exact ⟨hJ, fun x => h _ (by simp)⟩

theorem save {state : SagaState Γ} {f : Unit → Saga Γ β} (hJ : J fx repo)
    (h : Safe J Ψ (f ()) fx (repo.set state.sagaId state)) :
    Safe J Ψ (Saga.save state >>= f) fx repo := by
  rintro log rfl
  exact ⟨hJ, fun x => h _ (by simp)⟩

theorem execute {i : ℕ} {context : Γ} {f : Except PyException Unit × Γ → Saga Γ β} (hJ : J fx repo)
    (h : ∀ res, Safe J Ψ (f res) (fx ++ [.executed i (succeeded res)]) repo) :
    Safe J Ψ (Saga.execute i context >>= f) fx repo := by
  rintro log rfl
  exact ⟨hJ, fun x => h _ _ (by simp)⟩

theorem compensate {i : ℕ}
    {context : Γ} {f : Except PyException Unit × Γ → Saga Γ β} (hJ : J fx repo)
    (h : ∀ res, Safe J Ψ (f res) (fx ++ [.compensated i (succeeded res)]) repo) :
    Safe J Ψ (Saga.compensate i context >>= f) fx repo := by
  rintro log rfl
  exact ⟨hJ, fun x => h _ _ (by simp)⟩

theorem bind {p : Saga Γ α} {f : α → Saga Γ β}
    (h : Safe J (fun fx' res repo' => ∃ a, res = .ok a ∧ (J fx' repo' → Safe J Ψ (f a) fx' repo')) p
      fx repo) :
    Safe J Ψ (p >>= f) fx repo := by
  intro log hlog
  refine Prog.Safe.bindExcept ((h log hlog).mono ?_)
  rintro l res r hJ ⟨a, rfl, ha⟩
  exact ha hJ l rfl

end Safe

end Saga

end Varco
