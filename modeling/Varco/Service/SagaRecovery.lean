import Varco.Service.Saga

/-!
# Sagas that are resumed

A saga is started, may stop between any two commands, and is resumed any number of times. A step is
recorded only after it was executed: a stop in between leaves a step that took effect and is not
recorded, and `resume` executes it again. If it raises then, the saga is compensated without it.

The results here are about every such run. A run that ends compensated has undone every step that
took effect, exactly if the step that raised last has not succeeded before.
-/

namespace Varco

open Nat

/-! ## What took effect -/

namespace Effect

variable {fx : List Effect} {i j k : ℕ} {b : Bool} {e : Effect}

/-- Step `i` was compensated, and has not succeeded again since. -/
def Undone (i : ℕ) (fx : List Effect) : Prop :=
  ∃ before after, fx = before ++ Effect.compensated i true :: after ∧ .executed i true ∉ after

theorem Undone.snoc (h : Undone i fx) (he : e ≠ .executed i true) : Undone i (fx ++ [e]) := by
  obtain ⟨before, after, rfl, hafter⟩ := h
  refine ⟨before, after ++ [e], by simp, ?_⟩
  rw [List.mem_append, List.mem_singleton]
  exact fun hmem => hmem.elim hafter fun heq => he heq.symm

theorem undone_snoc_self : Undone i (fx ++ [Effect.compensated i true]) := ⟨fx, [], rfl, by simp⟩

theorem Undone.mem (h : Undone i fx) : .compensated i true ∈ fx := by
  obtain ⟨before, after, rfl, -⟩ := h
  simp

/-- Of all the steps that were executed, step `k` was the last, and it raised. -/
def RaisedLast (k : ℕ) (fx : List Effect) : Prop :=
  ∃ before after, fx = before ++ Effect.executed k false :: after ∧ ∀ i b, .executed i b ∉ after

theorem raisedLast_snoc_self : RaisedLast k (fx ++ [.executed k false]) := ⟨fx, [], rfl, by simp⟩

theorem RaisedLast.snoc (h : RaisedLast k fx) : RaisedLast k (fx ++ [Effect.compensated j b]) := by
  obtain ⟨before, after, rfl, hafter⟩ := h
  refine ⟨before, after ++ [Effect.compensated j b], by simp, fun i b' hmem => ?_⟩
  rcases List.mem_append.mp hmem with hmem | hmem
  · exact hafter i b' hmem
  · simp at hmem

theorem RaisedLast.unique (h : RaisedLast k fx) (h' : RaisedLast j fx) : j = k := by
  obtain ⟨before, after, rfl, hafter⟩ := h
  obtain ⟨before', after', heq, hafter'⟩ := h'
  rcases List.append_eq_append_iff.mp heq with ⟨l, rfl, hl⟩ | ⟨l, rfl, hl⟩
  · cases l with
    | nil => exact (Effect.executed.inj (List.cons.inj hl).1).1.symm
    | cons e l => exact absurd (by simp [(List.cons.inj hl).2]) (hafter j false)
  · cases l with
    | nil => exact (Effect.executed.inj (List.cons.inj hl).1).1
    | cons e l => exact absurd (by simp [(List.cons.inj hl).2]) (hafter' k false)

def RaisedFresh (fx : List Effect) : Prop := ∀ k, RaisedLast k fx → .executed k true ∉ fx

/-- Step `k` raised, no later step took effect, and only steps before it were compensated. -/
structure StoppedAt (k : ℕ) (fx : List Effect) : Prop where
  raised : RaisedLast k fx
  le_of_executed : ∀ i, .executed i true ∈ fx → i ≤ k
  lt_of_compensated : ∀ i b, .compensated i b ∈ fx → i < k

theorem StoppedAt.snoc (h : StoppedAt k fx) (hj : j < k) :
    StoppedAt k (fx ++ [Effect.compensated j b]) := by
  refine ⟨h.raised.snoc, fun i hi => ?_, fun i b' hi => ?_⟩
  · exact h.le_of_executed i (by simpa using hi)
  · rcases List.mem_append.mp hi with hi | hi
    · exact h.lt_of_compensated i b' hi
    · obtain ⟨rfl, -⟩ : i = j ∧ b' = b := by simpa using hi
      exact hj

/-- Where the steps before `k` are undone, all are that took effect, unless `k` did. -/
theorem StoppedAt.undone_iff (h : StoppedAt k fx) (hdone : ∀ i, i < k → Undone i fx) :
    (∀ i, .executed i true ∈ fx → Undone i fx) ↔ RaisedFresh fx := by
  constructor
  · intro hall j hj hmem
    obtain rfl := h.raised.unique hj
    exact lt_irrefl _ (h.lt_of_compensated _ _ (hall _ hmem).mem)
  · intro hfresh i hi
    have hne : i ≠ k := by
      rintro rfl
      exact hfresh i h.raised hi
    exact hdone i (lt_of_le_of_ne (h.le_of_executed i hi) hne)

end Effect

open Effect

/-- What a saved state says of the calls of steps: while the steps are executed, one of them may be
unrecorded and none was compensated; then one has raised, and at the end those before it are undone.
-/
def SagaState.Covers {Γ : Type} (state : SagaState Γ) (fx : List Effect) : Prop :=
  match state.status with
  | .pending | .running =>
    (∀ i, .executed i true ∈ fx → i ≤ state.completedSteps) ∧ ∀ i b, .compensated i b ∉ fx
  | .compensating => StoppedAt state.completedSteps fx
  | .compensated =>
    StoppedAt state.completedSteps fx ∧ ∀ i, i < state.completedSteps → Undone i fx
  | .completed | .failed => True

namespace SagaOrchestrator

variable {Γ : Type} {o : SagaOrchestrator} {sagaId : UUID} {fx : List Effect}
  {repo : SagaRepository Γ} {state : SagaState Γ} {context : Γ}

/-- A state that the orchestrator may have saved: it is of this saga, counts no more steps than
there are, and says of the calls of steps what is true. -/
structure Saved (o : SagaOrchestrator) (sagaId : UUID) (state : SagaState Γ) (fx : List Effect) :
    Prop where
  sagaId_eq : state.sagaId = sagaId
  le_length : state.completedSteps ≤ o.steps.length
  covers : state.Covers fx

/-- **The invariant of a saga**: nothing was done before the first save, and what is saved is as
above. -/
def Recoverable (o : SagaOrchestrator) (sagaId : UUID) (fx : List Effect)
    (repo : SagaRepository Γ) : Prop :=
  (repo.get? sagaId = none → fx = []) ∧
    ∀ state, repo.get? sagaId = some state → o.Saved sagaId state fx

theorem recoverable_of_saved (hrepo : repo.get? sagaId = some state)
    (h : o.Saved sagaId state fx) : o.Recoverable sagaId fx repo := by
  refine ⟨fun hnone => ?_, fun state' hstate' => ?_⟩
  · cases hnone.symm.trans hrepo
  · cases hstate'.symm.trans hrepo
    exact h

theorem recoverable_set (h : o.Saved sagaId state fx) :
    o.Recoverable sagaId fx (repo.set state.sagaId state) := by
  refine recoverable_of_saved ?_ h
  rw [h.sagaId_eq, Dict.get?_set_self]

/-! ## Compensation -/

/-- The steps are compensated, and `state` is saved. -/
structure Compensating (o : SagaOrchestrator) (sagaId : UUID) (state : SagaState Γ)
    (fx : List Effect) : Prop extends o.Saved sagaId state fx where
  status : state.status = .compensating

theorem Compensating.stoppedAt (h : o.Compensating sagaId state fx) :
    StoppedAt state.completedSteps fx := by
  have hcov := h.covers
  unfold SagaState.Covers at hcov
  rw [h.status] at hcov
  exact hcov

theorem Compensating.compensated {j : ℕ} (h : o.Compensating sagaId state fx)
    (hj : j < state.completedSteps) (b : Bool) :
    o.Compensating sagaId state (fx ++ [Effect.compensated j b]) := by
  refine ⟨⟨h.sagaId_eq, h.le_length, ?_⟩, h.status⟩
  unfold SagaState.Covers
  rw [h.status]
  exact h.stoppedAt.snoc hj

/-- The loop of `_compensate` undoes the steps below `j`, unless a compensation raises. -/
theorem safe_compensateLoop {j : ℕ} {failed : Bool} (hrepo : repo.get? sagaId = some state)
    (h : o.Compensating sagaId state fx) (hj : j ≤ state.completedSteps)
    (hdone : failed = false → ∀ i, j ≤ i → i < state.completedSteps → Undone i fx) :
    Saga.Safe (o.Recoverable sagaId)
      (fun fx' res repo' => ∃ out, res = .ok out ∧ repo' = repo ∧ o.Compensating sagaId state fx' ∧
        (out.2 = false → ∀ i, i < state.completedSteps → Undone i fx'))
      (o.compensateLoop j context failed) fx repo := by
  induction j generalizing fx context failed with
  | zero =>
    exact .pure (recoverable_of_saved hrepo h.toSaved)
      ⟨_, rfl, rfl, h, fun hf i hi => hdone hf i (zero_le i) hi⟩
  | succ j ih =>
    have hlt : j < o.steps.length := lt_of_lt_of_le hj h.le_length
    unfold compensateLoop
    rw [List.getElem?_eq_getElem hlt]
    refine .compensate (recoverable_of_saved hrepo h.toSaved) fun res => ?_
    obtain ⟨result, context'⟩ := res
    cases result with
    | ok u =>
      refine ih (h.compensated hj _) (le_of_succ_le hj) fun hf i hji hi => ?_
      rcases eq_or_lt_of_le hji with rfl | hji
      · exact undone_snoc_self
      · exact (hdone hf i hji hi).snoc (by simp)
    | error e => exact ih (h.compensated hj _) (le_of_succ_le hj) fun hf => by cases hf

/-- What `_compensate` saves last. -/
theorem Compensating.saved (h : o.Compensating sagaId state fx) (context : Γ) (error : String)
    {failed : Bool} (hdone : failed = false → ∀ i, i < state.completedSteps → Undone i fx) :
    o.Saved sagaId { state with
      status := if failed then .failed else .compensated, context := context,
      error := some error } fx := by
  refine ⟨h.sagaId_eq, h.le_length, ?_⟩
  cases failed with
  | true => trivial
  | false => exact ⟨h.stoppedAt, hdone rfl⟩

theorem safe_compensate {error : String} (hrepo : repo.get? sagaId = some state)
    (h : o.Compensating sagaId state fx) :
    Saga.Safe (o.Recoverable sagaId) (fun _ res _ => ∃ a, res = .ok a)
      (o.compensate state error) fx repo := by
  refine .bind ((safe_compensateLoop hrepo h (le_refl _) fun _ i hi hi' => ?_).mono ?_)
  · exact absurd hi' (not_lt.mpr hi)
  · rintro fx' res repo' ⟨out, rfl, rfl, h', hdone⟩
    have hsaved := h'.saved out.1 error hdone
    exact ⟨out, rfl, fun hJ => .save hJ (.pure (recoverable_set hsaved) ⟨_, rfl⟩)⟩

/-! ## Execution -/

/-- The steps are executed, and `state` is saved. -/
structure Executing (o : SagaOrchestrator) (sagaId : UUID) (state : SagaState Γ)
    (fx : List Effect) : Prop extends o.Saved sagaId state fx where
  status : state.status = .pending ∨ state.status = .running

theorem covers_iff_of_executing (h : state.status = .pending ∨ state.status = .running) :
    state.Covers fx ↔ (∀ i, .executed i true ∈ fx → i ≤ state.completedSteps) ∧
      ∀ i b, .compensated i b ∉ fx := by
  unfold SagaState.Covers
  rcases h with h | h <;> rw [h]

theorem Executing.executed (h : o.Executing sagaId state fx) (b : Bool) :
    o.Executing sagaId state (fx ++ [Effect.executed state.completedSteps b]) := by
  refine ⟨⟨h.sagaId_eq, h.le_length, ?_⟩, h.status⟩
  obtain ⟨hle, hcomp⟩ := (covers_iff_of_executing h.status).mp h.covers
  refine (covers_iff_of_executing h.status).mpr ⟨fun i hi => ?_, fun i b' hi => ?_⟩
  · rcases List.mem_append.mp hi with hi | hi
    · exact hle i hi
    · obtain ⟨rfl, -⟩ : i = state.completedSteps ∧ b = true := by simpa [eq_comm] using hi
      exact le_refl _
  · exact hcomp i b' (by simpa using hi)

theorem Executing.stoppedAt
    (h : o.Executing sagaId state (fx ++ [Effect.executed state.completedSteps false])) :
    StoppedAt state.completedSteps (fx ++ [Effect.executed state.completedSteps false]) := by
  obtain ⟨hle, hcomp⟩ := (covers_iff_of_executing h.status).mp h.covers
  exact ⟨raisedLast_snoc_self, hle, fun i b hi => absurd hi (hcomp i b)⟩

/-- The loop of `_execute_steps`, at a step that is not after those that `state` counts. -/
theorem safe_executeLoop {steps : List SagaStep} {i : ℕ} (hrepo : repo.get? sagaId = some state)
    (h : o.Executing sagaId state fx) (hi : i ≤ state.completedSteps)
    (hlen : i + steps.length = o.steps.length) :
    Saga.Safe (o.Recoverable sagaId) (fun _ res _ => ∃ a, res = .ok a)
      (o.executeLoop steps i state context) fx repo := by
  induction steps generalizing i fx repo state context with
  | nil =>
    refine .save (recoverable_of_saved hrepo h.toSaved) (.pure (recoverable_set ?_) ⟨_, rfl⟩)
    exact ⟨h.sagaId_eq, le_refl _, trivial⟩
  | cons step rest ih =>
    have hlen' : i + 1 + rest.length = o.steps.length := by
      rw [← hlen, List.length_cons]
      omega
    unfold executeLoop
    split
    case isTrue hskip => exact ih hrepo h hskip hlen'
    case isFalse hnext =>
      obtain rfl : i = state.completedSteps := by omega
      refine .execute (recoverable_of_saved hrepo h.toSaved) fun res => ?_
      have hexec := h.executed (succeeded res)
      obtain ⟨result, context'⟩ := res
      cases result with
      | error e =>
        refine .save (recoverable_of_saved hrepo hexec.toSaved) (safe_compensate ?_ ?_)
        · rw [h.sagaId_eq, Dict.get?_set_self]
        · exact ⟨⟨h.sagaId_eq, h.le_length, hexec.stoppedAt⟩, rfl⟩
      | ok u =>
        obtain ⟨hle, hcomp⟩ := (covers_iff_of_executing hexec.status).mp hexec.covers
        refine .save (recoverable_of_saved hrepo hexec.toSaved)
          (ih ?_ ⟨⟨h.sagaId_eq, ?_, ?_⟩, .inr rfl⟩ (le_refl _) hlen')
        · rw [h.sagaId_eq, Dict.get?_set_self]
        · show state.completedSteps + 1 ≤ o.steps.length
          omega
        · exact ⟨fun j hj => le_succ_of_le (hle j hj), hcomp⟩

theorem safe_executeSteps (hrepo : repo.get? sagaId = some state)
    (h : o.Executing sagaId state fx) :
    Saga.Safe (o.Recoverable sagaId) (fun _ res _ => ∃ a, res = .ok a) (o.executeSteps state) fx
      repo :=
  safe_executeLoop hrepo h (zero_le _) (zero_add _)

/-! ## Runs and resumptions -/

theorem safe_run (hnone : repo.get? sagaId = none) :
    Saga.Safe (o.Recoverable sagaId) (fun _ res _ => ∃ a, res = .ok a) (o.run context sagaId) []
      repo := by
  have hstart : o.Recoverable sagaId [] repo :=
    ⟨fun _ => rfl, fun state hstate => by cases hnone.symm.trans hstate⟩
  have hpending : o.Saved sagaId
      { sagaId := sagaId, status := .pending, context := context : SagaState Γ } [] :=
    ⟨rfl, zero_le _, by simp [SagaState.Covers]⟩
  have hrunning : o.Executing sagaId
      { sagaId := sagaId, status := .running, context := context : SagaState Γ } [] :=
    ⟨⟨rfl, zero_le _, by simp [SagaState.Covers]⟩, .inr rfl⟩
  exact .save hstart (.save (recoverable_set hpending)
    (safe_executeSteps (Dict.get?_set_self ..) hrunning))

theorem safe_resume (h : o.Recoverable sagaId fx repo) :
    Saga.Safe (o.Recoverable sagaId) (fun _ res _ => ∃ a, res = .ok a) (o.resume sagaId) fx
      repo := by
  refine .load h ?_
  cases hrepo : repo.get? sagaId with
  | none => exact .pure h ⟨_, rfl⟩
  | some state =>
    have hsaved := h.2 state hrepo
    simp only
    split
    case isTrue => exact .pure h ⟨_, rfl⟩
    case isFalse hterminal =>
      split
      case isTrue hstatus =>
        refine .bind ((safe_compensate hrepo ⟨hsaved, hstatus⟩).mono ?_)
        rintro fx' res repo' ⟨a, rfl⟩
        exact ⟨a, rfl, fun hJ => .pure hJ ⟨_, rfl⟩⟩
      case isFalse hstatus =>
        have hexec : state.status = .pending ∨ state.status = .running := by
          cases hs : state.status <;> simp_all [SagaStatus.terminal]
        refine .bind ((safe_executeSteps hrepo ⟨hsaved, hexec⟩).mono ?_)
        rintro fx' res repo' ⟨a, rfl⟩
        exact ⟨a, rfl, fun hJ => .pure hJ ⟨_, rfl⟩⟩

/-- `run`, with its result as that of `resume`. -/
def started (o : SagaOrchestrator) (context : Γ) (sagaId : UUID) :
    Saga Γ (Option (SagaState Γ)) := do
  return some (← o.run context sagaId)

/-- The configurations of one saga: it is started, stops anywhere, and is resumed any number of
times. The steps succeed, raise and change the context as they like. -/
def Reaches (o : SagaOrchestrator) (context : Γ) (sagaId : UUID) (repo₀ : SagaRepository Γ)
    (log : List (SagaEntry Γ)) (repo : SagaRepository Γ)
    (left : Option (Prog (SagaCmd Γ) SagaCmd.Res (Except PyException (Option (SagaState Γ))))) :
    Prop :=
  Restarts SagaRepository.exec (o.started context sagaId).run
    (fun _ : Unit => (o.resume sagaId).run) repo₀ log repo left

variable {repo₀ : SagaRepository Γ} {log : List (SagaEntry Γ)}
  {left : Option (Prog (SagaCmd Γ) SagaCmd.Res (Except PyException (Option (SagaState Γ))))}

/-- **Every configuration is recoverable.** -/
theorem Reaches.recoverable (h : o.Reaches context sagaId repo₀ log repo left)
    (hnew : repo₀.get? sagaId = none) : o.Recoverable sagaId (effects log) repo := by
  refine Restarts.invariant (I := fun l r => o.Recoverable sagaId (effects l) r) h ?_ ?_
  · have hsafe : Saga.Safe (o.Recoverable sagaId) (fun _ res _ => ∃ a, res = .ok a)
        (o.started context sagaId) [] repo₀ := by
      refine .bind ((safe_run hnew).mono ?_)
      rintro fx' res repo' ⟨a, rfl⟩
      exact ⟨a, rfl, fun hJ => .pure hJ ⟨_, rfl⟩⟩
    exact (hsafe [] rfl).mono fun _ _ _ _ _ => trivial
  · intro _ l r hI
    exact (safe_resume hI l rfl).mono fun _ _ _ _ _ => trivial

/-- **A compensated saga has undone what took effect**, exactly when the step that raised last has
not succeeded before: in every run that ends with the status `COMPENSATED`, whatever its stops and
whatever the steps did. -/
theorem compensated_iff_undone (h : o.Reaches context sagaId repo₀ log repo left)
    (hnew : repo₀.get? sagaId = none) (hrepo : repo.get? sagaId = some state)
    (hstatus : state.status = .compensated) :
    (∀ i, .executed i true ∈ effects log → Undone i (effects log)) ↔
      RaisedFresh (effects log) := by
  have hcov := ((h.recoverable hnew).2 state hrepo).covers
  unfold SagaState.Covers at hcov
  rw [hstatus] at hcov
  exact hcov.1.undone_iff hcov.2

/-! ## Two orders -/

def orderSaga : SagaOrchestrator := ⟨[⟨"charge"⟩, ⟨"reserve"⟩], by simp⟩

def returns : SagaChoice Unit := { context := () }

def raises : SagaChoice Unit := { result := .error (.valueError "declined"), context := () }

def reserveRaises : List (SagaEntry Unit) × SagaRepository Unit :=
  let life := (orderSaga.started () 1).run.cut SagaRepository.exec 8 .empty
    fun n => if n = 4 then raises else returns
  (life.1, life.2.1)

/-- An order that stops after its first step, before the step is recorded. -/
def chargeUnrecorded : List (SagaEntry Unit) × SagaRepository Unit :=
  let life := (orderSaga.started () 1).run.cut SagaRepository.exec 3 .empty fun _ => returns
  (life.1, life.2.1)

def chargedAgain : List (SagaEntry Unit) × SagaRepository Unit :=
  let life := (orderSaga.resume 1).run.cut SagaRepository.exec 4 chargeUnrecorded.2
    fun n => if n = 1 then raises else returns
  (chargeUnrecorded.1 ++ life.1, life.2.1)

/-- The order whose second step raises has undone the first. -/
theorem compensated_iff_undone_reserveRaises :
    .executed 0 true ∈ effects reserveRaises.1 ∧ Undone 0 (effects reserveRaises.1) := by
  have hrun : orderSaga.Reaches () 1 .empty reserveRaises.1 reserveRaises.2 (some _) :=
    Restarts.start.cut 8 fun n => if n = 4 then raises else returns
  have hlast : RaisedLast 1 (effects reserveRaises.1) :=
    ⟨[.executed 0 true], [.compensated 0 true], by decide, by simp⟩
  have hundone := (compensated_iff_undone hrun rfl rfl (by decide)).mpr fun k hk => by
    obtain rfl := hlast.unique hk
    decide
  exact ⟨by decide, hundone 0 (by decide)⟩

/-- **A step that is never undone.** The process stops after the card was charged, before that is
recorded. When the order is resumed the card is charged again, and this raises: the order ends
compensated, and the charge was never taken back. -/
theorem charge_never_undone :
    orderSaga.Reaches () 1 .empty chargedAgain.1 chargedAgain.2 none ∧
      (chargedAgain.2.get? 1).map (·.status) = some .compensated ∧
      effects chargedAgain.1 = [.executed 0 true, .executed 0 false] ∧
      ¬Undone 0 (effects chargedAgain.1) := by
  have hfirst : orderSaga.Reaches () 1 .empty chargeUnrecorded.1 chargeUnrecorded.2 (some _) :=
    Restarts.start.cut 3 fun _ => returns
  have hsecond : orderSaga.Reaches () 1 .empty chargedAgain.1 chargedAgain.2 (some _) :=
    (hfirst.stop.boot ()).cut 4 fun n => if n = 1 then raises else returns
  have hfx : effects chargedAgain.1 = [.executed 0 true, .executed 0 false] := by decide
  refine ⟨hsecond.stop, by decide, hfx, fun hundone => ?_⟩
  have hmem := hundone.mem
  rw [hfx] at hmem
  simp at hmem

end SagaOrchestrator

end Varco
