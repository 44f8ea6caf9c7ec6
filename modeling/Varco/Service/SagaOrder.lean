import Mathlib.Data.List.Range
import Varco.Service.SagaRecovery

/-!
# The order of the steps of a saga

What one call of `run` or `resume` does that is not cut off: the steps are executed in their order
up to the first that raises, and then those before it are compensated in the opposite order, each
once, whether or not compensations raise. The status says which of these was the case.
-/

namespace Varco

open List

/-! ## Orders -/

namespace Effect

/-- The steps from `c` on and below `m` succeed, in this order. -/
def forward (c m : ℕ) : List Effect := (List.range' c (m - c)).map (.executed · true)

/-- The steps below `m` are compensated from the last to the first; `b i` is whether step `i` was so
without raising. -/
def backward (m : ℕ) (b : ℕ → Bool) : List Effect :=
  (List.range m).reverse.map fun i => .compensated i (b i)

variable {c m i : ℕ} {b : ℕ → Bool} {ok : Bool}

@[simp] theorem forward_self (c : ℕ) : forward c c = [] := by simp [forward]

theorem forward_cons (h : c < m) : forward c m = .executed c true :: forward (c + 1) m := by
  unfold forward
  rw [show m - c = (m - (c + 1)) + 1 by omega, List.range'_succ]
  rfl

@[simp] theorem backward_zero (b : ℕ → Bool) : backward 0 b = [] := rfl

theorem backward_succ (m : ℕ) (b : ℕ → Bool) :
    backward (m + 1) b = .compensated m (b m) :: backward m b := by
  simp [backward, range_succ]

/-- Only what is done to the steps below `m` counts. -/
theorem backward_congr {b' : ℕ → Bool} (h : ∀ i, i < m → b i = b' i) :
    backward m b = backward m b' := by
  unfold backward
  refine map_congr_left fun i hi => ?_
  rw [h i (by simpa using hi)]

@[simp] theorem executed_mem_forward :
    .executed i ok ∈ forward c m ↔ ok = true ∧ c ≤ i ∧ i < m := by
  simp only [forward, mem_map, mem_range'_1, Effect.executed.injEq]
  constructor
  · rintro ⟨j, hj, rfl, rfl⟩
    exact ⟨rfl, hj.1, by omega⟩
  · rintro ⟨rfl, hc, hm⟩
    exact ⟨i, ⟨hc, by omega⟩, rfl, rfl⟩

@[simp] theorem compensated_not_mem_forward : .compensated i ok ∉ forward c m := by
  simp [forward]

@[simp] theorem compensated_mem_backward :
    .compensated i ok ∈ backward m b ↔ i < m ∧ b i = ok := by
  simp [backward]

@[simp] theorem executed_not_mem_backward : .executed i ok ∉ backward m b := by
  simp [backward]

end Effect

open Effect

namespace SagaOrchestrator

variable {Γ : Type} {o : SagaOrchestrator} {sagaId : UUID} {fx : List Effect}
  {repo : SagaRepository Γ} {state : SagaState Γ} {context : Γ}

/-- The status at the end of a compensation: whether each of the steps below `m` was compensated
without raising. -/
def compensationStatus (m : ℕ) (b : ℕ → Bool) : SagaStatus :=
  if ∀ i, i < m → b i = true then .compensated else .failed

/-- **A compensation**: the steps below `c` are compensated from the last to the first, each once;
the status says whether one of them raised, and is saved. -/
structure Compensates (sagaId : UUID) (c : ℕ) (fx : List Effect) (state : SagaState Γ)
    (repo : SagaRepository Γ) : Prop where
  order : ∃ b, fx = backward c b
  compensated_iff : state.status = .compensated ↔ ∀ i, .compensated i false ∉ fx
  failed_iff : state.status = .failed ↔ ∃ i, .compensated i false ∈ fx
  saved : repo.get? sagaId = some state

/-- **An execution**: the steps from `c` on succeed in their order; or they succeed up to one that
raises, and then those before it are compensated from the last to the first, each once. The status
says which was the case, and is saved. -/
structure Executes (o : SagaOrchestrator) (sagaId : UUID) (c : ℕ) (fx : List Effect)
    (state : SagaState Γ) (repo : SagaRepository Γ) : Prop where
  order : fx = forward c o.steps.length ∧ state.completedSteps = o.steps.length ∨
    ∃ m b, c ≤ m ∧ m < o.steps.length ∧ state.completedSteps = m ∧
      fx = forward c m ++ .executed m false :: backward m b
  completed_iff : state.status = .completed ↔
    ∀ i, c ≤ i → i < o.steps.length → .executed i true ∈ fx
  compensated_iff : state.status = .compensated ↔
    (∃ i, .executed i false ∈ fx) ∧ ∀ i, .compensated i false ∉ fx
  failed_iff : state.status = .failed ↔
    (∃ i, .executed i false ∈ fx) ∧ ∃ i, .compensated i false ∈ fx
  saved : repo.get? sagaId = some state

/-! ## Compensation -/

/-- The loop of `_compensate`. -/
theorem runs_compensateLoop {j : ℕ} {failed : Bool} (hj : j ≤ o.steps.length) :
    Saga.Safe (fun _ _ => True)
      (fun fx' res repo' => ∃ b context', fx' = fx ++ backward j b ∧ repo' = repo ∧
        res = .ok (context', failed || !decide (∀ i, i < j → b i = true)))
      (o.compensateLoop j context failed) fx repo := by
  induction j generalizing fx context failed with
  | zero => exact .pure trivial ⟨fun _ => true, context, by simp, rfl, by simp⟩
  | succ j ih =>
    unfold compensateLoop
    rw [List.getElem?_eq_getElem (Nat.lt_of_succ_le hj)]
    refine .compensate trivial fun res => ?_
    have hnext : ∀ failed' context', failed' = (failed || !succeeded res) →
        Saga.Safe (fun _ _ => True)
          (fun fx' res' repo' => ∃ b context', fx' = fx ++ backward (j + 1) b ∧ repo' = repo ∧
            res' = .ok (context', failed || !decide (∀ i, i < j + 1 → b i = true)))
          (o.compensateLoop j context' failed') (fx ++ [.compensated j (succeeded res)]) repo := by
      intro failed' context' hfailed
      refine (ih (Nat.le_of_succ_le hj)).mono ?_
      rintro fx' res' repo' ⟨b, context'', rfl, rfl, rfl⟩
      -- what was done to step `j` goes before what was done to the others
      have hbelow : ∀ i, i < j → Function.update b j (succeeded res) i = b i :=
        fun i hi => Function.update_of_ne (Nat.ne_of_lt hi) ..
      refine ⟨Function.update b j (succeeded res), context'', ?_, rfl, ?_⟩
      · rw [backward_succ, backward_congr hbelow]
        simp
      · have hall : (∀ i, i < j + 1 → Function.update b j (succeeded res) i = true) ↔
            succeeded res = true ∧ ∀ i, i < j → b i = true := by
          constructor
          · intro h
            refine ⟨by simpa using h j (Nat.lt_succ_self j), fun i hi => ?_⟩
            rw [← hbelow i hi]
            exact h i (Nat.lt_succ_of_lt hi)
          · rintro ⟨hlast, h⟩ i hi
            rcases Nat.eq_or_lt_of_le (Nat.le_of_lt_succ hi) with rfl | hi
            · simpa using hlast
            · rw [hbelow i hi]
              exact h i hi
        rw [hfailed]
        simp only [hall]
        cases succeeded res <;> simp
    obtain ⟨result, context'⟩ := res
    cases result with
    | ok u => exact hnext _ _ (by simp [succeeded, Except.toBool])
    | error e => exact hnext _ _ (by simp [succeeded, Except.toBool])

theorem compensationStatus_eq_ite (m : ℕ) (b : ℕ → Bool) :
    (if (!decide (∀ i, i < m → b i = true)) = true then SagaStatus.failed else .compensated) =
      compensationStatus m b := by
  unfold compensationStatus
  by_cases h : ∀ i, i < m → b i = true
  · rw [if_pos h, decide_eq_true h]
    rfl
  · rw [if_neg h, decide_eq_false h]
    rfl

theorem runs_compensate {error : String} (hlen : state.completedSteps ≤ o.steps.length) :
    Saga.Safe (fun _ _ => True)
      (fun fx' res repo' => ∃ b state', fx' = fx ++ backward state.completedSteps b ∧
        res = .ok state' ∧ repo' = repo.set state'.sagaId state' ∧
        state'.sagaId = state.sagaId ∧ state'.completedSteps = state.completedSteps ∧
        state'.status = compensationStatus state.completedSteps b)
      (o.compensate state error) fx repo := by
  refine .bind ((runs_compensateLoop hlen).mono ?_)
  rintro fx' res repo' ⟨b, context', rfl, rfl, rfl⟩
  refine ⟨_, rfl, fun _ => .save trivial (.pure trivial ⟨b, _, rfl, rfl, rfl, rfl, rfl, ?_⟩)⟩
  simpa using compensationStatus_eq_ite state.completedSteps b

theorem compensationStatus_iff (m : ℕ) (b : ℕ → Bool) :
    compensationStatus m b ≠ .completed ∧
      (compensationStatus m b = .compensated ↔ ∀ i, i < m → b i = true) ∧
      (compensationStatus m b = .failed ↔ ∃ i, i < m ∧ b i = false) := by
  unfold compensationStatus
  split
  case isTrue h =>
    refine ⟨by simp, by simpa using h, ?_⟩
    simp only [reduceCtorEq, false_iff, not_exists, not_and]
    intro i hi hb
    cases (h i hi).symm.trans hb
  case isFalse h =>
    refine ⟨by simp, by simpa using h, ?_⟩
    simpa using h

theorem compensates_of_backward {m : ℕ} {b : ℕ → Bool}
    (hstatus : state.status = compensationStatus m b) (hsaved : repo.get? sagaId = some state) :
    Compensates sagaId m (backward m b) state repo := by
  obtain ⟨-, hcomp, hfail⟩ := compensationStatus_iff m b
  refine ⟨⟨b, rfl⟩, ?_, ?_, hsaved⟩
  · rw [hstatus, hcomp]
    simp
  · rw [hstatus, hfail]
    simp

/-! ## Execution -/

theorem executes_of_forward {c : ℕ} (hstatus : state.status = .completed)
    (hsteps : state.completedSteps = o.steps.length) (hsaved : repo.get? sagaId = some state) :
    o.Executes sagaId c (forward c o.steps.length) state repo := by
  refine ⟨.inl ⟨rfl, hsteps⟩, ?_, ?_, ?_, hsaved⟩
  · simp only [hstatus, executed_mem_forward, true_and, true_iff]
    exact fun i hc hi => ⟨hc, hi⟩
  · simp [hstatus]
  · simp [hstatus]

theorem executes_of_backward {c m : ℕ} {b : ℕ → Bool} (hc : c ≤ m) (hm : m < o.steps.length)
    (hstatus : state.status = compensationStatus m b) (hsteps : state.completedSteps = m)
    (hsaved : repo.get? sagaId = some state) :
    o.Executes sagaId c (forward c m ++ .executed m false :: backward m b) state repo := by
  obtain ⟨hdone, hcomp, hfail⟩ := compensationStatus_iff m b
  refine ⟨.inr ⟨m, b, hc, hm, hsteps, rfl⟩, ?_, ?_, ?_, hsaved⟩
  · rw [hstatus]
    refine ⟨fun h => absurd h hdone, fun h => ?_⟩
    have hmem := h m hc hm
    simp at hmem
  · rw [hstatus, hcomp]
    simp
  · rw [hstatus, hfail]
    simp

/-- A step that succeeds before the others are executed. -/
theorem Executes.cons {c : ℕ} (hc : c < o.steps.length)
    (h : o.Executes sagaId (c + 1) fx state repo) :
    o.Executes sagaId c (.executed c true :: fx) state repo := by
  refine ⟨?_, ?_, ?_, ?_, h.saved⟩
  · rcases h.order with ⟨rfl, hsteps⟩ | ⟨m, b, hm, hlt, hsteps, rfl⟩
    · exact .inl ⟨(forward_cons hc).symm, hsteps⟩
    · refine .inr ⟨m, b, Nat.le_of_succ_le hm, hlt, hsteps, ?_⟩
      rw [forward_cons (Nat.lt_of_succ_le hm), cons_append]
  · rw [h.completed_iff]
    constructor
    · intro hall i hci hi
      rcases Nat.eq_or_lt_of_le hci with rfl | hci
      · exact mem_cons_self
      · exact mem_cons_of_mem _ (hall i hci hi)
    · intro hall i hci hi
      have hmem := hall i (Nat.le_of_succ_le hci) hi
      have hne : i ≠ c := by omega
      simpa [hne] using hmem
  · rw [h.compensated_iff]
    simp
  · rw [h.failed_iff]
    simp

/-- The loop of `_execute_steps` from the first step on that is not recorded. -/
theorem runs_executeLoop {steps : List SagaStep} {c : ℕ} (hc : state.completedSteps = c)
    (hlen : c + steps.length = o.steps.length) :
    Saga.Safe (fun _ _ => True)
      (fun fx' res repo' => ∃ fx₁ state', fx' = fx ++ fx₁ ∧ res = .ok state' ∧
        o.Executes state.sagaId c fx₁ state' repo')
      (o.executeLoop steps c state context) fx repo := by
  induction steps generalizing c state fx repo context with
  | nil =>
    have hlast : o.steps.length = c := by simpa using hlen.symm
    refine .save trivial (.pure trivial ⟨forward c o.steps.length, _, ?_, rfl,
      executes_of_forward rfl rfl (Dict.get?_set_self ..)⟩)
    simp [hlast]
  | cons step rest ih =>
    have hm : c < o.steps.length := by
      rw [← hlen, length_cons]
      omega
    have hlen' : c + 1 + rest.length = o.steps.length := by
      rw [← hlen, length_cons]
      omega
    unfold executeLoop
    rw [if_neg (by omega)]
    refine .execute trivial fun res => ?_
    obtain ⟨result, context'⟩ := res
    cases result with
    | error e =>
      refine .save trivial (.mono (runs_compensate (Nat.le_of_lt hm)) ?_)
      rintro fx' res repo' ⟨b, state', rfl, rfl, rfl, hid, hsteps, hstatus⟩
      refine ⟨forward c c ++ .executed c false :: backward c b, state', ?_, rfl,
        executes_of_backward (Nat.le_refl _) hm hstatus hsteps ?_⟩
      · simp [succeeded, Except.toBool]
      · rw [hid, Dict.get?_set_self]
    | ok u =>
      refine .save trivial (.mono (ih rfl hlen') ?_)
      rintro fx' res repo' ⟨fx₁, state', rfl, rfl, hexec⟩
      exact ⟨.executed c true :: fx₁, state', by simp [succeeded, Except.toBool], rfl,
        hexec.cons hm⟩

/-- The loop of `_execute_steps`, with the steps that it skips. -/
theorem runs_executeLoop_skip {steps : List SagaStep} {i : ℕ} (hi : i ≤ state.completedSteps)
    (hle : state.completedSteps ≤ o.steps.length) (hlen : i + steps.length = o.steps.length) :
    Saga.Safe (fun _ _ => True)
      (fun fx' res repo' => ∃ fx₁ state', fx' = fx ++ fx₁ ∧ res = .ok state' ∧
        o.Executes state.sagaId state.completedSteps fx₁ state' repo')
      (o.executeLoop steps i state context) fx repo := by
  induction steps generalizing i with
  | nil =>
    obtain rfl : i = state.completedSteps := by
      rw [length_nil] at hlen
      omega
    exact runs_executeLoop rfl hlen
  | cons step rest ih =>
    rcases Nat.eq_or_lt_of_le hi with rfl | hlt
    · exact runs_executeLoop rfl hlen
    · unfold executeLoop
      rw [if_pos hlt]
      refine ih hlt ?_
      rw [← hlen, length_cons]
      omega

theorem runs_executeSteps (hle : state.completedSteps ≤ o.steps.length) :
    Saga.Safe (fun _ _ => True)
      (fun fx' res repo' => ∃ fx₁ state', fx' = fx ++ fx₁ ∧ res = .ok state' ∧
        o.Executes state.sagaId state.completedSteps fx₁ state' repo')
      (o.executeSteps state) fx repo :=
  runs_executeLoop_skip (Nat.zero_le _) hle (Nat.zero_add _)

/-! ## Calls that are not cut off -/

theorem runs_run :
    Saga.Safe (fun _ _ => True)
      (fun fx' res repo' => ∃ fx₁ state', fx' = fx ++ fx₁ ∧ res = .ok state' ∧
        o.Executes sagaId 0 fx₁ state' repo')
      (o.run context sagaId) fx repo := by
  refine .save trivial (.save trivial (.mono (runs_executeSteps (Nat.zero_le _)) ?_))
  exact fun _ _ _ h => h

/-- What `resume` does with a state that was saved. -/
structure Resumes (o : SagaOrchestrator) (sagaId : UUID) (state : SagaState Γ) (fx : List Effect)
    (res : Except PyException (Option (SagaState Γ))) (repo repo' : SagaRepository Γ) : Prop where
  terminal : state.status.terminal = true → fx = [] ∧ res = .ok (some state) ∧ repo' = repo
  compensating : state.status = .compensating → ∃ state', res = .ok (some state') ∧
    Compensates sagaId state.completedSteps fx state' repo'
  executing : state.status = .pending ∨ state.status = .running → ∃ state',
    res = .ok (some state') ∧ o.Executes sagaId state.completedSteps fx state' repo'

theorem runs_resume (hrepo : repo.get? sagaId = some state) (hid : state.sagaId = sagaId)
    (hle : state.completedSteps ≤ o.steps.length) :
    Saga.Safe (fun _ _ => True)
      (fun fx' res repo' => ∃ fx₁, fx' = fx ++ fx₁ ∧ o.Resumes sagaId state fx₁ res repo repo')
      (o.resume sagaId) fx repo := by
  refine .load trivial ?_
  rw [hrepo]
  cases hstatus : state.status with
  | completed | compensated | failed =>
    simp only [hstatus, SagaStatus.terminal]
    refine .pure trivial ⟨[], by simp, fun _ => ⟨rfl, rfl, rfl⟩, ?_, ?_⟩
    · simp [hstatus]
    · simp [hstatus]
  | compensating =>
    simp only [hstatus, SagaStatus.terminal]
    refine .bind (.mono (runs_compensate hle) ?_)
    rintro fx' res repo' ⟨b, state', rfl, rfl, rfl, hid', hsteps, hstatus'⟩
    refine ⟨_, rfl, fun _ => .pure trivial ⟨_, rfl, ?_, fun _ => ⟨state', rfl, ?_⟩, ?_⟩⟩
    · simp [hstatus, SagaStatus.terminal]
    · refine compensates_of_backward hstatus' ?_
      rw [← hid, ← hid', Dict.get?_set_self]
    · simp [hstatus]
  | pending | running =>
    simp only [hstatus, SagaStatus.terminal]
    refine .bind (.mono (runs_executeSteps hle) ?_)
    rintro fx' res repo' ⟨fx₁, state', rfl, rfl, hexec⟩
    rw [hid] at hexec
    refine ⟨_, rfl, fun _ => .pure trivial ⟨_, rfl, ?_, ?_, fun _ => ⟨state', rfl, hexec⟩⟩⟩
    · simp [hstatus, SagaStatus.terminal]
    · simp [hstatus]

/-- **The order of a saga.** For every list of steps and all they may do: a call of `run` that is
not cut off executes from the first step, and a call of `resume` on a saga that was saved at any
point of any run, if it is not cut off, leaves a terminal state as it is and runs no step,
compensates the recorded steps of a saga that was being compensated, and otherwise executes from the
first step that is not recorded. -/
theorem saga_ordering (o : SagaOrchestrator) (context : Γ) (sagaId : UUID) :
    (∀ repo xs, ∃ state',
      ((o.run context sagaId).run.run SagaRepository.exec repo xs).2.1 = .ok state' ∧
      o.Executes sagaId 0
        (effects ((o.run context sagaId).run.run SagaRepository.exec repo xs).1) state'
        ((o.run context sagaId).run.run SagaRepository.exec repo xs).2.2) ∧
    ∀ repo₀ log repo left state xs, repo₀.get? sagaId = none →
      o.Reaches context sagaId repo₀ log repo left → repo.get? sagaId = some state →
      o.Resumes sagaId state
        (effects ((o.resume sagaId).run.run SagaRepository.exec repo xs).1)
        ((o.resume sagaId).run.run SagaRepository.exec repo xs).2.1 repo
        ((o.resume sagaId).run.run SagaRepository.exec repo xs).2.2 := by
  constructor
  · intro repo xs
    have hsafe : Saga.Safe (fun _ _ => True) _ (o.run context sagaId) [] repo := runs_run
    obtain ⟨fx₁, state', hfx, hres, hexec⟩ := (hsafe [] rfl).of_run xs
    simp only [nil_append] at hfx hexec
    rw [hfx]
    exact ⟨state', hres, hexec⟩
  · intro repo₀ log repo left state xs hnew hreach hrepo
    have hsaved := (hreach.recoverable hnew).2 state hrepo
    have hsafe : Saga.Safe (fun _ _ => True) _ (o.resume sagaId) [] repo :=
      runs_resume hrepo hsaved.sagaId_eq hsaved.le_length
    obtain ⟨fx₁, hfx, hresumes⟩ := (hsafe [] rfl).of_run xs
    simp only [nil_append] at hfx
    rw [hfx]
    exact hresumes

/-- The order that stopped after its first step is resumed, and completes. -/
theorem saga_ordering_chargeUnrecorded :
    (((orderSaga.resume 1).run.run SagaRepository.exec chargeUnrecorded.2 fun _ => returns).2.2.get?
        1).map (·.status) = some .completed ∧
      ∃ state', orderSaga.Executes 1 0
        (effects ((orderSaga.resume 1).run.run SagaRepository.exec chargeUnrecorded.2 fun _ =>
          returns).1) state'
        ((orderSaga.resume 1).run.run SagaRepository.exec chargeUnrecorded.2 fun _ =>
          returns).2.2 := by
  have hrun : orderSaga.Reaches () 1 .empty chargeUnrecorded.1 chargeUnrecorded.2 (some _) :=
    Restarts.start.cut 3 fun _ => returns
  have hresumes := (saga_ordering orderSaga () 1).2 .empty _ _ _ _ (fun _ => returns) rfl hrun rfl
  obtain ⟨state', -, hexec⟩ := hresumes.executing (.inr rfl)
  exact ⟨by decide, state', hexec⟩

end SagaOrchestrator

end Varco
