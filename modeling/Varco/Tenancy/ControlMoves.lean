import Varco.Tenancy.Control

/-!
# What a call to the control service does

What a call does when its await has ended (`moves_of_resume`): it raises, goes on with nothing
changed (`Passes`), writes a row, runs a worker's provisioner, or completes. The coordinator's sets
of stores only grow (`onNodeReady_cases`).
-/

namespace Varco

namespace TenantControlService

variable {cfg : Config} {catalog : TenantCatalog} {s s' : State} {p p' : Phase}
  {fault : Option Exc}

/-- A call goes on with nothing changed. -/
inductive Passes (cfg : Config) : Phase → Phase → Prop
  | provisionGet (t : String) (p' : Phase)
      (hp' : p' = .provisionAdd t ∨ p' = .provisionRun t ∨ p' = .returned) :
      Passes cfg (.provisionGet t) p'
  | provisionRun (t : String) : Passes cfg (.provisionRun t) (.provisionUpdate t)
  | provisionEmit (t : String) : Passes cfg (.provisionEmit t) (.provisionReturn t)
  | provisionReturn (t : String) : Passes cfg (.provisionReturn t) .returned
  | workerGet (t : String) : Passes cfg (.workerGet t) .returned
  | workerEmit (t : String) : Passes cfg (.workerEmit t) .returned
  | deprovision (t : String) (n : ℕ) (p p' : Phase)
      (hp : p = .deprovisionEmit t n ∨ p = .deprovisionStop t n ∨ p = .deprovisionEvict t n ∨
        p = .deprovisionRun t n)
      (hp' : p' = .deprovisionStop t n ∨ p' = .deprovisionEvict t n ∨ p' = .deprovisionRun t n ∨
        p' = .deprovisionDelete t n) : Passes cfg p p'
  | activateUpdate (t storeId : String) :
      Passes cfg (.activateUpdate t storeId) (.activateAdd t storeId)
  | activateEmit (t storeId : String) :
      Passes cfg (.activateEmit t storeId) (.activateGet t storeId)

/-- What a call does when its await has ended, and the phases that it goes from and to. -/
inductive Moves (cfg : Config) (catalog : TenantCatalog) (fault : Option Exc) (s : State) :
    Phase → State → Phase → Prop
  | raises (p : Phase) (e : Exc) : Moves cfg catalog fault s p s (.raised e)
  | passes (p p' : Phase) (hp : Passes cfg p p') : Moves cfg catalog fault s p s p'
  | adds (t : String) (written : TenantRows)
      (hadd : catalog.add { tenantId := t, status := .pending } s.rows = .ok written) :
      Moves cfg catalog fault s (.provisionAdd t) { s with rows := written } (.provisionRun t)
  | activates (p p' : Phase) (t : String) (written : TenantRows)
      (hp : p = .provisionUpdate t ∧ p' = .provisionEmit t ∨
        ∃ storeId, p = .activateUpdate t storeId ∧ p' = .activateEmit t storeId)
      (hupdate : catalog.updateStatus t .active s.rows = .ok written) :
      Moves cfg catalog fault s p { s with rows := written } p'
  | addsActive (t storeId : String) (written : TenantRows)
      (hadd : catalog.add { tenantId := t, status := .active } s.rows = .ok written) :
      Moves cfg catalog fault s (.activateAdd t storeId) { s with rows := written }
        (.activateEmit t storeId)
  | checks (t : String)
      (hrow : (∃ e, fault = some e ∧ notFound e = true) ∨ ∀ descriptor,
        s.rows.get? t = some descriptor →
          descriptor.status ≠ .deleted ∧ descriptor.status ≠ .deprovisioning) :
      Moves cfg catalog fault s (.workerGet t) s (.workerRun t)
  | runs (t : String) :
      Moves cfg catalog fault s (.workerRun t) { s with workerRuns := s.workerRuns ++ [t] }
        (.workerEmit t)
  | bars (p p' : Phase) (t : String) (status : TenantStatus) (written : TenantRows)
      (hp : p = .deprovisionUpdate t ∧ p' = .deprovisionEmit t (s.commands.count t) ∧
          status = .deprovisioning ∨
        ∃ n, p = .deprovisionDelete t n ∧ p' = .deprovisionLast t (s.commands.count t) ∧
          status = .deleted)
      (hended : ended fault (catalog.updateStatus t status s.rows) = .ok written) :
      Moves cfg catalog fault s p { s with rows := written, barred := insert t s.barred } p'
  | deprovisions (t : String) (n : ℕ) :
      Moves cfg catalog fault s (.deprovisionLast t n)
        { s with gone := if s.commands.count t = n then insert t s.gone else s.gone } .returned
  | completes (t storeId : String) :
      Moves cfg catalog fault s (.activateGet t storeId)
        { s with activations := s.activations ++ [t] } (.ready t storeId)

section

theorem ended_ok {α : Type} {result : Except PyException α} {a : α}
    (h : ended fault result = .ok a) : result = .ok a := by
  unfold ended at h
  split at h <;> simp_all

theorem ended_error {α : Type} {result : Except PyException α} {e : Exc}
    (h : ended fault result = .error e) :
    fault = some e ∨ fault = none ∧ ∃ e', result = .error e' ∧ e = .error e' := by
  unfold ended at h
  split at h
  · cases h
    exact .inl rfl
  · cases h
    exact .inr ⟨rfl, _, rfl, rfl⟩
  · cases h

theorem getRow_ok {t : String} {rows : TenantRows} {descriptor : TenantDescriptor}
    (h : getRow t rows = .ok descriptor) : rows.get? t = some descriptor := by
  unfold getRow at h
  split at h
  · cases h
  · cases h
    assumption

theorem getRow_error {t : String} {rows : TenantRows} {e : PyException}
    (h : getRow t rows = .error e) : rows.get? t = none := by
  unfold getRow at h
  split at h
  · assumption
  · cases h

theorem moves_of_written {result : Except PyException TenantRows} {q : Phase}
    (hok : ∀ written, result = .ok written →
      Moves cfg catalog fault s p { s with rows := written } q)
    (h : written fault result s q = (s', p')) : Moves cfg catalog fault s p s' p' := by
  unfold written at h
  cases hended : ended fault result with
  | error e =>
    rw [hended] at h
    cases h
    exact .raises p e
  | ok rows =>
    rw [hended] at h
    cases h
    exact hok rows (ended_ok hended)

theorem moves_of_called {s₁ : State} {q : Phase} (hok : Moves cfg catalog fault s p s₁ q)
    (h : called fault s s₁ q = (s', p')) : Moves cfg catalog fault s p s' p' := by
  unfold called at h
  cases fault with
  | some e =>
    cases h
    exact .raises p e
  | none =>
    cases h
    exact hok

theorem moves_of_deprovisioned {t : String} {result : Except PyException TenantRows} {q : ℕ → Phase}
    (hok : ∀ written, ended fault result = .ok written → Moves cfg catalog fault s p
      { s with rows := written, barred := insert t s.barred } (q (s.commands.count t)))
    (h : deprovisioned t fault result s q = (s', p')) : Moves cfg catalog fault s p s' p' := by
  unfold deprovisioned at h
  cases hended : ended fault result with
  | error e =>
    rw [hended] at h
    cases h
    exact .raises p e
  | ok rows =>
    rw [hended] at h
    cases h
    exact hok rows hended

theorem provision_moves (t : String) (s : State) :
    Moves cfg catalog fault s (.provisionGet t) s
    (provision t (ended fault (getRow t s.rows))) := by
  unfold provision
  cases hended : ended fault (getRow t s.rows) with
  | error e =>
    by_cases hnot : notFound e
    · simp only [if_pos hnot]
      exact .passes _ _ (.provisionGet t _ (.inl rfl))
    · simp only [if_neg hnot]
      exact .raises _ e
  | ok descriptor =>
    by_cases hactive : descriptor.status = .active
    · simp only [if_pos hactive]
      exact .passes _ _ (.provisionGet t _ (.inr (.inr rfl)))
    · simp only [if_neg hactive]
      exact .passes _ _ (.provisionGet t _ (.inr (.inl rfl)))

theorem provisionWorker_moves (t : String) (s : State) :
    Moves cfg catalog fault s (.workerGet t) s
      (provisionWorker t (ended fault (getRow t s.rows))) := by
  unfold provisionWorker
  cases hended : ended fault (getRow t s.rows) with
  | error e =>
    by_cases hnot : notFound e
    · simp only [if_pos hnot]
      refine .checks t ?_
      rcases ended_error hended with hfault | ⟨-, e', hrow, -⟩
      · exact .inl ⟨e, hfault, hnot⟩
      · refine .inr fun descriptor hget => ?_
        cases (getRow_error hrow).symm.trans hget
    · simp only [if_neg hnot]
      exact .raises _ e
  | ok descriptor =>
    by_cases hrefused : descriptor.status = .deleted ∨ descriptor.status = .deprovisioning
    · simp only [if_pos hrefused]
      exact .passes _ _ (.workerGet t)
    · simp only [if_neg hrefused]
      refine .checks t (.inr fun found hget => ?_)
      obtain rfl := Option.some.inj ((getRow_ok (ended_ok hended)).symm.trans hget)
      exact not_or.mp hrefused

theorem afterSupervisor_cases (cfg : Config) (t : String) (n : ℕ) :
    afterSupervisor cfg t n = .deprovisionEvict t n ∨
      afterSupervisor cfg t n = .deprovisionRun t n := by
  unfold afterSupervisor
  split_ifs <;> simp

/-- **What a step does.** -/
theorem moves_of_resume (h : resume cfg catalog fault s p = some (s', p')) :
    Moves cfg catalog fault s p s' p' := by
  cases p with
  | provisionGet t =>
    cases h
    exact provision_moves t s
  | provisionAdd t => exact moves_of_written (fun w hw => .adds t w hw) (Option.some.inj h)
  | provisionRun t => exact moves_of_called (.passes _ _ (.provisionRun t)) (Option.some.inj h)
  | provisionUpdate t =>
    exact moves_of_written (fun w hw => .activates _ _ t w (.inl ⟨rfl, rfl⟩) hw) (Option.some.inj h)
  | provisionEmit t => exact moves_of_called (.passes _ _ (.provisionEmit t)) (Option.some.inj h)
  | provisionReturn t =>
    simp only [resume] at h
    cases hended : ended fault (getRow t s.rows) with
    | error e =>
      simp only [hended] at h
      cases h
      exact .raises _ e
    | ok row =>
      simp only [hended] at h
      cases h
      exact .passes _ _ (.provisionReturn t)
  | workerGet t =>
    cases h
    exact provisionWorker_moves t s
  | workerRun t => exact moves_of_called (.runs t) (Option.some.inj h)
  | workerEmit t => exact moves_of_called (.passes _ _ (.workerEmit t)) (Option.some.inj h)
  | deprovisionUpdate t =>
    exact moves_of_deprovisioned (fun w hw => .bars _ _ t _ w (.inl ⟨rfl, rfl, rfl⟩) hw)
      (Option.some.inj h)
  | deprovisionEmit t n =>
    refine moves_of_called (.passes _ _ (.deprovision t n _ _ (.inl rfl) ?_)) (Option.some.inj h)
    split_ifs
    · exact .inl rfl
    · rcases afterSupervisor_cases cfg t n with he | he <;> simp [he]
  | deprovisionStop t n =>
    refine moves_of_called (.passes _ _ (.deprovision t n _ _ (.inr (.inl rfl)) ?_))
      (Option.some.inj h)
    rcases afterSupervisor_cases cfg t n with he | he <;> simp [he]
  | deprovisionEvict t n | deprovisionRun t n =>
    exact moves_of_called (.passes _ _ (.deprovision t n _ _ (by simp) (by simp)))
      (Option.some.inj h)
  | deprovisionDelete t n =>
    exact moves_of_deprovisioned (fun w hw => .bars _ _ t _ w (.inr ⟨n, rfl, rfl, rfl⟩) hw)
      (Option.some.inj h)
  | deprovisionLast t n => exact moves_of_called (.deprovisions t n) (Option.some.inj h)
  | activateUpdate t storeId =>
    simp only [resume, markActive, Option.some.injEq] at h
    cases hended : ended fault (catalog.updateStatus t .active s.rows) with
    | error e =>
      simp only [hended] at h
      split_ifs at h
      · cases h
        exact .passes _ _ (.activateUpdate t storeId)
      · cases h
        exact .raises _ e
    | ok w =>
      simp only [hended] at h
      cases h
      exact .activates _ _ t w (.inr ⟨storeId, rfl, rfl⟩) (ended_ok hended)
  | activateAdd t storeId =>
    exact moves_of_written (fun w hw => .addsActive t storeId w hw) (Option.some.inj h)
  | activateEmit t storeId =>
    exact moves_of_called (.passes _ _ (.activateEmit t storeId)) (Option.some.inj h)
  | activateGet t storeId =>
    simp only [resume] at h
    cases hended : ended fault (getRow t s.rows) with
    | error e =>
      simp only [hended] at h
      cases h
      exact .raises _ e
    | ok row =>
      simp only [hended] at h
      cases h
      exact .completes t storeId
  | _ => cases h

end

/-! ## The coordinator -/

/-- A report is recorded: nothing but `_seen` changes, and the report that completes the stores
goes on to `mark_active`. -/
theorem onNodeReady_cases (cfg : Config) (t storeId : String) (s : State) :
    ∃ seen, (onNodeReady cfg t storeId s).1 = { s with seen := seen } ∧
      (∀ t', t' ≠ t → (onNodeReady cfg t storeId s).1.seenStores t' = s.seenStores t') ∧
      s.seenStores t ⊆ (onNodeReady cfg t storeId s).1.seenStores t ∧
      (storeId ∈ cfg.expectedStores → storeId ∈ (onNodeReady cfg t storeId s).1.seenStores t) ∧
      ((onNodeReady cfg t storeId s).2 = .ready t storeId ∧
          (cfg.expectedStores ⊆ (onNodeReady cfg t storeId s).1.seenStores t →
            cfg.expectedStores ⊆ s.seenStores t) ∨
        (onNodeReady cfg t storeId s).2 = .activateUpdate t storeId ∧
          storeId ∈ cfg.expectedStores ∧ storeId ∉ s.seenStores t ∧
          cfg.expectedStores ⊆ insert storeId (s.seenStores t)) := by
  have hset : ∀ seen t', ({ s with seen := s.seen.set t seen } : State).seenStores t' =
      if t' = t then seen else s.seenStores t' := by
    intro seen t'
    simp only [State.seenStores, Dict.get?_set]
    split_ifs <;> rfl
  by_cases hexpected : storeId ∈ cfg.expectedStores
  · by_cases hseen : storeId ∈ s.seenStores t
    · have he : onNodeReady cfg t storeId s =
          ({ s with seen := s.seen.set t (s.seenStores t) }, .ready t storeId) := by
        simp [onNodeReady, hexpected, hseen]
      rw [he]
      refine ⟨_, rfl, fun t' ht' => by simp [hset, ht'], by simp [hset], fun _ => ?_,
        .inl ⟨rfl, by simp [hset]⟩⟩
      simpa [hset] using hseen
    · by_cases hcomplete : cfg.expectedStores ⊆ insert storeId (s.seenStores t)
      · have he : onNodeReady cfg t storeId s =
            ({ s with seen := s.seen.set t (insert storeId (s.seenStores t)) },
              .activateUpdate t storeId) := by
          simp [onNodeReady, hexpected, hseen, hcomplete]
        rw [he]
        exact ⟨_, rfl, fun t' ht' => by simp [hset, ht'], by simp [hset], fun _ => by simp [hset],
          .inr ⟨rfl, hexpected, hseen, hcomplete⟩⟩
      · have he : onNodeReady cfg t storeId s =
            ({ s with seen := s.seen.set t (insert storeId (s.seenStores t)) },
              .ready t storeId) := by
          simp [onNodeReady, hexpected, hseen, hcomplete]
        rw [he]
        refine ⟨_, rfl, fun t' ht' => by simp [hset, ht'], by simp [hset], fun _ => by simp [hset],
          .inl ⟨rfl, fun hall => ?_⟩⟩
        simp only [hset, if_true] at hall
        exact absurd hall hcomplete
  · have he : onNodeReady cfg t storeId s =
        ({ s with seen := s.seen.set t (s.seenStores t) }, .ready t storeId) := by
      simp [onNodeReady, hexpected]
    rw [he]
    exact ⟨_, rfl, fun t' ht' => by simp [hset, ht'], by simp [hset],
      fun hin => absurd hin hexpected, .inl ⟨rfl, by simp [hset]⟩⟩

end TenantControlService

end Varco
