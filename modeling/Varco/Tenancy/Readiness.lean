import Varco.Tenancy.ControlMoves

/-!
# A fully reported tenant becomes active

Whenever every expected store has reported since the tenant was last requested, and the handlers of
these reports have finally returned, `mark_active` has completed since (`Activates`). That holds of
the runs in which no call of `mark_active` raises and no tenant is requested again after every
expected store was seen (`Steady`): the report that completes the stores then comes after the
request, and activates the tenant.
-/

namespace Varco

open List

namespace TenantControlService

variable {cfg : Config} {catalog : TenantCatalog} {ι : Type} {rows : TenantRows}

/-! ## What is promised -/

/-- Each report of the store among the labels was handled: its handler has returned, or it has
raised and that of a redelivery has returned. -/
def Handled (w : Callers ι) (l : List (ι × Input)) (tenantId storeId : String) : Prop :=
  ∀ l₀ i l₁, l = l₀ ++ (i, .call (.onNodeReady tenantId storeId)) :: l₁ →
    w.phase i = .ready tenantId storeId ∨ (∃ e, w.phase i = .raised e) ∧
      ∃ j, (j, Input.call (.onNodeReady tenantId storeId)) ∈ l₁ ∧
        w.phase j = .ready tenantId storeId

/-- In a run with these labels, which has led to `w`. -/
def Activates [DecidableEq ι] (cfg : Config) (catalog : TenantCatalog) (rows : TenantRows)
    (l : List (ι × Input)) (w : Callers ι) : Prop :=
  ∀ l₀ i tenantId l₁ u, l = l₀ ++ [(i, Input.command tenantId)] ++ l₁ →
    (∀ j, (j, Input.command tenantId) ∉ l₁) →
    Run (Step cfg catalog) (fresh ι rows) (l₀ ++ [(i, Input.command tenantId)]) u →
    (∀ storeId ∈ cfg.expectedStores, (∃ j, (j, Input.call (.onNodeReady tenantId storeId)) ∈ l₁) ∧
      Handled w l₁ tenantId storeId) →
    u.shared.activations.count tenantId < w.shared.activations.count tenantId

/-- What `mark_active` awaits in this phase raises. -/
def Fails (catalog : TenantCatalog) (fault : Option Exc) (s : State) : Phase → Bool
  | .activateUpdate tenantId _ =>
    match ended fault (catalog.updateStatus tenantId .active s.rows) with
    | .error e => !notFound e
    | .ok _ => false
  | .activateAdd tenantId _ =>
    !(ended fault (catalog.add { tenantId := tenantId, status := .active } s.rows)).isOk
  | .activateEmit _ _ => fault.isSome
  | .activateGet tenantId _ => !(ended fault (getRow tenantId s.rows)).isOk
  | _ => false

def Steady (cfg : Config) (catalog : TenantCatalog) (s : State) (p : Phase) : Input → Prop
  | .command tenantId => ¬cfg.expectedStores ⊆ s.seenStores tenantId
  | .resume fault => Fails catalog fault s p = false
  | .call _ => True

instance (s : State) (p : Phase) (x : Input) : Decidable (Steady cfg catalog s p x) := by
  unfold Steady
  split <;> infer_instance

/-- `mark_active` is running. -/
def Phase.activates (tenantId storeId : String) (p : Phase) : Prop :=
  p = .activateUpdate tenantId storeId ∨ p = .activateAdd tenantId storeId ∨
    p = .activateEmit tenantId storeId ∨ p = .activateGet tenantId storeId

section

variable {s s' : State} {p p' : Phase} {tenantId storeId : String} {fault : Option Exc}

/-- **`mark_active` makes a step** that does not raise. -/
theorem activates_resume (hp : p.activates tenantId storeId) (hok : Fails catalog fault s p = false)
    (h : resume cfg catalog fault s p = some (s', p')) :
    s'.activations = s.activations ∧ p'.activates tenantId storeId ∨
      s'.activations = s.activations ++ [tenantId] := by
  rcases hp with rfl | rfl | rfl | rfl
  · simp only [resume, markActive, Option.some.injEq] at h
    unfold Fails at hok
    cases hended : ended fault (catalog.updateStatus tenantId .active s.rows) with
    | error e =>
      simp only [hended, Bool.not_eq_false'] at h hok
      simp only [hok, if_true] at h
      cases h
      exact .inl ⟨rfl, .inr (.inl rfl)⟩
    | ok rows =>
      simp only [hended] at h
      cases h
      exact .inl ⟨rfl, .inr (.inr (.inl rfl))⟩
  · simp only [resume, written, Option.some.injEq] at h
    unfold Fails at hok
    cases hended : ended fault (catalog.add { tenantId := tenantId, status := .active } s.rows) with
    | error e => simp [hended, Except.isOk, Except.toBool] at hok
    | ok rows =>
      simp only [hended] at h
      cases h
      exact .inl ⟨rfl, .inr (.inr (.inl rfl))⟩
  · cases fault with
    | some e => cases hok
    | none =>
      cases h
      exact .inl ⟨rfl, .inr (.inr (.inr rfl))⟩
  · simp only [resume] at h
    unfold Fails at hok
    cases hended : ended fault (getRow tenantId s.rows) with
    | error e => simp [hended, Except.isOk, Except.toBool] at hok
    | ok row =>
      simp only [hended] at h
      cases h
      exact .inr rfl

/-- A step of a call that is not a report: the sets of stores stay, and no activation is lost. -/
theorem Moves.keeps (h : Moves cfg catalog fault s p s' p') :
    s'.seen = s.seen ∧ s.activations <+: s'.activations := by
  cases h with
  | completes t storeId => exact ⟨rfl, prefix_append ..⟩
  | _ => exact ⟨rfl, prefix_rfl⟩

end

/-- Since a request, with the labels `l` since then, when `count` activations had completed. -/
structure Since (cfg : Config) (tenantId : String) (count : ℕ) (l : List (ι × Input))
    (w : Callers ι) : Prop where
  seen : ∀ storeId ∈ cfg.expectedStores,
    (∃ j, (j, Input.call (.onNodeReady tenantId storeId)) ∈ l) →
      storeId ∈ w.shared.seenStores tenantId
  kept : count ≤ w.shared.activations.count tenantId
  active : cfg.expectedStores ⊆ w.shared.seenStores tenantId →
    count < w.shared.activations.count tenantId ∨
      ∃ j storeId, storeId ∈ cfg.expectedStores ∧
        (j, Input.call (.onNodeReady tenantId storeId)) ∈ l ∧
        (w.phase j).activates tenantId storeId

section

variable [DecidableEq ι] {l : List (ι × Input)} {w w' : Callers ι} {a : ι × Input}
  {tenantId : String} {count : ℕ}

theorem activates_ne_idle {storeId : String} {p : Phase} (h : p.activates tenantId storeId) :
    p ≠ .idle ∧ p ≠ .ready tenantId storeId ∧ ∀ e, p ≠ .raised e := by
  rcases h with rfl | rfl | rfl | rfl <;> simp

theorem since_same {s' : State} {p' : Phase} (h : Since cfg tenantId count l w)
    (hlabel : ∀ storeId, a.2 ≠ .call (.onNodeReady tenantId storeId))
    (hseen : s'.seenStores tenantId = w.shared.seenStores tenantId)
    (hactivations : w.shared.activations <+: s'.activations)
    (hphase : ∀ storeId, (w.phase a.1).activates tenantId storeId →
      p'.activates tenantId storeId ∨ s'.activations = w.shared.activations ++ [tenantId]) :
    Since cfg tenantId count (l ++ [a]) (w.put a.1 (s', p')) := by
  have hcount := hactivations.sublist.count_le tenantId
  constructor
  · rintro storeId hexpected ⟨j, hj⟩
    rw [Tasks.put_shared, hseen]
    refine h.seen storeId hexpected ⟨j, ?_⟩
    rcases mem_append.mp hj with hj | hj
    · exact hj
    · exact absurd (mem_singleton.mp hj ▸ rfl) (hlabel storeId)
  · exact h.kept.trans hcount
  · intro hall
    rw [Tasks.put_shared, hseen] at hall
    rcases h.active hall with hdone | ⟨j, storeId, hexpected, hj, hactive⟩
    · exact .inl (hdone.trans_le hcount)
    · by_cases hja : j = a.1
      · rcases hphase storeId (hja ▸ hactive) with hp' | happend
        · refine .inr ⟨j, storeId, hexpected, mem_append_left _ hj, ?_⟩
          rw [hja, Tasks.put_phase_self]
          exact hp'
        · left
          have hkept := h.kept
          simp only [Tasks.put_shared, happend, count_append, count_singleton_self]
          omega
      · refine .inr ⟨j, storeId, hexpected, mem_append_left _ hj, ?_⟩
        rw [Tasks.put_phase_of_ne hja]
        exact hactive

theorem since_report {t storeId : String} (h : Since cfg tenantId count l w)
    (hidle : w.phase a.1 = .idle) (hlabel : a.2 = .call (.onNodeReady t storeId)) :
    Since cfg tenantId count (l ++ [a]) (w.put a.1 (onNodeReady cfg t storeId w.shared)) := by
  obtain ⟨seen, he, hother, hgrows, hreported, hphase⟩ := onNodeReady_cases cfg t storeId w.shared
  generalize onNodeReady cfg t storeId w.shared = q at *
  obtain ⟨s', p'⟩ := q
  have hactivations : s'.activations = w.shared.activations := by
    rw [show s' = _ from he]
  by_cases ht : t = tenantId
  · subst ht
    constructor
    · rintro st hexpected ⟨j, hj⟩
      rcases mem_append.mp hj with hj | hj
      · exact hgrows (h.seen st hexpected ⟨j, hj⟩)
      · have heq := mem_singleton.mp hj
        rw [← heq] at hlabel
        cases hlabel
        exact hreported hexpected
    · rw [Tasks.put_shared, hactivations]
      exact h.kept
    · intro hall
      rcases hphase with ⟨-, hbefore⟩ | ⟨hp', hexpected, -, -⟩
      · rcases h.active (hbefore hall) with hdone | ⟨j, st, hexpected, hj, hactive⟩
        · left
          rwa [Tasks.put_shared, hactivations]
        · refine .inr ⟨j, st, hexpected, mem_append_left _ hj, ?_⟩
          have hja : j ≠ a.1 := by
            rintro rfl
            exact (activates_ne_idle hactive).1 hidle
          rwa [Tasks.put_phase_of_ne hja]
      · refine .inr ⟨a.1, storeId, hexpected, ?_, ?_⟩
        · rw [← hlabel]
          exact mem_append_right _ (mem_singleton_self _)
        · rw [Tasks.put_phase_self, hp']
          exact .inl rfl
  · refine since_same h (fun st heq => ?_) (hother tenantId (Ne.symm ht))
      (hactivations ▸ prefix_rfl) fun st hactive => ?_
    · rw [hlabel] at heq
      cases heq
      exact ht rfl
    · exact absurd hidle (activates_ne_idle hactive).1

theorem since_step (h : Since cfg tenantId count l w)
    (hok : Steady cfg catalog w.shared (w.phase a.1) a.2) (hst : Step cfg catalog w a w') :
    Since cfg tenantId count (l ++ [a]) w' := by
  obtain ⟨⟨s', p'⟩, hnext, rfl⟩ := hst
  obtain ⟨i, x⟩ := a
  generalize hp : w.phase i = p at hnext hok
  cases x with
  | call c =>
    cases p with
    | idle =>
      cases c with
      | onNodeReady t storeId =>
        rw [← Option.some.inj hnext]
        exact since_report h hp rfl
      | provision t | provisionWorker t =>
        simp only [next, begin] at hnext
        split_ifs at hnext
        cases hnext
        exact since_same h (by simp) rfl prefix_rfl fun st hactive =>
          absurd hp (activates_ne_idle hactive).1
      | deprovision t confirm =>
        cases hnext
        exact since_same h (by simp) rfl prefix_rfl fun st hactive =>
          absurd hp (activates_ne_idle hactive).1
    | _ => cases hnext
  | command t =>
    cases p with
    | idle =>
      cases hnext
      exact since_same h (by simp) rfl prefix_rfl fun st hactive =>
        absurd hp (activates_ne_idle hactive).1
    | _ => cases hnext
  | resume fault =>
    obtain ⟨hseen, hactivations⟩ := (moves_of_resume hnext).keeps
    refine since_same h (by simp) (by rw [State.seenStores, hseen]; rfl) hactivations ?_
    intro st hactive
    rw [hp] at hactive
    exact (activates_resume hactive hok hnext).imp_left And.right

/-- **A fully reported tenant becomes active**, in every run whose steps are steady. -/
theorem activates_reported
    (hrun : Guarded (Step cfg catalog) (fun _ w a => Steady cfg catalog w.shared (w.phase a.1) a.2)
      (fresh ι rows) l w) : Activates cfg catalog rows l w := by
  rintro l₀ i t l₁ u rfl - hu hreports
  have hdet : ∀ (w : Callers ι) a w₁ w₂, Step cfg catalog w a w₁ → Step cfg catalog w a w₂ →
      w₁ = w₂ := fun _ _ _ _ => Tasks.Step.det
  -- at the request not every store was seen
  have hmissing : ¬cfg.expectedStores ⊆ u.shared.seenStores t := by
    obtain ⟨u', hguarded, -⟩ := hrun.split
    obtain rfl := hguarded.run.det hdet hu
    obtain ⟨v, -, hok, ⟨⟨s', p'⟩, hnext, rfl⟩⟩ := hguarded.snoc_inv
    dsimp only at hok hnext
    generalize v.phase i = p at hok hnext
    cases p with
    | idle =>
      cases hnext
      exact hok
    | _ => cases hnext
  have hbegin : Since cfg t (u.shared.activations.count t) [] u :=
    ⟨by simp, le_rfl, fun hall => absurd hall hmissing⟩
  have hsince := hrun.invariant_from
    (I := fun l w => ∀ l', l = l₀ ++ [(i, .command t)] ++ l' →
      Since cfg t (u.shared.activations.count t) l' w) hdet hu
    (fun l' hl' => by rwa [self_eq_append_right.mp hl']) ?_ l₁ rfl
  · have hall : cfg.expectedStores ⊆ w.shared.seenStores t := fun storeId hexpected =>
      hsince.seen storeId hexpected (hreports storeId hexpected).1
    refine (hsince.active hall).resolve_right ?_
    rintro ⟨j, storeId, hexpected, hj, hactive⟩
    obtain ⟨m₀, m₁, hm⟩ := append_of_mem hj
    obtain ⟨-, hready, hraised⟩ := activates_ne_idle hactive
    rcases (hreports storeId hexpected).2 m₀ j m₁ hm with hj | ⟨⟨e, hj⟩, -⟩
    · exact hready hj
    · exact hraised e hj
  · rintro l w a w' - - hok hst ⟨l', rfl⟩ h l'' hl''
    rw [append_assoc] at hl''
    rw [← append_cancel_left hl'']
    exact since_step (h l' rfl) hok hst

end

/-- A tenant is requested and reported by its store. -/
theorem activates_reported_acme :
    ∃ (l : List (Fin 2 × Input)) (w : Callers (Fin 2)), w.phase 0 = .ready "acme" "orders" ∧
      w.shared.activations = ["acme"] ∧ Activates .oneStore StaticTenantCatalog .empty l w := by
  have hrun : Guarded (Step .oneStore StaticTenantCatalog)
      (fun _ w a => Steady .oneStore StaticTenantCatalog w.shared (w.phase a.1) a.2)
      (fresh (Fin 2) .empty) [(1, .command "acme"), (0, .call (.onNodeReady "acme" "orders")),
        (0, .resume none), (0, .resume none), (0, .resume none), (0, .resume none)] _ :=
    Tasks.guarded_of_isSome (fun _ _ _ h => h) (by decide +kernel)
  exact ⟨_, _, by decide +kernel, by decide +kernel, activates_reported hrun⟩

/-- The catalog is out when the only store has reported, and the report is delivered again. -/
theorem acme_reported_never_active :
    ∃ (l : List (Fin 3 × Input)) (w : Callers (Fin 3)),
      Run (Step .oneStore StaticTenantCatalog) (fresh (Fin 3) .empty) l w ∧
      ¬Activates .oneStore StaticTenantCatalog .empty l w := by
  let reports : List (Fin 3 × Input) :=
    [(0, .call (.onNodeReady "acme" "orders")),
      (0, .resume (some (.error ⟨"OperationalError", "connection refused"⟩))),
      (1, .call (.onNodeReady "acme" "orders"))]
  have hrequest : Tasks.advance (next .oneStore StaticTenantCatalog) (fresh (Fin 3) .empty)
      [(2, .command "acme")] = some _ := rfl
  have hrun : Tasks.advance (next .oneStore StaticTenantCatalog) (fresh (Fin 3) .empty)
      ([] ++ [(2, Input.command "acme")] ++ reports) = some _ := rfl
  refine ⟨_, _, Tasks.run_of_advance hrun, fun hactivates => ?_⟩
  have hcount := hactivates [] 2 "acme" reports _ rfl (by simp [reports])
    (Tasks.run_of_advance hrequest) ?_
  · exact absurd hcount (by decide +kernel)
  · intro storeId hexpected
    obtain rfl := Finset.mem_singleton.mp hexpected
    refine ⟨⟨0, mem_cons_self⟩, fun l₀ i l₁ hl => ?_⟩
    rcases l₀ with _ | ⟨x, _ | ⟨y, _ | ⟨z, l₀⟩⟩⟩
    · -- the first delivery raises, the second one is a duplicate
      obtain ⟨hfirst, rfl⟩ := List.cons.inj hl
      cases hfirst
      refine .inr ⟨⟨.error ⟨"OperationalError", "connection refused"⟩,
        by decide +kernel⟩, 1, ?_, ?_⟩
      · simp
      · decide +kernel
    · simp [reports] at hl
    · obtain ⟨-, hl⟩ := List.cons.inj hl
      obtain ⟨-, hl⟩ := List.cons.inj hl
      obtain ⟨hlast, -⟩ := List.cons.inj hl
      cases hlast
      exact .inl (by decide +kernel)
    · simp [reports] at hl

end TenantControlService

end Varco
