import Varco.Tenancy.Fanout

/-!
# What a call does to the supervisor

What a call does between two awaits (`moves_of_next`): it adds a child or its task, removes a child
and cancels its task, or takes the loop of `stop` to the next tenant (`Visits`). A supervising task
enters the `start` of its child only if it has not ended and was not cancelled before
(`starts_of_goOn`).
-/

namespace Varco

namespace TenantFanoutSupervisor

variable {cfg : Config} {s s' : State} {p p' : Phase}

def Phase.awaits : Phase → Option (String × ℕ)
  | .deactivating tenantId _ _ task | .awaitingTask tenantId _ task => some (tenantId, task)
  | _ => none

/-- What the loop of `stop` does up to its next await. -/
inductive Visits (s : State) : ℕ → State → Phase → Prop
  | ends {left : ℕ} (hends : left = 0 ∨ s.order.length < left) :
      Visits s left (clear s) .stopReturned
  | awaits {left : ℕ} (tenantId : String) (task : ℕ) (horder : s.order[left]? = some tenantId)
      (htask : s.tasks.get? tenantId = some task) (hlive : s.Live task) :
      Visits s (left + 1) (cancel task { s with tasks := s.tasks.erase tenantId })
        (.awaitingTask tenantId left task)
  | stops {left : ℕ} (tenantId : String) (child : ℕ) (horder : s.order[left]? = some tenantId)
      (htask : ∀ task, s.tasks.get? tenantId = some task → ¬s.Live task)
      (hchild : s.children.get? tenantId = some child) :
      Visits s (left + 1) (enter (.stop child) { s with tasks := s.tasks.erase tenantId })
        (.awaitingChild left)

/-- What a call or a supervising task can do, and the phases that a call goes from and to. -/
inductive Moves (cfg : Config) (s : State) : Input → Phase → State → Phase → Prop
  | passes (x : Input) (p : Phase) (hp : p = .returned ∨ ∃ e, p = .raised e) :
      Moves cfg s x .idle s p
  | registers (x : Input) (tenantId : String) (hnew : s.children.get? tenantId = none)
      (hstarted : s.started = false) : Moves cfg s x .idle (register tenantId s) .returned
  | spawns (tenantId : String) (hnew : s.children.get? tenantId = none) (henabled : cfg.enabled)
      (hroom : s.children.entries.length < cfg.maxEntries) (hstarted : s.started) :
      Moves cfg s (.call (.onTenantActivated tenantId none)) .idle
        (spawn tenantId s.made.length 0 (register tenantId s)) .returned
  | starts (x : Input) : Moves cfg s x .idle { s with started := true } .returned
  | spawnsAll (henabled : cfg.enabled) (hstarted : s.started = false) :
      Moves cfg s (.call .start) .idle (spawnAll s.order 0 { s with started := true }).1
        (spawnAll s.order 0 { s with started := true }).2
  | goesOn (x : Input) (task : ℕ) (outcome : Option Exc) (s' : State)
      (hgoes : goOn task outcome s = some s') : Moves cfg s x .idle s' .idle
  | cancels (tenantId : String) (task : ℕ) (htask : s.tasks.get? tenantId = some task)
      (hlive : s.Live task) :
      Moves cfg s (.call (.onTenantDeactivated tenantId)) .idle (cancel task (remove tenantId s))
        (.deactivating tenantId s.made.length (s.children.get? tenantId) task)
  | removes (tenantId : String)
      (htask : ∀ task, s.tasks.get? tenantId = some task → ¬s.Live task) :
      Moves cfg s (.call (.onTenantDeactivated tenantId)) .idle
        (stopRemoved tenantId s.made.length (s.children.get? tenantId) (remove tenantId s)).1
        (stopRemoved tenantId s.made.length (s.children.get? tenantId) (remove tenantId s)).2
  | removed (x : Input) (tenantId : String) (made : ℕ) (child : Option ℕ) (task : ℕ)
      (hlive : ¬s.Live task) :
      Moves cfg s x (.deactivating tenantId made child task) (stopRemoved tenantId made child s).1
        (stopRemoved tenantId made child s).2
  | childStopped (x : Input) (tenantId : String) (made : ℕ) :
      Moves cfg s x (.stoppingChild tenantId made) s (.deactivated tenantId made)
  | raises (x : Input) (p : Phase) (hp : (∃ tenantId made, p = .stoppingChild tenantId made) ∨
      ∃ left, p = .awaitingChild left) : Moves cfg s x p s (.raised .cancelled)
  | interrupted (x : Input) (p : Phase) (tenantId : String) (task : ℕ)
      (hp : p.awaits = some (tenantId, task)) : Moves cfg s x p (cancel task s) p
  | stopsAgain (hstopped : s.stopped) : Moves cfg s (.call .stop) .idle s .stopReturned
  | stops (hstopped : s.stopped = false) (s' : State) (p' : Phase)
      (hvisits : Visits { s with stopped := true } s.order.length s' p') :
      Moves cfg s (.call .stop) .idle s' p'
  | visits (outcome : Option Exc) (hkept : outcome ≠ some .cancelled) (left : ℕ) (s' : State)
      (p' : Phase) (hvisits : Visits s left s' p') :
      Moves cfg s (.resume outcome) (.awaitingChild left) s' p'
  | passesOn (outcome : Option Exc) (tenantId : String) (left task : ℕ) (hlive : ¬s.Live task)
      (hchild : s.children.get? tenantId = none) (s' : State) (p' : Phase)
      (hvisits : Visits s left s' p') :
      Moves cfg s (.resume outcome) (.awaitingTask tenantId left task) s' p'
  | visited (x : Input) (tenantId : String) (left task : ℕ) (hlive : ¬s.Live task) (child : ℕ)
      (hchild : s.children.get? tenantId = some child) :
      Moves cfg s x (.awaitingTask tenantId left task) (enter (.stop child) s) (.awaitingChild left)

section

theorem Moves.of_some {x : Input} {q : State × Phase} (h : Moves cfg s x p q.1 q.2)
    (hq : some q = some (s', p')) : Moves cfg s x p s' p' := by
  cases Option.some.inj hq
  exact h

theorem visits_stopLoop (horder : ∀ tenantId ∈ s.order, (s.children.get? tenantId).isSome)
    (left : ℕ) : Visits s left (stopLoop s left).1 (stopLoop s left).2 := by
  cases left with
  | zero => exact .ends (.inl rfl)
  | succ left =>
    unfold stopLoop
    cases hplace : s.order[left]? with
    | none =>
      have hshort := List.getElem?_eq_none_iff.mp hplace
      exact .ends (.inr (by omega))
    | some tenantId =>
      obtain ⟨child, hchild⟩ := Option.isSome_iff_exists.mp
        (horder tenantId (List.mem_of_getElem? hplace))
      cases htask : s.tasks.get? tenantId with
      | none =>
        simp only [htask, stopChild, hchild]
        exact .stops tenantId child hplace (by simp [htask]) hchild
      | some task =>
        by_cases hlive : s.Live task
        · simp only [htask, if_pos hlive]
          exact .awaits tenantId task hplace htask hlive
        · simp only [htask, if_neg hlive, stopChild, hchild]
          exact .stops tenantId child hplace (by simp [htask, hlive]) hchild

theorem moves_of_activate (tenantId : String) (fault : Option Exc) (s : State) :
    Moves cfg s (.call (.onTenantActivated tenantId fault)) .idle
      (activate cfg tenantId fault s).1 (activate cfg tenantId fault s).2 := by
  unfold activate
  by_cases henabled : cfg.enabled
  · by_cases hnew : (s.children.get? tenantId).isSome
    · simp only [henabled, hnew, Bool.not_true, Bool.false_eq_true, if_false, if_true]
      exact .passes _ _ (.inl rfl)
    · have hnone := Option.not_isSome_iff_eq_none.mp hnew
      by_cases hroom : cfg.maxEntries ≤ s.children.entries.length
      · simp only [henabled, hnew, hroom, Bool.not_true, Bool.false_eq_true, if_false, if_true]
        exact .passes _ _ (.inl rfl)
      · simp only [henabled, hnew, hroom, Bool.not_true, Bool.false_eq_true, if_false]
        cases fault with
        | some e => exact .passes _ _ (.inr ⟨e, rfl⟩)
        | none =>
          by_cases hstarted : s.started
          · simp only [if_pos hstarted]
            exact .spawns tenantId hnone henabled (Int.not_le.mp hroom) hstarted
          · simp only [if_neg hstarted]
            exact .registers _ tenantId hnone (Bool.not_eq_true _ ▸ hstarted)
  · simp only [henabled, Bool.not_false, if_true]
    exact .passes _ _ (.inl rfl)

theorem moves_of_deactivate (tenantId : String) (s : State) :
    Moves cfg s (.call (.onTenantDeactivated tenantId)) .idle (deactivate tenantId s).1
      (deactivate tenantId s).2 := by
  unfold deactivate
  cases htask : s.tasks.get? tenantId with
  | none => exact .removes tenantId (by simp [htask])
  | some task =>
    by_cases hlive : s.Live task
    · simp only [if_pos hlive]
      exact .cancels tenantId task htask hlive
    · simp only [if_neg hlive]
      exact .removes tenantId (by simp [htask, hlive])

section

variable (horder : ∀ tenantId ∈ s.order, (s.children.get? tenantId).isSome)

include horder

theorem moves_of_begin (c : Call) :
    Moves cfg s (.call c) .idle (begin cfg s c).1 (begin cfg s c).2 := by
  cases c with
  | onTenantActivated tenantId fault => exact moves_of_activate tenantId fault s
  | onTenantDeactivated tenantId => exact moves_of_deactivate tenantId s
  | start =>
    simp only [begin, start]
    by_cases hskip : s.started || !cfg.enabled
    · simp only [if_pos hskip]
      exact .starts _
    · simp only [if_neg hskip]
      simp only [Bool.or_eq_true, Bool.not_eq_true', not_or, Bool.not_eq_false,
        Bool.not_eq_true] at hskip
      exact .spawnsAll hskip.2 hskip.1
  | stop =>
    simp only [begin, stop]
    by_cases hstopped : s.stopped
    · simp only [if_pos hstopped]
      exact .stopsAgain hstopped
    · simp only [if_neg hstopped]
      exact .stops (Bool.not_eq_true _ ▸ hstopped) _ _
        (visits_stopLoop (s := { s with stopped := true }) horder _)

theorem moves_of_resume {outcome : Option Exc} (h : resume outcome s p = some (s', p')) :
    Moves cfg s (.resume outcome) p s' p' := by
  cases p with
  | deactivating tenantId made child task =>
    simp only [resume] at h
    split_ifs at h with hlive
    exact .of_some (.removed _ tenantId made child task hlive) h
  | stoppingChild tenantId made =>
    simp only [resume, afterChild] at h
    split_ifs at h
    · cases h
      exact .raises _ _ (.inl ⟨tenantId, made, rfl⟩)
    · cases h
      exact .childStopped _ tenantId made
  | awaitingTask tenantId left task =>
    simp only [resume] at h
    split_ifs at h with hlive
    cases hchild : s.children.get? tenantId with
    | none =>
      simp only [stopChild, hchild] at h
      exact .of_some
        (.passesOn outcome tenantId left task hlive hchild _ _ (visits_stopLoop horder left)) h
    | some child =>
      simp only [stopChild, hchild] at h
      cases h
      exact .visited _ tenantId left task hlive child hchild
  | awaitingChild left =>
    simp only [resume, afterChild] at h
    split_ifs at h with hcancelled
    · cases h
      exact .raises _ _ (.inr ⟨left, rfl⟩)
    · exact .of_some (.visits outcome hcancelled left _ _ (visits_stopLoop horder left)) h
  | _ => cases h

/-- **What one step does.** -/
theorem moves_of_next {x : Input} (h : next cfg x s p = some (s', p')) : Moves cfg s x p s' p' := by
  cases x with
  | call c =>
    cases p with
    | idle => exact .of_some (moves_of_begin horder c) h
    | _ => cases h
  | resume outcome => exact moves_of_resume horder h
  | interrupt =>
    cases p with
    | deactivating tenantId made child task =>
      cases h
      exact .interrupted _ _ tenantId task rfl
    | awaitingTask tenantId left task =>
      cases h
      exact .interrupted _ _ tenantId task rfl
    | _ => cases h
  | task task outcome =>
    cases p with
    | idle =>
      obtain ⟨s', hgoes, he⟩ := Option.map_eq_some_iff.mp h
      cases he
      exact .goesOn _ task outcome s' hgoes
    | _ => cases h

end

theorem spawnAll_phase (order : List String) (index : ℕ) (s : State) :
    (spawnAll order index s).2 = .returned ∨ ∃ t, (spawnAll order index s).2 = .keyError t := by
  induction order generalizing s index with
  | nil => exact .inl rfl
  | cons t order ih =>
    unfold spawnAll
    cases s.children.get? t with
    | none => exact .inr ⟨t, rfl⟩
    | some child => exact ih (index + 1) _

end

/-! ## Supervising tasks -/

/-- The task has ended, or was cancelled before it has called its child's `start`. -/
def Job.Over (job : Job) : Prop :=
  job.stage = .done ∨ job.cancelling = true ∧ (job.stage = .created ∨ job.stage = .staggering)

instance (job : Job) : Decidable job.Over :=
  inferInstanceAs (Decidable (_ ∨ _ ∧ (_ ∨ _)))

theorem over_of_not_live {task : ℕ} (h : ¬s.Live task) {job : Job}
    (hjob : s.jobs[task]? = some job) : job.Over := by
  by_contra hover
  exact h ⟨job, hjob, fun hdone => hover (.inl hdone)⟩

/-- The tasks of `jobs` have gone on, and those that were over are. -/
def Goes (jobs jobs' : List Job) : Prop :=
  ∀ k : ℕ, jobs[k]? = none ∧ jobs'[k]? = none ∨ ∃ job job', jobs[k]? = some job ∧
    jobs'[k]? = some job' ∧ job'.child = job.child ∧ (job.Over → job'.Over)

theorem Goes.of_some {jobs jobs' : List Job} (h : Goes jobs jobs') {k : ℕ} {job : Job}
    (hjob : jobs[k]? = some job) :
    ∃ job', jobs'[k]? = some job' ∧ job'.child = job.child ∧ (job.Over → job'.Over) := by
  rcases h k with ⟨hnone, -⟩ | ⟨job₁, job', hjob₁, hjob', hchild, hover⟩
  · cases hnone.symm.trans hjob
  · obtain rfl := Option.some.inj (hjob₁.symm.trans hjob)
    exact ⟨job', hjob', hchild, hover⟩

theorem Goes.of_some' {jobs jobs' : List Job} (h : Goes jobs jobs') {k : ℕ} {job' : Job}
    (hjob' : jobs'[k]? = some job') :
    ∃ job, jobs[k]? = some job ∧ job'.child = job.child ∧ (job.Over → job'.Over) := by
  rcases h k with ⟨-, hnone⟩ | ⟨job, job₁, hjob, hjob₁, hchild, hover⟩
  · cases hnone.symm.trans hjob'
  · obtain rfl := Option.some.inj (hjob₁.symm.trans hjob')
    exact ⟨job, hjob, hchild, hover⟩

theorem goes_set {jobs : List Job} {task : ℕ} {job job' : Job} (hjob : jobs[task]? = some job)
    (hchild : job'.child = job.child) (hover : job.Over → job'.Over) :
    Goes jobs (jobs.set task job') := by
  intro k
  rw [List.getElem?_set]
  obtain ⟨hlength, -⟩ := List.getElem?_eq_some_iff.mp hjob
  by_cases hk : task = k
  · subst hk
    exact .inr ⟨job, job', hjob, by simp [hlength], hchild, hover⟩
  · simp only [if_neg hk]
    cases hother : jobs[k]? with
    | none => exact .inl ⟨rfl, rfl⟩
    | some other => exact .inr ⟨other, other, rfl, rfl, rfl, id⟩

theorem Job.Over.cancel {job : Job} (h : job.Over) : job.cancel.Over := by
  unfold Job.cancel
  split_ifs with hdone
  · exact h
  · exact .inr ⟨rfl, (h.resolve_left hdone).2⟩

@[simp] theorem Job.cancel_child (job : Job) : job.cancel.child = job.child := by
  unfold Job.cancel
  split_ifs <;> rfl

@[simp] theorem Job.cancel_stage (job : Job) : job.cancel.stage = job.stage := by
  unfold Job.cancel
  split_ifs <;> rfl

theorem goes_cancel (task : ℕ) (s : State) : Goes s.jobs (cancel task s).jobs := by
  intro k
  simp only [TenantFanoutSupervisor.cancel, List.getElem?_modify]
  cases hjob : s.jobs[k]? with
  | none => exact .inl ⟨rfl, rfl⟩
  | some job =>
    refine .inr ⟨job, _, rfl, rfl, ?_, fun hover => ?_⟩
    · split_ifs <;> simp
    · split_ifs
      · exact hover.cancel
      · exact hover

/-- A cancelled task that is not over has called its child's `start`. -/
theorem Job.over_cancel (job : Job) :
    job.cancel.Over ∨ job.stage = .starting ∨ job.stage = .backingOff := by
  unfold Job.cancel Job.Over
  cases hstage : job.stage <;> simp [hstage]

/-- **A supervising task goes on.** It enters the child's `start` only where it is not over. -/
theorem goOn_cases {task : ℕ} {outcome : Option Exc} (h : goOn task outcome s = some s') :
    ∃ job job', s.jobs[task]? = some job ∧ job'.child = job.child ∧ (job.Over → job'.Over) ∧
      (s' = setJob task job' s ∧
          (job'.stage = .starting ∨ job'.stage = .backingOff → job.stage = .starting) ∨
        s' = enter (.start job.child) (setJob task job' s) ∧ ¬job.Over) := by
  unfold goOn at h
  cases hjob : s.jobs[task]? with
  | none => simp [hjob] at h
  | some job =>
    simp only [hjob] at h
    have hends : ∀ b, ({ job with stage := .done, cancelling := b } : Job).Over :=
      fun _ => .inl rfl
    cases hstage : job.stage with
    | created =>
      simp only [hstage] at h
      split_ifs at h with hcancelling hstagger
      · cases h
        exact ⟨job, { job with stage := .done }, rfl, rfl, fun _ => hends _, .inl ⟨rfl, by simp⟩⟩
      · have hrest : ¬job.Over := by simp [Job.Over, hstage, hcancelling]
        cases h
        exact ⟨job, { job with stage := .staggering }, rfl, rfl, fun hover => absurd hover hrest,
          .inl ⟨rfl, by simp⟩⟩
      · have hrest : ¬job.Over := by simp [Job.Over, hstage, hcancelling]
        cases h
        exact ⟨job, { job with stage := .starting }, rfl, rfl, fun hover => absurd hover hrest,
          .inr ⟨rfl, hrest⟩⟩
    | staggering | backingOff =>
      simp only [hstage] at h
      split_ifs at h with hcancelling
      · cases h
        exact ⟨job, { job with stage := .done }, rfl, rfl, fun _ => hends _, .inl ⟨rfl, by simp⟩⟩
      · have hrest : ¬job.Over := by simp [Job.Over, hstage, hcancelling]
        cases h
        exact ⟨job, { job with stage := .starting }, rfl, rfl, fun hover => absurd hover hrest,
          .inr ⟨rfl, hrest⟩⟩
    | starting =>
      have hrest : ¬job.Over := by simp [Job.Over, hstage]
      have hended : some (setJob task { job with stage := .done, cancelling := false } s) =
          some s' → ∃ job' : Job, job'.child = job.child ∧ job'.stage = .done ∧
            s' = setJob task job' s := fun he =>
        ⟨{ job with stage := .done, cancelling := false }, rfl, rfl, (Option.some.inj he).symm⟩
      simp only [hstage] at h
      cases outcome with
      | none =>
        obtain ⟨job', hchild, hdone, he⟩ := hended h
        exact ⟨job, job', rfl, hchild, fun _ => .inl hdone, .inl ⟨he, fun _ => hstage⟩⟩
      | some e =>
        cases e with
        | cancelled =>
          obtain ⟨job', hchild, hdone, he⟩ := hended h
          exact ⟨job, job', rfl, hchild, fun _ => .inl hdone, .inl ⟨he, fun _ => hstage⟩⟩
        | error e =>
          cases h
          exact ⟨job, { job with stage := .backingOff, cancelling := false }, rfl, rfl,
            fun hover => absurd hover hrest, .inl ⟨rfl, fun _ => hstage⟩⟩
    | done => simp [hstage] at h

/-! ## What never changes -/

theorem spawnAll_grows (order : List String) (index : ℕ) (s : State) :
    (spawnAll order index s).1.entered = s.entered ∧ (spawnAll order index s).1.made = s.made := by
  induction order generalizing s index with
  | nil => exact ⟨rfl, rfl⟩
  | cons t order ih =>
    unfold spawnAll
    cases s.children.get? t with
    | none => exact ⟨rfl, rfl⟩
    | some child => exact ih (index + 1) _

/-- What was entered and made stays so, and a `start` is entered by a task that is not over. -/
def Grows (s s' : State) : Prop :=
  ∃ later newly, s'.entered = s.entered ++ later ∧ s'.made = s.made ++ newly ∧
    ∀ c, Entered.start c ∈ later → ∃ (k : ℕ) (job : Job), s.jobs[k]? = some job ∧ job.child = c ∧
      ¬job.Over

theorem Grows.same (he : s'.entered = s.entered) (hm : s'.made = s.made) : Grows s s' :=
  ⟨[], [], by simp [he], by simp [hm], by simp⟩

theorem Grows.stop {c : ℕ} (he : s'.entered = s.entered ++ [Entered.stop c])
    (hm : s'.made = s.made) : Grows s s' :=
  ⟨[.stop c], [], he, by simp [hm], by simp⟩

theorem Visits.grows {left : ℕ} (h : Visits s left s' p') : Grows s s' := by
  cases h with
  | ends => exact .same rfl rfl
  | awaits => exact .same rfl rfl
  | stops => exact .stop rfl rfl

theorem stopRemoved_grows (t : String) (n : ℕ) (child : Option ℕ) (he : s'.entered = s.entered)
    (hm : s'.made = s.made) : Grows s (stopRemoved t n child s').1 := by
  cases child with
  | none => exact .same he hm
  | some c => exact .stop (c := c) (by simp [stopRemoved, enter, he]) hm

theorem Moves.grows {x : Input} (h : Moves cfg s x p s' p') : Grows s s' := by
  cases h with
  | passes | starts | cancels | childStopped | raises | interrupted | stopsAgain =>
    exact .same rfl rfl
  | registers x t | spawns t =>
    exact ⟨[], [t], (List.append_nil _).symm, rfl, by simp⟩
  | spawnsAll =>
    obtain ⟨he, hm⟩ := spawnAll_grows s.order 0 { s with started := true }
    exact .same he hm
  | goesOn x task outcome s' hgoes =>
    obtain ⟨job, job', hjob, -, -, hcase⟩ := goOn_cases hgoes
    rcases hcase with ⟨rfl, -⟩ | ⟨rfl, hrest⟩
    · exact .same rfl rfl
    · refine ⟨[.start job.child], [], rfl, (List.append_nil _).symm, fun c hc => ?_⟩
      cases List.mem_singleton.mp hc
      exact ⟨task, job, hjob, rfl, hrest⟩
  | removes t | removed x t => exact stopRemoved_grows _ _ _ rfl rfl
  | stops hstopped s' p' hvisits =>
    have hgrows := hvisits.grows
    exact hgrows
  | visits outcome hkept left s' p' hvisits => exact hvisits.grows
  | passesOn outcome t left task hlive hchild s' p' hvisits => exact hvisits.grows
  | visited => exact .stop rfl rfl

theorem Moves.not_ended {x : Input} (h : Moves cfg s x p s' p') :
    p ≠ .stopReturned ∧ ∀ t n, p ≠ .deactivated t n := by
  cases h with
  | raises x p hp => rcases hp with ⟨t, n, rfl⟩ | ⟨left, rfl⟩ <;> simp
  | interrupted x p t task hp =>
    constructor
    · rintro rfl
      cases hp
    · rintro t' n rfl
      cases hp
  | _ => simp

end TenantFanoutSupervisor

end Varco
